import TypedIR.Build.Value
import TypedIR.Proofs.BuiltFunctions

/-
  Operations of the builder on one function.

  What an operation does with a function of the builder, it does through the engine of
  the runtime of that function. So what is known of that engine is what is known of the
  place where the function is built (`Workspace.Place`), and a fact about an operation of
  the engine becomes one about the operation of the builder. Nothing is known of notes,
  which go to the trace when an operation is over (`Engine.Blind`).
-/

namespace TypedIR

def Engine.Blind (P : Engine → Prop) : Prop :=
  ∀ ⦃e : Engine⦄ (notes : Array Trace.Note), P e → P { e with notes }

/-- A function of the builder, and what is known of the engine of its runtime. -/
structure Workspace.Place (w : Workspace) (fn : FnId) (s : Function) (P : Engine → Prop) : Prop where
  function : w.functions[fn]? = some s
  engine : ∃ r, w.runtimes[s.runtime]? = some r ∧ P r.engine

theorem Val.valid_of_pos {v : Val} {fn : FnId} (hfn : v.fn = some fn) (hid : 0 < v.id) :
    v.valid = true := by
  have hne : v.id ≠ 0 := Nat.pos_iff_ne_zero.mp hid
  unfold Val.valid
  simp [hfn, hne]

def Function.withProblem (s : Function) (p : Problem) : Function :=
  { s with problem := s.problem.or (some p) }

def Function.finished (s : Function) : Function := { s with compiled := true }

theorem BuildM.onValue_eq {fn : FnId} {v : Val} (hfn : v.fn = some fn) (hid : 0 < v.id) (op : String)
    (fallback : Val) (act : FnId → BuildM Val) : onValue v op fallback act = act fn := by
  unfold onValue subject?
  rw [hfn, Val.valid_of_pos hfn hid]
  rfl

theorem BuildM.operand?_eq {fn : FnId} {v : Val} (hfn : v.fn = some fn) (hid : 0 < v.id)
    (op : String) (like : Ty) : operand? fn op (.value v) like = pure (some v) := by
  unfold operand?
  dsimp only
  rw [Val.valid_of_pos hfn hid, hfn]
  simp

theorem BuildM.ends_guarded {α : Type} {w : Workspace} {fn : FnId} {fallback : α} {act : BuildM α}
    {ok : α → Workspace → Prop} (h : Ends act w ok fun _ _ => False) :
    Ends (guarded fn fallback act) w ok fun _ _ => False := by
  refine .bind' ((ends_attempt h).imp_stop fun _ _ h => h.2) ?_
  rintro (p | a) w' ha
  · exact ha.elim
  · exact .pure' ha

theorem BuildM.ends_keeping {α : Type} {w : Workspace} {fn : FnId} {act : BuildM α}
    {ok : α → Workspace → Prop} (h : Ends act w ok fun _ _ => False) :
    Ends (keeping fn act) w ok fun _ _ => False := by
  refine .bind' ((ends_attempt h).imp_stop fun _ _ h => h.2) ?_
  rintro (p | a) w' ha
  · exact ha.elim
  · exact .pure' ha

namespace Workspace.Place

open BuildM

variable {α β : Type} {w : Workspace} {fn : FnId} {s : Function} {P P' : Engine → Prop}
  {Q : α → Engine → Prop}

theorem mono (h : w.Place fn s P) (himp : ∀ e, P e → P' e) : w.Place fn s P' :=
  ⟨h.function, h.engine.imp fun r hr => ⟨hr.1, himp r.engine hr.2⟩⟩

theorem advance (h : w.Place fn s P) {r : Runtime} (hr : w.runtimes[s.runtime]? = some r)
    {e : Engine} (he : P' e) (spans : List Trace.Span) (tracing : Trace.Tracing) :
    (w.advance s.runtime r e spans tracing).Place fn s P' where
  function := h.function
  engine := ⟨{ r with engine := e, spans }, by rw [getElem?_advance e spans tracing hr, if_pos rfl], he⟩

theorem modify (h : w.Place fn s P) {g : Function → Function} (hg : (g s).runtime = s.runtime) :
    { w with functions := w.functions.modify fn g : Workspace }.Place fn (g s) P where
  function := by
    show (w.functions.modify fn g)[fn]? = some (g s)
    rw [Array.getElem?_modify, if_pos rfl, h.function]
    rfl
  engine := by
    rw [hg]
    exact h.engine

/-! ### Questions -/

theorem ends_function (h : w.Place fn s P) {k : Function → BuildM β} {ok : β → Workspace → Prop}
    {stop : Stop → Workspace → Prop} (hk : Ends (k s) w ok stop) :
    Ends (BuildM.function fn >>= k) w ok stop :=
  BuildM.ends_function h.function hk

theorem ends_table (h : w.Place fn s P) {k : TypeTable → BuildM β} {ok : β → Workspace → Prop}
    {stop : Stop → Workspace → Prop} (hk : ∀ e : Engine, P e → Ends (k e.types) w ok stop) :
    Ends (table s.runtime >>= k) w ok stop := by
  obtain ⟨r, hr, he⟩ := h.engine
  refine Ends.bind_ok ?_ (hk r.engine he)
  rw [run_table, hr]
  rfl

theorem ends_engine (h : w.Place fn s P) {k : Engine → BuildM β} {ok : β → Workspace → Prop}
    {stop : Stop → Workspace → Prop} (hk : ∀ e : Engine, P e → Ends (k e) w ok stop) :
    Ends (BuildM.engine s.runtime >>= k) w ok stop := by
  obtain ⟨r, hr, he⟩ := h.engine
  refine Ends.bind_ok ?_ (hk r.engine he)
  rw [run_engine, hr]
  rfl

theorem ends_tyText (h : w.Place fn s P) {t : Ty} (ht : t.owner = some s.runtime) :
    Ends (tyText t) w (fun _ w' => w = w') fun _ _ => False := by
  obtain ⟨r, hr, -⟩ := h.engine
  refine BuildM.ends_tyText fun rt howner => ?_
  rw [ht] at howner
  cases howner
  exact lt_of_getElem? hr

theorem ends_functionName (h : w.Place fn s P) :
    Ends (functionName fn) w (fun _ w' => w = w') fun _ _ => False := by
  refine h.ends_function (h.ends_engine fun e he => ?_)
  cases e.findFunc s.id with
  | ok f => exact .pure' rfl
  | error err => exact .pure' rfl

/-! ### Operations of the engine -/

theorem ends_tryEngine (h : w.Place fn s P) {act : EngineM α}
    (hact : ∀ e : Engine, P e → Ends act e Q fun _ _ => False) (hQ : ∀ a, Engine.Blind (Q a)) :
    Ends (tryEngine s.runtime act) w (fun a w' => ∃ b, a = .ok b ∧ w'.Place fn s (Q b))
      fun _ _ => False := by
  obtain ⟨r, hr, he⟩ := h.engine
  obtain ⟨spans, tracing, hrun⟩ := run_onEngineState hr
    fun e => (act.run e : Except Failure α × Engine)
  have hends := hact r.engine he
  unfold Ends at hends
  unfold tryEngine Ends
  rw [hrun]
  rcases hr' : (act.run r.engine : Except Failure α × Engine) with ⟨err | a, e⟩ <;> rw [hr'] at hends
  · exact hends.elim
  · exact ⟨a, rfl, h.advance hr (hQ a #[] hends) spans tracing⟩

theorem ends_onEngine (h : w.Place fn s P) (op : String) {act : EngineM α}
    (hact : ∀ e : Engine, P e → Ends act e Q fun _ _ => False) (hQ : ∀ a, Engine.Blind (Q a)) :
    Ends (onEngine s.runtime op act) w (fun a w' => w'.Place fn s (Q a)) fun _ _ => False := by
  obtain ⟨r, hr, he⟩ := h.engine
  refine (ends_operation op hr (hact r.engine he)).mono ?_ ?_
  · rintro a _ ⟨e, spans, tracing, hpost, rfl⟩
    exact h.advance hr (hQ a #[] hpost) spans tracing
  · rintro _ _ ⟨-, -, -, -, -, hfalse, -⟩
    exact hfalse

theorem ends_onFunc (h : w.Place fn s P) (op : String) {act : FuncId → EngineM α}
    (hact : ∀ e : Engine, P e → Ends (act s.id) e Q fun _ _ => False) (hQ : ∀ a, Engine.Blind (Q a)) :
    Ends (onFunc fn op act) w (fun a w' => w'.Place fn s (Q a)) fun _ _ => False :=
  h.ends_function (h.ends_onEngine op hact hQ)

theorem ends_trace (h : w.Place fn s P) (n : Trace.Note) :
    Ends (trace s.runtime n) w (fun _ w' => w'.Place fn s P) fun _ _ => False := by
  obtain ⟨r, hr, he⟩ := h.engine
  obtain ⟨spans, tracing, hrun⟩ := run_trace hr n
  unfold Ends
  rw [hrun]
  exact h.advance hr he spans tracing

theorem ends_keep (h : w.Place fn s P) (p : Problem) :
    Ends (keep fn p) w (fun _ w' => w'.Place fn (s.withProblem p) P) fun _ _ => False := by
  refine h.ends_function (.ite' (fun hnone => .bind_modify ?_) fun hsome => .pure' ?_)
  · have hadded : s.withProblem p = { s with problem := some p } := by
      unfold Function.withProblem
      rw [Option.isNone_iff_eq_none.mp hnone]
      rfl
    rw [hadded]
    exact ends_trace (h.modify (g := ({ · with problem := some p })) rfl) _
  · have hkept : s.withProblem p = s := by
      unfold Function.withProblem
      rcases hp : s.problem with _ | q
      · rw [hp] at hsome
        exact absurd rfl hsome
      · rw [← hp]
        cases s
        simp_all
    rwa [hkept]

/-! ### Values -/

def Wraps (s : Function) (P : Engine → Prop) (id : ValueId) (t : Ty) : Prop :=
  ∀ e : Engine, P e → ∃ f info, e.findFunc s.id = .ok f ∧ f.value? id = some info ∧
    e.types.wrap? s.runtime info.type = some t

theorem ends_wrapValue (h : w.Place fn s P) (hP : Engine.Blind P) {id : ValueId} {t : Ty}
    (ht : Wraps s P id t) :
    Ends (wrapValue fn id) w
      (fun v w' => v = { fn := some fn, id, kind := .ofTy t, type := t } ∧ w'.Place fn s P)
      fun _ _ => False := by
  have hinfo : ∀ e : Engine, P e → Ends (EngineM.valueInfo s.id id) e
      (fun info e' => e'.types.wrap? s.runtime info.type = some t ∧ P e') fun _ _ => False := by
    intro e he
    obtain ⟨f, info, hf, hv, hwrap⟩ := ht e he
    refine EngineM.ends_answered hf ?_
    rw [hv]
    exact .pure' ⟨hwrap, he⟩
  refine h.ends_function (.bind' (h.ends_onEngine "wrap" hinfo
    fun _ _ notes he => ⟨he.1, hP notes he.2⟩) ?_)
  intro info w' h'
  have hwrap : Ends (wrapType s.runtime info.type) w' (fun a w'' => a = t ∧ w'' = w')
      fun _ _ => False := by
    refine h'.ends_table fun e he => ?_
    rw [he.1]
    exact .pure' ⟨rfl, rfl⟩
  refine .bind' hwrap ?_
  rintro _ _ ⟨rfl, rfl⟩
  exact .pure' ⟨rfl, h'.mono fun _ he => he.2⟩

theorem ends_emit (h : w.Place fn s P) (op : String) {act : FuncId → EngineM ValueId} {t : Ty}
    {Q : ValueId → Engine → Prop}
    (hact : ∀ e : Engine, P e → Ends (act s.id) e Q fun _ _ => False)
    (hQ : ∀ id, Engine.Blind (Q id)) (ht : ∀ id, Wraps s (Q id) id t) :
    Ends (emit fn op act) w
      (fun v w' => v = { fn := some fn, id := v.id, kind := .ofTy t, type := t } ∧
        w'.Place fn s (Q v.id)) fun _ _ => False := by
  refine ends_guarded (.bind' (h.ends_onFunc op hact hQ) ?_)
  intro id w' h'
  refine (h'.ends_wrapValue (hQ id) (ht id)).imp ?_
  rintro v w'' ⟨rfl, h''⟩
  exact ⟨rfl, h''⟩

theorem ends_reject (h : w.Place fn s P) (op : String) (why : Complaint) :
    Ends (reject fn op why) w
      (fun v w' => v = {} ∧ w'.Place fn (s.withProblem (.complaint op why)) P) fun _ _ => False :=
  .bind' (h.ends_keep (.complaint op why)) fun _ _ h' => .pure' ⟨rfl, h'⟩

/-! ### Returning and compiling -/

theorem ends_ret (h : w.Place fn s P) {v : Val} (hfn : v.fn = some fn) (hid : 0 < v.id)
    (hact : ∀ e : Engine, P e → Ends (EngineM.ret s.id v.id) e (fun _ e' => P' e') fun _ _ => False)
    (hP' : Engine.Blind P') :
    Ends (ret fn (.value v)) w (fun _ w' => w'.Place fn s P') fun _ _ => False := by
  refine h.ends_function ?_
  rw [operand?_eq hfn hid, pure_bind]
  exact ends_guarded (h.ends_onFunc "return" hact fun _ => hP')

theorem ends_compile (h : w.Place fn s P) (hp : s.problem = none) (hc : s.compiled = false)
    (hreach : ∀ e : Engine, P e → Ends (EngineM.defaultReturn s.id) e
      (fun a e' => a = some false ∧ P e') fun _ _ => False)
    (hframe : ∀ e : Engine, P e → Ends (EngineM.compile s.id) e (fun _ e' => P' e') fun _ _ => False)
    (hP : Engine.Blind P) (hP' : Engine.Blind P') :
    Ends (compile fn) w (fun _ w' => w'.Place fn s.finished P') fun _ _ => False := by
  have hfinish : ∀ {w₁ : Workspace}, w₁.Place fn s P → Ends (finish fn) w₁
      (fun _ w' => w'.Place fn s.finished P') fun _ _ => False := by
    intro w₁ h₁
    have hanswer : Ends (reachesEnd fn) w₁ (fun reach w' => reach = false ∧ w'.Place fn s P)
        fun _ _ => False := by
      refine .bind' (h₁.ends_onFunc "compile" hreach fun _ _ notes he => ⟨he.1, hP notes he.2⟩) ?_
      intro a w₂ h₂
      obtain ⟨_, -, rfl, -⟩ := h₂.engine
      exact .pure' ⟨rfl, h₂.mono fun _ h => h.2⟩
    refine ends_keeping (h₁.ends_function (.bind' hanswer ?_))
    rintro _ w₂ ⟨rfl, h₂⟩
    refine .bind' (h₂.ends_onFunc "compile" hframe fun _ => hP') ?_
    intro _ w₃ h₃
    exact .modify' (h₃.modify (g := ({ · with compiled := true })) rfl)
  refine h.ends_function ?_
  rw [hp]
  refine .ite' (fun hyes => ?_) fun _ => .bind' h.ends_functionName ?_
  · rw [hc] at hyes
    cases hyes
  rintro name _ rfl
  refine .bind' (h.ends_trace _) fun _ w₁ h₁ => ?_
  refine .bind' ((ends_attempt (hfinish h₁)).imp_stop fun _ _ h => h.2) ?_
  rintro (p | _) w₂ h₂
  · exact h₂.elim
  · exact ends_trace h₂ _

end Workspace.Place

end TypedIR
