import TypedIR.Build.Control
import TypedIR.Proofs.SealedFunctions
import TypedIR.Proofs.TypeQuestions

/-
  Problems are kept with the function they belong to.

  The builder reports nothing to its caller while a function is built: what
  goes wrong is kept with the function, and the first problem stays. So the
  function itself has to tell whether everything went well. `Tends` says what
  an operation on a function does to it: a problem it has stays; if it has none
  afterwards, the engine took every instruction of the operation
  (`Engine.Accepts`), and the answer is what it should be.
-/

namespace TypedIR

open Engine Workspace

/-! ## What the engine accepts -/

/-- The engine took some operations on the function `id`, one after the other. In
between, functions and contexts stayed what they were. -/
inductive Engine.Accepts (id : FuncId) : List Operation → Engine → Engine → Prop
  | still {e e' : Engine} (h : e.Still e') : Accepts id [] e e'
  | next {e e₁ e₂ e' : Engine} {op : Operation} {ops : List Operation} (h : e.Still e₁)
      (hop : op.target? = some id)
      (hrun : (op.perform.run e₁ : Except Failure Unit × Engine) = (.ok (), e₂))
      (hrest : Accepts id ops e₂ e') : Accepts id (op :: ops) e e'

namespace Engine.Accepts

variable {id : FuncId} {ops ops' : List Operation} {e e₁ e' : Engine}

theorem after (h : e.Still e₁) (h' : Accepts id ops e₁ e') : Accepts id ops e e' := by
  cases h' with
  | still h' => exact .still (Trans.trans h h')
  | next h' hop hrun hrest => exact .next (Trans.trans h h') hop hrun hrest

theorem append (h : Accepts id ops e e₁) (h' : Accepts id ops' e₁ e') :
    Accepts id (ops ++ ops') e e' := by
  induction h with
  | still h => exact h'.after h
  | next h hop hrun _ ih => exact .next h hop hrun (ih h')

end Engine.Accepts

/-- An engine operation that a builder operation runs is one of the operations on its
function. -/
def Performs {α : Type} (act : FuncId → EngineM α) (op : FuncId → Operation) : Prop :=
  ∀ id e a e', ((act id).run e : Except Failure α × Engine) = (.ok a, e') →
    (op id).target? = some id ∧
      ((op id).perform.run e : Except Failure Unit × Engine) = (.ok (), e')

theorem Performs.of_discard {α : Type} {act : FuncId → EngineM α} {op : FuncId → Operation}
    (htarget : ∀ id, (op id).target? = some id)
    (hperform : ∀ id, (op id).perform = Functor.discard (act id)) : Performs act op := by
  intro id e a e' hrun
  refine ⟨htarget id, ?_⟩
  rw [hperform]
  show ((act id >>= fun _ => pure ()).run e : Except Failure Unit × Engine) = _
  rw [run_bind, hrun]
  rfl

theorem Performs.of_unit {act : FuncId → EngineM Unit} {op : FuncId → Operation}
    (htarget : ∀ id, (op id).target? = some id) (hperform : ∀ id, (op id).perform = act id) :
    Performs act op := by
  intro id e a e' hrun
  exact ⟨htarget id, (hperform id) ▸ hrun⟩

/-! ## A function and its runtime -/

/-- A function of the builder, and the runtime it is in. -/
structure Workspace.Finds (w : Workspace) (f : FnId) (s : Function) (r : Runtime) : Prop where
  func : w.functions[f]? = some s
  runtime : w.runtimes[s.runtime]? = some r

/-- A function stands for what it stood for, and a problem it has stays. -/
structure Function.Lasts (s s' : Function) : Prop where
  runtime : s'.runtime = s.runtime
  id : s'.id = s.id
  problem : ∀ p, s.problem = some p → s'.problem = some p

/-- The function lasts, and is compiled if it was. -/
structure Function.Stays (s s' : Function) : Prop extends s.Lasts s' where
  compiled : s'.compiled = s.compiled

namespace Function

theorem Lasts.refl (s : Function) : s.Lasts s := ⟨rfl, rfl, fun _ h => h⟩

theorem Lasts.trans {s s' s'' : Function} (h : s.Lasts s') (h' : s'.Lasts s'') : s.Lasts s'' :=
  ⟨h'.runtime.trans h.runtime, h'.id.trans h.id, fun p hp => h'.problem p (h.problem p hp)⟩

theorem Lasts.clean {s s' : Function} (h : s.Lasts s') (h' : s'.problem = none) :
    s.problem = none := by
  cases hp : s.problem with
  | none => rfl
  | some p => exact absurd ((h.problem p hp).symm.trans h') nofun

theorem Stays.refl (s : Function) : s.Stays s := ⟨.refl s, rfl⟩

theorem Stays.trans {s s' s'' : Function} (h : s.Stays s') (h' : s'.Stays s'') : s.Stays s'' :=
  ⟨h.toLasts.trans h'.toLasts, h'.compiled.trans h.compiled⟩

theorem Stays.of_problem {s : Function} (h : s.problem = none) (p : Problem) :
    s.Stays { s with problem := some p } :=
  ⟨⟨rfl, rfl, fun _ hq => absurd (h.symm.trans hq) nofun⟩, rfl⟩

end Function

namespace Workspace

variable {w w' : Workspace} {f : FnId} {s s' : Function} {r r' : Runtime}

theorem Finds.unique (h : w.Finds f s r) (h' : w.Finds f s' r') : s' = s ∧ r' = r := by
  obtain rfl := Option.mem_unique h.func h'.func
  exact ⟨rfl, Option.mem_unique h'.runtime h.runtime⟩

def Undisturbed (f : FnId) (w w' : Workspace) : Prop :=
  ∀ s r, w.Finds f s r → ∃ r', w'.Finds f s r' ∧ r.engine.Still r'.engine

instance (f : FnId) : Std.Refl (Undisturbed f) := ⟨fun _ _ r h => ⟨r, h, Std.Refl.refl r.engine⟩⟩

instance (f : FnId) : Trans (Undisturbed f) (Undisturbed f) (Undisturbed f) where
  trans h h' s r hw := by
    obtain ⟨r₁, hw₁, h₁⟩ := h s r hw
    obtain ⟨r₂, hw₂, h₂⟩ := h' s r₁ hw₁
    exact ⟨r₂, hw₂, Trans.trans h₁ h₂⟩

theorem Finds.advance {rt : RuntimeId} {r₀ : Runtime} (h : w.Finds f s r)
    (h₀ : w.runtimes[rt]? = some r₀) (e : Engine) (spans : List Trace.Span)
    (tracing : Trace.Tracing) :
    (w.advance rt r₀ e spans tracing).Finds f s
      (if s.runtime = rt then { r₀ with engine := e, spans } else r) := by
  refine ⟨h.func, ?_⟩
  show (w.runtimes.setIfInBounds rt _)[s.runtime]? = _
  have hlt := lt_of_getElem? h₀
  by_cases hrt : s.runtime = rt
  · simp [hrt, hlt]
  · rw [if_neg hrt, Array.getElem?_setIfInBounds_ne (Ne.symm hrt)]
    exact h.runtime

theorem Finds.modify {g : Function → Function} (h : w.Finds f s r)
    (hg : (g s).runtime = s.runtime) :
    ({ w with functions := w.functions.modify f g } : Workspace).Finds f (g s) r := by
  refine ⟨?_, ?_⟩
  · show (w.functions.modify f g)[f]? = some (g s)
    rw [Array.getElem?_modify, if_pos rfl, h.func]
    rfl
  · rw [hg]
    exact h.runtime

theorem undisturbed_modifyRuntime (f : FnId) (rt : RuntimeId) {g : Runtime → Runtime}
    (hg : ∀ r : Runtime, r.engine.Still (g r).engine) :
    Asks (Undisturbed f) (BuildM.modifyRuntime rt g) := by
  intro w
  refine Ends.modify' fun s r h => ?_
  refine ⟨if rt = s.runtime then g r else r, ⟨h.func, ?_⟩, ?_⟩
  · show (w.runtimes.modify rt g)[s.runtime]? = _
    rw [Array.getElem?_modify, h.runtime]
    split <;> rfl
  · split
    · exact hg r
    · exact Std.Refl.refl r.engine

instance (f : FnId) : Follows (Undisturbed f) Still where
  advance {w rt r₀ e} spans tracing h₀ he s r h := by
    refine ⟨_, h.advance h₀ { e with notes := #[] } spans tracing, ?_⟩
    split
    · next hrt =>
      obtain rfl : r = r₀ := Option.mem_unique (hrt ▸ h.runtime) h₀
      exact he
    · exact Std.Refl.refl r.engine
  traced {w rt r₀} spans tracing h₀ s r h := by
    refine ⟨_, h.advance h₀ r₀.engine spans tracing, ?_⟩
    split
    · next hrt =>
      obtain rfl : r = r₀ := Option.mem_unique (hrt ▸ h.runtime) h₀
      exact Std.Refl.refl r.engine
    · exact Std.Refl.refl r.engine

end Workspace

/-! ## Operations on a function -/

/-- What an operation does to the function `f`: it stays and keeps a problem it has.
`sure` holds of the answer. If the function has no problem after the operation, then the
engine accepted what the operation emitted, and `post` holds of the answer and of what was
accepted. With `watched`, an operation that stops with a problem leaves one with the
function. -/
def Tends {α : Type} (watched : Prop) (f : FnId) (act : BuildM α) (sure : α → Prop)
    (post : α → FuncId → List Operation → Prop) : Prop :=
  ∀ w s r, w.Finds f s r →
    Ends act w
      (fun a w' => sure a ∧ ∃ s' r', w'.Finds f s' r' ∧ s.Stays s' ∧ (s'.problem = none →
        ∃ ops, post a s.id ops ∧ Accepts s.id ops r.engine r'.engine))
      (fun how w' => ∃ s' r', w'.Finds f s' r' ∧ s.Stays s' ∧
        (watched → (∃ p, how = .problem p) → s'.problem ≠ none))

namespace Tends

variable {α β : Type} {watched : Prop} {f : FnId} {act : BuildM α}
  {sure sure' : α → Prop} {post post' : α → FuncId → List Operation → Prop}

theorem mono (h : Tends watched f act sure post) (hsure : ∀ a, sure a → sure' a)
    (hpost : ∀ a id ops, sure a → post a id ops → post' a id ops) :
    Tends watched f act sure' post' := by
  intro w s r hw
  refine (h w s r hw).mono (fun a w' h' => ?_) fun _ _ h' => h'
  obtain ⟨ha, s', r', hw', hs, hclean⟩ := h'
  refine ⟨hsure a ha, s', r', hw', hs, fun hp => ?_⟩
  obtain ⟨ops, hops, haccept⟩ := hclean hp
  exact ⟨ops, hpost _ _ _ ha hops, haccept⟩

theorem pure' {a : α} (hsure : sure a) (hpost : ∀ id, post a id []) :
    Tends watched f (pure a : BuildM α) sure post := by
  intro w s r hw
  exact Ends.pure' ⟨hsure, s, r, hw, .refl s,
    fun _ => ⟨[], hpost s.id, .still (Std.Refl.refl r.engine)⟩⟩

theorem throw' {how : Stop} (h : ∀ p, how ≠ .problem p) :
    Tends watched f (throw how : BuildM α) sure post :=
  fun _ s r hw => Ends.throw' ⟨s, r, hw, .refl s, fun _ hp => hp.elim fun p hp => absurd hp (h p)⟩

theorem resume {w : Workspace} {s s₁ : Function} {r r₁ : Runtime}
    {before : FuncId → List Operation → Prop}
    (h : Tends watched f act sure fun a id ops' => ∀ ops, before id ops → post a id (ops ++ ops'))
    (hw : w.Finds f s₁ r₁) (hs : s.Stays s₁) (hclean : s₁.problem = none →
      ∃ ops, before s.id ops ∧ Accepts s.id ops r.engine r₁.engine) :
    Ends act w
      (fun a w' => sure a ∧ ∃ s' r', w'.Finds f s' r' ∧ s.Stays s' ∧ (s'.problem = none →
        ∃ ops, post a s.id ops ∧ Accepts s.id ops r.engine r'.engine))
      (fun how w' => ∃ s' r', w'.Finds f s' r' ∧ s.Stays s' ∧
        (watched → (∃ p, how = .problem p) → s'.problem ≠ none)) := by
  refine (h w s₁ r₁ hw).mono (fun a w' h' => ?_) fun how w' h' => ?_
  · obtain ⟨ha, s', r', hw', hs', hclean'⟩ := h'
    rw [hs.id] at hclean'
    refine ⟨ha, s', r', hw', hs.trans hs', fun hp => ?_⟩
    obtain ⟨ops, hops, haccept⟩ := hclean (hs'.clean hp)
    obtain ⟨ops', hops', haccept'⟩ := hclean' hp
    exact ⟨ops ++ ops', hops' ops hops, haccept.append haccept'⟩
  · obtain ⟨s', r', hw', hs', hproblem⟩ := h'
    exact ⟨s', r', hw', hs.trans hs', hproblem⟩

/-- Two operations: what is accepted of the second comes after what is accepted of the
first. -/
theorem bind' {k : α → BuildM β} {sure₂ : β → Prop}
    {after : β → FuncId → List Operation → Prop} (h : Tends watched f act sure post)
    (hk : ∀ a, sure a → Tends watched f (k a) sure₂ fun b id ops' =>
      ∀ ops, post a id ops → after b id (ops ++ ops')) :
    Tends watched f (act >>= k) sure₂ after := by
  intro w s r hw
  refine .bind' (h w s r hw) fun a w₁ h₁ => ?_
  obtain ⟨ha, s₁, r₁, hw₁, hs₁, hclean₁⟩ := h₁
  exact (hk a ha).resume hw₁ hs₁ hclean₁

theorem ite' {c : Prop} [Decidable c] {other : BuildM α}
    (hpos : c → Tends watched f act sure post) (hneg : ¬ c → Tends watched f other sure post) :
    Tends watched f (if c then act else other) sure post :=
  fun w s r hw => .ite' (fun hc => hpos hc w s r hw) fun hc => hneg hc w s r hw

theorem ite_bind {c : Prop} [Decidable c] {other : BuildM α} {k : α → BuildM β}
    {sure₂ : β → Prop} {after : β → FuncId → List Operation → Prop}
    (hpos : c → Tends watched f act sure post) (hneg : ¬ c → Tends watched f other sure post)
    (hk : ∀ a, sure a → Tends watched f (k a) sure₂ fun b id ops' =>
      ∀ ops, post a id ops → after b id (ops ++ ops')) :
    Tends watched f (if c then act >>= k else other >>= k) sure₂ after :=
  ite' (fun hc => bind' (hpos hc) hk) fun hc => bind' (hneg hc) hk

theorem after_undisturbed {k : α → BuildM β} {sure₂ : β → Prop}
    {after : β → FuncId → List Operation → Prop}
    (h : ∀ w, Ends act w (fun a w' => sure a ∧ Undisturbed f w w')
      fun how w' => Undisturbed f w w' ∧ (watched → ∀ p, how ≠ .problem p))
    (hk : ∀ a, sure a → Tends watched f (k a) sure₂ after) :
    Tends watched f (act >>= k) sure₂ after := by
  intro w s r hw
  refine .bind' ((h w).mono (fun _ _ h' => h') fun how w' h' => ?_) fun a w₁ h₁ => ?_
  · obtain ⟨r', hw', -⟩ := h'.1 s r hw
    exact ⟨s, r', hw', .refl s, fun hwatched hp => hp.elim fun p hp => absurd hp (h'.2 hwatched p)⟩
  · obtain ⟨r₁, hw₁, hstill⟩ := h₁.2 s r hw
    have hlater : Tends watched f (k a) sure₂ fun b id ops' =>
        ∀ ops, ops = [] → after b id (ops ++ ops') := by
      refine (hk a h₁.1).mono (fun _ h => h) fun b id ops' _ hops' ops hops => ?_
      rwa [hops]
    exact hlater.resume hw₁ (.refl s) fun _ => ⟨[], rfl, .still hstill⟩

theorem asking {k : α → BuildM β} {sure₂ : β → Prop}
    {after : β → FuncId → List Operation → Prop} (h : Asks (Undisturbed f) act)
    (hk : ∀ a, Tends watched f (k a) sure₂ after) : Tends watched f (act >>= k) sure₂ after :=
  have hall : ∀ a, (fun _ : α => True) a → Tends watched f (k a) sure₂ after := fun a _ => hk a
  after_undisturbed
    (fun w => (h w).mono (fun _ _ h' => ⟨trivial, h'⟩) fun _ _ h' => ⟨h'.1, fun _ => h'.2⟩) hall

theorem trying {k : α → BuildM β} {sure₂ : β → Prop}
    {after : β → FuncId → List Operation → Prop} (h : Leaves (Undisturbed f) act)
    (hk : ∀ a, Tends False f (k a) sure₂ after) : Tends False f (act >>= k) sure₂ after :=
  have hall : ∀ a, (fun _ : α => True) a → Tends False f (k a) sure₂ after := fun a _ => hk a
  after_undisturbed
    (fun w => (h.ends w).mono (fun _ _ h' => ⟨trivial, h'⟩) fun _ _ h' => ⟨h', False.elim⟩) hall

/-- One operation after the other, where the answers do not depend on what was accepted. -/
theorem mapM' {g : α → BuildM β} {p : β → Prop} (xs : List α)
    (h : ∀ x, Tends watched f (g x) (fun _ => True) fun b _ _ => p b) :
    Tends watched f (xs.mapM g) (fun _ => True) fun bs _ _ => ∀ b ∈ bs, p b := by
  induction xs with
  | nil => exact pure' trivial fun _ b hb => absurd hb List.not_mem_nil
  | cons x xs ih =>
    rw [List.mapM_cons]
    refine bind' (h x) fun b _ => bind' ih fun bs _ => pure' trivial fun _ _ hbs _ hb c hc => ?_
    cases hc with
    | head => exact hb
    | tail _ hc => exact hbs c hc

theorem attempt {sure₂ : β → Prop} {after : β → FuncId → List Operation → Prop}
    {k : Except Problem α → BuildM β} (h : Tends False f act sure post)
    (hok : ∀ a, sure a → Tends watched f (k (.ok a)) sure₂ fun b id ops' =>
      ∀ ops, post a id ops → after b id (ops ++ ops'))
    (herror : ∀ p, Tends watched f (k (.error p)) sure₂ fun _ _ _ => False) :
    Tends watched f (BuildM.attempt act >>= k) sure₂ after := by
  intro w s r hw
  refine .bind' ((BuildM.ends_attempt (h w s r hw)).mono (fun _ _ h' => h') fun how w' h' => ?_)
    fun outcome w₁ h₁ => ?_
  · obtain ⟨hhow, s', r', hw', hs, -⟩ := h'
    exact ⟨s', r', hw', hs, fun _ hp => hp.elim fun p hp => absurd hp (hhow p)⟩
  · cases outcome with
    | ok a =>
      obtain ⟨ha, s₁, r₁, hw₁, hs₁, hclean₁⟩ := h₁
      exact (hok a ha).resume hw₁ hs₁ hclean₁
    | error p =>
      obtain ⟨s₁, r₁, hw₁, hs₁, -⟩ := h₁
      refine (herror p w₁ s₁ r₁ hw₁).mono (fun b w₂ h₂ => ?_) fun how w₂ h₂ => ?_
      · obtain ⟨hb, s₂, r₂, hw₂, hs₂, hclean₂⟩ := h₂
        exact ⟨hb, s₂, r₂, hw₂, hs₁.trans hs₂, fun hp => (hclean₂ hp).elim fun _ h => h.1.elim⟩
      · obtain ⟨s₂, r₂, hw₂, hs₂, hproblem⟩ := h₂
        exact ⟨s₂, r₂, hw₂, hs₁.trans hs₂, hproblem⟩

end Tends

def Val.Of (f : FnId) (v : Val) : Prop := v.fn = none ∨ v.fn = some f

/-- A value of a function. -/
structure Val.Own (f : FnId) (v : Val) : Prop where
  valid : v.valid = true
  fn : v.fn = some f

def Operation.MakesConstant (id : FuncId) (t : TypeId) : Operation → Prop
  | .constInt fn u _ | .constFloat32 fn u _ | .constFloat64 fn u _ => fn = id ∧ u = t
  | _ => False

def Val.Constant (f : FnId) (t : TypeId) (v : Val) (id : FuncId) (ops : List Operation) : Prop :=
  v.Own f ∧ ∃ op ∈ ops, op.MakesConstant id t

/-- A value is what a host value stands for: the value itself, or a constant that was
made for it. -/
def HostValue.Stands (x : HostValue) (v : ValueId) (id : FuncId) (ops : List Operation) : Prop :=
  match x with
  | .value u => v = u.id
  | _ => ∃ t, ∃ op ∈ ops, op.MakesConstant id t

theorem HostValue.Stands.mono {x : HostValue} {v : ValueId} {id : FuncId}
    {ops ops' : List Operation} (h : x.Stands v id ops) (hsub : ops ⊆ ops') :
    x.Stands v id ops' := by
  cases x with
  | value u => exact h
  | _ =>
    obtain ⟨t, op, hop, hmakes⟩ := h
    exact ⟨t, op, hsub hop, hmakes⟩

namespace BuildM

variable {α : Type} {watched : Prop} {f : FnId}

/-! ## Keeping problems -/

theorem tends_keep (f : FnId) (p : Problem) :
    Tends watched f (keep f p) (fun _ => True) fun _ _ _ => False := by
  intro w s r hw
  refine Ends.bind_ok (by rw [run_function, hw.func]; rfl) (.ite' (fun hnone => ?_) fun hsome => ?_)
  · have hnone : s.problem = none := Option.isNone_iff_eq_none.mp hnone
    have hkept : ({ w with functions := w.functions.modify f ({ · with problem := some p }) } :
        Workspace).Finds f { s with problem := some p } r := hw.modify rfl
    refine Ends.bind_modify ?_
    obtain ⟨spans, tracing, hrun⟩ :=
      run_trace hkept.runtime (.point .function "builder_error" p.message)
    unfold Ends
    rw [hrun]
    exact ⟨trivial, _, _, hkept.advance hkept.runtime _ spans tracing, .of_problem hnone p, nofun⟩
  · refine Ends.pure' ⟨trivial, s, r, hw, .refl s, fun h => absurd ?_ hsome⟩
    rw [h]
    rfl

theorem tends_keep_pure (f : FnId) (p : Problem) {a : α} {sure : α → Prop}
    {post : α → FuncId → List Operation → Prop} (h : sure a) :
    Tends watched f (do keep f p; pure a) sure post :=
  .bind' (tends_keep f p) fun _ _ => .pure' h fun _ _ h => h.elim

theorem tends_guarded {act : BuildM α} {fallback : α} {sure : α → Prop}
    {post : α → FuncId → List Operation → Prop} (h : Tends False f act sure post)
    (hfallback : sure fallback) : Tends watched f (guarded f fallback act) sure post := by
  refine h.attempt (fun a ha => .pure' ha fun id ops hops => ?_) fun p => tends_keep_pure f p hfallback
  rwa [List.append_nil]

theorem tends_keptProblem {act : BuildM Unit} {post : Unit → FuncId → List Operation → Prop}
    (h : Tends False f act (fun _ => True) post) :
    Tends watched f (keptProblem f act) (fun _ => True)
      fun answer id ops => answer = none ∧ post () id ops := by
  refine h.attempt (fun a _ => .pure' trivial fun id ops hops => ⟨rfl, ?_⟩) fun p =>
    tends_keep_pure f p trivial
  rwa [List.append_nil]

theorem tends_complaintOf (op : String) (c : Complaint)
    {post : Option Problem → FuncId → List Operation → Prop} :
    Tends watched f (complaintOf f op c) (fun _ => True) post :=
  tends_keep_pure f _ trivial

theorem tends_after_complaint {k : Option Problem → BuildM α} (op : String) (c : Complaint)
    {sure : α → Prop} {post : α → FuncId → List Operation → Prop}
    (hk : ∀ p, Tends watched f (k p) sure fun _ _ _ => True) :
    Tends watched f (complaintOf f op c >>= k) sure post := by
  have hcomplaint : Tends watched f (complaintOf f op c) (fun _ => True) fun _ _ _ => False :=
    tends_complaintOf op c
  exact .bind' hcomplaint fun p _ => (hk p).mono (fun _ h => h) fun _ _ _ _ _ _ h => h.elim

theorem tends_problemOf :
    Tends watched f (problemOf f) (fun _ => True) fun answer _ _ => answer = none := by
  intro w s r hw
  refine Ends.bind_ok (by rw [run_function, hw.func]; rfl) ?_
  exact Ends.pure' ⟨trivial, s, r, hw, .refl s, fun h => ⟨[], h, .still (Std.Refl.refl r.engine)⟩⟩

/-! ## Emitting -/

theorem ends_accepting {w : Workspace} {s : Function} {r : Runtime} (hw : w.Finds f s r)
    (name : String) {act : FuncId → EngineM α} (op : FuncId → Operation) (h : Performs act op) :
    Ends (onFunc f name act) w
      (fun _ w' => ∃ r', w'.Finds f s r' ∧ Accepts s.id [op s.id] r.engine r'.engine)
      (fun _ w' => ∃ r', w'.Finds f s r') := by
  have hact : Ends (act s.id) r.engine
      (fun a e => ((act s.id).run r.engine : Except Failure α × Engine) = (.ok a, e))
      fun _ _ => True := by
    unfold Ends
    rcases (act s.id).run r.engine with ⟨err | a, e⟩
    · trivial
    · rfl
  refine Ends.bind_ok (by rw [run_function, hw.func]; rfl) ?_
  refine (ends_operation name hw.runtime hact).mono (fun a w' h' => ?_) fun how w' h' => ?_
  · obtain ⟨e, spans, tracing, hrun, rfl⟩ := h'
    obtain ⟨htarget, hperform⟩ := h s.id r.engine a e hrun
    refine ⟨_, hw.advance hw.runtime _ spans tracing, ?_⟩
    rw [if_pos rfl]
    exact .next (Std.Refl.refl _) htarget hperform (.still ⟨rfl, rfl, rfl⟩)
  · obtain ⟨err, e, spans, tracing, -, -, rfl⟩ := h'
    exact ⟨_, hw.advance hw.runtime _ spans tracing⟩

theorem tends_onFunc (name : String) {act : FuncId → EngineM α} (op : FuncId → Operation)
    (h : Performs act op) :
    Tends False f (onFunc f name act) (fun _ => True) fun _ id ops => op id ∈ ops := by
  intro w s r hw
  refine (ends_accepting hw name op h).mono (fun a w' h' => ?_) fun how w' h' => ?_
  · obtain ⟨r', hw', haccept⟩ := h'
    exact ⟨trivial, s, r', hw', .refl s, fun _ => ⟨_, List.mem_singleton_self _, haccept⟩⟩
  · obtain ⟨r', hw'⟩ := h'
    exact ⟨s, r', hw', .refl s, False.elim⟩

theorem tends_attempted (name : String) {act : FuncId → EngineM Unit} (op : FuncId → Operation)
    (h : Performs act op) :
    Tends watched f (guarded f () (onFunc f name act)) (fun _ => True)
      fun _ id ops => op id ∈ ops :=
  tends_guarded (tends_onFunc name op h) trivial

theorem ends_valueInfo (rt : RuntimeId) (fn : FuncId) (id : ValueId) (w : Workspace) :
    Ends (onEngine rt "wrap" (EngineM.valueInfo fn id)) w (fun _ _ => id ≠ 0) fun _ _ => True := by
  have hvalue : ∀ e : Engine,
      Ends (EngineM.valueInfo fn id) e (fun _ _ => id ≠ 0) fun _ _ => True := by
    intro e
    refine Ends.bind_any fun g e' => ?_
    unfold Func.value?
    by_cases hid : id = 0
    · rw [if_pos hid]
      trivial
    · rw [if_neg hid]
      cases g.values[id]? with
      | some info => exact Ends.pure' hid
      | none => trivial
  cases hr : w.runtimes[rt]? with
  | none => exact (ends_operation_none "wrap" hr).mono (fun _ _ h => h.elim) fun _ _ _ => trivial
  | some r =>
    refine (ends_operation "wrap" hr (hvalue r.engine)).mono (fun _ _ h => ?_) fun _ _ _ => trivial
    obtain ⟨e, spans, tracing, hid, -⟩ := h
    exact hid

theorem tends_wrapValue (id : ValueId) :
    Tends False f (wrapValue f id) (Val.Of f) fun v _ _ => Val.Own f v := by
  refine .asking (asks_function f) fun s => ?_
  have hquiet : Leaves (Undisturbed f) (onEngine s.runtime "wrap" (EngineM.valueInfo s.id id)) :=
    leaves_onEngine _ _ (EngineM.quiet_valueInfo _ _)
  refine Tends.after_undisturbed (fun w => ?_) fun info (hne : id ≠ 0) => ?_
  · exact ((ends_valueInfo _ _ _ w).and' (hquiet.ends w)).imp_stop fun _ _ h => ⟨h.2, False.elim⟩
  · refine .trying (leaves_wrapType _ _) fun type => .pure' (.inr rfl) fun _ => ⟨?_, rfl⟩
    simpa [Val.valid] using hne

theorem tends_emit (name : String) {act : FuncId → EngineM ValueId} (op : FuncId → Operation)
    (h : Performs act op) :
    Tends watched f (emit f name act) (Val.Of f) fun v id ops => Val.Own f v ∧ op id ∈ ops := by
  refine tends_guarded (.bind' (tends_onFunc name op h) fun a _ => ?_) (.inl rfl)
  exact (tends_wrapValue a).mono (fun _ h => h) fun v id ops' _ hv ops hops =>
    ⟨hv, List.mem_append_left ops' hops⟩

theorem tends_reject (op : String) (c : Complaint) {post : Val → FuncId → List Operation → Prop} :
    Tends watched f (reject f op c) (Val.Of f) post :=
  tends_keep_pure f _ (.inl rfl)

theorem tends_rejectText (op : String) (t : Ty) (c : String → Complaint)
    {post : Val → FuncId → List Operation → Prop} :
    Tends watched f (do reject f op (c (← tyText t))) (Val.Of f) post :=
  .asking (asks_tyText t) fun _ => tends_reject op _

/-! ## Constants and operands -/

theorem tends_emitConstant {act : FuncId → EngineM ValueId} (op : FuncId → Operation) {t : TypeId}
    (h : Performs act op) (hop : ∀ id, (op id).MakesConstant id t) :
    Tends watched f (emit f "const" act) (Val.Of f) (Val.Constant f t) :=
  (tends_emit "const" op h).mono (fun _ h => h) fun _ id _ _ hv => ⟨hv.1, op id, hv.2, hop id⟩

theorem tends_constBits (t : Ty) (n : Int) :
    Tends watched f (constBits f t n) (Val.Of f) (Val.Constant f t.id) :=
  tends_emitConstant (fun id => .constInt id t.id n)
    (.of_discard (fun _ => rfl) fun _ => rfl) fun _ => ⟨rfl, rfl⟩

theorem tends_constUnsigned (t : Ty) (n : Nat) :
    Tends watched f (constUnsigned f t n) (Val.Of f) (Val.Constant f t.id) :=
  .asking (asks_widthOf t) fun _ => .ite' (fun _ => tends_rejectText _ t _) fun _ =>
    .ite' (fun _ => tends_rejectText _ t _) fun _ =>
      .ite' (fun _ => .throw' nofun) fun _ => tends_constBits t _

theorem tends_constSigned (t : Ty) (n : Int) :
    Tends watched f (constSigned f t n) (Val.Of f) (Val.Constant f t.id) :=
  .asking (asks_widthOf t) fun _ =>
    .ite' (fun _ => tends_constBits t n) fun _ => tends_rejectText _ t _

theorem tends_constInt (t : Ty) (n : Int) :
    Tends watched f (constInt f t n) (Val.Of f) (Val.Constant f t.id) :=
  .asking (asks_isIntType t) fun _ => .ite' (fun _ => tends_rejectText _ t _) fun _ =>
    .asking (asks_isUnsignedLike t) fun _ => .ite'
      (fun _ => .ite' (fun _ => tends_rejectText _ t _) fun _ => tends_constUnsigned t _)
      fun _ => tends_constSigned t n

theorem tends_constUint (t : Ty) (n : Nat) :
    Tends watched f (constUint f t n) (Val.Of f) (Val.Constant f t.id) :=
  .asking (asks_isIntType t) fun _ => .ite' (fun _ => tends_rejectText _ t _) fun _ =>
    .asking (asks_isSigned t) fun _ => .ite'
      (fun _ => .ite' (fun _ => tends_constSigned t n) fun _ => tends_rejectText _ t _)
      fun _ => tends_constUnsigned t n

theorem tends_constFloat (t : Ty) (x : Double) :
    Tends watched f (constFloat f t x) (Val.Of f) (Val.Constant f t.id) := by
  refine .asking (asks_isFloat t) fun _ => .ite' (fun _ => tends_rejectText _ t _) fun _ =>
    .asking (asks_widthOf t) fun _ => .ite' (fun _ => ?_) fun _ => ?_
  · exact tends_emitConstant (fun id => .constFloat32 id t.id x.toSingle)
      (.of_discard (fun _ => rfl) fun _ => rfl) fun _ => ⟨rfl, rfl⟩
  · exact tends_emitConstant (fun id => .constFloat64 id t.id x.bits)
      (.of_discard (fun _ => rfl) fun _ => rfl) fun _ => ⟨rfl, rfl⟩

theorem tends_constBool (b : Bool) :
    Tends watched f (constBool f b) (Val.Of f) (Val.Constant f Builtin.bool.id) :=
  .asking (asks_function f) fun s => tends_constBits (Builtin.bool.ty s.runtime) _

theorem tends_null : Tends watched f (null f) (Val.Of f) (Val.Constant f Builtin.voidPtr.id) :=
  .asking (asks_function f) fun s => tends_constBits (Builtin.voidPtr.ty s.runtime) 0

theorem tends_const (t : Ty) (x : HostValue) :
    Tends watched f (const f t x) (Val.Of f) fun v id ops =>
      ∃ u, (u = t.id ∨ u = Builtin.bool.id) ∧ Val.Constant f u v id ops := by
  have htyped : ∀ {act : BuildM Val}, Tends watched f act (Val.Of f) (Val.Constant f t.id) →
      Tends watched f act (Val.Of f) fun v id ops =>
        ∃ u, (u = t.id ∨ u = Builtin.bool.id) ∧ Val.Constant f u v id ops :=
    fun h => h.mono (fun _ h => h) fun v id ops _ hv => ⟨t.id, .inl rfl, hv⟩
  refine .asking (asks_isFloat t) fun b => ?_
  split
  · exact htyped (tends_constFloat t _)
  · split
    · refine .ite' (fun _ => ?_) fun _ => htyped (tends_constInt t _)
      exact (tends_constBool _).mono (fun _ h => h) fun v id ops _ hv => ⟨_, .inr rfl, hv⟩
    · exact .ite' (fun _ => htyped (tends_constInt t _)) fun _ => htyped (tends_constUint t _)
    · exact htyped (tends_constFloat t _)
    · exact htyped (tends_constFloat t _)
    · exact tends_rejectText _ t _

theorem tends_operand? (op : String) (x : HostValue) (like : Ty) :
    Tends watched f (operand? f op x like) (fun o => ∀ v, o = some v → v.Of f)
      fun o id ops => ∃ v, o = some v ∧ v.Own f ∧ x.Stands v.id id ops := by
  unfold operand?
  split
  · next v =>
    refine .ite' (fun _ => tends_keep_pure f _ nofun) fun hv => .ite' (fun _ => ?_) fun hfn => ?_
    · exact .asking (asks_valText v) fun _ => tends_keep_pure f _ nofun
    · have hown : v.Own f := ⟨by simpa using hv, by simpa using hfn⟩
      refine .pure' (fun u hu => ?_) fun id => ⟨v, rfl, hown, rfl⟩
      cases hu
      exact .inr hown.fn
  · exact tends_keep_pure f _ nofun
  · next hvalue hnothing =>
    refine .asking (asks_function f) fun s => .bind' (tends_const _ _) fun c hc => ?_
    refine .pure' (fun v hv => ?_) fun id ops hops => ?_
    · split at hv
      · cases hv
        exact hc
      · cases hv
    · obtain ⟨u, -, hown, op, hop, hmakes⟩ := hops
      refine ⟨c, if_pos hown.valid, hown, ?_⟩
      rw [List.append_nil]
      cases x with
      | value v => exact absurd rfl (hvalue v)
      | _ => exact ⟨u, op, hop, hmakes⟩

section

variable {sure : α → Prop} {post : α → FuncId → List Operation → Prop}

theorem tends_withOperand (op : String) (x : HostValue) (like : Ty) {k : Option Val → BuildM α}
    (hnone : Tends watched f (k none) sure fun _ _ _ => True)
    (hsome : ∀ v, v.Of f → Tends watched f (k (some v)) sure fun a id ops' =>
      ∀ ops, v.Own f → x.Stands v.id id ops → post a id (ops ++ ops')) :
    Tends watched f (operand? f op x like >>= k) sure post := by
  refine .bind' (tends_operand? op x like) fun o ho => ?_
  cases o with
  | none => exact hnone.mono (fun _ h => h) fun _ _ _ _ _ ops hops => by simp at hops
  | some v =>
    refine (hsome v (ho v rfl)).mono (fun _ h => h) fun a id ops' _ hpost ops hops => ?_
    obtain ⟨u, hu, hown, hstands⟩ := hops
    obtain rfl := Option.some.inj hu
    exact hpost ops hown hstands

end

theorem tends_operands? (op : String) (xs : List (HostValue × Ty)) :
    Tends watched f (operands? f op xs) (fun _ => True) fun vs id ops =>
      ∃ ids, vs = some ids ∧ List.Forall₂ (fun x v => HostValue.Stands x.1 v id ops) xs ids := by
  induction xs with
  | nil => exact .pure' trivial fun _ => ⟨[], rfl, .nil⟩
  | cons x rest ih =>
    refine tends_withOperand op x.1 x.2 (.pure' trivial fun _ => trivial) fun v hv => ?_
    refine .bind' ih fun vs _ => ?_
    cases vs with
    | none => exact .pure' trivial fun id ops hops => by simp at hops
    | some vs =>
      refine .pure' trivial fun id ops₂ hrest ops₁ _ hstands => ?_
      obtain ⟨ids, hids, hall⟩ := hrest
      obtain rfl := Option.some.inj hids
      refine ⟨v.id :: vs, rfl, .cons (hstands.mono (by simp)) (hall.imp fun y u h => h.mono (by simp))⟩

end BuildM

end TypedIR
