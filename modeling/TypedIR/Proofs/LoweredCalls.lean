import Mathlib.Data.List.Forall2
import TypedIR.Proofs.LoweredCode

/-
  What lowering calls.

  Four kinds of instructions are lowered to calls: calls of functions and of
  natives, mathematical operations, and powers. Each makes one call, of the
  function that the name of its callee stands for, and declares that function
  if the name stands for nothing yet (`emits_lowerCall`). `Refers` says for each
  kind what the name is, what the callee is declared as, and what is passed.
-/

namespace TypedIR.Llvm

namespace LowerM

open Lowering

variable {s : Lowering} {α : Type}

def TypeOfId (e : Engine) (id : TypeId) (t : LType) : Prop :=
  ∃ r, ((e.types.findRep e.target id).run e.layouts : Except Cause Rep × Layout.Cache).1 = .ok r ∧
    LType.ofRep? r = some t

/-- The types of what a call passes: those of the parameters, then those of the
arguments themselves. -/
inductive Passing (e : Engine) (f : Func) : List TypeId → List ValueId → List LType → Prop
  | nil {params} : Passing e f params [] []
  | param {p params v args t ts} (ht : TypeOfId e p t) (h : Passing e f params args ts) :
      Passing e f (p :: params) (v :: args) (t :: ts)
  | extra {v args i t ts} (hi : f.values[v]? = some i) (ht : LType.ofRep? i.rep = some t)
      (h : Passing e f [] args ts) : Passing e f [] (v :: args) (t :: ts)

theorem quiet_arguments (hs : s.Grounded) (ptrInt : LType) (e : Engine) (f : Func)
    (params : List TypeId) (args : List ValueId) :
    Keeps Quiet (arguments ptrInt e f params args) s fun xs s' =>
      (∀ x ∈ xs, s'.Knows x) ∧ Passing e f params args (xs.map (·.type)) := by
  induction args generalizing s params with
  | nil =>
    cases params with
    | nil => exact .pure' (Std.Refl.refl s) ⟨nofun, .nil⟩
    | cons p params => exact .pure' (Std.Refl.refl s) ⟨nofun, .nil⟩
  | cons v args ih =>
    have hrest : ∀ {s₁ : Lowering} {x : Operand} {t : LType}, s₁.Grounded → s₁.Holds x t →
        ∀ {params' : List TypeId}, (∀ ts, Passing e f params.tail args ts →
          Passing e f params' (v :: args) (t :: ts)) →
        Keeps Quiet (do return x :: (← arguments ptrInt e f params.tail args)) s₁ fun xs s' =>
          (∀ x ∈ xs, s'.Knows x) ∧ Passing e f params' (v :: args) (xs.map (·.type)) := by
      intro s₁ x t hs₁ hx params' hp
      refine .bind' (ih hs₁ params.tail) fun xs s₂ hq ⟨hxs, hpasses⟩ => ?_
      refine .pure' (Std.Refl.refl s₂) ⟨?_, ?_⟩
      · exact List.forall_mem_cons.mpr ⟨hq.knows hx.1, hxs⟩
      · rw [List.map_cons, hx.2]
        exact hp _ hpasses
    unfold arguments
    refine .bind' (quiet_repOfValue f v) ?_
    rintro own _ - ⟨rfl, i, hi, rfl⟩
    cases params with
    | nil =>
      change Keeps Quiet (operandAs ptrInt f v i.rep >>= _) s _
      refine .bind' (quiet_operandAs hs ptrInt f v i.rep) fun x s₁ hq ⟨t, ht, hx⟩ => ?_
      exact hrest (hq.grounded hs) hx fun ts h => .extra hi ht h
    | cons p params =>
      refine .bind' (quiet_repOf e p) ?_
      rintro r _ - ⟨rfl, hr⟩
      refine .bind' (quiet_operandAs hs ptrInt f v r) fun x s₁ hq ⟨t, ht, hx⟩ => ?_
      exact hrest (hq.grounded hs) hx fun ts h => .param ⟨r, hr, ht⟩ h

theorem ends_declare (name : String) (ret : LType) (variadic : Bool) (params : List LType) :
    Ends (declare name ret variadic params) s (fun c s' => ∃ gs, s.Declares gs s' ∧
      s'.names.lookup name = some c ∧ ∀ g ∈ gs, g = { name, ret, params, variadic })
      fun _ _ => True := by
  unfold declare
  refine Ends.bind_get ?_
  split
  · next i hi => exact Ends.pure' ⟨[], .inl ⟨rfl, rfl⟩, hi, nofun⟩
  · next hnone =>
    refine Ends.bind_modify (Ends.pure' ⟨[{ name, ret, params, variadic }],
      .inr ⟨_, rfl, rfl, hnone, rfl⟩, ?_, fun g hg => List.mem_singleton.mp hg⟩)
    exact List.lookup_cons_self

theorem ends_declareFixed (name : String) (ret : LType) (params : List LType) :
    Ends (declare name ret false params) s (fun c s' => ∃ gs, s.Declares gs s' ∧
      s'.names.lookup name = some c ∧ ∀ g ∈ gs, g.name = name ∧ g.variadic = false ∧
        g.params = params) fun _ _ => True := by
  refine (ends_declare name ret false params).imp ?_
  rintro c s' ⟨gs, hd, hc, hgs⟩
  refine ⟨gs, hd, hc, fun g hg => ?_⟩
  obtain rfl := hgs g hg
  exact ⟨rfl, rfl, rfl⟩

def takesMore (e : Engine) (sig : TypeId) : Bool :=
  ((e.signature? sig).map (·.variadic)).getD false

/-- A function that is declared by a signature; one that takes any number of
arguments says nothing of them. -/
def DeclaredBy (e : Engine) (sig : TypeId) (isOpen : Bool) (g : Function) : Prop :=
  TypeOfId e (resultOf e sig) g.ret ∧
    if isOpen then g.variadic = true ∧ g.params = []
    else g.variadic = takesMore e sig ∧ List.Forall₂ (TypeOfId e) (paramsOf e sig) g.params

theorem quiet_paramTypes (e : Engine) (params : List TypeId) :
    Keeps Quiet (params.mapM fun p => do typeOf (← repOf e p)) s fun ts s' =>
      s = s' ∧ List.Forall₂ (TypeOfId e) params ts := by
  induction params with
  | nil => exact .pure' (Std.Refl.refl s) ⟨rfl, .nil⟩
  | cons p params ih =>
    rw [List.mapM_cons]
    have hone : Keeps Quiet (do typeOf (← repOf e p)) s fun t s' => s = s' ∧ TypeOfId e p t := by
      refine .bind' (quiet_repOf e p) ?_
      rintro r _ - ⟨rfl, hr⟩
      refine (quiet_typeOf r).mono ?_
      rintro t _ - ⟨rfl, ht⟩
      exact ⟨rfl, r, hr, ht⟩
    refine .bind' hone ?_
    rintro t _ - ⟨rfl, ht⟩
    refine .bind' ih ?_
    rintro ts _ - ⟨rfl, hts⟩
    exact .pure' (Std.Refl.refl s) ⟨rfl, .cons ht hts⟩

theorem ends_declareSig (e : Engine) (name : String) (sig : TypeId) (isOpen : Bool) :
    Ends (declareSig e name sig isOpen) s (fun c s' => ∃ gs, s.Declares gs s' ∧
      s'.names.lookup name = some c ∧ ∀ g ∈ gs, g.name = name ∧ DeclaredBy e sig isOpen g)
      fun _ _ => True := by
  unfold declareSig
  refine Ends.bind_get ?_
  split
  · next i hi => exact Ends.pure' ⟨[], .inl ⟨rfl, rfl⟩, hi, nofun⟩
  · refine ends_after (quiet_repOf e (resultOf e sig)) ?_
    rintro r _ - ⟨rfl, hr⟩
    refine ends_after (quiet_typeOf r) ?_
    rintro ret _ - ⟨rfl, hret⟩
    have hgives : TypeOfId e (resultOf e sig) ret := ⟨r, hr, hret⟩
    refine Ends.ite' (fun hopen => ?_) fun hopen => ?_
    · refine (ends_declare name ret true []).imp ?_
      rintro c s' ⟨gs, hd, hc, hgs⟩
      refine ⟨gs, hd, hc, fun g hg => ?_⟩
      obtain rfl := hgs g hg
      exact ⟨rfl, hgives, by simp [hopen]⟩
    · refine ends_after (quiet_paramTypes e (paramsOf e sig)) ?_
      rintro params _ - ⟨rfl, hparams⟩
      refine (ends_declare name ret _ params).imp ?_
      rintro c s' ⟨gs, hd, hc, hgs⟩
      refine ⟨gs, hd, hc, fun g hg => ?_⟩
      obtain rfl := hgs g hg
      exact ⟨rfl, hgives, by simpa [hopen] using ⟨rfl, hparams⟩⟩

/-- One call of the function of a name, which is declared at most once: `fits`
says what it is declared as, `passes` the types of the arguments. -/
def CallsNamed (name : String) (fits : Function → Prop) (passes : List LType → Prop)
    (gs : List Function) (calls : List (Nat × List LType)) (s : Lowering) : Prop :=
  (∀ g ∈ gs, g.name = name ∧ fits g) ∧
    ∃ c ts, calls = [(c, ts)] ∧ passes ts ∧ s.names.lookup name = some c

section

variable {name : String} {fits : Function → Prop} {passes : List LType → Prop} {c : Nat}
  {xs : List Operand} {k : Operand → LowerM Unit}

theorem ends_call (hs : s.Grounded) (hxs : ∀ x ∈ xs, s.Knows x) :
    Ends (call c xs) s (fun x s' => ∃ d, s.Accepts (.call d c xs) ∧
      s' = s.written (.call d c xs) ∧ s'.Knows x) fun _ _ => True := by
  unfold call
  refine Ends.bind_get ?_
  split
  · exact Ends.throw' trivial
  · next g hg =>
    refine Ends.ite' (fun hvoid => ?_) fun hvoid => ?_
    · have haccepts : s.Accepts (.call none c xs) :=
        ⟨rfl, nofun, hxs, by rintro d c' args ⟨⟩; exact ⟨g, hg, by simp [hvoid]⟩⟩
      refine Ends.bind_modify (Ends.pure' ⟨none, haccepts, rfl, ?_⟩)
      rintro n t ⟨⟩
      exact .inl rfl
    · have haccepts : s.Accepts (.call (some s.temps) c xs) :=
        ⟨rfl, fun n hn => (Option.some.inj hn).symm, hxs, by
          rintro d c' args ⟨⟩
          exact ⟨g, hg, by simp [hvoid]⟩⟩
      refine Ends.bind_get (Ends.bind_modify (Ends.bind_modify (Ends.pure'
        ⟨some s.temps, haccepts, rfl, ?_⟩)))
      rintro n t ⟨⟩
      exact .inr (defines_written hs rfl (by simp [Instr.resultType?, hg]))

theorem emits_call (hs : s.Grounded) (hname : s.names.lookup name = some c)
    (hxs : ∀ x ∈ xs, s.Knows x) (hpasses : passes (xs.map (·.type)))
    (hk : ∀ x s', s'.Grounded → s'.Knows x → Keeps Quiet (k x) s' fun _ _ => True) :
    Emits (CallsNamed name fits passes) (do k (← call c xs)) s := by
  refine Ends.bind' (ends_call hs hxs) ?_
  rintro x _ ⟨d, haccepts, rfl, hx⟩
  have hperforms : s.Performs [.write (.call d c xs)] (s.written (.call d c xs)) :=
    .write haccepts (.nil _)
  refine Ends.mono (hk x _ (hperforms.grounded hs) hx) ?_ fun _ _ _ => trivial
  rintro _ s' ⟨hq, -⟩
  exact ⟨[], _, haccepts.makes.before hq, nofun, c, _, rfl, hpasses,
    hq.lookup (hperforms.lookup hname)⟩

theorem emits_declared {act : LowerM Nat} {k : Nat → LowerM Unit}
    (h : Ends act s (fun c s' => ∃ gs, s.Declares gs s' ∧ s'.names.lookup name = some c ∧
      ∀ g ∈ gs, g.name = name ∧ fits g) fun _ _ => True)
    (hk : ∀ c gs s', s.Declares gs s' → s'.names.lookup name = some c →
      Emits (CallsNamed name fits passes) (k c) s') :
    Emits (CallsNamed name fits passes) (act >>= k) s := by
  refine Ends.bind' h ?_
  rintro c s' ⟨gs, hd, hc, hgs⟩
  refine (hk c gs s' hd hc).imp ?_
  rintro _ s'' ⟨gs', calls, hm, hfits, hcalls⟩
  exact ⟨gs ++ gs', calls, hd.makes hm,
    fun g hg => (List.mem_append.mp hg).elim (hgs g) (hfits g), hcalls⟩

theorem quiet_keepResult {x : Operand} (hx : s.Knows x) (f : Func) (v : ValueId) (r : Rep) :
    Keeps Quiet (keepResult f v r x) s fun _ _ => True := by
  unfold keepResult
  refine .ite' (fun _ => .pure' (Std.Refl.refl s) trivial) fun _ => ?_
  split
  · exact crash'
  · exact .ite' (fun _ => (quiet_set hx f v).mono fun _ _ _ _ => trivial)
      fun _ => .pure' (Std.Refl.refl s) trivial

theorem emits_passing {e : Engine} {f : Func} {params : List TypeId} {args : List ValueId}
    (hs : s.Grounded) (hname : s.names.lookup name = some c) (ptrInt : LType) (v : ValueId) (r : Rep) :
    Emits (CallsNamed name fits (Passing e f params args)) (do
      let xs ← arguments ptrInt e f params args
      keepResult f v r (← call c xs)) s := by
  refine .bind' (quiet_arguments hs ptrInt e f params args) fun xs s' hq ⟨hxs, hpasses⟩ => ?_
  exact emits_call (hq.grounded hs) (hq.lookup hname) hxs hpasses fun x s'' _ hx =>
    quiet_keepResult hx f v r

end

/-- The representation that an arithmetic instruction works in: addresses count
as integers. -/
def workingRep (e : Engine) (i : Insn) : Rep :=
  if i.rep.cls = .pointer then { cls := .uint, size := e.target.ptrSize } else i.rep

def powerName (r : Rep) (t : LType) : String :=
  if r.cls = .float then mathName "pow" r
  else (if r.cls == .int then "jitkit.ipow." else "jitkit.upow.") ++ t.text

/-- What the lowering of an instruction calls: the name, what it is declared as
if it is not there, and the types of what is passed. A function that calls
itself calls what is being defined under the name `own`. -/
inductive Refers (sc : Scene) (own : String) (i : Insn) :
    String → (Function → Prop) → (List LType → Prop) → Prop
  | self (hop : i.op = .call) (hself : i.callee = sc.func.id) :
      Refers sc own i own (fun _ => False)
        (Passing sc.engine sc.func (paramsOf sc.engine i.type) i.args)
  | other {g : Func} (hop : i.op = .call) (hother : i.callee ≠ sc.func.id)
      (hg : sc.engine.findFunc i.callee = .ok g) :
      Refers sc own i g.name (DeclaredBy sc.engine g.sig false)
        (Passing sc.engine sc.func (paramsOf sc.engine i.type) i.args)
  | native (hop : i.op = .callNative) :
      Refers sc own i i.native
        (DeclaredBy sc.engine i.type (sc.openNatives.contains i.native))
        (Passing sc.engine sc.func (paramsOf sc.engine i.type) i.args)
  | math {t : LType} (hop : i.op = .math) (ht : LType.ofRep? i.rep = some t) :
      Refers sc own i (mathName i.math.name i.rep)
        (fun g => g.variadic = false ∧ g.params = i.args.map fun _ => t)
        (fun ts => ts = i.args.map fun _ => t)
  | power {t : LType} (hop : i.op = .pow)
      (ht : LType.ofRep? (workingRep sc.engine i) = some t) :
      Refers sc own i (powerName (workingRep sc.engine i) t)
        (fun g => g.variadic = false ∧ g.params = [t, t]) (fun ts => ts = [t, t])

def CallsReferred (sc : Scene) (own : String) (i : Insn) (gs : List Function)
    (calls : List (Nat × List LType)) (s : Lowering) : Prop :=
  ∃ name fits passes, Refers sc own i name fits passes ∧ CallsNamed name fits passes gs calls s

theorem Refers.emits {sc : Scene} {own name : String} {i : Insn} {fits : Function → Prop}
    {passes : List LType → Prop} (hr : Refers sc own i name fits passes) {act : LowerM α}
    (h : Emits (CallsNamed name fits passes) act s) : Emits (CallsReferred sc own i) act s :=
  h.imp fun _ _ ⟨gs, calls, hm, hc⟩ => ⟨gs, calls, hm, name, fits, passes, hr, hc⟩

theorem quiet_operandsAs (hs : s.Grounded) (ptrInt : LType) (f : Func) (r : Rep) {t : LType}
    (ht : LType.ofRep? r = some t) (vs : List ValueId) :
    Keeps Quiet (vs.mapM fun v => operandAs ptrInt f v r) s fun xs s' =>
      (∀ x ∈ xs, s'.Knows x) ∧ xs.map (·.type) = vs.map fun _ => t := by
  induction vs generalizing s with
  | nil => exact .pure' (Std.Refl.refl s) ⟨nofun, rfl⟩
  | cons v vs ih =>
    rw [List.mapM_cons]
    refine .bind' (quiet_operandAs hs ptrInt f v r) fun x s₁ hq₁ ⟨u, hu, hx⟩ => ?_
    obtain rfl := Option.mem_unique ht hu
    refine .bind' (ih (hq₁.grounded hs)) fun xs s₂ hq₂ ⟨hxs, htypes⟩ => ?_
    refine .pure' (Std.Refl.refl s₂) ⟨List.forall_mem_cons.mpr ⟨hq₂.knows hx.1, hxs⟩, ?_⟩
    rw [List.map_cons, hx.2, htypes, List.map_cons]

theorem emits_power (hs : s.Grounded) (sc : Scene) (own : String) {i : Insn} (hop : i.op = .pow) :
    Emits (CallsReferred sc own i) (lowerBinary sc i) s := by
  unfold lowerBinary
  extract_lets r
  refine emits_operands hs fun x y s₁ t hs₁ ht _ hx hy => ?_
  have hrefers : Refers sc own i (powerName r t) _ _ := .power hop ht
  have hcall : ∀ name, name = powerName r t → Emits (CallsReferred sc own i) (do
      let callee ← declare name t false [t, t]
      let z ← call callee [x, y]
      set sc.func i.dest (← cast sc.ptrInt z r i.rep)) s₁ := by
    rintro name rfl
    refine hrefers.emits (emits_declared (ends_declareFixed _ t [t, t]) fun c gs s₂ hd hc => ?_)
    · refine emits_call (hd.grounded hs₁) hc ?_ (by simp [hx.2, hy.2]) fun z s₃ hs₃ hz => ?_
      · simp [hd.knows hx.1, hd.knows hy.1]
      · exact .bind' (quiet_cast hs₃ hz) fun y s₄ _ ⟨hy, _⟩ =>
          (quiet_set hy sc.func i.dest).mono fun _ _ _ _ => trivial
  rw [hop]
  refine .ite' (fun hfloat => ?_) fun hfloat => ?_
  · have hsplit : floatOp .pow r x y = typeOf r >>= fun t =>
        declare (mathName "pow" r) t false [t, t] >>= fun c => call c [x, y] := rfl
    rw [hsplit, bind_assoc]
    refine .bind' (quiet_typeOf r) ?_
    rintro u _ - ⟨rfl, hu⟩
    obtain rfl := Option.mem_unique ht hu
    rw [bind_assoc]
    exact hcall _ (by simp [powerName, hfloat])
  · have hsplit : integerOp .pow r x y = typeOf r >>= fun t =>
        declare ((if r.cls == .int then "jitkit.ipow." else "jitkit.upow.") ++ t.text) t false
          [t, t] >>= fun c => call c [x, y] := rfl
    rw [hsplit, bind_assoc]
    refine .bind' (quiet_typeOf r) ?_
    rintro u _ - ⟨rfl, hu⟩
    obtain rfl := Option.mem_unique ht hu
    rw [bind_assoc]
    exact hcall _ (by simp [powerName, hfloat])

def isCalling : Opcode → Bool
  | .call | .callNative | .math | .pow => true
  | _ => false

theorem emits_lowerCall (hs : s.Grounded) (sc : Scene) {own : String}
    (hown : s.names.lookup own = some s.self) (pc : Nat) {i : Insn} (hop : isCalling i.op = true) :
    Emits (CallsReferred sc own i) (lowerInsn sc pc i) s := by
  unfold lowerInsn
  refine .ite' (fun hbinary => ?_) fun hbinary => .ite' (fun hcompare => ?_) fun _ => ?_
  · have hpow : i.op = .pow := by
      generalize i.op = op at hop hbinary
      cases op <;> simp_all [isCalling, Opcode.isBinary]
    exact emits_power hs sc own hpow
  · generalize i.op = op at hop hcompare
    cases op <;> simp_all [isCalling, Opcode.isCompare]
  extract_lets f jump after
  split
  case h_19 h =>
    refine .ite' (fun hself => ?_) fun hother => ?_
    · have hrefers : Refers sc own i own _ _ := .self h hself
      have hpassing := hrefers.emits (emits_passing hs hown sc.ptrInt i.dest i.rep)
      exact Ends.bind_get (Ends.bind_pure hpassing)
    · have hafter : ∀ g, sc.engine.findFunc i.callee = .ok g → Emits (CallsReferred sc own i)
          (declareSig sc.engine g.name g.sig false >>= after) s := fun g hg =>
        (Refers.other h hother hg).emits <| emits_declared (ends_declareSig _ _ _ _)
          fun c gs s' hd hc => emits_passing (hd.grounded hs) hc _ _ _
      cases hg : sc.engine.findFunc i.callee with
      | error e => exact .of_throw
      | ok g => exact hafter g hg
  case h_20 h =>
    exact (Refers.native h).emits <| emits_declared (ends_declareSig _ _ _ _)
      fun c gs s' hd hc => emits_passing (hd.grounded hs) hc _ _ _
  case h_21 h =>
    refine .bind' (quiet_typeOf i.rep) ?_
    rintro t _ - ⟨rfl, ht⟩
    refine .bind' (quiet_operandsAs hs _ _ _ ht _) fun xs s₁ hq ⟨hxs, htypes⟩ => ?_
    have hs₁ := hq.grounded hs
    refine (Refers.math h ht).emits (emits_declared (ends_declareFixed _ t _) fun c gs s' hd hc => ?_)
    exact emits_call (hd.grounded hs₁) hc (fun x hx => hd.knows (hxs x hx)) htypes
        fun z s₃ _ hz => (quiet_set hz f i.dest).mono fun _ _ _ _ => trivial
  case h_22 => exact .of_throw
  all_goals
    next h =>
    rw [h] at hop
    cases hop

end LowerM

end TypedIR.Llvm
