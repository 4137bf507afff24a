import Mathlib.Logic.Relation
import TypedIR.Proofs.AcceptedCalls
import TypedIR.Proofs.FunctionEnds

/-
  No failure of the builder is ignored.

  A label, a jump and the parts of a statement answer with a problem or with
  none. If the function has no problem afterwards, the answer is none, and the
  engine has taken the label or the branch.

  A function is built by calls on it and on its own values (`FunctionCall`), one
  after the other (`FunctionStep`). The first problem of the function never
  changes. A call whose answer tells of a failure, that stops with a problem, or
  whose instruction the engine did not take leaves the function with a problem,
  and a function with a problem does not compile. So everything that was called
  before a function compiled was accepted
  (`FunctionStep.no_failure_ignored`).
-/

namespace TypedIR

open Engine Workspace

namespace BuildM

variable {α : Type} {watched : Prop} {f : FnId}

/-! ## Labels and jumps -/

theorem tends_newLabel :
    Tends watched f (newLabel f) (fun l => l.fn = f) fun _ id ops => .newLabel id ∈ ops := by
  have hlabel : Tends watched f (guarded f 0 (onFunc f "label" EngineM.newLabel)) (fun _ => True)
      fun _ id ops => .newLabel id ∈ ops :=
    tends_guarded (tends_onFunc _ (fun id => .newLabel id)
      (.of_discard (fun _ => rfl) fun _ => rfl)) trivial
  exact .bind' hlabel fun _ _ => .pure' rfl fun id ops hop => List.mem_append_left [] hop

theorem asks_labelPlaced {step : Workspace → Workspace → Prop} [Std.Refl step]
    [Trans step step step] (l : Label) : Asks step (labelPlaced l) :=
  .bind' (asks_function l.fn) fun _ => .bind' (asks_engine _) fun _ => .pure' _

theorem tends_placeLabel {l : Label} (hl : l.fn = f) :
    Tends watched f (placeLabel l) (fun _ => True) fun answer id ops =>
      answer = none ∧ .placeLabel id l.id ∈ ops := by
  subst hl
  refine .ite' (fun _ => tends_complaintOf _ _) fun _ => ?_
  refine .asking (asks_labelPlaced l) fun _ => .ite' (fun _ => tends_complaintOf _ _) fun _ => ?_
  exact tends_keptProblem (tends_onFunc _ (fun id => .placeLabel id l.id)
    (.of_unit (fun _ => rfl) fun _ => rfl))

theorem tends_target? (op : String) (l : Option Label) :
    Tends watched f (target? f op l) (fun _ => True) fun t _ _ => t ≠ none ∧ t = l.map (·.id) := by
  unfold target?
  cases l with
  | none => exact tends_keep_pure f _ trivial
  | some l =>
    refine .ite' (fun _ => tends_keep_pure f _ trivial) fun _ => ?_
    exact .ite' (fun _ => tends_keep_pure f _ trivial) fun _ => .pure' trivial fun _ => ⟨nofun, rfl⟩

theorem tends_jump (l : Option Label) :
    Tends watched f (jump f l) (fun _ => True) fun answer id ops =>
      answer = none ∧ ∃ t, l = some t ∧ .branch id t.id ∈ ops := by
  refine .bind' (tends_target? _ l) fun t _ => ?_
  cases t with
  | none => exact tends_problemOf.mono (fun _ h => h) fun _ _ _ _ _ _ hops => absurd rfl hops.1
  | some t =>
    refine (tends_keptProblem (tends_onFunc _ (fun id => .branch id t)
      (.of_unit (fun _ => rfl) fun _ => rfl))).mono (fun _ h => h) fun answer id ops' _ ha ops ht => ?_
    obtain ⟨u, hu, rfl⟩ := Option.map_eq_some_iff.mp ht.2.symm
    exact ⟨ha.1, u, hu, List.mem_append_right ops ha.2⟩

theorem tends_jumpOn (name : String) (cond : Val) (l : Option Label)
    {act : FuncId → ValueId → LabelId → EngineM Unit}
    (op : FuncId → ValueId → LabelId → Operation)
    (h : ∀ c t, Performs (act · c t) (op · c t)) :
    Tends watched f (jumpOn f name cond l act) (fun _ => True) fun answer id ops =>
      answer = none ∧ ∃ t, l = some t ∧ op id cond.id t.id ∈ ops := by
  refine .bind' (tends_target? _ l) fun t _ => ?_
  cases t with
  | none => exact tends_problemOf.mono (fun _ h => h) fun _ _ _ _ _ _ hops => absurd rfl hops.1
  | some t =>
    refine .asking (asks_runtimeOf f) fun rt => ?_
    refine tends_withOperand _ _ _ (tends_problemOf.mono (fun _ h => h) fun _ _ _ _ _ => trivial)
      fun c _ => ?_
    refine (tends_keptProblem (tends_onFunc name (op · c.id t) (h c.id t))).mono (fun _ h => h)
      fun answer id ops₃ _ ha ops₂ _ hc ops₁ ht => ?_
    obtain ⟨u, hu, rfl⟩ := Option.map_eq_some_iff.mp ht.2.symm
    have hid : c.id = cond.id := hc
    rw [← hid]
    exact ⟨ha.1, u, hu, List.mem_append_right _ (List.mem_append_right _ ha.2)⟩

theorem tends_jumpIf (cond : Val) (l : Option Label) :
    Tends watched f (jumpIf f cond l) (fun _ => True) fun answer id ops =>
      answer = none ∧ ∃ t, l = some t ∧ .branchIf id cond.id t.id ∈ ops :=
  tends_jumpOn _ cond l (fun id c t => .branchIf id c t)
    fun _ _ => .of_unit (fun _ => rfl) fun _ => rfl

theorem tends_jumpIfNot (cond : Val) (l : Option Label) :
    Tends watched f (jumpIfNot f cond l) (fun _ => True) fun answer id ops =>
      answer = none ∧ ∃ t, l = some t ∧ .branchIfNot id cond.id t.id ∈ ops :=
  tends_jumpOn _ cond l (fun id c t => .branchIfNot id c t)
    fun _ _ => .of_unit (fun _ => rfl) fun _ => rfl

theorem tends_breakLoop :
    Tends watched f (breakLoop f) (fun _ => True) fun answer id ops =>
      answer = none ∧ ∃ t, .branch id t ∈ ops := by
  refine .asking (asks_function f) fun s => ?_
  cases s.breaks with
  | nil => exact tends_complaintOf _ _
  | cons l _ =>
    refine (tends_jump (some l)).mono (fun _ h => h) fun answer id ops _ ha => ?_
    obtain ⟨hnone, t, -, hop⟩ := ha
    exact ⟨hnone, t.id, hop⟩

theorem tends_modifyFunction {g : Function → Function} (h : ∀ s : Function, s.Stays (g s)) :
    Tends watched f (modifyFunction f g) (fun _ => True) fun _ _ _ => True := by
  intro w s r hw
  refine Ends.modify' ⟨trivial, g s, r, hw.modify (h s).runtime, h s, fun _ => ?_⟩
  exact ⟨[], trivial, .still (Std.Refl.refl r.engine)⟩

end BuildM

/-! ## Conditional statements -/

/-- The labels of a statement are ones of its function. -/
structure Branch.Of (f : FnId) (b : Branch) : Prop where
  fn : b.fn = f
  elseLabel : ∀ l, b.elseLabel = some l → l.fn = f
  endLabel : ∀ l, b.endLabel = some l → l.fn = f

namespace Branch

open BuildM

variable {watched : Prop} {f : FnId} {b : Branch}

/-- The branch of a test: the statement that runs its body if the condition is false
leaves if it is true. -/
def leaving (b : Branch) (id : FuncId) (c : ValueId) (l : LabelId) : Operation :=
  if b.negate then .branchIf id c l else .branchIfNot id c l

theorem tends_test (hb : b.fn = f) :
    Tends watched f b.test (fun b' => b.Of f → b'.Of f) fun b' id ops =>
      b'.problem = none ∧ ∃ o c : Val, ∃ l, b.cond.Stands o.id id ops ∧ o.Tested c id ops ∧
        b'.elseLabel = some l ∧ .newLabel id ∈ ops ∧ b.leaving id c.id l.id ∈ ops := by
  subst hb
  refine .asking (asks_runtimeOf b.fn) fun rt => ?_
  refine tends_withOperand _ _ _ ?_ fun o ho => ?_
  · refine .bind' tends_problemOf fun p _ => .pure' (fun h => ?_) fun _ _ _ => trivial
    exact ⟨rfl, h.elseLabel, h.endLabel⟩
  · refine .bind' tends_newLabel fun l hl => .bind' (tends_toBool ho) fun c _ => ?_
    have hpos : b.negate = true → Tends watched b.fn (jumpIf b.fn c (some l)) (fun _ => True)
        fun answer id ops => answer = none ∧ b.leaving id c.id l.id ∈ ops := by
      intro hneg
      refine (tends_jumpIf c (some l)).mono (fun _ h => h) fun answer id ops _ ha => ?_
      obtain ⟨hnone, t, ht, hop⟩ := ha
      cases ht
      exact ⟨hnone, by rwa [leaving, if_pos hneg]⟩
    have hneg : ¬ b.negate = true → Tends watched b.fn (jumpIfNot b.fn c (some l)) (fun _ => True)
        fun answer id ops => answer = none ∧ b.leaving id c.id l.id ∈ ops := by
      intro hneg
      refine (tends_jumpIfNot c (some l)).mono (fun _ h => h) fun answer id ops _ ha => ?_
      obtain ⟨hnone, t, ht, hop⟩ := ha
      cases ht
      exact ⟨hnone, by rwa [leaving, if_neg hneg]⟩
    refine .ite_bind hpos hneg fun problem _ => .pure' (fun h => ⟨rfl, fun l' hl' => ?_, h.endLabel⟩) ?_
    · cases hl'
      exact hl
    · intro id ops₄ hjumped ops₃ htested ops₂ hlabel ops₁ hown hstands
      exact ⟨hjumped.1, o, c, l, hstands.mono fun _ h => by simp [h],
        (htested hown).2.mono fun _ h => by simp [h], rfl, by simp [hlabel], by simp [hjumped.2]⟩

theorem tends_turn (hb : b.Of f) (hproblem : b.problem = none) :
    Tends watched f b.turn (fun b' => b'.Of f) fun b' id ops =>
      b'.problem = none ∧ ∃ l t : Label, b.elseLabel = some l ∧ b'.endLabel = some t ∧
        .newLabel id ∈ ops ∧ .branch id t.id ∈ ops ∧ .placeLabel id l.id ∈ ops := by
  obtain ⟨g, negate, cond, elseLabel, endLabel, closed, problem⟩ := b
  obtain ⟨hg, helse, hend⟩ := hb
  obtain rfl : g = f := hg
  obtain rfl : problem = none := hproblem
  refine .ite' (fun h => absurd h nofun) fun _ => ?_
  cases elseLabel with
  | none =>
    exact tends_after_complaint _ _ fun p => .pure' ⟨rfl, helse, hend⟩ fun _ => trivial
  | some l =>
    refine .bind' tends_newLabel fun t ht => .bind' (tends_jump (some t)) fun p _ => ?_
    have hdone : ∀ t', some t = some t' → t'.fn = g := by
      intro t' ht'
      cases ht'
      exact ht
    cases p with
    | some p => exact .pure' ⟨rfl, helse, hdone⟩ fun id ops hops => absurd hops.1 nofun
    | none =>
      refine .bind' (tends_placeLabel (helse l rfl)) fun p _ => .pure' ⟨rfl, helse, hdone⟩ ?_
      intro id ops₃ hplaced ops₂ hjumped ops₁ hlabel
      obtain ⟨-, u, hu, hop⟩ := hjumped
      cases hu
      exact ⟨hplaced.1, l, t, rfl, rfl, by simp [hlabel], by simp [hop], by simp [hplaced.2]⟩

/-- The end of the statement is placed: the label after the second body if there is one,
and the label after the first otherwise. -/
theorem tends_finish (hb : b.Of f) (hproblem : b.problem = none) :
    Tends watched f b.finish (fun answer => answer.2.Of f) fun answer id ops =>
      answer.1 = none ∧ answer.2.problem = none ∧ b.closed = false ∧
        ∃ l, b.endLabel.or b.elseLabel = some l ∧ .placeLabel id l.id ∈ ops := by
  obtain ⟨g, negate, cond, elseLabel, endLabel, closed, problem⟩ := b
  obtain ⟨hg, helse, hend⟩ := hb
  obtain rfl : g = f := hg
  obtain rfl : problem = none := hproblem
  refine .ite' (fun h => absurd h nofun) fun _ => .ite' (fun _ => ?_) fun hclosed => ?_
  · exact tends_after_complaint _ _ fun p =>
      .pure' ⟨rfl, helse, hend⟩ fun _ => trivial
  · have hopen : closed = false := by simpa using hclosed
    cases elseLabel with
    | none =>
      exact tends_after_complaint _ _ fun p =>
        .pure' ⟨rfl, helse, hend⟩ fun _ => trivial
    | some l =>
      cases endLabel with
      | some t =>
        refine .bind' (tends_placeLabel (hend t rfl)) fun p _ => .pure' ⟨rfl, helse, hend⟩ ?_
        exact fun id ops hplaced => ⟨hplaced.1, rfl, hopen, t, rfl, List.mem_append_left [] hplaced.2⟩
      | none =>
        refine .bind' (tends_placeLabel (helse l rfl)) fun p _ => .pure' ⟨rfl, helse, hend⟩ ?_
        exact fun id ops hplaced => ⟨hplaced.1, rfl, hopen, l, rfl, List.mem_append_left [] hplaced.2⟩

end Branch

/-! ## Loops -/

/-- The labels of a loop are ones of its function. -/
structure Loop.Of (f : FnId) (l : Loop) : Prop where
  fn : l.fn = f
  top : ∀ t, l.top = some t → t.fn = f
  bottom : ∀ t, l.bottom = some t → t.fn = f

namespace Loop

open BuildM

variable {watched : Prop} {f : FnId} {l : Loop}

theorem tends_start (hl : l.fn = f) :
    Tends watched f l.start (fun l' => l'.Of f) fun l' id ops =>
      l'.problem = l.problem ∧ .newLabel id ∈ ops := by
  subst hl
  refine .bind' tends_newLabel fun t ht => .bind' tends_newLabel fun b hb => .pure' ⟨rfl, ?_, ?_⟩ ?_
  · intro t' ht'
    cases ht'
    exact ht
  · intro b' hb'
    cases hb'
    exact hb
  · exact fun id ops₂ _ ops₁ hop => ⟨rfl, by simp [hop]⟩

/-- The branch of a test: out of the loop if it is over, or back if it is not. -/
def testing (l : Loop) (leaving : Bool) (id : FuncId) (c : ValueId) (t : LabelId) : Operation :=
  if leaving != l.negate then .branchIfNot id c t else .branchIf id c t

theorem tends_test (hl : l.fn = f) {c : Val} (hc : c.Of f) (leaving : Bool) :
    Tends watched f (l.test c leaving) (fun l' => l.Of f → l'.Of f) fun l' id ops =>
      l'.problem = none ∧ c.Own f ∧ ∃ d : Val, ∃ t, c.Tested d id ops ∧
        (if leaving then l.bottom else l.top) = some t ∧ l.testing leaving id d.id t.id ∈ ops := by
  subst hl
  refine .ite' (fun _ => ?_) fun hvalid => ?_
  · refine .bind' tends_problemOf fun p _ => ?_
    cases p with
    | some p => exact .pure' (fun h => ⟨rfl, h.top, h.bottom⟩) fun id ops hops => absurd hops nofun
    | none =>
      exact tends_after_complaint _ _ fun p =>
        .pure' (fun h => ⟨rfl, h.top, h.bottom⟩) fun _ => trivial
  · have hown : c.Own l.fn := hc.own (by simpa using hvalid)
    refine .bind' (tends_toBool hc) fun d _ => ?_
    have hpos : (leaving != l.negate) = true → ∀ t, Tends watched l.fn (jumpIfNot l.fn d t)
        (fun _ => True) fun answer id ops =>
          answer = none ∧ ∃ u, t = some u ∧ l.testing leaving id d.id u.id ∈ ops := by
      intro hsense t
      simp only [testing, if_pos hsense]
      exact tends_jumpIfNot d t
    have hneg : ¬ (leaving != l.negate) = true → ∀ t, Tends watched l.fn (jumpIf l.fn d t)
        (fun _ => True) fun answer id ops =>
          answer = none ∧ ∃ u, t = some u ∧ l.testing leaving id d.id u.id ∈ ops := by
      intro hsense t
      simp only [testing, if_neg hsense]
      exact tends_jumpIf d t
    refine .ite_bind (fun h => hpos h _) (fun h => hneg h _) fun problem _ => ?_
    refine .pure' (fun h => ⟨rfl, h.top, h.bottom⟩) fun id ops₂ hjumped ops₁ htested => ?_
    obtain ⟨hnone, t, ht, hop⟩ := hjumped
    exact ⟨hnone, hown, d, t, (htested hown).2.mono (by simp), ht, by simp [hop]⟩

theorem tends_enter (hl : l.Of f) :
    Tends watched f l.enter (fun l' => l'.Of f) fun l' id ops =>
      l'.problem = l.problem ∧ ∃ t, l.top = some t ∧ .placeLabel id t.id ∈ ops := by
  obtain ⟨g, negate, top, bottom, closed, problem⟩ := l
  obtain ⟨hg, htop, hbottom⟩ := hl
  obtain rfl : g = f := hg
  cases top with
  | none => exact .throw' nofun
  | some t =>
    cases bottom with
    | none => exact .throw' nofun
    | some b =>
      refine .bind' (tends_placeLabel (htop t rfl)) fun p _ => ?_
      cases p with
      | some p => exact .pure' ⟨rfl, htop, hbottom⟩ fun id ops hops => absurd hops.1 nofun
      | none =>
        refine .bind' (tends_modifyFunction fun s => ⟨⟨rfl, rfl, fun _ h => h⟩, rfl⟩) fun _ _ => ?_
        refine .pure' ⟨rfl, htop, hbottom⟩ fun id ops₂ _ ops₁ hplaced => ⟨rfl, t, rfl, ?_⟩
        simp [hplaced.2]

theorem tends_leave (hl : l.fn = f) :
    Tends watched f l.leave (fun _ => True) fun _ _ _ => True := by
  subst hl
  exact tends_modifyFunction fun s => ⟨⟨rfl, rfl, fun _ h => h⟩, rfl⟩

theorem tends_noCondition (hl : l.fn = f) :
    Tends watched f l.noCondition (fun l' => l.Of f → l'.Of f) fun _ _ _ => False := by
  subst hl
  exact tends_after_complaint _ _ fun p =>
    .pure' (fun h => ⟨rfl, h.top, h.bottom⟩) fun _ => trivial

theorem tends_finish (hl : l.Of f) (hproblem : l.problem = none) :
    Tends watched f l.finish (fun answer => answer.2.Of f) fun answer id ops =>
      answer.1 = none ∧ answer.2.problem = none ∧ l.closed = false ∧
        ∃ t, l.bottom = some t ∧ .placeLabel id t.id ∈ ops := by
  obtain ⟨g, negate, top, bottom, closed, problem⟩ := l
  obtain ⟨hg, htop, hbottom⟩ := hl
  obtain rfl : g = f := hg
  obtain rfl : problem = none := hproblem
  refine .ite' (fun h => absurd h nofun) fun _ => .ite' (fun _ => ?_) fun hclosed => ?_
  · exact tends_after_complaint _ _ fun p =>
      .pure' ⟨rfl, htop, hbottom⟩ fun _ => trivial
  · cases bottom with
    | none =>
      exact tends_after_complaint _ _ fun p =>
        .pure' ⟨rfl, htop, hbottom⟩ fun _ => trivial
    | some b =>
      refine .bind' (tends_placeLabel (hbottom b rfl)) fun p _ => .pure' ⟨rfl, htop, hbottom⟩ ?_
      exact fun id ops hplaced =>
        ⟨hplaced.1, rfl, by simpa using hclosed, b, rfl, List.mem_append_left [] hplaced.2⟩

end Loop

open Engine BuildM

/-! ## Calls -/

/-- Some answers of the builder tell that a call failed. -/
class Reply (α : Type) where
  /-- The answer tells of a failure. -/
  fails : α → Prop

instance : Reply Unit := ⟨fun _ => False⟩

instance : Reply Val := ⟨fun v => v.valid = false⟩

instance : Reply (List Val) := ⟨fun vs => ∃ v ∈ vs, v.valid = false⟩

instance : Reply Label := ⟨fun _ => False⟩

instance : Reply (Option Problem) := ⟨fun p => p ≠ none⟩

instance : Reply Branch := ⟨fun b => b.problem ≠ none⟩

instance : Reply Loop := ⟨fun l => l.problem ≠ none⟩

instance {α β : Type} [Reply α] [Reply β] : Reply (α × β) :=
  ⟨fun a => Reply.fails a.1 ∨ Reply.fails a.2⟩

namespace Reply

theorem value {v : Val} (h : v.valid = true) : ¬ fails v := fun hf => absurd (h.symm.trans hf) nofun

theorem values {vs : List Val} (h : ∀ v ∈ vs, v.valid = true) : ¬ fails vs := by
  intro hf
  obtain ⟨v, hv, hinvalid⟩ := hf
  exact value (h v hv) hinvalid

theorem problem {p : Option Problem} (h : p = none) : ¬ fails p := fun hf => hf h

theorem branch {b : Branch} (h : b.problem = none) : ¬ fails b := fun hf => hf h

theorem loop {l : Loop} (h : l.problem = none) : ¬ fails l := fun hf => hf h

theorem pair {α β : Type} [Reply α] [Reply β] {a : α × β} (h : ¬ fails a.1) (h' : ¬ fails a.2) :
    ¬ fails a :=
  fun hf => hf.elim h h'

end Reply

/-- The calls that build the function `f`, made on it or on its own values. Each comes with
what it means that the engine accepted it: which operations the engine performed, and what
the answer is. A call of a statement may find that the statement `held` a problem. -/
inductive FunctionCall (f : FnId) : {α : Type} → [Reply α] → (held : Prop) → BuildM α →
    (accepted : α → FuncId → List Operation → Prop) → Prop
  | args : FunctionCall f False (args f) fun vs _ _ => ∀ v ∈ vs, v.Own f
  | const (t : Ty) (x : HostValue) : FunctionCall f False (const f t x) fun a id ops =>
      ∃ u, (u = t.id ∨ u = Builtin.bool.id) ∧ a.Constant f u id ops
  | constInt (t : Ty) (n : Int) : FunctionCall f False (constInt f t n) (Val.Constant f t.id)
  | constUint (t : Ty) (n : Nat) : FunctionCall f False (constUint f t n) (Val.Constant f t.id)
  | constFloat (t : Ty) (x : Double) :
      FunctionCall f False (constFloat f t x) (Val.Constant f t.id)
  | constBool (b : Bool) : FunctionCall f False (constBool f b) (Val.Constant f Builtin.bool.id)
  | null : FunctionCall f False (null f) (Val.Constant f Builtin.voidPtr.id)
  | declare (t : Ty) : FunctionCall f False (declare f t) fun a id ops =>
      a.Own f ∧ .createValue id t.id ∈ ops
  | store {v : Val} (hv : v.Own f) (x : HostValue) : FunctionCall f False (store v x) fun a id ops =>
      a = v ∧ ∃ o, x.Stands o id ops ∧ .store id v.id o ∈ ops
  | address {v : Val} (hv : v.Own f) : FunctionCall f False (address v) fun a id ops =>
      a.Own f ∧ .addressOf id v.id ∈ ops
  | setAddressable {v : Val} (hv : v.Own f) : FunctionCall f False (setAddressable v) fun a id ops =>
      a = v ∧ .setAddressable id v.id ∈ ops
  | toBool {v : Val} (hv : v.Own f) : FunctionCall f False (toBool v) fun a id ops =>
      a.Own f ∧ v.Tested a id ops
  | toNotBool {v : Val} (hv : v.Own f) : FunctionCall f False (toNotBool v) fun a id ops =>
      a.Own f ∧ .toNotBool id v.id ∈ ops
  | cast {v : Val} (hv : v.Own f) (t : Ty) : FunctionCall f False (cast v t) fun a id ops =>
      a.Own f ∧ .convert id v.id t.id ∈ ops
  | binary {v : Val} (hv : v.Own f) (name : String) (n : UInt8) (x : HostValue) :
      FunctionCall f False (binary name (.ofCode n) v x) fun a id ops =>
        a.Own f ∧ ∃ o, x.Stands o id ops ∧ .binary id n v.id o ∈ ops
  | compare {v : Val} (hv : v.Own f) (name : String) (n : UInt8) (x : HostValue) :
      FunctionCall f False (compare name (.ofCode n) v x) fun a id ops =>
        a.Own f ∧ ∃ o, x.Stands o id ops ∧ .compare id n v.id o ∈ ops
  | unary {v : Val} (hv : v.Own f) (name : String) (n : UInt8) :
      FunctionCall f False (unary name (.ofCode n) v) fun a id ops =>
        a.Own f ∧ .unary id n v.id ∈ ops
  | logical {v : Val} (hv : v.Own f) (name : String) (n : UInt8) (x : HostValue) :
      FunctionCall f False (logical name (.ofCode n) v x) fun a id ops =>
        a.Own f ∧ ∃ o l r c : Val, x.Stands o.id id ops ∧ v.Tested l id ops ∧
          o.Tested r id ops ∧ .binary id n l.id r.id ∈ ops ∧ c.Tested a id ops
  | math (n : UInt8) (args : List HostValue) :
      FunctionCall f False (math f (.ofCode n) args) fun a id ops =>
        a.Own f ∧ ∃ ids, List.Forall₂ (fun x o => HostValue.Stands x o id ops) args ids ∧
          .math id n ids ∈ ops
  | mload {v : Val} (hv : v.Own f) (offset : Int) (t : Ty) :
      FunctionCall f False (mload v offset t) fun a id ops =>
        a.Own f ∧ .loadRel id v.id offset t.id ∈ ops
  | mstore {v : Val} (hv : v.Own f) (x : HostValue) (offset : Int) :
      FunctionCall f False (mstore v x offset) fun a id ops =>
        a = v ∧ ∃ o, x.Stands o id ops ∧ .storeRel id v.id offset o ∈ ops
  | deref {v : Val} (hv : v.Own f) (t : Option Ty) : FunctionCall f False (deref v t) fun a id ops =>
      a.Own f ∧ ∃ u, .loadRel id v.id 0 u ∈ ops
  | loadElem {v : Val} (hv : v.Own f) (index : HostValue) (t : Option Ty) :
      FunctionCall f False (loadElem v index t) fun a id ops =>
        a.Own f ∧ ∃ i u, index.Stands i id ops ∧ .loadElem id v.id i u ∈ ops
  | storeElem {v : Val} (hv : v.Own f) (index x : HostValue) :
      FunctionCall f False (storeElem v index x) fun a id ops =>
        a = v ∧ ∃ i, ∃ o u : Val, ∃ t, index.Stands i id ops ∧ x.Stands o.id id ops ∧
          o.Fitted t u id ops ∧ .storeElem id v.id i u.id ∈ ops
  | field {v : Val} (hv : v.Own f) (i : Int) : FunctionCall f False (field v i) fun a id ops =>
      a.Own f ∧ .addressOf id v.id ∈ ops ∧ ∃ p off t, .loadRel id p off t ∈ ops
  | setField {v : Val} (hv : v.Own f) (i : Int) (x : HostValue) :
      FunctionCall f False (setField v i x) fun a id ops =>
        a = v ∧ .addressOf id v.id ∈ ops ∧ ∃ p off, ∃ o u : Val, ∃ t, x.Stands o.id id ops ∧
          o.Fitted t u id ops ∧ .storeRel id p off u.id ∈ ops
  | fieldNamed {v : Val} (hv : v.Own f) (name : String) :
      FunctionCall f False (fieldNamed v name) fun a id ops =>
        a.Own f ∧ .addressOf id v.id ∈ ops ∧ ∃ p off t, .loadRel id p off t ∈ ops
  | setFieldNamed {v : Val} (hv : v.Own f) (name : String) (x : HostValue) :
      FunctionCall f False (setFieldNamed v name x) fun a id ops =>
        a = v ∧ .addressOf id v.id ∈ ops ∧ ∃ p off, ∃ o u : Val, ∃ t, x.Stands o.id id ops ∧
          o.Fitted t u id ops ∧ .storeRel id p off u.id ∈ ops
  | alloca (size : HostValue) : FunctionCall f False (alloca f size) fun a id ops =>
      a.Own f ∧ ∃ n, size.Stands n id ops ∧ .alloca id n ∈ ops
  | stringz (s : Text.Bytes) : FunctionCall f False (stringz f s) fun a id ops =>
      a.Own f ∧ ∃ n buffer, .alloca id n ∈ ops ∧
        (∀ k < s.length + 1, ∃ c, .storeRel id buffer (k : Nat) c ∈ ops) ∧
        .convert id buffer Builtin.stringz.id ∈ ops
  | ret (x : HostValue) : FunctionCall f False (ret f x) fun _ id ops =>
      ∃ o, x.Stands o id ops ∧ .ret id o ∈ ops
  | retVoid : FunctionCall f False (retVoid f) fun _ id ops => .ret id 0 ∈ ops
  | callOther (callee : Option FnId) (args : List HostValue) :
      FunctionCall f False (callOther f callee args) fun a id ops =>
        a.Own f ∧ ∃ g ids, .call id g ids ∈ ops
  | callNative (name : String) (args : List HostValue) :
      FunctionCall f False (callNative f name args) fun a id ops =>
        a.Own f ∧ ∃ sig ids, ids.length = args.length ∧ .callNative id name sig ids ∈ ops
  | callLibrary (name : String) (args : List HostValue) :
      FunctionCall f False (callLibrary f name args) fun a id ops =>
        a.Own f ∧ ∃ sig ids, .callNative id name sig ids ∈ ops
  | newLabel : FunctionCall f False (newLabel f) fun _ id ops => .newLabel id ∈ ops
  | placeLabel {l : Label} (hl : l.fn = f) : FunctionCall f False (placeLabel l) fun _ id ops =>
      .placeLabel id l.id ∈ ops
  | jump (l : Option Label) : FunctionCall f False (jump f l) fun _ id ops =>
      ∃ t, l = some t ∧ .branch id t.id ∈ ops
  | jumpIf (cond : Val) (l : Option Label) : FunctionCall f False (jumpIf f cond l) fun _ id ops =>
      ∃ t, l = some t ∧ .branchIf id cond.id t.id ∈ ops
  | jumpIfNot (cond : Val) (l : Option Label) :
      FunctionCall f False (jumpIfNot f cond l) fun _ id ops =>
        ∃ t, l = some t ∧ .branchIfNot id cond.id t.id ∈ ops
  | breakLoop : FunctionCall f False (breakLoop f) fun _ id ops => ∃ t, .branch id t ∈ ops
  | branchTest {b : Branch} (hb : b.Of f) : FunctionCall f False b.test fun b' id ops =>
      b'.Of f ∧ ∃ o c : Val, ∃ l, b.cond.Stands o.id id ops ∧ o.Tested c id ops ∧
        b'.elseLabel = some l ∧ .newLabel id ∈ ops ∧ b.leaving id c.id l.id ∈ ops
  | branchTurn {b : Branch} (hb : b.Of f) :
      FunctionCall f (b.problem ≠ none) b.turn fun b' id ops =>
        b'.Of f ∧ ∃ l t : Label, b.elseLabel = some l ∧ b'.endLabel = some t ∧
          .newLabel id ∈ ops ∧ .branch id t.id ∈ ops ∧ .placeLabel id l.id ∈ ops
  | branchFinish {b : Branch} (hb : b.Of f) :
      FunctionCall f (b.problem ≠ none) b.finish fun answer id ops =>
        answer.2.Of f ∧ b.closed = false ∧
          ∃ l, b.endLabel.or b.elseLabel = some l ∧ .placeLabel id l.id ∈ ops
  | loopStart {l : Loop} (hl : l.fn = f) : FunctionCall f (l.problem ≠ none) l.start fun l' id ops =>
      l'.Of f ∧ .newLabel id ∈ ops
  | loopTest {l : Loop} (hl : l.Of f) {c : Val} (hc : c.Of f) (leaving : Bool) :
      FunctionCall f False (l.test c leaving) fun l' id ops =>
        l'.Of f ∧ ∃ d : Val, ∃ t, c.Tested d id ops ∧
          (if leaving then l.bottom else l.top) = some t ∧ l.testing leaving id d.id t.id ∈ ops
  | loopEnter {l : Loop} (hl : l.Of f) : FunctionCall f (l.problem ≠ none) l.enter fun l' id ops =>
      l'.Of f ∧ ∃ t, l.top = some t ∧ .placeLabel id t.id ∈ ops
  | loopLeave {l : Loop} (hl : l.fn = f) : FunctionCall f False l.leave fun _ _ _ => True
  | loopWithout {l : Loop} (hl : l.fn = f) : FunctionCall f False l.noCondition fun _ _ _ => False
  | loopFinish {l : Loop} (hl : l.Of f) :
      FunctionCall f (l.problem ≠ none) l.finish fun answer id ops =>
        answer.2.Of f ∧ l.closed = false ∧ ∃ t, l.bottom = some t ∧ .placeLabel id t.id ∈ ops

/-- The call went through: the engine performed what it means, on the function that the
builder has under `f`. -/
def Workspace.Accepted (f : FnId) (w : Workspace) (accepted : FuncId → List Operation → Prop)
    (w' : Workspace) : Prop :=
  ∃ s r s' r' ops, w.Finds f s r ∧ w'.Finds f s' r' ∧ accepted s.id ops ∧
    Accepts s.id ops r.engine r'.engine

/-- What a call reports: unless the function has a problem afterwards, its answer tells of
no failure and the engine has accepted it; and if it stops with a problem, the function
has one. It does not compile the function. -/
def Workspace.Reports {α : Type} [Reply α] (f : FnId) (w : Workspace) (act : BuildM α)
    (accepted : α → FuncId → List Operation → Prop) : Prop :=
  ∀ s r, w.Finds f s r → Ends act w
    (fun a w' => ∃ s' r', w'.Finds f s' r' ∧ s.Stays s' ∧
      (s'.problem = none → ¬ Reply.fails a ∧ w.Accepted f (accepted a) w'))
    (fun how w' => ∃ s' r', w'.Finds f s' r' ∧ s.Stays s' ∧
      ((∃ p, how = .problem p) → s'.problem ≠ none))

theorem Tends.reports {α : Type} [Reply α] {f : FnId} {act : BuildM α} {sure : α → Prop}
    {post accepted : α → FuncId → List Operation → Prop} (h : Tends True f act sure post)
    (hpost : ∀ a id ops, sure a → post a id ops → ¬ Reply.fails a ∧ accepted a id ops)
    (w : Workspace) : w.Reports f act accepted := by
  intro s r hw
  refine (h w s r hw).mono (fun a w' h' => ?_) fun how w' h' => ?_
  · obtain ⟨ha, s', r', hw', hs, hclean⟩ := h'
    refine ⟨s', r', hw', hs, fun hp => ?_⟩
    obtain ⟨ops, hops, haccept⟩ := hclean hp
    obtain ⟨hfails, haccepted⟩ := hpost a s.id ops ha hops
    exact ⟨hfails, s, r, s', r', ops, hw, hw', haccepted, haccept⟩
  · obtain ⟨s', r', hw', hs, hproblem⟩ := h'
    exact ⟨s', r', hw', hs, hproblem trivial⟩

theorem Tends.reportsValue {f : FnId} {act : BuildM Val} {sure : Val → Prop}
    {accepted : Val → FuncId → List Operation → Prop} (h : Tends True f act sure accepted)
    (hvalid : ∀ a id ops, accepted a id ops → a.valid = true) (w : Workspace) :
    w.Reports f act accepted :=
  h.reports (fun a id ops _ ha =>
    ⟨Reply.value (hvalid a id ops ha), ha⟩) w

theorem Tends.reportsOn {f : FnId} {v : Val} {act : BuildM Val} {sure : Val → Prop}
    {accepted : Val → FuncId → List Operation → Prop} (hv : v.Own f)
    (h : Tends True f act sure fun a id ops => v.Own f → accepted a id ops)
    (hvalid : ∀ a id ops, accepted a id ops → a.valid = true) (w : Workspace) :
    w.Reports f act accepted :=
  (h.mono (fun _ h => h) fun _ _ _ _ ha => ha hv).reportsValue hvalid w

theorem Tends.reportsProblem {f : FnId} {act : BuildM (Option Problem)}
    {sure : Option Problem → Prop} {accepted : FuncId → List Operation → Prop}
    (h : Tends True f act sure fun answer id ops => answer = none ∧ accepted id ops)
    (w : Workspace) : w.Reports f act fun _ => accepted :=
  h.reports (fun _ _ _ _ ha => ⟨Reply.problem ha.1, ha.2⟩) w

theorem Tends.reportsHeld {α : Type} [Reply α] {f : FnId} {w : Workspace} {act : BuildM α}
    {sure : α → Prop} {post accepted : α → FuncId → List Operation → Prop}
    (h : Tends True f act sure post) (hheld : ∀ s r, w.Finds f s r → s.problem ≠ none) :
    w.Reports f act accepted := by
  intro s r hw
  refine (h w s r hw).mono (fun a w' h' => ?_) fun how w' h' => ?_
  · obtain ⟨-, s', r', hw', hs, -⟩ := h'
    exact ⟨s', r', hw', hs, fun hp => absurd (hs.clean hp) (hheld s r hw)⟩
  · obtain ⟨s', r', hw', hs, hproblem⟩ := h'
    exact ⟨s', r', hw', hs, hproblem trivial⟩

theorem Workspace.Reports.of_pure {α : Type} [Reply α] {f : FnId} {w : Workspace} {a : α}
    {accepted : α → FuncId → List Operation → Prop}
    (hheld : ∀ s r, w.Finds f s r → s.problem ≠ none) :
    w.Reports f (pure a : BuildM α) accepted := by
  have hpure : Tends True f (pure a : BuildM α) (fun _ => True) fun _ _ _ => True :=
    .pure' trivial fun _ => trivial
  exact hpure.reportsHeld hheld

theorem FunctionCall.reports {f : FnId} {α : Type} [Reply α] {held : Prop} {act : BuildM α}
    {accepted : α → FuncId → List Operation → Prop} (h : FunctionCall f held act accepted)
    {w : Workspace} (hheld : held → ∀ s r, w.Finds f s r → s.problem ≠ none) :
    w.Reports f act accepted := by
  cases h with
  | args =>
    exact tends_args.reports (fun _ _ _ _ h => ⟨Reply.values fun v hv => (h v hv).valid, h⟩) w
  | const t x =>
    refine (tends_const t x).reportsValue (fun a id ops ha => ?_) w
    obtain ⟨u, -, hown, -⟩ := ha
    exact hown.valid
  | constInt t n => exact (tends_constInt t n).reportsValue (fun _ _ _ h => h.1.valid) w
  | constUint t n => exact (tends_constUint t n).reportsValue (fun _ _ _ h => h.1.valid) w
  | constFloat t x => exact (tends_constFloat t x).reportsValue (fun _ _ _ h => h.1.valid) w
  | constBool b => exact (tends_constBool b).reportsValue (fun _ _ _ h => h.1.valid) w
  | null => exact tends_null.reportsValue (fun _ _ _ h => h.1.valid) w
  | declare t => exact (tends_declare t).reportsValue (fun _ _ _ h => h.1.valid) w
  | store hv x => exact (tends_store hv.of x).reportsOn hv (fun _ _ _ h => h.1 ▸ hv.valid) w
  | address hv => exact (tends_address hv.of).reportsOn hv (fun _ _ _ h => h.1.valid) w
  | setAddressable hv =>
    exact (tends_setAddressable hv.of).reportsOn hv (fun _ _ _ h => h.1 ▸ hv.valid) w
  | toBool hv => exact (tends_toBool hv.of).reportsOn hv (fun _ _ _ h => h.1.valid) w
  | toNotBool hv => exact (tends_toNotBool hv.of).reportsOn hv (fun _ _ _ h => h.1.valid) w
  | cast hv t => exact (tends_cast hv.of t).reportsOn hv (fun _ _ _ h => h.1.valid) w
  | binary hv name n x =>
    exact (tends_binary hv.of name n x).reportsOn hv (fun _ _ _ h => h.1.valid) w
  | compare hv name n x =>
    exact (tends_compare hv.of name n x).reportsOn hv (fun _ _ _ h => h.1.valid) w
  | unary hv name n => exact (tends_unary hv.of name n).reportsOn hv (fun _ _ _ h => h.1.valid) w
  | logical hv name n x =>
    exact (tends_logical hv.of name n x).reportsOn hv (fun _ _ _ h => h.1.valid) w
  | math n args => exact (tends_math n args).reportsValue (fun _ _ _ h => h.1.valid) w
  | mload hv offset t =>
    exact (tends_mload hv.of offset t).reportsOn hv (fun _ _ _ h => h.1.valid) w
  | mstore hv x offset =>
    exact (tends_mstore hv.of x offset).reportsOn hv (fun _ _ _ h => h.1 ▸ hv.valid) w
  | deref hv t => exact (tends_deref hv.of t).reportsOn hv (fun _ _ _ h => h.1.valid) w
  | loadElem hv index t =>
    exact (tends_loadElem hv.of index t).reportsOn hv (fun _ _ _ h => h.1.valid) w
  | storeElem hv index x =>
    exact (tends_storeElem hv.of index x).reportsOn hv (fun _ _ _ h => h.1 ▸ hv.valid) w
  | field hv i => exact (tends_field hv.of i).reportsOn hv (fun _ _ _ h => h.1.valid) w
  | setField hv i x =>
    exact (tends_setField hv.of i x).reportsOn hv (fun _ _ _ h => h.1 ▸ hv.valid) w
  | fieldNamed hv name =>
    exact (tends_fieldNamed hv.of name).reportsOn hv (fun _ _ _ h => h.1.valid) w
  | setFieldNamed hv name x =>
    exact (tends_setFieldNamed hv.of name x).reportsOn hv (fun _ _ _ h => h.1 ▸ hv.valid) w
  | alloca size => exact (tends_alloca size).reportsValue (fun _ _ _ h => h.1.valid) w
  | stringz s => exact (tends_stringz s).reportsValue (fun _ _ _ h => h.1.valid) w
  | ret x => exact (tends_ret x).reports (fun _ _ _ _ h => ⟨id, h⟩) w
  | retVoid => exact tends_retVoid.reports (fun _ _ _ _ h => ⟨id, h⟩) w
  | callOther callee args =>
    exact (tends_callOther callee args).reportsValue (fun _ _ _ h => h.1.valid) w
  | callNative name args =>
    exact (tends_callNative name args).reportsValue (fun _ _ _ h => h.1.valid) w
  | callLibrary name args =>
    exact (tends_callLibrary name args).reportsValue (fun _ _ _ h => h.1.valid) w
  | newLabel => exact tends_newLabel.reports (fun _ _ _ _ h => ⟨id, h⟩) w
  | placeLabel hl => exact (tends_placeLabel hl).reportsProblem w
  | jump l => exact (tends_jump l).reportsProblem w
  | jumpIf cond l => exact (tends_jumpIf cond l).reportsProblem w
  | jumpIfNot cond l => exact (tends_jumpIfNot cond l).reportsProblem w
  | breakLoop => exact tends_breakLoop.reportsProblem w
  | branchTest hb =>
    exact (Branch.tends_test hb.fn).reports
      (fun _ _ _ hof h => ⟨Reply.branch h.1, hof hb, h.2⟩) w
  | @branchTurn b hb =>
    by_cases hp : b.problem = none
    · exact (Branch.tends_turn hb hp).reports (fun _ _ _ hof h => ⟨Reply.branch h.1, hof, h.2⟩) w
    · rw [Branch.turn, if_pos (Option.isSome_iff_ne_none.mpr hp)]
      exact .of_pure (hheld hp)
  | @branchFinish b hb =>
    by_cases hp : b.problem = none
    · exact (Branch.tends_finish hb hp).reports (fun _ _ _ hof h =>
        ⟨Reply.pair (Reply.problem h.1) (Reply.branch h.2.1), hof, h.2.2⟩) w
    · rw [Branch.finish, if_pos (Option.isSome_iff_ne_none.mpr hp)]
      exact .of_pure (hheld hp)
  | @loopStart l hl =>
    by_cases hp : l.problem = none
    · exact (Loop.tends_start hl).reports
        (fun _ _ _ hof h => ⟨Reply.loop (h.1.trans hp), hof, h.2⟩) w
    · exact (Loop.tends_start hl).reportsHeld (hheld hp)
  | loopTest hl hc leaving =>
    exact (Loop.tends_test hl.fn hc leaving).reports
      (fun _ _ _ hof h => ⟨Reply.loop h.1, hof hl, h.2.2⟩) w
  | @loopEnter l hl =>
    by_cases hp : l.problem = none
    · exact (Loop.tends_enter hl).reports
        (fun _ _ _ hof h => ⟨Reply.loop (h.1.trans hp), hof, h.2⟩) w
    · exact (Loop.tends_enter hl).reportsHeld (hheld hp)
  | loopLeave hl => exact (Loop.tends_leave hl).reports (fun _ _ _ _ _ => ⟨id, trivial⟩) w
  | loopWithout hl => exact (Loop.tends_noCondition hl).reports (fun _ _ _ _ h => h.elim) w
  | @loopFinish l hl =>
    by_cases hp : l.problem = none
    · exact (Loop.tends_finish hl hp).reports (fun _ _ _ hof h =>
        ⟨Reply.pair (Reply.problem h.1) (Reply.loop h.2.1), hof, h.2.2⟩) w
    · rw [Loop.finish, if_pos (Option.isSome_iff_ne_none.mpr hp)]
      exact .of_pure (hheld hp)

/-! ## Compiling -/

section

variable {w : Workspace} {f : FnId} {s : Function} {r : Runtime}

theorem Workspace.Finds.ends_asking {α : Type} {act : BuildM α}
    (h : Asks (Workspace.Undisturbed f) act) (hw : w.Finds f s r) :
    Ends act w (fun _ w' => ∃ r', w'.Finds f s r' ∧ r.engine.Still r'.engine)
      fun how w' => (∃ r', w'.Finds f s r') ∧ ∀ p, how ≠ .problem p := by
  refine (h w).mono (fun _ w' h' => h' s r hw) fun how w' h' => ⟨?_, h'.2⟩
  obtain ⟨r', hw', -⟩ := h'.1 s r hw
  exact ⟨r', hw'⟩

theorem Workspace.Finds.ends_trace (hw : w.Finds f s r) (n : Trace.Note) :
    Ends (trace s.runtime n) w (fun _ w' => ∃ r', w'.Finds f s r' ∧ r.engine.Still r'.engine)
      fun _ _ => False := by
  obtain ⟨spans, tracing, hrun⟩ := run_trace hw.runtime n
  unfold Ends
  rw [hrun]
  refine ⟨_, hw.advance hw.runtime r.engine spans tracing, ?_⟩
  rw [if_pos rfl]
  exact Std.Refl.refl r.engine

def Function.Finished (f : FnId) (s : Function) (e : Engine) (w : Workspace) : Prop :=
  ∃ r, w.Finds f { s with compiled := true } r ∧
    Accepts s.id [.defaultReturn s.id, .compile s.id] e r.engine

theorem BuildM.ends_finishing_steps (hw : w.Finds f s r) :
    Ends (finishing f) w
      (fun _ w' => s.Finished f r.engine w') (fun _ w' => ∃ r', w'.Finds f s r') := by
  have hcompile : ∀ {w₁ r₁}, w₁.Finds f s r₁ →
      Accepts s.id [.defaultReturn s.id] r.engine r₁.engine →
      Ends (do onFunc f "compile" EngineM.compile; modifyFunction f ({ · with compiled := true })) w₁
        (fun _ w' => s.Finished f r.engine w') fun _ w' => ∃ r', w'.Finds f s r' := by
    intro w₁ r₁ hw₁ haccept₁
    refine .bind' (ends_accepting hw₁ _ (fun id => .compile id)
      (.of_unit (fun _ => rfl) fun _ => rfl)) fun _ w₂ h₂ => ?_
    obtain ⟨r₂, hw₂, haccept₂⟩ := h₂
    exact Ends.modify' ⟨r₂, hw₂.modify rfl, haccept₁.append haccept₂⟩
  refine Ends.bind_ok (by rw [run_function, hw.func]; rfl) ?_
  have hreaches : Ends (reachesEnd f) w
      (fun _ w' => ∃ r', w'.Finds f s r' ∧ Accepts s.id [.defaultReturn s.id] r.engine r'.engine)
      (fun _ w' => ∃ r', w'.Finds f s r') := by
    refine .bind' (ends_accepting hw _ (fun id => .defaultReturn id)
      (.of_discard (fun _ => rfl) fun _ => rfl)) fun answer w₁ h₁ => ?_
    obtain ⟨r₁, hw₁, haccept₁⟩ := h₁
    cases answer with
    | none => exact .throw' ⟨r₁, hw₁⟩
    | some reachable => exact .pure' ⟨r₁, hw₁, haccept₁⟩
  refine .bind' hreaches fun reachable w₁ ⟨r₁, hw₁, haccept₁⟩ => ?_
  refine .ite' (fun _ => ?_) fun _ => hcompile hw₁ haccept₁
  refine .bind' ((hw₁.ends_asking (asks_functionName f)).imp_stop fun _ _ h => h.1)
    fun name w₂ h₂ => ?_
  obtain ⟨r₂, hw₂, -⟩ := h₂
  refine .bind' ((hw₂.ends_asking (asks_tyText s.ret)).imp_stop fun _ _ h => h.1)
    fun text w₃ h₃ => ?_
  obtain ⟨r₃, hw₃, -⟩ := h₃
  exact Ends.bind_throw ⟨r₃, hw₃⟩

/-- Compiling takes a return at the end and the whole function; a problem on the way is
kept. -/
theorem BuildM.ends_finish_clean (hw : w.Finds f s r) :
    Ends (finish f) w (fun _ w' => s.Finished f r.engine w')
      (fun how w' => ∃ s' r', w'.Finds f s' r' ∧ s.Stays s' ∧
        ((∃ p, how = .problem p) → s'.problem ≠ none)) := by
  refine .bind' ((ends_attempt (ends_finishing_steps hw)).imp_stop
    fun how w' h' => ?_) fun outcome w₁ h₁ => ?_
  · obtain ⟨hhow, r', hw'⟩ := h'
    exact ⟨s, r', hw', .refl s, fun hp => hp.elim fun p hp => absurd hp (hhow p)⟩
  · cases outcome with
    | ok _ => exact Ends.pure' h₁
    | error p =>
      obtain ⟨r₁, hw₁⟩ := h₁
      have hkeep : Tends True f (keep f p) (fun _ => True) fun _ _ _ => False := tends_keep f p
      refine .bind' ((hkeep w₁ s r₁ hw₁).imp_stop fun how w' h' => ?_)
        fun _ w₂ h₂ => Ends.throw' ?_
      · obtain ⟨s', r', hw', hs, hproblem⟩ := h'
        exact ⟨s', r', hw', hs, hproblem trivial⟩
      · obtain ⟨-, s', r', hw', hs, hclean⟩ := h₂
        exact ⟨s', r', hw', hs, fun _ hnone => (hclean hnone).elim fun _ h => h.1⟩

theorem BuildM.ends_compile_clean (hw : w.Finds f s r) :
    Ends (compile f) w
      (fun _ w' => s.problem = none ∧ ∃ s' r', w'.Finds f s' r' ∧ s.Lasts s' ∧
        s'.problem = none ∧ s'.compiled = true ∧
        (s.compiled = false → w.Accepted f (fun id ops => .compile id ∈ ops) w'))
      (fun how w' => ∃ s' r', w'.Finds f s' r' ∧ s.Stays s' ∧
        ((∃ p, how = .problem p) → s'.problem ≠ none)) := by
  refine Ends.bind_ok (by rw [run_function, hw.func]; rfl) ?_
  cases hproblem : s.problem with
  | some p => exact Ends.throw' ⟨s, r, hw, .refl s, fun _ => by rw [hproblem]; nofun⟩
  | none =>
    refine .ite' (fun hc => ?_) fun hc => ?_
    · exact Ends.pure' ⟨rfl, s, r, hw, .refl s, hproblem, hc, fun h => absurd (h.symm.trans hc) nofun⟩
    · refine .bind' ((hw.ends_asking (asks_functionName f)).imp_stop
        fun how w' h' => ?_) fun name w₁ h₁ => ?_
      · obtain ⟨⟨r', hw'⟩, hhow⟩ := h'
        exact ⟨s, r', hw', .refl s, fun hp => hp.elim fun p hp => absurd hp (hhow p)⟩
      obtain ⟨r₁, hw₁, hstill₁⟩ := h₁
      refine .bind' (hw₁.ends_trace _).total fun _ w₂ h₂ => ?_
      obtain ⟨r₂, hw₂, hstill₂⟩ := h₂
      refine .bind' ((ends_attempt (ends_finish_clean hw₂)).imp_stop
        fun how w' h' => h'.2) fun outcome w₃ h₃ => ?_
      cases outcome with
      | ok _ =>
        obtain ⟨r₃, hw₃, haccept⟩ := h₃
        refine (hw₃.ends_trace _).mono (fun _ w' h' => ?_) fun _ _ h => h.elim
        obtain ⟨r', hw', hstill⟩ := h'
        refine ⟨rfl, _, r', hw', ⟨rfl, rfl, fun _ h => h⟩, hproblem, rfl, fun _ => ?_⟩
        have haccepted := (haccept.after (Trans.trans hstill₁ hstill₂)).append (.still hstill)
        exact ⟨s, r, _, r', _, hw, hw', by simp, haccepted⟩
      | error p =>
        obtain ⟨s₃, r₃, hw₃, hs₃, hkept⟩ := h₃
        rw [← hs₃.runtime]
        refine .bind' (hw₃.ends_trace _).total fun _ w₄ h₄ => ?_
        obtain ⟨r₄, hw₄, -⟩ := h₄
        exact Ends.throw' ⟨s₃, r₄, hw₄, hs₃, fun _ => hkept ⟨p, rfl⟩⟩

end

/-! ## Sequences of calls -/

/-- The call tells of a failure: by its answer, or by a problem. -/
def BuildM.Tells {α : Type} [Reply α] (act : BuildM α) (w : Workspace) : Prop :=
  Ends act w (fun a _ => Reply.fails a) fun how _ => ∃ p, how = .problem p

/-- One call on the function `f`, and whether a call has told of a failure so far. A
statement holds a problem only if one has. Asking for a parameter is the one call whose
problem is the caller's and not the function's. -/
inductive FunctionStep (f : FnId) : Prop × Workspace → Prop × Workspace → Prop
  | call {α : Type} [Reply α] {held : Prop} {act : BuildM α}
      {accepted : α → FuncId → List Operation → Prop} (h : FunctionCall f held act accepted)
      {told : Prop} {w : Workspace} (hheld : held → told) :
      FunctionStep f (told, w) (told ∨ act.Tells w, w.after act)
  | arg (i : Int) {told : Prop} {w : Workspace} :
      FunctionStep f (told, w) (told, w.after (arg f i))
  | compile {told : Prop} {w : Workspace} :
      FunctionStep f (told, w) (told ∨ (compile f).Tells w, w.after (compile f))

/-- Any number of calls on the function. -/
def FunctionSteps (f : FnId) : Prop × Workspace → Prop × Workspace → Prop :=
  Relation.ReflTransGen (FunctionStep f)

/-- The function lasts, and has been compiled only if it had no problem. -/
structure Function.Builds (s s' : Function) : Prop extends s.Lasts s' where
  compiled : s.compiled = false → s'.compiled = true → s.problem = none

namespace Function

theorem Builds.refl (s : Function) : s.Builds s :=
  ⟨.refl s, fun h h' => absurd (h.symm.trans h') nofun⟩

theorem Stays.builds {s s' : Function} (h : s.Stays s') : s.Builds s' :=
  ⟨h.toLasts, fun hc hc' => absurd (hc.symm.trans (h.compiled.symm.trans hc')) nofun⟩

theorem Builds.trans {s s' s'' : Function} (h : s.Builds s') (h' : s'.Builds s'') :
    s.Builds s'' := by
  refine ⟨h.toLasts.trans h'.toLasts, fun hc hc'' => ?_⟩
  cases hc' : s'.compiled with
  | true => exact h.compiled hc hc'
  | false => exact h.clean (h'.compiled hc' hc'')

end Function

theorem Workspace.Reports.after {α : Type} [Reply α] {f : FnId} {w : Workspace} {act : BuildM α}
    {accepted : α → FuncId → List Operation → Prop} (h : w.Reports f act accepted) {s : Function}
    {r : Runtime} (hw : w.Finds f s r) :
    ∃ s' r', (w.after act).Finds f s' r' ∧ s.Stays s' ∧ (act.Tells w → s'.problem ≠ none) := by
  have hends := h s r hw
  unfold BuildM.Tells Workspace.after
  unfold Ends at hends ⊢
  rcases hr : (act.run w : Except Stop α × Workspace) with ⟨how | a, w'⟩ <;> rw [hr] at hends
  · exact hends
  · obtain ⟨s', r', hw', hs, hclean⟩ := hends
    exact ⟨s', r', hw', hs, fun hfails hp => (hclean hp).1 hfails⟩

theorem BuildM.leaves_arg (f g : FnId) (i : Int) :
    Leaves (Workspace.Undisturbed f) (arg g i) := by
  have hrest : ∀ s : Function, Leaves (Workspace.Undisturbed f) (do
      let id ← onEngine s.runtime "arg" (EngineM.paramValue s.id i)
      wrapValue g id) :=
    fun s => .bind' (leaves_onEngine _ _ (EngineM.quiet_paramValue _ _)) fun id =>
      .bind' (asks_function g).leaves fun _ =>
        .bind' (leaves_onEngine _ _ (EngineM.quiet_valueInfo _ _)) fun _ =>
          .bind' (leaves_wrapType _ _) fun _ => .pure' _
  exact .bind' (asks_function g).leaves fun s =>
    .ite' (.bind' (leaves_complain _ _) fun _ => hrest s) (hrest s)

theorem FunctionStep.builds {f : FnId} {told told' : Prop} {w w' : Workspace}
    (h : FunctionStep f (told, w) (told', w')) {s : Function} {r : Runtime} (hw : w.Finds f s r)
    (htold : told → s.problem ≠ none) :
    ∃ s' r', w'.Finds f s' r' ∧ s.Builds s' ∧ (told' → s'.problem ≠ none) := by
  have hlasts : ∀ {s' : Function}, s.Lasts s' → told → s'.problem ≠ none :=
    fun hs ht hp => htold ht (hs.clean hp)
  cases h with
  | call h hheld =>
    have hreports := h.reports (w := w) fun hh s' r' hw' => by
      obtain ⟨rfl, -⟩ := hw.unique hw'
      exact htold (hheld hh)
    obtain ⟨s', r', hw', hs, htells⟩ := hreports.after hw
    exact ⟨s', r', hw', hs.builds, fun ht => ht.elim (hlasts hs.toLasts) htells⟩
  | arg i =>
    obtain ⟨r', hw', -⟩ := leaves_arg f f i w s r hw
    exact ⟨s, r', hw', .refl s, htold⟩
  | compile =>
    have hends := ends_compile_clean hw
    unfold BuildM.Tells Workspace.after
    unfold Ends at hends ⊢
    rcases hr : ((BuildM.compile f).run w : Except Stop Unit × Workspace) with ⟨how | a, w'⟩ <;>
      rw [hr] at hends
    · obtain ⟨s', r', hw', hs, hproblem⟩ := hends
      exact ⟨s', r', hw', hs.builds, fun ht => ht.elim (hlasts hs.toLasts) hproblem⟩
    · obtain ⟨hnone, s', r', hw', hs, -⟩ := hends
      exact ⟨s', r', hw', ⟨hs, fun _ _ => hnone⟩, fun ht => ht.elim (hlasts hs) fun hf => hf.elim⟩

theorem FunctionSteps.builds {f : FnId} {told told' : Prop} {w w' : Workspace}
    (h : FunctionSteps f (told, w) (told', w')) {s : Function} {r : Runtime} (hw : w.Finds f s r)
    (htold : told → s.problem ≠ none) :
    ∃ s' r', w'.Finds f s' r' ∧ s.Builds s' ∧ (told' → s'.problem ≠ none) := by
  have hrun : ∀ x : Prop × Workspace, FunctionSteps f (told, w) x →
      ∃ s' r', x.2.Finds f s' r' ∧ s.Builds s' ∧ (x.1 → s'.problem ≠ none) := by
    intro x hx
    induction hx with
    | refl => exact ⟨s, r, hw, .refl s, htold⟩
    | tail _ hstep ih =>
      obtain ⟨s₁, r₁, hw₁, hs₁, htold₁⟩ := ih
      obtain ⟨s', r', hw', hs', htold'⟩ := hstep.builds hw₁ htold₁
      exact ⟨s', r', hw', hs₁.trans hs', htold'⟩
  exact hrun (told', w') h

/-- No failure of the builder is ignored. From a workspace that has the function `f`,
calls on it were made. Then, whatever else is called on it, the function lasts with its
problem, has one if a call has told of a failure, and is compiled only if it had none; every
call reports whether the engine accepted it; only a function without a problem compiles;
and every call before the function compiles was accepted. -/
theorem FunctionSteps.no_failure_ignored {f : FnId} {w₀ w : Workspace} {s₀ : Function}
    {r₀ : Runtime} {told : Prop} (h₀ : w₀.Finds f s₀ r₀)
    (h : FunctionSteps f (False, w₀) (told, w)) :
    ∃ s r, w.Finds f s r ∧
      (∀ {told' : Prop} {w' : Workspace}, FunctionSteps f (told, w) (told', w') →
        ∃ s' r', w'.Finds f s' r' ∧ s.Builds s' ∧ (told' → s'.problem ≠ none)) ∧
      (∀ {α : Type} [Reply α] {held : Prop} {act : BuildM α}
        {accepted : α → FuncId → List Operation → Prop}, FunctionCall f held act accepted →
        (held → told) → w.Reports f act accepted) ∧
      Ends (compile f) w
        (fun _ w' => s.problem = none ∧ ∃ s' r', w'.Finds f s' r' ∧ s'.problem = none ∧
          s'.compiled = true ∧
          (s.compiled = false → w.Accepted f (fun id ops => .compile id ∈ ops) w'))
        (fun how w' => ∃ s' r', w'.Finds f s' r' ∧ s.Stays s' ∧
          ((∃ p, how = .problem p) → s'.problem ≠ none)) ∧
      (∀ {α : Type} [Reply α] {held : Prop} {act : BuildM α}
        {accepted : α → FuncId → List Operation → Prop}, FunctionCall f held act accepted →
        (held → told) → ∀ {told' : Prop} {w' w'' : Workspace},
        FunctionSteps f (told ∨ act.Tells w, w.after act) (told', w') →
        ((compile f).run w' : Except Stop Unit × Workspace) = (.ok (), w'') →
        Ends act w (fun a w₁ => ¬ Reply.fails a ∧ w.Accepted f (accepted a) w₁)
          fun how _ => ∀ p, how ≠ .problem p) := by
  obtain ⟨s, r, hw, -, htold⟩ := h.builds h₀ False.elim
  have hreports : ∀ {α : Type} [Reply α] {held : Prop} {act : BuildM α}
      {accepted : α → FuncId → List Operation → Prop}, FunctionCall f held act accepted →
      (held → told) → w.Reports f act accepted := by
    intro α _ held act accepted hcall hheld
    refine hcall.reports fun hh s' r' hw' => ?_
    obtain ⟨rfl, -⟩ := hw.unique hw'
    exact htold (hheld hh)
  refine ⟨s, r, hw, fun h' => h'.builds hw htold, hreports, ?_, ?_⟩
  · refine (ends_compile_clean hw).mono (fun _ w' h' => ?_) fun _ _ h' => h'
    obtain ⟨hnone, s', r', hw', -, hclean, hc, haccepted⟩ := h'
    exact ⟨hnone, s', r', hw', hclean, hc, haccepted⟩
  · intro α _ held act accepted hcall hheld told' w' w'' hlater hcompile
    -- there was no problem when the function compiled, so there was none after the call
    obtain ⟨s₁, r₁, hw₁, hs₁, htells⟩ := (hreports hcall hheld).after hw
    have htold₁ : told ∨ act.Tells w → s₁.problem ≠ none := fun ht =>
      ht.elim (fun ht hp => htold ht (hs₁.clean hp)) htells
    obtain ⟨s₂, r₂, hw₂, hs₂, -⟩ := hlater.builds hw₁ htold₁
    have hnone : s₁.problem = none := hs₂.clean ((ends_compile_clean hw₂).ok_of_run hcompile).1
    have hcalled := hreports hcall hheld s r hw
    unfold Workspace.after at hw₁
    unfold Ends at hcalled ⊢
    rcases hr : (act.run w : Except Stop α × Workspace) with ⟨how | a, w₁⟩ <;>
      rw [hr] at hcalled hw₁ <;> obtain ⟨s', r', hw', -, hclean⟩ := hcalled <;>
      obtain ⟨rfl, -⟩ := hw₁.unique hw'
    · exact fun p hp => hclean ⟨p, hp⟩ hnone
    · exact hclean hnone

/-- The return of seven is accepted, since the function compiles after it. -/
theorem return_of_seven_accepted :
    Ends (ret 0 (.int .int 7)) unwritten
      (fun _ w' => unwritten.Accepted 0
        (fun id ops => ∃ o, (HostValue.int .int 7).Stands o id ops ∧ .ret id o ∈ ops) w')
      fun how _ => ∀ p, how ≠ .problem p := by
  have hfinds : ∃ s ∈ unwritten.functions[(0 : Nat)]?, ∃ r, r ∈ unwritten.runtimes[s.runtime]? := by
    have hcheck : ∃ s ∈ unwritten.functions[(0 : Nat)]?, unwritten.runtimes[s.runtime]?.isSome := by
      decide +kernel
    obtain ⟨s, hs, hr⟩ := hcheck
    exact ⟨s, hs, Option.isSome_iff_exists.mp hr⟩
  obtain ⟨s, hs, r, hr⟩ := hfinds
  have hcompile : ((compile 0).run (unwritten.after (ret 0 (.int .int 7))) :
      Except Stop Unit × Workspace) = (.ok (), compiledSeven) := Workspace.run_after (by decide +kernel)
  have hfirst : unwritten.Finds 0 s r := ⟨hs, hr⟩
  obtain ⟨-, -, -, -, -, -, haccepted⟩ := FunctionSteps.no_failure_ignored hfirst .refl
  exact (haccepted (.ret (.int .int 7)) False.elim .refl hcompile).imp fun _ _ h => h.2

end TypedIR
