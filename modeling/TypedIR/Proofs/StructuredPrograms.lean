import Mathlib.Logic.Function.Basic
import TypedIR.Build.Control
import TypedIR.Proofs.BuildDrafts
import TypedIR.Proofs.IntegerConstants
import TypedIR.Proofs.IntegerValues

/-
  Structured programs: what they mean, and how they are built.

  A program assigns integer terms to variables, and has conditional statements,
  loops, jumps out of the innermost loop, and returns. Its meaning is an
  interpreter on integers (`Term.eval`, `Stmt.exec`); only loops need fuel, one unit
  for each turn. To build it is to go through its text with the operations of the
  builder (`Term.emit`, `Stmt.emit`, `Program.emit`). The two have nothing in common
  but the text.

  Variables are numbered: the parameters come first, then the locals. They and the
  constants have any integer types, so operands are promoted and brought to a common
  type. The code that comes out for an expression computes its number into a register,
  or fails as the expression does, and leaves the variables alone (`Term.builds`).
-/

namespace TypedIR

/-- An integer type of a runtime, below its tags one of the first types, and how it is
held. -/
structure Setting.Integer (c : Setting) (rt : RuntimeId) where
  ty : Ty
  rep : Rep
  owner : ty.owner = some rt
  firm : c.types.Firm c.target ty.id rep
  isInteger : rep.IsInteger

/-- An integer expression over `k` variables. -/
inductive Term (c : Setting) (rt : RuntimeId) (k : Nat) where
  | const (t : c.Integer rt) (x : Literal)
  | var (i : Fin k)
  | cast (t : c.Integer rt) (a : Term c rt k)
  | unary (op : Opcode) (a : Term c rt k)
  | binary (op : Opcode) (a b : Term c rt k)
  | compare (op : Opcode) (a b : Term c rt k)

/-- A statement. With `negate` a condition is taken the other way: a conditional
statement is an `unless`, and a loop an `until`. -/
inductive Stmt (c : Setting) (rt : RuntimeId) (k : Nat) where
  | skip
  | assign (i : Fin k) (a : Term c rt k)
  | seq (s t : Stmt c rt k)
  | branch (negate : Bool) (cond : Term c rt k) (s : Stmt c rt k)
  | branchElse (negate : Bool) (cond : Term c rt k) (s t : Stmt c rt k)
  | loop (negate : Bool) (cond : Term c rt k) (s : Stmt c rt k)
  /-- Leaves the innermost loop. -/
  | leave
  | ret (a : Term c rt k)

/-- A program: the types of its parameters and locals, and what it does. -/
structure Program (c : Setting) (rt : RuntimeId) where
  params : List (c.Integer rt)
  locals : List (c.Integer rt)
  body : Stmt c rt (params.length + locals.length)

variable {c : Setting} {rt : RuntimeId} {k : Nat}

/-! ## Meaning -/

abbrev Valuation (k : Nat) := Fin k → Int

namespace Term

/-- The type of an expression, by how it is held; truth values are signed bytes. -/
def rep (reps : Fin k → Rep) : Term c rt k → Rep
  | const t _ => t.rep
  | var i => reps i
  | cast t _ => t.rep
  | unary _ a => (a.rep reps).promoted
  | binary op a b =>
    if op.isShift then (a.rep reps).promoted else (a.rep reps).common (b.rep reps)
  | compare _ _ _ => .bool

/-- The number of an expression. Operands are brought to the type the operator works in
first. -/
def eval (reps : Fin k → Rep) (σ : Valuation k) : Term c rt k → Except Cause Int
  | const t x => pure (t.rep.wrap x.number)
  | var i => pure (σ i)
  | cast t a => do
    let x ← a.eval reps σ
    pure (t.rep.wrap x)
  | unary op a => do
    let x ← a.eval reps σ
    let r := (a.rep reps).promoted
    pure (r.turn op (r.wrap x))
  | binary op a b => do
    let x ← a.eval reps σ
    let y ← b.eval reps σ
    let r := (binary op a b).rep reps
    r.operate op (r.wrap x) (r.wrap y)
  | compare op a b => do
    let x ← a.eval reps σ
    let y ← b.eval reps σ
    let r := (a.rep reps).common (b.rep reps)
    pure (if op.relates (r.wrap x) (r.wrap y) then 1 else 0)

def holds (reps : Fin k → Rep) (negate : Bool) (a : Term c rt k) (σ : Valuation k) :
    Except Cause Bool := do
  let n ← a.eval reps σ
  pure ((n != 0) != negate)

end Term

/-- How a statement ends. -/
inductive Exit (k : Nat) where
  | next (σ : Valuation k)
  /-- On the way out of the innermost loop. -/
  | left (σ : Valuation k)
  | returned (n : Int)
  | failed (why : Cause)

namespace Stmt

def given {α : Type} (x : Except Cause α) (then' : α → Option (Exit k)) : Option (Exit k) :=
  match x with
  | .ok a => then' a
  | .error why => some (.failed why)

def andThen (x : Option (Exit k)) (then' : Valuation k → Option (Exit k)) : Option (Exit k) :=
  match x with
  | some (.next σ) => then' σ
  | x => x

def turns (cond : Valuation k → Except Cause Bool) (body : Valuation k → Option (Exit k)) :
    Nat → Valuation k → Option (Exit k)
  | 0, _ => none
  | n + 1, σ =>
    given (cond σ) fun
      | false => some (.next σ)
      | true =>
        match body σ with
        | some (.next σ') => turns cond body n σ'
        | some (.left σ') => some (.next σ')
        | x => x

/-- What a statement does, if no loop takes more turns than the fuel allows. `result`
is the type of what is returned. -/
def exec (reps : Fin k → Rep) (result : Rep) (fuel : Nat) : Stmt c rt k → Valuation k → Option (Exit k)
  | skip, σ => some (.next σ)
  | assign i a, σ =>
    given (a.eval reps σ) fun n => some (.next (Function.update σ i ((reps i).wrap n)))
  | seq s t, σ => andThen (s.exec reps result fuel σ) (t.exec reps result fuel)
  | branch negate cond s, σ =>
    given (cond.holds reps negate σ) fun
      | true => s.exec reps result fuel σ
      | false => some (.next σ)
  | branchElse negate cond s t, σ =>
    given (cond.holds reps negate σ) fun
      | true => s.exec reps result fuel σ
      | false => t.exec reps result fuel σ
  | loop negate cond s, σ =>
    turns (cond.holds reps negate) (s.exec reps result fuel) fuel σ
  | leave, σ => some (.left σ)
  | ret a, σ => given (a.eval reps σ) fun n => some (.returned (result.wrap n))

end Stmt

namespace Program

variable (p : Program c rt)

def types : List (c.Integer rt) := p.params ++ p.locals

def reps (i : Fin (p.params.length + p.locals.length)) : Rep :=
  (p.types.get (i.cast (by unfold types; simp))).rep

/-- The variables at the start: the parameters hold the arguments, and the locals
zero. -/
def start (args : List Int) : Valuation (p.params.length + p.locals.length) :=
  fun i => (p.reps i).wrap (args.getD i 0)

def exec (result : Rep) (fuel : Nat) (args : List Int) :
    Option (Exit (p.params.length + p.locals.length)) :=
  p.body.exec p.reps result fuel (p.start args)

end Program

/-! ## Building -/

def Term.emit (fn : FnId) (vals : Fin k → Val) : Term c rt k → BuildM Val
  | const t x => x.constant fn t.ty
  | var i => pure (vals i)
  | cast t a => do
    let x ← a.emit fn vals
    BuildM.cast x t.ty
  | unary op a => do
    let x ← a.emit fn vals
    BuildM.unary op.name op x
  | binary op a b => do
    let x ← a.emit fn vals
    let y ← b.emit fn vals
    BuildM.binary op.name op x (.value y)
  | compare op a b => do
    let x ← a.emit fn vals
    let y ← b.emit fn vals
    BuildM.compare op.name op x (.value y)

def Stmt.emit (fn : FnId) (vals : Fin k → Val) : Stmt c rt k → BuildM Unit
  | skip => pure ()
  | assign i a => do
    let x ← a.emit fn vals
    discard (BuildM.store (vals i) (.value x))
  | seq s t => do
    s.emit fn vals
    t.emit fn vals
  | branch negate cond s => do
    let x ← cond.emit fn vals
    let b ← Branch.thenDo { fn, negate, cond := .value x } (s.emit fn vals)
    discard b.finish
  | branchElse negate cond s t => do
    let x ← cond.emit fn vals
    let b ← Branch.thenDo { fn, negate, cond := .value x } (s.emit fn vals)
    let b ← b.elseDo (t.emit fn vals)
    discard b.finish
  | loop negate cond s => do
    let l ← Loop.run { fn, negate } (cond.emit fn vals) (s.emit fn vals)
    discard l.finish
  | leave => discard (BuildM.breakLoop fn)
  | ret a => do
    let x ← a.emit fn vals
    BuildM.ret fn (.value x)

/-- Builds a program in a function, whose parameters are those of the program. -/
def Program.emit (p : Program c rt) (fn : FnId) : BuildM Unit := do
  let params ← BuildM.args fn
  let locals ← p.locals.mapM fun t => BuildM.declare fn t.ty
  p.body.emit fn fun i => (params ++ locals).getD i {}

open Func (Reads)

/-! ## The variables -/

/-- The variables are values of the function, each of its own, that can be assigned
to. -/
structure Func.Variables {k : Nat} (f : Func) (c : Setting) (fn : FnId) (vals : Fin k → Val)
    (reps : Fin k → Rep) : Prop where
  fn : ∀ i, (vals i).fn = some fn
  number : ∀ i, f.Number c (vals i).id (reps i)
  distinct : ∀ {i j}, (vals i).id = (vals j).id → i = j
  assignable : ∀ {i info}, f.value? (vals i).id = some info → info.origin ≠ .const

def Valuation.In {k : Nat} (vals : Fin k → Val) (reps : Fin k → Rep) (σ : Valuation k)
    (regs : Array Word) : Prop :=
  ∀ i, Reads (reps i) (vals i).id (σ i) regs

namespace Func.Variables

variable {k : Nat} {f f' : Func} {c : Setting} {fn : FnId} {vals : Fin k → Val}
  {reps : Fin k → Rep} {σ : Valuation k} {regs regs' : Array Word}

theorem continues (h : f.Variables c fn vals reps) (hf : f.Continues f') :
    f'.Variables c fn vals reps where
  fn := h.fn
  number i := (h.number i).within hf.within
  distinct := h.distinct
  assignable {i info} hi := by
    obtain ⟨⟨own, hown, -⟩, -⟩ := h.number i
    rw [hf.within.value hown] at hi
    exact Option.some.inj hi ▸ h.assignable hown

theorem kept (h : f.Variables c fn vals reps) (hσ : σ.In vals reps regs)
    (hkept : f.Kept regs regs') : σ.In vals reps regs' :=
  fun i => (h.number i).reads (hσ i) hkept

end Func.Variables

theorem Func.Number.pos {f : Func} {c : Setting} {v : ValueId} {r : Rep} (h : f.Number c v r) :
    0 < v := by
  obtain ⟨⟨info, hv, -⟩, -⟩ := h
  exact (Func.value?_lt hv).1

theorem Engine.Drafts.ends_gives {e : Engine} {c : Setting} {id : FuncId} {f : Func} {r : Rep}
    (h : e.Drafts c id f) {act : EmitM ValueId} {p : Array Word → Except Cause Int → Prop}
    (hact : ∀ b : Bench, b.Drafts c f → Ends act b (fun v b' => b'.Gives c f r p v)
      fun _ _ => True) :
    Ends (EngineM.emitInto id act) e
      (fun v e' => ∃ f', e'.Drafts c id f' ∧ f.Continues f' ∧ f.Gives c f' v r p)
      fun _ _ => True :=
  h.ends_emitInto fun b hb => (hact b hb).mono
    (fun _ _ ⟨f', hb', hgives⟩ => ⟨f', hb', hgives.continues, hgives⟩) fun _ _ h => h

theorem Engine.Drafts.ends_checked {e : Engine} {c : Setting} {id : FuncId} {f : Func} {r : Rep}
    (h : e.Drafts c id f) {bad : Prop} [Decidable bad] (why : Cause) {k : Unit → EngineM ValueId}
    {act : EmitM ValueId} {p : Array Word → Except Cause Int → Prop}
    (hact : ¬ bad → ∀ b : Bench, b.Drafts c f → Ends act b (fun v b' => b'.Gives c f r p v)
      fun _ _ => True) :
    Ends (if bad then EngineM.fail why >>= k else EngineM.emitInto id act) e
      (fun v e' => ∃ f', e'.Drafts c id f' ∧ f.Continues f' ∧ f.Gives c f' v r p)
      fun _ _ => True :=
  .ite' (fun _ => .stopped (.throw' trivial)) fun hgood => h.ends_gives (hact hgood)

/-- The operation gives a value of the function, and builds code for its number. -/
def BuildM.Gives (act : BuildM Val) (w : Workspace) (c : Setting) (fn : FnId) (s : Function)
    (f : Func) (r : Rep) (p : Array Word → Except Cause Int → Prop) : Prop :=
  BuildM.Builds act w c fn s f fun v f' => v.fn = some fn ∧ f.Gives c f' v.id r p

namespace Workspace.Drafts

open BuildM

variable {w : Workspace} {c : Setting} {fn : FnId} {s : Function} {f : Func} {u v : Val}
  {r ru rv : Rep} {t : Ty}

/-! ## Constants -/

theorem ends_tryEngine {α : Type} (h : w.Drafts c fn s f) {act : EngineM α} {post : α → Prop}
    (hgo : Leaves Engine.Evolves act) (hact : ∀ e : Engine, e.Drafts c s.id f →
      Ends act e (fun a e' => post a ∧ e'.Drafts c s.id f) fun _ _ => False) :
    Ends (tryEngine s.runtime act) w
      (fun a w' => (∃ b, a = .ok b ∧ post b) ∧ w'.Drafts c fn s f) fun _ _ => True := by
  obtain ⟨rt, hrt, he⟩ := h.engine
  have hgoes : Ends (tryEngine s.runtime act) w (fun _ w' => w.Goes w') fun _ w' => w.Goes w' :=
    (asks_tryEngine s.runtime hgo).leaves.ends w
  obtain ⟨spans, tracing, hrun⟩ := run_onEngineState hrt
    fun e => (act.run e : Except Failure α × Engine)
  have hends := hact rt.engine he
  unfold Ends at hends hgoes
  unfold tryEngine Ends at *
  rw [hrun] at hgoes ⊢
  rcases hr' : (act.run rt.engine : Except Failure α × Engine) with ⟨err | a, e⟩ <;>
    rw [hr'] at hends hgoes
  · exact hends.elim
  · exact ⟨⟨a, rfl, hends.1⟩, h.advance hrt hends.2 h.plain spans tracing (hgoes h.linked).1⟩

theorem ends_sizeOf (h : w.Drafts c fn s f) (howner : t.owner = some s.runtime)
    (hr : c.types.Firm c.target t.id r) (hi : r.IsInteger) :
    Ends (BuildM.sizeOf t) w (fun n w' => (n = r.size ∨ n = 0) ∧ w'.Drafts c fn s f)
      fun _ _ => True := by
  have hanswer : ∀ e : Engine, e.Drafts c s.id f → Ends (EngineM.layoutOf t.id) e
      (fun a e' => Layout.Sized c.types t.id r a ∧ e'.Drafts c s.id f) fun _ _ => False := by
    intro e he
    obtain ⟨hsized, hnumbers⟩ := he.layouts.run_layoutOf c.ordered hr hi
    rw [← he.target, ← he.types] at hsized hnumbers
    refine .bind_get (.bind_set (.pure' ⟨?_, he.congr rfl rfl ?_ rfl⟩))
    · rwa [← he.types]
    · rwa [← he.target, ← he.types]
  have hgo : Leaves Engine.Evolves (EngineM.layoutOf t.id) :=
    EngineM.evolves_of_same (EngineM.quiet_layoutOf _)
  have hlayout : Ends (layoutOf? t) w (fun l w' => (∀ l', l = some l' → l'.size = r.size) ∧
      w'.Drafts c fn s f) fun _ _ => True := by
    unfold layoutOf?
    rw [howner]
    refine .ite' (fun _ => .pure' ⟨nofun, h⟩) fun _ => .bind' (h.ends_tryEngine hgo hanswer) ?_
    rintro _ w' ⟨⟨b, rfl, hb⟩, h'⟩
    rcases b with why | l
    · exact .pure' ⟨nofun, h'⟩
    · exact .pure' ⟨fun l' hl' => Option.some.inj hl' ▸ hb, h'⟩
  refine .bind' hlayout ?_
  rintro l w' ⟨hsize, h'⟩
  refine .pure' ⟨?_, h'⟩
  cases l with
  | none => exact .inr rfl
  | some l' => exact .inl (hsize l' rfl)

theorem widthOf (h : w.Drafts c fn s f) (howner : t.owner = some s.runtime)
    (hr : c.types.Firm c.target t.id r) (hi : r.IsInteger) :
    Yields fn (widthOf t) w fun n w' => (n = r.width ∨ n = 0) ∧ w'.Drafts c fn s f := by
  refine Yields.of_ends h.linked (asks_widthOf t).leaves (.bind' (h.ends_sizeOf howner hr hi) ?_)
  rintro n w' ⟨hn, h'⟩
  refine .pure' fun _ => ⟨?_, h'⟩
  rcases hn with rfl | rfl
  · left
    unfold Rep.width
    rcases hi.2 with hs | hs | hs | hs <;> rw [hs] <;> rfl
  · right
    rfl

theorem constBits (h : w.Drafts c fn s f) (t : Ty) (hr : c.types.Firm c.target t.id r)
    (hi : r.IsInteger) (n : Int) :
    (BuildM.constBits fn t n).Gives w c fn s f r fun _ l => l = pure (r.wrap n) :=
  h.emit "const" (fun _ => .emits (Emit.edits_constant _ _ _)) fun _ he =>
    he.ends_gives fun _ hb => hb.constant h.plain hr hi n

theorem constSigned (h : w.Drafts c fn s f) (howner : t.owner = some s.runtime)
    (hr : c.types.Firm c.target t.id r) (hi : r.IsInteger) (n : Int) :
    (BuildM.constSigned fn t n).Gives w c fn s f r fun _ l => l = pure (r.wrap n) := by
  refine Yields.bind' (h.widthOf howner hr hi) (fun _ => .ite' (goes_constBits fn t n)
    (goes_rejectText fn _ t _)) ?_
  rintro width w₁ ⟨-, h₁⟩
  exact .ite' (fun _ => h₁.constBits t hr hi n) fun _ => Yields.rejectText h₁.linked _ t _

theorem constUnsigned (h : w.Drafts c fn s f) (howner : t.owner = some s.runtime)
    (hr : c.types.Firm c.target t.id r) (hi : r.IsInteger) {n : Nat} (hn : n < 2 ^ 64) :
    (BuildM.constUnsigned fn t n).Gives w c fn s f r fun _ l => l = pure (r.wrap n) := by
  have hwhole : r.IsWhole := ⟨hi.1.elim .inl fun hc => .inr (.inl hc), hi.2⟩
  refine Yields.bind' (h.widthOf howner hr hi) (fun _ => .ite' (goes_rejectText fn _ t _) <|
    .ite' (goes_rejectText fn _ t _) (.ite' (.throw' _) (goes_constBits fn t _))) ?_
  rintro _ w₁ ⟨rfl | rfl, h₁⟩
  · refine .ite' (fun _ => Yields.rejectText h₁.linked _ t _) fun hfits => ?_
    refine .ite' (fun _ => Yields.rejectText h₁.linked _ t _) fun _ => ?_
    refine .ite' (fun _ => Ends.throw' trivial) fun _ => ?_
    have hlt : n < 2 ^ r.width := by
      have hfits : fitsUnsigned n r.width = true := by simpa using hfits
      unfold fitsUnsigned at hfits
      rcases hwhole.width_cases with hw | hw | hw | hw <;> simp [hw, twoTo] at hfits ⊢ <;> omega
    refine (h₁.constBits t hr hi _).mono ?_
    rw [hi.wrap_congr (hwhole.encodeUnsigned_modEq hlt)]
    exact fun _ _ h => h
  · -- without a width only zero is let through, and then the builder crashes
    refine .ite' (fun _ => Yields.rejectText h₁.linked _ t _) fun _ => ?_
    refine .ite' (fun _ => Yields.rejectText h₁.linked _ t _) fun _ => ?_
    exact .ite' (fun _ => Ends.throw' trivial) fun hpos => absurd (Int.le_refl 0) hpos

theorem literal (h : w.Drafts c fn s f) (howner : t.owner = some s.runtime)
    (hr : c.types.Firm c.target t.id r) (hi : r.IsInteger) (x : Literal) :
    (x.constant fn t).Gives w c fn s f r fun _ l => l = pure (r.wrap x.number) := by
  cases x with
  | signed n =>
    show (constInt fn t n.toInt).Gives w c fn s f r fun _ l => l = pure (r.wrap n.toInt)
    have hlt := n.toInt_lt
    refine Yields.asking (asks_isIntType t).leaves fun ok => ?_
    refine .ite' (fun _ => Yields.rejectText h.linked _ t _) fun _ => ?_
    refine Yields.asking (asks_isUnsignedLike t).leaves fun unsigned => .ite' (fun _ => ?_) fun _ => ?_
    · refine .ite' (fun _ => Yields.rejectText h.linked _ t _) fun hneg => ?_
      have hmade := h.constUnsigned howner hr hi (n := n.toInt.toNat) (by omega)
      rwa [show ((n.toInt.toNat : Nat) : Int) = n.toInt by omega] at hmade
    · exact h.constSigned howner hr hi n.toInt
  | unsigned n =>
    show (constUint fn t n.toNat).Gives w c fn s f r fun _ l => l = pure (r.wrap n.toNat)
    refine Yields.asking (asks_isIntType t).leaves fun ok => ?_
    refine .ite' (fun _ => Yields.rejectText h.linked _ t _) fun _ => ?_
    refine Yields.asking (asks_isSigned t).leaves fun signed => .ite' (fun _ => ?_) fun _ => ?_
    · refine .ite' (fun _ => ?_) fun _ => Yields.rejectText h.linked _ t _
      exact h.constSigned howner hr hi n.toNat
    · exact h.constUnsigned howner hr hi n.toNat_lt

/-! ## Operators -/

theorem cast (h : w.Drafts c fn s f) (hfn : v.fn = some fn) (hv : f.Number c v.id rv)
    (hr : c.types.Firm c.target t.id r) (hi : r.IsInteger) :
    (BuildM.cast v t).Gives w c fn s f r fun regs l => ∃ n, Reads rv v.id n regs ∧
      l = pure (r.wrap n) := by
  unfold BuildM.cast
  rw [onValue_eq hfn hv.pos]
  refine .ite' (fun _ => ?_) fun _ => Yields.reject' h.linked _ _
  exact h.emit "cast" (fun _ => .emits (Emit.edits_convert _ _)) fun _ he =>
    he.ends_gives fun _ hb => hb.convert h.plain hv hr hi

theorem unary (h : w.Drafts c fn s f) (hfn : v.fn = some fn) (hv : f.Number c v.id rv)
    (name : String) (op : Opcode) :
    (BuildM.unary name op v).Gives w c fn s f rv.promoted fun regs l => ∃ n,
      Reads rv v.id n regs ∧ l = pure (rv.promoted.turn op (rv.promoted.wrap n)) := by
  unfold BuildM.unary
  rw [onValue_eq hfn hv.pos]
  refine h.emit name (fun _ => .edits_unary _ _) fun _ he =>
    he.ends_checked _ fun hop _ hb => hb.unary h.plain hv ?_
  by_cases hneg : op = .neg
  · exact .inl hneg
  · exact .inr (by_contra fun hnot => hop ⟨hneg, hnot⟩)

theorem binary (h : w.Drafts c fn s f) (hufn : u.fn = some fn) (hu : f.Number c u.id ru)
    (hvfn : v.fn = some fn) (hv : f.Number c v.id rv) (name : String) (op : Opcode)
    (hr : r = if op.isShift then ru.promoted else ru.common rv) :
    (BuildM.binary name op u (.value v)).Gives w c fn s f r fun regs l => ∃ n k,
      Reads ru u.id n regs ∧ Reads rv v.id k regs ∧ l = r.operate op (r.wrap n) (r.wrap k) := by
  unfold BuildM.binary
  rw [onValue_eq hufn hu.pos, operand?_eq hvfn hv.pos, pure_bind]
  exact h.emit name (fun _ => .edits_binary _ _ _) fun _ he =>
    he.ends_checked _ fun hop _ hb => hb.binary h.plain hu hv (by simpa using hop) hr

theorem compare (h : w.Drafts c fn s f) (hufn : u.fn = some fn) (hu : f.Number c u.id ru)
    (hvfn : v.fn = some fn) (hv : f.Number c v.id rv) (name : String) (op : Opcode) :
    (BuildM.compare name op u (.value v)).Gives w c fn s f .bool fun regs l => ∃ n k,
      Reads ru u.id n regs ∧ Reads rv v.id k regs ∧
        l = pure (if op.relates ((ru.common rv).wrap n) ((ru.common rv).wrap k) then 1 else 0) := by
  unfold BuildM.compare
  rw [onValue_eq hufn hu.pos, operand?_eq hvfn hv.pos, pure_bind]
  exact h.emit name (fun _ => .edits_compare _ _ _) fun _ he =>
    he.ends_checked _ fun hop _ hb => hb.compare h.plain hu hv (by simpa using hop)

theorem toBool (h : w.Drafts c fn s f) (hfn : v.fn = some fn) (hv : f.Number c v.id rv) :
    (BuildM.toBool v).Builds w c fn s f fun u f' => u.fn = some fn ∧ ∃ r, ∃ z : Int → Int,
      (∀ n, (z n != 0) = (n != 0)) ∧ f.Gives c f' u.id r fun regs l => ∃ n,
        Reads rv v.id n regs ∧ l = pure (z n) := by
  unfold BuildM.toBool
  rw [onValue_eq hfn hv.pos]
  refine .ite' (fun _ => ?_) fun _ => ?_
  · refine Yields.pure' h.linked ⟨f, h, .refl h.plain, hfn, rv, id, fun _ => rfl,
      .refl h.plain, hv, ?_⟩
    rintro regs _ ⟨n, hn, rfl⟩
    exact .refl' hn
  · have hmade := h.emit "to_bool" (fun _ => .emits (Emit.edits_test (by decide) _)) fun _ he => he.ends_gives fun _ hb => hb.test h.plain hv
    refine Yields.mono hmade ?_
    rintro u w' ⟨f', h', hcont, hufn, hu⟩
    exact ⟨f', h', hcont, hufn, .bool, fun n => if n != 0 then 1 else 0,
      fun n => by by_cases hn : n = 0 <;> simp [hn], hu⟩

end Workspace.Drafts

/-! ## Expressions -/

section

variable {k : Nat} {w : Workspace} {c : Setting} {fn : FnId} {s : Function} {f : Func}
  {r r' : Rep}

theorem BuildM.Gives.pure' {v : Val} {p : Array Word → Except Cause Int → Prop}
    (h : w.Drafts c fn s f) (hfn : v.fn = some fn) (hv : f.Gives c f v.id r p) :
    (pure v : BuildM Val).Gives w c fn s f r p := by
  unfold Gives Builds
  exact Yields.pure' h.linked ⟨f, h, .refl h.plain, hfn, hv⟩

theorem BuildM.Gives.bind' {α : Type} {H : α → Array Word → Prop} {y : α → Except Cause Int}
    {z : Int → Except Cause Int} {act : BuildM Val} {next : Val → BuildM Val}
    (h : act.Gives w c fn s f r' fun regs l => ∃ a, H a regs ∧ l = y a)
    (hgo : ∀ v, Leaves Workspace.Goes (next v))
    (hnext : ∀ (v : Val) (w' : Workspace) (f' : Func), w'.Drafts c fn s f' → v.fn = some fn →
      f'.Number c v.id r' → (next v).Gives w' c fn s f' r fun regs l => ∃ n,
        Reads r' v.id n regs ∧ l = z n) :
    (act >>= next).Gives w c fn s f r fun regs l => ∃ a, H a regs ∧ l = y a >>= z := by
  refine Yields.bind' h hgo ?_
  rintro v w₁ ⟨f₁, h₁, hcont₁, hfn, hv⟩
  refine Yields.mono (hnext v w₁ f₁ h₁ hfn hv.number) ?_
  rintro u w₂ ⟨f₂, h₂, hcont₂, hufn, hu⟩
  refine ⟨f₂, h₂, hcont₁.trans hcont₂, hufn, hv.bind' hu ?_⟩
  rintro regs _ ⟨a, ha, rfl⟩
  exact ⟨_, z, ⟨a, ha, rfl⟩, rfl, fun n regs' hn _ => ⟨n, hn, rfl⟩⟩

theorem BuildM.Gives.both {α : Type} {H : α → Array Word → Prop} {x y : α → Except Cause Int}
    {z : Int → Int → Except Cause Int} {ru rv : Rep} {act act' : BuildM Val}
    {next : Val → Val → BuildM Val}
    (hkept : ∀ {a regs regs'}, H a regs → f.Kept regs regs' → H a regs')
    (hu : act.Gives w c fn s f ru fun regs l => ∃ a, H a regs ∧ l = x a)
    (hv : ∀ (w' : Workspace) (f' : Func), w'.Drafts c fn s f' → f.Continues f' →
      act'.Gives w' c fn s f' rv fun regs l => ∃ a, H a regs ∧ l = y a)
    (hgo : Leaves Workspace.Goes act') (hgo' : ∀ u v, Leaves Workspace.Goes (next u v))
    (hnext : ∀ (u v : Val) (w' : Workspace) (f' : Func), w'.Drafts c fn s f' → u.fn = some fn →
      f'.Number c u.id ru → v.fn = some fn → f'.Number c v.id rv →
      (next u v).Gives w' c fn s f' r fun regs l => ∃ n k, Reads ru u.id n regs ∧
        Reads rv v.id k regs ∧ l = z n k) :
    (do
      let u ← act
      let v ← act'
      next u v).Gives w c fn s f r fun regs l => ∃ a, H a regs ∧ l = (do
        let n ← x a
        let k ← y a
        z n k) := by
  refine Yields.bind' hu (fun u => .bind' hgo (hgo' u)) ?_
  rintro u w₁ ⟨f₁, h₁, hcont₁, hufn, hu⟩
  refine Yields.bind' (hv w₁ f₁ h₁ hcont₁) (hgo' u) ?_
  rintro v w₂ ⟨f₂, h₂, hcont₂, hvfn, hv⟩
  refine Yields.mono (hnext u v w₂ f₂ h₂ hufn (hu.number.within hcont₂.within) hvfn hv.number) ?_
  rintro t w₃ ⟨f₃, h₃, hcont₃, htfn, ht⟩
  exact ⟨f₃, h₃, hcont₁.trans (hcont₂.trans hcont₃), htfn, hu.both hkept hv ht⟩

theorem Term.goes_emit {rt : RuntimeId} (fn : FnId) (vals : Fin k → Val) (a : Term c rt k) :
    Leaves Workspace.Goes (a.emit fn vals) := by
  induction a with
  | const t x =>
    cases x with
    | signed n => exact BuildM.goes_constInt fn t.ty n.toInt
    | unsigned n => exact BuildM.goes_constUint fn t.ty n.toNat
  | var i => exact .pure' _
  | cast t a ih => exact .bind' ih fun x => BuildM.goes_cast x _
  | unary op a ih => exact .bind' ih fun x => BuildM.goes_unary _ op x
  | binary op a b iha ihb => exact .bind' iha fun x => .bind' ihb fun y => BuildM.goes_binary _ op x _
  | compare op a b iha ihb =>
    exact .bind' iha fun x => .bind' ihb fun y => BuildM.goes_compare _ op x _

theorem Term.builds {rt : RuntimeId} {vals : Fin k → Val} {reps : Fin k → Rep} (a : Term c rt k)
    (hrt : s.runtime = rt) (h : w.Drafts c fn s f) (hvars : f.Variables c fn vals reps) :
    (a.emit fn vals).Gives w c fn s f (a.rep reps) fun regs l => ∃ σ : Valuation k,
      σ.In vals reps regs ∧ l = a.eval reps σ := by
  induction a generalizing w f with
  | const t x =>
    refine BuildM.Yields.mono (h.literal (hrt ▸ t.owner) t.firm t.isInteger x) ?_
    rintro v w' ⟨f', h', hcont, hfn, hv⟩
    refine ⟨f', h', hcont, hfn, hv.continues, hv.number, ?_⟩
    rintro regs _ ⟨σ, -, rfl⟩
    exact hv.computes rfl
  | var i =>
    have hread : Func.Gives c f f (vals i).id (reps i) fun regs l => ∃ σ : Valuation k,
        σ.In vals reps regs ∧ l = pure (σ i) := by
      refine ⟨.refl h.plain, hvars.number i, ?_⟩
      rintro regs _ ⟨σ, hσ, rfl⟩
      exact .refl' (hσ i)
    exact BuildM.Gives.pure' h (hvars.fn i) hread
  | cast t a ih =>
    exact (ih h hvars).bind' (fun x => BuildM.goes_cast x _) fun v w' f' h' hfn hv =>
      h'.cast hfn hv t.firm t.isInteger
  | unary op a ih =>
    exact (ih h hvars).bind' (fun x => BuildM.goes_unary _ op x) fun v w' f' h' hfn hv =>
      h'.unary hfn hv _ op
  | binary op a b iha ihb =>
    exact .both (fun hσ hkept => hvars.kept hσ hkept) (iha h hvars)
      (fun w' f' h' hcont => ihb h' (hvars.continues hcont)) (b.goes_emit fn vals)
      (fun u v => BuildM.goes_binary _ op u _)
      fun u v w' f' h' hufn hu hvfn hv => h'.binary hufn hu hvfn hv _ op rfl
  | compare op a b iha ihb =>
    exact .both (fun hσ hkept => hvars.kept hσ hkept) (iha h hvars)
      (fun w' f' h' hcont => ihb h' (hvars.continues hcont)) (b.goes_emit fn vals)
      (fun u v => BuildM.goes_compare _ op u _)
      fun u v w' f' h' hufn hu hvfn hv => h'.compare hufn hu hvfn hv _ op

end

end TypedIR
