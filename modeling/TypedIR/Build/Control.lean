import TypedIR.Build.Value

/-
  Labels, jumps and structured statements.

  A statement is opened, gets its bodies one after the other, and is closed.
  Bodies run in any monad that builder operations can be lifted into, so a
  host can do more than build while it emits a body. A statement remembers its
  first problem, and then emits nothing more.
-/

namespace TypedIR

open Text

namespace BuildM

def problemOf (f : FnId) : BuildM (Option Problem) := do
  return (← function f).problem

def keptProblem (f : FnId) (act : BuildM Unit) : BuildM (Option Problem) := do
  match ← attempt act with
  | .ok () => pure none
  | .error p =>
    keep f p
    pure (some p)

def complaintOf (f : FnId) (op : String) (c : Complaint) : BuildM (Option Problem) := do
  let p := Problem.complaint op c
  keep f p
  pure (some p)

def newLabel (f : FnId) : BuildM Label := do
  let id ← guarded f 0 (onFunc f "label" EngineM.newLabel)
  pure { fn := f, id }

def labelPlaced (l : Label) : BuildM Bool := do
  let s ← function l.fn
  return l.id != 0 && (← engine s.runtime).labelPlaced s.id l.id

def placeLabel (l : Label) : BuildM (Option Problem) := do
  if l.id = 0 then complaintOf l.fn "label" .invalidLabel
  else if ← labelPlaced l then complaintOf l.fn "label" (.labelPlaced l.id)
  else keptProblem l.fn (onFunc l.fn "label" fun id => EngineM.placeLabel id l.id)

def target? (f : FnId) (op : String) (l : Option Label) : BuildM (Option LabelId) := do
  match l with
  | none =>
    keep f (.complaint op .invalidLabel)
    pure none
  | some l =>
    if l.id = 0 then
      keep f (.complaint op .invalidLabel)
      pure none
    else if l.fn ≠ f then
      keep f (.complaint op (.foreignLabel l.id))
      pure none
    else pure (some l.id)

def jump (f : FnId) (l : Option Label) : BuildM (Option Problem) := do
  match ← target? f "jmp" l with
  | none => problemOf f
  | some l => keptProblem f (onFunc f "jmp" fun id => EngineM.branch id l)

def jumpOn (f : FnId) (op : String) (cond : Val) (l : Option Label)
    (act : FuncId → ValueId → LabelId → EngineM Unit) : BuildM (Option Problem) := do
  match ← target? f op l with
  | none => problemOf f
  | some l =>
    match ← operand? f op (.value cond) (Builtin.bool.ty (← runtimeOf f)) with
    | none => problemOf f
    | some c => keptProblem f (onFunc f op fun id => act id c.id l)

def jumpIf (f : FnId) (cond : Val) (l : Option Label) : BuildM (Option Problem) :=
  jumpOn f "jmp_if" cond l EngineM.branchIf

def jumpIfNot (f : FnId) (cond : Val) (l : Option Label) : BuildM (Option Problem) :=
  jumpOn f "jmp_if_not" cond l EngineM.branchIfNot

def breakLoop (f : FnId) : BuildM (Option Problem) := do
  match (← function f).breaks with
  | [] => complaintOf f "break" .breakOutside
  | l :: _ => jump f (some l)

end BuildM

/-- A conditional statement under construction. -/
structure Branch where
  fn : FnId
  /-- The body runs if the condition is false. -/
  negate : Bool
  cond : HostValue
  elseLabel : Option Label := none
  endLabel : Option Label := none
  closed : Bool := false
  problem : Option Problem := none
  deriving Inhabited

namespace Branch

def test (b : Branch) : BuildM Branch := do
  match ← BuildM.operand? b.fn "if" b.cond (Builtin.bool.ty (← BuildM.runtimeOf b.fn)) with
  | none => return { b with problem := ← BuildM.problemOf b.fn }
  | some c =>
    let l ← BuildM.newLabel b.fn
    let c ← BuildM.toBool c
    let problem ← if b.negate then BuildM.jumpIf b.fn c (some l) else BuildM.jumpIfNot b.fn c (some l)
    pure { b with elseLabel := some l, problem }

def turn (b : Branch) : BuildM Branch := do
  if b.problem.isSome then return b
  match b.elseLabel with
  | none => return { b with problem := ← BuildM.complaintOf b.fn "else" .elseWithoutBody }
  | some l =>
    let done ← BuildM.newLabel b.fn
    let b := { b with endLabel := some done }
    match ← BuildM.jump b.fn (some done) with
    | some p => pure { b with problem := some p }
    | none => return { b with problem := ← BuildM.placeLabel l }

def finish (b : Branch) : BuildM (Option Problem × Branch) := do
  if b.problem.isSome then return (b.problem, b)
  if b.closed then return (← BuildM.complaintOf b.fn "end" .statementClosed, b)
  let b := { b with closed := true }
  match b.elseLabel, b.endLabel with
  | none, _ => return (← BuildM.complaintOf b.fn "end" .ifWithoutBody, b)
  | some _, some l => return (← BuildM.placeLabel l, b)
  | some l, none => return (← BuildM.placeLabel l, b)

variable {m : Type → Type} [Monad m] [MonadLiftT BuildM m]

def thenDo (b : Branch) (body : m Unit) : m Branch := do
  let b ← (test b : BuildM Branch)
  if b.problem.isNone then body
  pure b

def elseDo (b : Branch) (body : m Unit) : m Branch := do
  let b ← (turn b : BuildM Branch)
  if b.problem.isNone then body
  pure b

end Branch

/-- A loop under construction. -/
structure Loop where
  fn : FnId
  /-- The loop ends when the condition becomes true. -/
  negate : Bool
  top : Option Label := none
  bottom : Option Label := none
  closed : Bool := false
  problem : Option Problem := none
  deriving Inhabited

namespace Loop

def start (l : Loop) : BuildM Loop := do
  let top ← BuildM.newLabel l.fn
  let bottom ← BuildM.newLabel l.fn
  pure { l with top := some top, bottom := some bottom }

/-- Emits a test of a condition that was just emitted: out of the loop to its
end, or back to its top. -/
def test (l : Loop) (c : Val) (leaving : Bool) : BuildM Loop := do
  if !c.valid then
    match ← BuildM.problemOf l.fn with
    | some p => return { l with problem := some p }
    | none => return { l with problem := ← BuildM.complaintOf l.fn "while" .invalidCondition }
  let c ← BuildM.toBool c
  let target := if leaving then l.bottom else l.top
  let problem ←
    if leaving != l.negate then BuildM.jumpIfNot l.fn c target else BuildM.jumpIf l.fn c target
  pure { l with problem }

def enter (l : Loop) : BuildM Loop := do
  match l.top, l.bottom with
  | some top, some bottom =>
    match ← BuildM.placeLabel top with
    | some p => pure { l with problem := some p }
    | none =>
      BuildM.modifyFunction l.fn fun s => { s with breaks := bottom :: s.breaks }
      pure l
  | _, _ => throw .crashed

def leave (l : Loop) : BuildM Unit :=
  BuildM.modifyFunction l.fn fun s => { s with breaks := s.breaks.tail }

def noCondition (l : Loop) : BuildM Loop := do
  return { l with problem := ← BuildM.complaintOf l.fn "while" .missingCondition }

def finish (l : Loop) : BuildM (Option Problem × Loop) := do
  if l.problem.isSome then return (l.problem, l)
  if l.closed then return (← BuildM.complaintOf l.fn "end" .loopClosed, l)
  let l := { l with closed := true }
  match l.bottom with
  | none => return (← BuildM.complaintOf l.fn "end" .loopWithoutBody, l)
  | some b => return (← BuildM.placeLabel b, l)

variable {m : Type → Type} [Monad m] [MonadLiftT BuildM m]

def run (l : Loop) (cond : m Val) (body : m Unit) : m Loop := do
  let l ← (start l : BuildM Loop)
  let c ← cond
  let l ← (test l c true : BuildM Loop)
  if l.problem.isSome then return l
  let l ← (enter l : BuildM Loop)
  if l.problem.isSome then return l
  body
  (leave l : BuildM Unit)
  let c ← cond
  (test l c false : BuildM Loop)

end Loop

namespace BuildM

def ifThen (f : FnId) (cond : Val) (body : BuildM Unit) : BuildM (Option Problem) := do
  let b ← Branch.thenDo { fn := f, negate := false, cond := .value cond } body
  return (← b.finish).1

def ifThenElse (f : FnId) (cond : Val) (body other : BuildM Unit) : BuildM (Option Problem) := do
  let b ← Branch.thenDo { fn := f, negate := false, cond := .value cond } body
  let b ← b.elseDo other
  return (← b.finish).1

def whileLoop (f : FnId) (cond : BuildM Val) (body : BuildM Unit) : BuildM (Option Problem) := do
  let l ← Loop.run { fn := f, negate := false } cond body
  return (← l.finish).1

def untilLoop (f : FnId) (cond : BuildM Val) (body : BuildM Unit) : BuildM (Option Problem) := do
  let l ← Loop.run { fn := f, negate := true } cond body
  return (← l.finish).1

def check (p : Option Problem) : BuildM Unit :=
  match p with
  | none => pure ()
  | some p => throw (.problem p)

end BuildM

end TypedIR
