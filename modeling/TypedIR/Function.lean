import TypedIR.Engine.Failure

/-
  Functions as the engine keeps them: values, labels and an instruction stream.

  Values are numbered from 1; position 0 of the value table is a placeholder
  without a type, which sits at the start of the frame. Labels are numbered
  from 1 as well; a label that is not placed has position -1.
-/

namespace TypedIR

open Text

abbrev ValueId := Nat

abbrev LabelId := Nat

abbrev FuncId := Nat

abbrev ContextId := Nat

/-- Where a value comes from. -/
inductive Origin where
  | temp
  | local
  | param
  | const
  | other (code : UInt8)
  deriving DecidableEq, Repr, Inhabited

namespace Origin

def ofCode (n : UInt8) : Origin :=
  match n.toNat with
  | 0 => .temp
  | 1 => .local
  | 2 => .param
  | 3 => .const
  | _ => .other n

def code : Origin → UInt8
  | .temp => 0
  | .local => 1
  | .param => 2
  | .const => 3
  | .other n => n

def name : Origin → String
  | .temp => "temp"
  | .local => "local"
  | .param => "param"
  | .const => "const"
  | .other n => "ValueKind(" ++ decimalNat n.toNat ++ ")"

end Origin

/-- One value of a function: its type and representation, where it comes from,
the index of a parameter, the bits of a constant, whether its address may be
taken, and its offset in the frame once the function is compiled (`none` for a
value that lives in a register). -/
structure ValueInfo where
  type : TypeId := 0
  rep : Rep := {}
  origin : Origin := .temp
  param : Int := 0
  bits : Word := 0
  addressable : Bool := false
  slot : Option Int := none
  deriving DecidableEq, Repr, Inhabited

/-- Where in the frame a value lives, if not in its register. An offset that
wrapped around below 0 is no place. -/
def ValueInfo.place? (v : ValueInfo) : Option Int := v.slot.filter (0 ≤ ·)

theorem ValueInfo.place?_of_none {v : ValueInfo} (h : v.slot = none) : v.place? = none := by
  rw [place?, h]
  rfl

/-- The value at position 0, which no instruction of a well-formed function
names. -/
def ValueInfo.placeholder : ValueInfo := { slot := some 0 }

/-- One instruction. Which fields an opcode uses depends on the opcode; `rep`
is the representation of the operation: of the operands for comparisons and
stores, of the element for loads and indexed access. -/
structure Insn where
  op : Opcode
  dest : ValueId := 0
  a : ValueId := 0
  b : ValueId := 0
  args : List ValueId := []
  label : LabelId := 0
  offset : Int := 0
  type : TypeId := 0
  callee : FuncId := 0
  native : String := ""
  math : MathOp := .other 0
  rep : Rep := {}
  /-- Marks a return that was added because the end could be reached. -/
  implicit : Bool := false
  deriving DecidableEq, Repr, Inhabited

/-- A function of the engine. `frameSize` and the slots of the values are
filled in when the function is compiled. -/
structure Func where
  id : FuncId
  ctx : ContextId
  name : String
  sig : TypeId
  ret : Rep
  values : Array ValueInfo := #[.placeholder]
  params : List ValueId := []
  insns : Array Insn := #[]
  labels : Array Int := #[-1]
  compiled : Bool := false
  destroyed : Bool := false
  frameSize : Int := 0
  deriving Inhabited

namespace Func

def value? (f : Func) (v : ValueId) : Option ValueInfo :=
  if v = 0 then none else f.values[v]?

/-- The position of a label, -1 until it is placed; `none` for a name that is
no label. -/
def label? (f : Func) (l : LabelId) : Option Int :=
  if l = 0 then none else f.labels[l]?

def addValue (f : Func) (v : ValueInfo) : ValueId × Func :=
  (f.values.size, { f with values := f.values.push { v with slot := none } })

def push (f : Func) (i : Insn) : Func :=
  { f with insns := f.insns.push i }

def addLabel (f : Func) : LabelId × Func :=
  (f.labels.size, { f with labels := f.labels.push (-1) })

def valueCount (f : Func) : Nat := f.values.size - 1

def labelCount (f : Func) : Nat := f.labels.size - 1

def target? (f : Func) (i : Insn) : Option Nat :=
  match f.label? i.label with
  | some pos => if pos < 0 then none else some pos.toNat
  | none => none

/-- The positions control may go to from an instruction at `pc`; the length of
the stream stands for falling off its end. -/
def successors (f : Func) (pc : Nat) (i : Insn) : List Nat :=
  match i.op with
  | .ret => []
  | .branch => (f.target? i).toList
  | .branchIf | .branchIfNot => (f.target? i).toList ++ [pc + 1]
  | _ => [pc + 1]

/-- Puts the positions that were not seen before on the work list. There is a mark for
each position of the stream and one for its end; `none` is a position behind them. -/
def visit (seen : Array Bool) (work : List Nat) : List Nat → Option (Array Bool × List Nat)
  | [] => some (seen, work)
  | s :: rest =>
    match seen[s]? with
    | none => none
    | some true => visit seen work rest
    | some false => visit (seen.setIfInBounds s true) (s :: work) rest

/-- Follows control from the positions on the work list until the end of the
stream comes up; `fuel` bounds how many positions are looked at. -/
def reachEnd (f : Func) : Nat → Array Bool → List Nat → Option Bool
  | 0, _, _ => none
  | _ + 1, _, [] => some false
  | fuel + 1, seen, pc :: work =>
    match f.insns[pc]? with
    | none => some true
    | some i =>
      match visit seen work (f.successors pc i) with
      | none => none
      | some (seen, work) => f.reachEnd fuel seen work

/-- The marks when the search starts: only the first position was seen. -/
def firstSeen (f : Func) : Array Bool :=
  (Array.replicate (f.insns.size + 1) false).setIfInBounds 0 true

/-- Whether control that starts at the first instruction can fall off the end
of the stream; `none` if it comes to a label behind the end first, where the search
crashes. Every position is looked at once at most, so one more than the
number of positions is fuel enough. -/
def endReachable (f : Func) : Option Bool :=
  f.reachEnd (f.insns.size + 2) f.firstSeen [0]

end Func

end TypedIR
