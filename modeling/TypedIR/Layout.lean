import TypedIR.Types.Table
import TypedIR.Text.Quoted
import TypedIR.Word

/-
  Sizes, alignments and field offsets of types on a target.

  A struct places its fields in order, each at the next multiple of its
  alignment; the struct's own alignment is the largest of its fields' and its
  size is rounded up to it. Tags change nothing. An answer once given for a
  type is remembered and given again, also when it was a refusal.
-/

namespace TypedIR

open Text

/-- A target machine: its name, and the size and alignment of pointers. -/
structure Target where
  triple : String
  ptrSize : Int
  ptrAlign : Int
  deriving DecidableEq, Repr, Inhabited

namespace Target

def amd64 : Target := ⟨"x86_64-linux-gnu", 8, 8⟩

def i386 : Target := ⟨"i386-linux-gnu", 4, 4⟩

def ofName? : String → Option Target
  | "" => some amd64
  | "x86_64-linux-gnu" => some amd64
  | "amd64" => some amd64
  | "i386-linux-gnu" => some i386
  | "386" => some i386
  | _ => none

def unsupportedMessage (name : String) : String :=
  "unsupported target " ++ quoted name

def nativeBits (t : Target) : Int :=
  if t.ptrSize ≤ 0 then 64 else wrap64 (t.ptrSize * 8)

end Target

/-- The place a type takes in memory; offsets and alignments of the fields are
listed for structs that have fields. -/
structure Layout where
  size : Int
  align : Int
  offsets : List Int := []
  aligns : List Int := []
  deriving DecidableEq, Repr, Inhabited

namespace Layout

/-- Why a type has no layout. -/
inductive Refusal where
  | unknownType (id : TypeId)
  | unsizedField (id : TypeId) (field : Nat)
  | invalidWidth (id : TypeId)
  /-- The walk into the type was longer than the steps it had. -/
  | unfinished (id : TypeId)
  deriving DecidableEq, Repr, Inhabited

def Refusal.message : Refusal → String
  | .unknownType id => "unknown type (type#" ++ decimalNat id ++ ")"
  | .unsizedField id i =>
    "struct field " ++ decimalNat i ++ " has no size (type#" ++ decimalNat id ++ ")"
  | .invalidWidth id => "invalid numeric width (type#" ++ decimalNat id ++ ")"
  | .unfinished id => "type contains itself (type#" ++ decimalNat id ++ ")"

def empty : Layout := ⟨0, 1, [], []⟩

abbrev Answer := Except Refusal Layout

abbrev Cache := List (TypeId × Answer)

/-- The layout of pointers and pointer-sized integers. A target that leaves
the size open has 8-byte pointers, and one that leaves the alignment open
aligns them to their size. -/
def pointerLayout (target : Target) : Layout :=
  let size := if target.ptrSize ≤ 0 then 8 else target.ptrSize
  let align := if target.ptrAlign ≤ 0 then size else target.ptrAlign
  { size, align }

def numberLayout (size : Nat) (id : TypeId) : Answer :=
  if size = 1 ∨ size = 2 ∨ size = 4 ∨ size = 8 then
    .ok { size := size, align := size }
  else .error (.invalidWidth id)

def roundUp (n align : Int) : Int :=
  if align ≤ 1 then n
  else
    let r := n.tmod align
    if r = 0 then n else wrap64 (n + (align - r))

/-- A struct whose first fields are placed: the end of the last one, the
alignment so far, and the placed fields, the last one first. -/
structure Partial where
  size : Int := 0
  align : Int := 1
  offsets : List Int := []
  aligns : List Int := []

def Partial.place (p : Partial) (field : Layout) : Partial :=
  let align := max field.align 1
  let offset := roundUp p.size align
  { size := wrap64 (offset + field.size), align := max p.align align,
    offsets := offset :: p.offsets, aligns := align :: p.aligns }

def Partial.finish (p : Partial) : Layout :=
  { size := roundUp p.size p.align, align := p.align,
    offsets := p.offsets.reverse, aligns := p.aligns.reverse }

/-- Places the fields of struct `id` one after the other; `layout` answers for
the type of a field, and `i` is the index of the next one. -/
def placeFields (layout : TypeId → StateM Cache Answer) (id : TypeId) :
    Nat → Partial → List Field → StateM Cache Answer
  | _, p, [] => pure (.ok p.finish)
  | i, p, f :: rest => do
    match ← layout f.type with
    | .error e => pure (.error e)
    | .ok l =>
      if l.size = 0 then pure (.error (.unsizedField id i))
      else placeFields layout id (i + 1) (p.place l) rest

/-- The layout of a type, from the answers so far or worked out. `n` bounds
how deep types are followed into their parts. -/
def layoutWithin (target : Target) (t : TypeTable) : Nat → TypeId → StateM Cache Answer
  | 0, id => pure (.error (.unfinished id))
  | n + 1, id => do
    match (← get).lookup id with
    | some answer => pure answer
    | none =>
      let answer ← match t.find? id with
        | none => pure (.error (.unknownType id))
        | some d =>
          match d.kind with
          | .void => pure (.ok empty)
          | .int | .uint =>
            if d.width = 0 then pure (.ok (pointerLayout target))
            else pure (numberLayout (d.width.toNat / 8) id)
          | .float =>
            if d.width = 32 ∨ d.width = 64 then pure (numberLayout (d.width.toNat / 8) id)
            else pure (.error (.invalidWidth id))
          | .pointer | .signature => pure (.ok (pointerLayout target))
          | .tagged => layoutWithin target t n d.elem
          | .struct =>
            match t.fieldsOf id with
            | [] => pure (.ok empty)
            | fields => placeFields (layoutWithin target t n) id 0 {} fields
          | _ => pure (.error (.unknownType id))
      modify ((id, answer) :: ·)
      pure answer

def layoutOf (target : Target) (t : TypeTable) (id : TypeId) : StateM Cache Answer :=
  layoutWithin target t (t.size + 1) id

def Answer.size : Answer → Int
  | .ok l => l.size
  | .error _ => 0

/-- The width in bits in an answer, 0 in a refusal and for what has no
size. -/
def Answer.bits : Answer → Int
  | .ok l => if l.size ≤ 0 then 0 else wrap64 (l.size * 8)
  | .error _ => 0

def Answer.fieldOffset? (answer : Answer) (i : Int) : Option Int :=
  match answer with
  | .ok l => if i < 0 then none else l.offsets[i.toNat]?
  | .error _ => none

end Layout

end TypedIR
