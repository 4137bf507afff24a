import TypedIR.Text.Json
import TypedIR.Double

/-
  Reports: what there is to say about an object, as a tree of named parts.

  A report is made to be read by programs. Members of a record keep their
  order, and a member that says nothing can be left out. Numbers that may not
  fit a word of the reader are given as decimal texts, so both forms are read.
-/

namespace TypedIR

open Text

/-- A report. -/
inductive Report where
  | nothing
  | flag (b : Bool)
  | number (n : Int)
  | text (s : String)
  | list (items : List Report)
  | record (members : List (String × Report))
  deriving Repr, Inhabited

namespace Report

instance : Coe Bool Report := ⟨.flag⟩
instance : Coe Int Report := ⟨.number⟩
instance : Coe Nat Report := ⟨fun n => .number n⟩
instance : Coe String Report := ⟨.text⟩
instance : OfNat Report n := ⟨.number n⟩

/-! ## Making reports -/

def each {α : Type} (f : α → Report) (l : List α) : Report := .list (l.map f)

def maybe {α : Type} (f : α → Report) : Option α → Report
  | some a => f a
  | none => .nothing

def ints : List Int → Report := each .number

def nats : List Nat → Report := each fun n => .number n

def texts : List String → Report := each .text

def numeral (n : Int) : Report := .text (Text.decimal n)

def word (w : Word) : Report := numeral w.toNat

/-- A float by the hexadecimal digits of its bits; all that are no numbers are
alike. -/
def float (x : Double) : Report :=
  if x.isNaN then "nan" else padLeft 16 '0' (hexNat x.bits.toNat)

def isNothing : Report → Bool
  | .nothing => true
  | _ => false

/-- Whether a report says no more than a missing one: it is empty, zero or
false. A list is there even if it has no members. -/
def isBlank : Report → Bool
  | .nothing => true
  | .flag b => !b
  | .number n => n == 0
  | .text s => s == ""
  | _ => false

def known (members : List (String × Report)) : Report :=
  .record (members.filter fun m => !m.2.isNothing)

def sparse (members : List (String × Report)) : Report :=
  .record (members.filter fun m => !m.2.isBlank)

def adding (r : Report) (k : String) (more : Report) : Report :=
  match r with
  | .record ms => .record (ms ++ [(k, more)])
  | other => other

/-! ## Reading reports -/

def get? (r : Report) (k : String) : Option Report :=
  match r with
  | .record ms => ms.lookup k
  | _ => none

def get (r : Report) (k : String) : Report := (r.get? k).getD .nothing

/-- The value of a digit in base 16 or less; other characters count as
nothing. -/
def digitOf (c : Char) : Nat :=
  if c.isDigit then c.toNat - 48
  else if 'a' ≤ c && c ≤ 'f' then c.toNat - 87
  else if 'A' ≤ c && c ≤ 'F' then c.toNat - 55
  else 0

def ofDigits (base : Nat) (cs : List Char) : Nat :=
  cs.foldl (fun n c => n * base + digitOf c) 0

/-- The number in a report, given as itself or as a text in decimal or, with a
mark, in hexadecimal digits. -/
def int : Report → Int
  | .number n => n
  | .text s =>
    match s.toList with
    | '-' :: rest => -(ofDigits 10 rest : Int)
    | '0' :: 'x' :: rest => ofDigits 16 rest
    | cs => ofDigits 10 cs
  | _ => 0

def nat (r : Report) : Nat := r.int.toNat

def byte (r : Report) : UInt8 := UInt8.ofNat (r.int % 256).toNat

def hex : Report → Nat
  | .text s => ofDigits 16 s.toList
  | _ => 0

def bytePairs : List Char → List UInt8
  | a :: b :: rest => UInt8.ofNat (digitOf a * 16 + digitOf b) :: bytePairs rest
  | _ => []

def hexBytes : Report → List UInt8
  | .text s => bytePairs s.toList
  | _ => []

def string : Report → String
  | .text s => s
  | _ => ""

def bool : Report → Bool
  | .flag b => b
  | _ => false

def items : Report → List Report
  | .list xs => xs
  | _ => []

def items? {α : Type} (f : Report → α) (r : Report) (k : String) : Option (List α) :=
  if (r.get k).isNothing then none else some ((r.get k).items.map f)

/-! ## Writing reports -/

mutual

def jsonWith (f : String → String) : Report → String
  | .nothing => "null"
  | .flag b => truth b
  | .number n => Text.decimal n
  | .text s => jsonString (f s)
  | .list xs => "[" ++ ",".intercalate (jsonItems f xs) ++ "]"
  | .record ms => jsonObject (jsonMembers f ms)

def jsonItems (f : String → String) : List Report → List String
  | [] => []
  | r :: rest => jsonWith f r :: jsonItems f rest

def jsonMembers (f : String → String) : List (String × Report) → List (String × String)
  | [] => []
  | (k, r) :: rest => (k, jsonWith f r) :: jsonMembers f rest

end

def json (r : Report) : String := r.jsonWith id

end Report

end TypedIR
