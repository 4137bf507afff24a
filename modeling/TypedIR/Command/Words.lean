import TypedIR.Text.Reading
import TypedIR.Build.Function
import TypedIR.Decimal.Text

/-
  Words of a command line as arguments of a call, and results of calls as
  words. The type of a parameter says how its word is read.
-/

namespace TypedIR.Command

open Text BuildM

def readAs {α : Type} (reader word : String) : Except Misread α → BuildM α
  | .ok a => pure a
  | .error m => throw (.problem (.text (m.message reader word)))

def argumentOf (t : Ty) (word : String) : BuildM HostValue := do
  if t.kind = .bool then return .bool (← readAs "Bool" word (readBool word))
  if ← isStringz t then return .str (bytesOf word)
  if ← isFloat t then return .float64 (← readAs "Float" word (readFloat word.toList))
  if (← isUnsigned t) || t.kind = .pointer then
    return .int .uint64 (← readAs "Uint" word (readNat word.toList))
  if ← isInteger t then return .int .int64 (← readAs "Int" word (readInt word.toList))
  throw (.problem (.text ("cannot pass " ++ (← tyText t) ++ " from the command line")))

def placed {α : Type} (place : String) (act : BuildM α) : BuildM α := do
  match ← attempt act with
  | .ok a => pure a
  | .error p => throw (.problem (.within place p))

def argumentsFrom (n : Nat) : List (Ty × String) → BuildM (List HostValue)
  | [] => pure []
  | (t, word) :: rest => do
    let x ← placed ("argument " ++ decimalNat n) (argumentOf t word)
    return x :: (← argumentsFrom (n + 1) rest)

def arguments (f : FnId) (words : List String) : BuildM (List HostValue) := do
  let params ← paramsOf (← function f).sig
  if words.length ≠ params.length then
    throw (.problem (.text ((← functionName f) ++ " takes " ++ decimalNat params.length ++
      " arguments, got " ++ decimalNat words.length)))
  argumentsFrom 1 (params.zip words)

/-- The sets of arguments that words stand for, from number `n` on; commas
divide the arguments of a set. -/
def argumentSetsFrom (f : FnId) (n : Nat) : List String → BuildM (List (List HostValue))
  | [] => pure []
  | word :: rest => do
    let parts := if word = "" then [] else word.splitOn ","
    let set ← placed ("set " ++ decimalNat n) (arguments f parts)
    return set :: (← argumentSetsFrom f (n + 1) rest)

def argumentSets (f : FnId) (words : List String) : BuildM (List (List HostValue)) :=
  argumentSetsFrom f 1 words

def resultText : HostValue → BuildM String
  | .nothing => pure "void"
  | .bool b => pure (truth b)
  | .int _ n => pure (decimal n)
  | .float32 b => pure (Decimal.shortText32 (Float32.ofBits b))
  | .float64 b => pure (Decimal.shortText (Float.ofBits b))
  | .str s => pure (lossyText s)
  | .type t => tyText t
  | .value v => valText v
  | .tag s => pure s
  | .abi a => pure a.name
  | .numbers | .types _ | .items _ => pure "[]"

end TypedIR.Command
