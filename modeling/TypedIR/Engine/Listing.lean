import TypedIR.Engine.Basic
import TypedIR.Decimal.Text

/-
  Listings of functions: a head line, the values if they are asked for, and
  the instructions with their positions. Constants are written as numbers,
  other values as `v` and their number.
-/

namespace TypedIR

open Text

namespace Engine

def constText (e : Engine) (v : ValueInfo) : String :=
  match v.rep.cls with
  | .float => Decimal.shortText (v.rep.toDouble v.bits).toFloat
  | .int => decimal v.bits.toInt
  | .pointer => e.host.memory.addressText v.bits
  | _ => decimalNat v.bits.toNat

def valueName (v : ValueId) : String := "v" ++ decimalNat v

def operandText (e : Engine) (f : Func) (v : ValueId) : String :=
  match f.value? v with
  | none => if v = 0 then "_" else valueName v
  | some i => if i.origin = .const then e.constText i else valueName v

def operandsText (e : Engine) (f : Func) (vs : List ValueId) : String :=
  String.intercalate ", " (vs.map (e.operandText f))

def calleeName (e : Engine) (id : FuncId) : String :=
  match e.findFunc id with
  | .ok f => f.name
  | .error _ => EngineM.defaultName id

def insnText (e : Engine) (f : Func) (i : Insn) : String :=
  let op := e.operandText f
  let dest := valueName i.dest ++ " = "
  let place := "[" ++ op i.a ++ signedDecimal i.offset ++ "]"
  if i.op.isBinary || i.op.isCompare then
    dest ++ i.op.name ++ " " ++ op i.a ++ ", " ++ op i.b
  else match i.op with
    | .neg | .not | .toBool | .toNotBool | .addressOf | .alloca =>
      dest ++ i.op.name ++ " " ++ op i.a
    | .convert => dest ++ "convert " ++ op i.a ++ " to " ++ e.typeText i.type
    | .copy => dest ++ op i.a
    | .loadRel => dest ++ "load " ++ e.typeText i.type ++ " " ++ place
    | .storeRel => "store " ++ e.typeText i.type ++ " " ++ place ++ " = " ++ op i.b
    | .loadElem =>
      dest ++ "load_elem " ++ e.typeText i.type ++ " " ++ op i.a ++ "[" ++ op i.b ++ "]"
    | .storeElem =>
      "store_elem " ++ e.typeText i.type ++ " " ++ op i.a ++ "[" ++ op i.b ++ "] = " ++
        op (i.args.headD 0)
    | .branch => "branch L" ++ decimalNat i.label
    | .branchIf | .branchIfNot => i.op.name ++ " " ++ op i.a ++ ", L" ++ decimalNat i.label
    | .ret =>
      (if i.a = 0 then "return" else "return " ++ op i.a) ++
        (if i.implicit then " (default)" else "")
    | .call => dest ++ "call " ++ e.calleeName i.callee ++ "(" ++ e.operandsText f i.args ++ ")"
    | .callNative =>
      dest ++ "call_native " ++ i.native ++ "(" ++ e.operandsText f i.args ++ ") : " ++
        e.typeText i.type
    | .math => dest ++ i.math.name ++ "(" ++ e.operandsText f i.args ++ ")"
    | o => o.name

def codeLine (e : Engine) (f : Func) (pc : Nat) (i : Insn) : String :=
  if i.op = .label then "  L" ++ decimalNat i.label ++ ":\n"
  else "    " ++ padLeft 3 ' ' (decimalNat pc) ++ ": " ++ e.insnText f i ++ "\n"

def valueLine (e : Engine) (i : Nat) (v : ValueInfo) : String :=
  let origin := match v.origin with
    | .param => "param#" ++ decimal v.param
    | .const => "const " ++ e.constText v
    | o => o.name
  "    " ++ valueName i ++ ": " ++ e.typeText v.type ++ " " ++ origin ++
    (if v.addressable then " addr" else "") ++ "\n"

def listing (e : Engine) (fn : FuncId) (withValues : Bool) : Except Failure String := do
  let f ← e.findFunc fn
  let state := if f.compiled then "compiled" else "building"
  let values :=
    if withValues then
      "  values:\n" ++ String.join
        ((f.values.toList.drop 1).mapIdx fun i v => e.valueLine (i + 1) v)
    else ""
  pure ("fn " ++ f.name ++ " " ++ e.typeText f.sig ++ " [" ++ state ++ "]:\n" ++ values ++
    "  code:\n" ++ String.join (f.insns.toList.mapIdx (e.codeLine f)))

end Engine

end TypedIR
