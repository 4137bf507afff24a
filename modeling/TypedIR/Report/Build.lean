import TypedIR.Report.Engine
import TypedIR.Build.Value
import TypedIR.Build.Function

/-
  Reports on what a builder makes: types, values, functions and contexts, the
  results of calls, and problems.
-/

namespace TypedIR

open Report Text

def Problem.members (p : Problem) : List (String × Report) :=
  [("error", (p.kind?.map (·.name)).getD (if p.failure?.isSome then "engine" else "error")),
   ("message", p.message),
   ("is", maybe (fun _ => texts ((ProblemKind.all.filter p.countsAs).map (·.name))) p.kind?),
   ("code", maybe (fun f => codeText f.cause.code) p.failure?)]

def Problem.report (p : Problem) : Report := known p.members

def Problem.outcome : Option Problem → Report
  | none => "ok"
  | some p => p.report

/-- What there is to say when a stop ends everything around it: problems and
panics are raised on purpose, a crash is a fault of the program. -/
def Stop.unwound : Stop → Report
  | .problem _ | .panicked => .record [("panic", true)]
  | .crashed => .record [("panic", "fault")]

def HostValue.report : HostValue → Report
  | .bool b => b
  | .int t n => .record [(if t.signed then "i" else "u", numeral n)]
  | .float64 b => .record [("f", float ⟨b⟩)]
  | .str s => .record [("s", lossyText s)]
  | _ => .nothing

/-- The constant that a report of one member describes; its name is the type of
the constant. -/
def HostValue.ofReport : Report → HostValue
  | .record [("f64", x)] => .float64 (UInt64.ofNat x.hex)
  | .record [("f32", x)] => .float32 (UInt32.ofNat x.hex)
  | .record [("bool", x)] => .bool x.bool
  | .record [("str", x)] => .str (bytesOf x.string)
  | .record [("hex", x)] => .str x.hexBytes
  | .record [("list", _)] => .numbers
  | .record [("tag", x)] => .tag x.string
  | .record [("abi", x)] => .abi (.ofCode x.byte)
  | .record [(k, x)] => (HostInt.ofName? k).elim .nothing fun t => .int t (t.wrap x.int)
  | _ => .nothing

/-- The report of one of the numbers that name things, read as each of the
names it can be. -/
def Report.namesOf (b : UInt8) (n : Int) : Report :=
  let o := Opcode.ofCode b
  let m := MathOp.ofCode b
  let code := n % 65536
  .list [o.name, m.name, m.arity, (Class.ofCode b).name, (Origin.ofCode b).name,
    (Kind.ofCode b).name, (Tag.ofCode b).label, (Abi.ofCode b).name,
    (ProblemKind.ofCode b).name, (TyKind.ofCode b).name, (ValKind.ofCode b).name, o.isBinary,
    o.isCompare, codeText code, decide (2000 ≤ code)]

namespace BuildM

def told {α : Type} (f : α → Report) (act : BuildM α) : BuildM Report := do
  match ← attempt act with
  | .ok a => return f a
  | .error p => return p.report

def tyReport (t : Ty) : BuildM Report := do
  return .record [("t", ← tyText t), ("k", t.kind.name), ("h", t.id)]

def valReport (v : Val) : BuildM Report := do
  return .record [("v", ← valText v), ("k", v.kind.name)]

def functionReport (f : FnId) : BuildM Report := do
  let s ← function f
  return .record [("name", ← functionName f), ("sig", ← tyText s.sig), ("compiled", s.compiled),
    ("params", s.params.length), ("ret", ← tyText s.ret)]

def typeReport (t : Ty) : BuildM Report := do
  let target ← (← targetOf? t).mapM tyText
  let params ← (← paramsOf t).mapM tyText
  let result ← tyText (← returnOf t)
  let ofSignature (r : Report) : Report := if t.kind = .signature then r else .nothing
  return known [("t", ← tyText t), ("k", t.kind.name), ("size", ← sizeOf t),
    ("align", ← alignOf t), ("width", ← widthOf t), ("int", ← isInteger t), ("float", ← isFloat t),
    ("signed", ← isSigned t), ("unsigned", ← isUnsigned t), ("native", ← isNative t),
    ("stringz", ← isStringz t), ("name", ← nameOf t), ("fields", ← fieldCount t),
    ("abi", (← abiOf t).name), ("variadic", ← isVariadic t), ("target", maybe .text target),
    ("params", ofSignature (texts params)), ("return", ofSignature result)]

def fieldReport (t : Ty) (i : Int) : BuildM Report := do
  let type ← match ← attempt (fieldType t i) with
    | .ok u => tyReport u
    | .error p => pure p.report
  return .record [("type", type), ("offset", ← told .number (fieldOffset t i)),
    ("name", ← told .text (fieldName t i))]

def valueReport (v : Val) : BuildM Report := do
  return known [("v", ← valText v), ("k", v.kind.name), ("type", ← tyText v.type),
    ("valid", v.valid), ("const", ← isConstant v), ("addressable", ← isAddressable v),
    ("own", v.fn.isSome), ("int", maybe numeral (← constInt? v)),
    ("uint", maybe (fun n => numeral n) (← constUint? v)), ("float", maybe float (← constFloat? v)),
    ("bool", maybe .flag (← constBool? v)), ("numeric", maybe HostValue.report (← numeric? v))]

def nativesReport (rt : RuntimeId) : BuildM Report := do
  let r ← runtime rt
  let entries ← r.natives.entries.mapM fun (n, e) => do
    return Report.record [("name", n), ("sig", ← tyText e.sig), ("variadic", e.variadic),
      ("ret", ← tyText e.ret)]
  return .record [("registry", .list entries), ("engine", texts r.engine.natives.names)]

def contextReport (c : CtxId) : BuildM Report := do
  let s ← context c
  let holder := (← runtime s.runtime).holder
  return .record [("building", s.build.isSome), ("destroyed", s.destroyed),
    ("functions", s.functions.length), ("current", holder == some c), ("held", holder.isSome)]

end BuildM

end TypedIR
