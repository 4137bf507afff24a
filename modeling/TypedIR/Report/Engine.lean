import TypedIR.Report
import TypedIR.Engine.Emitters
import TypedIR.Engine.Types

/-
  Reports on an engine: its types and layouts, its functions and values, and
  what went wrong.
-/

namespace TypedIR

open Report

def Failure.report (f : Failure) : Report :=
  .record [("error", "engine"), ("message", f.message), ("code", codeText f.cause.code)]

def Layout.Refusal.report (r : Layout.Refusal) : Report :=
  .record [("error", "layout"), ("message", r.message)]

def Report.complaint (message : String) : Report :=
  .record [("error", "error"), ("message", message)]

def Report.search (otherwise : Int) (found : Option Int) : Report :=
  .list [.number (found.getD otherwise), found.isSome]

def Target.report (t : Target) : Report :=
  .record [("triple", t.triple), ("ptr_size", t.ptrSize), ("ptr_align", t.ptrAlign),
    ("native_bits", t.nativeBits)]

def Target.ofReport : Report → Target
  | .text s => (Target.ofName? s).getD ⟨"", 0, 0⟩
  | t => ⟨(t.get "triple").string, (t.get "ptr_size").int, (t.get "ptr_align").int⟩

def Rep.report (r : Rep) : Report := .list [r.cls.name, r.size]

def Func.report (f : Func) : Report :=
  .record [("name", f.name), ("sig", f.sig), ("compiled", f.compiled), ("params", nats f.params),
    ("labels", f.labelCount), ("num_values", f.valueCount), ("num_labels", f.labelCount),
    ("len", f.insns.size), ("values", each (fun v => .list [v.type, v.rep.report, v.origin.name,
      word v.bits, v.addressable]) (f.values.toList.drop 1)),
    ("insns", each (fun i => .list [i.op.name, i.rep.report]) f.insns.toList)]

namespace EngineM

def told {α : Type} (f : α → Report) (act : EngineM α) : EngineM Report :=
  tryCatch (f <$> act) fun e => pure e.report

def typeReport (id : TypeId) : EngineM Report := do
  let measure (f : Layout → Int) : Layout.Answer → Report
    | .ok l => f l
    | .error r => r.report
  let l ← layoutOf id
  let rep ← told Rep.report (repOf id)
  let e ← get
  let sig := (e.signature? id).getD { abi := .cdecl, params := [], result := 0 }
  return known [("kind", (e.types.kindOf id).name), ("size", measure (·.size) l),
    ("align", measure (·.align) l), ("rep", rep), ("tag", (e.tagOf id).label),
    ("base", e.taggedBase id), ("data", e.tagData id), ("fields", e.fieldCount id),
    ("abi", sig.abi.name), ("params", sig.params.length), ("return", sig.result),
    ("variadic", sig.variadic), ("str", e.typeText id),
    ("target", maybe (fun n => .number n) (e.types.pointerTarget? id))]

def fieldReport (id : TypeId) (i : Int) : EngineM Report := do
  return .record [("type", ← told (fun f => f.type) (field id i)),
    ("name", ← told (fun f => f.name) (field id i)), ("offset", ← told .number (fieldOffset id i))]

def valueReport (fn : FuncId) (v : ValueId) : EngineM Report := do
  let e ← get
  return known [("type", ← told (fun i => i.type) (valueInfo fn v)),
    ("kind", ← told (fun i => i.origin.name) (valueInfo fn v)),
    ("addr", e.isAddressable fn v), ("const", (e.constant? fn v).isSome),
    ("nint", maybe numeral (e.constInt? fn v)), ("long", maybe numeral (e.constInt? fn v)),
    ("f32", maybe (fun b => float (.ofSingle b.toUInt32)) (e.constFloat? fn v 4)),
    ("f64", maybe (fun b => float ⟨b⟩) (e.constFloat? fn v 8))]

def layoutReport (id : TypeId) (i? : Option Int) : EngineM Report := do
  let answer ← layoutOf id
  let l := answer.toOption.getD .empty
  let listed (xs : List Int) : Report := if xs.isEmpty then .nothing else ints xs
  return known [("size", l.size), ("align", l.align), ("bits", answer.bits),
    ("offsets", listed l.offsets), ("aligns", if l.offsets.isEmpty then .nothing else ints l.aligns),
    ("err", match answer with
      | .ok _ => .nothing
      | .error r => r.report),
    ("field", maybe (fun i => search 0 (answer.fieldOffset? i)) i?)]

end EngineM

def TypeTable.report (t : TypeTable) (id : TypeId) : Report :=
  known [("found", (t.find? id).isSome), ("str", t.text id), ("underlying", t.underlying id),
    ("bool", t.isBool id), ("len", t.size),
    ("desc", maybe (fun d => .list [d.kind.name, d.elem, d.width.toNat, d.slot, d.isInteger,
      d.isScalar]) (t.find? id)),
    ("fields", maybe (each fun f => .list [f.name, f.type]) ((t.fields? id).filter (!·.isEmpty))),
    ("sig", maybe (fun s => .list [s.abi.name, nats s.params, s.result, s.variadic])
      (t.signature? id)),
    ("tagged", maybe (fun d => .list [d.tag.label, d.data]) (t.decoration? id)),
    ("target", maybe (fun n => .number n) (t.pointerTarget? id))]

end TypedIR
