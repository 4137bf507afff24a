import TypedIR.Report
import TypedIR.Image

/-
  Images as reports, both ways. What is zero or empty is left out, except for
  lists: a list that is there without members is not the same as no list.
-/

namespace TypedIR

open Report

def decimalUnlessZero (n : Int) : Report := if n = 0 then .nothing else numeral n

def ImageType.report (t : ImageType) : Report :=
  sparse [("Kind", t.kind.toNat), ("Width", t.width.toNat), ("Elem", t.elem),
    ("Fields", maybe ints t.fields), ("Names", maybe texts t.names), ("ABI", t.abi.toNat),
    ("Params", maybe ints t.params), ("Result", t.result), ("Tag", t.tag.toNat), ("Data", t.data)]

def ImageValue.report (v : ImageValue) : Report :=
  sparse [("Type", v.type), ("Kind", v.origin.toNat), ("Param", v.param),
    ("Const", decimalUnlessZero v.bits.toNat), ("Addressable", v.addressable)]

def ImageInsn.report (i : ImageInsn) : Report :=
  sparse [("Op", i.op.toNat), ("Dest", i.dest), ("A", i.a), ("B", i.b),
    ("Args", maybe nats i.args), ("Label", i.label), ("Offset", decimalUnlessZero i.offset),
    ("Type", i.type), ("SelfCall", i.selfCall), ("Native", i.native), ("Math", i.math.toNat),
    ("Class", i.cls.toNat), ("Size", i.size), ("Implicit", i.implicit)]

def Image.report (g : Image) : Report :=
  sparse [("Version", g.version), ("Target", g.target), ("Name", g.name), ("Sig", g.sig),
    ("Types", maybe (each ImageType.report) g.types),
    ("Values", maybe (each ImageValue.report) g.values), ("Params", maybe nats g.params),
    ("Labels", maybe ints g.labels), ("Insns", maybe (each ImageInsn.report) g.insns)]

def ImageType.ofReport (r : Report) : ImageType :=
  { kind := (r.get "Kind").byte, width := (r.get "Width").byte, elem := (r.get "Elem").int
    fields := r.items? int "Fields", names := r.items? string "Names", abi := (r.get "ABI").byte
    params := r.items? int "Params", result := (r.get "Result").int, tag := (r.get "Tag").byte
    data := (r.get "Data").string }

def ImageValue.ofReport (r : Report) : ImageValue :=
  { type := (r.get "Type").int, origin := (r.get "Kind").byte, param := (r.get "Param").int
    bits := Word.ofInt (r.get "Const").int, addressable := (r.get "Addressable").bool }

def ImageInsn.ofReport (r : Report) : ImageInsn :=
  { op := (r.get "Op").byte, dest := (r.get "Dest").nat, a := (r.get "A").nat
    b := (r.get "B").nat, args := r.items? nat "Args", label := (r.get "Label").nat
    offset := (r.get "Offset").int, type := (r.get "Type").int
    selfCall := (r.get "SelfCall").bool, native := (r.get "Native").string
    math := (r.get "Math").byte, cls := (r.get "Class").byte, size := (r.get "Size").int
    implicit := (r.get "Implicit").bool }

def Image.ofReport (r : Report) : Image :=
  { version := (r.get "Version").int, target := (r.get "Target").string
    name := (r.get "Name").string, sig := (r.get "Sig").int
    types := r.items? ImageType.ofReport "Types", values := r.items? ImageValue.ofReport "Values"
    params := r.items? nat "Params", labels := r.items? int "Labels"
    insns := r.items? ImageInsn.ofReport "Insns" }

end TypedIR
