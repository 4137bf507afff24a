import TypedIR.Proofs.ExportedBodies

/-
  What the lines of a lowered function work on.

  Results are numbered in the order of the listing, so each number names one
  instruction; what an operand names has the type that the operand says, and a
  call has a callee, and a result exactly if the callee gives one (`Orderly`).
  The calls of a listing are those of the calling instructions, in their order,
  and all functions that are declared on the way are what one of them refers to
  (`LowersAll.calls`).
-/

namespace TypedIR.Llvm

def Line.operands : Line → List Operand
  | .instr i => i.operands
  | .ending (.branch c _ _) => [c]
  | .ending (.ret x) => x.toList
  | .head _ | .ending (.jump _) | .ending .unreachable => []

def resultsIn (ls : List Line) : List Nat := ls.filterMap fun l => l.instr?.bind Instr.temp?

def callsIn (ls : List Line) : List (Nat × List LType) :=
  ls.filterMap fun l => l.instr?.bind Instr.call?

theorem callsIn_append (ls ls' : List Line) : callsIn (ls ++ ls') = callsIn ls ++ callsIn ls' :=
  List.filterMap_append

theorem resultsIn_append (ls ls' : List Line) :
    resultsIn (ls ++ ls') = resultsIn ls ++ resultsIn ls' :=
  List.filterMap_append

theorem callsIn_events (es : List Event) :
    callsIn ((es.filterMap Event.instr?).map .instr) = es.filterMap Event.call? := by
  rw [callsIn, List.filterMap_map, List.filterMap_filterMap]
  rfl

namespace Lowering

variable {s s' : Lowering} {ls : List Line} {es : List Event}

/-- What the lines work on is in order. -/
structure Orderly (s : Lowering) (ls : List Line) : Prop where
  growing : s.Growing ls
  results : resultsIn ls = List.range s.temps
  knows : ∀ l ∈ ls, ∀ x ∈ l.operands, s.Knows x
  callee : ∀ d c args, .instr (.call d c args) ∈ ls →
    ∃ g, s.module.functions[c]? = some g ∧ (d = none ↔ g.ret = .void)

theorem Growing.unique {ls' : List Line} (h : s.Growing ls) (h' : s.Growing ls') : ls = ls' :=
  h.lines.symm.trans h'.lines

theorem Knows.written {x : Operand} (h : s.Knows x) (i : Instr) : (s.written i).Knows x :=
  fun n t hx => (h n t hx).imp_right Defines.written

theorem Orderly.written (h : s.Orderly ls) {i : Instr} (htemp : ∀ n, i.temp? = some n → n = s.temps)
    (hx : ∀ x ∈ i.operands, s.Knows x) (hc : ∀ d c args, i = .call d c args →
      ∃ g, s.module.functions[c]? = some g ∧ (d = none ↔ g.ret = .void)) :
    (s.written i).Orderly (ls ++ [.instr i]) := by
  refine ⟨h.growing.written i, ?_, ?_, ?_⟩
  · have hone : resultsIn [.instr i] = i.temp?.toList := by
      cases hi : i.temp? <;> simp [resultsIn, Line.instr?, hi]
    rw [resultsIn_append, h.results, hone, Lowering.written]
    cases hi : i.temp? with
    | none => simp
    | some n =>
      rw [htemp n hi]
      exact List.range_succ.symm
  · intro l hl x hxl
    rcases List.mem_append.mp hl with hl | hl
    · exact (h.knows l hl x hxl).written i
    · rw [List.mem_singleton.mp hl] at hxl
      exact (hx x hxl).written i
  · intro d c args hl
    rcases List.mem_append.mp hl with hl | hl
    · exact h.callee d c args hl
    · exact hc d c args (Line.instr.inj (List.mem_singleton.mp hl)).symm

theorem Orderly.performs (h : s.Orderly ls) (he : s.Performs es s') :
    s'.Orderly (ls ++ (es.filterMap Event.instr?).map .instr) := by
  induction he generalizing ls with
  | nil => simpa using h
  | @write s s' i es hi _ ih =>
    have := ih (h.written hi.temp hi.operands hi.callee)
    rwa [List.append_assoc] at this
  | @declare s s' g es hb hg _ ih =>
    refine ih ⟨h.growing.declared g, h.results, fun l hl x hx => ?_, fun d c args hl => ?_⟩
    · exact (Performs.declare hb hg (.nil _)).knows (h.knows l hl x hx)
    · obtain ⟨f, hf, hd⟩ := h.callee d c args hl
      exact ⟨f, TypeTable.getElem?_push_of_some hf, hd⟩

theorem Defines.next {n : Nat} {t : LType} (h : s.Defines n t) (term : Terminator) (m : BlockName) :
    (s.next term m).Defines n t := by
  obtain ⟨k, b, hb, i, hi, hn, ht⟩ := h
  have hk : k < s.body.blocks.size := lt_of_getElem? hb
  have hget : (s.next term m).body.blocks[k]? =
      if s.current = k then some { b with terminator := some term } else some b := by
    rw [Lowering.next]
    simp only []
    rw [Array.getElem?_push, if_neg (by simpa using Nat.ne_of_lt hk), Array.getElem?_modify, hb]
    rfl
  by_cases hc : s.current = k
  · exact ⟨k, _, hget.trans (if_pos hc), i, hi, hn, ht⟩
  · exact ⟨k, _, hget.trans (if_neg hc), i, hi, hn, ht⟩

theorem Orderly.next (h : s.Orderly ls) {t : Terminator} {n : BlockName} (hn : n ∉ heads ls)
    (ht : ∀ x ∈ (Line.ending t).operands, s.Knows x) :
    (s.next t n).Orderly (ls ++ [Line.ending t, .head n]) := by
  refine ⟨h.growing.next t hn, ?_, ?_, ?_⟩
  · rw [resultsIn_append, h.results]
    simp [resultsIn, Line.instr?, Lowering.next]
  · intro l hl x hx
    have hknows : s.Knows x := by
      rcases List.mem_append.mp hl with hl | hl
      · exact h.knows l hl x hx
      · rcases List.mem_pair.mp hl with rfl | rfl
        · exact ht x hx
        · cases hx
    exact fun k u hk => (hknows k u hk).imp_right (·.next t n)
  · intro d c args hl
    rcases List.mem_append.mp hl with hl | hl
    · exact h.callee d c args hl
    · simp at hl

theorem Performs.functions_eq (h : s.Performs es s') : s'.module.functions.toList =
    s.module.functions.toList ++ es.filterMap Event.function? ∧
      ∀ g ∈ es.filterMap Event.function?, g.body = none := by
  induction h with
  | nil => simp
  | write _ _ ih => exact ih
  | @declare s s' g es hb _ _ ih =>
    refine ⟨ih.1.trans ?_, List.forall_mem_cons.mpr ⟨hb, ih.2⟩⟩
    simp [declared, Event.function?]

theorem eq_of_nodup_filterMap {α β : Type} {f : α → Option β} {xs : List α} {n : β}
    (h : (xs.filterMap f).Nodup) {x y : α} (hx : x ∈ xs) (hy : y ∈ xs) (hfx : f x = some n)
    (hfy : f y = some n) : x = y := by
  induction xs with
  | nil => cases hx
  | cons z xs ih =>
    have hmem : ∀ {w}, w ∈ xs → f w = some n → n ∈ xs.filterMap f := fun hw hfw =>
      List.mem_filterMap.mpr ⟨_, hw, hfw⟩
    have hnew : f z = some n → n ∉ xs.filterMap f := fun hfz => by
      rw [List.filterMap_cons_some hfz] at h
      exact (List.nodup_cons.mp h).1
    have hrest : (xs.filterMap f).Nodup := by
      cases hfz : f z with
      | none => rwa [List.filterMap_cons_none hfz] at h
      | some m =>
        rw [List.filterMap_cons_some hfz] at h
        exact (List.nodup_cons.mp h).2
    rcases List.mem_cons.mp hx with rfl | hx'
    · rcases List.mem_cons.mp hy with rfl | hy'
      · rfl
      · exact absurd (hmem hy' hfy) (hnew hfx)
    · rcases List.mem_cons.mp hy with rfl | hy'
      · exact absurd (hmem hx' hfx) (hnew hfy)
      · exact ih hrest hx' hy'

theorem Growing.mem_lines (h : s.Growing ls) {k : Nat} {b : Block} (hb : s.body.blocks[k]? = some b)
    {i : Instr} (hi : i ∈ b.instrs) : .instr i ∈ ls := by
  obtain ⟨bs, c, h, rfl⟩ := h
  rw [h.blocks, List.getElem?_toArray] at hb
  refine List.mem_flatMap.mpr ⟨b, List.mem_of_getElem? hb, ?_⟩
  simpa [Block.lines] using hi

theorem Orderly.result_type (h : s.Orderly ls) {n c : Nat} {args : List Operand} {g : Function}
    (hcall : .instr (.call (some n) c args) ∈ ls) (hg : s.module.functions[c]? = some g) {l : Line}
    (hl : l ∈ ls) {t : LType} (hx : .named (.temp n) t ∈ l.operands) : t = .void ∨ t = g.ret := by
  refine (h.knows l hl _ hx n t rfl).imp_right ?_
  rintro ⟨k, b, hb, i, hi, hn, ht⟩
  have hnodup : (resultsIn ls).Nodup := h.results ▸ List.nodup_range
  obtain rfl : i = .call (some n) c args := Line.instr.inj <|
    eq_of_nodup_filterMap hnodup (h.growing.mem_lines hb hi) hcall hn rfl
  rw [Instr.resultType?, hg] at ht
  exact (Option.some.inj ht).symm

def Named (s : Lowering) : Prop := ∀ n c, s.names.lookup n = some c →
  ∃ g, s.module.functions[c]? = some g ∧ (g.name = n ∨ g.key = n)

theorem Named.declared (h : s.Named) (g : Function) : (s.declared g).Named := by
  intro n c hn
  rw [Lowering.declared, List.lookup_cons] at hn
  by_cases hng : n = g.name
  · rw [beq_iff_eq.mpr hng] at hn
    obtain rfl := Option.some.inj hn
    exact ⟨g, by simp [Lowering.declared], .inl hng.symm⟩
  · rw [beq_false_of_ne hng] at hn
    obtain ⟨f, hf, hfn⟩ := h n c hn
    exact ⟨f, TypeTable.getElem?_push_of_some hf, hfn⟩

theorem Performs.named (he : s.Performs es s') (h : s.Named) : s'.Named := by
  induction he with
  | nil => exact h
  | write _ _ ih => exact ih h
  | declare _ _ _ ih => exact ih (h.declared _)

end Lowering

namespace LowerM

open Lowering

variable {s s' : Lowering} {ls : List Line} {sc : Scene} {own : String} {pc : Nat}

/-- What the lowering of an instruction adds to the lines, the functions and
the calls. -/
structure Adding (sc : Scene) (own : String) (i : Insn) (s : Lowering) (ls piece : List Line)
    (s' : Lowering) : Prop where
  orderly : s'.Orderly (ls ++ piece)
  named : s.Named → s'.Named
  calls : ∃ gs, s'.module.functions.toList = s.module.functions.toList ++ gs ∧
    (∀ g ∈ gs, g.body = none) ∧
    ((isCalling i.op = true ∧ CallsReferred sc own i gs (callsIn piece) s') ∨
      (isCalling i.op = false ∧ gs = [] ∧ callsIn piece = []))

theorem Lowers.adding {i : Insn} (h : Lowers sc own pc i s s') (hs : s.Orderly ls)
    (hlabel : i.op = .label → .label i.label ∉ heads ls) (hnext : .before (pc + 1) ∉ heads ls) :
    ∃ piece, Adding sc own i s ls piece s' := by
  have hquiet : ∀ {t : Lowering} {term : Terminator}, isCalling i.op = false → s.Quiet t →
      (∀ x ∈ (Line.ending term).operands, t.Knows x) →
      ∃ piece, Adding sc own i s ls piece (t.next term (.before (pc + 1))) := by
    rintro t term hop ⟨is, ht, hcalls⟩ hterm
    obtain ⟨hfunctions, -⟩ := ht.functions_eq
    rw [functions_of_writes] at hfunctions
    have horderly := (hs.performs ht).next (n := .before (pc + 1)) (by simpa using hnext) hterm
    rw [List.append_assoc] at horderly
    refine ⟨_, horderly, ht.named, [], hfunctions, nofun, .inr ⟨hop, rfl, ?_⟩⟩
    rw [callsIn_append, callsIn_events, calls_of_quiet hcalls]
    rfl
  cases h with
  | straight hop h =>
    obtain ⟨es, hes, -, hgs, hcalls⟩ := h
    obtain ⟨hfunctions, -⟩ := hes.functions_eq
    rw [hgs] at hfunctions
    refine ⟨_, hs.performs hes, hes.named, [], hfunctions, nofun, .inr ⟨?_, rfl, ?_⟩⟩
    · generalize i.op = op at hop
      cases op <;> first | rfl | cases hop
    · rw [callsIn_events, hcalls]
  | calling hop h hr =>
    obtain ⟨es, hes, -, rfl, rfl⟩ := h
    obtain ⟨hfunctions, hbody⟩ := hes.functions_eq
    exact ⟨_, hs.performs hes, hes.named, _, hfunctions, hbody, .inl ⟨hop, by rwa [callsIn_events]⟩⟩
  | label hop =>
    exact ⟨_, hs.next (hlabel hop) nofun, id, [], by simp [Lowering.next], nofun,
      .inr ⟨by rw [hop]; rfl, rfl, rfl⟩⟩
  | branch hop => exact hquiet (by rw [hop]; rfl) (Std.Refl.refl s) nofun
  | branchOn hop h hc =>
    exact hquiet (by rcases hop with hop | hop <;> rw [hop] <;> rfl) h (by simpa [Line.operands] using hc)
  | ret hop h hx => exact hquiet (by rw [hop]; rfl) h (by simpa [Line.operands] using hx)

/-- What the lowering of instructions adds: the functions that are declared are
what one of them refers to, and the calls are those of the calling ones. -/
theorem LowersAll.calls {is : List Insn} {pieces : List (List Line)}
    (h : LowersAll sc own pc is s pieces s') (hs : s.Orderly ls) :
    s'.Orderly (ls ++ pieces.flatten) ∧ (s.Named → s'.Named) ∧
      (∃ gs, s'.module.functions.toList = s.module.functions.toList ++ gs ∧
        ∀ g ∈ gs, g.body = none ∧ ∃ i ∈ is, ∃ name fits passes,
          Refers sc own i name fits passes ∧ (∃ ts, passes ts) ∧ g.name = name ∧ fits g) ∧
      List.Forall₂ (fun i call => ∃ name fits passes, Refers sc own i name fits passes ∧
          passes call.2 ∧ s'.names.lookup name = some call.1)
        (is.filter (isCalling ·.op)) (callsIn pieces.flatten) := by
  induction h generalizing ls with
  | nil => exact ⟨by simpa using hs, id, ⟨[], by simp, nofun⟩, .nil⟩
  | @cons pc i is _ piece pieces s t s' hg hlabel hnext _ hi _ ht hrest ih =>
    obtain rfl := hs.growing.unique hg
    obtain ⟨piece', hadd⟩ := hi.adding hs hlabel hnext
    obtain rfl : piece' = piece := List.append_cancel_left (hadd.orderly.growing.unique ht)
    obtain ⟨horderly, hnamed, ⟨gs, hgs, hrefer⟩, hcalls⟩ := ih hadd.orderly
    obtain ⟨gs', hgs', hbody, hone⟩ := hadd.calls
    refine ⟨?_, fun hn => hnamed (hadd.named hn), ⟨gs' ++ gs, ?_, ?_⟩, ?_⟩
    · simpa using horderly
    · rw [hgs, hgs', List.append_assoc]
    · intro g hg
      rcases List.mem_append.mp hg with hg | hg
      · refine ⟨hbody g hg, i, List.mem_cons_self, ?_⟩
        rcases hone with ⟨-, name, fits, passes, hr, hfits, c, ts, -, hts, -⟩ | ⟨-, rfl, -⟩
        · exact ⟨name, fits, passes, hr, ⟨ts, hts⟩, hfits g hg⟩
        · cases hg
      · obtain ⟨hb, j, hj, hr⟩ := hrefer g hg
        exact ⟨hb, j, List.mem_cons_of_mem i hj, hr⟩
    · rw [List.flatten_cons, callsIn_append]
      rcases hone with ⟨hop, name, fits, passes, hr, -, c, ts, hc, hpasses, hname⟩ | ⟨hop, -, hc⟩
      · rw [List.filter_cons, if_pos hop, hc]
        exact .cons ⟨name, fits, passes, hr, hpasses, hrest.lookup hname⟩ hcalls
      · rw [List.filter_cons, if_neg (by simp [hop]), hc]
        exact hcalls

theorem orderly_defined (hs : s.current = 0) (ht : s.temps = 0) (name : String) (ret : LType)
    (params : List LType) : (s.defined name ret params).Orderly [.head .entry] := by
  refine ⟨growing_defined hs name ret params, ?_, ?_, ?_⟩
  · simp [resultsIn, Line.instr?, Lowering.defined, ht]
  · intro l hl x hx
    rw [List.mem_singleton.mp hl] at hx
    cases hx
  · intro d c args hl
    cases List.mem_singleton.mp hl

theorem orderly_slotted (h : s.Orderly ls) (slots : List (ValueId × LType)) :
    (s.slotted slots).Orderly (ls ++ slots.map fun p => Line.instr (.slot p.1 p.2)) := by
  induction slots generalizing s ls with
  | nil => simpa [Lowering.slotted] using h
  | cons p slots ih =>
    have hone : (s.written (.slot p.1 p.2)).Orderly (ls ++ [Line.instr (.slot p.1 p.2)]) :=
      h.written (by intro _ ht; cases ht) (List.forall_mem_nil _) (by intro _ _ _ hc; cases hc)
    have := ih hone
    rwa [List.append_assoc] at this

/-- The lines of an open definition are in order, and its functions are those
of the module and itself. -/
theorem Opened.orderly {e : Engine} {f : Func} {o : Options} {name : String} {ret : LType}
    {params : List LType} {slots : List (ValueId × LType)}
    (h : Opened e f o name s sc s' ret params slots) (hs : s.current = 0) (ht : s.temps = 0) :
    s'.Orderly s'.body.lines ∧ (s.Named → s'.Named) ∧ callsIn s'.body.lines = [] ∧
      s'.module.functions.toList =
        s.module.functions.toList ++ [{ name, ret, params, body := some {} }] := by
  obtain ⟨is, his, hcalls⟩ := h.stores
  have horderly := (orderly_slotted (orderly_defined hs ht name ret params) slots).performs his
  obtain ⟨hnames, -, hmodule⟩ := slotted_rest (s.defined name ret params) slots
  obtain ⟨hfunctions, -⟩ := his.functions_eq
  have hlines := horderly.growing.lines
  refine ⟨hlines ▸ horderly, fun hn => his.named ?_, ?_, ?_⟩
  · have hdefined : (s.declared { name, ret, params, body := some {} }).Named := hn.declared _
    unfold Named
    rw [hnames, hmodule]
    exact hdefined
  · have hslots : callsIn (slots.map fun p => Line.instr (.slot p.1 p.2)) = [] := by
      simp [callsIn, List.filterMap_eq_nil_iff, Line.instr?, Instr.call?]
    rw [hlines, callsIn_append, callsIn_append, hslots, callsIn_events, calls_of_quiet hcalls]
    rfl
  · rw [hfunctions, hmodule, functions_of_writes]
    simp [Lowering.defined]

/-- What a successful export leaves: the lines are in order, names stand for
what is looked up under them, the functions are those of the module, the one
that is defined, and others that the calls refer to. -/
structure Exported.Leaves (e : Engine) (f : Func) (name : String) (s : Lowering) (sc : Scene)
    (s₂ : Lowering) (ret : LType) (params : List LType) (gs : List Function) : Prop where
  orderly : ∃ ls, s₂.Orderly ls ∧ s₂.closed.lines = ls ++ [.ending .unreachable]
  named : s.Named → s₂.Named
  functions : s₂.module.functions.toList =
    s.module.functions.toList ++ { name, ret, params, body := some {} } :: gs
  declared : ∀ g ∈ gs, g.body = none ∧ ∃ i ∈ f.insns, ∃ fname fits passes,
    Refers sc name i fname fits passes ∧ (∃ ts, passes ts) ∧ g.name = fname ∧ fits g
  calls : List.Forall₂ (fun i call => ∃ fname fits passes, Refers sc name i fname fits passes ∧
      passes call.2 ∧ s₂.names.lookup fname = some call.1)
    (f.insns.toList.filter (isCalling ·.op)) (callsIn s₂.closed.lines)

theorem Exported.leaves {e : Engine} {f : Func} {o : Options} {name : String} {s₁ s₂ : Lowering}
    {ret : LType} {params : List LType} {slots : List (ValueId × LType)} {pieces : List (List Line)}
    (h : Exported e f o name s sc s₁ s₂ ret params slots pieces) (hs : s.current = 0)
    (ht : s.temps = 0) : ∃ gs, Exported.Leaves e f name s sc s₂ ret params gs := by
  obtain ⟨horderly, hnamed, hnone, hfunctions⟩ := h.opened.orderly hs ht
  obtain ⟨horderly', hnamed', ⟨gs, hgs, hdeclared⟩, hcalls⟩ := h.lowered.calls horderly
  have hclosed := horderly'.growing.closed.1
  refine ⟨gs, ⟨_, horderly', hclosed⟩, fun hn => hnamed' (hnamed hn), ?_, fun g hg => ?_, ?_⟩
  · rw [hgs, hfunctions, List.append_assoc]
    rfl
  · obtain ⟨hb, i, hi, hr⟩ := hdeclared g hg
    exact ⟨hb, i, Array.mem_toList_iff.mp hi, hr⟩
  · have hlast : callsIn [.ending .unreachable] = [] := rfl
    rw [hclosed, callsIn_append, callsIn_append, hnone, hlast, List.nil_append, List.append_nil]
    exact hcalls

end LowerM

end TypedIR.Llvm
