import Mathlib.Data.List.Induction
import Mathlib.Data.List.Nodup
import TypedIR.Proofs.LoweredCalls

/-
  Bodies as listings.

  The blocks of a body are listed one after the other: the name of a block, its
  instructions, its end. While a function is lowered its last block is open
  (`Lowering.Growing`). An instruction adds lines at the end: the instructions
  it is lowered to, and if it is a label, a branch or a return, the end of the
  open block and the name of the next (`Lowers`, `lowers_insns`).
-/

namespace TypedIR.Llvm

/-- The lines of a listing. -/
inductive Line where
  | head (n : BlockName)
  | instr (i : Instr)
  | ending (t : Terminator)

namespace Line

def head? : Line → Option BlockName
  | head n => some n
  | _ => none

def instr? : Line → Option Instr
  | instr i => some i
  | _ => none

end Line

def Block.lines (b : Block) : List Line :=
  .head b.name :: (b.instrs.toList.map .instr ++ b.terminator.toList.map .ending)

def Body.lines (b : Body) : List Line := b.listed.flatMap Block.lines

def heads (ls : List Line) : List BlockName := ls.filterMap Line.head?

@[simp] theorem heads_append (ls ls' : List Line) : heads (ls ++ ls') = heads ls ++ heads ls' :=
  List.filterMap_append

@[simp] theorem heads_instrs (is : List Instr) : heads (is.map .instr) = [] := by
  simp [heads, List.filterMap_eq_nil_iff, Line.head?]

@[simp] theorem heads_block (b : Block) : heads b.lines = [b.name] := by
  have hend : heads (b.terminator.toList.map .ending) = [] := by
    cases b.terminator <;> rfl
  change b.name :: heads (_ ++ _) = _
  rw [heads_append, heads_instrs, hend, List.nil_append]

theorem heads_blocks (bs : List Block) : heads (bs.flatMap Block.lines) = bs.map (·.name) := by
  induction bs with
  | nil => rfl
  | cons b bs ih => rw [List.flatMap_cons, heads_append, heads_block, ih]; rfl

namespace Lowering

/-- A body with these blocks, the last of them open. -/
structure Grown (s : Lowering) (bs : List Block) (b : Block) : Prop where
  blocks : s.body.blocks = (bs ++ [b]).toArray
  order : s.body.order = (List.range (bs.length + 1)).toArray
  current : s.current = bs.length
  ended : ∀ c ∈ bs, c.terminator.isSome
  isOpen : b.terminator = none
  names : ((bs ++ [b]).map (·.name)).Nodup

def Growing (s : Lowering) (ls : List Line) : Prop :=
  ∃ bs b, s.Grown bs b ∧ ls = (bs ++ [b]).flatMap Block.lines

def next (s : Lowering) (t : Terminator) (n : BlockName) : Lowering :=
  { s with
    current := s.body.blocks.size
    body := {
      blocks := (s.body.blocks.modify s.current ({ · with terminator := some t })).push { name := n }
      order := s.body.order.push s.body.blocks.size } }

variable {s s' : Lowering} {ls : List Line} {bs : List Block} {b : Block}

theorem modify_last {α : Type} (xs : List α) (x : α) (g : α → α) :
    (xs ++ [x]).toArray.modify xs.length g = (xs ++ [g x]).toArray := by
  apply Array.ext_getElem?
  intro k
  rw [Array.getElem?_modify, List.getElem?_toArray, List.getElem?_toArray]
  rcases Nat.lt_trichotomy k xs.length with h | rfl | h
  · rw [if_neg (Nat.ne_of_gt h), List.getElem?_append_left h, List.getElem?_append_left h]
  · simp
  · rw [if_neg (Nat.ne_of_lt h), List.getElem?_eq_none (by simp; omega),
      List.getElem?_eq_none (by simp; omega)]

theorem filterMap_range_getElem? {α : Type} (xs : List α) :
    (List.range xs.length).filterMap (xs[·]?) = xs := by
  induction xs using List.reverseRecOn with
  | nil => rfl
  | append_singleton xs x ih =>
    rw [List.length_append, List.length_singleton, List.range_succ, List.filterMap_append]
    have hold : (List.range xs.length).filterMap ((xs ++ [x])[·]?) = xs := by
      refine Eq.trans (List.filterMap_congr fun k hk => ?_) ih
      exact List.getElem?_append_left (List.mem_range.mp hk)
    rw [hold]
    simp

theorem listed_eq {body : Body} {xs : List Block} (hb : body.blocks = xs.toArray)
    (ho : body.order = (List.range xs.length).toArray) : body.listed = xs := by
  unfold Body.listed
  rw [hb, ho]
  simp only [List.getElem?_toArray]
  exact filterMap_range_getElem? xs

theorem Grown.listed (h : s.Grown bs b) : s.body.listed = bs ++ [b] :=
  listed_eq h.blocks (by rw [h.order]; simp)

theorem Growing.lines (h : s.Growing ls) : s.body.lines = ls := by
  obtain ⟨bs, b, h, rfl⟩ := h
  rw [Body.lines, h.listed]

theorem Growing.grounded (h : s.Growing ls) : s.Grounded := by
  obtain ⟨bs, b, h, -⟩ := h
  simp [Grounded, h.blocks, h.current]

theorem Growing.nodup (h : s.Growing ls) : (heads ls).Nodup := by
  obtain ⟨bs, b, h, rfl⟩ := h
  rw [heads_blocks]
  exact h.names

theorem Growing.written (h : s.Growing ls) (i : Instr) : (s.written i).Growing (ls ++ [.instr i]) := by
  obtain ⟨bs, b, h, rfl⟩ := h
  refine ⟨bs, { b with instrs := b.instrs.push i }, ⟨?_, h.order, h.current, h.ended, h.isOpen, ?_⟩, ?_⟩
  · simp only [Lowering.written, h.blocks, h.current]
    exact modify_last bs b _
  · simpa using h.names
  · simp [Block.lines, h.isOpen]

theorem Growing.declared (h : s.Growing ls) (g : Function) : (s.declared g).Growing ls := by
  obtain ⟨bs, b, h, rfl⟩ := h
  exact ⟨bs, b, ⟨h.blocks, h.order, h.current, h.ended, h.isOpen, h.names⟩, rfl⟩

theorem Growing.performs {es : List Event} (h : s.Growing ls) (he : s.Performs es s') :
    s'.Growing (ls ++ (es.filterMap Event.instr?).map .instr) := by
  induction he generalizing ls with
  | nil => simpa using h
  | @write s s' i es _ _ ih =>
    have := ih (h.written i)
    rwa [List.append_assoc] at this
  | declare _ _ _ ih => exact ih (h.declared _)

theorem Growing.next (h : s.Growing ls) (t : Terminator) {n : BlockName} (hn : n ∉ heads ls) :
    (s.next t n).Growing (ls ++ [.ending t, .head n]) := by
  obtain ⟨bs, b, h, rfl⟩ := h
  rw [heads_blocks] at hn
  refine ⟨bs ++ [{ b with terminator := some t }], { name := n }, ⟨?_, ?_, ?_, ?_, rfl, ?_⟩, ?_⟩
  · simp only [Lowering.next, h.blocks, h.current]
    rw [modify_last]
    simp
  · simp only [Lowering.next, h.blocks, h.order]
    simp [List.range_succ]
  · simp [Lowering.next, h.blocks]
  · intro c hc
    rcases List.mem_append.mp hc with hc | hc
    · exact h.ended c hc
    · rw [List.mem_singleton.mp hc]
      rfl
  · have hnames := h.names
    simp only [List.map_append, List.map_cons, List.map_nil] at hnames hn ⊢
    exact List.nodup_append.mpr ⟨hnames, List.nodup_singleton _, fun x hx y hy hxy => by
      rw [List.mem_singleton.mp hy] at hxy
      exact hn (hxy ▸ hx)⟩
  · simp [Block.lines, h.isOpen]

theorem findIdx?_eq_none {n : BlockName} (hn : n ∉ (bs ++ [b]).map (·.name)) :
    (bs ++ [b]).toArray.findIdx? (·.name == n) = none := by
  rw [Array.findIdx?_eq_none_iff]
  intro c hc
  refine beq_false_of_ne fun hcn => hn ?_
  exact hcn ▸ List.mem_map_of_mem (List.mem_toArray.mp hc)

theorem Grown.next (h : s.Grown bs b) (t : Terminator) (n : BlockName) :
    s.next t n = { s with
      current := bs.length + 1
      body := {
        blocks := (bs ++ [{ b with terminator := some t }]).toArray.push { name := n }
        order := s.body.order.push (bs.length + 1) } } := by
  unfold Lowering.next
  rw [h.blocks, h.current, modify_last]
  simp

end Lowering

namespace LowerM

open Lowering

variable {s s' : Lowering} {ls : List Line}

theorem ends_endBlock (h : s.Growing ls) (t : Terminator) {n : BlockName} (hn : n ∉ heads ls) :
    Ends (do terminate t; startBlock n) s (fun _ s' => s' = s.next t n) fun _ _ => False := by
  obtain ⟨bs, b, h, rfl⟩ := h
  rw [heads_blocks] at hn
  have hn' : n ∉ (bs ++ [{ b with terminator := some t }]).map fun c : Block => c.name := by
    simpa using hn
  unfold startBlock
  refine Ends.bind_modify (Ends.bind_get ?_)
  dsimp only
  rw [h.blocks, h.current, modify_last, findIdx?_eq_none hn', if_neg (by simp)]
  refine Ends.modify' ?_
  rw [h.next]
  simp

theorem ends_startBlock (h : s.Growing ls) {n : BlockName} (hn : n ∉ heads ls) :
    Ends (startBlock n) s (fun _ s' => s' = s.next (.jump n) n) fun _ _ => False := by
  obtain ⟨bs, b, h, rfl⟩ := h
  rw [heads_blocks] at hn
  unfold startBlock
  refine Ends.bind_get ?_
  rw [h.blocks, h.current, findIdx?_eq_none hn, if_pos (by simp [h.isOpen])]
  refine Ends.bind_modify (Ends.modify' ?_)
  rw [h.next]
  dsimp only
  rw [h.blocks, h.current, modify_last]
  simp

/-- What the lowering of an instruction does. -/
inductive Lowers (sc : Scene) (own : String) (pc : Nat) (i : Insn) (s : Lowering) : Lowering → Prop
  | straight {s' : Lowering} (hop : isStraight i.op = true) (h : s.Makes [] [] s') : Lowers sc own pc i s s'
  | calling {s' : Lowering} {gs calls} (hop : isCalling i.op = true) (h : s.Makes gs calls s')
      (hr : CallsReferred sc own i gs calls s') : Lowers sc own pc i s s'
  | label (hop : i.op = .label) :
      Lowers sc own pc i s (s.next (.jump (.label i.label)) (.label i.label))
  | branch (hop : i.op = .branch) :
      Lowers sc own pc i s (s.next (.jump (.label i.label)) (.before (pc + 1)))
  | branchOn {t c} (hop : i.op = .branchIf ∨ i.op = .branchIfNot) (h : s.Quiet t) (hc : t.Knows c) :
      Lowers sc own pc i s
        (t.next (.branch c (.label i.label) (.before (pc + 1))) (.before (pc + 1)))
  | ret {t x} (hop : i.op = .ret) (h : s.Quiet t) (hx : ∀ y ∈ x, t.Knows y) :
      Lowers sc own pc i s (t.next (.ret x) (.before (pc + 1)))

theorem ends_labelBlock (f : Func) (l : LabelId) :
    Ends (labelBlock f l) s (fun n s' => s' = s ∧ n = .label l) fun _ _ => True := by
  unfold labelBlock
  exact Ends.ite' (fun _ => Ends.throw' trivial) fun _ => Ends.pure' ⟨rfl, rfl⟩

theorem ends_lowerInsn (h : s.Growing ls) {sc : Scene} {own : String}
    (hown : s.names.lookup own = some s.self) {pc : Nat} {i : Insn} (hop : i.op ≠ .nop)
    (hlabel : i.op = .label → .label i.label ∉ heads ls) (hnext : .before (pc + 1) ∉ heads ls) :
    Ends (lowerInsn sc pc i) s (fun _ s' => Lowers sc own pc i s s') fun _ _ => True := by
  have hs := h.grounded
  have hquiet : ∀ {t}, s.Quiet t → ∃ ls', t.Growing ls' ∧ .before (pc + 1) ∉ heads ls' := by
    rintro t ⟨is, ht, -⟩
    exact ⟨_, h.performs ht, by simpa using hnext⟩
  by_cases hstraight : isStraight i.op = true
  · refine (emits_lowerInsn hs sc pc hstraight).imp ?_
    rintro _ s' ⟨gs, calls, hm, rfl, rfl⟩
    exact .straight hstraight hm
  by_cases hcalling : isCalling i.op = true
  · refine (emits_lowerCall hs sc hown pc hcalling).imp ?_
    rintro _ s' ⟨gs, calls, hm, hr⟩
    exact .calling hcalling hm hr
  unfold lowerInsn
  refine Ends.ite' (fun hb => ?_) fun _ => Ends.ite' (fun hc => ?_) fun _ => ?_
  · revert hb hstraight hcalling
    cases i.op <;> simp [isStraight, isCalling, Opcode.isBinary]
  · revert hc hstraight
    cases i.op <;> simp [isStraight, Opcode.isCompare]
  extract_lets f jump after
  split
  case h_14 hl =>
    refine Ends.bind' (ends_labelBlock f i.label) ?_
    rintro _ _ ⟨rfl, rfl⟩
    refine (ends_startBlock h (hlabel hl)).mono ?_ fun _ _ h => h.elim
    rintro _ _ rfl
    exact .label hl
  case h_15 hb =>
    refine Ends.bind' (ends_labelBlock f i.label) ?_
    rintro _ _ ⟨rfl, rfl⟩
    refine (ends_endBlock h _ hnext).mono ?_ fun _ _ h => h.elim
    rintro _ _ rfl
    exact .branch hb
  case h_16 hb | h_17 hb =>
    refine Ends.bind' (ends_labelBlock f i.label) ?_
    rintro _ _ ⟨rfl, rfl⟩
    refine ends_after (quiet_operand hs f i.a) ?_
    rintro a s₁ hq₁ ⟨_, _, _, _, ha⟩
    have hs₁ := hq₁.grounded hs
    refine ends_after (quiet_repOfValue f i.a) ?_
    rintro r _ - ⟨rfl, -⟩
    refine ends_after (quiet_truth hs₁ ha.1 r _) fun c s₂ hq₂ hc => ?_
    have hq := Trans.trans hq₁ hq₂
    obtain ⟨ls', h', hnext'⟩ := hquiet hq
    refine (ends_endBlock h' _ hnext').mono ?_ fun _ _ h => h.elim
    rintro _ _ rfl
    exact .branchOn (by simp [hb]) hq hc.1
  case h_18 hr =>
    refine Ends.ite' (fun _ => ?_) fun _ => ?_
    · refine (ends_endBlock h _ hnext).mono ?_ fun _ _ h => h.elim
      rintro _ _ rfl
      exact .ret hr (Std.Refl.refl s) (by simp)
    · refine ends_after (quiet_repOf _ _) ?_
      rintro r _ - ⟨rfl, -⟩
      refine ends_after (quiet_operandAs hs _ _ _ _) ?_
      rintro x s₁ hq ⟨_, _, hx⟩
      obtain ⟨ls', h', hnext'⟩ := hquiet hq
      refine (ends_endBlock h' _ hnext').mono ?_ fun _ _ h => h.elim
      rintro _ _ rfl
      exact .ret hr hq (by simpa using hx.1)
  case h_22 => exact Ends.throw' trivial
  all_goals
    exfalso
    simp_all [isStraight, isCalling]

/-! ## The lines of an instruction -/

/-- The lines that the lowering of an instruction adds. -/
inductive Piece (pc : Nat) (i : Insn) : List Line → Prop
  | straight {is : List Instr} (hop : isStraight i.op = true ∨ isCalling i.op = true)
      (hsome : is ≠ []) (hslot : ∀ x ∈ is, x.slot? = none) : Piece pc i (is.map .instr)
  | label (hop : i.op = .label) :
      Piece pc i [Line.ending (.jump (.label i.label)), .head (.label i.label)]
  | branch (hop : i.op = .branch) :
      Piece pc i [Line.ending (.jump (.label i.label)), .head (.before (pc + 1))]
  | branchOn {is : List Instr} {c : Operand} (hop : i.op = .branchIf ∨ i.op = .branchIfNot)
      (hslot : ∀ x ∈ is, x.slot? = none) : Piece pc i (is.map Line.instr ++
        [Line.ending (.branch c (.label i.label) (.before (pc + 1))), .head (.before (pc + 1))])
  | ret {is : List Instr} {x : Option Operand} (hop : i.op = .ret)
      (hslot : ∀ x ∈ is, x.slot? = none) :
      Piece pc i (is.map Line.instr ++ [Line.ending (.ret x), .head (.before (pc + 1))])

/-- The blocks that the lowering of an instruction begins: that of a label, or
the one for what comes next. -/
theorem Piece.heads_subset {pc : Nat} {i : Insn} {piece : List Line} (h : Piece pc i piece) :
    ∀ n ∈ heads piece, (i.op = .label ∧ n = .label i.label) ∨ n = .before (pc + 1) := by
  cases h with
  | straight => simp
  | label hop => simp [heads, Line.head?, hop]
  | branch | branchOn | ret => simp [heads, Line.head?]

theorem Lowers.piece {sc : Scene} {own : String} {pc : Nat} {i : Insn} (h : Lowers sc own pc i s s')
    (hs : s.Growing ls) (hlabel : i.op = .label → .label i.label ∉ heads ls)
    (hnext : .before (pc + 1) ∉ heads ls) :
    ∃ piece, Piece pc i piece ∧ s'.Growing (ls ++ piece) := by
  have hquiet : ∀ {t : Lowering} {term : Terminator}, s.Quiet t → ∃ is : List Instr,
      (∀ x ∈ is, x.slot? = none) ∧ (t.next term (.before (pc + 1))).Growing
        (ls ++ (is.map Line.instr ++ [Line.ending term, .head (.before (pc + 1))])) := by
    rintro t term ⟨is, ht, -⟩
    refine ⟨_, ht.noSlot, List.append_assoc .. ▸ (hs.performs ht).next term ?_⟩
    simpa using hnext
  cases h with
  | straight hop h | calling hop h =>
    obtain ⟨es, hes, hsome, -⟩ := h
    exact ⟨_, .straight (by simp [hop]) hsome hes.noSlot, hs.performs hes⟩
  | label hop => exact ⟨_, .label hop, hs.next _ (hlabel hop)⟩
  | branch hop => exact ⟨_, .branch hop, hs.next _ hnext⟩
  | branchOn hop h =>
    obtain ⟨is, hslot, h⟩ := hquiet h
    exact ⟨_, .branchOn hop hslot, h⟩
  | ret hop h =>
    obtain ⟨is, hslot, h⟩ := hquiet h
    exact ⟨_, .ret hop hslot, h⟩

/-- The lowering of an instruction goes through events and perhaps the end of a
block. -/
theorem Lowers.performs {sc : Scene} {own : String} {pc : Nat} {i : Insn}
    (h : Lowers sc own pc i s s') :
    ∃ es t, s.Performs es t ∧ (s' = t ∨ ∃ term n, s' = t.next term n) := by
  cases h with
  | straight _ h | calling _ h =>
    obtain ⟨es, hes, -⟩ := h
    exact ⟨es, s', hes, .inl rfl⟩
  | label | branch => exact ⟨[], s, .nil s, .inr ⟨_, _, rfl⟩⟩
  | branchOn _ h | ret _ h =>
    obtain ⟨is, h, -⟩ := h
    exact ⟨_, _, h, .inr ⟨_, _, rfl⟩⟩

theorem Lowers.self_eq {sc : Scene} {own : String} {pc : Nat} {i : Insn} (h : Lowers sc own pc i s s') :
    s'.self = s.self := by
  obtain ⟨es, t, hes, rfl | ⟨term, n, rfl⟩⟩ := h.performs
  · exact hes.self_eq
  · exact hes.self_eq

theorem Lowers.lookup {sc : Scene} {own : String} {pc : Nat} {i : Insn} {n : String} {c : Nat}
    (h : Lowers sc own pc i s s') (hn : s.names.lookup n = some c) : s'.names.lookup n = some c := by
  obtain ⟨es, t, hes, rfl | ⟨term, n, rfl⟩⟩ := h.performs
  · exact hes.lookup hn
  · exact hes.lookup hn

theorem Lowers.own {sc : Scene} {own : String} {pc : Nat} {i : Insn} (h : Lowers sc own pc i s s')
    (hown : s.names.lookup own = some s.self) : s'.names.lookup own = some s'.self :=
  h.self_eq ▸ h.lookup hown

theorem Lowers.functions {sc : Scene} {own : String} {pc : Nat} {i : Insn} {k : Nat} {g : Function}
    (h : Lowers sc own pc i s s') (hg : s.module.functions[k]? = some g) :
    s'.module.functions[k]? = some g := by
  obtain ⟨es, t, hes, rfl | ⟨term, n, rfl⟩⟩ := h.performs
  · exact hes.functions hg
  · exact hes.functions hg

/-! ## Runs -/

def lowerPlaced (sc : Scene) (pc : Nat) (i : Insn) : LowerM Unit :=
  at_ ("insn " ++ Text.decimalNat pc ++ " (" ++ i.op.name ++ ")") (lowerInsn sc pc i)

/-- The lowering of instructions one after the other, with the lines that each
adds. -/
inductive LowersAll (sc : Scene) (own : String) :
    Nat → List Insn → Lowering → List (List Line) → Lowering → Prop
  | nil {pc s ls} (hs : s.Growing ls) : LowersAll sc own pc [] s [] s
  | cons {pc i is ls piece pieces} {s t s' : Lowering} (hs : s.Growing ls)
      (hlabel : i.op = .label → .label i.label ∉ heads ls) (hnext : .before (pc + 1) ∉ heads ls)
      (hrun : ((lowerPlaced sc pc i).run s : Except (Halt Problem) Unit × Lowering) = (.ok (), t))
      (hi : Lowers sc own pc i s t) (hp : Piece pc i piece) (ht : t.Growing (ls ++ piece))
      (h : LowersAll sc own (pc + 1) is t pieces s') :
      LowersAll sc own pc (i :: is) s (piece :: pieces) s'

theorem LowersAll.growing {sc : Scene} {own : String} {pc : Nat} {is : List Insn}
    {pieces : List (List Line)} (h : LowersAll sc own pc is s pieces s') (hs : s.Growing ls) :
    s'.Growing (ls ++ pieces.flatten) := by
  induction h generalizing ls with
  | nil => simpa using hs
  | cons hs' _ _ _ _ _ ht _ ih =>
    obtain rfl := hs.lines.symm.trans hs'.lines
    simpa using ih ht

theorem LowersAll.self_eq {sc : Scene} {own : String} {pc : Nat} {is : List Insn}
    {pieces : List (List Line)} (h : LowersAll sc own pc is s pieces s') : s'.self = s.self := by
  induction h with
  | nil => rfl
  | cons _ _ _ _ hi _ _ _ ih => exact ih.trans hi.self_eq

theorem LowersAll.functions {sc : Scene} {own : String} {pc : Nat} {is : List Insn} {k : Nat}
    {g : Function} {pieces : List (List Line)} (h : LowersAll sc own pc is s pieces s')
    (hg : s.module.functions[k]? = some g) : s'.module.functions[k]? = some g := by
  induction h with
  | nil => exact hg
  | cons _ _ _ _ hi _ _ _ ih => exact ih (hi.functions hg)

theorem LowersAll.lookup {sc : Scene} {own : String} {pc : Nat} {is : List Insn} {n : String} {c : Nat}
    {pieces : List (List Line)} (h : LowersAll sc own pc is s pieces s')
    (hn : s.names.lookup n = some c) : s'.names.lookup n = some c := by
  induction h with
  | nil => exact hn
  | cons _ _ _ _ hi _ _ _ ih => exact ih (hi.lookup hn)

theorem LowersAll.take {sc : Scene} {own : String} {pc : Nat} {is : List Insn}
    {pieces : List (List Line)} (h : LowersAll sc own pc is s pieces s') (k : Nat) :
    ∃ t, LowersAll sc own pc (is.take k) s (pieces.take k) t := by
  induction h generalizing k with
  | nil hs => exact ⟨_, by simpa using .nil hs⟩
  | cons hs hlabel hnext hrun hi hp ht _ ih =>
    cases k with
    | zero => exact ⟨_, .nil hs⟩
    | succ k =>
      obtain ⟨t, h⟩ := ih k
      exact ⟨t, .cons hs hlabel hnext hrun hi hp ht h⟩

theorem LowersAll.run {sc : Scene} {own : String} {pc : Nat} {is : List Insn}
    {pieces : List (List Line)} (h : LowersAll sc own pc is s pieces s') :
    ((lowerInsns sc pc is).run s : Except (Halt Problem) Unit × Lowering) = (.ok (), s') := by
  induction h with
  | nil => rfl
  | @cons pc i is _ _ _ s t s' _ _ _ hrun _ _ _ _ ih =>
    change ((lowerPlaced sc pc i >>= fun _ => lowerInsns sc (pc + 1) is).run s :
      Except (Halt Problem) Unit × Lowering) = _
    rw [run_bind, hrun]
    exact ih

/-- The blocks that are there before an instruction: the first, those of the
labels so far, and those for what comes after an instruction so far. -/
def NamedBefore (insns : List Insn) (pc : Nat) (ls : List Line) : Prop :=
  ∀ n ∈ heads ls, n = .entry ∨ (∃ k ≤ pc, n = .before k) ∨
    ∃ (q : Nat) (i : Insn), q < pc ∧ insns[q]? = some i ∧ i.op = .label ∧ n = .label i.label

def LabelsOnce (insns : List Insn) : Prop :=
  ∀ (p q : Nat) (i j : Insn), insns[p]? = some i → insns[q]? = some j → i.op = .label →
    j.op = .label → i.label = j.label → p = q

theorem NamedBefore.fresh {insns : List Insn} {pc : Nat} {i : Insn} (h : NamedBefore insns pc ls)
    (hi : insns[pc]? = some i) (honce : LabelsOnce insns) :
    (i.op = .label → .label i.label ∉ heads ls) ∧ .before (pc + 1) ∉ heads ls := by
  constructor
  · intro hop hmem
    rcases h _ hmem with hn | ⟨k, -, hn⟩ | ⟨q, j, hq, hj, hop', hn⟩
    · cases hn
    · cases hn
    · exact Nat.ne_of_lt hq (honce q pc j i hj hi hop' hop (BlockName.label.inj hn).symm)
  · intro hmem
    rcases h _ hmem with hn | ⟨k, hk, hn⟩ | ⟨q, j, -, -, -, hn⟩
    · cases hn
    · exact Nat.not_succ_le_self pc (Nat.le_trans (Nat.le_of_eq (BlockName.before.inj hn)) hk)
    · cases hn

theorem NamedBefore.append {insns : List Insn} {pc : Nat} {i : Insn} {piece : List Line}
    (h : NamedBefore insns pc ls) (hi : insns[pc]? = some i) (hp : Piece pc i piece) :
    NamedBefore insns (pc + 1) (ls ++ piece) := by
  intro n hn
  rw [heads_append, List.mem_append] at hn
  rcases hn with hn | hn
  · rcases h n hn with hn | ⟨k, hk, hn⟩ | ⟨q, j, hq, hj, hop, hn⟩
    · exact .inl hn
    · exact .inr (.inl ⟨k, Nat.le_succ_of_le hk, hn⟩)
    · exact .inr (.inr ⟨q, j, Nat.lt_succ_of_lt hq, hj, hop, hn⟩)
  · rcases hp.heads_subset n hn with ⟨hop, hn⟩ | hn
    · exact .inr (.inr ⟨pc, i, Nat.lt_succ_self pc, hi, hop, hn⟩)
    · exact .inr (.inl ⟨pc + 1, Nat.le_refl _, hn⟩)

theorem ends_at {α : Type} {place : String} {act : LowerM α} {ok : α → Lowering → Prop}
    (h : Ends act s ok fun _ _ => True) : Ends (at_ place act) s ok fun _ _ => True := by
  unfold at_
  refine Ends.tryCatch' (h.imp_stop fun e s' _ => ?_)
  cases e with
  | failed p => exact Ends.throw' trivial
  | crashed => exact Ends.throw' trivial

theorem run_of_at {α : Type} {place : String} {act : LowerM α} {a : α}
    (h : ((at_ place act).run s : Except (Halt Problem) α × Lowering) = (.ok a, s')) :
    (act.run s : Except (Halt Problem) α × Lowering) = (.ok a, s') := by
  unfold at_ at h
  rw [run_tryCatch] at h
  rcases hr : (act.run s : Except (Halt Problem) α × Lowering) with ⟨e | b, t⟩
  · rw [hr] at h
    cases e with
    | failed p => cases h
    | crashed => cases h
  · rw [hr] at h
    exact h

theorem ends_lowerInsns {sc : Scene} {own : String} {insns : List Insn} (honce : LabelsOnce insns)
    (hnop : ∀ i ∈ insns, i.op ≠ .nop) (h : s.Growing ls) {pc : Nat} (hn : NamedBefore insns pc ls)
    (hown : s.names.lookup own = some s.self) {is : List Insn} (his : insns.drop pc = is) :
    Ends (lowerInsns sc pc is) s (fun _ s' => ∃ pieces, LowersAll sc own pc is s pieces s')
      fun _ _ => True := by
  induction is generalizing s ls pc with
  | nil => exact Ends.pure' ⟨[], .nil h⟩
  | cons i is ih =>
    have hi : insns[pc]? = some i := by
      rw [← List.head?_drop, his]
      rfl
    have his' : insns.drop (pc + 1) = is := by
      rw [← List.tail_drop, his]
      rfl
    obtain ⟨hlabel, hnext⟩ := hn.fresh hi honce
    have hone : Ends (lowerPlaced sc pc i) s (fun _ t => Lowers sc own pc i s t) fun _ _ => True :=
      ends_at (ends_lowerInsn h hown (hnop i (List.mem_of_getElem? hi)) hlabel hnext)
    refine Ends.bind' ((hone.and' (Ends.of_run rfl)).imp_stop fun _ _ _ => trivial) ?_
    rintro ⟨⟩ t ⟨ht, hrun⟩
    obtain ⟨piece, hp, hg⟩ := ht.piece h hlabel hnext
    refine (ih hg (hn.append hi hp) (ht.own hown) his').imp ?_
    rintro _ s' ⟨pieces, hall⟩
    exact ⟨piece :: pieces, .cons h hlabel hnext hrun ht hp hg hall⟩

end LowerM

end TypedIR.Llvm
