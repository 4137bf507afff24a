import TypedIR.Llvm.Text
import TypedIR.Proofs.ExportedBodies

/-
  The control flow of exported functions.

  Control goes from a line of a listing to the next, and from the end of a block
  to the heads of the blocks that it names (`Follows`). Every instruction of a
  function has a line at which its lowering begins: the first of its lines, or
  for a label the head of its block. `Passes` leads from one of these to another
  over lines that belong to no beginning. It leads from the line of an
  instruction exactly to the lines of its successors (`Listing.passes_iff`), so
  the blocks of the exported function have the control flow of the stream
  (`exported_flow`).
-/

namespace TypedIR.Llvm

def Terminator.targets : Terminator → List BlockName
  | .jump n => [n]
  | .branch _ yes no => [yes, no]
  | .ret _ | .unreachable => []

/-- Control goes from one line of a listing to another. -/
inductive Follows (ls : List Line) : Nat → Nat → Prop
  | next {a : Nat} {l : Line} (hl : ls[a]? = some l) (hl' : ∀ t, l ≠ .ending t) : Follows ls a (a + 1)
  | jump {a b : Nat} {t : Terminator} {n : BlockName} (ha : ls[a]? = some (.ending t))
      (hn : n ∈ t.targets) (hb : ls[b]? = some (.head n)) : Follows ls a b

/-- Control can go from one line to another with no stop on the way. -/
inductive Passes (ls : List Line) (stop : Nat → Prop) : Nat → Nat → Prop
  | step {a b : Nat} (h : Follows ls a b) : Passes ls stop a b
  | skip {a b c : Nat} (h : Follows ls a c) (hc : ¬ stop c) (h' : Passes ls stop c b) :
      Passes ls stop a b

variable {ls : List Line} {stop : Nat → Prop} {a b c : Nat}

def Reaches (ls : List Line) (stop : Nat → Prop) (a b : Nat) : Prop :=
  (stop a ∧ a = b) ∨ (¬ stop a ∧ Passes ls stop a b)

theorem passes_iff (hb : stop b) : Passes ls stop a b ↔ ∃ c, Follows ls a c ∧ Reaches ls stop c b := by
  constructor
  · rintro (h | ⟨h, hc, h'⟩)
    · exact ⟨b, h, .inl ⟨hb, rfl⟩⟩
    · exact ⟨_, h, .inr ⟨hc, h'⟩⟩
  · rintro ⟨c, h, ⟨-, rfl⟩ | ⟨hc, h'⟩⟩
    · exact .step h
    · exact .skip h hc h'

theorem reaches_of_stop (ha : stop a) : Reaches ls stop a b ↔ a = b := by
  simp [Reaches, ha]

theorem reaches_of_follows (ha : ¬ stop a) (hb : stop b) (h : ∀ d, Follows ls a d ↔ d = c) :
    Reaches ls stop a b ↔ Reaches ls stop c b := by
  have hpasses : Reaches ls stop a b ↔ Passes ls stop a b := by simp [Reaches, ha]
  rw [hpasses, passes_iff hb]
  simp [h]

theorem follows_next {l : Line} (hl : ls[a]? = some l) (hl' : ∀ t, l ≠ .ending t) (d : Nat) :
    Follows ls a d ↔ d = a + 1 := by
  constructor
  · rintro (⟨-, -⟩ | ⟨ha, -, -⟩)
    · rfl
    · exact absurd (Option.mem_unique hl ha) (hl' _)
  · rintro rfl
    exact .next hl hl'

theorem follows_ending {t : Terminator} (ha : ls[a]? = some (.ending t)) (d : Nat) :
    Follows ls a d ↔ ∃ n ∈ t.targets, ls[d]? = some (.head n) := by
  constructor
  · rintro (⟨hl, hl'⟩ | ⟨ha', hn, hb⟩)
    · exact absurd (Option.mem_unique hl ha) (hl' _)
    · obtain rfl := Line.ending.inj (Option.mem_unique ha ha')
      exact ⟨_, hn, hb⟩
  · rintro ⟨n, hn, hb⟩
    exact .jump ha hn hb

theorem head_unique (hnodup : (heads ls).Nodup) {n : BlockName} (ha : ls[a]? = some (.head n))
    (hb : ls[b]? = some (.head n)) : a = b := by
  induction ls generalizing a b with
  | nil => simp at ha
  | cons l ls ih =>
    have hmem : ∀ {k : Nat}, ls[k]? = some (.head n) → n ∈ heads ls := fun hk =>
      List.mem_filterMap.mpr ⟨_, List.mem_of_getElem? hk, rfl⟩
    have htail : (heads ls).Nodup := by
      cases l with
      | head m => exact (List.nodup_cons.mp hnodup).2
      | instr i => exact hnodup
      | ending t => exact hnodup
    have hfirst : l = .head n → n ∉ heads ls := by
      rintro rfl
      exact (List.nodup_cons.mp hnodup).1
    cases a with
    | zero =>
      cases b with
      | zero => rfl
      | succ b => exact absurd (hmem hb) (hfirst (Option.some.inj ha))
    | succ a =>
      cases b with
      | zero => exact absurd (hmem ha) (hfirst (Option.some.inj hb))
      | succ b => exact congrArg (· + 1) (ih htail ha hb)

open LowerM

/-- A listing that is made of the lines of a function's instructions. -/
structure Listing (f : Func) (pre : List Line) (pieces : List (List Line)) (ls : List Line) : Prop where
  lines : ls = pre ++ pieces.flatten ++ [.ending .unreachable]
  unended : ∀ t, .ending t ∉ pre
  length : pieces.length = f.insns.size
  piece : ∀ {p : Nat} {i : Insn}, f.insns[p]? = some i → ∃ ps, pieces[p]? = some ps ∧ Piece p i ps
  nodup : (heads ls).Nodup

def startOf (pre : List Line) (pieces : List (List Line)) (p : Nat) : Nat :=
  (pre ++ (pieces.take p).flatten).length

def entryOf (op : Opcode) : Nat := if op = .label then 1 else 0

def lineAt (f : Func) (pre : List Line) (pieces : List (List Line)) (p : Nat) : Nat :=
  startOf pre pieces p + ((f.insns[p]?).map fun i => entryOf i.op).getD 0

def Begins (f : Func) (pre : List Line) (pieces : List (List Line)) (a : Nat) : Prop :=
  ∃ p < f.insns.size, a = lineAt f pre pieces p

theorem LowerM.Piece.entry_lt {pc : Nat} {i : Insn} {ps : List Line} (h : Piece pc i ps) :
    entryOf i.op < ps.length := by
  cases h with
  | @straight is hop hsome =>
    have hlen : 0 < (is.map Line.instr).length := by simpa [List.length_pos_iff] using hsome
    have hlabel : i.op ≠ .label := by
      intro h
      rw [h] at hop
      exact hop.elim nofun nofun
    simpa [entryOf, hlabel] using hlen
  | label hop => simp [entryOf, hop]
  | branch hop | ret hop => simp [entryOf, hop]
  | branchOn hop => rcases hop with hop | hop <;> simp [entryOf, hop]

namespace Listing

variable {f : Func} {pre : List Line} {pieces : List (List Line)} {p q r j : Nat} {i : Insn}
  {ps : List Line}

theorem startOf_succ (hps : pieces[p]? = some ps) :
    startOf pre pieces (p + 1) = startOf pre pieces p + ps.length := by
  simp [startOf, List.take_add_one, hps, Nat.add_assoc]

theorem startOf_mono (h : p ≤ q) : startOf pre pieces p ≤ startOf pre pieces q := by
  obtain ⟨k, rfl⟩ := Nat.exists_eq_add_of_le h
  simp [startOf, List.take_add]

theorem get (h : Listing f pre pieces ls) (hps : pieces[p]? = some ps) (hj : j < ps.length) :
    ls[startOf pre pieces p + j]? = ps[j]? := by
  have hsplit : pieces = pieces.take p ++ ps :: pieces.drop (p + 1) := by
    obtain ⟨hp, rfl⟩ := List.getElem?_eq_some_iff.mp hps
    simp
  have hls : ls = (pre ++ (pieces.take p).flatten) ++
      (ps ++ ((pieces.drop (p + 1)).flatten ++ [Line.ending .unreachable])) := by
    rw [h.lines]
    conv_lhs => rw [hsplit]
    simp
  rw [hls, startOf, List.getElem?_append_right (Nat.le_add_right _ _), Nat.add_sub_cancel_left,
    List.getElem?_append_left hj]

theorem lineAt_eq (hi : f.insns[p]? = some i) :
    lineAt f pre pieces p = startOf pre pieces p + entryOf i.op := by
  simp [lineAt, hi]

theorem apart (hps : pieces[p]? = some ps) (hj : j < ps.length) {qs : List Line} {k : Nat}
    (hqs : pieces[q]? = some qs) (hk : k < qs.length)
    (h : startOf pre pieces p + j = startOf pre pieces q + k) : p = q ∧ j = k := by
  rcases Nat.lt_trichotomy p q with hpq | rfl | hpq
  · have : startOf pre pieces (p + 1) ≤ startOf pre pieces q := startOf_mono hpq
    rw [startOf_succ hps] at this
    omega
  · exact ⟨rfl, Nat.add_left_cancel h⟩
  · have : startOf pre pieces (q + 1) ≤ startOf pre pieces p := startOf_mono hpq
    rw [startOf_succ hqs] at this
    omega

theorem begins_iff (h : Listing f pre pieces ls) (hi : f.insns[p]? = some i)
    (hps : pieces[p]? = some ps) (hj : j < ps.length) :
    Begins f pre pieces (startOf pre pieces p + j) ↔ j = entryOf i.op := by
  constructor
  · rintro ⟨q, hq, hline⟩
    obtain ⟨k, hk⟩ : ∃ k, f.insns[q]? = some k := ⟨_, Array.getElem?_eq_getElem hq⟩
    obtain ⟨qs, hqs, hpiece⟩ := h.piece hk
    rw [lineAt_eq hk] at hline
    obtain ⟨rfl, rfl⟩ := apart hps hj hqs hpiece.entry_lt hline
    rw [Option.mem_unique hi hk]
  · rintro rfl
    exact ⟨p, lt_of_getElem? hi, (lineAt_eq hi).symm⟩

theorem lineAt_inj (h : Listing f pre pieces ls) (hp : p < f.insns.size) (hq : q < f.insns.size)
    (hline : lineAt f pre pieces p = lineAt f pre pieces q) : p = q := by
  obtain ⟨i, hi⟩ : ∃ i, f.insns[p]? = some i := ⟨_, Array.getElem?_eq_getElem hp⟩
  obtain ⟨k, hk⟩ : ∃ k, f.insns[q]? = some k := ⟨_, Array.getElem?_eq_getElem hq⟩
  obtain ⟨ps, hps, hpiece⟩ := h.piece hi
  obtain ⟨qs, hqs, hpiece'⟩ := h.piece hk
  rw [lineAt_eq hi, lineAt_eq hk] at hline
  exact (apart hps hpiece.entry_lt hqs hpiece'.entry_lt hline).1

theorem get_last (h : Listing f pre pieces ls) :
    ls[startOf pre pieces f.insns.size]? = some (.ending .unreachable) := by
  rw [h.lines, startOf, List.take_of_length_le (Nat.le_of_eq h.length)]
  exact List.getElem?_concat_length

theorem lineAt_lt (h : Listing f pre pieces ls) (hp : p < f.insns.size) :
    lineAt f pre pieces p < startOf pre pieces (p + 1) := by
  obtain ⟨i, hi⟩ : ∃ i, f.insns[p]? = some i := ⟨_, Array.getElem?_eq_getElem hp⟩
  obtain ⟨ps, hps, hpiece⟩ := h.piece hi
  rw [lineAt_eq hi, startOf_succ hps]
  exact Nat.add_lt_add_left hpiece.entry_lt _

theorem get_label (h : Listing f pre pieces ls) (hi : f.insns[p]? = some i) (hop : i.op = .label) :
    ls[lineAt f pre pieces p]? = some (.head (.label i.label)) := by
  obtain ⟨ps, hps, hpiece⟩ := h.piece hi
  rw [lineAt_eq hi, h.get hps hpiece.entry_lt]
  cases hpiece with
  | label => simp [entryOf, hop]
  | straight hop' => rw [hop] at hop'; exact hop'.elim nofun nofun
  | branch hop' | ret hop' => rw [hop] at hop'; cases hop'
  | branchOn hop' => rw [hop] at hop'; exact hop'.elim nofun nofun

/-- From where the lowering of an instruction starts, control first comes to
its beginning. -/
theorem reaches_start (h : Listing f pre pieces ls) (hq : q ≤ f.insns.size) (hr : r < f.insns.size) :
    Reaches ls (Begins f pre pieces) (startOf pre pieces q) (lineAt f pre pieces r) ↔ r = q := by
  have hstop : Begins f pre pieces (lineAt f pre pieces r) := ⟨r, hr, rfl⟩
  rcases Nat.lt_or_eq_of_le hq with hq | rfl
  · obtain ⟨i, hi⟩ : ∃ i, f.insns[q]? = some i := ⟨_, Array.getElem?_eq_getElem hq⟩
    obtain ⟨ps, hps, hpiece⟩ := h.piece hi
    have hline : lineAt f pre pieces q = lineAt f pre pieces r ↔ r = q :=
      ⟨fun he => (h.lineAt_inj hq hr he).symm, fun he => he ▸ rfl⟩
    have hreaches : Reaches ls (Begins f pre pieces) (lineAt f pre pieces q) (lineAt f pre pieces r) ↔
        r = q := (reaches_of_stop ⟨q, hq, rfl⟩).trans hline
    by_cases hop : i.op = .label
    · -- control runs into the block of the label
      have hentry : entryOf i.op = 1 := if_pos hop
      have hpos : 0 < ps.length := Nat.lt_of_le_of_lt (Nat.zero_le _) hpiece.entry_lt
      have hend : ls[startOf pre pieces q]? = some (.ending (.jump (.label i.label))) := by
        have hget := h.get hps hpos
        rw [Nat.add_zero] at hget
        rw [hget]
        cases hpiece with
        | label => rfl
        | straight hop' => rw [hop] at hop'; exact hop'.elim nofun nofun
        | branch hop' | ret hop' => rw [hop] at hop'; cases hop'
        | branchOn hop' => rw [hop] at hop'; exact hop'.elim nofun nofun
      have hbegins := h.begins_iff hi hps hpos
      rw [hentry, Nat.add_zero] at hbegins
      refine (reaches_of_follows (by simp [hbegins]) hstop fun d => ?_).trans hreaches
      rw [follows_ending hend]
      constructor
      · rintro ⟨n, hn, hd⟩
        obtain rfl := List.mem_singleton.mp hn
        exact head_unique h.nodup hd (h.get_label hi hop)
      · rintro rfl
        exact ⟨_, List.mem_singleton_self _, h.get_label hi hop⟩
    · have hentry : entryOf i.op = 0 := if_neg hop
      rw [lineAt_eq hi, hentry, Nat.add_zero] at hreaches
      exact hreaches
  · have hlt : lineAt f pre pieces r < startOf pre pieces f.insns.size :=
      Nat.lt_of_lt_of_le (h.lineAt_lt hr) (startOf_mono hr)
    have hpasses : ¬ Passes ls (Begins f pre pieces) (startOf pre pieces f.insns.size)
        (lineAt f pre pieces r) := by
      rw [passes_iff hstop]
      rintro ⟨c, hc, -⟩
      rw [follows_ending h.get_last] at hc
      obtain ⟨n, hn, -⟩ := hc
      cases hn
    have hne : ¬ r = f.insns.size := Nat.ne_of_lt hr
    simp [Reaches, hpasses, hne, Nat.ne_of_gt hlt]

theorem passes_code (h : Listing f pre pieces ls) (hi : f.insns[p]? = some i)
    (hps : pieces[p]? = some ps) (hop : i.op ≠ .label) {n : Nat}
    (hn : n < ps.length) (hcode : ∀ k < n, ∃ x, ps[k]? = some (.instr x)) (hb : Begins f pre pieces b) :
    Passes ls (Begins f pre pieces) (startOf pre pieces p) b ↔
      Passes ls (Begins f pre pieces) (startOf pre pieces p + n) b := by
  induction n with
  | zero => rfl
  | succ n ih =>
    rw [ih (Nat.lt_of_succ_lt hn) fun k hk => hcode k (Nat.lt_succ_of_lt hk)]
    obtain ⟨x, hx⟩ := hcode n (Nat.lt_succ_self n)
    have hget : ls[startOf pre pieces p + n]? = some (.instr x) :=
      (h.get hps (Nat.lt_of_succ_lt hn)).trans hx
    have hbegins := h.begins_iff hi hps hn
    rw [entryOf, if_neg hop] at hbegins
    rw [passes_iff hb]
    simp only [follows_next hget (fun _ => Line.noConfusion), exists_eq_left]
    simp [Reaches, Nat.add_assoc, hbegins]

theorem reaches_last (h : Listing f pre pieces ls) (hi : f.insns[p]? = some i)
    (hps : pieces[p]? = some ps) {n : Nat} (hn : n + 1 = ps.length) (hop : n ≠ entryOf i.op)
    {l : Line} (hl : ps[n]? = some l) (hl' : ∀ t, l ≠ .ending t) (hr : r < f.insns.size) :
    Reaches ls (Begins f pre pieces) (startOf pre pieces p + n) (lineAt f pre pieces r) ↔
      r = p + 1 := by
  have hlt : n < ps.length := hn ▸ Nat.lt_succ_self n
  have hget : ls[startOf pre pieces p + n]? = some l := (h.get hps hlt).trans hl
  have hsucc : startOf pre pieces p + n + 1 = startOf pre pieces (p + 1) := by
    rw [startOf_succ hps, ← hn, Nat.add_assoc]
  rw [reaches_of_follows (mt (h.begins_iff hi hps hlt).mp hop) ⟨r, hr, rfl⟩
    (follows_next hget hl'), hsucc]
  exact h.reaches_start (lt_of_getElem? hi) hr

theorem passes_ending (h : Listing f pre pieces ls) (hi : f.insns[p]? = some i) {is : List Instr}
    {t : Terminator} (hps : pieces[p]? =
      some (is.map Line.instr ++ [Line.ending t, .head (.before (p + 1))])) (hop : i.op ≠ .label)
    (hr : r < f.insns.size) :
    Passes ls (Begins f pre pieces) (lineAt f pre pieces p) (lineAt f pre pieces r) ↔
      ∃ n ∈ t.targets, ∃ d, ls[d]? = some (.head n) ∧
        Reaches ls (Begins f pre pieces) d (lineAt f pre pieces r) := by
  have hcode : ∀ k < is.length, ∃ x, (is.map Line.instr ++
      [Line.ending t, Line.head (.before (p + 1))])[k]? = some (.instr x) := by
    intro k hk
    exact ⟨is[k], by rw [List.getElem?_append_left (by simpa using hk)]; simp [hk]⟩
  have hlt : is.length <
      (is.map Line.instr ++ [Line.ending t, Line.head (.before (p + 1))]).length := by simp
  have hend : ls[startOf pre pieces p + is.length]? = some (.ending t) := by
    rw [h.get hps hlt, List.getElem?_append_right (by simp)]
    simp
  have hb : Begins f pre pieces (lineAt f pre pieces r) := ⟨r, hr, rfl⟩
  rw [lineAt_eq hi, entryOf, if_neg hop, Nat.add_zero, h.passes_code hi hps hop hlt hcode hb,
    passes_iff hb]
  simp only [follows_ending hend]
  constructor
  · rintro ⟨d, ⟨n, hn, hd⟩, hreach⟩
    exact ⟨n, hn, d, hd, hreach⟩
  · rintro ⟨n, hn, d, hd, hreach⟩
    exact ⟨d, ⟨n, hn, hd⟩, hreach⟩

theorem reaches_before (h : Listing f pre pieces ls) (hi : f.insns[p]? = some i) {is : List Instr}
    {t : Terminator} (hps : pieces[p]? =
      some (is.map Line.instr ++ [Line.ending t, .head (.before (p + 1))])) (hop : i.op ≠ .label)
    (hr : r < f.insns.size) :
    (∃ d, ls[d]? = some (.head (.before (p + 1))) ∧
      Reaches ls (Begins f pre pieces) d (lineAt f pre pieces r)) ↔ r = p + 1 := by
  have hlast : (is.map Line.instr ++
      [Line.ending t, Line.head (.before (p + 1))])[is.length + 1]? = some (.head (.before (p + 1))) := by
    rw [List.getElem?_append_right (by simp)]
    simp
  have hlt : is.length + 1 < (is.map Line.instr ++
      [Line.ending t, Line.head (.before (p + 1))]).length := by simp
  have hhead : ls[startOf pre pieces p + (is.length + 1)]? = some (.head (.before (p + 1))) :=
    (h.get hps hlt).trans hlast
  have hreach := h.reaches_last hi hps (n := is.length + 1) (by simp) (by simp [entryOf, hop]) hlast
    (fun _ => Line.noConfusion) hr
  rw [← hreach]
  constructor
  · rintro ⟨d, hd, hreach⟩
    exact head_unique h.nodup hd hhead ▸ hreach
  · exact fun hreach => ⟨_, hhead, hreach⟩

theorem reaches_label (h : Listing f pre pieces ls) {l : LabelId} (hq : f.insns[q]? =
      some { op := .label, label := l }) (hr : r < f.insns.size) :
    (∃ d, ls[d]? = some (.head (.label l)) ∧
      Reaches ls (Begins f pre pieces) d (lineAt f pre pieces r)) ↔ r = q := by
  have hhead := h.get_label hq rfl
  have hsize : q < f.insns.size := lt_of_getElem? hq
  constructor
  · rintro ⟨d, hd, hreach⟩
    obtain rfl := head_unique h.nodup hd hhead
    rw [reaches_of_stop ⟨q, hsize, rfl⟩] at hreach
    exact (h.lineAt_inj hsize hr hreach).symm
  · rintro rfl
    exact ⟨_, hhead, (reaches_of_stop ⟨r, hsize, rfl⟩).mpr rfl⟩

/-- Control passes from the lowering of an instruction to those of its
successors, and to no others. -/
theorem passes_iff_successor (h : Listing f pre pieces ls) (hi : f.insns[p]? = some i)
    (htarget : i.op.isBranch = true → ∃ t, f.target? i = some t ∧
      f.insns[t]? = some { op := .label, label := i.label }) (hr : r < f.insns.size) :
    Passes ls (Begins f pre pieces) (lineAt f pre pieces p) (lineAt f pre pieces r) ↔
      r ∈ f.successors p i := by
  obtain ⟨ps, hps, hpiece⟩ := h.piece hi
  have hb : Begins f pre pieces (lineAt f pre pieces r) := ⟨r, hr, rfl⟩
  cases hpiece with
  | @straight is hop hsome =>
    have hlabel : i.op ≠ .label := fun h => by rw [h] at hop; exact hop.elim nofun nofun
    have hsucc : f.successors p i = [p + 1] := by
      unfold Func.successors
      generalize i.op = op at hop
      cases op <;> first | rfl | exact (hop.elim nofun nofun)
    obtain ⟨n, hn⟩ := Nat.exists_eq_succ_of_ne_zero (mt List.length_eq_zero_iff.mp hsome)
    have hlen : (is.map Line.instr).length = n + 1 := by rw [List.length_map, hn]
    have hcode : ∀ k < n + 1, ∃ x, (is.map Line.instr)[k]? = some (.instr x) := fun k hk =>
      ⟨is[k], by simp [hn, hk]⟩
    obtain ⟨x, hx⟩ := hcode n (Nat.lt_succ_self n)
    have hlt : n < (is.map Line.instr).length := hlen ▸ Nat.lt_succ_self n
    have hget : ls[startOf pre pieces p + n]? = some (.instr x) := (h.get hps hlt).trans hx
    rw [lineAt_eq hi, entryOf, if_neg hlabel, Nat.add_zero,
      h.passes_code hi hps hlabel hlt (fun k hk => hcode k (Nat.lt_succ_of_lt hk)) hb, passes_iff hb]
    simp only [follows_next hget (fun _ => Line.noConfusion), exists_eq_left]
    rw [Nat.add_assoc, ← hlen, ← startOf_succ hps,
      h.reaches_start (lt_of_getElem? hi) hr, hsucc, List.mem_singleton]
  | label hop =>
    have hsucc : f.successors p i = [p + 1] := by rw [Func.successors, hop]
    have hget := h.get_label hi hop
    rw [passes_iff hb]
    simp only [follows_next hget (fun _ => Line.noConfusion), exists_eq_left]
    rw [lineAt_eq hi, entryOf, if_pos hop, Nat.add_assoc]
    have hstart : startOf pre pieces (p + 1) = startOf pre pieces p + (1 + 1) := startOf_succ hps
    rw [← hstart,
      h.reaches_start (lt_of_getElem? hi) hr, hsucc, List.mem_singleton]
  | branch hop =>
    obtain ⟨t, ht, htlabel⟩ := htarget (by rw [hop]; rfl)
    have hsucc : f.successors p i = [t] := by rw [Func.successors, hop, ht]; rfl
    have hps' : pieces[p]? = some (([] : List Instr).map .instr ++
      [.ending (.jump (.label i.label)), .head (.before (p + 1))]) := hps
    rw [h.passes_ending hi hps' (by rw [hop]; exact nofun) hr]
    simp only [Terminator.targets, List.mem_singleton, exists_eq_left]
    rw [h.reaches_label htlabel hr, hsucc, List.mem_singleton]
  | branchOn hop =>
    obtain ⟨t, ht, htlabel⟩ := htarget (by rcases hop with hop | hop <;> rw [hop] <;> rfl)
    have hsucc : f.successors p i = [t, p + 1] := by
      rcases hop with hop | hop <;> rw [Func.successors, hop, ht] <;> rfl
    have hlabel : i.op ≠ .label := by rcases hop with hop | hop <;> rw [hop] <;> exact nofun
    rw [h.passes_ending hi hps hlabel hr]
    simp only [Terminator.targets, List.mem_cons, List.not_mem_nil, or_false, exists_eq_or_imp,
      exists_eq_left]
    rw [h.reaches_label htlabel hr, h.reaches_before hi hps hlabel hr, hsucc]
    simp
  | ret hop =>
    have hsucc : f.successors p i = [] := by rw [Func.successors, hop]
    rw [h.passes_ending hi hps (by rw [hop]; exact nofun) hr, hsucc]
    simp [Terminator.targets]

theorem piece_of_mem (h : Listing f pre pieces ls) (hps : ps ∈ pieces) :
    ∃ p i, f.insns[p]? = some i ∧ pieces[p]? = some ps ∧ Piece p i ps := by
  obtain ⟨p, hps⟩ := List.getElem?_of_mem hps
  have hp : p < f.insns.size := h.length ▸ (List.getElem?_eq_some_iff.mp hps).1
  obtain ⟨ps', hps', hpiece⟩ := h.piece (Array.getElem?_eq_getElem hp)
  obtain rfl := Option.mem_unique hps hps'
  exact ⟨p, _, Array.getElem?_eq_getElem hp, hps, hpiece⟩

theorem label_mem (h : Listing f pre pieces ls) (hi : f.insns[p]? = some i) (hop : i.op = .label) :
    .label i.label ∈ heads ls :=
  List.mem_filterMap.mpr ⟨_, List.mem_of_getElem? (h.get_label hi hop), rfl⟩

theorem target_mem (h : Listing f pre pieces ls)
    (htarget : ∀ (p : Nat) (i : Insn), f.insns[p]? = some i → i.op.isBranch = true →
      ∃ t : Nat, f.insns[t]? = some { op := .label, label := i.label }) {t : Terminator}
    (ht : .ending t ∈ ls) {n : BlockName} (hn : n ∈ t.targets) : n ∈ heads ls := by
  have hsplit : .ending t ∈ pieces.flatten ∨ t = .unreachable := by
    rw [h.lines, List.mem_append, List.mem_append, List.mem_singleton] at ht
    exact ht.imp (Or.resolve_left · (h.unended t)) Line.ending.inj
  rcases hsplit with ht | rfl
  · obtain ⟨ps, hps, ht⟩ := List.mem_flatten.mp ht
    obtain ⟨p, i, hi, -, hpiece⟩ := h.piece_of_mem hps
    have hplaced : i.op.isBranch = true → .label i.label ∈ heads ls := fun hop => by
      obtain ⟨k, hk⟩ := htarget p i hi hop
      exact h.label_mem (i := { op := .label, label := i.label }) hk rfl
    have hnext : .head (.before (p + 1)) ∈ ps → .before (p + 1) ∈ heads ls := fun hmem => by
      refine List.mem_filterMap.mpr ⟨.head (.before (p + 1)), ?_, rfl⟩
      rw [h.lines]
      exact List.mem_append_left _ (List.mem_append_right _ (List.mem_flatten_of_mem hps hmem))
    cases hpiece with
    | straight => simp at ht
    | label hop =>
      obtain rfl : t = .jump (.label i.label) := by simpa using ht
      rw [List.mem_singleton.mp hn]
      exact h.label_mem hi hop
    | branch hop =>
      obtain rfl : t = .jump (.label i.label) := by simpa using ht
      rw [List.mem_singleton.mp hn]
      exact hplaced (by rw [hop]; rfl)
    | @branchOn is c hop =>
      obtain rfl : t = .branch c (.label i.label) (.before (p + 1)) := by simpa using ht
      rcases List.mem_pair.mp hn with rfl | rfl
      · exact hplaced (by rcases hop with hop | hop <;> rw [hop] <;> rfl)
      · exact hnext (by simp)
    | @ret is x hop =>
      obtain rfl : t = .ret x := by simpa using ht
      cases hn
  · cases hn

end Listing

/-! ## The listing of an exported function -/

def slotsIn (ls : List Line) : List ValueId := ls.filterMap fun l => l.instr?.bind Instr.slot?

theorem slotsIn_append (ls ls' : List Line) : slotsIn (ls ++ ls') = slotsIn ls ++ slotsIn ls' :=
  List.filterMap_append

theorem slotsIn_instrs {is : List Instr} (h : ∀ x ∈ is, x.slot? = none) :
    slotsIn (is.map .instr) = [] := by
  rw [slotsIn, List.filterMap_map, List.filterMap_eq_nil_iff]
  exact h

theorem slotsIn_slots (slots : List (ValueId × LType)) :
    slotsIn (slots.map fun p => .instr (.slot p.1 p.2)) = slots.map Prod.fst := by
  rw [slotsIn, List.filterMap_map, ← List.filterMap_eq_map]
  rfl

theorem LowerM.Piece.slotsIn_eq {pc : Nat} {i : Insn} {ps : List Line} (h : Piece pc i ps) :
    slotsIn ps = [] := by
  cases h with
  | straight _ _ hslot => exact slotsIn_instrs hslot
  | label | branch => rfl
  | branchOn _ hslot | ret _ hslot => rw [slotsIn_append, slotsIn_instrs hslot]; rfl

theorem Listing.slotsIn_eq {f : Func} {pre : List Line} {pieces : List (List Line)}
    (h : Listing f pre pieces ls) : slotsIn ls = slotsIn pre := by
  have hpieces : slotsIn pieces.flatten = [] := by
    rw [slotsIn, List.filterMap_eq_nil_iff]
    intro l hl
    obtain ⟨ps, hps, hl⟩ := List.mem_flatten.mp hl
    obtain ⟨p, i, -, -, hpiece⟩ := h.piece_of_mem hps
    exact List.filterMap_eq_nil_iff.mp hpiece.slotsIn_eq l hl
  rw [h.lines, slotsIn_append, slotsIn_append, hpieces, List.append_nil]
  exact List.append_nil _

namespace LowerM

open Lowering

variable {s s₁ s₂ : Lowering} {sc : Scene} {own : String} {pc : Nat} {is : List Insn}
  {pieces : List (List Line)} {e : Engine} {f : Func} {o : Options} {name : String} {ret : LType}
  {params : List LType} {slots : List (ValueId × LType)}

theorem LowersAll.length_eq (h : LowersAll sc own pc is s pieces s₁) : pieces.length = is.length := by
  induction h with
  | nil => rfl
  | cons _ _ _ _ _ _ _ _ ih => exact congrArg (· + 1) ih

theorem LowersAll.piece (h : LowersAll sc own pc is s pieces s₁) {k : Nat} {i : Insn}
    (hi : is[k]? = some i) : ∃ ps, pieces[k]? = some ps ∧ Piece (pc + k) i ps := by
  induction h generalizing k with
  | nil => cases hi
  | cons _ _ _ _ _ hp _ _ ih =>
    cases k with
    | zero =>
      obtain rfl := Option.some.inj hi
      exact ⟨_, rfl, hp⟩
    | succ k =>
      obtain ⟨ps, hps, hpiece⟩ := ih hi
      exact ⟨ps, hps, by rwa [Nat.add_right_comm] at hpiece⟩

/-- What a successful export lists. -/
structure Exported.Lists (f : Func) (s₁ s₂ : Lowering) (slots : List (ValueId × LType))
    (pieces : List (List Line)) : Prop where
  listing : Listing f s₁.body.lines pieces s₂.closed.lines
  slots : slotsIn s₂.closed.lines = slots.map Prod.fst
  ended : ∀ b ∈ s₂.closed.listed, b.terminator.isSome

theorem Exported.lists (h : Exported e f o name s sc s₁ s₂ ret params slots pieces)
    (hs : s.current = 0) : Exported.Lists f s₁ s₂ slots pieces := by
  obtain ⟨es, hes, hgrowing⟩ := h.opened.growing hs
  have hall := h.lowered.growing hgrowing
  obtain ⟨hlines, hended, -⟩ := hall.closed
  have hlisting : Listing f s₁.body.lines pieces s₂.closed.lines := by
    rw [hgrowing.lines, hlines]
    refine ⟨rfl, fun t ht => ?_, h.lowered.length_eq, fun {p i} hi => ?_, ?_⟩
    · simp at ht
    · rw [← Array.getElem?_toList] at hi
      simpa using h.lowered.piece hi
    · rw [heads_append]
      exact (List.append_nil _).symm ▸ hall.nodup
  refine ⟨hlisting, ?_, hended⟩
  rw [hlisting.slotsIn_eq, hgrowing.lines, slotsIn_append, slotsIn_append, slotsIn_slots,
    slotsIn_instrs hes.noSlot, List.append_nil]
  rfl

end LowerM

/-! ## Names -/

theorem decimalNat_inj {a b : Nat} (h : Text.decimalNat a = Text.decimalNat b) : a = b := by
  have hdigits : Nat.toDigits 10 a = Nat.toDigits 10 b := String.ofList_injective h
  rw [← Nat.ofDigitChars_toDigits (n := a) (by decide : 1 < 10) (Nat.le_refl 10), hdigits,
    Nat.ofDigitChars_toDigits (by decide) (Nat.le_refl 10)]

/-- The names of the blocks and slots of a body, as they are written. -/
def Body.names (b : Body) : List String :=
  b.listed.map (fun k => "%" ++ k.name.text) ++ (slotsIn b.lines).map fun v => (Name.slot v).text

theorem BlockName.text_inj {a b : BlockName} (h : "%" ++ a.text = "%" ++ b.text) : a = b := by
  have hchars := congrArg String.toList h
  cases a <;> cases b <;> simp [BlockName.text] at hchars ⊢ <;>
    exact decimalNat_inj (String.toList_inj.mp hchars)

theorem Name.slot_inj {v w : ValueId} (h : (Name.slot v).text = (Name.slot w).text) : v = w := by
  have hchars := congrArg String.toList h
  simp [Name.text] at hchars
  exact decimalNat_inj (String.toList_inj.mp hchars)

theorem BlockName.text_ne_slot (n : BlockName) (v : ValueId) : "%" ++ n.text ≠ (Name.slot v).text := by
  intro h
  have hchars := congrArg String.toList h
  cases n <;> simp [BlockName.text, Name.text] at hchars

theorem Body.names_nodup {b : Body} (hblocks : (b.listed.map (·.name)).Nodup)
    (hslots : (slotsIn b.lines).Nodup) : b.names.Nodup := by
  refine List.nodup_append.mpr ⟨?_, ?_, ?_⟩
  · have := hblocks.map fun _ _ => BlockName.text_inj
    rwa [List.map_map] at this
  · exact hslots.map fun _ _ => Name.slot_inj
  · intro x hx y hy hxy
    obtain ⟨k, -, rfl⟩ := List.mem_map.mp hx
    obtain ⟨v, -, rfl⟩ := List.mem_map.mp hy
    exact k.name.text_ne_slot v hxy

/-! ## Exports -/

def Module.linesBefore (m : Module) (e : Engine) (f : Func) (o : Options) (p : Nat) : Nat :=
  ((do
    let sc ← LowerM.openFunction e f o (o.nameOf f)
    LowerM.lowerInsns sc 0 (f.insns.toList.take p) : LowerM Unit).run m.lowering :
      Except (Halt Problem) Unit × Lowering).2.body.lines.length

/-- The line where the lowering of an instruction begins: the first that it
adds, or for a label the head of its block. -/
def Module.lineOf (m : Module) (e : Engine) (f : Func) (o : Options) (p : Nat) : Nat :=
  m.linesBefore e f o p + ((f.insns[p]?).map fun i => entryOf i.op).getD 0

open Lowering LowerM in
theorem LowerM.Exported.lineOf_eq {m : Module} {e : Engine} {f : Func} {o : Options} {sc : Scene}
    {s₁ s₂ : Lowering} {ret : LType} {params : List LType} {slots : List (ValueId × LType)}
    {pieces : List (List Line)}
    (h : Exported e f o (o.nameOf f) m.lowering sc s₁ s₂ ret params slots pieces) (p : Nat) :
    m.lineOf e f o p = lineAt f s₁.body.lines pieces p := by
  obtain ⟨t, ht⟩ := h.lowered.take p
  obtain ⟨es, -, hgrowing⟩ := h.opened.growing rfl
  have hrun : ((do
      let sc ← openFunction e f o (o.nameOf f)
      lowerInsns sc 0 (f.insns.toList.take p) : LowerM Unit).run m.lowering :
        Except (Halt Problem) Unit × Lowering) = (.ok (), t) := by
    rw [run_bind, h.openRun]
    exact ht.run
  rw [Module.lineOf, Module.linesBefore, hrun, (ht.growing hgrowing).lines, ← hgrowing.lines]
  rfl

theorem target_placed {strict : Prop} {sc : TypedIR.Scope} {f : Func} (h : f.Typed sc)
    (hready : f.Ready strict sc) {p : Nat} {i : Insn} (hi : f.insns[p]? = some i)
    (hop : i.op.isBranch = true) :
    ∃ t, f.target? i = some t ∧ f.insns[t]? = some { op := .label, label := i.label } := by
  obtain ⟨t, ht⟩ := Option.isSome_iff_exists.mp (hready.placed i (Array.mem_of_getElem? hi) hop)
  refine ⟨t, ht, ?_⟩
  unfold Func.target? at ht
  split at ht
  · next pos hpos =>
    by_cases hneg : pos < 0
    · rw [if_pos hneg] at ht
      cases ht
    · rw [if_neg hneg] at ht
      obtain rfl := Option.some.inj ht
      exact h.label hpos (Int.not_lt.mp hneg)
  · cases ht

/-- The body `b` has the control flow of the stream of `f`. Its blocks have one
end each, its blocks and slots have different names, the blocks that ends name
and those of placed labels are listed once, and control passes from where the
lowering of an instruction begins to where that of another does exactly if the
second is a successor of the first. -/
structure FlowsAs (m : Module) (e : Engine) (o : Options) (f : Func) (b : Body) : Prop where
  ended : ∀ k ∈ b.listed, k.terminator.isSome
  names : b.names.Nodup
  targets : ∀ k ∈ b.listed, ∀ t, k.terminator = some t → ∀ n ∈ t.targets,
    (b.listed.map (·.name)).count n = 1
  labels : ∀ l pos, f.label? l = some pos → 0 ≤ pos → (b.listed.map (·.name)).count (.label l) = 1
  passes : ∀ p q i, f.insns[p]? = some i → q < f.insns.size →
    (Passes b.lines (fun a => ∃ r < f.insns.size, a = m.lineOf e f o r) (m.lineOf e f o p)
      (m.lineOf e f o q) ↔ q ∈ f.successors p i)

/-- An exported function has the control flow of the stream. -/
theorem exported_flow {target : Target} {e : Engine} {m m' : Module} {fn : FuncId} {o : Options}
    (he : e.Built target) (h : m.addFunction e fn o = (.ok (), m')) :
    ∃ f g b, e.findFunc fn = .ok f ∧ m'.functions[m.functions.size]? = some g ∧ g.body = some b ∧
      FlowsAs m e o f b := by
  obtain ⟨f, sc, s₁, s₂, ret, params, slots, pieces, hf, hcompiled, hexp, rfl⟩ := exported_of_ok he h
  have hft := he.typed.func (EngineM.findFunc_ok hf).1
  have htarget := fun {p i} => target_placed (p := p) (i := i) hft
    (he.typed.ready (EngineM.findFunc_ok hf).1 hcompiled)
  obtain ⟨hlisting, hslots, hended⟩ := hexp.lists rfl
  have hheads : s₂.closed.listed.map (·.name) = heads s₂.closed.lines := (heads_blocks _).symm
  have hcount : ∀ {n}, n ∈ heads s₂.closed.lines → (s₂.closed.listed.map (·.name)).count n = 1 :=
    fun hn => hheads ▸ List.count_eq_one_of_mem hlisting.nodup hn
  refine ⟨f, _, _, hf, hexp.defined rfl, rfl, hended, ?_, ?_, ?_, ?_⟩
  · exact Body.names_nodup (hheads ▸ hlisting.nodup) (hslots ▸ hexp.opened.holds.nodup)
  · intro k hk t ht n hn
    refine hcount (hlisting.target_mem (fun p i hi hop => ?_) (t := t) ?_ hn)
    · obtain ⟨t, -, ht⟩ := htarget hi hop
      exact ⟨t, ht⟩
    · exact List.mem_flatMap.mpr ⟨k, hk, by simp [Block.lines, ht]⟩
  · intro l pos hl hpos
    exact hcount (hlisting.label_mem (i := { op := .label, label := l }) (hft.label hl hpos) rfl)
  · intro p q i hi hq
    simp only [hexp.lineOf_eq]
    exact hlisting.passes_iff_successor hi (htarget hi) hq

def countdown : Engine :=
  (Engine.create .i386 0 0 (.seeded 1) 0).after
    [.createContext, .buildStart 1, .signatureType 0 Builtin.int32.id [Builtin.int32.id],
      .createFunction 1 18 "countdown", .constInt 1 Builtin.int32.id 1, .newLabel 1, .newLabel 1,
      .placeLabel 1 1, .branchIfNot 1 1 2, .binary 1 Opcode.sub.code 1 2, .store 1 1 3,
      .branch 1 1, .placeLabel 1 2, .ret 1 1, .compile 1]

theorem countdown_flow :
    ∃ m' f g b, ({} : Module).addFunction countdown 1 {} = (.ok (), m') ∧
      countdown.findFunc 1 = .ok f ∧ f.insns.size = 7 ∧ m'.functions[0]? = some g ∧
      g.body = some b ∧ FlowsAs {} countdown {} f b := by
  have hok : (({} : Module).addFunction countdown 1 {}).1.isOk = true := by decide +kernel
  have hsize : (countdown.findFunc 1).toOption.map (·.insns.size) = some 7 := by decide +kernel
  rcases hrun : ({} : Module).addFunction countdown 1 {} with ⟨_ | ⟨⟩, m'⟩
  · rw [hrun] at hok
    cases hok
  · have hbuilt : countdown.Built .i386 := ⟨_, _, _, _, _, rfl⟩
    obtain ⟨f, g, b, hf, hg, hb, hflow⟩ := exported_flow hbuilt hrun
    rw [hf] at hsize
    exact ⟨m', f, g, b, rfl, hf, Option.some.inj hsize, hg, hb, hflow⟩

end TypedIR.Llvm
