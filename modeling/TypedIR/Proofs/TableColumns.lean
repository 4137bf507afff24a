import Mathlib
import TypedIR.Console.Table
import TypedIR.Proofs.TextLines

/-
  The columns of tables.

  Columns of a terminal are counted by clusters of characters, so the columns of two texts
  are not in general those of the one text that they make: a mark goes onto whatever is
  before it. They add up where a cluster ends (`Cutting.Ends`), which is so before a space,
  unless a leading character is there, and after it, unless a mark is (`Freestanding`).

  What is proved (`aligned_iff`): a table is printed exactly if no row has more than one
  cell more than the header. Then it has a line for the header and for each row, and cell
  `i` of each starts where the widest cells of the columns before it end, with two spaces
  after each, but for spaces at the end of a line, which are dropped. Only columns of the
  header get a width: a longer row is looked up outside of the widths, and there is no
  table (`long_row_not_printed`).
-/

namespace TypedIR

namespace Text

/-! ## Columns that add up -/

namespace Cutting

def read (t : Cutting) (cs : List Char) : Cutting := cs.foldl push t

def columns (t : Cutting) : Nat :=
  (t.complete.map clusterColumns).sum + if t.seam.isNone then 0 else clusterColumns t.current.reverse

/-- The open cluster ends before a text: there is none, there is no text, or its first
character is not kept. -/
def Ends (t : Cutting) (cs : List Char) : Prop :=
  ∀ s ∈ t.seam, ∀ c ∈ cs.head?, s.keeps (.of c) = false

def after (t : Cutting) (before : List (List Char)) : Cutting :=
  { t with complete := t.complete ++ before }

theorem push_after (t : Cutting) (before : List (List Char)) (c : Char) :
    (t.after before).push c = (t.push c).after before := by
  simp only [push, after]
  split
  · rfl
  · split <;> rfl

theorem read_after (t : Cutting) (before : List (List Char)) (cs : List Char) :
    (t.after before).read cs = (t.read cs).after before := by
  induction cs generalizing t with
  | nil => rfl
  | cons c cs ih => exact (congrArg (·.read cs) (push_after t before c)).trans (ih _)

theorem columns_after (t : Cutting) (before : List (List Char)) :
    (t.after before).columns = (before.map clusterColumns).sum + t.columns := by
  rw [columns, columns, after, List.map_append, List.sum_append]
  cases t.seam
  · simp only [Option.isNone_none, if_true]
    omega
  · simp only [Option.isNone_some, Bool.false_eq_true, if_false]
    omega

theorem columns_read {t : Cutting} {cs : List Char} (h : t.Ends cs) :
    (t.read cs).columns = t.columns + (({} : Cutting).read cs).columns := by
  cases cs with
  | nil => rfl
  | cons c cs =>
    let before := if t.seam.isNone then t.complete else t.current.reverse :: t.complete
    have hpush : t.push c = (({} : Cutting).push c).after before := by
      cases hs : t.seam with
      | none => simp [push, after, before, hs]
      | some s => simp [push, after, before, hs, h s hs c rfl]
    have hbefore : (before.map clusterColumns).sum = t.columns := by
      cases hs : t.seam with
      | none => simp [columns, before, hs]
      | some s =>
        simp only [columns, before, hs, Option.isNone_some, Bool.false_eq_true, if_false,
          List.map_cons, List.sum_cons]
        omega
    calc (t.read (c :: cs)).columns
        = ((t.push c).read cs).columns := rfl
      _ = (before.map clusterColumns).sum + (({} : Cutting).read (c :: cs)).columns := by
          rw [hpush, read_after, columns_after]
          rfl
      _ = t.columns + (({} : Cutting).read (c :: cs)).columns := by rw [hbefore]

end Cutting

theorem columns_eq (s : String) : columns s = (({} : Cutting).read s.toList).columns := by
  have hsum (cs : List (List Char)) (n : Nat) :
      cs.foldl (fun n cs => n + clusterColumns cs) n = n + (cs.map clusterColumns).sum := by
    induction cs generalizing n with
    | nil => rfl
    | cons c cs ih =>
      rw [List.foldl_cons, ih, List.map_cons, List.sum_cons]
      omega
  have hclusters : clusters s = (if (({} : Cutting).read s.toList).seam.isNone then
      (({} : Cutting).read s.toList).complete
    else (({} : Cutting).read s.toList).current.reverse ::
      (({} : Cutting).read s.toList).complete).reverse := rfl
  rw [columns, hsum, hclusters, Cutting.columns, List.map_reverse, List.sum_reverse]
  cases (({} : Cutting).read s.toList).seam with
  | none => simp
  | some seam =>
    simp only [Option.isNone_some, Bool.false_eq_true, if_false, List.map_cons, List.sum_cons]
    omega

theorem columns_append {a b : String} (h : (({} : Cutting).read a.toList).Ends b.toList) :
    columns (a ++ b) = columns a + columns b := by
  rw [columns_eq, columns_eq a, columns_eq b, String.toList_append]
  rw [← Cutting.columns_read h, Cutting.read, List.foldl_append]
  rfl

/-! ## Texts between spaces -/

/-- A text does not reach beyond its ends: its first character goes onto no character
before it, and no character goes onto its last one. -/
structure Freestanding (s : String) : Prop where
  first : ∀ c ∈ s.toList.head?, ClusterClass.of c ∉ [.mark, .joiner, .spacing]
  last : ∀ c ∈ s.toList.getLast?, ClusterClass.of c ≠ .leading

namespace Cutting

theorem seam_read {cs : List Char} {s : Seam} (h : (({} : Cutting).read cs).seam = some s) :
    ∃ c, cs.getLast? = some c ∧ s.last = .of c ∧ (s.joined → ClusterClass.of c = .joiner) := by
  rcases List.eq_nil_or_concat cs with rfl | ⟨before, c, rfl⟩
  · exact absurd h (by simp [read])
  · refine ⟨c, by simp, ?_⟩
    rw [read, List.concat_eq_append, List.foldl_append] at h
    simp only [List.foldl_cons, List.foldl_nil, push] at h
    split at h
    · cases h
      exact ⟨rfl, fun hjoined => absurd hjoined (by simp [Seam.first])⟩
    · split at h <;> cases h
      · refine ⟨rfl, fun hjoined => ?_⟩
        simp only [Seam.next, Bool.and_eq_true, decide_eq_true_eq] at hjoined
        exact hjoined.1
      · exact ⟨rfl, fun hjoined => absurd hjoined (by simp [Seam.first])⟩

theorem ends_space {s rest : List Char} (hlast : ∀ c ∈ s.getLast?, ClusterClass.of c ≠ .leading) :
    (({} : Cutting).read s).Ends (' ' :: rest) := by
  intro seam hseam c hc
  obtain ⟨d, hd, hclass, -⟩ := seam_read hseam
  have hfree : seam.last ≠ .leading := hclass ▸ hlast d hd
  obtain rfl : ' ' = c := by simpa using hc
  rw [show ClusterClass.of ' ' = .other from rfl]
  unfold Seam.keeps
  revert hfree
  cases seam.last <;> simp

theorem ends_after_space {s b : List Char} (hspace : s = [] ∨ s.getLast? = some ' ')
    (hfirst : ∀ c ∈ b.head?, ClusterClass.of c ∉ [.mark, .joiner, .spacing]) :
    (({} : Cutting).read s).Ends b := by
  intro seam hseam c hc
  obtain ⟨d, hd, hclass, hjoined⟩ := seam_read hseam
  obtain rfl : d = ' ' := by
    rcases hspace with rfl | hspace
    · exact absurd hd (by simp)
    · rw [hspace] at hd
      exact (Option.some.inj hd).symm
  have hother : seam.last = .other := hclass
  have hapart : seam.joined = false := by
    rw [Bool.eq_false_iff]
    exact fun h => absurd (hjoined h) (by decide)
  have hfirst := hfirst c hc
  unfold Seam.keeps
  rw [hother, hapart]
  revert hfirst
  cases ClusterClass.of c <;> simp

end Cutting

theorem columns_repeated (n : Nat) : columns (repeated n ' ') = n := by
  induction n with
  | zero => decide
  | succ n ih =>
    have hsplit : repeated (n + 1) ' ' = " " ++ repeated n ' ' := by
      apply String.toList_injective
      simp [repeated, List.replicate_succ]
    have hends : (({} : Cutting).read " ".toList).Ends (repeated n ' ').toList := by
      refine Cutting.ends_after_space (.inr (by decide)) fun c hc => ?_
      have hspace : c = ' ' := by
        have hmem := List.mem_of_mem_head? hc
        simp only [repeated, String.toList_ofList] at hmem
        exact List.eq_of_mem_replicate hmem
      rw [hspace]
      decide
    rw [hsplit, columns_append hends, ih, show columns " " = 1 by decide]
    omega

theorem columns_spaced {s : String} (n : Nat)
    (hlast : ∀ c ∈ s.toList.getLast?, ClusterClass.of c ≠ .leading) :
    columns (s ++ repeated n ' ') = columns s + n := by
  rw [columns_append, columns_repeated]
  cases n with
  | zero => exact fun seam _ c hc => absurd hc (by simp [repeated])
  | succ n =>
    rw [repeated, String.toList_ofList, List.replicate_succ]
    exact Cutting.ends_space hlast

/-- The text is made of parts with so many columns together. -/
def Measures (s : String) (n : Nat) : Prop :=
  ∃ parts : List String, String.join parts = s ∧ (parts.map columns).sum = n

end Text

namespace Console

open Text

def widest (header : List String) (rows : List (List String)) (j : Nat) : Nat :=
  ((header :: rows).map fun row => columns (row.getD j "")).foldl max 0

/-- Where column `i` starts: behind the columns before it, with two spaces after each. -/
def columnStart (widths : Nat → Nat) (i : Nat) : Nat :=
  ((List.range i).map fun j => widths j + 2).sum

/-- Cells side by side: each but the last is filled up with spaces to where the next one
starts. -/
def laidOut : (Nat → Nat) → List String → String
  | _, [] => ""
  | _, [last] => last
  | widths, cell :: rest =>
    cell ++ repeated (widths 0 + 2 - columns cell) ' ' ++ laidOut (fun j => widths (j + 1)) rest

/-- The line shows the cells, each where its column starts, without spaces at its end. What
is before a cell takes the columns up to there if the columns of its parts add up, and so it
does if no cell before reaches beyond its ends. -/
def Aligned (widths : Nat → Nat) (cells : List String) (line : String) : Prop :=
  line = dropEndSpaces (laidOut widths cells) ∧ ∀ i cell, cells[i]? = some cell →
    ∃ before after, laidOut widths cells = before ++ cell ++ after ∧
      Measures before (columnStart widths i) ∧
      ((∀ c ∈ cells.take i, Freestanding c) → columns before = columnStart widths i)

/-! ## Lines -/

theorem columnStart_succ (widths : Nat → Nat) (i : Nat) :
    columnStart widths (i + 1) = widths 0 + 2 + columnStart (fun j => widths (j + 1)) i := by
  simp [columnStart, List.range_succ_eq_map, Function.comp_def]

theorem isSome_lineCells (widths : List Nat) (f : String → String) (cells : List String) (i : Nat)
    (hi : i ≤ widths.length) :
    (lineCells widths f i cells).isSome ↔ i + cells.length ≤ widths.length + 1 := by
  induction cells generalizing i with
  | nil =>
    simp only [lineCells, Option.isSome_some, List.length_nil, true_iff]
    omega
  | cons cell rest ih =>
    cases rest with
    | nil =>
      simp only [lineCells, Option.isSome_some, List.length_cons, List.length_nil, true_iff]
      omega
    | cons next rest =>
      by_cases hlt : i < widths.length
      · have hrest := ih (i + 1) hlt
        rw [List.length_cons, ← Nat.add_assoc, Nat.add_right_comm, ← hrest]
        cases hcells : lineCells widths f (i + 1) (next :: rest) <;>
          simp [lineCells, hlt, hcells]
      · simp only [lineCells, List.getElem?_eq_none (Nat.not_lt.1 hlt), Option.bind_eq_bind,
          Option.bind_none, Option.isSome_none, Bool.false_eq_true, List.length_cons, false_iff]
        omega

theorem length_lineCells {widths : List Nat} {f : String → String} {cells parts : List String}
    {i : Nat} (h : lineCells widths f i cells = some parts) : parts.length = cells.length := by
  induction cells generalizing i parts with
  | nil =>
    cases h
    rfl
  | cons cell rest ih =>
    cases rest with
    | nil =>
      cases h
      rfl
    | cons next rest =>
      obtain ⟨w, -, h⟩ := Option.bind_eq_some_iff.1 h
      obtain ⟨parts', hparts, h⟩ := Option.bind_eq_some_iff.1 h
      cases h
      simp [ih hparts]

theorem filled_eq {w : Nat} {cell : String} (hw : columns cell ≤ w) :
    fillColumns w cell ++ "  " = cell ++ repeated (w + 2 - columns cell) ' ' := by
  have htwo : "  ".toList = List.replicate 2 ' ' := by decide
  apply String.toList_injective
  simp only [fillColumns, repeated, String.toList_append, String.toList_ofList, htwo,
    List.append_assoc, List.replicate_append_replicate, Nat.sub_add_comm hw]

theorem intercalate_lineCells {widths : Nat → Nat} {ws : List Nat} {cells parts : List String}
    {i : Nat} (hws : ∀ j w, ws[i + j]? = some w → w = widths j)
    (hwide : ∀ j cell, cells[j]? = some cell → columns cell ≤ widths j)
    (hparts : lineCells ws id i cells = some parts) :
    "  ".intercalate parts = laidOut widths cells := by
  induction cells generalizing i parts widths with
  | nil =>
    cases hparts
    rfl
  | cons first rest ih =>
    cases rest with
    | nil =>
      cases hparts
      simp [laidOut]
    | cons next rest =>
      obtain ⟨w, hw, hparts⟩ := Option.bind_eq_some_iff.1 hparts
      obtain ⟨parts', hparts', hparts⟩ := Option.bind_eq_some_iff.1 hparts
      cases hparts
      obtain rfl : w = widths 0 := hws 0 w hw
      have hrest : "  ".intercalate parts' = laidOut (fun j => widths (j + 1)) (next :: rest) :=
        ih (fun j w hj => hws (j + 1) w (by rwa [Nat.add_assoc, Nat.add_comm 1 j] at hj))
          (fun j cell hj => hwide (j + 1) cell hj) hparts'
      obtain ⟨p, ps, rfl⟩ := List.exists_cons_of_length_pos
        (by simp [length_lineCells hparts'] : 0 < parts'.length)
      rw [String.intercalate_cons_cons, hrest, id, filled_eq (hwide 0 first rfl)]
      rfl

theorem head?_spaced {cell rest : String} (hcell : Freestanding cell) (n : Nat) :
    ∀ c ∈ (cell ++ repeated (n + 1) ' ' ++ rest).toList.head?,
      ClusterClass.of c ∉ [.mark, .joiner, .spacing] := by
  intro c hc
  simp only [String.toList_append, repeated, String.toList_ofList, List.replicate_succ] at hc
  cases hchars : cell.toList with
  | nil =>
    obtain rfl : ' ' = c := by simpa [hchars] using hc
    decide
  | cons first chars =>
    obtain rfl : first = c := by simpa [hchars] using hc
    exact hcell.first first (by simp [hchars])

theorem laidOut_cell {widths : Nat → Nat} {cells : List String} {k : Nat} {cell : String}
    (hwide : ∀ j cell, cells[j]? = some cell → columns cell ≤ widths j)
    (hcell : cells[k]? = some cell) :
    ∃ before after, laidOut widths cells = before ++ cell ++ after ∧
      Measures before (columnStart widths k) ∧
      ((∀ c ∈ cells.take k, Freestanding c) → columns before = columnStart widths k ∧
        ∀ c ∈ before.toList.head?, ClusterClass.of c ∉ [.mark, .joiner, .spacing]) := by
  induction cells generalizing k widths with
  | nil => exact absurd hcell (by simp)
  | cons first rest ih =>
    cases k with
    | zero =>
      obtain rfl : first = cell := by simpa using hcell
      obtain ⟨after, hline⟩ : ∃ after, laidOut widths (first :: rest) = first ++ after := by
        cases rest with
        | nil => exact ⟨"", by simp [laidOut]⟩
        | cons next rest => exact ⟨_, String.append_assoc⟩
      exact ⟨"", after, by simpa using hline, ⟨[], rfl, rfl⟩, fun _ => ⟨rfl, by simp⟩⟩
    | succ k =>
      obtain ⟨next, others, rfl⟩ : ∃ next others, rest = next :: others := by
        cases rest with
        | nil => exact absurd hcell (by simp)
        | cons next others => exact ⟨next, others, rfl⟩
      have hfirst : columns first ≤ widths 0 := hwide 0 first rfl
      obtain ⟨n, hn⟩ : ∃ n, widths 0 + 2 - columns first = n + 1 :=
        ⟨widths 0 + 1 - columns first, by omega⟩
      have hnarrow : ∀ j cell, (next :: others)[j]? = some cell → columns cell ≤ widths (j + 1) :=
        fun j cell hj => hwide (j + 1) cell hj
      obtain ⟨before, after, hrest, hsum, hcolumns⟩ := ih hnarrow hcell
      refine ⟨first ++ repeated (n + 1) ' ' ++ before, after, ?_, ?_, fun hfree => ?_⟩
      · rw [laidOut, hrest, hn]
        · simp only [String.append_assoc]
        · simp
      · obtain ⟨ps, hjoin, hps⟩ := hsum
        refine ⟨first :: repeated (n + 1) ' ' :: ps, ?_, ?_⟩
        · rw [String.join_cons, String.join_cons, hjoin, String.append_assoc]
        · rw [List.map_cons, List.map_cons, List.sum_cons, List.sum_cons, columns_repeated, hps,
            columnStart_succ]
          omega
      · rw [List.take_succ_cons, List.forall_mem_cons] at hfree
        obtain ⟨hcolumns, hhead⟩ := hcolumns hfree.2
        have hspace : (first ++ repeated (n + 1) ' ').toList.getLast? = some ' ' := by
          simp [repeated, List.getLast?_append, List.getLast?_replicate]
        refine ⟨?_, head?_spaced hfree.1 n⟩
        rw [columns_append (Cutting.ends_after_space (.inr hspace) hhead),
          columns_spaced _ hfree.1.last, hcolumns, columnStart_succ]
        omega

theorem oneLine_lineCells {widths : List Nat} {cells parts : List String} {i : Nat}
    (hcells : ∀ cell ∈ cells, OneLine cell) (h : lineCells widths id i cells = some parts) :
    ∀ part ∈ parts, OneLine part := by
  induction cells generalizing i parts with
  | nil =>
    cases h
    simp
  | cons cell rest ih =>
    obtain ⟨hcell, hrest⟩ := List.forall_mem_cons.1 hcells
    cases rest with
    | nil =>
      cases h
      simpa using hcell
    | cons next rest =>
      obtain ⟨w, -, h⟩ := Option.bind_eq_some_iff.1 h
      obtain ⟨parts', hparts, h⟩ := Option.bind_eq_some_iff.1 h
      cases h
      refine List.forall_mem_cons.2 ⟨?_, ih hrest hparts⟩
      simp [fillColumns, hcell, oneLine_ofList]

theorem oneLine_dropEndSpaces {s : String} (h : OneLine s) : OneLine (dropEndSpaces s) := by
  rw [dropEndSpaces, oneLine_ofList, List.mem_reverse]
  intro hbreak
  exact h (List.mem_reverse.1 ((List.dropWhile_suffix _).subset hbreak))

/-! ## Tables -/

section

variable {header : List String} {rows : List (List String)}

theorem le_foldl_max {l : List Nat} {a n : Nat} (h : n ≤ a ∨ n ∈ l) : n ≤ l.foldl max a := by
  induction l generalizing a with
  | nil => simpa using h
  | cons b l ih =>
    refine ih ?_
    rcases h with h | h
    · exact .inl (by omega)
    · rcases List.mem_cons.1 h with rfl | h
      · exact .inl (by omega)
      · exact .inr h

theorem le_widest {row : List String} (hrow : row ∈ header :: rows) {j : Nat} {cell : String}
    (hcell : row[j]? = some cell) : columns cell ≤ widest header rows j := by
  refine le_foldl_max (.inr (List.mem_map.2 ⟨row, hrow, ?_⟩))
  rw [List.getD_eq_getElem?_getD, hcell, Option.getD_some]

theorem length_columnWidths : (columnWidths header rows).length = header.length := by
  simp [columnWidths]

theorem columnWidths_getElem? {j w : Nat} (h : (columnWidths header rows)[j]? = some w) :
    w = widest header rows j := by
  simp only [columnWidths, List.getElem?_map, List.getElem?_zipIdx, Option.map_eq_some_iff] at h
  obtain ⟨⟨_, _⟩, ⟨cell, hcell, heq⟩, rfl⟩ := h
  cases heq
  simp [widest, List.foldl_map, hcell]

theorem tableLine_aligned {row : List String} (hrow : row ∈ header :: rows)
    (hlength : row.length ≤ header.length + 1) (hcells : ∀ cell ∈ row, OneLine cell) :
    ∃ line, tableLine (columnWidths header rows) id row = some (line ++ "\n") ∧
      OneLine line ∧ Aligned (widest header rows) row line := by
  have hsome : (lineCells (columnWidths header rows) id 0 row).isSome := by
    rw [isSome_lineCells _ _ _ _ (Nat.zero_le _), length_columnWidths]
    omega
  obtain ⟨parts, hparts⟩ := Option.isSome_iff_exists.1 hsome
  have hwide (j : Nat) (cell : String) (hj : row[j]? = some cell) :
      columns cell ≤ widest header rows j := le_widest hrow hj
  have hline : "  ".intercalate parts = laidOut (widest header rows) row :=
    intercalate_lineCells (fun j w hj => columnWidths_getElem? (by rwa [Nat.zero_add] at hj))
      hwide hparts
  refine ⟨dropEndSpaces ("  ".intercalate parts), ?_, ?_, by rw [hline], fun i cell hcell => ?_⟩
  · simp [tableLine, hparts]
  · exact oneLine_dropEndSpaces
      ((oneLine_intercalate (by decide) _).2 (oneLine_lineCells hcells hparts))
  · obtain ⟨before, after, hbefore, hsum, hcolumns⟩ := laidOut_cell hwide hcell
    exact ⟨before, after, hbefore, hsum, fun hfree => (hcolumns hfree).1⟩

theorem mapM_lines {f : List String → Option String} {P : List String → String → Prop}
    (h : ∀ row ∈ rows, ∃ line, f row = some (line ++ "\n") ∧ P row line) :
    ∃ lines : List String, rows.mapM f = some (lines.map (· ++ "\n")) ∧ List.Forall₂ P rows lines := by
  induction rows with
  | nil => exact ⟨[], rfl, .nil⟩
  | cons row rows ih =>
    obtain ⟨⟨line, hline, hrow⟩, hrest⟩ := List.forall_mem_cons.1 h
    obtain ⟨lines, hlines, hrows⟩ := ih hrest
    exact ⟨line :: lines, by simp [List.mapM_cons, hline, hlines], .cons hrow hrows⟩

theorem isSome_of_mapM {f : List String → Option String} {lines : List String}
    (h : rows.mapM f = some lines) : ∀ row ∈ rows, (f row).isSome := by
  induction rows generalizing lines with
  | nil => simp
  | cons row rows ih =>
    rw [List.mapM_cons] at h
    obtain ⟨line, hline, h⟩ := Option.bind_eq_some_iff.1 h
    obtain ⟨rest, hrest, -⟩ := Option.bind_eq_some_iff.1 h
    exact List.forall_mem_cons.2 ⟨by simp [hline], ih hrest⟩

end

/-- Without colour, a table of cells without line breaks is printed exactly if no row has
more than one cell more than the header. It has one line for the header and one for each
row, in order, and the cells of each are where their columns start. -/
theorem aligned_iff (header : List String) (rows : List (List String))
    (hcells : ∀ row ∈ header :: rows, ∀ cell ∈ row, OneLine cell) :
    (∃ lines : List String,
      tableText? false header rows = some (String.join (lines.map (· ++ "\n"))) ∧
      List.Forall₂ (fun row line => OneLine line ∧ Aligned (widest header rows) row line)
        (header :: rows) lines) ↔
    ∀ row ∈ rows, row.length ≤ header.length + 1 := by
  constructor
  · rintro ⟨lines, htext, -⟩ row hrow
    obtain ⟨first, -, htext⟩ := Option.bind_eq_some_iff.1 htext
    obtain ⟨others, hothers, -⟩ := Option.bind_eq_some_iff.1 htext
    obtain ⟨line, hline⟩ := Option.isSome_iff_exists.1 (isSome_of_mapM hothers row hrow)
    obtain ⟨parts, hparts, -⟩ := Option.bind_eq_some_iff.1 hline
    have hlength := (isSome_lineCells (columnWidths header rows) id row 0 (Nat.zero_le _)).1
      (Option.isSome_of_eq_some hparts)
    rwa [length_columnWidths, Nat.zero_add] at hlength
  · intro hrows
    have hprinted : ∀ row ∈ header :: rows, ∃ line,
        tableLine (columnWidths header rows) id row = some (line ++ "\n") ∧
          OneLine line ∧ Aligned (widest header rows) row line := fun row hrow => by
      refine tableLine_aligned hrow ?_ (hcells row hrow)
      rcases List.mem_cons.1 hrow with rfl | hrow
      · omega
      · exact hrows row hrow
    obtain ⟨⟨first, hfirst, hheader⟩, hrest⟩ := List.forall_mem_cons.1 hprinted
    obtain ⟨lines, hlines, hall⟩ := mapM_lines hrest
    refine ⟨first :: lines, ?_, .cons hheader hall⟩
    have hplain : paint false [.bold] = id := rfl
    simp [tableText?, hplain, hfirst, hlines]

/-- A table with rows that are shorter and longer than its header. -/
theorem ragged_rows_aligned :
    (∀ row ∈ [["name", "n"], ["a"], ["béta", "10", "x"], []], ∀ cell ∈ row, OneLine cell) ∧
    ∃ lines : List String,
      tableText? false ["name", "n"] [["a"], ["béta", "10", "x"], []] =
        some (String.join (lines.map (· ++ "\n"))) ∧
      List.Forall₂ (fun row line => OneLine line ∧
          Aligned (widest ["name", "n"] [["a"], ["béta", "10", "x"], []]) row line)
        [["name", "n"], ["a"], ["béta", "10", "x"], []] lines :=
  ⟨by decide, (aligned_iff _ _ (by decide)).2 (by decide)⟩

/-- A row with two cells more than the header has. -/
theorem long_row_not_printed : tableText? false ["a"] [["b", "c", "d"]] = none := by
  decide

end Console

end TypedIR
