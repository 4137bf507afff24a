import TypedIR.Text.Json

/-
  Texts as lines.

  A text is some number of lines if each of them has a line break at its end and none
  before (`IsLines`). Texts that end with a line break make as many lines as there are
  texts exactly if each of them is one line (`isLines_join`). Numerals and JSON never
  have a line break in them.
-/

namespace TypedIR

namespace Text

/-- There is no line break in the text. -/
def OneLine (s : String) : Prop := '\n' ∉ s.toList

instance (s : String) : Decidable (OneLine s) := inferInstanceAs (Decidable ('\n' ∉ s.toList))

/-- The text is so many lines, each with a break at its end. -/
def IsLines (s : String) (k : Nat) : Prop :=
  ∃ lines : List String, lines.length = k ∧ (∀ l ∈ lines, OneLine l) ∧
    s = String.join (lines.map (· ++ "\n"))

/-! ## Texts without a line break -/

@[simp]
theorem oneLine_append {a b : String} : OneLine (a ++ b) ↔ OneLine a ∧ OneLine b := by
  simp [OneLine]

theorem oneLine_ofList {cs : List Char} : OneLine (String.ofList cs) ↔ '\n' ∉ cs := by
  simp [OneLine]

theorem oneLine_join {l : List String} : OneLine (String.join l) ↔ ∀ s ∈ l, OneLine s := by
  simp [OneLine, String.toList_join]

theorem oneLine_intercalate {sep : String} (hsep : OneLine sep) (l : List String) :
    OneLine (sep.intercalate l) ↔ ∀ s ∈ l, OneLine s := by
  simp only [OneLine, String.toList_intercalate] at hsep ⊢
  induction l with
  | nil => simp
  | cons s rest ih =>
    cases rest with
    | nil => simp
    | cons next rest =>
      rw [List.map_cons, List.map_cons, List.intercalate_cons_cons, ← List.map_cons]
      simp only [List.mem_append, not_or, ih, hsep, List.forall_mem_cons, not_false_iff, and_true]

theorem oneLine_decimalNat (n : Nat) : OneLine (decimalNat n) := by
  rw [decimalNat, oneLine_ofList]
  intro hbreak
  have hdigit := Nat.isDigit_of_mem_toDigits (by decide) (by decide) hbreak
  revert hdigit
  decide

theorem oneLine_padRight {width : Nat} {s : String} : OneLine (padRight width s) ↔ OneLine s := by
  simp [padRight, repeated, oneLine_ofList]

/-! ## JSON -/

/-- Controls are escaped, and of them the line break has an escape of its own. -/
theorem oneLine_jsonChar (c : Char) : OneLine (jsonChar c) := by
  have hcontrols : ∀ n < 0x20, OneLine (padLeft 4 '0' (hexNat n)) := by decide
  unfold jsonChar
  split
  case h_8 hbreak _ _ =>
    split
    · rename_i hescaped
      simp only [Bool.or_eq_true, decide_eq_true_eq, beq_iff_eq, or_assoc] at hescaped
      rcases hescaped with hcontrol | hmark | hmark | hmark | hmark | hmark
      · exact oneLine_append.2 ⟨by decide, hcontrols _ hcontrol⟩
      all_goals
        rw [hmark]
        decide
    · simp only [OneLine, String.toList_singleton, List.mem_singleton]
      rintro rfl
      exact hbreak rfl
  all_goals decide

theorem oneLine_jsonString (s : String) : OneLine (jsonString s) := by
  have hchars : OneLine (String.join (s.toList.map jsonChar)) := by
    rw [oneLine_join]
    intro t ht
    obtain ⟨c, -, rfl⟩ := List.mem_map.1 ht
    exact oneLine_jsonChar c
  have hquote : OneLine "\"" := by decide
  simp [jsonString, hchars, hquote]

theorem oneLine_jsonObject {members : List (String × String)} (h : ∀ m ∈ members, OneLine m.2) :
    OneLine (jsonObject members) := by
  have hmembers : OneLine (String.intercalate ","
      (members.map fun m => jsonString m.1 ++ ":" ++ m.2)) := by
    rw [oneLine_intercalate (by decide)]
    intro t ht
    obtain ⟨m, hm, rfl⟩ := List.mem_map.1 ht
    have hcolon : OneLine ":" := by decide
    simp [oneLine_jsonString, hcolon, h m hm]
  have hopened : OneLine "\x7b" := by decide
  have hclosed : OneLine "\x7d" := by decide
  simp [jsonObject, hmembers, hopened, hclosed]

/-! ## Lines -/

theorem count_breaks (texts : List String) :
    (String.join (texts.map (· ++ "\n"))).toList.count '\n' =
      (String.join texts).toList.count '\n' + texts.length := by
  have hbreak : "\n".toList = ['\n'] := by decide
  induction texts with
  | nil => simp
  | cons s rest ih =>
    simp only [List.map_cons, String.join_cons, String.toList_append, List.count_append, hbreak,
      List.count_singleton_self, ih, List.length_cons]
    omega

/-- Texts that each end with a line break are as many lines as they are exactly if each of
them is one: otherwise there are more line breaks than texts. -/
theorem isLines_join {texts : List String} :
    IsLines (String.join (texts.map (· ++ "\n"))) texts.length ↔ ∀ s ∈ texts, OneLine s := by
  refine ⟨fun ⟨lines, hlength, hlines, htext⟩ => ?_, fun h => ⟨texts, rfl, h, rfl⟩⟩
  have hnone : (String.join lines).toList.count '\n' = 0 :=
    List.count_eq_zero.2 (oneLine_join.2 hlines)
  have hcount : (String.join texts).toList.count '\n' = 0 := by
    have hsame := count_breaks texts
    rw [htext, count_breaks] at hsame
    omega
  exact oneLine_join.1 (List.count_eq_zero.1 hcount)

end Text

end TypedIR
