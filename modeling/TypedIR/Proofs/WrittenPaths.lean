import Mathlib.Data.String.Basic
import TypedIR.Disk

/-
  Paths as they are written.

  A text is taken apart at its slashes. What is proved: shortening a text does
  not change the path it stands for (`resolve_clean`), a name written below a
  shortened text is put after it with a slash (`join_join`), and such a text
  stands for the path with the name at its end (`resolve_join`).
-/

namespace TypedIR

namespace Path

open String

/-! ## Names between slashes -/

theorem splitOnAux_slash (l m r : List Char) (acc : List String) :
    String.splitOnAux (String.ofList (l ++ m ++ r)) "/" ⟨utf8Len l⟩ ⟨utf8Len l + utf8Len m⟩ 0 acc =
      acc.reverse ++ (List.splitOnPPrepend (· == '/') r m.reverse).map String.ofList := by
  induction r generalizing l m acc with
  | nil =>
    have hstop := (atEnd_of_valid (l ++ m) []).2 rfl
    rw [utf8Len_append] at hstop
    rw [String.splitOnAux, if_pos hstop]
    simpa using extract_of_valid l m []
  | cons c r ih =>
    have hgo := (atEnd_of_valid (l ++ m) (c :: r)).not.2 (List.cons_ne_nil c r)
    have hget := get_of_valid (l ++ m) (c :: r)
    have hnext := next_of_valid (l ++ m) c r
    rw [utf8Len_append] at hgo hget hnext
    have hsep : Pos.Raw.get "/" 0 = '/' := by decide
    have hend : Pos.Raw.atEnd "/" (Pos.Raw.next "/" 0) = true := by decide
    rw [String.splitOnAux, if_neg hgo, hget, hsep, hnext, List.splitOnPPrepend_cons_eq_if]
    by_cases hc : c = '/'
    · subst hc
      -- the name that was read is complete, and the next one starts after the slash
      have hrest := ih (l ++ m ++ ['/']) [] (ofList m :: acc)
      have hone : utf8Len ['/'] = '/'.utf8Size := by decide
      have hback : Pos.Raw.unoffsetBy ⟨utf8Len l + utf8Len m + '/'.utf8Size⟩ (Pos.Raw.next "/" 0) =
          ⟨utf8Len l + utf8Len m⟩ := rfl
      have hlist : l ++ m ++ ['/'] ++ [] ++ r = l ++ m ++ '/' :: r := by simp
      rw [hlist, utf8Len_append, utf8Len_append, hone, utf8Len_nil, Nat.add_zero] at hrest
      simp only [List.headD_cons, beq_self_eq_true, if_true, hend, hback, extract_of_valid]
      simpa using hrest
    · have hrest := ih l (m ++ [c]) acc
      have hsame : Pos.Raw.unoffsetBy ⟨utf8Len l + utf8Len m⟩ 0 = ⟨utf8Len l + utf8Len m⟩ := rfl
      have hne : (c == '/') = false := by simpa using hc
      have hlist : l ++ (m ++ [c]) ++ r = l ++ m ++ c :: r := by simp
      rw [hlist, utf8Len_append, utf8Len_cons, utf8Len_nil, Nat.zero_add] at hrest
      simp only [List.headD_cons, hne, Bool.false_eq_true, if_false, hsame, hnext]
      simpa [Nat.add_assoc] using hrest

theorem splitOn_slash (s : String) :
    s.splitOn "/" = (s.toList.splitOn '/').map String.ofList := by
  have h := splitOnAux_slash [] [] s.toList []
  rw [String.splitOn, if_neg (by decide)]
  simpa [List.splitOn_eq_splitOnP] using h

theorem splitOn_below (a b : String) :
    (a ++ "/" ++ b).splitOn "/" = a.splitOn "/" ++ b.splitOn "/" := by
  have hlist : (a ++ "/" ++ b).toList = a.toList ++ '/' :: b.toList := by simp
  rw [splitOn_slash, splitOn_slash, splitOn_slash, hlist, List.splitOn_append_cons_self,
    List.map_append]

theorem splitOn_intercalate {ns : List String} (hne : ns ≠ [])
    (h : ∀ n ∈ ns, '/' ∉ n.toList) : ("/".intercalate ns).splitOn "/" = ns := by
  have hlist : ("/".intercalate ns).toList = ['/'].intercalate (ns.map String.toList) :=
    String.toList_intercalate
  rw [splitOn_slash, hlist, List.splitOn_intercalate]
  · simp
  · simpa using h
  · simpa using hne

theorem splitOn_of_noSlash {n : String} (h : '/' ∉ n.toList) : n.splitOn "/" = [n] := by
  rw [splitOn_slash, List.splitOn_eq_singleton h]
  simp

theorem not_mem_of_mem_splitOn {l cs : List Char} (h : cs ∈ l.splitOn '/') : '/' ∉ cs := by
  induction l generalizing cs with
  | nil =>
    rw [List.splitOn_nil, List.mem_singleton] at h
    simp [h]
  | cons c l ih =>
    rw [List.splitOn_cons_eq_if_modifyHead] at h
    by_cases hc : c = '/'
    · rw [if_pos (by simpa using hc)] at h
      rcases List.mem_cons.1 h with rfl | h
      · simp
      · exact ih h
    · rw [if_neg (by simpa using hc)] at h
      obtain ⟨n, ns, hl⟩ := List.exists_cons_of_ne_nil (List.splitOn_ne_nil '/' l)
      rw [hl, List.modifyHead_cons] at h
      rcases List.mem_cons.1 h with rfl | h
      · have hn := @ih n (by simp [hl])
        simpa [Ne.symm hc] using hn
      · exact ih (by simp [hl, h])

theorem noSlash_of_mem_splitOn {s n : String} (h : n ∈ s.splitOn "/") : '/' ∉ n.toList := by
  rw [splitOn_slash] at h
  obtain ⟨cs, hcs, rfl⟩ := List.mem_map.1 h
  simpa using not_mem_of_mem_splitOn hcs

/-! ## Shortened paths -/

/-- A name that an entry of a directory can have. -/
structure Plain (n : String) : Prop where
  ne_empty : n ≠ ""
  ne_dot : n ≠ "."
  ne_dots : n ≠ ".."
  noSlash : '/' ∉ n.toList

/-- Following a name in a path that is written from the root, or relative to somewhere. -/
def next : Bool → List String → String → List String
  | true => follow
  | false => followRelative

def reduced (s : String) : List String :=
  (s.splitOn "/").foldl (next (s.startsWith "/")) []

def written (rooted : Bool) (ns : List String) : String :=
  if rooted then text ns else if ns.isEmpty then "." else "/".intercalate ns

/-- Names of which some go up and the others down; from the root none goes up. -/
def Reduced (rooted : Bool) (ns : List String) : Prop :=
  ∃ ups rest, ns = List.replicate ups ".." ++ rest ∧ (∀ n ∈ rest, Plain n) ∧
    (rooted = true → ups = 0)

theorem clean_eq (s : String) : clean s = written (s.startsWith "/") (reduced s) := by
  unfold clean written reduced
  cases hr : s.startsWith "/" with
  | true => simp [resolve, hr, next]
  | false => simp [next]

theorem follow_plain {n : String} (h : Plain n) (p : Path) : follow p n = p ++ [n] := by
  simp [follow, h.ne_empty, h.ne_dot, h.ne_dots]

theorem followRelative_plain {n : String} (h : Plain n) (ns : List String) :
    followRelative ns n = ns ++ [n] := by
  simp [followRelative, h.ne_empty, h.ne_dot, h.ne_dots]

theorem next_plain {n : String} (h : Plain n) (rooted : Bool) (ns : List String) :
    next rooted ns n = ns ++ [n] := by
  cases rooted <;> simp [next, follow_plain h, followRelative_plain h]

theorem plain_or {n : String} (h : '/' ∉ n.toList) : n = "" ∨ n = "." ∨ n = ".." ∨ Plain n := by
  by_cases h₁ : n = ""
  · exact .inl h₁
  by_cases h₂ : n = "."
  · exact .inr (.inl h₂)
  by_cases h₃ : n = ".."
  · exact .inr (.inr (.inl h₃))
  exact .inr (.inr (.inr ⟨h₁, h₂, h₃, h⟩))

theorem Reduced.next {rooted : Bool} {ns : List String} (h : Reduced rooted ns) {n : String}
    (hn : '/' ∉ n.toList) : Reduced rooted (next rooted ns n) := by
  obtain ⟨ups, rest, rfl, hrest, hups⟩ := h
  rcases plain_or hn with rfl | rfl | rfl | hp
  · cases rooted <;> exact ⟨ups, rest, by simp [Path.next, follow, followRelative], hrest, hups⟩
  · cases rooted <;> exact ⟨ups, rest, by simp [Path.next, follow, followRelative], hrest, hups⟩
  · rcases List.eq_nil_or_concat rest with rfl | ⟨rest, x, rfl⟩
    · cases rooted with
      | true => exact ⟨0, [], by simp [Path.next, follow, hups rfl], by simp, fun _ => rfl⟩
      | false =>
        refine ⟨ups + 1, [], ?_, by simp, nofun⟩
        simp [Path.next, followRelative, List.replicate_succ', List.getLast?_replicate]
    · have hx := hrest x (by simp)
      refine ⟨ups, rest, ?_, fun n hn => hrest n (by simp [hn]), hups⟩
      cases rooted <;> simp [Path.next, follow, followRelative, hx.ne_dots, ← List.append_assoc]
  · rw [next_plain hp]
    refine ⟨ups, rest ++ [n], by simp, ?_, hups⟩
    intro m hm
    rcases List.mem_append.1 hm with hm | hm
    · exact hrest m hm
    · rwa [List.mem_singleton.1 hm]

theorem reduced_foldl {rooted : Bool} {names : List String} (hn : ∀ n ∈ names, '/' ∉ n.toList)
    {ns : List String} (h : Reduced rooted ns) :
    Reduced rooted (names.foldl (Path.next rooted) ns) := by
  induction names generalizing ns with
  | nil => exact h
  | cons n names ih =>
    rw [List.forall_mem_cons] at hn
    exact ih hn.2 (h.next hn.1)

theorem reduced_reduced (s : String) : Reduced (s.startsWith "/") (reduced s) :=
  reduced_foldl (fun _ hn => noSlash_of_mem_splitOn hn) ⟨0, [], rfl, by simp, fun _ => rfl⟩

theorem foldl_next_plain {rooted : Bool} {rest : List String} (h : ∀ n ∈ rest, Plain n)
    (ns : List String) : rest.foldl (next rooted) ns = ns ++ rest := by
  induction rest generalizing ns with
  | nil => simp
  | cons n rest ih =>
    rw [List.forall_mem_cons] at h
    rw [List.foldl_cons, next_plain h.1, ih h.2, List.append_assoc, List.singleton_append]

theorem foldl_follow_plain {rest : List String} (h : ∀ n ∈ rest, Plain n) (p : Path) :
    rest.foldl follow p = p ++ rest :=
  @foldl_next_plain true rest h p

theorem Reduced.foldl_next {rooted : Bool} {ns : List String} (h : Reduced rooted ns) :
    ns.foldl (Path.next rooted) [] = ns := by
  obtain ⟨ups, rest, rfl, hrest, hups⟩ := h
  have hdots : (List.replicate ups "..").foldl (Path.next rooted) [] = List.replicate ups ".." := by
    cases rooted with
    | true => simp [hups rfl]
    | false =>
      clear hups
      induction ups with
      | zero => rfl
      | succ n ih =>
        rw [List.replicate_succ', List.foldl_append, ih]
        simp [Path.next, followRelative, List.getLast?_replicate]
  rw [List.foldl_append, hdots, foldl_next_plain hrest]

theorem Reduced.noSlash {rooted : Bool} {ns : List String} (h : Reduced rooted ns) :
    ∀ n ∈ ns, '/' ∉ n.toList := by
  obtain ⟨ups, rest, rfl, hrest, -⟩ := h
  intro n hn
  rcases List.mem_append.1 hn with hn | hn
  · rw [List.eq_of_mem_replicate hn]
    decide
  · exact (hrest n hn).noSlash

theorem Reduced.ne_empty {rooted : Bool} {ns : List String} (h : Reduced rooted ns) :
    ∀ n ∈ ns, n ≠ "" := by
  obtain ⟨ups, rest, rfl, hrest, -⟩ := h
  intro n hn
  rcases List.mem_append.1 hn with hn | hn
  · rw [List.eq_of_mem_replicate hn]
    decide
  · exact (hrest n hn).ne_empty

theorem startsWith_slash (s : String) : s.startsWith "/" = true ↔ s.toList.head? = some '/' := by
  rw [String.startsWith_string_iff]
  cases s.toList <;> simp [eq_comm]

theorem startsWith_append {a : String} (h : a ≠ "") (b : String) :
    (a ++ b).startsWith "/" = a.startsWith "/" := by
  rw [Bool.eq_iff_iff, startsWith_slash, startsWith_slash, String.toList_append,
    List.head?_append_of_ne_nil]
  simpa using h

theorem startsWith_written {rooted : Bool} {ns : List String} (h : Reduced rooted ns) :
    (written rooted ns).startsWith "/" = rooted := by
  cases rooted with
  | true => simp [written, text]
  | false =>
    cases ns with
    | nil => simp [written, Bool.eq_false_iff]
    | cons n ns =>
      have hhead : (written false (n :: ns)).toList.head? = n.toList.head? := by
        obtain ⟨c, cs, hc⟩ : ∃ c cs, n.toList = c :: cs :=
          List.exists_cons_of_ne_nil (by simpa using h.ne_empty n (by simp))
        cases ns with
        | nil => simp [written]
        | cons m ns => simp [written, String.intercalate_cons_cons, hc]
      rw [Bool.eq_false_iff, Ne, startsWith_slash, hhead]
      intro heq
      exact h.noSlash n (by simp) (List.mem_of_head? heq)

/-- The names in a shortened text are those that are left, but for names that
are skipped. -/
theorem splitOn_written {rooted : Bool} {ns : List String} (h : Reduced rooted ns) :
    (written rooted ns).splitOn "/" =
      (if rooted then [""] else []) ++
        (if ns = [] then [if rooted then "" else "."] else ns) := by
  have hsplit := fun hne : ns ≠ [] => splitOn_intercalate hne h.noSlash
  cases rooted with
  | true =>
    have hroot : written true ns = "" ++ "/" ++ "/".intercalate ns := by simp [written, text]
    rw [hroot, splitOn_below, splitOn_of_noSlash (n := "") (by decide)]
    by_cases hns : ns = []
    · subst hns
      simp [splitOn_of_noSlash (n := "") (by decide)]
    · simp [hsplit hns, hns]
  | false =>
    by_cases hns : ns = []
    · subst hns
      simp [written, splitOn_of_noSlash (n := ".") (by decide)]
    · simp [written, hsplit hns, hns]

theorem foldl_splitOn_written {rooted : Bool} {ns : List String} (h : Reduced rooted ns)
    (step : List String → String → List String) (hempty : ∀ p, step p "" = p)
    (hdot : ∀ p, step p "." = p) (p : List String) :
    ((written rooted ns).splitOn "/").foldl step p = ns.foldl step p := by
  rw [splitOn_written h]
  cases rooted <;> by_cases hns : ns = [] <;> simp [hns, hempty, hdot]

theorem reduced_written {rooted : Bool} {ns : List String} (h : Reduced rooted ns) :
    reduced (written rooted ns) = ns := by
  rw [reduced, startsWith_written h, foldl_splitOn_written h, h.foldl_next]
  · intro p
    cases rooted <;> simp [next, follow, followRelative]
  · intro p
    cases rooted <;> simp [next, follow, followRelative]

theorem foldl_follow_next {ns : List String} (h : Reduced false ns) {n : String}
    (hn : '/' ∉ n.toList) (p : Path) :
    (followRelative ns n).foldl follow p = follow (ns.foldl follow p) n := by
  obtain ⟨ups, rest, rfl, hrest, -⟩ := h
  rcases plain_or hn with rfl | rfl | rfl | hp
  · simp [followRelative, follow]
  · simp [followRelative, follow]
  · rcases List.eq_nil_or_concat rest with rfl | ⟨rest, x, rfl⟩
    · simp [followRelative, List.getLast?_replicate, List.foldl_append]
    · have hx := hrest x (by simp)
      have hup : followRelative (List.replicate ups ".." ++ rest.concat x) ".." =
          List.replicate ups ".." ++ rest := by
        simp [followRelative, hx.ne_dots, ← List.append_assoc]
      have hlast : (List.replicate ups ".." ++ rest.concat x).foldl follow p =
          (List.replicate ups ".." ++ rest).foldl follow p ++ [x] := by
        rw [List.concat_eq_append, ← List.append_assoc, List.foldl_append, ← follow_plain hx]
        rfl
      rw [hup, hlast]
      simp [follow]
  · simp [followRelative_plain hp]

theorem resolve_clean (cwd : Path) (s : String) : resolve cwd (clean s) = resolve cwd s := by
  have hr := reduced_reduced s
  have hskip : ∀ n : String, n = "" ∨ n = "." → ∀ p, follow p n = p := by
    rintro n (rfl | rfl) p <;> simp [follow]
  rw [clean_eq, resolve, startsWith_written hr,
    foldl_splitOn_written hr follow (hskip _ (.inl rfl)) (hskip _ (.inr rfl)), resolve]
  have hslash : ∀ n ∈ s.splitOn "/", '/' ∉ n.toList := fun _ => noSlash_of_mem_splitOn
  cases hs : s.startsWith "/" with
  | true =>
    rw [hs] at hr
    have hreduced : reduced s = (s.splitOn "/").foldl follow [] := by rw [reduced, hs]; rfl
    rw [if_pos rfl, ← hreduced]
    exact hr.foldl_next
  | false =>
    have hreduced : reduced s = (s.splitOn "/").foldl followRelative [] := by
      rw [reduced, hs]; rfl
    rw [hreduced, if_neg (by simp)]
    generalize s.splitOn "/" = names at hslash
    -- the names that were followed so far are reduced, and lead to the same place
    have hstep : ∀ (ns : List String), Reduced false ns →
        (names.foldl followRelative ns).foldl follow cwd =
          names.foldl follow (ns.foldl follow cwd) := by
      induction names with
      | nil => exact fun _ _ => rfl
      | cons n names ih =>
        intro ns hns
        rw [List.forall_mem_cons] at hslash
        rw [List.foldl_cons, List.foldl_cons, ← foldl_follow_next hns hslash.1]
        exact ih hslash.2 _ (hns.next hslash.1)
    exact hstep [] ⟨0, [], rfl, by simp, nofun⟩

/-! ## Names below a path -/

theorem splitOn_empty : ("" : String).splitOn "/" = [""] := splitOn_of_noSlash (by decide)

theorem resolve_below {base : String} (hb : base ≠ "") {name : String} (hn : Plain name) (cwd : Path) :
    resolve cwd (base ++ "/" ++ name) = resolve cwd base ++ [name] := by
  rw [resolve, resolve, String.append_assoc, startsWith_append hb, ← String.append_assoc,
    splitOn_below, splitOn_of_noSlash hn.noSlash, List.foldl_append]
  exact follow_plain hn _

theorem reduced_below {base : String} (hb : base ≠ "") {name : String} (hn : Plain name) :
    reduced (base ++ "/" ++ name) = reduced base ++ [name] := by
  rw [reduced, reduced, String.append_assoc, startsWith_append hb, ← String.append_assoc,
    splitOn_below, splitOn_of_noSlash hn.noSlash, List.foldl_append]
  exact next_plain hn _ _

theorem written_append {rooted : Bool} {ns : List String} {a b : String} :
    written rooted (ns ++ [a] ++ [b]) = written rooted (ns ++ [a]) ++ "/" ++ b := by
  have hinter : "/".intercalate (ns ++ [a] ++ [b]) = "/".intercalate (ns ++ [a]) ++ "/" ++ b := by
    rw [String.intercalate_append_of_ne_nil (by simp) (by simp), String.intercalate_singleton]
  cases rooted with
  | true =>
    rw [written, written, if_pos rfl, if_pos rfl, text, text, hinter]
    simp only [String.append_assoc]
  | false =>
    have hleft : (ns ++ [a]).isEmpty = false := by simp
    have hright : (ns ++ [a] ++ [b]).isEmpty = false := by simp
    simp only [written, Bool.false_eq_true, if_false, hleft, hright, hinter]

theorem resolve_join (cwd : Path) (base : String) {name : String} (hn : Plain name) :
    resolve cwd (join base name) = resolve cwd base ++ [name] := by
  unfold join
  split
  case isTrue hb =>
    subst hb
    rw [resolve_clean, resolve, resolve, splitOn_of_noSlash hn.noSlash, splitOn_empty]
    have hroot : name.startsWith "/" = false := by
      rw [Bool.eq_false_iff, Ne, startsWith_slash]
      exact fun h => hn.noSlash (List.mem_of_head? h)
    simp [hroot, follow, hn.ne_empty, hn.ne_dot, hn.ne_dots]
  case isFalse hb => rw [resolve_clean, resolve_below hb hn]

theorem join_eq (base : String) {name : String} (hn : Plain name) :
    ∃ rooted ns, Reduced rooted (ns ++ [name]) ∧ join base name = written rooted (ns ++ [name]) := by
  unfold join
  split
  case isTrue =>
    have hroot : name.startsWith "/" = false := by
      rw [Bool.eq_false_iff, Ne, startsWith_slash]
      exact fun h => hn.noSlash (List.mem_of_head? h)
    have hnames : reduced name = [] ++ [name] := by
      rw [reduced, splitOn_of_noSlash hn.noSlash, hroot]
      exact next_plain hn false []
    have hr := reduced_reduced name
    rw [hroot, hnames] at hr
    exact ⟨false, [], hr, by rw [clean_eq, hroot, hnames]⟩
  case isFalse hb =>
    have hr := reduced_reduced (base ++ "/" ++ name)
    rw [reduced_below hb hn] at hr
    exact ⟨_, _, hr, by rw [clean_eq, reduced_below hb hn]⟩

theorem join_ne_empty (base : String) {name : String} (hn : Plain name) : join base name ≠ "" := by
  obtain ⟨rooted, ns, hr, hjoin⟩ := join_eq base hn
  intro hempty
  have hnames := splitOn_written hr
  rw [← hjoin, hempty, splitOn_empty, if_neg (c := ns ++ [name] = []) (by simp)] at hnames
  have hlast := congrArg List.getLast? hnames
  rw [← List.append_assoc, List.getLast?_concat] at hlast
  exact hn.ne_empty (Option.some.inj hlast).symm

theorem join_join (base : String) {name : String} (hn : Plain name) {file : String}
    (hf : Plain file) : join (join base name) file = join base name ++ "/" ++ file := by
  have hne := join_ne_empty base hn
  obtain ⟨rooted, ns, hr, hjoin⟩ := join_eq base hn
  have hroot : (join base name ++ "/" ++ file).startsWith "/" = rooted := by
    rw [String.append_assoc, startsWith_append hne, hjoin, startsWith_written hr]
  rw [join, if_neg hne, clean_eq, hroot, reduced_below hne hf, hjoin, reduced_written hr,
    written_append]

end Path

end TypedIR
