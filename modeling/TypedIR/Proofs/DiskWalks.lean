import TypedIR.Proofs.WrittenPaths

/-
  Walks on a disk.

  A walk along a text comes to the path that the text stands for
  (`spot_resolve`), and if a text leads to a directory, then the walk to a name
  below it ends at the entry of that name (`spot_below`). A disk on which every
  directory stays has the same walks (`Keeps.spot`). From this: what a written
  file, a made directory and a removed path do to the disk.
-/

namespace TypedIR

namespace Disk

open TypedIR.Path

/-! ## Walks -/

theorem descend_follow {d : Disk} {dir p : Path} {name : String} (hne : name ≠ "")
    (h : d.descend dir name = .ok p) : p = follow dir name := by
  unfold descend at h
  split at h
  case isTrue =>
    cases h
    rfl
  case isFalse hdots =>
    have hfollow : follow dir name = dir ++ [name] := by
      simp_all [follow]
    cases he : d.entry? dir name with
    | error r => rw [he] at h; cases h
    | ok n =>
      rw [he] at h
      rcases n with _ | (_ | _)
      · cases h
      · exact (Except.ok.inj h).symm.trans hfollow.symm
      · cases h

theorem walk_concat (d : Disk) (slash : Bool) (names : List String) (name : String) (dir : Path) :
    d.walk slash dir (names ++ [name]) = do
      let p ← names.foldlM d.descend dir
      if name = "." || name = ".." then return .here (follow p name)
      else return .entry p name slash := by
  induction names generalizing dir with
  | nil => simp [walk]; rfl
  | cons n names ih =>
    obtain ⟨m, rest, hrest⟩ := List.exists_cons_of_ne_nil
      (List.append_ne_nil_of_right_ne_nil names (List.cons_ne_nil name []))
    rw [List.cons_append, hrest, walk, ← hrest, List.foldlM_cons, bind_assoc]
    · congr 1
      funext p
      exact ih p
    · simp

def names (path : String) : List String :=
  (path.splitOn "/").filter (· ≠ "")

def start (cwd : Path) (path : String) : Path :=
  if path.startsWith "/" then [] else cwd

theorem resolve_eq_foldl (cwd : Path) (path : String) :
    resolve cwd path = (names path).foldl follow (start cwd path) := by
  rw [resolve, names, start]
  generalize (if path.startsWith "/" then [] else cwd) = p
  generalize path.splitOn "/" = ns
  induction ns generalizing p with
  | nil => rfl
  | cons n ns ih =>
    by_cases hn : n = ""
    · subst hn
      rw [List.foldl_cons, ih, List.filter_cons_of_neg (by simp)]
      simp [follow]
    · rw [List.foldl_cons, ih, List.filter_cons_of_pos (by simpa using hn), List.foldl_cons]

theorem spot_eq_ok_iff {d : Disk} {cwd : Path} {path : String} {s : Spot} :
    d.spot cwd path = .ok s ↔
      (Char.ofNat 0 ∉ path.toList ∧ path ≠ "" ∧ path.utf8ByteSize < pathLimit) ∧
        d.node? (start cwd path) = some .dir ∧
        d.walk (path.endsWith "/") (start cwd path) (names path) = .ok s := by
  unfold spot
  by_cases hzero : Char.ofNat 0 ∈ path.toList
  · simp [hzero]
  by_cases hempty : path = ""
  · simp [hempty]
  by_cases hlong : pathLimit ≤ path.utf8ByteSize
  · simp [hzero, hempty, hlong, Nat.not_lt.2 hlong]
  · rw [if_neg (by simpa using hzero), if_neg hempty, if_neg hlong]
    simp only [hzero, hempty, Nat.lt_of_not_ge hlong, not_false_eq_true, ne_eq, true_and, and_self]
    have hstart : (if path.startsWith "/" then [] else cwd) = start cwd path := rfl
    rw [hstart]
    rcases d.node? (start cwd path) with _ | (_ | _)
    · simp
    · simp [names]
    · simp

theorem foldlM_descend {d : Disk} {ns : List String} (hne : ∀ n ∈ ns, n ≠ "") {dir p : Path}
    (h : ns.foldlM d.descend dir = .ok p) : p = ns.foldl follow dir := by
  induction ns generalizing dir with
  | nil => exact (Except.ok.inj h).symm
  | cons n ns ih =>
    rw [List.forall_mem_cons] at hne
    rw [List.foldlM_cons] at h
    cases hd : d.descend dir n with
    | error r => rw [hd] at h; cases h
    | ok q =>
      rw [hd] at h
      rw [List.foldl_cons, ← descend_follow hne.1 hd]
      exact ih hne.2 h

theorem names_ne_empty {path : String} : ∀ n ∈ names path, n ≠ "" := by
  intro n hn
  simpa using (List.mem_filter.1 hn).2

theorem spot_resolve {d : Disk} {cwd : Path} {path : String} {s : Spot}
    (h : d.spot cwd path = .ok s) :
    match s with
    | .here dir => resolve cwd path = dir
    | .entry dir name _ => resolve cwd path = dir ++ [name] ∧ Plain name ∧
        ∃ before, names path = before ++ [name] := by
  obtain ⟨-, -, hwalk⟩ := spot_eq_ok_iff.1 h
  rw [resolve_eq_foldl]
  have hne : ∀ n ∈ names path, n ≠ "" := names_ne_empty
  have hslash : ∀ n ∈ names path, '/' ∉ n.toList :=
    fun n hn => noSlash_of_mem_splitOn (List.mem_of_mem_filter hn)
  rcases List.eq_nil_or_concat (names path) with hnil | ⟨before, name, hns⟩
  · rw [hnil] at hwalk ⊢
    cases hwalk
    rfl
  · rw [List.concat_eq_append] at hns
    rw [hns] at hwalk hne hslash ⊢
    rw [walk_concat] at hwalk
    cases hd : before.foldlM d.descend (start cwd path) with
    | error r => rw [hd] at hwalk; cases hwalk
    | ok p =>
      rw [hd] at hwalk
      have hp := foldlM_descend (fun n hn => hne n (by simp [hn])) hd
      rw [List.foldl_append, ← hp]
      by_cases hdots : name = "." ∨ name = ".."
      · have : s = .here (follow p name) := by
          rcases hdots with rfl | rfl <;> exact (Except.ok.inj hwalk).symm
        subst this
        rfl
      · have : s = .entry p name (path.endsWith "/") := by
          simp only [not_or] at hdots
          simpa [hdots, eq_comm, bind, Except.bind, pure, Except.pure] using hwalk
        subst this
        simp only [not_or] at hdots
        have hplain : Plain name :=
          ⟨hne name (by simp), hdots.1, hdots.2, hslash name (by simp)⟩
        exact ⟨follow_plain hplain p, hplain, before, rfl⟩

/-! ## Directories that stay -/

def Keeps (d d' : Disk) : Prop :=
  ∀ p, d.node? p = some .dir → d'.node? p = some .dir

theorem Keeps.trans {d d' d'' : Disk} (h : d.Keeps d') (h' : d'.Keeps d'') : d.Keeps d'' :=
  fun p hp => h' p (h p hp)

variable {d d' : Disk} {cwd : Path}

theorem Keeps.descend (h : d.Keeps d') {dir p : Path} {name : String}
    (hd : d.descend dir name = .ok p) : d'.descend dir name = .ok p := by
  unfold Disk.descend at hd ⊢
  split
  case isTrue hdots => rwa [if_pos hdots] at hd
  case isFalse hdots =>
    rw [if_neg hdots] at hd
    unfold entry? at hd ⊢
    split
    case isTrue hlong => rw [if_pos hlong] at hd; cases hd
    case isFalse hlong =>
      rw [if_neg hlong] at hd
      cases hn : d.node? (dir ++ [name]) with
      | none => simp [hn] at hd; cases hd
      | some n =>
        cases n with
        | dir =>
          rw [hn] at hd
          rw [h _ hn]
          exact hd
        | file => simp [hn] at hd; cases hd

theorem Keeps.descends (h : d.Keeps d') {ns : List String} {dir p : Path}
    (hd : ns.foldlM d.descend dir = .ok p) : ns.foldlM d'.descend dir = .ok p := by
  induction ns generalizing dir with
  | nil => exact hd
  | cons n ns ih =>
    rw [List.foldlM_cons] at hd ⊢
    cases hq : d.descend dir n with
    | error r => rw [hq] at hd; cases hd
    | ok q =>
      rw [hq] at hd
      rw [h.descend hq]
      exact ih hd

theorem Keeps.walk (h : d.Keeps d') {slash : Bool} {dir : Path} {ns : List String} {s : Spot}
    (hw : d.walk slash dir ns = .ok s) : d'.walk slash dir ns = .ok s := by
  rcases List.eq_nil_or_concat ns with rfl | ⟨before, name, rfl⟩
  · exact hw
  · rw [List.concat_eq_append, walk_concat] at hw ⊢
    cases hd : before.foldlM d.descend dir with
    | error r => rw [hd] at hw; cases hw
    | ok p =>
      rw [hd] at hw
      rw [h.descends hd]
      exact hw

theorem Keeps.spot (h : d.Keeps d') {path : String} {s : Spot} (hs : d.spot cwd path = .ok s) :
    d'.spot cwd path = .ok s := by
  obtain ⟨hpath, hstart, hwalk⟩ := spot_eq_ok_iff.1 hs
  exact spot_eq_ok_iff.2 ⟨hpath, h _ hstart, h.walk hwalk⟩

theorem locate_dir_iff {path : String} {p : Path} :
    d.locate cwd path = .ok (p, .dir) ↔
      d.spot cwd path = .ok (.here p) ∨
        ∃ dir name slash, d.spot cwd path = .ok (.entry dir name slash) ∧ p = dir ++ [name] ∧
          name.utf8ByteSize ≤ nameLimit ∧ d.node? p = some .dir := by
  unfold locate
  cases hs : d.spot cwd path with
  | error r => simp [bind, Except.bind]
  | ok s =>
    cases s with
    | here dir => simp [bind, Except.bind, pure, Except.pure]
    | entry dir name slash =>
      simp only [bind, Except.bind, entry?]
      by_cases hlong : nameLimit < name.utf8ByteSize
      · simp [hlong, Nat.not_le.2 hlong]
      · rw [if_neg hlong]
        have hshort := Nat.not_lt.1 hlong
        cases hn : d.node? (dir ++ [name]) with
        | none =>
          constructor
          · exact nofun
          · rintro (h | ⟨_, _, _, h, rfl, -, hd⟩) <;> simp_all
        | some n =>
          cases n with
          | dir =>
            constructor
            · intro h
              cases h
              exact .inr ⟨dir, name, slash, rfl, rfl, hshort, hn⟩
            · rintro (h | ⟨_, _, _, h, rfl, -, -⟩)
              · cases h
              · cases h
                rfl
          | file c =>
            constructor
            · cases slash <;> exact nofun
            · rintro (h | ⟨_, _, _, h, rfl, -, hd⟩) <;> simp_all

theorem Keeps.locate (h : d.Keeps d') {path : String} {p : Path}
    (hl : d.locate cwd path = .ok (p, .dir)) : d'.locate cwd path = .ok (p, .dir) := by
  rcases locate_dir_iff.1 hl with hs | ⟨dir, name, slash, hs, hp, hname, hn⟩
  · exact locate_dir_iff.2 (.inl (h.spot hs))
  · exact locate_dir_iff.2 (.inr ⟨dir, name, slash, h.spot hs, hp, hname, h _ hn⟩)

theorem locate_resolve {path : String} {p : Path} (h : d.locate cwd path = .ok (p, .dir)) :
    p = resolve cwd path := by
  rcases locate_dir_iff.1 h with hs | ⟨dir, name, slash, hs, hp, -⟩
  · exact (spot_resolve hs).symm
  · exact hp.trans (spot_resolve hs).1.symm

/-- If a text leads to a directory, then so does the walk through all its names. -/
theorem descends_of_locate {path : String} {p : Path} (h : d.locate cwd path = .ok (p, .dir)) :
    (names path).foldlM d.descend (start cwd path) = .ok p := by
  have hlast : ∀ {s}, d.spot cwd path = .ok s → ∀ (before : List String) (name : String),
      names path = before ++ [name] →
      ∃ q, before.foldlM d.descend (start cwd path) = .ok q ∧
        s = if name = "." || name = ".." then .here (follow q name)
          else .entry q name (path.endsWith "/") := by
    intro s hs before name hns
    obtain ⟨-, -, hwalk⟩ := spot_eq_ok_iff.1 hs
    rw [hns, walk_concat] at hwalk
    cases hd : before.foldlM d.descend (start cwd path) with
    | error r => rw [hd] at hwalk; cases hwalk
    | ok q =>
      rw [hd] at hwalk
      refine ⟨q, rfl, ?_⟩
      simp only [bind, Except.bind] at hwalk
      split at hwalk <;> rename_i hdots <;> rw [← Except.ok.inj hwalk]
      · rw [if_pos hdots]
      · rw [if_neg hdots]
  rcases List.eq_nil_or_concat (names path) with hnil | ⟨before, name, hns⟩
  · rcases locate_dir_iff.1 h with hs | ⟨dir, name, slash, hs, hp, -⟩
    · obtain ⟨-, -, hwalk⟩ := spot_eq_ok_iff.1 hs
      rw [hnil] at hwalk ⊢
      cases hwalk
      rfl
    · obtain ⟨-, -, before, hns⟩ := spot_resolve hs
      simp [hnil] at hns
  · rw [List.concat_eq_append] at hns
    have hdescend : ∀ q, before.foldlM d.descend (start cwd path) = .ok q →
        d.descend q name = .ok p → (names path).foldlM d.descend (start cwd path) = .ok p := by
      intro q hq hd
      rw [hns, List.foldlM_append, hq]
      exact (bind_pure _).trans hd
    rcases locate_dir_iff.1 h with hs | ⟨dir, n, slash, hs, hp, hname, hn⟩
    · obtain ⟨q, hq, heq⟩ := hlast hs before name hns
      refine hdescend q hq ?_
      unfold descend
      split at heq
      case isTrue hdots =>
        rw [if_pos hdots]
        cases heq
        rfl
      case isFalse => cases heq
    · obtain ⟨q, hq, heq⟩ := hlast hs before name hns
      refine hdescend q hq ?_
      unfold descend
      split at heq
      case isTrue => cases heq
      case isFalse hdots =>
        cases heq
        rw [if_neg hdots, entry?, if_neg (Nat.not_lt.2 hname), ← hp, hn]
        rfl

theorem endsWith_slash (s : String) : s.endsWith "/" = true ↔ s.toList.getLast? = some '/' := by
  rw [String.endsWith_eq_endsWith_toSlice, String.Slice.endsWith_string_iff, String.copy_toSlice]
  have hone : "/".toList = ['/'] := rfl
  rw [hone]
  constructor
  · rintro ⟨cs, hcs⟩
    rw [← hcs, List.getLast?_concat]
  · intro hlast
    obtain ⟨cs, hcs⟩ := List.getLast?_eq_some_iff.1 hlast
    exact ⟨cs, hcs.symm⟩

/-- If a text leads to a directory, then the walk to a name below it ends at the
entry of that name. -/
theorem spot_below {base : String} {p : Path} (h : d.locate cwd base = .ok (p, .dir))
    {name : String} (hn : Plain name) (hzero : Char.ofNat 0 ∉ name.toList)
    (hshort : (base ++ "/" ++ name).utf8ByteSize < pathLimit) :
    d.spot cwd (base ++ "/" ++ name) = .ok (.entry p name false) := by
  have hbase : ∃ s, d.spot cwd base = .ok s := by
    rcases locate_dir_iff.1 h with hs | ⟨_, _, _, hs, -⟩ <;> exact ⟨_, hs⟩
  obtain ⟨s, hs⟩ := hbase
  obtain ⟨⟨hbzero, hbempty, -⟩, hstart, -⟩ := spot_eq_ok_iff.1 hs
  have hsame : start cwd (base ++ "/" ++ name) = start cwd base := by
    rw [start, start, String.append_assoc, startsWith_append hbempty]
  have hnames : names (base ++ "/" ++ name) = names base ++ [name] := by
    rw [names, splitOn_below, splitOn_of_noSlash hn.noSlash, List.filter_append]
    simp [names, hn.ne_empty]
  have hends : (base ++ "/" ++ name).endsWith "/" = false := by
    rw [Bool.eq_false_iff, Ne, endsWith_slash]
    intro hlast
    have hne : name.toList ≠ [] := by simpa using hn.ne_empty
    rw [String.toList_append, List.getLast?_append_of_ne_nil _ hne] at hlast
    exact hn.noSlash (List.mem_of_getLast? hlast)
  refine spot_eq_ok_iff.2 ⟨⟨?_, ?_, hshort⟩, hsame ▸ hstart, ?_⟩
  · simp [hbzero, hzero]
  · simp
  · rw [hsame, hnames, hends, walk_concat, descends_of_locate h]
    simp [bind, Except.bind, hn.ne_dot, hn.ne_dots, pure, Except.pure]

theorem spot_long {path : String} (hzero : Char.ofNat 0 ∉ path.toList) (hne : path ≠ "")
    (hlong : pathLimit ≤ path.utf8ByteSize) : d.spot cwd path = .error .nameTooLong := by
  rw [spot, if_neg (by simpa using hzero), if_neg hne, if_pos hlong]

/-! ## What is made and removed -/

def below (d : Disk) (p : Path) : List (Path × Node) :=
  d.nodes.filter fun e => p.isPrefixOf e.1 && e.1 != p

theorem lookup_filter_fst {α β : Type} [BEq α] [LawfulBEq α] (keep : α → Bool) (l : List (α × β))
    (k : α) :
    (l.filter fun e => keep e.1).lookup k = if keep k then l.lookup k else none := by
  induction l with
  | nil => simp
  | cons e l ih =>
    obtain ⟨m, b⟩ := e
    by_cases hm : k = m
    · subst hm
      by_cases hk : keep k = true <;> simp [hk, ih]
    · have hne : (k == m) = false := beq_eq_false_iff_ne.2 hm
      by_cases hk : keep m = true <;> simp [hk, ih, List.lookup_cons, hne]

theorem node?_put (p q : Path) (n : Node) :
    (d.put p n).node? q = if q = [] then some .dir else if q = p then some n else d.node? q := by
  unfold node? put
  by_cases hq : q = []
  · simp [hq]
  · rw [if_neg (by simpa using hq), if_neg hq, List.lookup_cons,
      lookup_filter_fst (fun q => q != p)]
    by_cases hqp : q = p
    · simp [hqp]
    · simp [hq, hqp, beq_eq_false_iff_ne.2 hqp]

theorem node?_removeAll {p : Path} (hp : p ≠ []) (q : Path) :
    (d.removeAll p).node? q = if p <+: q then none else d.node? q := by
  unfold node? removeAll
  by_cases hq : q = []
  · simp [hq, hp]
  · simp only [List.isEmpty_iff, hq, if_false]
    rw [lookup_filter_fst fun q => !p.isPrefixOf q]
    by_cases hpq : p <+: q
    · simp [hpq, List.isPrefixOf_iff_prefix.2 hpq]
    · simp [hpq, Bool.eq_false_iff.2 (mt List.isPrefixOf_iff_prefix.1 hpq)]

theorem keeps_put {p : Path} {n : Node} (h : n = .dir ∨ d.node? p ≠ some .dir) :
    d.Keeps (d.put p n) := by
  intro q hq
  rw [node?_put]
  split_ifs with hnil hqp
  · rfl
  · subst hqp
    rcases h with rfl | h
    · rfl
    · exact absurd hq h
  · exact hq

theorem entry_of_target {path : String} {p : Path} (h : d.target cwd path = .ok p) :
    p = resolve cwd path ∧ d.node? p ≠ some .dir := by
  unfold target at h
  cases hs : d.spot cwd path with
  | error r => rw [hs] at h; cases h
  | ok s =>
    rw [hs] at h
    cases s with
    | here dir => cases h
    | entry dir name slash =>
      cases slash with
      | true => cases h
      | false =>
        obtain ⟨hresolve, -, -⟩ := spot_resolve hs
        rw [hresolve]
        simp only [bind, Except.bind, entry?] at h
        by_cases hlong : nameLimit < name.utf8ByteSize
        · rw [if_pos hlong] at h
          cases h
        · rw [if_neg hlong] at h
          cases hn : d.node? (dir ++ [name]) with
          | none =>
            simp only [hn] at h
            cases h
            exact ⟨rfl, by simp [hn]⟩
          | some n =>
            cases n with
            | dir => simp only [hn] at h; cases h
            | file c =>
              simp only [hn] at h
              cases h
              exact ⟨rfl, by simp [hn]⟩

theorem writeFile_put {path : String} {c : Text.Bytes} (h : d.writeFile cwd path c = .ok d') :
    d' = d.put (resolve cwd path) (.file c) ∧ d.node? (resolve cwd path) ≠ some .dir := by
  unfold writeFile at h
  cases ht : d.target cwd path with
  | error r => rw [ht] at h; cases h
  | ok p =>
    rw [ht] at h
    obtain ⟨rfl, hp⟩ := entry_of_target ht
    exact ⟨(Except.ok.inj h).symm, hp⟩

theorem makeDir_put {path : String} (h : d.makeDir cwd path = .ok d') :
    ∃ dir name slash, d.spot cwd path = .ok (.entry dir name slash) ∧
      name.utf8ByteSize ≤ nameLimit ∧ d' = d.put (dir ++ [name]) .dir ∧
      d.node? (dir ++ [name]) = none := by
  unfold makeDir at h
  cases hs : d.spot cwd path with
  | error r => rw [hs] at h; cases h
  | ok s =>
    rw [hs] at h
    cases s with
    | here dir => cases h
    | entry dir name slash =>
      simp only [bind, Except.bind, entry?] at h
      by_cases hlong : nameLimit < name.utf8ByteSize
      · rw [if_pos hlong] at h
        cases h
      · rw [if_neg hlong] at h
        cases hn : d.node? (dir ++ [name]) with
        | none =>
          simp only [hn] at h
          cases h
          exact ⟨dir, name, slash, rfl, Nat.not_lt.1 hlong, rfl, hn⟩
        | some n => simp only [hn] at h; cases h

theorem locate_of_makeDir {path : String} (h : d.makeDir cwd path = .ok d') :
    ∃ p, d'.locate cwd path = .ok (p, .dir) := by
  obtain ⟨dir, name, slash, hs, hname, rfl, -⟩ := makeDir_put h
  have hkeeps : d.Keeps (d.put (dir ++ [name]) .dir) := keeps_put (.inl rfl)
  refine ⟨dir ++ [name], locate_dir_iff.2 (.inr ⟨dir, name, slash, hkeeps.spot hs, rfl, hname, ?_⟩)⟩
  rw [node?_put]
  simp

theorem below_put {p q : Path} (hpq : p <+: q) (hne : q ≠ p) (n : Node) :
    (d.put q n).below p = (q, n) :: (d.below p).filter fun e => e.1 != q := by
  have hq : (p.isPrefixOf q && q != p) = true := by simp [hpq, hne]
  simp only [below, put]
  rw [List.filter_cons_of_pos (by simpa using hq), List.filter_filter, List.filter_filter]
  congr 1
  exact List.filter_congr fun e _ => Bool.and_comm _ _

theorem below_removeAll (p q : Path) :
    (d.removeAll q).below p = (d.below p).filter fun e => !q.isPrefixOf e.1 := by
  rw [below, removeAll, List.filter_filter, below, List.filter_filter]
  exact List.filter_congr fun e _ => Bool.and_comm _ _

theorem below_removeAll_self (p : Path) : (d.removeAll p).below p = [] := by
  rw [below_removeAll, List.filter_eq_nil_iff]
  intro e he
  have hp := (List.mem_filter.1 he).2
  simp only [Bool.and_eq_true] at hp
  simp [hp.1]

theorem lookup_below {p q : Path} (hpq : p <+: q) (hne : q ≠ p) :
    (d.below p).lookup q = d.node? q := by
  have hnil : q ≠ [] := by
    rintro rfl
    exact hne (List.prefix_nil.1 hpq).symm
  rw [below, lookup_filter_fst fun q => p.isPrefixOf q && q != p, if_pos (by simp [hpq, hne]), node?,
    if_neg (by simpa using hnil)]

theorem below_put_of_length {p q : Path} (h : q.length ≤ p.length) (n : Node) :
    (d.put q n).below p = d.below p := by
  have hout : ∀ r : Path, (p.isPrefixOf r && r != p) = true → r ≠ q := by
    rintro r hr rfl
    simp only [Bool.and_eq_true, List.isPrefixOf_iff_prefix, bne_iff_ne] at hr
    exact hr.2 (hr.1.eq_of_length_le h).symm
  have hq : (p.isPrefixOf q && q != p) = false := Bool.eq_false_iff.2 fun hq => hout q hq rfl
  rw [below, put, List.filter_cons_of_neg (by simpa using hq), List.filter_filter, below]
  refine List.filter_congr fun e _ => ?_
  by_cases he : (p.isPrefixOf e.1 && e.1 != p) = true
  · simp [he, hout _ he]
  · simp [Bool.eq_false_iff.2 he]

def Short (cwd : Path) (p : Path) (path : String) : Prop :=
  ∀ before name, names path = before ++ [name] → Plain name → (resolve cwd path).length ≤ p.length

theorem makeEach_keeps {p : Path} {paths : List String} (hshort : ∀ path ∈ paths, Short cwd p path)
    (h : d.makeEach cwd paths = .ok d') : d.Keeps d' ∧ d'.below p = d.below p := by
  induction paths generalizing d' with
  | nil =>
    cases h
    exact ⟨fun _ h => h, rfl⟩
  | cons path above ih =>
    rw [List.forall_mem_cons] at hshort
    unfold makeEach at h
    split at h
    · cases h
      exact ⟨fun _ h => h, rfl⟩
    · cases h
    · cases ha : d.makeEach cwd above with
      | error r => rw [ha] at h; cases h
      | ok d₁ =>
        rw [ha] at h
        obtain ⟨hkeeps, hbelow⟩ := ih hshort.2 ha
        simp only [bind, Except.bind] at h
        split at h
        case h_1 d₂ hmake =>
          cases h
          obtain ⟨dir, name, slash, hs, -, rfl, -⟩ := makeDir_put hmake
          obtain ⟨hresolve, hplain, before, hnames⟩ := spot_resolve hs
          have hlen := hshort.1 before name hnames hplain
          rw [hresolve] at hlen
          exact ⟨hkeeps.trans (keeps_put (.inl rfl)), by rw [below_put_of_length hlen, hbelow]⟩
        case h_2 => cases h; exact ⟨hkeeps, hbelow⟩
        case h_3 => cases h

theorem locate_of_makeEach {path : String} {above : List String}
    (h : d.makeEach cwd (path :: above) = .ok d') : ∃ p, d'.locate cwd path = .ok (p, .dir) := by
  have hfind : ∀ {e : Disk}, e.find cwd path = .ok .dir → ∃ p, e.locate cwd path = .ok (p, .dir) := by
    intro e he
    unfold find at he
    cases hl : e.locate cwd path with
    | error r => rw [hl] at he; cases he
    | ok q =>
      rw [hl] at he
      cases he' : q.2 with
      | dir => exact ⟨q.1, by rw [← he']⟩
      | file c => simp [Functor.map, Except.map, he'] at he
  unfold makeEach at h
  split at h
  case h_1 hf => cases h; exact hfind hf
  case h_2 => cases h
  case h_3 =>
    cases ha : d.makeEach cwd above with
    | error r => rw [ha] at h; cases h
    | ok d₁ =>
      rw [ha] at h
      simp only [bind, Except.bind] at h
      split at h
      case h_1 d₂ hmake => cases h; exact locate_of_makeDir hmake
      case h_2 hf => cases h; exact hfind hf
      case h_3 => cases h

theorem intercalate_splitOn (s : String) : "/".intercalate (s.splitOn "/") = s := by
  have hlist : ("/".intercalate (s.splitOn "/")).toList = s.toList := by
    rw [String.toList_intercalate, splitOn_slash, List.map_map]
    have hid : String.toList ∘ String.ofList = id := by
      funext l
      simp
    rw [hid, List.map_id]
    exact List.intercalate_splitOn '/'
  exact String.toList_inj.1 hlist

theorem upwards_eq {path : String} (hne : path ≠ "") :
    ∃ above, upwards path = path :: above ∧ ∀ t ∈ upwards path, t ≠ "" ∧
      ∃ n, t = "/".intercalate ((path.splitOn "/").take (n + 1)) := by
  have hmem : ∀ t ∈ upwards path, t ≠ "" ∧
      ∃ n, t = "/".intercalate ((path.splitOn "/").take (n + 1)) := by
    intro t ht
    obtain ⟨ht, hempty⟩ := List.mem_filter.1 ht
    obtain ⟨n, -, rfl⟩ := List.mem_map.1 (List.mem_reverse.1 ht)
    exact ⟨by simpa using hempty, n, rfl⟩
  obtain ⟨k, hk⟩ : ∃ k, (path.splitOn "/").length = k + 1 := by
    refine Nat.exists_eq_succ_of_ne_zero fun hzero => ?_
    have := List.splitOn_ne_nil '/' path.toList
    rw [splitOn_slash] at hzero
    simp_all
  have hall : "/".intercalate ((path.splitOn "/").take (k + 1)) = path := by
    rw [← hk, List.take_length, intercalate_splitOn]
  have hrange : List.range (path.splitOn "/").length = List.range k ++ [k] := by
    rw [hk, List.range_succ]
  refine ⟨((List.range k).map fun n => "/".intercalate ((path.splitOn "/").take (n + 1))).reverse.filter
    (· ≠ ""), ?_, hmem⟩
  unfold upwards
  simp only [hrange, List.map_append, List.map_singleton, hall, List.reverse_append,
    List.reverse_singleton, List.singleton_append]
  exact List.filter_cons_of_pos (by simpa using hne)

/-- The texts of the directories on the way to a shortened path lead to nothing
that is longer, since names that go up come first. -/
theorem short_upwards (base : String) {name : String} (hn : Plain name) :
    ∀ t ∈ upwards (join base name), Short cwd (resolve cwd (join base name)) t := by
  obtain ⟨rooted, ns, hr, hjoin⟩ := join_eq base hn
  obtain ⟨ups, rest, hns, hrest, -⟩ := id hr
  set path := join base name
  obtain ⟨pre, hsplit, hpre⟩ : ∃ pre, path.splitOn "/" = pre ++ rest ∧ ∀ m ∈ pre, ¬Plain m := by
    refine ⟨(if rooted then [""] else []) ++ List.replicate ups "..", ?_, ?_⟩
    · rw [hjoin, splitOn_written hr, if_neg (c := ns ++ [name] = []) (by simp), List.append_assoc,
        ← hns]
    · intro m hm hplain
      rcases List.mem_append.1 hm with hm | hm
      · cases rooted <;> simp at hm
        exact hplain.ne_empty hm
      · exact hplain.ne_dots (List.eq_of_mem_replicate hm)
  obtain ⟨-, -, hup⟩ := upwards_eq (join_ne_empty base hn)
  intro t ht before last hnames hlast
  obtain ⟨hempty, n, htext⟩ := hup t ht
  have hslash : ∀ m ∈ path.splitOn "/", '/' ∉ m.toList := fun _ => noSlash_of_mem_splitOn
  have htake : t.splitOn "/" = (path.splitOn "/").take (n + 1) := by
    rw [htext]
    refine splitOn_intercalate ?_ fun m hm => hslash m (List.mem_of_mem_take hm)
    rw [splitOn_slash]
    simp [List.splitOn_ne_nil]
  have hdrop : ∀ m ∈ (path.splitOn "/").drop (n + 1), Plain m := by
    have hin : last ∈ (path.splitOn "/").take (n + 1) := by
      rw [← htake]
      exact List.mem_of_mem_filter (hnames ▸ by simp : last ∈ names t)
    rw [hsplit] at hin ⊢
    have hlong : pre.length ≤ n + 1 := by
      by_contra hshort
      rw [List.take_append_of_le_length (by omega)] at hin
      exact hpre last (List.mem_of_mem_take hin) hlast
    rw [List.drop_append, List.drop_of_length_le hlong, List.nil_append]
    exact fun m hm => hrest m (List.mem_of_mem_drop hm)
  have hstart : t.startsWith "/" = path.startsWith "/" := by
    have hwhole := intercalate_splitOn path
    rw [← List.take_append_drop (n + 1) (path.splitOn "/")] at hwhole
    by_cases hnil : (path.splitOn "/").drop (n + 1) = []
    · rw [hnil, List.append_nil, ← htext] at hwhole
      rw [hwhole]
    · rw [String.intercalate_append_of_ne_nil _ hnil, ← htext, String.append_assoc] at hwhole
      · rw [← hwhole, startsWith_append hempty]
      · rw [splitOn_slash]
        simp [List.splitOn_ne_nil]
  have hresolve : resolve cwd path = resolve cwd t ++ (path.splitOn "/").drop (n + 1) := by
    rw [← foldl_follow_plain hdrop, resolve, resolve, hstart, htake, ← List.foldl_append,
      List.take_append_drop]
  rw [hresolve, List.length_append]
  omega

/-- A directory made with all those on the way to it is found there, and nothing
else was made below it. -/
theorem makeDirs_made {base name : String} (hn : Plain name)
    (h : d.makeDirs cwd (join base name) = .ok d') :
    d'.locate cwd (join base name) = .ok (resolve cwd (join base name), .dir) ∧
      d'.below (resolve cwd (join base name)) = d.below (resolve cwd (join base name)) := by
  obtain ⟨above, habove, -⟩ := upwards_eq (join_ne_empty base hn)
  have hshort : ∀ t ∈ upwards (join base name), Short cwd (resolve cwd (join base name)) t :=
    short_upwards base hn
  unfold makeDirs at h
  rw [habove] at h hshort
  obtain ⟨p, hp⟩ := locate_of_makeEach h
  exact ⟨locate_resolve hp ▸ hp, (makeEach_keeps hshort h).2⟩

/-! ## Listings of directories -/

def listed (p : Path) (f : Folder) (e : Path × Node) : Folder :=
  match childName? p e.1 with
  | some name => Folder.insert name e.2 f
  | none => f

theorem childName?_concat (p : Path) (name : String) : childName? p (p ++ [name]) = some name := by
  simp [childName?]

theorem eq_concat_of_childName? {p q : Path} {name : String} (h : childName? p q = some name) :
    q = p ++ [name] := by
  unfold childName? at h
  split at h
  case isTrue hp =>
    rw [← beq_iff_eq.1 hp]
    exact (List.dropLast_append_getLast? name h).symm
  case isFalse => cases h

theorem folder_eq {path : String} {p : Path} (h : d.locate cwd path = .ok (p, .dir)) :
    d.folder cwd path = .ok ((d.below p).foldl (listed p) []) := by
  have hstep : listed p = fun f e => if p.isPrefixOf e.1 && e.1 != p then listed p f e else f := by
    funext f e
    cases hc : childName? p e.1 with
    | none => simp [listed, hc]
    | some name => simp [eq_concat_of_childName? hc]
  rw [below, List.foldl_filter, ← hstep, folder, h]
  rfl

end Disk

end TypedIR
