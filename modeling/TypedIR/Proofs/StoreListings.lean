import Mathlib
import TypedIR.Proofs.StoreHistory

/-
  What a listing of a store is worth, whatever the directory of its images holds.

  A listing goes from the names of files to keys, and whoever fetches an image goes from
  its key to the name of a file. The two agree where every file that is listed has the name
  that its key gives (`Folder.NamedByKeys`), and exactly there every line of the listing can
  be fetched under its key, no key stands twice, and a label is found when a line has it
  (`Store.listed_fetched_iff`).

  Digits of keys are read in capitals too, but never written so. A file that someone else
  named in capitals is listed, and its image is not found (`capitals_listed_not_fetched`).
-/

namespace TypedIR

/-! ## Folders -/

namespace Folder

variable {f : Folder} {name : String} {n : Node} {i : StoreInfo} {infos : List StoreInfo}

def Ascending (f : Folder) : Prop := f.Pairwise fun a b => a.1 < b.1

theorem mem_insert {e : String × Node} (h : e ∈ Disk.Folder.insert name n f) :
    e = (name, n) ∨ e ∈ f := by
  induction f with
  | nil => exact .inl (List.mem_singleton.1 h)
  | cons x f ih =>
    unfold Disk.Folder.insert at h
    split_ifs at h with hlt heq
    · exact (List.mem_cons.1 h)
    · exact (List.mem_cons.1 h).imp_right (List.mem_cons_of_mem _)
    · rcases List.mem_cons.1 h with rfl | h
      · exact .inr List.mem_cons_self
      · exact (ih h).imp_right (List.mem_cons_of_mem _)

theorem Ascending.insert (h : f.Ascending) (name : String) (n : Node) :
    Ascending (Disk.Folder.insert name n f) := by
  induction f with
  | nil => exact List.pairwise_singleton _ _
  | cons x f ih =>
    obtain ⟨hx, hf⟩ := List.pairwise_cons.1 h
    unfold Disk.Folder.insert
    split_ifs with hlt heq
    · exact List.pairwise_cons.2 ⟨fun e he => (List.mem_cons.1 he).elim
        (fun h => h ▸ hlt) fun he => lt_trans hlt (hx e he), h⟩
    · rw [beq_iff_eq] at heq
      exact List.pairwise_cons.2 ⟨heq ▸ hx, hf⟩
    · rw [beq_iff_eq] at heq
      have hgt : x.1 < name := lt_of_le_of_ne (not_lt.1 hlt) (Ne.symm heq)
      refine List.pairwise_cons.2 ⟨fun e he => ?_, ih hf⟩
      rcases mem_insert he with rfl | he
      · exact hgt
      · exact hx e he

theorem Ascending.lookup_eq_some_iff (h : f.Ascending) : f.lookup name = some n ↔ (name, n) ∈ f := by
  induction f with
  | nil => simp
  | cons x f ih =>
    obtain ⟨hx, hf⟩ := List.pairwise_cons.1 h
    obtain ⟨m, y⟩ := x
    by_cases hname : name = m
    · subst hname
      have hnot : ∀ n, (name, n) ∉ f := fun n hmem => lt_irrefl name (hx (name, n) hmem)
      simp [hnot, eq_comm]
    · rw [List.lookup_cons, beq_false_of_ne hname]
      simp [ih hf, hname]

/-- The file gives this line of a listing. -/
def Lists (f : Folder) (name : String) (i : StoreInfo) : Prop :=
  ∃ n, (name, n) ∈ f ∧ info name n = .ok (some i)

/-- Files that are listed have the names of their keys. -/
def NamedByKeys (f : Folder) : Prop :=
  ∀ ⦃name i⦄, f.Lists name i → name = i.key.fileName

theorem readEntry_eq_ok_iff {e : String × Image × Nat} : readEntry name n = .ok e ↔
    ∃ content s g, n = .file content ∧ StoreEntry.ofBytes? content = some s ∧ s.image = some g ∧
      s.schema = StoreEntry.currentSchema ∧ e = (s.label, g, content.length) := by
  constructor
  · intro h
    cases n with
    | dir => cases h
    | file content =>
      unfold readEntry at h
      dsimp only at h
      cases hs : StoreEntry.ofBytes? content with
      | none => rw [hs] at h; cases h
      | some s =>
        rw [hs] at h
        dsimp only at h
        cases hg : s.image with
        | none => rw [hg] at h; cases h
        | some g =>
          rw [hg] at h
          dsimp only at h
          split_ifs at h with hschema
          exact ⟨content, s, g, rfl, hs, hg, hschema, (Except.ok.inj h).symm⟩
  · rintro ⟨content, s, g, rfl, hs, hg, hschema, rfl⟩
    unfold readEntry
    dsimp only
    rw [hs]
    dsimp only
    rw [hg]
    dsimp only
    rw [if_pos hschema]

/-- A line of a listing: the name of the file is read as the key, and the entry in it is of
this schema. -/
theorem info_eq_some_iff : info name n = .ok (some i) ↔ Key.ofFileName? name = some i.key ∧
    ∃ g, readEntry name n = .ok (i.label, g, i.size) ∧ i.name = g.name ∧ i.target = g.target := by
  constructor
  · intro h
    unfold info at h
    split at h
    · next content key hkey =>
      split at h
      · next label g size hread =>
        cases h
        exact ⟨hkey, g, hread, rfl, rfl⟩
      · cases h
      · cases h
    · cases h
  · rintro ⟨hkey, g, hread, hname, htarget⟩
    obtain ⟨content, -, -, rfl, -⟩ := readEntry_eq_ok_iff.1 hread
    obtain ⟨key, label, _, _, size⟩ := i
    subst hname htarget
    unfold info
    rw [hkey]
    dsimp only
    rw [hread]

def line? (e : String × Node) : Option StoreInfo := (info e.1 e.2).toOption.join

theorem line?_eq_some_iff {e : String × Node} : line? e = some i ↔ info e.1 e.2 = .ok (some i) := by
  unfold line?
  rcases info e.1 e.2 with why | line <;> simp [Except.toOption, Option.join]

theorem listing_perm (h : f.listing = .ok infos) : infos.Perm (f.filterMap line?) := by
  have hlines : ∀ {f : Folder} {lines}, (f.mapM fun e => info e.1 e.2) = .ok lines →
      lines.filterMap id = f.filterMap line? := by
    intro f
    induction f with
    | nil =>
      intro lines h
      cases h
      rfl
    | cons e f ih =>
      intro lines h
      rw [List.mapM_cons] at h
      cases hline : info e.1 e.2 with
      | error why => rw [hline] at h; cases h
      | ok line =>
        cases hrest : f.mapM fun e => info e.1 e.2 with
        | error why => rw [hline, hrest] at h; cases h
        | ok rest =>
          rw [hline, hrest] at h
          cases h
          rw [List.filterMap_cons, List.filterMap_cons, ih hrest, line?, hline]
          rfl
  unfold listing at h
  cases hmapped : f.mapM fun e => info e.1 e.2 with
  | error why => rw [hmapped] at h; cases h
  | ok lines =>
    rw [hmapped] at h
    cases h
    rw [← hlines hmapped]
    exact List.mergeSort_perm _ _

theorem mem_listing_iff (h : f.listing = .ok infos) : i ∈ infos ↔ ∃ name, f.Lists name i := by
  rw [(listing_perm h).mem_iff, List.mem_filterMap]
  simp only [line?_eq_some_iff, Lists, Prod.exists]

theorem nodup_listing_iff (hf : f.Ascending) (h : f.listing = .ok infos) :
    (infos.map StoreInfo.key).Nodup ↔ ∀ ⦃name name' i i'⦄, f.Lists name i → f.Lists name' i' →
      i.key = i'.key → name = name' := by
  rw [((listing_perm h).map StoreInfo.key).nodup_iff, List.Nodup, List.pairwise_map,
    List.pairwise_filterMap]
  simp only [line?_eq_some_iff]
  constructor
  · rintro hpairs name name' i i' ⟨n, hmem, hi⟩ ⟨n', hmem', hi'⟩ hkey
    have : Std.Symm fun a b : String × Node => ∀ i, info a.1 a.2 = .ok (some i) →
        ∀ i', info b.1 b.2 = .ok (some i') → i.key ≠ i'.key :=
      ⟨fun _ _ hdiffer i hi i' hi' heq => hdiffer i' hi' i hi heq.symm⟩
    by_contra hne
    have hapart : (name, n) ≠ (name', n') := fun heq => hne (congrArg Prod.fst heq)
    exact hpairs.forall hmem hmem' hapart i hi i' hi' hkey
  · intro hone
    refine List.Pairwise.imp_of_mem (fun hmem hmem' hlt i hi i' hi' hkey => ?_) hf
    exact absurd (hone ⟨_, hmem, hi⟩ ⟨_, hmem', hi'⟩ hkey) (ne_of_lt hlt)

theorem image_eq_some_iff (hf : f.Ascending) {k : Key} {g : Image} :
    f.image k = .ok (some g) ↔ ∃ label size,
      ∃ n, (k.fileName, n) ∈ f ∧ readEntry k.fileName n = .ok (label, g, size) := by
  unfold image
  constructor
  · intro h
    cases hn : f.lookup k.fileName with
    | none => rw [hn] at h; cases h
    | some n =>
      rw [hn] at h
      dsimp only at h
      rcases hread : readEntry k.fileName n with why | ⟨label, g', size⟩
      · rw [hread] at h; cases h
      · rw [hread] at h
        cases h
        exact ⟨label, size, n, hf.lookup_eq_some_iff.1 hn, hread⟩
  · rintro ⟨label, size, n, hmem, hread⟩
    rw [hf.lookup_eq_some_iff.2 hmem]
    dsimp only
    rw [hread]
    rfl

theorem lists_of_image (hf : f.Ascending) {k : Key} {g : Image} (h : f.image k = .ok (some g)) :
    ∃ i, f.Lists k.fileName i ∧ i.key = k := by
  obtain ⟨label, size, n, hmem, hread⟩ := (image_eq_some_iff hf).1 h
  exact ⟨⟨k, label, g.name, g.target, size⟩,
    ⟨n, hmem, info_eq_some_iff.2 ⟨Key.ofFileName?_fileName k, g, hread, rfl, rfl⟩⟩, rfl⟩

/-- A file that has the name of its key is fetched, with the name and the target listed. -/
theorem image_of_lists (hf : f.Ascending) (h : f.Lists name i) (hname : name = i.key.fileName) :
    ∃ g, f.image i.key = .ok (some g) ∧ i.name = g.name ∧ i.target = g.target := by
  obtain ⟨n, hmem, hinfo⟩ := h
  obtain ⟨-, g, hread, hgname, htarget⟩ := info_eq_some_iff.1 hinfo
  subst hname
  exact ⟨g, (image_eq_some_iff hf).2 ⟨_, _, n, hmem, hread⟩, hgname, htarget⟩

theorem labelled_of_fetched (h : f.listing = .ok infos)
    (hfetched : ∀ i ∈ infos, ∃ g, f.image i.key = .ok (some g)) (label : String) :
    ∃ found, f.labelled label = .ok found ∧ (found.isSome ↔ ∃ i ∈ infos, i.label = label) := by
  unfold labelled
  rw [h]
  simp only [bind, Except.bind]
  cases hfind : infos.find? fun i => i.label == label with
  | none =>
    refine ⟨none, rfl, ?_⟩
    simpa using hfind
  | some i =>
    have hmem := List.mem_of_find?_eq_some hfind
    have hlabel := List.find?_some hfind
    obtain ⟨g, hg⟩ := hfetched i hmem
    dsimp only
    rw [hg]
    exact ⟨some (i.key, g), rfl, by simpa using ⟨i, hmem, by simpa using hlabel⟩⟩

end Folder

/-! ## Stores -/

theorem Disk.ascending_folder {d : Disk} {cwd : Path} {path : String} {f : Folder}
    (h : d.folder cwd path = .ok f) : f.Ascending := by
  unfold Disk.folder at h
  split at h
  · cases h
    refine List.foldlRecOn _ _ (motive := Folder.Ascending) List.Pairwise.nil fun f hf e _ => ?_
    split
    · exact hf.insert _ _
    · exact hf
  · cases h
  · cases h

namespace Store

variable {s : Store} {d : Disk} {f : Folder} {infos : List StoreInfo}

theorem ascending_folder (h : s.folder d = .ok f) : f.Ascending := by
  unfold Store.folder at h
  split at h
  · next hf =>
    cases h
    exact Disk.ascending_folder hf
  · split_ifs at h
    cases h
    exact .nil

theorem folder_of_list (h : s.list d = .ok infos) :
    ∃ f, s.folder d = .ok f ∧ f.listing = .ok infos := by
  unfold Store.list at h
  cases hf : s.folder d with
  | error why => rw [hf] at h; cases h
  | ok f => rw [hf] at h; exact ⟨f, rfl, h⟩

theorem get_eq (h : s.folder d = .ok f) (k : Key) : s.get d k = f.image k := by
  unfold Store.get
  rw [h]

theorem lookup_eq (h : s.folder d = .ok f) (label : String) : s.lookup d label = f.labelled label := by
  unfold Store.lookup
  rw [h]
  rfl

/-- In the directory of the store, files that are listed have the names of their keys. -/
def NamedByKeys (s : Store) (d : Disk) : Prop :=
  ∀ ⦃f⦄, s.folder d = .ok f → f.NamedByKeys

/-- Whatever is in the directory of the images: if there is a listing, then its lines can be
fetched under their keys with the names and targets listed, no key stands twice, and a label
is found when a line has it, exactly where the files that are listed have the names of their
keys. -/
theorem listed_fetched_iff (h : s.list d = .ok infos) :
    ((∀ i ∈ infos, ∃ g, s.get d i.key = .ok (some g) ∧ i.name = g.name ∧ i.target = g.target) ∧
      (infos.map StoreInfo.key).Nodup ∧
      ∀ label, ∃ found, s.lookup d label = .ok found ∧
        (found.isSome ↔ ∃ i ∈ infos, i.label = label)) ↔ s.NamedByKeys d := by
  obtain ⟨f, hf, hlisting⟩ := folder_of_list h
  have hasc := ascending_folder hf
  have hnamed : s.NamedByKeys d ↔ f.NamedByKeys :=
    ⟨fun hall => hall hf, fun hnamed f' hf' => Except.ok.inj (hf.symm.trans hf') ▸ hnamed⟩
  simp only [get_eq hf, lookup_eq hf]
  rw [hnamed, Folder.nodup_listing_iff hasc hlisting]
  constructor
  · rintro ⟨hfetched, hone, -⟩ name i hi
    obtain ⟨g, hg, -⟩ := hfetched i ((Folder.mem_listing_iff hlisting).2 ⟨name, hi⟩)
    obtain ⟨i', hi', hkey⟩ := Folder.lists_of_image hasc hg
    exact hone hi hi' hkey.symm
  · intro hnames
    have hfetched : ∀ i ∈ infos, ∃ g, f.image i.key = .ok (some g) ∧ i.name = g.name ∧
        i.target = g.target := by
      intro i hi
      obtain ⟨name, hlists⟩ := (Folder.mem_listing_iff hlisting).1 hi
      exact Folder.image_of_lists hasc hlists (hnames hlists)
    refine ⟨hfetched, fun name name' i i' hi hi' hkey => ?_,
      Folder.labelled_of_fetched hlisting fun i hi => (hfetched i hi).imp fun _ hg => hg.1⟩
    rw [hnames hi, hnames hi', hkey]

/-! ## A directory with one file -/

/-- The disk of a store in the directory `s` that has one file among its images. -/
def shelf (name : String) (content : Text.Bytes) : Disk :=
  { nodes := [(["s", "images", name], .file content), (["s", "images"], .dir), (["s"], .dir)] }

theorem folder_shelf (name : String) (content : Text.Bytes) :
    Store.folder ⟨"s", []⟩ (shelf name content) = .ok [(name, .file content)] := by
  have hnames : ("s/images".splitOn "/").filter (· ≠ "") = ["s", "images"] := by
    rw [Path.splitOn_slash]
    decide +kernel
  have hspot : (shelf name content).spot [] "s/images" = .ok (.entry ["s"] "images" false) := by
    have hslash : "s/images".endsWith "/" = false := by decide +kernel
    have hroot : "s/images".startsWith "/" = false := by decide +kernel
    unfold Disk.spot
    rw [hnames, if_neg (by decide +kernel), if_neg (by decide), if_neg (by decide +kernel), hslash,
      hroot]
    rfl
  have hlocated : (shelf name content).locate [] "s/images" = .ok (["s", "images"], .dir) := by
    unfold Disk.locate
    rw [hspot]
    rfl
  unfold Store.folder Disk.folder
  rw [Store.imagesDir, join_images, hlocated]
  rfl

def lone : Kept := ⟨⟨List.replicate 32 0xab, rfl⟩, "a", named "f"⟩

/-- One file with the image that `lone` holds is listed under the key that its name is read as. -/
theorem list_shelf {stem : String} (h : Key.ofText stem = .ok lone.key) :
    Store.list ⟨"s", []⟩ (shelf (stem ++ ".mp") (StoreEntry.current "a" (named "f")).bytes) =
      .ok [lone.line] := by
  have hread := readEntry_file (h := lone) (by decide +kernel) (stem ++ ".mp")
  have hinfo : Folder.info (stem ++ ".mp") lone.file = .ok (some lone.line) :=
    Folder.info_eq_some_iff.2 ⟨by rw [Key.ofFileName?_append, h]; rfl, _, hread, rfl, rfl⟩
  unfold Store.list
  rw [folder_shelf]
  show (do
    let lines ← [(stem ++ ".mp", lone.file)].mapM fun e => Folder.info e.1 e.2
    pure ((lines.filterMap id).mergeSort StoreInfo.before) : Except StoreError _) = _
  rw [List.mapM_cons, hinfo]
  simp [bind, Except.bind, pure, Except.pure]

/-- A file with the name of its key is listed and fetched. -/
theorem lone_listed_fetched :
    Store.list ⟨"s", []⟩ (shelf lone.key.fileName (StoreEntry.current "a" (named "f")).bytes) =
        .ok [lone.line] ∧
      Store.NamedByKeys ⟨"s", []⟩ (shelf lone.key.fileName (StoreEntry.current "a" (named "f")).bytes) ∧
      ∃ g, Store.get ⟨"s", []⟩ (shelf lone.key.fileName (StoreEntry.current "a" (named "f")).bytes)
        lone.key = .ok (some g) ∧ g.name = "f" := by
  have hlist : Store.list ⟨"s", []⟩
      (shelf lone.key.fileName (StoreEntry.current "a" (named "f")).bytes) = .ok [lone.line] :=
    list_shelf (Key.ofText_text _)
  have hnamed : Store.NamedByKeys ⟨"s", []⟩
      (shelf lone.key.fileName (StoreEntry.current "a" (named "f")).bytes) := by
    intro f hf name i hi
    rw [folder_shelf] at hf
    cases hf
    obtain ⟨n, hmem, hinfo⟩ := hi
    obtain ⟨rfl, -⟩ := Prod.ext_iff.1 (List.mem_singleton.1 hmem)
    obtain ⟨hkey, -⟩ := Folder.info_eq_some_iff.1 hinfo
    rw [Key.ofFileName?_fileName] at hkey
    rw [Option.some.inj hkey]
  obtain ⟨hfetched, -⟩ := (listed_fetched_iff hlist).2 hnamed
  obtain ⟨g, hg, hname, -⟩ := hfetched lone.line (List.mem_singleton.2 rfl)
  exact ⟨hlist, hnamed, g, hg, hname.symm⟩

/-- A file that is named by its key in capitals is listed, but neither its key nor its label
leads to the image. -/
theorem capitals_listed_not_fetched :
    Store.list ⟨"s", []⟩ (shelf (lone.key.text.map Char.toUpper ++ ".mp")
        (StoreEntry.current "a" (named "f")).bytes) = .ok [lone.line] ∧
      Store.get ⟨"s", []⟩ (shelf (lone.key.text.map Char.toUpper ++ ".mp")
        (StoreEntry.current "a" (named "f")).bytes) lone.line.key = .ok none ∧
      Store.lookup ⟨"s", []⟩ (shelf (lone.key.text.map Char.toUpper ++ ".mp")
        (StoreEntry.current "a" (named "f")).bytes) lone.line.label = .ok none := by
  have hapart : lone.key.fileName ≠ lone.key.text.map Char.toUpper ++ ".mp" := by
    intro h
    have hlists := congrArg String.toList h
    rw [Key.fileName, String.toList_append, String.toList_append, String.toList_map, Key.text,
      Text.toList_hexBytes] at hlists
    exact absurd (List.append_cancel_right hlists) (by decide)
  have hlist : Store.list ⟨"s", []⟩ (shelf (lone.key.text.map Char.toUpper ++ ".mp")
      (StoreEntry.current "a" (named "f")).bytes) = .ok [lone.line] :=
    list_shelf (Key.ofText_capitals _)
  have himage : Folder.image [(lone.key.text.map Char.toUpper ++ ".mp",
      .file (StoreEntry.current "a" (named "f")).bytes)] lone.key = .ok none := by
    unfold Folder.image
    rw [List.lookup_cons, beq_false_of_ne hapart]
    rfl
  have hfolder := folder_shelf (lone.key.text.map Char.toUpper ++ ".mp")
    (StoreEntry.current "a" (named "f")).bytes
  refine ⟨hlist, (get_eq hfolder _).trans himage, (lookup_eq hfolder _).trans ?_⟩
  obtain ⟨f, hf, hlisting⟩ := folder_of_list hlist
  obtain rfl := Except.ok.inj (hfolder.symm.trans hf)
  unfold Folder.labelled
  rw [hlisting]
  simp only [bind, Except.bind]
  rw [List.find?_cons_of_pos (by decide)]
  show (Folder.image _ lone.key >>= fun g => pure (g.map fun g => (lone.key, g)) :
    Except StoreError _) = _
  rw [himage]
  rfl

end Store

end TypedIR
