import Mathlib
import TypedIR.Proofs.StoreFiles

/-
  What a store answers after any calls.

  The history of the calls says for each key which image was put last and not
  cleared since (`Store.Current`). What is proved: after any calls that the disk
  did not refuse, the answers of a store that was opened on an empty directory
  are those of the history (`answers_follow_history`).

  Two things are assumed, not proved. Entries are read back from their bytes,
  and images that are put have different digests if they have different bytes.
  Without the second a key would stand for two images. Labels are compared by
  the numbers of their characters, which is the order of their bytes too.
-/

namespace TypedIR

/-! ## The order of listings -/

namespace StoreInfo

/-- One line comes before another: by its label, or by its key if the labels are
the same. -/
def Precedes (a b : StoreInfo) : Prop :=
  a.label < b.label ∨ a.label = b.label ∧ a.key.bytes < b.key.bytes

theorem before_iff (a b : StoreInfo) :
    a.before b = true ↔ a.label < b.label ∨ a.label = b.label ∧ a.key.text ≤ b.key.text := by
  unfold before
  by_cases h : a.label = b.label
  · simp [h]
  · simp [h]

theorem before_trans (a b c : StoreInfo) (hab : a.before b = true) (hbc : b.before c = true) :
    a.before c = true := by
  rw [before_iff] at *
  rcases hab with hab | ⟨hab, hk⟩
  · rcases hbc with hbc | ⟨hbc, -⟩
    · exact .inl (lt_trans hab hbc)
    · exact .inl (hbc ▸ hab)
  · rcases hbc with hbc | ⟨hbc, hk'⟩
    · exact .inl (hab ▸ hbc)
    · exact .inr ⟨hab.trans hbc, le_trans hk hk'⟩

theorem before_total (a b : StoreInfo) : (a.before b || b.before a) = true := by
  rw [Bool.or_eq_true, before_iff, before_iff]
  rcases lt_trichotomy a.label b.label with h | h | h
  · exact .inl (.inl h)
  · rcases le_total a.key.text b.key.text with hk | hk
    · exact .inl (.inr ⟨h, hk⟩)
    · exact .inr (.inr ⟨h.symm, hk⟩)
  · exact .inr (.inl h)

theorem Precedes.of_before {a b : StoreInfo} (h : a.before b = true) (hne : a.key ≠ b.key) :
    a.Precedes b := by
  rcases (before_iff a b).1 h with h | ⟨h, hk⟩
  · exact .inl h
  · refine .inr ⟨h, (Key.text_lt_iff _ _).1 (lt_of_le_of_ne hk fun heq => hne ?_)⟩
    exact Key.fileName_inj.1 (congrArg (· ++ ".mp") heq)

theorem precedes_mergeSort {infos : List StoreInfo} (hn : (infos.map StoreInfo.key).Nodup) :
    (infos.mergeSort before).Pairwise Precedes := by
  have hsorted := List.pairwise_mergeSort before_trans before_total infos
  have hkeys : (infos.mergeSort before).Pairwise fun a b => a.key ≠ b.key :=
    List.pairwise_map.1 (((List.mergeSort_perm infos before).map StoreInfo.key).nodup_iff.2 hn)
  exact (hsorted.and hkeys).imp fun h => Precedes.of_before h.1 h.2

end StoreInfo

namespace Store

variable {s : Store} {d d' : Disk} {held : List Kept}

/-! ## Sequences of calls -/

/-- A call of a store. -/
inductive Call where
  | put (label : String) (img : Option Image)
  | delete (k : Key)
  | dropAll
  | get (k : Key)
  | lookup (label : String)
  | list
  deriving DecidableEq, Repr

/-- The disk after a call, or why the disk refused. That there is no image is no
refusal of the disk, and reading leaves it as it is. -/
def perform (s : Store) (d : Disk) : Call → Except DiskError Disk
  | .put label img =>
    match s.put d label img with
    | .ok (_, d) => .ok d
    | .error (.disk e) => .error e
    | .error _ => .ok d
  | .delete k => s.delete d k
  | .dropAll => s.dropAll d
  | .get _ | .lookup _ | .list => .ok d

def run (s : Store) (d : Disk) (calls : List Call) : Except DiskError Disk :=
  calls.foldlM s.perform d

theorem run_cons (s : Store) (d : Disk) (c : Call) (calls : List Call) :
    s.run d (c :: calls) = s.perform d c >>= fun d => s.run d calls :=
  List.foldlM_cons

def keep (held : List Kept) : Call → List Kept
  | .put label (some g) =>
    ⟨Key.ofImage (some g), label, g⟩ :: held.filter fun e => e.key != Key.ofImage (some g)
  | .delete k => held.filter fun e => e.key != k
  | .dropAll => []
  | _ => held

def kept (calls : List Call) : List Kept :=
  calls.foldl keep []

theorem Holds.perform (h : s.Holds d held) {c : Call} (hc : s.perform d c = .ok d') :
    s.Holds d' (keep held c) := by
  cases c with
  | put label img =>
    cases img with
    | none =>
      cases hc
      exact h
    | some g =>
      unfold Store.perform at hc
      cases hput : s.put d label (some g) with
      | error e =>
        simp only [hput] at hc
        unfold Store.put at hput
        cases hwrite : d.writeFile s.cwd (s.fileOf (Key.ofImage (some g)))
            (StoreEntry.current label g).bytes with
        | error e' =>
          simp only [hwrite] at hput
          cases hput
          cases hc
        | ok d₁ => simp only [hwrite] at hput; cases hput
      | ok r =>
        obtain ⟨k, d₁⟩ := r
        simp only [hput] at hc
        cases hc
        obtain ⟨hk, hholds⟩ := h.put hput
        rw [hk] at hholds
        exact hholds
  | delete k => exact h.delete hc
  | dropAll => exact h.dropAll hc
  | get | lookup | list => cases hc; exact h

theorem Holds.run (h : s.Holds d held) {calls : List Call} (hrun : s.run d calls = .ok d') :
    s.Holds d' (calls.foldl keep held) := by
  induction calls generalizing d held with
  | nil => cases hrun; exact h
  | cons c calls ih =>
    unfold Store.run at hrun
    rw [List.foldlM_cons] at hrun
    cases hc : s.perform d c with
    | error e => rw [hc] at hrun; cases hrun
    | ok d₁ =>
      rw [hc] at hrun
      exact ih (h.perform hc) hrun

theorem size_fileOf (s : Store) (k : Key) :
    (s.fileOf k).utf8ByteSize = s.imagesDir.utf8ByteSize + 68 := by
  have hslash : "/".utf8ByteSize = 1 := by decide
  rw [fileOf_eq, String.utf8ByteSize_append, String.utf8ByteSize_append, Key.size_fileName, hslash]

/-- Calls that do not remove the directory are carried out if its path is not too
long. -/
theorem Holds.run_ok (h : s.Holds d held) (hshort : s.imagesDir.utf8ByteSize + 68 < Disk.pathLimit)
    {calls : List Call} (hdrop : Call.dropAll ∉ calls) : ∃ d', s.run d calls = .ok d' := by
  have hfile : ∀ k, (s.fileOf k).utf8ByteSize < Disk.pathLimit := fun k => by rwa [size_fileOf]
  induction calls generalizing d held with
  | nil => exact ⟨d, rfl⟩
  | cons c calls ih =>
    rw [List.mem_cons, not_or] at hdrop
    have hstep : ∃ d₁, s.perform d c = .ok d₁ := by
      cases c with
      | put label img =>
        cases img with
        | none => exact ⟨d, rfl⟩
        | some g =>
          unfold Store.perform
          simp only [h.put_ok (hfile _)]
          exact ⟨_, rfl⟩
      | delete k => exact h.delete_ok (hfile k)
      | dropAll => exact absurd rfl hdrop.1
      | get | lookup | list => exact ⟨d, rfl⟩
    obtain ⟨d₁, hd₁⟩ := hstep
    obtain ⟨d', hd'⟩ := ih (h.perform hd₁) hdrop.2
    refine ⟨d', ?_⟩
    unfold Store.run at hd' ⊢
    rw [List.foldlM_cons, hd₁]
    exact hd'

theorem nodup_keep (hn : (held.map Kept.key).Nodup) (c : Call) :
    ((keep held c).map Kept.key).Nodup := by
  have hfilter : ∀ p : Kept → Bool, ((held.filter p).map Kept.key).Nodup :=
    fun p => hn.sublist (List.filter_sublist.map _)
  cases c with
  | put label img =>
    cases img with
    | none => exact hn
    | some g =>
      refine List.nodup_cons.2 ⟨?_, hfilter _⟩
      intro hmem
      obtain ⟨e, he, hk⟩ := List.mem_map.1 hmem
      simpa [hk] using (List.mem_filter.1 he).2
  | delete k => exact hfilter _
  | dropAll => exact List.nodup_nil
  | get | lookup | list => exact hn

theorem nodup_kept (calls : List Call) : ((kept calls).map Kept.key).Nodup := by
  have hrun : ∀ held, (held.map Kept.key).Nodup → ((calls.foldl keep held).map Kept.key).Nodup := by
    induction calls with
    | nil => exact fun _ hn => hn
    | cons c calls ih => exact fun held hn => ih _ (nodup_keep hn c)
  exact hrun [] List.nodup_nil

/-! ## The history of a key -/

/-- The call takes away what is under the key. -/
def Call.Clears (k : Key) (c : Call) : Prop :=
  c = .delete k ∨ c = .dropAll

/-- The call puts an image under the key. -/
def Call.PutsAt (k : Key) (c : Call) : Prop :=
  ∃ label g, c = .put label (some g) ∧ Key.ofImage (some g) = k

/-- The image was put under the key, and nothing took it away since. -/
def Stored (calls : List Call) (k : Key) (g : Image) : Prop :=
  ∃ (before : List Call) (label : String) (after : List Call), calls = before ++ .put label (some g) :: after ∧
    Key.ofImage (some g) = k ∧ ∀ c ∈ after, ¬c.Clears k

/-- The last image that was put under a key came with a label, and the key was
not cleared since. -/
def Current (calls : List Call) (k : Key) (label : String) (g : Image) : Prop :=
  ∃ before after : List Call, calls = before ++ .put label (some g) :: after ∧
    Key.ofImage (some g) = k ∧ ∀ c ∈ after, ¬c.Clears k ∧ ¬c.PutsAt k

theorem mem_keep_iff {h : Kept} {c : Call} :
    h ∈ keep held c ↔
      c = .put h.label (some h.image) ∧ Key.ofImage (some h.image) = h.key ∨
        h ∈ held ∧ ¬c.Clears h.key ∧ ¬c.PutsAt h.key := by
  obtain ⟨k, label, g⟩ := h
  cases c with
  | put l img =>
    cases img with
    | none => simp [keep, Call.Clears, Call.PutsAt]
    | some g' =>
      simp only [keep, List.mem_cons, List.mem_filter, Call.Clears, Call.PutsAt, Kept.mk.injEq]
      grind
  | delete k' =>
    simp only [keep, List.mem_filter, Call.Clears, Call.PutsAt]
    grind
  | dropAll => simp [keep, Call.Clears]
  | get | lookup | list => simp [keep, Call.Clears, Call.PutsAt]

theorem mem_kept_iff {calls : List Call} {h : Kept} :
    h ∈ kept calls ↔ Current calls h.key h.label h.image := by
  induction calls using List.reverseRecOn with
  | nil => simp [kept, Current]
  | append_singleton calls c ih =>
    unfold kept at ih ⊢
    rw [List.foldl_append, List.foldl_cons, List.foldl_nil, mem_keep_iff, ih]
    constructor
    · rintro (⟨rfl, hk⟩ | ⟨⟨before, after, rfl, hk, hafter⟩, hc⟩)
      · exact ⟨calls, [], by simp, hk, by simp⟩
      · refine ⟨before, after ++ [c], by simp, hk, ?_⟩
        intro c' hc'
        rcases List.mem_append.1 hc' with hc' | hc'
        · exact hafter c' hc'
        · rw [List.mem_singleton.1 hc']
          exact hc
    · rintro ⟨before, after, heq, hk, hafter⟩
      rcases List.eq_nil_or_concat after with rfl | ⟨after, last, rfl⟩
      · have := List.append_inj' heq rfl
        exact .inl ⟨List.singleton_inj.1 this.2, hk⟩
      · rw [List.concat_eq_append, ← List.cons_append, ← List.append_assoc] at heq
        obtain ⟨rfl, hlast⟩ := List.append_inj' heq rfl
        rw [List.concat_eq_append] at hafter
        refine .inr ⟨⟨before, after, rfl, hk, fun c' hc' => hafter c' (by simp [hc'])⟩, ?_⟩
        exact hafter c (by simp [List.singleton_inj.1 hlast])

/-! ## Reading -/

theorem insert_entry {h : Kept} (hnew : h.key ∉ held.map Kept.key) :
    ∃ held' : List Kept, held'.Perm (h :: held) ∧
      Disk.Folder.insert h.key.fileName h.file (held.map Kept.entry) = held'.map Kept.entry := by
  induction held with
  | nil => exact ⟨[h], .refl _, rfl⟩
  | cons e held ih =>
    rw [List.map_cons, List.mem_cons, not_or] at hnew
    rw [List.map_cons, Kept.entry, Disk.Folder.insert]
    have hne : ¬(h.key.fileName == e.key.fileName) = true := by
      simpa [Key.fileName_inj] using hnew.1
    by_cases hlt : h.key.fileName < e.key.fileName
    · rw [if_pos hlt]
      exact ⟨h :: e :: held, .refl _, rfl⟩
    · rw [if_neg hlt, if_neg hne]
      obtain ⟨held', hperm, heq⟩ := ih hnew.2
      refine ⟨e :: held', (hperm.cons e).trans (.swap h e held), ?_⟩
      rw [heq]
      rfl

theorem foldl_listed (p : Path) {f : List Kept} (hn : (held.map Kept.key).Nodup)
    (hout : ∀ e ∈ held, e.key ∉ f.map Kept.key) :
    ∃ held' : List Kept, held'.Perm (held ++ f) ∧
      (held.map fun h => (p ++ [h.key.fileName], h.file)).foldl (Disk.listed p)
        (f.map Kept.entry) = held'.map Kept.entry := by
  induction held generalizing f with
  | nil => exact ⟨f, .refl _, rfl⟩
  | cons e held ih =>
    rw [List.map_cons, List.nodup_cons] at hn
    rw [List.forall_mem_cons] at hout
    obtain ⟨f', hf', heq⟩ := insert_entry hout.1
    have hnew : ∀ e' ∈ held, e'.key ∉ f'.map Kept.key := by
      intro e' he' hmem
      rcases List.mem_cons.1 ((hf'.map Kept.key).mem_iff.1 hmem) with hk | hk
      · exact hn.1 (hk ▸ List.mem_map_of_mem he')
      · exact hout.2 e' he' hk
    have hfirst : Disk.listed p (f.map Kept.entry) (p ++ [e.key.fileName], e.file) =
        f'.map Kept.entry := by
      rw [Disk.listed, Disk.childName?_concat, ← heq]
    obtain ⟨held', hperm, hfold⟩ := ih hn.2 hnew
    refine ⟨held', hperm.trans ((hf'.append_left held).trans List.perm_middle), ?_⟩
    rw [List.map_cons, List.foldl_cons, hfirst, hfold]

theorem Holds.folder (h : s.Holds d held) (hn : (held.map Kept.key).Nodup) :
    ∃ held' : List Kept, held'.Perm held ∧ s.folder d = .ok (held'.map Kept.entry) := by
  obtain ⟨held', hperm, hfold⟩ := foldl_listed s.images (f := []) hn (by simp)
  refine ⟨held', by simpa using hperm, ?_⟩
  rw [Store.folder, Disk.folder_eq h.located, h.files]
  exact congrArg Except.ok hfold

def Packs (held : List Kept) : Prop :=
  ∀ h ∈ held, StoreEntry.ofBytes? (StoreEntry.current h.label h.image).bytes =
    some (StoreEntry.current h.label h.image)

theorem readEntry_file {h : Kept} (hp : StoreEntry.ofBytes? (StoreEntry.current h.label h.image).bytes =
    some (StoreEntry.current h.label h.image)) (name : String) :
    Folder.readEntry name h.file =
      .ok (h.label, h.image, (StoreEntry.current h.label h.image).bytes.length) := by
  unfold Folder.readEntry Kept.file
  simp only [hp]
  rfl

theorem image_eq (hp : Packs held) (k : Key) :
    Folder.image (held.map Kept.entry) k =
      .ok ((held.find? fun h => h.key == k).map Kept.image) := by
  have hlookup : (held.map Kept.entry).lookup k.fileName =
      (held.find? fun h => h.key == k).map Kept.file := by
    clear hp
    induction held with
    | nil => rfl
    | cons h held ih =>
      by_cases hk : h.key = k
      · simp [hk, Kept.entry]
      · have hname : (k.fileName == h.key.fileName) = false := by
          simpa [Key.fileName_inj] using Ne.symm hk
        rw [List.map_cons, Kept.entry, List.lookup_cons, hname,
          List.find?_cons_of_neg (by simpa using hk)]
        exact ih
  unfold Folder.image
  rw [hlookup]
  cases hfind : held.find? fun h => h.key == k with
  | none => rfl
  | some h =>
    simp only [Option.map_some, readEntry_file (hp h (List.mem_of_find?_eq_some hfind))]
    rfl

theorem listing_eq (hp : Packs held) :
    Folder.listing (held.map Kept.entry) = .ok ((held.map Kept.line).mergeSort StoreInfo.before) := by
  have hinfos : (held.map Kept.entry).mapM (fun e => Folder.info e.1 e.2) =
      (.ok (held.map fun h => some h.line) : Except StoreError _) := by
    induction held with
    | nil => rfl
    | cons h held ih =>
      have hinfo : Folder.info h.entry.1 h.entry.2 = .ok (some h.line) := by
        have hread := readEntry_file (hp h (by simp)) h.key.fileName
        unfold Folder.info
        simp only [Kept.entry, Kept.file, Key.ofFileName?_fileName] at hread ⊢
        rw [hread]
        rfl
      rw [List.map_cons, List.mapM_cons, hinfo, ih fun e he => hp e (by simp [he])]
      rfl
  unfold Folder.listing
  rw [hinfos]
  simp only [bind, Except.bind, List.filterMap_map, pure, Except.pure]
  congr 2
  exact congrFun (List.filterMap_eq_map' (f := Kept.line)) held

/-! ## Answers and histories -/

theorem perm_find? {held' : List Kept} (hperm : held'.Perm held) (hn : (held.map Kept.key).Nodup)
    {k : Key} {h : Kept} : held'.find? (fun e => e.key == k) = some h ↔ h ∈ held ∧ h.key = k := by
  have hn' : (held'.map Kept.key).Nodup := (hperm.map Kept.key).nodup_iff.2 hn
  rw [← hperm.mem_iff]
  clear hperm
  induction held' with
  | nil => simp
  | cons e held' ih =>
    rw [List.map_cons, List.nodup_cons] at hn'
    by_cases hk : e.key = k
    · rw [List.find?_cons_of_pos (by simpa using hk), Option.some.injEq]
      constructor
      · rintro rfl
        exact ⟨List.mem_cons_self, hk⟩
      · rintro ⟨hmem, hh⟩
        rcases List.mem_cons.1 hmem with rfl | hmem
        · rfl
        · have hkey : e.key ∈ held'.map Kept.key :=
            List.mem_map.2 ⟨h, hmem, hh.trans hk.symm⟩
          exact absurd hkey hn'.1
    · rw [List.find?_cons_of_neg (by simpa using hk), List.mem_cons]
      refine (ih hn'.2).trans ?_
      constructor
      · exact fun h => ⟨.inr h.1, h.2⟩
      · rintro ⟨rfl | hmem, hh⟩
        · exact absurd hh hk
        · exact ⟨hmem, hh⟩

theorem key_mem_keep {k : Key} (h : k ∈ held.map Kept.key) {c : Call} (hc : ¬c.Clears k) :
    k ∈ (keep held c).map Kept.key := by
  have hfilter : ∀ k', k ≠ k' → k ∈ (held.filter fun e => e.key != k').map Kept.key := by
    intro k' hne
    obtain ⟨e, he, rfl⟩ := List.mem_map.1 h
    exact List.mem_map.2 ⟨e, List.mem_filter.2 ⟨he, by simpa using hne⟩, rfl⟩
  cases c with
  | put label img =>
    cases img with
    | none => exact h
    | some g =>
      rw [keep, List.map_cons, List.mem_cons]
      by_cases hk : k = Key.ofImage (some g)
      · exact .inl hk
      · exact .inr (hfilter _ hk)
  | delete k' => exact hfilter k' fun hk => hc (.inl (hk ▸ rfl))
  | dropAll => exact absurd (.inr rfl) hc
  | get | lookup | list => exact h

theorem Stored.current {calls : List Call} {k : Key} {g : Image} (h : Stored calls k g) :
    ∃ label g', Current calls k label g' := by
  obtain ⟨before, label, after, rfl, hk, hafter⟩ := h
  have hput : k ∈ (keep (kept before) (.put label (some g))).map Kept.key := by
    rw [keep, List.map_cons, hk]
    exact List.mem_cons_self
  have hstays : ∀ held : List Kept, k ∈ held.map Kept.key → k ∈ (after.foldl keep held).map Kept.key := by
    clear hput
    induction after with
    | nil => exact fun _ h => h
    | cons c after ih =>
      rw [List.forall_mem_cons] at hafter
      exact fun held h => ih hafter.2 _ (key_mem_keep h hafter.1)
  have hmem := hstays _ hput
  have hfold : kept (before ++ .put label (some g) :: after) =
      after.foldl keep (keep (kept before) (.put label (some g))) := by
    rw [kept, List.foldl_append, List.foldl_cons, kept]
  rw [← hfold] at hmem
  obtain ⟨e, he, rfl⟩ := List.mem_map.1 hmem
  exact ⟨e.label, e.image, mem_kept_iff.1 he⟩

theorem Current.stored {calls : List Call} {k : Key} {label : String} {g : Image}
    (h : Current calls k label g) : Stored calls k g := by
  obtain ⟨before, after, heq, hk, hafter⟩ := h
  exact ⟨before, label, after, heq, hk, fun c hc => (hafter c hc).1⟩

def labelsOf (calls : List Call) : List String :=
  calls.filterMap fun
    | .put label (some _) => some label
    | _ => none

def imagesOf (calls : List Call) : List Image :=
  calls.filterMap fun
    | .put _ (some g) => some g
    | _ => none

theorem mem_of_put {calls : List Call} {label : String} {g : Image}
    (h : Call.put label (some g) ∈ calls) : label ∈ labelsOf calls ∧ g ∈ imagesOf calls :=
  ⟨List.mem_filterMap.2 ⟨_, h, rfl⟩, List.mem_filterMap.2 ⟨_, h, rfl⟩⟩

theorem exists_label {calls : List Call} {g : Image} (h : g ∈ imagesOf calls) :
    ∃ label, label ∈ labelsOf calls := by
  obtain ⟨c, hc, heq⟩ := List.mem_filterMap.1 h
  match c, heq with
  | .put label (some _), _ => exact ⟨label, (mem_of_put hc).1⟩

theorem Stored.mem_imagesOf {calls : List Call} {k : Key} {g : Image} (h : Stored calls k g) :
    g ∈ imagesOf calls ∧ Key.ofImage (some g) = k := by
  obtain ⟨before, label, after, rfl, hk, -⟩ := h
  exact ⟨(mem_of_put (List.mem_append_right _ List.mem_cons_self)).2, hk⟩

theorem bytes_current_congr {g g' : Image} (h : (Pack.imageItem g).bytes = (Pack.imageItem g').bytes)
    (label : String) : (StoreEntry.current label g).bytes = (StoreEntry.current label g').bytes := by
  simp [StoreEntry.bytes, StoreEntry.current, Pack.record, Pack.always, Pack.Item.bytes,
    Pack.Item.mapBytes, h]

theorem mem_lines_iff {calls : List Call} {infos : List StoreInfo} (hperm : infos.Perm ((kept calls).map Kept.line))
    {i : StoreInfo} : i ∈ infos ↔ ∃ g, Current calls i.key i.label g ∧ i.name = g.name ∧
      i.target = g.target ∧ i.size = (StoreEntry.current i.label g).bytes.length := by
  rw [hperm.mem_iff, List.mem_map]
  constructor
  · rintro ⟨e, he, rfl⟩
    exact ⟨e.image, mem_kept_iff.1 he, rfl, rfl, rfl⟩
  · rintro ⟨g, hcurrent, hname, htarget, hsize⟩
    refine ⟨⟨i.key, i.label, g⟩, mem_kept_iff.2 hcurrent, ?_⟩
    cases i
    simp_all [Kept.line]

section Answers

variable {calls : List Call}
  (hpack : ∀ label ∈ labelsOf calls, ∀ g ∈ imagesOf calls,
    StoreEntry.ofBytes? (StoreEntry.current label g).bytes = some (StoreEntry.current label g))
  (hdigest : ∀ g ∈ imagesOf calls, ∀ g' ∈ imagesOf calls,
    Digest.sha256 (Pack.imageItem g).bytes = Digest.sha256 (Pack.imageItem g').bytes →
      (Pack.imageItem g).bytes = (Pack.imageItem g').bytes)
include hpack

theorem packs_kept : Packs (kept calls) := by
  intro h hmem
  obtain ⟨before, after, heq, -, -⟩ := mem_kept_iff.1 hmem
  have hput : Call.put h.label (some h.image) ∈ calls := by
    rw [heq]
    exact List.mem_append_right _ List.mem_cons_self
  exact hpack _ (mem_of_put hput).1 _ (mem_of_put hput).2

include hdigest in
theorem image_unique {g g' : Image} (hg : g ∈ imagesOf calls) (hg' : g' ∈ imagesOf calls)
    (h : Key.ofImage (some g) = Key.ofImage (some g')) : g = g' := by
  obtain ⟨label, hlabel⟩ := exists_label hg
  have hbytes := hdigest g hg g' hg' (congrArg Key.bytes h)
  have hread := hpack label hlabel g hg
  rw [bytes_current_congr hbytes label, hpack label hlabel g' hg', Option.some.injEq] at hread
  exact Option.some.inj (congrArg StoreEntry.image hread).symm

/-- What is read from a disk: its folder has an image for each key under which
one is current, and a listing with a line for each of them. -/
theorem Holds.reads (h : s.Holds d (kept calls)) :
    ∃ f infos, s.folder d = .ok f ∧ Folder.listing f = .ok infos ∧
      infos.Perm ((kept calls).map Kept.line) ∧ infos.Pairwise StoreInfo.Precedes ∧
      ∀ k, ∃ found, Folder.image f k = .ok found ∧
        ∀ g, found = some g ↔ ∃ label, Current calls k label g := by
  obtain ⟨held', hperm, hfolder⟩ := h.folder (nodup_kept calls)
  have hpacks : Packs held' := fun e he => packs_kept hpack e (hperm.mem_iff.1 he)
  refine ⟨_, _, hfolder, listing_eq hpacks, ?_, ?_, fun k => ⟨_, image_eq hpacks k, fun g => ?_⟩⟩
  · exact (List.mergeSort_perm _ _).trans (hperm.map Kept.line)
  · refine StoreInfo.precedes_mergeSort ?_
    rw [List.map_map]
    exact (hperm.map Kept.key).nodup_iff.2 (nodup_kept calls)
  · rw [Option.map_eq_some_iff]
    constructor
    · rintro ⟨e, he, rfl⟩
      obtain ⟨hmem, rfl⟩ := (perm_find? hperm (nodup_kept calls)).1 he
      exact ⟨e.label, mem_kept_iff.1 hmem⟩
    · rintro ⟨label, hcurrent⟩
      have hmem : (⟨k, label, g⟩ : Kept) ∈ kept calls := mem_kept_iff.2 hcurrent
      exact ⟨⟨k, label, g⟩, (perm_find? hperm (nodup_kept calls)).2 ⟨hmem, rfl⟩, rfl⟩

theorem Holds.get_stored (h : s.Holds d (kept calls))
    (hunique : ∀ g ∈ imagesOf calls, ∀ g' ∈ imagesOf calls,
      Key.ofImage (some g) = Key.ofImage (some g') → g = g') (k : Key) :
    ∃ found, s.get d k = .ok found ∧ ∀ g, found = some g ↔ Stored calls k g := by
  obtain ⟨f, -, hfolder, -, -, -, himage⟩ := h.reads hpack
  obtain ⟨found, hfound, hiff⟩ := himage k
  refine ⟨found, by rw [Store.get, hfolder]; exact hfound, fun g => (hiff g).trans ⟨?_, ?_⟩⟩
  · rintro ⟨label, hcurrent⟩
    exact hcurrent.stored
  · intro hstored
    obtain ⟨label, g', hcurrent⟩ := hstored.current
    obtain ⟨hg, hk⟩ := hstored.mem_imagesOf
    obtain ⟨hg', hk'⟩ := hcurrent.stored.mem_imagesOf
    rw [hunique g hg g' hg' (hk.trans hk'.symm)]
    exact ⟨label, hcurrent⟩

theorem Holds.lookup_least (h : s.Holds d (kept calls)) (label : String) :
    ∃ found, s.lookup d label = .ok found ∧
      (∀ k g, found = some (k, g) ↔ Current calls k label g ∧
        ∀ k' g', Current calls k' label g' → k' = k ∨ k.bytes < k'.bytes) ∧
      (found = none ↔ ∀ k g, ¬Current calls k label g) := by
  obtain ⟨f, infos, hfolder, hlisting, hperm, hsorted, himage⟩ := h.reads hpack
  have hline : ∀ k g, Current calls k label g → ∃ i ∈ infos, i.key = k ∧ i.label = label := by
    intro k g hcurrent
    refine ⟨(⟨k, label, g⟩ : Kept).line, ?_, rfl, rfl⟩
    exact (mem_lines_iff hperm).2 ⟨g, hcurrent, rfl, rfl, rfl⟩
  have hlookup : s.lookup d label =
      (infos.find? fun i => i.label == label).elim (.ok none)
        fun i => (fun g => g.map fun g => (i.key, g)) <$> Folder.image f i.key := by
    rw [Store.lookup, hfolder]
    simp only [bind, Except.bind, Folder.labelled, hlisting]
    cases infos.find? fun i => i.label == label with
    | none => rfl
    | some i => cases Folder.image f i.key <;> rfl
  cases hfind : infos.find? fun i => i.label == label with
  | none =>
    have habsent : ∀ k g, ¬Current calls k label g := by
      intro k g hcurrent
      obtain ⟨i, hi, -, hlabel⟩ := hline k g hcurrent
      exact List.find?_eq_none.1 hfind i hi (by simpa using hlabel)
    rw [hfind] at hlookup
    refine ⟨none, hlookup, fun k g => ⟨fun h => ?_, fun h => absurd h.1 (habsent k g)⟩, ?_⟩
    · cases h
    · exact ⟨fun _ => habsent, fun _ => rfl⟩
  | some i =>
    obtain ⟨hlabel, before, after, hinfos, hbefore⟩ := List.find?_eq_some_iff_append.1 hfind
    have hlabel : i.label = label := by simpa using hlabel
    have hi : i ∈ infos := hinfos ▸ List.mem_append_right _ List.mem_cons_self
    obtain ⟨g, hcurrent, -⟩ := (mem_lines_iff hperm).1 hi
    rw [hlabel] at hcurrent
    obtain ⟨found, hfound, hiff⟩ := himage i.key
    have hsome : found = some g := (hiff g).2 ⟨label, hcurrent⟩
    -- a line with the label is the first one or comes after it
    have hleast : ∀ k' g', Current calls k' label g' → k' = i.key ∨ i.key.bytes < k'.bytes := by
      intro k' g' hcurrent'
      obtain ⟨j, hj, rfl, hj'⟩ := hline k' g' hcurrent'
      rw [hinfos, List.mem_append, List.mem_cons] at hj
      rcases hj with hj | rfl | hj
      · exact absurd (hbefore j hj) (by simpa using hj')
      · exact .inl rfl
      · rw [hinfos] at hsorted
        have hij := List.rel_of_pairwise_cons (List.pairwise_append.1 hsorted).2.1 hj
        rcases hij with hlt | ⟨-, hlt⟩
        · rw [hlabel, hj'] at hlt
          exact absurd hlt (lt_irrefl label)
        · exact .inr hlt
    rw [hfind, Option.elim_some, hfound, hsome] at hlookup
    refine ⟨some (i.key, g), hlookup, fun k g' => ⟨?_, ?_⟩, ?_⟩
    · intro heq
      obtain ⟨rfl, rfl⟩ := Prod.ext_iff.1 (Option.some.inj heq)
      exact ⟨hcurrent, hleast⟩
    · rintro ⟨hcurrent', hleast'⟩
      have hkey : k = i.key := by
        rcases hleast k g' hcurrent' with hk | hlt
        · exact hk
        · rcases hleast' i.key g hcurrent with hk | hlt'
          · exact hk.symm
          · rw [← Key.text_lt_iff] at hlt hlt'
            exact absurd hlt' (lt_asymm hlt)
      rw [hkey] at hcurrent' ⊢
      have hsame := hsome.symm.trans ((hiff g').2 ⟨label, hcurrent'⟩)
      rw [Option.some.inj hsame]
    · constructor
      · intro hnone
        cases hnone
      · exact fun habsent => absurd hcurrent (habsent i.key g)

end Answers

/-- What a store answers on a disk is what the history of its calls says: the
image that was put under a key and not cleared since, one line for each such key
with the label of its last put, and under a label the image with the least key
that has it. -/
structure Answers (s : Store) (d : Disk) (calls : List Call) : Prop where
  get : ∀ k, ∃ found, s.get d k = .ok found ∧ ∀ g, found = some g ↔ Stored calls k g
  list : ∃ infos, s.list d = .ok infos ∧ infos.Pairwise StoreInfo.Precedes ∧
    (infos.map StoreInfo.key).Nodup ∧
    (∀ k, k ∈ infos.map StoreInfo.key ↔ ∃ g, Stored calls k g) ∧
    ∀ i, i ∈ infos ↔ ∃ g, Current calls i.key i.label g ∧ i.name = g.name ∧
      i.target = g.target ∧ i.size = (StoreEntry.current i.label g).bytes.length
  lookup : ∀ label, ∃ found, s.lookup d label = .ok found ∧
    (∀ k g, found = some (k, g) ↔ Current calls k label g ∧
      ∀ k' g', Current calls k' label g' → k' = k ∨ k.bytes < k'.bytes) ∧
    (found = none ↔ ∀ k g, ¬Current calls k label g)

/-- A store that was opened on an empty directory answers by the history of its
calls, whatever they were, as long as the disk refused none of them, entries are
read back from their bytes, and no two images that were put have one digest. -/
theorem answers_follow_history {d d₀ d₁ : Disk} {cwd : Path} {dir : String} {s : Store}
    {calls : List Call} (hempty : d.below (Path.resolve cwd dir) = [])
    (hopen : Store.openAt d cwd dir = .ok (s, d₀)) (hrun : s.run d₀ calls = .ok d₁)
    (hpack : ∀ label ∈ labelsOf calls, ∀ g ∈ imagesOf calls,
      StoreEntry.ofBytes? (StoreEntry.current label g).bytes = some (StoreEntry.current label g))
    (hdigest : ∀ g ∈ imagesOf calls, ∀ g' ∈ imagesOf calls,
      Digest.sha256 (Pack.imageItem g).bytes = Digest.sha256 (Pack.imageItem g').bytes →
        (Pack.imageItem g).bytes = (Pack.imageItem g').bytes) :
    s.Answers d₁ calls := by
  have hholds : s.Holds d₁ (kept calls) := (holds_openAt hempty hopen).run hrun
  have hunique : ∀ g ∈ imagesOf calls, ∀ g' ∈ imagesOf calls,
      Key.ofImage (some g) = Key.ofImage (some g') → g = g' :=
    fun g hg g' hg' => image_unique hpack hdigest hg hg'
  obtain ⟨f, infos, hfolder, hlisting, hperm, hsorted, -⟩ := hholds.reads hpack
  have hkeys : (infos.map StoreInfo.key).Perm ((kept calls).map Kept.key) := by
    have := hperm.map StoreInfo.key
    rwa [List.map_map] at this
  have hstored : ∀ k, k ∈ infos.map StoreInfo.key ↔ ∃ g, Stored calls k g := by
    intro k
    rw [hkeys.mem_iff, List.mem_map]
    constructor
    · rintro ⟨e, he, rfl⟩
      exact ⟨e.image, (mem_kept_iff.1 he).stored⟩
    · rintro ⟨g, hstored⟩
      obtain ⟨label, g', hcurrent⟩ := hstored.current
      exact ⟨⟨k, label, g'⟩, mem_kept_iff.2 hcurrent, rfl⟩
  have hlist : s.list d₁ = .ok infos := by
    rw [Store.list, hfolder]
    exact hlisting
  exact {
    get := hholds.get_stored hpack hunique
    list := ⟨infos, hlist, hsorted, hkeys.nodup_iff.2 (nodup_kept calls), hstored,
      fun i => mem_lines_iff hperm⟩
    lookup := hholds.lookup_least hpack }

def named (name : String) : Image :=
  { version := 1, target := "x86_64-linux-gnu", name }

/-- An image is put, all is dropped, the image comes back under one label and
then under another, and a second one is put, deleted and put again. -/
def session : List Call :=
  [.put "b" (some (named "f")), .dropAll, .put "b" (some (named "f")), .put "a" (some (named "f")),
    .put "a" (some (named "g")), .delete (Key.ofImage (some (named "g"))), .put "b" none,
    .put "a" (some (named "g")), .list]

def fresh : Disk :=
  { nodes := [(["s", "images"], .dir), (["s"], .dir)] }

theorem join_images : Path.join "s" "images" = "s/images" := by
  rw [Path.join, if_neg (by decide), Path.clean_eq, Path.reduced, Path.splitOn_slash]
  decide +kernel

theorem answers_of_session :
    ∃ (s : Store) (d₁ : Disk), Disk.below {} (Path.resolve [] "s") = [] ∧
      Store.openAt {} [] "s" = .ok (s, fresh) ∧ s.run fresh session = .ok d₁ ∧
      s.Answers d₁ session := by
  have hup : Path.upwards "s/images" = ["s/images", "s"] := by
    rw [Path.upwards, Path.splitOn_slash]
    decide +kernel
  -- the directories are made when the store is opened, and again after all was dropped
  have hmake : ∀ nodes ∈ [[], [(["s"], Node.dir)]],
      Disk.makeDirs { nodes } [] "s/images" = .ok fresh := by
    simp only [Disk.makeDirs, hup, Disk.makeEach, Disk.find, Disk.locate, Disk.spot, Disk.makeDir,
      Path.splitOn_slash]
    decide +kernel
  have hopen : Store.openAt {} [] "s" = .ok (⟨"s", []⟩, fresh) := by
    rw [Store.openAt, Store.imagesDir, join_images, hmake [] (by simp)]
    rfl
  have himages : Store.images ⟨"s", []⟩ = ["s", "images"] := by
    rw [images_eq, Path.resolve, Path.splitOn_slash]
    decide +kernel
  have hempty : Disk.below {} (Path.resolve [] "s") = [] := rfl
  have hshort : (Store.imagesDir ⟨"s", []⟩).utf8ByteSize + 68 < Disk.pathLimit := by
    rw [Store.imagesDir, join_images]
    decide
  have hholds := holds_openAt hempty hopen
  have hput := hholds.put_ok (by rwa [size_fileOf]) "b" (g := named "f")
  obtain ⟨d, hd⟩ : ∃ d, d = fresh.put (Store.images ⟨"s", []⟩ ++ [(Key.ofImage (some (named "f"))).fileName])
      (.file (StoreEntry.current "b" (named "f")).bytes) := ⟨_, rfl⟩
  rw [← hd] at hput
  have hdrop : Store.dropAll ⟨"s", []⟩ d = .ok fresh := by
    rw [Store.dropAll, (hholds.put hput).2.removeTree_eq, hd, himages, Store.imagesDir, join_images]
    exact hmake [(["s"], .dir)] (by simp)
  obtain ⟨d₁, hd₁⟩ : ∃ d₁, Store.run ⟨"s", []⟩ fresh (session.drop 2) = .ok d₁ :=
    hholds.run_ok hshort (by decide)
  have hfirst : Store.perform ⟨"s", []⟩ fresh (.put "b" (some (named "f"))) = .ok d := by
    unfold Store.perform
    simp only [hput]
  have hrun : Store.run ⟨"s", []⟩ fresh session = .ok d₁ := by
    rw [session, run_cons, hfirst]
    change Store.run ⟨"s", []⟩ d (.dropAll :: session.drop 2) = .ok d₁
    rw [run_cons, Store.perform, hdrop]
    exact hd₁
  exact ⟨_, d₁, hempty, hopen, hrun, answers_follow_history hempty hopen hrun (by decide +kernel)
    (by decide +kernel)⟩

end Store

end TypedIR
