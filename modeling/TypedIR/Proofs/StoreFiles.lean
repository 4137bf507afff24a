import Mathlib.Data.String.Basic
import TypedIR.Proofs.DiskWalks
import TypedIR.Store

/-
  The files of a store.

  A key is written as two hexadecimal digits for each of its bytes, with an
  ending. The key is read back from the name of its file (`ofFileName?_fileName`),
  so different keys have different files, the name is one that an entry of a
  directory can have, and texts of keys are in the order of their bytes
  (`text_lt_iff`).

  What a store holds is a list of keys, each with a label and an image. The disk
  holds it (`Store.Holds`) if the directory of the images is there and has the
  files of these entries and nothing else. What is proved: this is so for a
  store that was opened on an empty directory, which holds nothing
  (`holds_openAt`), and each call that changes the disk keeps it for what is
  held then (`Holds.put`, `Holds.delete`, `Holds.dropAll`).

  That the disk refuses a call is never excluded by this: paths can be too long.
-/

namespace TypedIR

open Text

namespace Text

theorem toList_loop (bs : ByteArray) (i : Nat) (r : List UInt8) :
    ByteArray.toList.loop bs i r = r.reverse ++ bs.data.toList.drop i := by
  fun_induction ByteArray.toList.loop bs i r with
  | case1 i r h ih =>
    have hi : i < bs.data.toList.length := by simpa using h
    have hget : bs.get! i = bs.data.toList[i] := getElem!_pos bs.data i h
    rw [ih, List.drop_eq_getElem_cons hi, hget]
    simp
  | case2 i r h =>
    have hi : bs.data.toList.length ≤ i := by simpa using h
    rw [List.drop_of_length_le hi, List.append_nil]

theorem bytesOf_eq (s : String) : bytesOf s = s.toByteArray.data.toList :=
  toList_loop s.toByteArray 0 []

theorem bytesOf_append (a b : String) : bytesOf (a ++ b) = bytesOf a ++ bytesOf b := by
  rw [bytesOf_eq, bytesOf_eq, bytesOf_eq, String.toByteArray_append, ByteArray.toList_data_append]

theorem length_bytesOf (s : String) : (bytesOf s).length = s.utf8ByteSize := by
  rw [bytesOf_eq]
  rfl

def digitsOf (b : UInt8) : List Char :=
  [Nat.digitChar (b.toNat / 16), Nat.digitChar (b.toNat % 16)]

theorem bytesOf_toList (s : String) : bytesOf s = s.toList.flatMap String.utf8EncodeChar := by
  rw [bytesOf_eq, ← String.utf8Encode_toList, List.utf8Encode]
  simp

theorem toList_hexByte (b : UInt8) : (hexByte b).toList = digitsOf b := by
  have hlt := b.toNat_lt
  unfold hexByte padLeft hexNat digitsOf repeated
  rw [String.toList_append, String.toList_ofList, String.toList_ofList, String.length_ofList]
  by_cases hb : b.toNat < 16
  · rw [Nat.toDigits_of_lt_base hb, Nat.div_eq_of_lt hb, Nat.mod_eq_of_lt hb]
    rfl
  · have hhigh : b.toNat / 16 < 16 := by omega
    rw [Nat.toDigits_of_base_le (by decide) (by omega), Nat.toDigits_of_lt_base hhigh]
    rfl

theorem toList_hexBytes (bs : Bytes) : (hexBytes bs).toList = bs.flatMap digitsOf := by
  rw [hexBytes, String.toList_join, List.flatMap_map]
  simp only [toList_hexByte]

end Text

namespace Key

/-- Hexadecimal digits, however they are written, are read as the bytes that they spell. -/
theorem ofHex_spelled {c : Nat → Char}
    (hc : ∀ n : Fin 16, (String.utf8EncodeChar (c n)).map digit = [.ok n.val]) (bs : Bytes) :
    ofHex ((bs.flatMap fun b => [c (b.toNat / 16), c (b.toNat % 16)]).flatMap
      String.utf8EncodeChar) = .ok bs := by
  have hdigit : ∀ {n : Nat}, n < 16 → ∃ d, String.utf8EncodeChar (c n) = [d] ∧ digit d = .ok n :=
    fun hn => List.map_eq_singleton_iff.mp (hc ⟨_, hn⟩)
  induction bs with
  | nil => rfl
  | cons b bs ih =>
    obtain ⟨high, hhigh, hread⟩ := hdigit (n := b.toNat / 16) (by have := b.toNat_lt; omega)
    obtain ⟨low, hlow, hread'⟩ := hdigit (n := b.toNat % 16) (Nat.mod_lt _ (by decide))
    have hb : UInt8.ofNat (b.toNat / 16 * 16 + b.toNat % 16) = b := by
      rw [Nat.div_add_mod']
      simp
    simp only [List.flatMap_cons, List.cons_append, List.nil_append, hhigh, hlow]
    rw [ofHex, hread, hread', ih]
    simp only [bind, Except.bind, hb]
    rfl

theorem ofText_of_spelled {k : Key} {s : String} (h : ofHex (bytesOf s) = .ok k.bytes) :
    ofText s = .ok k := by
  rw [ofText, h]
  simp only [bind, Except.bind]
  rw [dif_pos k.size_eq]
  rfl

theorem ofText_text (k : Key) : ofText k.text = .ok k := by
  refine ofText_of_spelled ?_
  rw [bytesOf_toList, text, toList_hexBytes]
  exact ofHex_spelled (by decide) k.bytes

/-- A key is also read from its text in capitals, which it is never written in. -/
theorem ofText_capitals (k : Key) : ofText (k.text.map Char.toUpper) = .ok k := by
  refine ofText_of_spelled ?_
  rw [bytesOf_toList, String.toList_map, text, toList_hexBytes, List.map_flatMap]
  exact ofHex_spelled (c := fun n => (Nat.digitChar n).toUpper) (by decide) k.bytes

theorem ofFileName?_append (stem : String) : ofFileName? (stem ++ ".mp") = (ofText stem).toOption := by
  have hends : (stem ++ ".mp").endsWith ".mp" = true := by
    rw [String.endsWith_eq_endsWith_toSlice, String.Slice.endsWith_string_iff, String.copy_toSlice,
      String.toList_append]
    exact List.suffix_append _ _
  have hdrop : ((stem ++ ".mp").dropEnd 3).toString = stem := by
    refine String.toList_inj.1 ?_
    have hthree : ".mp".toList.length = 3 := rfl
    rw [String.Slice.toString_eq, String.toList_copy_dropEnd, String.toList_append,
      List.length_append, hthree, Nat.add_sub_cancel, List.take_left]
  rw [ofFileName?, if_pos hends, hdrop]

theorem ofFileName?_fileName (k : Key) : ofFileName? k.fileName = some k := by
  rw [fileName, ofFileName?_append, ofText_text]
  rfl

theorem fileName_inj {k k' : Key} : k.fileName = k'.fileName ↔ k = k' := by
  refine ⟨fun h => ?_, fun h => h ▸ rfl⟩
  have hk := ofFileName?_fileName k
  rw [h, ofFileName?_fileName] at hk
  exact (Option.some.inj hk).symm

theorem mem_fileName {k : Key} {c : Char} (h : c ∈ k.fileName.toList) :
    c ∈ ".mp".toList ∨ ∃ n < 16, c = Nat.digitChar n := by
  rw [fileName, String.toList_append, text, toList_hexBytes, List.mem_append, List.mem_flatMap] at h
  rcases h with ⟨b, -, hc⟩ | h
  · have := b.toNat_lt
    rcases List.mem_pair.1 hc with rfl | rfl
    · exact .inr ⟨_, by omega, rfl⟩
    · exact .inr ⟨_, Nat.mod_lt _ (by decide), rfl⟩
  · exact .inl h

theorem not_mem_fileName {k : Key} {c : Char} (hc : c ∉ ".mp".toList)
    (hdigit : ∀ n : Fin 16, c ≠ Nat.digitChar n) : c ∉ k.fileName.toList := by
  intro h
  rcases mem_fileName h with h | ⟨n, hn, rfl⟩
  · exact hc h
  · exact hdigit ⟨n, hn⟩ rfl

theorem size_fileName (k : Key) : k.fileName.utf8ByteSize = 67 := by
  have hdigit : ∀ {n : Nat}, n < 16 → (String.utf8EncodeChar (Nat.digitChar n)).length = 1 :=
    fun hn => (by decide : ∀ n : Fin 16, (String.utf8EncodeChar (Nat.digitChar n)).length = 1)
      ⟨_, hn⟩
  have htext : ∀ bs : Bytes, ((bs.flatMap digitsOf).flatMap String.utf8EncodeChar).length =
      2 * bs.length := by
    intro bs
    induction bs with
    | nil => rfl
    | cons b bs ih =>
      have hhigh := hdigit (n := b.toNat / 16) (by have := b.toNat_lt; omega)
      have hlow := hdigit (n := b.toNat % 16) (Nat.mod_lt _ (by decide))
      simp only [List.flatMap_cons, List.flatMap_append, List.length_append, ih, digitsOf,
        List.flatMap_nil, hhigh, hlow, List.length_cons, List.length_nil]
      omega
  rw [← length_bytesOf, fileName, bytesOf_append, List.length_append, bytesOf_toList, text,
    toList_hexBytes, htext, k.size_eq, length_bytesOf]
  decide

theorem digitChar_lt_iff {m n : Nat} (hm : m < 16) (hn : n < 16) :
    Nat.digitChar m < Nat.digitChar n ↔ m < n :=
  (by decide : ∀ m n : Fin 16, Nat.digitChar m < Nat.digitChar n ↔ m.val < n.val) ⟨m, hm⟩ ⟨n, hn⟩

theorem digitChar_inj {m n : Nat} (hm : m < 16) (hn : n < 16) :
    Nat.digitChar m = Nat.digitChar n ↔ m = n :=
  (by decide : ∀ m n : Fin 16, Nat.digitChar m = Nat.digitChar n ↔ m.val = n.val) ⟨m, hm⟩ ⟨n, hn⟩

theorem flatMap_digits_lt_iff (bs cs : Bytes) :
    bs.flatMap digitsOf < cs.flatMap digitsOf ↔ bs < cs := by
  induction bs generalizing cs with
  | nil =>
    cases cs with
    | nil => simp
    | cons c cs => simp [digitsOf]
  | cons b bs ih =>
    cases cs with
    | nil => simp
    | cons c cs =>
      have hb := b.toNat_lt
      have hc := c.toNat_lt
      rw [List.flatMap_cons, List.flatMap_cons, digitsOf, digitsOf]
      simp only [List.cons_append, List.nil_append, List.cons_lt_cons_iff]
      rw [ih, digitChar_lt_iff (by omega) (by omega), digitChar_lt_iff (by omega) (by omega),
        digitChar_inj (by omega) (by omega), digitChar_inj (by omega) (by omega), UInt8.lt_iff_toNat_lt,
        ← UInt8.toNat_inj]
      by_cases hrest : bs < cs
      · simp only [hrest, and_true]
        omega
      · simp only [hrest, and_false, or_false]
        omega

theorem text_lt_iff (k k' : Key) : k.text < k'.text ↔ k.bytes < k'.bytes := by
  rw [String.lt_iff_toList_lt, text, text, toList_hexBytes, toList_hexBytes, flatMap_digits_lt_iff]

end Key

/-- What the store holds under a key: a label and an image. -/
structure Kept where
  key : Key
  label : String
  image : Image
  deriving DecidableEq, Repr

namespace Kept

def file (h : Kept) : Node :=
  .file (StoreEntry.current h.label h.image).bytes

def entry (h : Kept) : String × Node :=
  (h.key.fileName, h.file)

def line (h : Kept) : StoreInfo :=
  { key := h.key, label := h.label, name := h.image.name, target := h.image.target
    size := (StoreEntry.current h.label h.image).bytes.length }

end Kept

namespace Store

def images (s : Store) : Path :=
  Path.resolve s.cwd s.imagesDir

/-- The disk has the files for what is held in the directory of the images, and
nothing else there. -/
structure Holds (s : Store) (d : Disk) (held : List Kept) : Prop where
  located : d.locate s.cwd s.imagesDir = .ok (s.images, .dir)
  files : d.below s.images = held.map fun h => (s.images ++ [h.key.fileName], h.file)

theorem plain_images : Path.Plain "images" := ⟨by decide, by decide, by decide, by decide⟩

theorem plain_fileName (k : Key) : Path.Plain k.fileName := by
  have hm : 'm' ∈ k.fileName.toList := by
    rw [Key.fileName, String.toList_append]
    exact List.mem_append_right _ (by decide)
  refine ⟨?_, ?_, ?_, Key.not_mem_fileName (by decide) (by decide)⟩ <;>
  · intro h
    rw [h] at hm
    revert hm
    decide

theorem images_eq (s : Store) : s.images = Path.resolve s.cwd s.dir ++ ["images"] :=
  Path.resolve_join s.cwd s.dir plain_images

theorem fileOf_eq (s : Store) (k : Key) : s.fileOf k = s.imagesDir ++ "/" ++ k.fileName :=
  Path.join_join s.dir plain_images (plain_fileName k)

theorem resolve_fileOf (s : Store) (k : Key) :
    Path.resolve s.cwd (s.fileOf k) = s.images ++ [k.fileName] := by
  rw [fileOf_eq]
  exact Path.resolve_below (Path.join_ne_empty s.dir plain_images) (plain_fileName k) s.cwd

theorem prefix_fileName (s : Store) (k : Key) :
    s.images <+: s.images ++ [k.fileName] ∧ s.images ++ [k.fileName] ≠ s.images :=
  ⟨List.prefix_append _ _, by simp⟩

variable {s : Store} {d d' : Disk} {held : List Kept}

theorem lookup_files (p : Path) (held : List Kept) (k : Key) :
    (held.map fun h => (p ++ [h.key.fileName], h.file)).lookup (p ++ [k.fileName]) =
      (held.find? fun h => h.key == k).map Kept.file := by
  induction held with
  | nil => rfl
  | cons h held ih =>
    by_cases hk : h.key = k
    · simp [hk]
    · have hname : (p ++ [k.fileName] == p ++ [h.key.fileName]) = false := by
        simpa [Key.fileName_inj] using Ne.symm hk
      rw [List.map_cons, List.lookup_cons, hname, List.find?_cons_of_neg (by simpa using hk)]
      exact ih

theorem Holds.node? (h : s.Holds d held) (k : Key) :
    d.node? (s.images ++ [k.fileName]) = (held.find? fun h => h.key == k).map Kept.file := by
  obtain ⟨hbelow, hne⟩ := prefix_fileName s k
  rw [← Disk.lookup_below hbelow hne, h.files, lookup_files]

theorem Holds.spot (h : s.Holds d held) (k : Key) :
    d.spot s.cwd (s.fileOf k) =
      if (s.fileOf k).utf8ByteSize < Disk.pathLimit then .ok (.entry s.images k.fileName false)
      else .error .nameTooLong := by
  have hzero : Char.ofNat 0 ∉ k.fileName.toList := Key.not_mem_fileName (by decide) (by decide)
  have hbase : ∃ sp, d.spot s.cwd s.imagesDir = .ok sp := by
    rcases Disk.locate_dir_iff.1 h.located with hs | ⟨_, _, _, hs, -⟩ <;> exact ⟨_, hs⟩
  obtain ⟨sp, hsp⟩ := hbase
  obtain ⟨⟨hbase, -, -⟩, -, -⟩ := Disk.spot_eq_ok_iff.1 hsp
  rw [fileOf_eq]
  split
  case isTrue hshort => exact Disk.spot_below h.located (plain_fileName k) hzero hshort
  case isFalse hlong =>
    refine Disk.spot_long ?_ ?_ (Nat.not_lt.1 hlong)
    · simp [hbase, hzero]
    · simp

theorem entry?_fileName (d : Disk) (p : Path) (k : Key) :
    d.entry? p k.fileName = .ok (d.node? (p ++ [k.fileName])) := by
  rw [Disk.entry?, Key.size_fileName, if_neg (by decide)]

theorem Holds.locate (h : s.Holds d held) (k : Key) :
    d.locate s.cwd (s.fileOf k) =
      if (s.fileOf k).utf8ByteSize < Disk.pathLimit then
        match held.find? fun h => h.key == k with
        | some e => .ok (s.images ++ [k.fileName], e.file)
        | none => .error .notFound
      else .error .nameTooLong := by
  rw [Disk.locate, h.spot]
  split
  case isTrue =>
    simp only [bind, Except.bind, entry?_fileName, h.node?]
    cases held.find? fun h => h.key == k <;> rfl
  case isFalse => rfl

theorem Holds.no_dir_below (h : s.Holds d held) {k : Key} {q : Path}
    (hq : d.node? q = some .dir) : ¬s.images ++ [k.fileName] <+: q := by
  intro hprefix
  have himages : s.images <+: q := (prefix_fileName s k).1.trans hprefix
  have hne : q ≠ s.images := by
    rintro rfl
    have := hprefix.length_le
    simp at this
  rw [← Disk.lookup_below himages hne, h.files] at hq
  have hmem : (q, Node.dir) ∈ held.map fun h => (s.images ++ [h.key.fileName], h.file) := by
    obtain ⟨l₁, l₂, heq, -⟩ := List.lookup_eq_some_iff.1 hq
    simp [heq]
  obtain ⟨e, -, he⟩ := List.mem_map.1 hmem
  cases (Prod.ext_iff.1 he).2

/-! ## What a call does -/

theorem holds_openAt {cwd : Path} {dir : String}
    (hempty : d.below (Path.resolve cwd dir) = []) (h : openAt d cwd dir = .ok (s, d')) :
    s.Holds d' [] := by
  unfold openAt at h
  cases hmake : d.makeDirs cwd (Store.imagesDir { dir, cwd }) with
  | error e => simp only [hmake] at h; cases h
  | ok d₁ =>
    simp only [hmake] at h
    cases h
    obtain ⟨hlocated, hbelow⟩ := Disk.makeDirs_made plain_images hmake
    refine ⟨hlocated, hbelow.trans ?_⟩
    rw [Path.resolve_join cwd dir plain_images, List.map_nil, Disk.below, List.filter_eq_nil_iff]
    intro e he hin
    simp only [Bool.and_eq_true, List.isPrefixOf_iff_prefix, bne_iff_ne] at hin
    have hout := List.filter_eq_nil_iff.1 hempty e he
    simp only [Bool.and_eq_true, List.isPrefixOf_iff_prefix, bne_iff_ne, not_and, not_not] at hout
    have hdir := (List.prefix_append _ _).trans hin.1
    have := hin.1.length_le
    rw [hout hdir] at this
    simp at this

theorem Holds.put (h : s.Holds d held) {label : String} {g : Image} {k : Key}
    (hput : s.put d label (some g) = .ok (k, d')) :
    k = Key.ofImage (some g) ∧ s.Holds d' (⟨k, label, g⟩ :: held.filter fun e => e.key != k) := by
  unfold Store.put at hput
  cases hwrite : d.writeFile s.cwd (s.fileOf (Key.ofImage (some g)))
      (StoreEntry.current label g).bytes with
  | error e => simp only [hwrite] at hput; cases hput
  | ok d₁ =>
    simp only [hwrite] at hput
    cases hput
    refine ⟨rfl, ?_⟩
    obtain ⟨rfl, hnode⟩ := Disk.writeFile_put hwrite
    rw [resolve_fileOf] at hnode ⊢
    obtain ⟨hbelow, hne⟩ := prefix_fileName s (Key.ofImage (some g))
    refine ⟨(Disk.keeps_put (.inr hnode)).locate h.located, ?_⟩
    rw [Disk.below_put hbelow hne, h.files, List.filter_map, List.map_cons]
    congr 2
    refine List.filter_congr fun e _ => ?_
    simp [bne, Key.fileName_inj]

theorem Holds.removeAll (h : s.Holds d held) (k : Key) :
    s.Holds (d.removeAll (s.images ++ [k.fileName])) (held.filter fun e => e.key != k) := by
  have hkeeps : d.Keeps (d.removeAll (s.images ++ [k.fileName])) := by
    intro q hq
    rwa [Disk.node?_removeAll (by simp), if_neg (h.no_dir_below hq)]
  refine ⟨hkeeps.locate h.located, ?_⟩
  rw [Disk.below_removeAll, h.files, List.filter_map]
  congr 1
  refine List.filter_congr fun e _ => ?_
  have hsame : s.images ++ [k.fileName] <+: s.images ++ [e.key.fileName] ↔ e.key = k := by
    rw [List.prefix_append_right_inj, List.prefix_cons_iff]
    simp [Key.fileName_inj, eq_comm]
  by_cases hk : e.key = k
  · simp [hk]
  · have hout := mt hsame.1 hk
    rw [← List.isPrefixOf_iff_prefix, Bool.not_eq_true] at hout
    simp [hout, hk]

theorem Holds.delete (h : s.Holds d held) {k : Key} (hdelete : s.delete d k = .ok d') :
    s.Holds d' (held.filter fun e => e.key != k) := by
  unfold Store.delete Disk.remove at hdelete
  rw [h.locate] at hdelete
  by_cases hshort : (s.fileOf k).utf8ByteSize < Disk.pathLimit
  · rw [if_pos hshort] at hdelete
    cases hfind : held.find? fun e => e.key == k with
    | none =>
      rw [hfind] at hdelete
      cases hdelete
      have hall : held.filter (fun e => e.key != k) = held := by
        rw [List.filter_eq_self]
        simpa using hfind
      rwa [hall]
    | some e =>
      rw [hfind] at hdelete
      cases hdelete
      exact h.removeAll k
  · rw [if_neg hshort] at hdelete
    cases hdelete

theorem Holds.put_ok (h : s.Holds d held) {g : Image}
    (hshort : (s.fileOf (Key.ofImage (some g))).utf8ByteSize < Disk.pathLimit) (label : String) :
    s.put d label (some g) = .ok (Key.ofImage (some g),
      d.put (s.images ++ [(Key.ofImage (some g)).fileName])
        (.file (StoreEntry.current label g).bytes)) := by
  have htarget : d.target s.cwd (s.fileOf (Key.ofImage (some g))) =
      .ok (s.images ++ [(Key.ofImage (some g)).fileName]) := by
    rw [Disk.target, h.spot, if_pos hshort]
    simp only [bind, Except.bind, entry?_fileName, h.node?]
    cases held.find? fun e => e.key == Key.ofImage (some g) <;> rfl
  rw [Store.put, Disk.writeFile, htarget]

theorem Holds.delete_ok (h : s.Holds d held) {k : Key}
    (hshort : (s.fileOf k).utf8ByteSize < Disk.pathLimit) : ∃ d', s.delete d k = .ok d' := by
  unfold Store.delete Disk.remove
  rw [h.locate, if_pos hshort]
  cases held.find? fun e => e.key == k with
  | none => exact ⟨d, rfl⟩
  | some e => exact ⟨_, rfl⟩

theorem Holds.removeTree_eq (h : s.Holds d held) :
    d.removeTree s.cwd s.imagesDir = .ok (d.removeAll s.images) := by
  rw [Disk.removeTree, h.located]

theorem Holds.dropAll (h : s.Holds d held) (hdrop : s.dropAll d = .ok d') : s.Holds d' [] := by
  unfold Store.dropAll at hdrop
  rw [h.removeTree_eq] at hdrop
  obtain ⟨hlocated, hbelow⟩ := Disk.makeDirs_made plain_images hdrop
  exact ⟨hlocated, hbelow.trans (Disk.below_removeAll_self _)⟩

end Store

end TypedIR
