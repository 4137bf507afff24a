import TypedIR.Proofs.LayoutOutcomes

/-
  The layout of structs, at every depth.

  `Exact` is the layout of a type in exact integers: fields one after the other,
  each at the least multiple of its alignment that is not below the end of the
  field before it. While the exact size of a struct is below 2^63 nothing wraps
  around, and the exact layout is the one that is given (`Exact.laid`). What is
  shown of it (`struct_layout`):

  1. fields lie in order, at multiples of their alignments, with as little before
     them as that takes; the alignment of the struct is the largest of a field,
     and its size the least multiple of it that is not below the last end;
  2. the scalars that are reached through fields of fields lie inside the struct,
     each at a multiple of its alignment, and apart from each other.

  For the second the alignments have to divide each other, which powers of two do.
-/

namespace TypedIR

namespace Layout

/-! ## Rounding up -/

/-- The least multiple of `a` from `n` on. -/
def alignUp (n a : Int) : Int := n + -n % a

theorem le_alignUp (n : Int) {a : Int} (ha : 0 < a) : n ≤ alignUp n a := by
  have := Int.emod_nonneg (-n) (Int.ne_of_gt ha)
  unfold alignUp
  omega

theorem alignUp_lt (n : Int) {a : Int} (ha : 0 < a) : alignUp n a < n + a := by
  have := Int.emod_lt_of_pos (-n) ha
  unfold alignUp
  omega

theorem dvd_alignUp (n a : Int) : a ∣ alignUp n a := by
  refine ⟨-(-n / a), ?_⟩
  have := Int.mul_ediv_add_emod (-n) a
  unfold alignUp
  rw [Int.mul_neg]
  omega

theorem alignUp_le {n m a : Int} (ha : 0 < a) (hm : a ∣ m) (hnm : n ≤ m) : alignUp n a ≤ m := by
  obtain ⟨c, hc⟩ := Int.dvd_sub hm (dvd_alignUp n a)
  have hlt := alignUp_lt n ha
  have hpos : 0 < a * (c + 1) := by
    rw [Int.mul_add, Int.mul_one]
    omega
  have hc0 : 0 < c + 1 := Int.pos_of_mul_pos_right hpos ha
  have : 0 ≤ a * c := Int.mul_nonneg (Int.le_of_lt ha) (by omega)
  omega

theorem eq_alignUp {n m a : Int} (ha : 0 < a) (hm : a ∣ m) (hnm : n ≤ m) (hlt : m < n + a) :
    m = alignUp n a := by
  have hle := alignUp_le ha hm hnm
  have hdvd : a ∣ m - alignUp n a := Int.dvd_sub hm (dvd_alignUp n a)
  have hge := le_alignUp n ha
  by_contra hne
  have := Int.le_of_dvd (by omega) hdvd
  omega

theorem roundUp_eq_alignUp {n a : Int} (h0 : 0 ≤ n) (ha : 0 < a)
    (hb : alignUp n a < 0x8000000000000000) : roundUp n a = alignUp n a := by
  have hge := le_alignUp n ha
  have hr0 := Int.emod_nonneg n (Int.ne_of_gt ha)
  have hra := Int.emod_lt_of_pos n ha
  unfold roundUp
  split
  · obtain rfl : a = 1 := by omega
    simp [alignUp]
  · rw [Int.tmod_eq_emod_of_nonneg h0]
    dsimp only
    split
    · next hr => exact eq_alignUp ha (Int.dvd_of_emod_eq_zero hr) (Int.le_refl n) (by omega)
    · have hnext : n + (a - n % a) = alignUp n a := by
        apply eq_alignUp ha _ (by omega) (by omega)
        refine ⟨n / a + 1, ?_⟩
        have := Int.mul_ediv_add_emod n a
        rw [Int.mul_add, Int.mul_one]
        omega
      rw [hnext]
      exact wrap64_of_mem (by omega) hb

def PowerOfTwo (a : Int) : Prop := ∃ k : Nat, a = 2 ^ k

theorem PowerOfTwo.pos {a : Int} (ha : PowerOfTwo a) : 0 < a := by
  obtain ⟨k, rfl⟩ := ha
  exact Int.pow_pos (by decide)

theorem PowerOfTwo.dvd {a b : Int} (ha : PowerOfTwo a) (hb : PowerOfTwo b) (hab : a ≤ b) : a ∣ b := by
  obtain ⟨j, rfl⟩ := ha
  obtain ⟨k, rfl⟩ := hb
  have hjk : j ≤ k := by
    have hnat : 2 ^ j ≤ 2 ^ k := by exact_mod_cast hab
    exact (Nat.pow_le_pow_iff_right (by decide)).mp hnat
  exact ⟨2 ^ (k - j), by rw [← Int.pow_add, Nat.add_sub_cancel' hjk]⟩

end Layout

/-- Pointers have a size, and their alignment is a power of two. -/
structure Target.Regular (target : Target) : Prop where
  size : 0 < target.ptrSize
  align : Layout.PowerOfTwo target.ptrAlign

namespace Layout

/-! ## Placing fields -/

/-- Where the fields start that are put one behind the other. -/
def starts : Int → List Layout → List Int
  | _, [] => []
  | n, f :: rest => alignUp n f.align :: starts (alignUp n f.align + f.size) rest

def endFrom : Int → List Layout → Int
  | n, [] => n
  | n, f :: rest => endFrom (alignUp n f.align + f.size) rest

def largestAlign (fields : List Layout) : Int :=
  (fields.map (·.align)).foldl max 1

/-- The layout of a struct in exact integers. -/
def exactStruct (fields : List Layout) : Layout where
  size := alignUp (endFrom 0 fields) (largestAlign fields)
  align := largestAlign fields
  offsets := starts 0 fields
  aligns := fields.map (·.align)

/-- The layout of a field: it has a size and an alignment. -/
structure Proper (f : Layout) : Prop where
  size : 0 < f.size
  align : PowerOfTwo f.align

variable {fields : List Layout} {n : Int}

theorem endFrom_append (n : Int) (fields more : List Layout) :
    endFrom n (fields ++ more) = endFrom (endFrom n fields) more := by
  induction fields generalizing n with
  | nil => rfl
  | cons f rest ih => exact ih _

theorem le_endFrom (hf : ∀ f ∈ fields, Proper f) (n : Int) : n ≤ endFrom n fields := by
  induction fields generalizing n with
  | nil => exact Int.le_refl n
  | cons f rest ih =>
    obtain ⟨hproper, hrest⟩ := List.forall_mem_cons.mp hf
    have hend := ih hrest (alignUp n f.align + f.size)
    have hge := le_alignUp n hproper.align.pos
    have hsize := hproper.size
    show n ≤ endFrom (alignUp n f.align + f.size) rest
    omega

theorem endFrom_take_le (hf : ∀ f ∈ fields, Proper f) {i j : Nat} (hij : i ≤ j) :
    endFrom n (fields.take i) ≤ endFrom n (fields.take j) := by
  obtain ⟨k, rfl⟩ := Nat.exists_eq_add_of_le hij
  rw [List.take_add, endFrom_append]
  apply le_endFrom
  intro f hmem
  exact hf f (List.mem_of_mem_drop (List.mem_of_mem_take hmem))

theorem endFrom_take_succ {i : Nat} {f : Layout} (hi : fields[i]? = some f) :
    endFrom n (fields.take (i + 1)) = alignUp (endFrom n (fields.take i)) f.align + f.size := by
  rw [List.take_add_one, endFrom_append, hi]
  rfl

theorem starts_getElem? {i : Nat} {f : Layout} (hi : fields[i]? = some f) :
    (starts n fields)[i]? = some (alignUp (endFrom n (fields.take i)) f.align) := by
  induction fields generalizing n i with
  | nil => cases hi
  | cons g rest ih =>
    rcases i with _ | i
    · cases hi
      rfl
    · exact ih hi

theorem length_starts (n : Int) (fields : List Layout) :
    (starts n fields).length = fields.length := by
  induction fields generalizing n with
  | nil => rfl
  | cons f rest ih => exact congrArg Nat.succ (ih _)

theorem foldl_place (hf : ∀ f ∈ fields, Proper f) {p : Partial} (h0 : 0 ≤ p.size)
    (hb : endFrom p.size fields < 0x8000000000000000) :
    fields.foldl Partial.place p =
      { size := endFrom p.size fields
        align := (fields.map (·.align)).foldl max p.align
        offsets := (starts p.size fields).reverse ++ p.offsets
        aligns := (fields.map (·.align)).reverse ++ p.aligns } := by
  induction fields generalizing p with
  | nil => rfl
  | cons f rest ih =>
    obtain ⟨hproper, hrest⟩ := List.forall_mem_cons.mp hf
    have hpos := hproper.align.pos
    have hsize := hproper.size
    have hge := le_alignUp p.size hpos
    have hend : alignUp p.size f.align + f.size ≤ endFrom p.size (f :: rest) := le_endFrom hrest _
    have halign : max f.align 1 = f.align := Int.max_eq_left hpos
    have hround : roundUp p.size f.align = alignUp p.size f.align :=
      roundUp_eq_alignUp h0 hpos (by omega)
    have hwrap : wrap64 (alignUp p.size f.align + f.size) = alignUp p.size f.align + f.size :=
      wrap64_of_mem (by omega) (by omega)
    have hplace : p.place f =
        { size := alignUp p.size f.align + f.size, align := max p.align f.align,
          offsets := alignUp p.size f.align :: p.offsets, aligns := f.align :: p.aligns } := by
      unfold Partial.place
      simp only [halign, hround, hwrap]
    rw [List.foldl_cons, hplace, ih hrest (by dsimp only; omega) hb]
    simp [starts, endFrom]

theorem foldl_max (as : List Int) (a : Int) :
    (∀ b ∈ a :: as, b ≤ as.foldl max a) ∧ as.foldl max a ∈ a :: as := by
  induction as generalizing a with
  | nil => simp
  | cons b rest ih =>
    obtain ⟨hle, hmem⟩ := ih (max a b)
    obtain ⟨hfirst, hrest⟩ := List.forall_mem_cons.mp hle
    rw [List.foldl_cons]
    constructor
    · intro x hx
      rcases List.mem_cons.mp hx with rfl | hx
      · exact Int.le_trans (Int.le_max_left _ b) hfirst
      · rcases List.mem_cons.mp hx with rfl | hx
        · exact Int.le_trans (Int.le_max_right a _) hfirst
        · exact hrest x hx
    · rcases List.mem_cons.mp hmem with h | h
      · rw [h]
        rcases Int.le_total a b with hab | hab
        · simp [Int.max_eq_right hab]
        · simp [Int.max_eq_left hab]
      · exact List.mem_cons_of_mem a (List.mem_cons_of_mem b h)

theorem align_le_largestAlign {f : Layout} (hf : f ∈ fields) : f.align ≤ largestAlign fields :=
  (foldl_max _ 1).1 _ (List.mem_cons_of_mem 1 (List.mem_map_of_mem hf))

theorem largestAlign_mem (fields : List Layout) :
    largestAlign fields = 1 ∨ ∃ f ∈ fields, f.align = largestAlign fields := by
  rcases List.mem_cons.mp (foldl_max (fields.map (·.align)) 1).2 with h | h
  · exact .inl h
  · exact .inr (List.mem_map.mp h)

theorem powerOfTwo_largestAlign (hf : ∀ f ∈ fields, Proper f) :
    PowerOfTwo (largestAlign fields) := by
  rcases largestAlign_mem fields with h | ⟨f, hmem, h⟩
  · exact ⟨0, h⟩
  · rw [← h]
    exact (hf f hmem).align

theorem finish_place (hf : ∀ f ∈ fields, Proper f)
    (hb : (exactStruct fields).size < 0x8000000000000000) :
    (fields.foldl Partial.place {}).finish = exactStruct fields := by
  have hpos := (powerOfTwo_largestAlign hf).pos
  have hend : endFrom 0 fields < 0x8000000000000000 := Int.lt_of_le_of_lt (le_alignUp _ hpos) hb
  have hround : roundUp (endFrom 0 fields) (largestAlign fields) =
      alignUp (endFrom 0 fields) (largestAlign fields) :=
    roundUp_eq_alignUp (le_endFrom hf 0) hpos hb
  unfold largestAlign at hround
  rw [foldl_place hf (Int.le_refl 0) hend]
  simp only [Partial.finish, exactStruct, largestAlign, List.append_nil, List.reverse_reverse,
    hround]

/-! ## What a struct looks like -/

def endBefore (fields : List Layout) (l : Layout) : Nat → Int
  | 0 => 0
  | i + 1 => l.offsets.getD i 0 + (fields.getD i empty).size

/-- The field of this index starts at this offset. -/
def FieldAt (fields : List Layout) (l : Layout) (i : Nat) (f : Layout) (o : Int) : Prop :=
  fields[i]? = some f ∧ l.offsets[i]? = some o

/-- Fields lie in order and as close as their alignments allow, and so does the
end of the struct. -/
structure WellPlaced (fields : List Layout) (l : Layout) : Prop where
  count : l.offsets.length = fields.length
  aligns : l.aligns = fields.map Layout.align
  aligned : ∀ {i f o}, FieldAt fields l i f o → f.align ∣ o
  ordered : ∀ {i f o}, FieldAt fields l i f o → endBefore fields l i ≤ o
  padding : ∀ {i f o}, FieldAt fields l i f o → o - endBefore fields l i < f.align
  largest : ∀ f ∈ fields, f.align ≤ l.align
  attained : fields ≠ [] → ∃ f ∈ fields, f.align = l.align
  size : l.align ∣ l.size ∧ endBefore fields l fields.length ≤ l.size
  least : ∀ m, l.align ∣ m → endBefore fields l fields.length ≤ m → l.size ≤ m

theorem endBefore_exactStruct {i : Nat} (hi : i ≤ fields.length) :
    endBefore fields (exactStruct fields) i = endFrom 0 (fields.take i) := by
  rcases i with _ | i
  · rfl
  · have hf : fields[i]? = some fields[i] := List.getElem?_eq_getElem hi
    have ho : (exactStruct fields).offsets[i]? =
        some (alignUp (endFrom 0 (fields.take i)) fields[i].align) := starts_getElem? hf
    rw [endFrom_take_succ hf, endBefore, List.getD_eq_getElem?_getD, List.getD_eq_getElem?_getD,
      ho, hf]
    simp only [Option.getD_some]

theorem FieldAt.offset {i : Nat} {f : Layout} {o : Int} (h : FieldAt fields (exactStruct fields) i f o) :
    o = alignUp (endFrom 0 (fields.take i)) f.align ∧ i < fields.length ∧ f ∈ fields := by
  have hstart : (exactStruct fields).offsets[i]? = _ := starts_getElem? h.1
  refine ⟨Option.mem_unique h.2 hstart, ?_, List.mem_of_getElem? h.1⟩
  exact (List.getElem?_eq_some_iff.mp h.1).1

theorem wellPlaced_exactStruct (hf : ∀ f ∈ fields, Proper f) :
    WellPlaced fields (exactStruct fields) := by
  have hpos := (powerOfTwo_largestAlign hf).pos
  have hend : endBefore fields (exactStruct fields) fields.length = endFrom 0 fields := by
    rw [endBefore_exactStruct (Nat.le_refl _), List.take_length]
  refine ⟨length_starts 0 fields, rfl, ?_, ?_, ?_, fun f => align_le_largestAlign, ?_, ?_, ?_⟩
  · intro i f o h
    rw [h.offset.1]
    exact dvd_alignUp _ _
  · intro i f o h
    obtain ⟨rfl, hi, hmem⟩ := h.offset
    rw [endBefore_exactStruct (Nat.le_of_lt hi)]
    exact le_alignUp _ (hf f hmem).align.pos
  · intro i f o h
    obtain ⟨rfl, hi, hmem⟩ := h.offset
    have hlt := alignUp_lt (endFrom 0 (fields.take i)) (hf f hmem).align.pos
    rw [endBefore_exactStruct (Nat.le_of_lt hi)]
    omega
  · intro hne
    rcases largestAlign_mem fields with h | h
    · obtain ⟨f, hmem⟩ := List.exists_mem_of_ne_nil fields hne
      have hle := align_le_largestAlign hmem
      have hf' := (hf f hmem).align.pos
      exact ⟨f, hmem, show f.align = largestAlign fields by omega⟩
    · exact h
  · rw [hend]
    exact ⟨dvd_alignUp _ _, le_alignUp _ hpos⟩
  · rw [hend]
    exact fun m hdvd hm => alignUp_le hpos hdvd hm

theorem FieldAt.inside (hf : ∀ f ∈ fields, Proper f) {i : Nat} {f : Layout} {o : Int}
    (h : FieldAt fields (exactStruct fields) i f o) :
    0 ≤ o ∧ o + f.size ≤ (exactStruct fields).size := by
  obtain ⟨rfl, hi, hmem⟩ := h.offset
  have hfirst : endFrom 0 (fields.take 0) ≤ endFrom 0 (fields.take i) :=
    endFrom_take_le hf (Nat.zero_le i)
  have hlast : endFrom 0 (fields.take (i + 1)) ≤ endFrom 0 (fields.take fields.length) :=
    endFrom_take_le hf hi
  rw [endFrom_take_succ h.1, List.take_length] at hlast
  constructor
  · exact Int.le_trans hfirst (le_alignUp _ (hf f hmem).align.pos)
  · exact Int.le_trans hlast (le_alignUp _ (powerOfTwo_largestAlign hf).pos)

theorem FieldAt.before (hf : ∀ f ∈ fields, Proper f) {i j : Nat} {f g : Layout} {o o' : Int}
    (h : FieldAt fields (exactStruct fields) i f o) (h' : FieldAt fields (exactStruct fields) j g o')
    (hij : i < j) : o + f.size ≤ o' := by
  obtain ⟨rfl, -, -⟩ := h.offset
  obtain ⟨rfl, -, hmem⟩ := h'.offset
  rw [← endFrom_take_succ h.1]
  apply Int.le_trans (endFrom_take_le hf hij)
  exact le_alignUp _ (hf g hmem).align.pos

/-! ## Exact layouts -/

/-- The layout of a type in exact integers; fields of structs have a size. -/
inductive Exact (target : Target) (t : TypeTable) : TypeId → Layout → Prop
  | scalar {id d l} (hd : t.find? id = some d) (hk : d.isScalar = true)
      (hl : worked target t (fun _ => .ok empty) id = .ok l) : Exact target t id l
  | tagged {id d l} (hd : t.find? id = some d) (hk : d.kind = .tagged)
      (h : Exact target t d.elem l) : Exact target t id l
  | struct {id d} (hd : t.find? id = some d) (hk : d.kind = .struct) (layoutOf : TypeId → Layout)
      (h : ∀ f ∈ t.fieldsOf id, Exact target t f.type (layoutOf f.type))
      (hsized : ∀ f ∈ t.fieldsOf id, (layoutOf f.type).size ≠ 0) :
      Exact target t id (exactStruct ((t.fieldsOf id).map fun f => layoutOf f.type))

variable {target : Target} {t : TypeTable} {id : TypeId} {d : Descriptor} {l : Layout}

theorem proper_number {size : Nat} (h : numberLayout size id = .ok l) : Proper l := by
  unfold numberLayout at h
  split at h
  · next hs =>
    cases h
    rcases hs with rfl | rfl | rfl | rfl
    · exact ⟨by decide, 0, rfl⟩
    · exact ⟨by decide, 1, rfl⟩
    · exact ⟨by decide, 2, rfl⟩
    · exact ⟨by decide, 3, rfl⟩
  · cases h

theorem proper_pointer (ht : target.Regular) :
    Proper (pointerLayout target) := by
  have hplain : pointerLayout target = { size := target.ptrSize, align := target.ptrAlign } := by
    simp [pointerLayout, Int.not_le.mpr ht.size, Int.not_le.mpr ht.align.pos]
  rw [hplain]
  exact ⟨ht.size, ht.align⟩

theorem asked_scalar (hd : t.find? id = some d) (hk : d.isScalar = true) (ask : TypeId → Answer) :
    asked t ask id = [] := by
  unfold Descriptor.isScalar at hk
  unfold asked
  rw [hd]
  dsimp only
  split at hk <;> simp_all

theorem proper_scalar (ht : target.Regular)
    (hd : t.find? id = some d) (hk : d.isScalar = true) {ask : TypeId → Answer}
    (hl : worked target t ask id = .ok l) : Proper l := by
  have hpointer := proper_pointer ht
  have hrun : ∀ a : Answer, ((pure a : StateM Cache Answer).run []).1 = a := fun _ => rfl
  unfold worked workOut at hl
  rw [hd] at hl
  unfold Descriptor.isScalar at hk
  dsimp only at hl
  split at hl
  · next h => simp [h] at hk
  · split at hl
    · cases hl
      exact hpointer
    · exact proper_number hl
  · split at hl
    · cases hl
      exact hpointer
    · exact proper_number hl
  · split at hl
    · exact proper_number hl
    · cases hl
  · cases hl
    exact hpointer
  · cases hl
    exact hpointer
  · next h => simp [h] at hk
  · next h => simp [h] at hk
  · cases hl

theorem Exact.bounds (ht : target.Regular)
    (h : Exact target t id l) : 0 ≤ l.size ∧ PowerOfTwo l.align := by
  induction h with
  | scalar hd hk hl =>
    have hproper := proper_scalar ht hd hk hl
    exact ⟨Int.le_of_lt hproper.size, hproper.align⟩
  | tagged _ _ _ ih => exact ih
  | @struct id d hd hk m h hsized ih =>
    have hf : ∀ l ∈ (t.fieldsOf id).map fun f => m f.type, Proper l := by
      intro l hl
      obtain ⟨f, hmem, rfl⟩ := List.mem_map.mp hl
      have h0 := (ih f hmem).1
      have hne := hsized f hmem
      exact ⟨by omega, (ih f hmem).2⟩
    have hpow := powerOfTwo_largestAlign hf
    exact ⟨Int.le_trans (le_endFrom hf 0) (le_alignUp _ hpow.pos), hpow⟩

theorem Exact.proper (ht : target.Regular)
    (h : Exact target t id l) (h0 : l.size ≠ 0) : Proper l := by
  obtain ⟨hle, hpow⟩ := h.bounds ht
  exact ⟨by omega, hpow⟩

theorem worked_struct (hd : t.find? id = some d) (hk : d.kind = .struct) (m : TypeId → Layout)
    (hsized : ∀ f ∈ t.fieldsOf id, (m f.type).size ≠ 0) :
    worked target t (fun p => .ok (m p)) id =
      .ok (((t.fieldsOf id).map fun f => m f.type).foldl Partial.place {}).finish := by
  have hplaced : ∀ (fields : List Field) (i : Nat) (p : Partial),
      (∀ f ∈ fields, (m f.type).size ≠ 0) →
      ((placeFields (fun p => pure (.ok (m p))) id i p fields).run []).1 =
        .ok ((fields.map fun f => m f.type).foldl Partial.place p).finish := by
    intro fields
    induction fields with
    | nil => exact fun i p _ => rfl
    | cons f rest ih =>
      intro i p h
      obtain ⟨hne, hrest⟩ := List.forall_mem_cons.mp h
      rw [run_placeFields_cons]
      show ((if (m f.type).size = 0 then pure (.error (.unsizedField id i))
        else placeFields (fun p => pure (.ok (m p))) id (i + 1) (p.place (m f.type)) rest :
          StateM Cache Answer).run []).1 = _
      rw [if_neg hne]
      exact ih _ _ hrest
  unfold worked workOut
  rw [hd]
  dsimp only
  rw [hk]
  rcases hfs : t.fieldsOf id with _ | ⟨f, rest⟩
  · rfl
  · rw [hfs] at hsized
    exact hplaced _ 0 {} hsized

theorem size_le_exactStruct (hf : ∀ f ∈ fields, Proper f) {f : Layout} (hmem : f ∈ fields) :
    f.size ≤ (exactStruct fields).size := by
  obtain ⟨i, hi, rfl⟩ := List.mem_iff_getElem.mp hmem
  have hat : FieldAt fields (exactStruct fields) i fields[i] _ :=
    ⟨List.getElem?_eq_getElem hi, starts_getElem? (List.getElem?_eq_getElem hi)⟩
  have := hat.inside hf
  omega

theorem Exact.laid (ht : target.Regular)
    (h : Exact target t id l) (hb : l.size < 0x8000000000000000) :
    Laid target t id (.ok l) := by
  induction h with
  | scalar hd hk hl =>
    rw [← hl]
    apply Laid.of_parts
    rw [asked_scalar hd hk]
    nofun
  | @tagged id d l hd hk h ih =>
    have hworked : worked target t (fun _ => .ok l) id = .ok l := by
      unfold worked workOut
      rw [hd]
      dsimp only
      rw [hk]
      rfl
    rw [← hworked]
    apply Laid.of_parts
    intro p hp
    unfold asked at hp
    rw [hd] at hp
    simp only [hk] at hp
    rw [List.mem_singleton.mp hp]
    exact ih hb
  | @struct id d hd hk m h hsized ih =>
    have hf : ∀ l ∈ (t.fieldsOf id).map fun f => m f.type, Proper l := by
      intro l hl
      obtain ⟨f, hmem, rfl⟩ := List.mem_map.mp hl
      exact (h f hmem).proper ht (hsized f hmem)
    rw [← finish_place hf hb, ← worked_struct hd hk m hsized]
    apply Laid.of_parts
    intro p hp
    unfold asked at hp
    rw [hd] at hp
    simp only [hk] at hp
    obtain ⟨f, hmem, rfl⟩ := List.mem_map.mp (lookedAt_subset _ _ hp)
    apply ih f hmem
    have := size_le_exactStruct hf (List.mem_map_of_mem hmem)
    omega

/-! ## Leaves -/

/-- The scalar that is reached from a type through the fields of `path`, tags
aside: the offset at which it lies and its layout. -/
inductive Leaf (target : Target) (t : TypeTable) : TypeId → List Nat → Int → Layout → Prop
  | scalar {id d s} (hd : t.find? id = some d) (hk : d.isScalar = true)
      (hs : Laid target t id (.ok s)) : Leaf target t id [] 0 s
  | tagged {id d path o s} (hd : t.find? id = some d) (hk : d.kind = .tagged)
      (h : Leaf target t d.elem path o s) : Leaf target t id path o s
  | field {id d l i f path o o' s} (hd : t.find? id = some d) (hk : d.kind = .struct)
      (hl : Laid target t id (.ok l)) (hf : (t.fieldsOf id)[i]? = some f)
      (ho : l.offsets[i]? = some o) (h : Leaf target t f.type path o' s) :
      Leaf target t id (i :: path) (o + o') s

theorem Exact.elem (h : Exact target t id l) (hd : t.find? id = some d) (hk : d.kind = .tagged) :
    Exact target t d.elem l := by
  cases h with
  | scalar hd' hk' =>
    obtain rfl := Option.mem_unique hd' hd
    simp [Descriptor.isScalar, hk] at hk'
  | tagged hd' _ h =>
    obtain rfl := Option.mem_unique hd' hd
    exact h
  | struct hd' hk' =>
    obtain rfl := Option.mem_unique hd' hd
    exact absurd (hk.symm.trans hk') nofun

/-- What is known of a struct that has an exact layout. -/
structure ExactFields (target : Target) (t : TypeTable) (id : TypeId) (l : Layout)
    (layoutOf : TypeId → Layout) : Prop where
  eq : l = exactStruct ((t.fieldsOf id).map fun f => layoutOf f.type)
  exact : ∀ f ∈ t.fieldsOf id, Exact target t f.type (layoutOf f.type)
  sized : ∀ f ∈ t.fieldsOf id, (layoutOf f.type).size ≠ 0

theorem Exact.structFields (h : Exact target t id l) (hd : t.find? id = some d) (hk : d.kind = .struct) :
    ∃ layoutOf, ExactFields target t id l layoutOf := by
  cases h with
  | scalar hd' hk' =>
    obtain rfl := Option.mem_unique hd' hd
    simp [Descriptor.isScalar, hk] at hk'
  | tagged hd' hk' _ =>
    obtain rfl := Option.mem_unique hd' hd
    exact absurd (hk.symm.trans hk') nofun
  | struct _ _ layoutOf h hsized => exact ⟨layoutOf, rfl, h, hsized⟩

namespace ExactFields

variable {layoutOf : TypeId → Layout}

theorem proper (h : ExactFields target t id l layoutOf) (ht : target.Regular) :
    ∀ f ∈ (t.fieldsOf id).map fun f => layoutOf f.type, Proper f := by
  intro l hl
  obtain ⟨f, hmem, rfl⟩ := List.mem_map.mp hl
  exact (h.exact f hmem).proper ht (h.sized f hmem)

theorem fieldAt (h : ExactFields target t id l layoutOf) {i : Nat} {f : Field} {o : Int}
    (hf : (t.fieldsOf id)[i]? = some f) (ho : l.offsets[i]? = some o) :
    FieldAt ((t.fieldsOf id).map fun f => layoutOf f.type)
      (exactStruct ((t.fieldsOf id).map fun f => layoutOf f.type)) i (layoutOf f.type) o := by
  constructor
  · rw [List.getElem?_map, hf]
    rfl
  · rw [← h.eq]
    exact ho

end ExactFields

theorem Leaf.inside (ht : target.Regular) {path : List Nat} {o : Int} {s : Layout}
    (h : Leaf target t id path o s) (hl : Exact target t id l) (hb : l.size < 0x8000000000000000) :
    0 ≤ o ∧ o + s.size ≤ l.size ∧ Proper s ∧ s.align ∣ o ∧ s.align ∣ l.align := by
  induction h generalizing l with
  | @scalar id d s hd hk hs =>
    have hlaid := hl.laid ht hb
    obtain rfl : s = l := Except.ok.inj (hlaid.unique hs)
    have hproper : Proper s := by
      cases hl with
      | scalar hd' hk' hl => exact proper_scalar ht hd' hk' hl
      | tagged hd' hk' =>
        obtain rfl := Option.mem_unique hd' hd
        simp [Descriptor.isScalar, hk'] at hk
      | struct hd' hk' =>
        obtain rfl := Option.mem_unique hd' hd
        simp [Descriptor.isScalar, hk'] at hk
    exact ⟨Int.le_refl 0, by omega, hproper, Int.dvd_zero _, Int.dvd_refl _⟩
  | tagged hd hk _ ih => exact ih (hl.elem hd hk) hb
  | @field id d l' i f path o o' s hd hk hl' hf ho h ih =>
    obtain rfl : l' = l := Except.ok.inj ((hl.laid ht hb).unique hl')
    obtain ⟨layoutOf, hfields⟩ := hl.structFields hd hk
    have hproper := hfields.proper ht
    have hmem := List.mem_of_getElem? hf
    have hat := hfields.fieldAt hf ho
    obtain ⟨ho0, hoend⟩ := hat.inside hproper
    rw [← hfields.eq] at hoend
    have hend' : (layoutOf f.type).size < 0x8000000000000000 := by omega
    obtain ⟨h0, hend, hs, hdvd, halign⟩ := ih (hfields.exact f hmem) hend'
    have hfieldDvd : (layoutOf f.type).align ∣ o := by
      rw [hat.offset.1]
      exact dvd_alignUp _ _
    have hstructDvd : (layoutOf f.type).align ∣ l'.align := by
      rw [hfields.eq]
      apply (hproper _ hat.offset.2.2).align.dvd (powerOfTwo_largestAlign hproper)
      exact align_le_largestAlign hat.offset.2.2
    refine ⟨by omega, by omega, hs, ?_, Int.dvd_trans halign hstructDvd⟩
    exact Int.dvd_add (Int.dvd_trans halign hfieldDvd) hdvd

theorem Leaf.of_scalar {path : List Nat} {o : Int} {s : Layout} (h : Leaf target t id path o s)
    (hd : t.find? id = some d) (hk : d.isScalar = true) : path = [] := by
  cases h with
  | scalar => rfl
  | tagged hd' hk' =>
    obtain rfl := Option.mem_unique hd' hd
    simp [Descriptor.isScalar, hk'] at hk
  | field hd' hk' =>
    obtain rfl := Option.mem_unique hd' hd
    simp [Descriptor.isScalar, hk'] at hk

theorem Leaf.of_tagged {path : List Nat} {o : Int} {s : Layout} (h : Leaf target t id path o s)
    (hd : t.find? id = some d) (hk : d.kind = .tagged) : Leaf target t d.elem path o s := by
  cases h with
  | scalar hd' hk' =>
    obtain rfl := Option.mem_unique hd' hd
    simp [Descriptor.isScalar, hk] at hk'
  | tagged hd' _ h =>
    obtain rfl := Option.mem_unique hd' hd
    exact h
  | field hd' hk' =>
    obtain rfl := Option.mem_unique hd' hd
    exact absurd (hk.symm.trans hk') nofun

theorem Leaf.of_struct {path : List Nat} {o : Int} {s : Layout} (h : Leaf target t id path o s)
    (hd : t.find? id = some d) (hk : d.kind = .struct) (hl : Laid target t id (.ok l)) :
    ∃ i f rest start inner, path = i :: rest ∧ o = start + inner ∧ (t.fieldsOf id)[i]? = some f ∧
      l.offsets[i]? = some start ∧ Leaf target t f.type rest inner s := by
  cases h with
  | scalar hd' hk' =>
    obtain rfl := Option.mem_unique hd' hd
    simp [Descriptor.isScalar, hk] at hk'
  | tagged hd' hk' =>
    obtain rfl := Option.mem_unique hd' hd
    exact absurd (hk.symm.trans hk') nofun
  | field _ _ hl' hf ho h =>
    obtain rfl := Except.ok.inj (hl'.unique hl)
    exact ⟨_, _, _, _, _, rfl, rfl, hf, ho, h⟩

theorem Leaf.apart (ht : target.Regular) {path path' : List Nat} {o o' : Int} {s s' : Layout}
    (h : Leaf target t id path o s) (h' : Leaf target t id path' o' s') (hne : path ≠ path')
    (hl : Exact target t id l) (hb : l.size < 0x8000000000000000) :
    o + s.size ≤ o' ∨ o' + s'.size ≤ o := by
  induction h generalizing path' o' s' l with
  | scalar hd hk => exact absurd (h'.of_scalar hd hk).symm hne
  | tagged hd hk _ ih => exact ih (h'.of_tagged hd hk) hne (hl.elem hd hk) hb
  | @field id d l' i f path start inner s hd hk hl' hf ho h ih =>
    obtain rfl : l' = l := Except.ok.inj ((hl.laid ht hb).unique hl')
    obtain ⟨j, g, path', start', inner', rfl, rfl, hg, ho', hleaf⟩ := h'.of_struct hd hk hl'
    obtain ⟨layoutOf, hfields⟩ := hl.structFields hd hk
    have hproper := hfields.proper ht
    -- each leaf lies inside the field it is reached through
    have hin : ∀ {i : Nat} {f : Field} {start inner : Int} {path : List Nat} {s : Layout},
        (t.fieldsOf id)[i]? = some f → l'.offsets[i]? = some start →
        Leaf target t f.type path inner s →
        (layoutOf f.type).size < 0x8000000000000000 ∧
          start ≤ start + inner ∧ start + inner + s.size ≤ start + (layoutOf f.type).size := by
      intro i f start path inner s hf ho h
      obtain ⟨hstart, hend⟩ := (hfields.fieldAt hf ho).inside hproper
      rw [← hfields.eq] at hend
      have hsize : (layoutOf f.type).size < 0x8000000000000000 := by omega
      obtain ⟨h0, hle, -⟩ := h.inside ht (hfields.exact f (List.mem_of_getElem? hf)) hsize
      exact ⟨hsize, by omega, by omega⟩
    obtain ⟨hsize, hlo, hhi⟩ := hin hf ho h
    obtain ⟨hsize', hlo', hhi'⟩ := hin hg ho' hleaf
    have hat := hfields.fieldAt hf ho
    have hat' := hfields.fieldAt hg ho'
    rcases Nat.lt_trichotomy i j with hij | rfl | hij
    · have := hat.before hproper hat' hij
      omega
    · obtain rfl := Option.mem_unique hf hg
      obtain rfl := Option.mem_unique ho ho'
      have hrest : path ≠ path' := fun he => hne (congrArg (i :: ·) he)
      have := ih hleaf hrest (hfields.exact f (List.mem_of_getElem? hf)) hsize
      omega
    · have := hat'.before hproper hat hij
      omega

/-- The layout of a struct whose exact size is below 2^63: it is the exact one, for
whatever is remembered; its fields are well placed; and the scalars in it lie
inside, aligned and apart. -/
theorem struct_layout (target : Target) (ht : target.Regular) (t : TypeTable) (id : TypeId)
    (d : Descriptor) (hd : t.find? id = some d) (hk : d.kind = .struct) (l : Layout)
    (hl : Exact target t id l) (hb : l.size < 0x8000000000000000) :
    (∀ c, Truthful target t c → ((layoutOf target t id).run c).1 = .ok l) ∧
    (∃ fields, List.Forall₂ (fun f s => Laid target t f.type (.ok s)) (t.fieldsOf id) fields ∧
      WellPlaced fields l) ∧
    (∀ path o s, Leaf target t id path o s →
      0 ≤ o ∧ 0 < s.size ∧ o + s.size ≤ l.size ∧ s.align ∣ o) ∧
    ∀ path o s path' o' s', Leaf target t id path o s → Leaf target t id path' o' s' →
      path ≠ path' → o + s.size ≤ o' ∨ o' + s'.size ≤ o := by
  have hlaid := hl.laid ht hb
  obtain ⟨layoutOf, hfields⟩ := hl.structFields hd hk
  have hproper := hfields.proper ht
  refine ⟨fun c hc => (hc.run_layoutOf hlaid).1,
    ⟨(t.fieldsOf id).map fun f => layoutOf f.type, ?_, ?_⟩, ?_, ?_⟩
  · rw [List.forall₂_map_right_iff, List.forall₂_same]
    intro f hmem
    apply (hfields.exact f hmem).laid ht
    have hle := size_le_exactStruct hproper (List.mem_map_of_mem hmem)
    rw [← hfields.eq] at hle
    omega
  · have hplaced := wellPlaced_exactStruct hproper
    rw [← hfields.eq] at hplaced
    exact hplaced
  · intro path o s h
    obtain ⟨h0, hend, hs, hdvd, -⟩ := h.inside ht hl hb
    exact ⟨h0, hs.size, hend, hdvd⟩
  · intro path o s path' o' s' h h' hne
    exact h.apart ht h' hne hl hb

/-- A byte, a struct of a byte and an eight-byte integer, and a two-byte integer: the
integers at the end of the paths 1, 1 and 2 lie apart. -/
theorem nested_layout :
    let t := ((TypeTable.initial.addStruct [2, 5]).2.addStruct [6, 18, 3]).2
    ((layoutOf .amd64 t 19).run []).1 = .ok ⟨32, 8, [0, 8, 24], [1, 8, 2]⟩ ∧
      ∃ s s', Leaf .amd64 t 19 [1, 1] 16 s ∧ Leaf .amd64 t 19 [2] 24 s' ∧ 8 ∣ (16 : Int) ∧
        (16 + s.size ≤ 24 ∨ 24 + s'.size ≤ 16) := by
  intro t
  have ht : Target.amd64.Regular := ⟨by decide, 3, rfl⟩
  have hnumber : ∀ (id : TypeId) (d : Descriptor) (n : Int), t.find? id = some d →
      d.isScalar = true → worked .amd64 t (fun _ => .ok empty) id = .ok ⟨n, n, [], []⟩ →
      Exact .amd64 t id ⟨n, n, [], []⟩ := fun id d n hd hk hl => .scalar hd hk hl
  have h2 := hnumber 2 (.int 8) 1 (by decide +kernel) rfl (by decide +kernel)
  have h5 := hnumber 5 (.int 64) 8 (by decide +kernel) rfl (by decide +kernel)
  have h6 := hnumber 6 (.uint 8) 1 (by decide +kernel) rfl (by decide +kernel)
  have h3 := hnumber 3 (.int 16) 2 (by decide +kernel) rfl (by decide +kernel)
  have hd18 : t.find? 18 = some { kind := .struct, slot := 1 } := by decide +kernel
  have hd19 : t.find? 19 = some { kind := .struct, slot := 2 } := by decide +kernel
  let layouts : TypeId → Layout := fun id =>
    if id = 18 then ⟨16, 8, [0, 8], [1, 8]⟩
    else if id = 5 then ⟨8, 8, [], []⟩
    else if id = 3 then ⟨2, 2, [], []⟩
    else ⟨1, 1, [], []⟩
  have hstruct : ∀ (id : TypeId) (d : Descriptor) (fs : List Field) (l : Layout),
      t.find? id = some d → d.kind = .struct → t.fieldsOf id = fs →
      (∀ f ∈ fs, Exact .amd64 t f.type (layouts f.type)) → (∀ f ∈ fs, (layouts f.type).size ≠ 0) →
      exactStruct (fs.map fun f => layouts f.type) = l → Exact .amd64 t id l := by
    rintro id d fs l hd hk rfl h hsized rfl
    exact .struct hd hk layouts h hsized
  have h18 : Exact .amd64 t 18 ⟨16, 8, [0, 8], [1, 8]⟩ := by
    apply hstruct 18 _ [{ type := 2 }, { type := 5 }] _ hd18 rfl (by decide +kernel)
    · simp only [List.forall_mem_cons]
      exact ⟨h2, h5, nofun⟩
    · decide
    · decide +kernel
  have h19 : Exact .amd64 t 19 ⟨32, 8, [0, 8, 24], [1, 8, 2]⟩ := by
    apply hstruct 19 _ [{ type := 6 }, { type := 18 }, { type := 3 }] _ hd19 rfl (by decide +kernel)
    · simp only [List.forall_mem_cons]
      exact ⟨h6, h18, h3, nofun⟩
    · decide
    · decide +kernel
  obtain ⟨hanswer, -, hleaf, hapart⟩ :=
    struct_layout .amd64 ht t 19 _ hd19 rfl _ h19 (by decide)
  have hlaid := h19.laid ht (by decide)
  have hlong : Leaf .amd64 t 5 [] 0 ⟨8, 8, [], []⟩ :=
    .scalar (d := .int 64) (by decide +kernel) rfl (h5.laid ht (by decide))
  have hshort : Leaf .amd64 t 3 [] 0 ⟨2, 2, [], []⟩ :=
    .scalar (d := .int 16) (by decide +kernel) rfl (h3.laid ht (by decide))
  have hinner : Leaf .amd64 t 18 [1] 8 ⟨8, 8, [], []⟩ :=
    .field (i := 1) (f := { type := 5 }) hd18 rfl (h18.laid ht (by decide)) (by decide +kernel)
      rfl hlong
  have hfirst : Leaf .amd64 t 19 [1, 1] 16 ⟨8, 8, [], []⟩ :=
    .field (i := 1) (f := { type := 18 }) hd19 rfl hlaid (by decide +kernel) rfl hinner
  have hsecond : Leaf .amd64 t 19 [2] 24 ⟨2, 2, [], []⟩ :=
    .field (i := 2) (f := { type := 3 }) hd19 rfl hlaid (by decide +kernel) rfl hshort
  exact ⟨hanswer [] truthful_nil, _, _, hfirst, hsecond, (hleaf _ _ _ hfirst).2.2.2,
    hapart _ _ _ _ _ _ hfirst hsecond (by decide)⟩

end Layout

end TypedIR
