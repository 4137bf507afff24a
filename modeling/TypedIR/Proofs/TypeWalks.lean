import Mathlib.Logic.Relation
import TypedIR.Image
import TypedIR.Proofs.LayoutAnswers
import TypedIR.Proofs.Outcome

/-
  Walks into the parts of types.

  In an ordered table a type has a larger number than its parts, so being a part is
  well-founded, and whoever follows types into their parts arrives. The functions that
  do so are given a number of steps; none of them is stopped by it. Said of each:

  1. `stripTags`: below all tags there is no tag (`kindOf_underlying`);
  2. `boolWithin`: it finds every bool tag that is there (`isBool_iff`);
  3. `layoutWithin` and `gather`: more steps make no difference, and for layouts neither
     does what would happen after them (`layoutElse_eq`, `gather_eq`).
-/

namespace TypedIR

namespace TypeTable

def PartOf (t : TypeTable) (p id : TypeId) : Prop :=
  ∃ d, t.find? id = some d ∧ p ∈ t.parts d

/-- `n` steps are enough for a walk into the type `id`: one for what is no type, and
otherwise more than its number. -/
def Walkable (t : TypeTable) (n : Nat) (id : TypeId) : Prop :=
  0 < n ∧ ∀ d, t.find? id = some d → id < n

/-- The one type is a tag on the other. -/
def Tags (t : TypeTable) (a b : TypeId) : Prop :=
  ∃ d, t.find? a = some d ∧ d.kind = .tagged ∧ d.elem = b

variable {t : TypeTable} {n m : Nat} {p id : TypeId} {d : Descriptor}

theorem Ordered.lt_of_partOf (h : t.Ordered) (hp : t.PartOf p id) : p < id := by
  obtain ⟨d, hd, hmem⟩ := hp
  exact h.older hd p hmem

theorem Ordered.wellFounded_partOf (h : t.Ordered) : WellFounded t.PartOf :=
  Subrelation.wf (fun hp => h.lt_of_partOf hp) (measure fun id : TypeId => (id : Nat)).wf

theorem Ordered.walkable_size (h : t.Ordered) (hn : t.types.size ≤ n) (id : TypeId) :
    t.Walkable n id :=
  ⟨Nat.lt_of_lt_of_le h.size_pos hn, fun _ hd => Nat.lt_of_lt_of_le (find?_lt hd).2 hn⟩

theorem Walkable.part (hn : t.Walkable (n + 1) id) (h : t.Ordered) (hp : t.PartOf p id) :
    t.Walkable n p := by
  have hlt : p < id := h.lt_of_partOf hp
  obtain ⟨d, hd, -⟩ := hp
  have hid : id < n + 1 := hn.2 d hd
  have hpn : p < n := Nat.lt_of_lt_of_le hlt (Nat.le_of_lt_succ hid)
  exact ⟨Nat.lt_of_le_of_lt (Nat.zero_le p) hpn, fun _ _ => hpn⟩

theorem partOf_elem (hd : t.find? id = some d) (hk : d.kind = .pointer ∨ d.kind = .tagged) :
    t.PartOf d.elem id := by
  refine ⟨d, hd, ?_⟩
  unfold parts
  rcases hk with hk | hk <;> rw [hk] <;> exact List.mem_singleton_self _

theorem Ordered.partOf_field (h : t.Ordered) {f : Field} (hf : f ∈ t.fieldsOf id) :
    t.PartOf f.type id := by
  cases hd : t.find? id with
  | none =>
    unfold fieldsOf fields? at hf
    rw [hd] at hf
    cases hf
  | some d =>
    by_cases hk : d.kind = .struct
    · refine ⟨d, hd, ?_⟩
      rw [← Layout.fieldTypes_eq_parts h hd hk]
      exact List.mem_map_of_mem hf
    · unfold fieldsOf fields? at hf
      rw [hd] at hf
      simp [hk] at hf

theorem partOf_signature {s : Signature} (hs : t.signature? id = some s)
    (hp : p ∈ s.result :: s.params) : t.PartOf p id := by
  unfold signature? at hs
  cases hd : t.find? id with
  | none =>
    rw [hd] at hs
    cases hs
  | some d =>
    simp only [hd] at hs
    split at hs
    · next hk =>
      refine ⟨d, hd, ?_⟩
      simpa [parts, hk, Array.getD_eq_getD_getElem?, hs] using hp
    · cases hs

theorem Ordered.signature_of_kind (h : t.Ordered) (hd : t.find? id = some d)
    (hk : d.kind = .signature) : ∃ s, t.signature? id = some s := by
  unfold signature?
  simp only [hd, if_pos hk]
  exact ⟨_, Array.getElem?_eq_getElem ((h.slots hd).2.1 hk)⟩

/-! ## Tags -/

theorem Tags.partOf {a b : TypeId} (h : t.Tags a b) : t.PartOf b a := by
  obtain ⟨d, hd, hk, rfl⟩ := h
  exact partOf_elem hd (.inr hk)

theorem Ordered.underlying_of_tags (h : t.Ordered) {a b : TypeId} (hab : t.Tags a b) :
    t.underlying a = t.underlying b := by
  obtain ⟨d, hd, hk, rfl⟩ := hab
  exact h.underlying_tagged hd hk

theorem Ordered.underlying_of_path (h : t.Ordered) {a b : TypeId}
    (hab : Relation.ReflTransGen t.Tags a b) : t.underlying a = t.underlying b := by
  induction hab with
  | refl => rfl
  | tail _ hbc ih => exact ih.trans (h.underlying_of_tags hbc)

theorem Ordered.path_underlying (h : t.Ordered) (id : TypeId) :
    Relation.ReflTransGen t.Tags id (t.underlying id) := by
  induction id using h.wellFounded_partOf.induction with
  | h id ih =>
    cases hd : t.find? id with
    | none =>
      rw [underlying_of_unknown hd]
    | some d =>
      by_cases hk : d.kind = .tagged
      · have htag : t.Tags id d.elem := ⟨d, hd, hk, rfl⟩
        rw [h.underlying_of_tags htag]
        exact .head htag (ih d.elem htag.partOf)
      · rw [underlying_of_not_tagged hd hk]

theorem Ordered.lt_of_below_tags (h : t.Ordered) (hp : t.PartOf p (t.underlying id)) :
    p < id ∧ ∃ d, t.find? id = some d := by
  have hle : t.underlying id ≤ id := by
    have hpath := h.path_underlying id
    generalize t.underlying id = b at hpath
    induction hpath with
    | refl => exact Nat.le_refl _
    | tail _ hbc ih => exact Nat.le_trans (Nat.le_of_lt (h.lt_of_partOf hbc.partOf)) ih
  have hlt : p < t.underlying id := h.lt_of_partOf hp
  obtain ⟨d, hd, -⟩ := hp
  exact ⟨Nat.lt_of_lt_of_le hlt hle, known_of_underlying hd⟩

/-- Below all tags there is no tag, and it takes no more steps than the table has
types to get there. -/
theorem Ordered.kindOf_underlying (h : t.Ordered) (id : TypeId) :
    t.kindOf (t.underlying id) ≠ .tagged ∧
    ∀ n, t.types.size ≤ n → t.stripTags n id = t.underlying id := by
  constructor
  · unfold kindOf
    cases hd : t.find? (t.underlying id) with
    | none => exact nofun
    | some d => exact h.kind_underlying id hd
  · intro n hn
    cases hd : t.find? id with
    | none =>
      rw [underlying_of_unknown hd]
      cases n <;> simp [stripTags, hd]
    | some d =>
      have hlt := (find?_lt hd).2
      exact h.stripTags_eq (.refl t) _ n hlt (Nat.le_of_lt hlt)
        (Nat.le_of_lt (Nat.lt_of_lt_of_le hlt hn))

theorem tags_of_decoration {deco : Decoration} (h : t.decoration? id = some deco) :
    ∃ d, t.find? id = some d ∧ d.kind = .tagged := by
  unfold decoration? at h
  cases hd : t.find? id with
  | none =>
    rw [hd] at h
    cases h
  | some d =>
    simp only [hd] at h
    split at h
    · next hk => exact ⟨d, rfl, hk.1⟩
    · cases h

theorem Ordered.decoration_of_tags (h : t.Ordered) (hd : t.find? id = some d)
    (hk : d.kind = .tagged) : ∃ deco, t.decoration? id = some deco := by
  obtain ⟨hpos, hlt⟩ := (h.slots hd).2.2 hk
  unfold decoration?
  simp only [hd, hk, true_and]
  rw [if_pos (Nat.ne_of_gt hpos)]
  exact ⟨_, Array.getElem?_eq_getElem hlt⟩

/-- Whether one of the tags of a type is the bool tag, if there are steps for all of
them. -/
theorem Ordered.boolWithin_iff (h : t.Ordered) (hn : t.Walkable n id) :
    t.boolWithin n id = true ↔ ∃ k deco, Relation.ReflTransGen t.Tags id k ∧
      t.decoration? k = some deco ∧ deco.tag = .bool := by
  induction n generalizing id with
  | zero => exact absurd hn.1 (Nat.lt_irrefl 0)
  | succ n ih =>
    rw [boolWithin]
    cases hdeco : t.decoration? id with
    | none =>
      refine ⟨nofun, ?_⟩
      rintro ⟨k, deco, hpath, hk, -⟩
      -- there is no tag to take off, so nothing but the type itself is on the path
      rcases hpath.cases_head with rfl | ⟨b, ⟨d, hd, htagged, -⟩, -⟩
      · rw [hdeco] at hk
        cases hk
      · obtain ⟨deco', hdeco'⟩ := h.decoration_of_tags hd htagged
        rw [hdeco] at hdeco'
        cases hdeco'
    | some deco =>
      obtain ⟨d, hd, htagged⟩ := tags_of_decoration hdeco
      have htag : t.Tags id d.elem := ⟨d, hd, htagged, rfl⟩
      have hbelow := ih (hn.part h htag.partOf)
      simp only [hd, Option.map_some, Option.getD_some, Bool.or_eq_true, beq_iff_eq, hbelow]
      constructor
      · rintro (hbool | ⟨k, deco', hpath, hk, hbool⟩)
        · exact ⟨id, deco, .refl, hdeco, hbool⟩
        · exact ⟨k, deco', .head htag hpath, hk, hbool⟩
      · rintro ⟨k, deco', hpath, hk, hbool⟩
        rcases hpath.cases_head with rfl | ⟨b, ⟨d', hd', -, rfl⟩, hpath⟩
        · obtain rfl := Option.mem_unique hdeco hk
          exact .inl hbool
        · obtain rfl := Option.mem_unique hd hd'
          exact .inr ⟨k, deco', hpath, hk, hbool⟩

/-- A type is a truth value if one of the tags on the way to what is below them is the
bool tag. -/
theorem Ordered.isBool_iff (h : t.Ordered) (id : TypeId) :
    t.isBool id = true ↔ ∃ k deco, Relation.ReflTransGen t.Tags id k ∧
      Relation.ReflTransGen t.Tags k (t.underlying id) ∧
      t.decoration? k = some deco ∧ deco.tag = .bool := by
  unfold isBool
  rw [h.boolWithin_iff (h.walkable_size (Nat.le_refl _) id)]
  constructor
  · rintro ⟨k, deco, hpath, hk⟩
    have hrest := h.path_underlying k
    rw [← h.underlying_of_path hpath] at hrest
    exact ⟨k, deco, hpath, hrest, hk⟩
  · rintro ⟨k, deco, hpath, -, hk⟩
    exact ⟨k, deco, hpath, hk⟩

theorem Ordered.decoration?_grow {t' : TypeTable} (h : t.Ordered) (hg : t.Grows t')
    (hd : t.find? id = some d) : t'.decoration? id = t.decoration? id := by
  unfold decoration?
  simp only [hd, hg.find? hd]
  split
  · next hk =>
    have hdeco := Array.getElem?_eq_getElem ((h.slots hd).2.2 hk.1).2
    rw [hdeco, hg.decorations hdeco]
  · rfl

theorem Ordered.isBool_grow {t' : TypeTable} (h : t.Ordered) (hg : t.Grows t')
    (hid : id < t.types.size) : t'.isBool id = t.isBool id := by
  have hwithin : ∀ n m id, id < t.types.size → t.Walkable n id → t.Walkable m id →
      t'.boolWithin m id = t.boolWithin n id := by
    intro n
    induction n with
    | zero => exact fun _ _ _ hn _ => absurd hn.1 (Nat.lt_irrefl 0)
    | succ n ih =>
      intro m id hid hn hm
      cases m with
      | zero => exact absurd hm.1 (Nat.lt_irrefl 0)
      | succ m =>
        rw [boolWithin, boolWithin]
        by_cases h0 : id = 0
        · subst h0
          rfl
        · obtain ⟨d, hd⟩ := find?_of_lt (Nat.pos_of_ne_zero h0) hid
          rw [h.decoration?_grow hg hd]
          cases hdeco : t.decoration? id with
          | none => rfl
          | some deco =>
            obtain ⟨d', hd', hk⟩ := tags_of_decoration hdeco
            obtain rfl := Option.mem_unique hd hd'
            have hpart : t.PartOf d.elem id := partOf_elem hd (.inr hk)
            have hlt : d.elem < t.types.size := Nat.lt_trans (h.lt_of_partOf hpart) hid
            have hrest := ih m d.elem hlt (hn.part h hpart) (hm.part h hpart)
            simp only [hd, hg.find? hd, Option.map_some, Option.getD_some, hrest]
  exact hwithin _ _ id hid (h.walkable_size (Nat.le_refl _) id)
    (h.walkable_size hg.size_le id)

theorem Ordered.isBool_of_tag (h : t.Ordered) (hd : t.find? id = some d) (hk : d.kind = .tagged)
    {deco : Decoration} (hdeco : t.decoration? id = some deco) (htag : deco.tag ≠ .bool) :
    t.isBool id = t.isBool d.elem := by
  have hpath : t.Tags id d.elem := ⟨d, hd, hk, rfl⟩
  rw [Bool.eq_iff_iff, h.isBool_iff, h.isBool_iff, h.underlying_of_tags hpath]
  constructor
  · rintro ⟨k, deco', hup, hdown, hk', hbool⟩
    rcases hup.cases_head with rfl | ⟨b, ⟨d', hd', -, rfl⟩, hrest⟩
    · obtain rfl := Option.mem_unique hdeco hk'
      exact absurd hbool htag
    · obtain rfl := Option.mem_unique hd hd'
      exact ⟨k, deco', hrest, hdown, hk', hbool⟩
  · rintro ⟨k, deco', hup, hdown, hk', hbool⟩
    exact ⟨k, deco', .head hpath hup, hdown, hk', hbool⟩

end TypeTable

/-! ## Layouts -/

namespace Layout

open TypeTable

variable {target : Target} {t : TypeTable} {ask ask' : TypeId → StateM Cache Answer}

theorem placeFields_asking {fields : List Field} (h : ∀ f ∈ fields, ask f.type = ask' f.type)
    (id : TypeId) (i : Nat) (p : Partial) :
    placeFields ask id i p fields = placeFields ask' id i p fields := by
  induction fields generalizing i p with
  | nil => rfl
  | cons f rest ih =>
    have hrest : ∀ i p, placeFields ask id i p rest = placeFields ask' id i p rest :=
      ih fun g hg => h g (List.mem_cons_of_mem f hg)
    rw [placeFields, placeFields, h f List.mem_cons_self]
    simp only [hrest]

theorem workOut_asking (ho : t.Ordered) {id : TypeId} (h : ∀ p, t.PartOf p id → ask p = ask' p) :
    workOut target t ask id = workOut target t ask' id := by
  unfold workOut
  cases hd : t.find? id with
  | none => rfl
  | some d =>
    dsimp only
    split
    · rfl
    · rfl
    · rfl
    · rfl
    · rfl
    · rfl
    · next hk => exact h d.elem (partOf_elem hd (.inr hk))
    · have hfields : ∀ f ∈ t.fieldsOf id, ask f.type = ask' f.type :=
        fun f hf => h f.type (ho.partOf_field hf)
      split
      · rfl
      · exact placeFields_asking hfields id 0 {}
    · rfl

theorem plainPart_underlying (h : t.Ordered) (id : TypeId) :
    plainPart target t (t.underlying id) = plainPart target t id := by
  induction id using h.wellFounded_partOf.induction with
  | h id ih =>
    cases hd : t.find? id with
    | none => rw [underlying_of_unknown hd]
    | some d =>
      by_cases hk : d.kind = .tagged
      · have hpart : t.PartOf d.elem id := partOf_elem hd (.inr hk)
        have hlt : d.elem < id := h.lt_of_partOf hpart
        have hid : id < t.types.size := (find?_lt hd).2
        calc plainPart target t (t.underlying id)
            = plainPart target t d.elem := by rw [h.underlying_tagged hd hk, ih d.elem hpart]
          _ = plain target t id d.elem :=
            plain_eq h (.refl t) _ _ (Nat.lt_trans hlt hid) hlt (Nat.lt_succ_self _)
          _ = plainPart target t id := by simp only [plainPart, plain, hd, hk]
      · rw [underlying_of_not_tagged hd hk]

/-- Steps that are enough for a walk into a type make the same of it, whatever would
happen after them. -/
theorem layoutElse_congr (h : t.Ordered) (last : TypeId → StateM Cache Answer) {n m : Nat}
    {id : TypeId} (hn : t.Walkable n id) (hm : t.Walkable m id) :
    layoutElse last target t n id = layoutWithin target t m id := by
  induction n generalizing m id with
  | zero => exact absurd hn.1 (Nat.lt_irrefl 0)
  | succ n ih =>
    cases m with
    | zero => exact absurd hm.1 (Nat.lt_irrefl 0)
    | succ m =>
      have hparts : workOut target t (layoutElse last target t n) id =
          workOut target t (layoutWithin target t m) id :=
        workOut_asking h fun p hp => ih (hn.part h hp) (hm.part h hp)
      funext c
      show (layoutElse last target t (n + 1) id).run c = (layoutWithin target t (m + 1) id).run c
      rw [run_layoutElse_succ, run_layoutWithin_succ, hparts]

theorem layoutElse_eq (h : t.Ordered) (last : TypeId → StateM Cache Answer) {n : Nat}
    (hn : t.types.size ≤ n) (id : TypeId) :
    layoutElse last target t n id = layoutOf target t id :=
  layoutElse_congr h last (h.walkable_size hn id) (h.walkable_size (Nat.le_succ _) id)

end Layout

/-! ## Images -/

namespace Image

open TypeTable

variable {t : TypeTable}

theorem mapM_congr {α β : Type} {f g : α → GatherM β} {xs : List α} (h : ∀ x ∈ xs, f x = g x) :
    xs.mapM f = xs.mapM g := by
  induction xs with
  | nil => rfl
  | cons x rest ih =>
    rw [List.mapM_cons, List.mapM_cons, h x List.mem_cons_self,
      ih fun y hy => h y (List.mem_cons_of_mem x hy)]

theorem gather_congr (h : t.Ordered) {n m : Nat} {id : TypeId} (hn : t.Walkable n id)
    (hm : t.Walkable m id) : gather t n id = gather t m id := by
  induction n generalizing m id with
  | zero => exact absurd hn.1 (Nat.lt_irrefl 0)
  | succ n ih =>
    cases m with
    | zero => exact absurd hm.1 (Nat.lt_irrefl 0)
    | succ m =>
      have hpart : ∀ p, t.PartOf p id → gather t n p = gather t m p :=
        fun p hp => ih (hn.part h hp) (hm.part h hp)
      have hfields : (t.fieldsOf id).mapM (fun f => gather t n f.type) =
          (t.fieldsOf id).mapM fun f => gather t m f.type :=
        mapM_congr fun f hf => hpart f.type (h.partOf_field hf)
      unfold gather
      cases hd : t.find? id with
      | none => rfl
      | some d =>
        dsimp only
        congr 1
        congr 1
        funext g
        split
        · rfl
        · split
          · next hk => rw [hpart d.elem (partOf_elem hd (.inl hk))]
          · next hk => rw [hpart d.elem (partOf_elem hd (.inr hk))]
          · rw [hfields]
          · next hk =>
            obtain ⟨s, hs⟩ := h.signature_of_kind hd hk
            have hparams : s.params.mapM (gather t n) = s.params.mapM (gather t m) :=
              mapM_congr fun p hp => hpart p (partOf_signature hs (List.mem_cons_of_mem _ hp))
            simp only [hs, Option.getD_some]
            rw [hparams, hpart s.result (partOf_signature hs List.mem_cons_self)]
          · rfl

/-- The walk answers, whatever was gathered before. -/
def Answers {α : Type} (act : GatherM α) : Prop :=
  ∀ g, Ends act g (fun _ _ => True) fun _ _ => False

theorem Answers.bind' {α β : Type} {act : GatherM α} {k : α → GatherM β} (h : Answers act)
    (hk : ∀ a, Answers (k a)) : Answers (act >>= k) :=
  fun g => .bind' (h g) fun a g' _ => hk a g'

theorem answers_pure {α : Type} (a : α) : Answers (pure a : GatherM α) := fun _ => .pure' trivial

theorem answers_mapM {α β : Type} {f : α → GatherM β} {xs : List α}
    (h : ∀ x ∈ xs, Answers (f x)) : Answers (xs.mapM f) := by
  induction xs with
  | nil => exact answers_pure _
  | cons x rest ih =>
    rw [List.mapM_cons]
    refine .bind' (h x List.mem_cons_self) fun _ => ?_
    exact .bind' (ih fun y hy => h y (List.mem_cons_of_mem x hy)) fun _ => answers_pure _

theorem answers_gather (h : t.Ordered) {n : Nat} {id : TypeId} (hn : t.Walkable n id)
    (hid : id < t.types.size) : Answers (gather t n id) := by
  induction n generalizing id with
  | zero => exact absurd hn.1 (Nat.lt_irrefl 0)
  | succ n ih =>
    have hpart : ∀ p, t.PartOf p id → Answers (gather t n p) := fun p hp =>
      ih (hn.part h hp) (Nat.lt_trans (h.lt_of_partOf hp) hid)
    have hnew : ∀ it, Answers (gatherNew id it) := fun _ _ => .bind_get (.bind_set (.pure' trivial))
    intro g
    refine .ite' (fun _ => .pure' trivial) fun h0 => .bind_get ?_
    cases g.numbers.lookup id with
    | some k => exact .pure' trivial
    | none =>
      obtain ⟨d, hd⟩ := find?_of_lt (Nat.pos_of_ne_zero h0) hid
      rw [hd]
      dsimp only
      split
      · next hk =>
        refine Answers.bind' (hpart d.elem (partOf_elem hd (.inl hk))) (fun _ => ?_) g
        exact .bind' (answers_pure _) hnew
      · next hk =>
        refine Answers.bind' (hpart d.elem (partOf_elem hd (.inr hk))) (fun _ => ?_) g
        exact .bind' (answers_pure _) hnew
      · have hfields : Answers ((t.fieldsOf id).mapM fun f => gather t n f.type) :=
          answers_mapM fun f hf => hpart f.type (h.partOf_field hf)
        exact Answers.bind' hfields (fun _ => .bind' (answers_pure _) hnew) g
      · next hk =>
        obtain ⟨s, hs⟩ := h.signature_of_kind hd hk
        rw [hs, Option.getD_some]
        have hparams : Answers (s.params.mapM (gather t n)) :=
          answers_mapM fun p hp => hpart p (partOf_signature hs (List.mem_cons_of_mem _ hp))
        have hresult := hpart s.result (partOf_signature hs List.mem_cons_self)
        refine Answers.bind' hparams (fun _ => .bind' hresult fun _ => ?_) g
        exact .bind' (answers_pure _) hnew
      · exact Answers.bind' (answers_pure _) hnew g

theorem gather_eq (h : t.Ordered) {n : Nat} (hn : t.types.size ≤ n) (id : TypeId) :
    gather t n id = gather t (t.size + 1) id :=
  gather_congr h (h.walkable_size hn id) (h.walkable_size (Nat.le_succ _) id)

end Image

end TypedIR
