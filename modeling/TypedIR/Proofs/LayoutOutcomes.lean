import Mathlib.Data.Finset.Card
import Mathlib.Order.Interval.Finset.Nat
import TypedIR.Proofs.LayoutCaches

/-
  The layout a type has.

  `Laid` says what the answer on a type is when it is worked out from its parts,
  with nothing remembered. Parts may be types that are not there, and types may
  be put together in any order, so there is no order of the types to go by; a
  type that contains itself has no answer. What is shown:

  1. there is one answer, and it is found by following types into their parts as
     deep as there are types;
  2. a cache whose answers are the answers gives the answer, and stays so;
  3. more types change an answer only if it is that one of them is unknown.
-/

namespace TypedIR

namespace Layout

/-- `a` is the answer on a type, found by following types into their parts at
most `n` deep. -/
def LaidWithin (target : Target) (t : TypeTable) : Nat → TypeId → Answer → Prop
  | 0, _, _ => False
  | n + 1, id, a => ∃ ask : TypeId → Answer,
      (∀ p ∈ asked t ask id, LaidWithin target t n p (ask p)) ∧ worked target t ask id = a

def Laid (target : Target) (t : TypeTable) (id : TypeId) (a : Answer) : Prop :=
  ∃ n, LaidWithin target t n id a

variable {target : Target} {t t' : TypeTable} {c : Cache} {id : TypeId} {a b : Answer}

/-! ## There is one answer -/

theorem LaidWithin.succ {n : Nat} (h : LaidWithin target t n id a) :
    LaidWithin target t (n + 1) id a := by
  induction n generalizing id a with
  | zero => exact h.elim
  | succ n ih =>
    obtain ⟨ask, hask, ha⟩ := h
    exact ⟨ask, fun p hp => ih (hask p hp), ha⟩

theorem LaidWithin.mono {n m : Nat} (h : LaidWithin target t n id a) (hnm : n ≤ m) :
    LaidWithin target t m id a := by
  induction hnm with
  | refl => exact h
  | step _ ih => exact ih.succ

/-- Two ways of answering for fields part at the first field that they answer
differently, which both are asked about. -/
theorem lookedAt_agree {ask ask' : TypeId → Answer} {fs : List TypeId}
    (h : ∀ p, p ∈ lookedAt ask fs → p ∈ lookedAt ask' fs → ask' p = ask p) :
    ∀ p ∈ lookedAt ask fs, ask' p = ask p := by
  induction fs with
  | nil => nofun
  | cons f rest ih =>
    have hf : ask' f = ask f := h f (head_mem_lookedAt ask f rest) (head_mem_lookedAt ask' f rest)
    simp only [lookedAt, hf] at h ⊢
    rcases hl : ask f with e | l
    · intro p hp
      rw [List.mem_singleton.mp hp, hf]
    · simp only [hl] at h ⊢
      by_cases h0 : l.size = 0
      · rw [if_pos h0]
        intro p hp
        rw [List.mem_singleton.mp hp, hf]
      · rw [if_neg h0] at h ⊢
        rw [if_neg h0] at h
        intro p hp
        rcases List.mem_cons.mp hp with rfl | hp
        · exact hf
        · exact ih (fun q hq hq' => h q (List.mem_cons_of_mem f hq) (List.mem_cons_of_mem f hq'))
            p hp

theorem asked_agree {ask ask' : TypeId → Answer}
    (h : ∀ p, p ∈ asked t ask id → p ∈ asked t ask' id → ask' p = ask p) :
    ∀ p ∈ asked t ask id, ask' p = ask p := by
  unfold asked at h ⊢
  rcases hd : t.find? id with _ | d
  · nofun
  · simp only [hd] at h ⊢
    split
    · next hk =>
      simp only [hk] at h
      exact fun p hp => h p hp hp
    · next hk =>
      simp only [hk] at h
      exact lookedAt_agree h
    · nofun

theorem LaidWithin.unique {n m : Nat} (h : LaidWithin target t n id a)
    (h' : LaidWithin target t m id b) : b = a := by
  induction n generalizing m id a b with
  | zero => exact h.elim
  | succ n ih =>
    obtain ⟨ask, hask, rfl⟩ := h
    rcases m with _ | m
    · exact h'.elim
    · obtain ⟨ask', hask', rfl⟩ := h'
      apply worked_asked
      apply asked_agree
      exact fun p hp hp' => ih (hask p hp) (hask' p hp')

theorem Laid.unique (h : Laid target t id a) (h' : Laid target t id b) : b = a :=
  h.choose_spec.unique h'.choose_spec

def Depth (target : Target) (t : TypeTable) (n : Nat) (id : TypeId) : Prop :=
  (∃ a, LaidWithin target t n id a) ∧ ∀ m a, LaidWithin target t m id a → n ≤ m

theorem Laid.depth (h : Laid target t id a) : ∃ n, Depth target t n id := by
  have hex : ∃ n a, LaidWithin target t n id a := ⟨h.choose, a, h.choose_spec⟩
  classical
  refine ⟨Nat.find hex, Nat.find_spec hex, ?_⟩
  exact fun m b hb => Nat.find_min' hex ⟨b, hb⟩

theorem Depth.below {n : Nat} (h : Depth target t (n + 1) id) (hn : n ≠ 0) :
    (∃ d, t.find? id = some d) ∧ ∃ p, Depth target t n p := by
  obtain ⟨⟨a, ask, hask, ha⟩, hleast⟩ := h
  -- otherwise every part is less deep, and so is the type
  by_contra hnone
  have hparts : ∀ p ∈ asked t ask id, LaidWithin target t (n - 1) p (ask p) := by
    intro p hp
    by_contra hp'
    apply hnone
    refine ⟨known_of_asked hp, p, ⟨ask p, hask p hp⟩, ?_⟩
    intro m b hb
    by_contra hlt
    have hm : m ≤ n - 1 := by omega
    have hb' := hb.mono hm
    rw [(hask p hp).unique hb] at hb'
    exact hp' hb'
  have hless : LaidWithin target t (n - 1 + 1) id a := ⟨ask, hparts, ha⟩
  have := hleast _ _ hless
  omega

theorem Depth.chain {n : Nat} (h : Depth target t n id) {k : Nat} (hk : k ≤ n) (h0 : 0 < k) :
    ∃ p, Depth target t k p := by
  induction n generalizing id with
  | zero => omega
  | succ n ih =>
    rcases Nat.lt_or_eq_of_le hk with hlt | rfl
    · obtain ⟨-, p, hp⟩ := h.below (by omega)
      exact ih hp (by omega)
    · exact ⟨id, h⟩

/-- A type is no deeper than there are types: types of different depths differ,
and all but those of depth 1 are there. -/
theorem Depth.le_size {n : Nat} (h : Depth target t n id) : n ≤ t.types.size + 1 := by
  have hall : ∀ k ∈ Finset.Icc 2 n, ∃ p : Nat, Depth target t k p ∧ p < t.types.size := by
    intro k hk
    obtain ⟨h2, hkn⟩ := Finset.mem_Icc.mp hk
    obtain ⟨p, hp⟩ := h.chain hkn (by omega)
    obtain ⟨m, rfl⟩ : ∃ m, k = m + 1 := ⟨k - 1, by omega⟩
    obtain ⟨d, hd⟩ := (hp.below (by omega)).1
    exact ⟨p, hp, (TypeTable.find?_lt hd).2⟩
  choose! p hp hlt using hall
  have hcard : (Finset.Icc 2 n).card ≤ (Finset.range t.types.size).card := by
    apply Finset.card_le_card_of_injOn p
    · exact fun k hk => Finset.mem_coe.mpr (Finset.mem_range.mpr (hlt k hk))
    · intro k hk m hm hkm
      have hk' := hp k hk
      have hm' := hp m hm
      rw [← hkm] at hm'
      obtain ⟨x, hx⟩ := hk'.1
      obtain ⟨y, hy⟩ := hm'.1
      exact Nat.le_antisymm (hk'.2 _ _ hy) (hm'.2 _ _ hx)
  rw [Nat.card_Icc, Finset.card_range] at hcard
  omega

theorem Laid.within (h : Laid target t id a) : LaidWithin target t (t.size + 1) id a := by
  obtain ⟨n, hn⟩ := h.depth
  obtain ⟨b, hb⟩ := hn.1
  rw [← h.unique ⟨n, hb⟩]
  exact hb.mono hn.le_size

theorem Laid.of_parts {ask : TypeId → Answer}
    (h : ∀ p ∈ asked t ask id, Laid target t p (ask p)) :
    Laid target t id (worked target t ask id) :=
  ⟨t.size + 2, ask, fun p hp => (h p hp).within, rfl⟩

theorem laid_ledTo (h : t.Ordered) (id : Nat) : Laid target t id (ledTo target t [] id) := by
  induction id using Nat.strongRecOn with
  | ind id ih =>
    rw [ledTo_of_not_remembered h rfl]
    apply Laid.of_parts
    intro p hp
    obtain ⟨d, hd⟩ := known_of_asked hp
    exact ih p (h.older hd p (asked_subset h _ hd hp))

/-! ## Caches that hold answers -/

def Truthful (target : Target) (t : TypeTable) (c : Cache) : Prop :=
  ∀ id a, c.lookup id = some a → Laid target t id a

theorem truthful_nil : Truthful target t [] := nofun

theorem Truthful.cons (hc : Truthful target t c) (ha : Laid target t id a) :
    Truthful target t ((id, a) :: c) := by
  intro k b hk
  by_cases hki : k = id
  · subst hki
    rw [List.lookup_cons_self] at hk
    exact Option.some.inj hk ▸ ha
  · rw [lookup_cons_of_ne hki] at hk
    exact hc k b hk

theorem Truthful.run_layoutWithin {n : Nat} (hc : Truthful target t c)
    (h : LaidWithin target t n id a) :
    ((layoutWithin target t n id).run c).1 = a ∧
      Truthful target t ((layoutWithin target t n id).run c).2 := by
  induction n generalizing id a c with
  | zero => exact h.elim
  | succ n ih =>
    rw [run_layoutWithin_succ]
    rcases hlook : c.lookup id with _ | b
    · have hlaid := h
      obtain ⟨ask, hask, ha⟩ := h
      have hparts : ∀ p ∈ asked t ask id, ∀ c, Truthful target t c →
          ((layoutWithin target t n p).run c).1 = ask p ∧
          Truthful target t ((layoutWithin target t n p).run c).2 :=
        fun p hp c hc => ih hc (hask p hp)
      have hworked : ((workOut target t (layoutWithin target t n) id).run c).1 =
          worked target t ask id ∧
          Truthful target t ((workOut target t (layoutWithin target t n) id).run c).2 :=
        workOut_asked hparts hc
      obtain ⟨hanswer, hrest⟩ := hworked
      rw [ha] at hanswer
      refine ⟨hanswer, hrest.cons ?_⟩
      rw [hanswer]
      exact ⟨n + 1, hlaid⟩
    · exact ⟨Laid.unique ⟨n + 1, h⟩ (hc id b hlook), hc⟩

theorem Truthful.run_layoutOf (hc : Truthful target t c) (h : Laid target t id a) :
    ((layoutOf target t id).run c).1 = a ∧ Truthful target t ((layoutOf target t id).run c).2 :=
  hc.run_layoutWithin h.within

/-! ## More types -/

theorem worked_error {ask : TypeId → Answer} {p : TypeId} {r : Refusal} (hp : p ∈ asked t ask id)
    (hr : ask p = .error r) : worked target t ask id = .error r := by
  have hplaced : ∀ (fields : List Field) (i : Nat) (q : Partial),
      p ∈ lookedAt ask (fields.map (·.type)) →
      ((placeFields (fun p => pure (ask p)) id i q fields).run []).1 = .error r := by
    intro fields
    induction fields with
    | nil => nofun
    | cons f rest ih =>
      intro i q hp
      rw [run_placeFields_cons]
      have hpure : (pure (ask f.type) : StateM Cache Answer).run [] = (ask f.type, []) := rfl
      rw [hpure]
      rw [List.map_cons, lookedAt] at hp
      rcases hl : ask f.type with e | l <;> rw [hl] at hp <;> dsimp only at hp ⊢
      · rw [List.mem_singleton.mp hp, hl] at hr
        exact hr
      · by_cases h0 : l.size = 0
        · rw [if_pos h0] at hp
          rw [List.mem_singleton.mp hp, hl] at hr
          cases hr
        · rw [if_neg h0] at hp ⊢
          rcases List.mem_cons.mp hp with rfl | hp
          · cases hl.symm.trans hr
          · exact ih _ _ hp
  unfold asked at hp
  unfold worked workOut
  rcases hd : t.find? id with _ | d <;> rw [hd] at hp <;> dsimp only at hp ⊢
  · cases hp
  · split at hp
    · next hk =>
      rw [List.mem_singleton.mp hp] at hr
      rw [hk]
      exact hr
    · next hk =>
      rw [hk]
      rcases hf : t.fieldsOf id with _ | ⟨f, rest⟩ <;> rw [hf] at hp
      · cases hp
      · exact hplaced _ _ _ hp
    · cases hp

def StructsIn (t : TypeTable) : Prop :=
  ∀ id d, t.find? id = some d → d.kind = .struct → d.slot < t.structs.size

theorem StructsIn.fieldTypes_grow (h : StructsIn t) (hg : t.Grows t') {d : Descriptor}
    (hd : t.find? id = some d) :
    (t'.fieldsOf id).map (·.type) = (t.fieldsOf id).map (·.type) := by
  unfold TypeTable.fieldsOf TypeTable.fields?
  rw [hd, hg.find? hd]
  dsimp only
  split
  · next hk =>
    have hfs := Array.getElem?_eq_getElem (h id d hd hk.1)
    obtain ⟨fs', hfs', hsame⟩ := hg.structs hfs
    rw [hfs, hfs']
    exact hsame
  · rfl

/-- An answer stays when the table grows, unless it is that one of the new types is
unknown. -/
theorem LaidWithin.grow {n : Nat} (h : StructsIn t) (hg : t.Grows t')
    (ha : LaidWithin target t n id a)
    (hnew : ∀ k d, a = .error (.unknownType k) → t'.find? k = some d → t.find? k = some d) :
    LaidWithin target t' n id a := by
  induction n generalizing id a with
  | zero => exact ha
  | succ n ih =>
    obtain ⟨ask, hask, rfl⟩ := ha
    have hparts : ∀ p ∈ asked t ask id, LaidWithin target t' n p (ask p) := by
      intro p hp
      apply ih (hask p hp)
      intro k d hk
      exact hnew k d (worked_error hp hk)
    have hfind : t'.find? id = t.find? id := by
      rcases hd : t.find? id with _ | d
      · have hunknown : worked target t ask id = .error (.unknownType id) :=
          worked_unknown hd ask
        rcases hd' : t'.find? id with _ | d
        · rfl
        · exact absurd (hnew id d hunknown hd') (by simp [hd])
      · exact hg.find? hd
    have hfields : (t'.fieldsOf id).map (·.type) = (t.fieldsOf id).map (·.type) := by
      rcases hd : t.find? id with _ | d
      · simp [TypeTable.fieldsOf, TypeTable.fields?, hfind, hd]
      · exact h.fieldTypes_grow hg hd
    refine ⟨ask, ?_, worked_same hfind hfields ask⟩
    have hasked : asked t' ask id = asked t ask id := by
      unfold asked
      rw [hfind, hfields]
    rw [hasked]
    exact hparts

theorem Truthful.grow (h : StructsIn t) (hg : t.Grows t') (hc : Truthful target t c)
    (hnew : ∀ id k d, c.lookup id = some (.error (.unknownType k)) → t'.find? k = some d →
      t.find? k = some d) : Truthful target t' c := by
  intro id a ha
  obtain ⟨n, hn⟩ := hc id a ha
  refine ⟨n, hn.grow h hg ?_⟩
  rintro k d rfl
  exact hnew id k d ha

end Layout

end TypedIR
