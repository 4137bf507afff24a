import TypedIR.Proofs.Reps

/-
  Caches that answer alike.

  `ledTo` is the answer on a type that the answers in a cache lead to, when
  nothing more is remembered on the way. Asking gives that answer, and what is
  remembered afterwards leads to the same answers as before. So two caches that
  lead to the same answers stay so, whatever either is asked about known types.
-/

namespace TypedIR

namespace Layout

def worked (target : Target) (t : TypeTable) (ask : TypeId → Answer) (id : TypeId) : Answer :=
  ((workOut target t (fun p => pure (ask p)) id).run []).1

def ledWithin (target : Target) (t : TypeTable) (c : Cache) : Nat → TypeId → Answer
  | 0, id => .error (.unfinished id)
  | n + 1, id =>
    match c.lookup id with
    | some a => a
    | none => worked target t (ledWithin target t c n) id

/-- The answer that the answers in `c` lead to; a type is nested less deep than
its own number. -/
def ledTo (target : Target) (t : TypeTable) (c : Cache) (id : TypeId) : Answer :=
  ledWithin target t c (id + 1) id

variable {target : Target} {t t' : TypeTable} {c c' : Cache}

/-! ## Working out -/

/-- The fields that are asked about when fields are placed: one after the other,
up to the first that has no layout or no size. -/
def lookedAt (a : TypeId → Answer) : List TypeId → List TypeId
  | [] => []
  | f :: rest =>
    match a f with
    | .error _ => [f]
    | .ok l => if l.size = 0 then [f] else f :: lookedAt a rest

def asked (t : TypeTable) (a : TypeId → Answer) (id : TypeId) : List TypeId :=
  match t.find? id with
  | none => []
  | some d =>
    match d.kind with
    | .tagged => [d.elem]
    | .struct => lookedAt a ((t.fieldsOf id).map (·.type))
    | _ => []

theorem head_mem_lookedAt (a : TypeId → Answer) (f : TypeId) (rest : List TypeId) :
    f ∈ lookedAt a (f :: rest) := by
  rw [lookedAt]
  split
  · exact List.mem_cons_self
  · split <;> exact List.mem_cons_self

theorem lookedAt_subset (a : TypeId → Answer) (fs : List TypeId) : lookedAt a fs ⊆ fs := by
  induction fs with
  | nil => exact List.Subset.refl []
  | cons f rest ih =>
    have hone : [f] ⊆ f :: rest := List.cons_subset_cons f (List.nil_subset rest)
    rw [lookedAt]
    split
    · exact hone
    · split
      · exact hone
      · exact List.cons_subset_cons f ih

theorem known_of_asked {a : TypeId → Answer} {id p : TypeId} (hp : p ∈ asked t a id) :
    ∃ d, t.find? id = some d := by
  rcases hd : t.find? id with _ | d
  · simp [asked, hd] at hp
  · exact ⟨d, rfl⟩

theorem asked_subset (h : t.Ordered) (a : TypeId → Answer) {id : TypeId} {d : Descriptor}
    (hd : t.find? id = some d) : asked t a id ⊆ t.parts d := by
  intro p hp
  unfold asked at hp
  rw [hd] at hp
  dsimp only at hp
  split at hp
  · next hk =>
    unfold TypeTable.parts
    rw [hk]
    exact hp
  · next hk =>
    rw [← fieldTypes_eq_parts h hd hk]
    exact lookedAt_subset a _ hp
  · cases hp

theorem placeFields_worked {ask : TypeId → StateM Cache Answer} {a : TypeId → Answer}
    {P : Cache → Prop} {id : TypeId} {fields : List Field}
    (hask : ∀ p ∈ lookedAt a (fields.map (·.type)), ∀ c, P c →
      ((ask p).run c).1 = a p ∧ P ((ask p).run c).2) (i : Nat) (p : Partial) (hc : P c) :
    ((placeFields ask id i p fields).run c).1 =
      ((placeFields (fun p => pure (a p)) id i p fields).run []).1 ∧
    P ((placeFields ask id i p fields).run c).2 := by
  induction fields generalizing i p c with
  | nil => exact ⟨rfl, hc⟩
  | cons f rest ih =>
    obtain ⟨ha, hc'⟩ := hask f.type (head_mem_lookedAt a _ _) c hc
    rw [run_placeFields_cons, run_placeFields_cons, ha]
    have hpure : ((pure (a f.type) : StateM Cache Answer).run []).1 = a f.type := rfl
    rw [hpure]
    rcases hl : a f.type with e | l
    · exact ⟨rfl, hc'⟩
    · dsimp only
      by_cases h0 : l.size = 0
      · rw [if_pos h0, if_pos h0]
        exact ⟨rfl, hc'⟩
      · rw [if_neg h0, if_neg h0]
        apply ih _ _ _ hc'
        intro q hq
        apply hask
        rw [List.map_cons, lookedAt, hl]
        dsimp only
        rw [if_neg h0]
        exact List.mem_cons_of_mem _ hq

theorem placeFields_congr (a : TypeId → Answer) {id : TypeId} {fields fields' : List Field}
    (h : fields.map (·.type) = fields'.map (·.type)) (i : Nat) (p : Partial) :
    (placeFields (fun p => pure (a p)) id i p fields).run [] =
      (placeFields (fun p => pure (a p)) id i p fields').run [] := by
  induction fields generalizing fields' i p with
  | nil => rw [List.map_eq_nil_iff.mp h.symm]
  | cons f rest ih =>
    obtain ⟨f', rest', rfl, hf, hrest⟩ := List.map_eq_cons_iff.mp h.symm
    rw [run_placeFields_cons, run_placeFields_cons, hf]
    have hpure : (pure (a f.type) : StateM Cache Answer).run [] = (a f.type, []) := rfl
    rw [hpure]
    rcases a f.type with e | l
    · rfl
    · dsimp only
      split
      · rfl
      · exact ih hrest.symm _ _

theorem workOut_asked {ask : TypeId → StateM Cache Answer} {a : TypeId → Answer}
    {P : Cache → Prop} {id : TypeId}
    (hask : ∀ p ∈ asked t a id, ∀ c, P c → ((ask p).run c).1 = a p ∧ P ((ask p).run c).2)
    (hc : P c) :
    ((workOut target t ask id).run c).1 = worked target t a id ∧
    P ((workOut target t ask id).run c).2 := by
  unfold asked at hask
  unfold worked workOut
  rcases hd : t.find? id with _ | d
  · exact ⟨rfl, hc⟩
  · rw [hd] at hask
    dsimp only at hask ⊢
    split
    · exact ⟨rfl, hc⟩
    · split <;> exact ⟨rfl, hc⟩
    · split <;> exact ⟨rfl, hc⟩
    · split <;> exact ⟨rfl, hc⟩
    · exact ⟨rfl, hc⟩
    · exact ⟨rfl, hc⟩
    · next hk =>
      rw [hk] at hask
      exact hask d.elem List.mem_cons_self c hc
    · next hk =>
      rw [hk] at hask
      rcases hf : t.fieldsOf id with _ | ⟨f, rest⟩
      · exact ⟨rfl, hc⟩
      · rw [hf] at hask
        exact placeFields_worked hask 0 {} hc
    · exact ⟨rfl, hc⟩

theorem worked_asked {a a' : TypeId → Answer} {id : TypeId}
    (ha : ∀ p ∈ asked t a' id, a p = a' p) : worked target t a id = worked target t a' id := by
  apply (workOut_asked (P := fun _ => True) _ trivial).1
  exact fun p hp c _ => ⟨ha p hp, trivial⟩

theorem worked_congr (h : t.Ordered) {a a' : TypeId → Answer} {id : TypeId}
    (ha : ∀ d, t.find? id = some d → ∀ p ∈ t.parts d, a p = a' p) :
    worked target t a id = worked target t a' id := by
  apply worked_asked
  intro p hp
  obtain ⟨d, hd⟩ := known_of_asked hp
  exact ha d hd p (asked_subset h a' hd hp)

/-- Tables in which a type is the same, with fields of the same types, work it
out alike. -/
theorem worked_same {id : TypeId} (hd : t'.find? id = t.find? id)
    (hf : (t'.fieldsOf id).map (·.type) = (t.fieldsOf id).map (·.type)) (a : TypeId → Answer) :
    worked target t' a id = worked target t a id := by
  unfold worked workOut
  rw [hd]
  rcases t.find? id with _ | d
  · rfl
  · dsimp only
    split <;> try rfl
    rcases hf₁ : t.fieldsOf id with _ | ⟨f, rest⟩ <;>
      rcases hf₂ : t'.fieldsOf id with _ | ⟨f', rest'⟩ <;> rw [hf₁, hf₂] at hf
    · cases hf
    · cases hf
    · exact congrArg Prod.fst (placeFields_congr a hf 0 {})

theorem worked_grow (h : t.Ordered) (hg : t.Grows t') {id : TypeId} {d : Descriptor}
    (hd : t.find? id = some d) (a : TypeId → Answer) :
    worked target t' a id = worked target t a id := by
  by_cases hk : d.kind = .struct
  · exact worked_same ((hg.find? hd).trans hd.symm) (fieldTypes_grow h hg hd hk) a
  · have hnone : ∀ {u : TypeTable}, u.find? id = some d → u.fieldsOf id = [] := by
      intro u hu
      simp [TypeTable.fieldsOf, TypeTable.fields?, hu, hk]
    apply worked_same ((hg.find? hd).trans hd.symm)
    rw [hnone hd, hnone (hg.find? hd)]

/-! ## What answers lead to -/

theorem ledWithin_of_lookup {n : Nat} {id : TypeId} {a : Answer} (h : c.lookup id = some a) :
    ledWithin target t c (n + 1) id = a := by
  simp only [ledWithin, h]

theorem ledWithin_eq (h : t.Ordered) (n m : Nat) {id : Nat} (hn : id < n) (hm : id < m) :
    ledWithin target t c n id = ledWithin target t c m id := by
  induction n generalizing m id with
  | zero => omega
  | succ n ih =>
    obtain ⟨m, rfl⟩ : ∃ k, m = k + 1 := ⟨m - 1, by omega⟩
    simp only [ledWithin]
    rcases c.lookup id with _ | a
    · refine worked_congr h fun d hd p hp => ?_
      have := h.older hd p hp
      exact ih m (by omega) (by omega)
    · rfl

theorem ledTo_of_not_remembered (h : t.Ordered) {id : TypeId} (hn : c.lookup id = none) :
    ledTo target t c id = worked target t (ledTo target t c) id := by
  unfold ledTo
  rw [ledWithin, hn]
  refine worked_congr h fun d hd p hp => ?_
  have := h.older hd p hp
  exact ledWithin_eq h _ _ (by omega) (by omega)

theorem lookup_cons_of_ne {id k : Nat} {a : Answer} (hk : k ≠ id) :
    List.lookup k ((id, a) :: c) = c.lookup k := by
  have hb : (k == id) = false := beq_false_of_ne hk
  rw [List.lookup_cons, hb]

/-- `c'` remembers what `c` does and, on known types, what it leads to. -/
structure Faithful (target : Target) (t : TypeTable) (c c' : Cache) : Prop where
  keeps : ∀ {id a}, c.lookup id = some a → c'.lookup id = some a
  leads : ∀ {id a}, c'.lookup id = some a → ledTo target t c id = a
  beyond : ∀ {id : Nat}, t.types.size ≤ id → c'.lookup id = c.lookup id

theorem Faithful.refl (c : Cache) : Faithful target t c c :=
  ⟨fun h => h, fun h => ledWithin_of_lookup h, fun _ => rfl⟩

theorem Faithful.cons (hf : Faithful target t c c') {id : Nat} {a : Answer}
    (hid : id < t.types.size) (ha : ledTo target t c id = a) :
    Faithful target t c ((id, a) :: c') := by
  refine ⟨fun {k b} hk => ?_, fun {k b} hk => ?_, fun {k} hk => ?_⟩
  · rw [List.lookup_cons]
    split
    · next he =>
      rw [eq_of_beq he] at hk
      rw [← ha]
      exact congrArg some (ledWithin_of_lookup hk)
    · exact hf.keeps hk
  · rw [List.lookup_cons] at hk
    split at hk
    · next he =>
      rw [eq_of_beq he]
      exact Option.some.inj hk ▸ ha
    · exact hf.leads hk
  · rw [lookup_cons_of_ne (by omega)]
    exact hf.beyond hk

theorem Faithful.ledTo_eq (h : t.Ordered) (hf : Faithful target t c c') (id : Nat) :
    ledTo target t c' id = ledTo target t c id := by
  induction id using Nat.strongRecOn with
  | ind id ih =>
    rcases hn : c'.lookup id with _ | a
    · have hn' : c.lookup id = none := by
        rcases hc : c.lookup id with _ | a
        · rfl
        · exact absurd ((hf.keeps hc).symm.trans hn) nofun
      rw [ledTo_of_not_remembered h hn, ledTo_of_not_remembered h hn']
      refine worked_congr h fun d hd p hp => ih p ?_
      exact h.older hd p hp
    · rw [hf.leads hn]
      exact ledWithin_of_lookup hn

theorem layoutWithin_ledTo (h : t.Ordered) (n : Nat) {c₀ : Cache} {id : Nat}
    (hid : id < n) (hknown : id < t.types.size) (hf : Faithful target t c₀ c) :
    ((layoutWithin target t n id).run c).1 = ledTo target t c₀ id ∧
    Faithful target t c₀ ((layoutWithin target t n id).run c).2 := by
  induction n generalizing id c with
  | zero => omega
  | succ n ih =>
    rw [run_layoutWithin_succ]
    rcases hlook : c.lookup id with _ | a
    · have hn : c₀.lookup id = none := by
        rcases hc : c₀.lookup id with _ | a
        · rfl
        · exact absurd ((hf.keeps hc).symm.trans hlook) nofun
      have hparts : ∀ p ∈ asked t (ledTo target t c₀) id, ∀ c, Faithful target t c₀ c →
          ((layoutWithin target t n p).run c).1 = ledTo target t c₀ p ∧
          Faithful target t c₀ ((layoutWithin target t n p).run c).2 := by
        intro p hp c hc
        obtain ⟨d, hd⟩ := known_of_asked hp
        have := h.older hd p (asked_subset h _ hd hp)
        exact ih (by omega) (by omega) hc
      obtain ⟨ha, hf'⟩ := workOut_asked hparts hf
      rw [← ledTo_of_not_remembered h hn] at ha
      exact ⟨ha, hf'.cons hknown ha.symm⟩
    · exact ⟨(hf.leads hlook).symm, hf⟩

theorem worked_unknown {id : TypeId} (h : t.find? id = none) (a : TypeId → Answer) :
    worked target t a id = .error (.unknownType id) := by
  unfold worked workOut
  rw [h]
  rfl

theorem ledTo_grow (h : t.Ordered) (h' : t'.Ordered) (hg : t.Grows t') {id : Nat}
    (hid : id < t.types.size) : ledTo target t' c id = ledTo target t c id := by
  induction id using Nat.strongRecOn with
  | ind id ih =>
    rcases hn : c.lookup id with _ | a
    · rw [ledTo_of_not_remembered h hn, ledTo_of_not_remembered h' hn]
      rcases Nat.eq_zero_or_pos id with rfl | hpos
      · rw [worked_unknown rfl, worked_unknown rfl]
      · obtain ⟨d, hd⟩ := TypeTable.find?_of_lt hpos hid
        rw [worked_grow h hg hd]
        refine worked_congr h fun d' hd' p hp => ?_
        have := h.older hd' p hp
        exact ih p (by omega) (by omega)
    · exact (ledWithin_of_lookup hn).trans (ledWithin_of_lookup hn).symm

/-! ## Caches that answer alike -/

/-- Two caches lead to the same answers, now and when there are more types. -/
structure Alike (target : Target) (t : TypeTable) (c c' : Cache) : Prop where
  ledTo : ∀ id, ledTo target t c' id = ledTo target t c id
  beyond : ∀ {id : Nat}, t.types.size ≤ id → c'.lookup id = c.lookup id

namespace Alike

theorem refl (c : Cache) : Alike target t c c := ⟨fun _ => rfl, fun _ => rfl⟩

theorem symm (h : Alike target t c c') : Alike target t c' c :=
  ⟨fun id => (h.ledTo id).symm, fun hid => (h.beyond hid).symm⟩

theorem trans {c'' : Cache} (h : Alike target t c c') (h' : Alike target t c' c'') :
    Alike target t c c'' :=
  ⟨fun id => (h'.ledTo id).trans (h.ledTo id), fun hid => (h'.beyond hid).trans (h.beyond hid)⟩

theorem of_faithful (ht : t.Ordered) (hf : Faithful target t c c') : Alike target t c c' :=
  ⟨hf.ledTo_eq ht, hf.beyond⟩

theorem grow (h : t.Ordered) (h' : t'.Ordered) (hg : t.Grows t') (hc : Alike target t c c') :
    Alike target t' c c' := by
  refine ⟨fun id => ?_, fun hid => hc.beyond (Nat.le_trans hg.size_le hid)⟩
  induction id using Nat.strongRecOn with
  | ind id ih =>
    by_cases hid : id < t.types.size
    · rw [ledTo_grow h h' hg hid, ledTo_grow h h' hg hid]
      exact hc.ledTo id
    · have hlook := hc.beyond (Nat.le_of_not_lt hid)
      rcases hn : c.lookup id with _ | a
      · rw [hn] at hlook
        rw [ledTo_of_not_remembered h' hn, ledTo_of_not_remembered h' hlook]
        exact worked_congr h' fun d hd p hp => ih p (h'.older hd p hp)
      · rw [hn] at hlook
        exact (ledWithin_of_lookup hlook).trans (ledWithin_of_lookup hn).symm

theorem ask_known (h : t.Ordered) {id : Nat} (hid : id < t.types.size) (c : Cache) :
    ((layoutOf target t id).run c).1 = Layout.ledTo target t c id ∧
    Alike target t c ((layoutOf target t id).run c).2 := by
  obtain ⟨ha, hf⟩ := layoutWithin_ledTo h (t.size + 1) (Nat.lt_succ_of_lt hid) hid (.refl c)
  exact ⟨ha, .of_faithful h hf⟩

theorem ledTo_cons {id : Nat} (h : t.Ordered) (hid : t.types.size ≤ id) (a : Answer) {k : Nat}
    (hk : k ≠ id) : Layout.ledTo target t ((id, a) :: c) k = Layout.ledTo target t c k := by
  induction k using Nat.strongRecOn with
  | ind k ih =>
    have hlook := lookup_cons_of_ne (c := c) (a := a) hk
    rcases hn : c.lookup k with _ | b
    · rw [hn] at hlook
      rw [ledTo_of_not_remembered h hn, ledTo_of_not_remembered h hlook]
      refine worked_congr h fun d hd p hp => ?_
      have := h.older hd p hp
      have := (TypeTable.find?_lt hd).2
      exact ih p (by omega) (by omega)
    · rw [hn] at hlook
      exact (ledWithin_of_lookup hlook).trans (ledWithin_of_lookup hn).symm

theorem cons (h : t.Ordered) (hc : Alike target t c c') {id : Nat} (hid : t.types.size ≤ id)
    (a : Answer) : Alike target t ((id, a) :: c) ((id, a) :: c') := by
  have hfirst : ∀ c : Cache, List.lookup id ((id, a) :: c) = some a := fun c => by simp
  refine ⟨fun k => ?_, fun {k} hk => ?_⟩ <;> by_cases hki : k = id
  · rw [hki]
    exact (ledWithin_of_lookup (hfirst c')).trans (ledWithin_of_lookup (hfirst c)).symm
  · rw [ledTo_cons h hid a hki, ledTo_cons h hid a hki]
    exact hc.ledTo k
  · rw [hki, hfirst, hfirst]
  · rw [lookup_cons_of_ne hki, lookup_cons_of_ne hki]
    exact hc.beyond hk

theorem run_unknown {id : Nat} (hid : t.types.size ≤ id) (c : Cache) :
    (layoutOf target t id).run c =
      match c.lookup id with
      | some a => (a, c)
      | none => (.error (.unknownType id), (id, .error (.unknownType id)) :: c) := by
  have hnone : t.find? id = none := by
    rcases hd : t.find? id with _ | d
    · rfl
    · exact absurd (TypeTable.find?_lt hd).2 (by omega)
  unfold layoutOf
  rw [run_layoutWithin_succ]
  unfold workOut
  rw [hnone]
  rcases c.lookup id with _ | a <;> rfl

theorem ask (h : t.Ordered) (hc : Alike target t c c') (id : Nat) :
    ((layoutOf target t id).run c').1 = ((layoutOf target t id).run c).1 ∧
    Alike target t ((layoutOf target t id).run c).2 ((layoutOf target t id).run c').2 := by
  by_cases hid : id < t.types.size
  · obtain ⟨ha, hk⟩ := @ask_known target _ h _ hid c
    obtain ⟨ha', hk'⟩ := ask_known h hid c'
    exact ⟨by rw [ha, ha', hc.ledTo], hk.symm.trans (hc.trans hk')⟩
  · have hid := Nat.le_of_not_lt hid
    have hlook := hc.beyond hid
    rw [run_unknown hid, run_unknown hid, hlook]
    rcases hn : c.lookup id with _ | a
    · exact ⟨rfl, hc.cons h hid _⟩
    · exact ⟨rfl, hc⟩

theorem findRep (h : t.Ordered) (hc : Alike target t c c') (id : TypeId) :
    ((t.findRep target id).run c').1 = ((t.findRep target id).run c).1 ∧
    Alike target t ((t.findRep target id).run c).2 ((t.findRep target id).run c').2 := by
  rw [TypeTable.run_findRep, TypeTable.run_findRep]
  rcases t.find? (t.underlying id) with _ | d
  · exact ⟨rfl, hc⟩
  · obtain ⟨ha, hc'⟩ := hc.ask h (t.underlying id)
    exact ⟨congrArg (t.repOf id) ha, hc'⟩

end Alike

end Layout

end TypedIR
