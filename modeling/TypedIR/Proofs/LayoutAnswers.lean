import TypedIR.Layout
import TypedIR.Proofs.TypeGrowth

/-
  What remembered layouts mean.

  `plain` works out the layout of a type from its parts and remembers nothing.
  It is settled when the type is made: fuel beyond the type's own number and a
  larger table change nothing. Against it the answers of the cache are judged:

  1. a layout that is given out is the plain one, whatever was asked before;
  2. a refusal may be out of date, because the answer on a type that was not
     there yet is remembered too. As long as only known types were asked about,
     refusals are right as well, and every plain layout is given out.
-/

namespace TypedIR

namespace Layout

/-- The layout of a struct whose first fields are placed in `p`; `ask` answers
for the type of a field. -/
def placed (ask : TypeId → Option Layout) : Partial → List TypeId → Option Layout
  | p, [] => some p.finish
  | p, f :: rest =>
    match ask f with
    | none => none
    | some l => if l.size = 0 then none else placed ask (p.place l) rest

def plain (target : Target) (t : TypeTable) : Nat → TypeId → Option Layout
  | 0, _ => none
  | n + 1, id =>
    match t.find? id with
    | none => none
    | some d =>
      match d.kind with
      | .void => some empty
      | .int | .uint =>
        if d.width = 0 then some (pointerLayout target)
        else (numberLayout (d.width.toNat / 8) id).toOption
      | .float =>
        if d.width = 32 ∨ d.width = 64 then (numberLayout (d.width.toNat / 8) id).toOption
        else none
      | .pointer | .signature => some (pointerLayout target)
      | .tagged => plain target t n d.elem
      | .struct =>
        match (t.fieldsOf id).map (·.type) with
        | [] => some empty
        | fields => placed (plain target t n) {} fields
      | _ => none

theorem placed_congr {ask ask' : TypeId → Option Layout} {fields : List TypeId}
    (h : ∀ f ∈ fields, ask f = ask' f) (p : Partial) :
    placed ask p fields = placed ask' p fields := by
  induction fields generalizing p with
  | nil => rfl
  | cons f rest ih =>
    simp only [placed, h f List.mem_cons_self]
    rcases ask' f with _ | l
    · rfl
    · simp only
      split
      · rfl
      · exact ih (fun g hg => h g (List.mem_cons_of_mem f hg)) _

variable {target : Target} {t t' : TypeTable}

theorem fieldTypes_eq_parts (h : t.Ordered) {id : TypeId} {d : Descriptor}
    (hd : t.find? id = some d) (hk : d.kind = .struct) :
    (t.fieldsOf id).map (·.type) = t.parts d := by
  have hslot := (h.slots hd).1 hk
  simp only [TypeTable.fieldsOf, TypeTable.fields?, hd, hk, TypeTable.parts, true_and]
  rw [if_pos (Nat.ne_of_gt hslot.1), Array.getD_eq_getD_getElem?]

theorem fieldTypes_grow (h : t.Ordered) (hg : t.Grows t') {id : TypeId} {d : Descriptor}
    (hd : t.find? id = some d) (hk : d.kind = .struct) :
    (t'.fieldsOf id).map (·.type) = (t.fieldsOf id).map (·.type) := by
  rw [fieldTypes_eq_parts h hd hk, ← hg.parts (h.slots hd)]
  have hslot := (hg.slotOk (h.slots hd)).1 hk
  simp only [TypeTable.fieldsOf, TypeTable.fields?, hg.find? hd, hk, TypeTable.parts, true_and]
  rw [if_pos (Nat.ne_of_gt hslot.1), Array.getD_eq_getD_getElem?]

theorem plain_eq (h : t.Ordered) (hg : t.Grows t') (n m : Nat) {id : Nat}
    (hid : id < t.types.size) (hn : id < n) (hm : id < m) :
    plain target t' m id = plain target t n id := by
  induction n generalizing m id with
  | zero => omega
  | succ n ih =>
    obtain ⟨m, rfl⟩ : ∃ k, m = k + 1 := ⟨m - 1, by omega⟩
    rcases Nat.eq_zero_or_pos id with rfl | hpos
    · simp [plain, TypeTable.find?]
    · obtain ⟨d, hd⟩ := TypeTable.find?_of_lt hpos hid
      have holder := h.older hd
      simp only [plain, hd, hg.find? hd]
      split
      · rfl
      · rfl
      · rfl
      · rfl
      · rfl
      · rfl
      · next hk =>
        have := holder d.elem (by simp [TypeTable.parts, hk])
        exact ih m (by omega) (by omega) (by omega)
      · next hk =>
        rw [fieldTypes_grow h hg hd hk]
        split
        · rfl
        · next fields _ =>
          refine placed_congr (fun f hf => ?_) {}
          rw [fieldTypes_eq_parts h hd hk] at hf
          have := holder f hf
          exact ih m (by omega) (by omega) (by omega)
      · rfl

/-! ## What answers are worth -/

/-- An answer agrees with a plain layout: a layout is the same, and a refusal
stands for none, if `strict`. -/
def Answer.Agrees (strict : Prop) (plain : Option Layout) : Answer → Prop
  | .ok l => plain = some l
  | .error _ => strict → plain = none

/-- An answer on a type is right. -/
structure Right (target : Target) (t : TypeTable) (strict : Prop) (id : Nat) (a : Answer) :
    Prop where
  agrees : a.Agrees strict (plain target t (id + 1) id)
  known : strict → id < t.types.size

def Honest (target : Target) (t : TypeTable) (strict : Prop) (c : Cache) : Prop :=
  ∀ (id : Nat) (a : Answer), c.lookup id = some a → Right target t strict id a

variable {strict : Prop}

theorem honest_nil : Honest target t strict [] := nofun

theorem lt_of_plain {n : Nat} {id : Nat} {l : Layout} (h : plain target t n id = some l) :
    id < t.types.size := by
  rcases hd : t.find? id with _ | d
  · cases n <;> simp [plain, hd] at h
  · exact (TypeTable.find?_lt hd).2

theorem Right.grow {id : Nat} {a : Answer} (h : t.Ordered) (hg : t.Grows t')
    (hr : Right target t strict id a) : Right target t' strict id a := by
  have hsame : id < t.types.size →
      plain target t' (id + 1) id = plain target t (id + 1) id := fun hid =>
    plain_eq h hg _ _ hid (Nat.lt_succ_self id) (Nat.lt_succ_self id)
  refine ⟨?_, fun hs => Nat.lt_of_lt_of_le (hr.known hs) hg.size_le⟩
  have hagrees := hr.agrees
  cases a with
  | ok l => exact (hsame (lt_of_plain hagrees)).trans hagrees
  | error r => exact fun hs => (hsame (hr.known hs)).trans (hagrees hs)

theorem Honest.grow {c : Cache} (h : t.Ordered) (hg : t.Grows t')
    (hc : Honest target t strict c) : Honest target t' strict c :=
  fun id a ha => (hc id a ha).grow h hg

theorem Honest.cons {c : Cache} {id : Nat} {a : Answer} (hc : Honest target t strict c)
    (ha : Right target t strict id a) : Honest target t strict ((id, a) :: c) := by
  intro id' a' h'
  rw [List.lookup_cons] at h'
  split at h'
  · next he =>
    rw [eq_of_beq he]
    exact Option.some.inj h' ▸ ha
  · exact hc id' a' h'

def plainPart (target : Target) (t : TypeTable) (f : TypeId) : Option Layout :=
  plain target t (f + 1) f

theorem run_placeFields_cons (ask : TypeId → StateM Cache Answer) (id : TypeId) (i : Nat)
    (p : Partial) (f : Field) (rest : List Field) (c : Cache) :
    (placeFields ask id i p (f :: rest)).run c =
      ((match ((ask f.type).run c).1 with
        | .error e => pure (.error e)
        | .ok l => if l.size = 0 then pure (.error (.unsizedField id i))
            else placeFields ask id (i + 1) (p.place l) rest : StateM Cache Answer)).run
        ((ask f.type).run c).2 := rfl

theorem placeFields_right (ask : TypeId → StateM Cache Answer) (id : TypeId) {fields : List Field}
    (hask : ∀ f ∈ fields, ∀ c, Honest target t strict c →
      Right target t strict f.type ((ask f.type).run c).1 ∧
      Honest target t strict ((ask f.type).run c).2) (i : Nat) (p : Partial) {c : Cache}
    (hc : Honest target t strict c) :
    ((placeFields ask id i p fields).run c).1.Agrees strict
      (placed (plainPart target t) p (fields.map (·.type))) ∧
    Honest target t strict ((placeFields ask id i p fields).run c).2 := by
  induction fields generalizing i p c with
  | nil => exact ⟨rfl, hc⟩
  | cons f rest ih =>
    obtain ⟨hr, hc'⟩ := hask f List.mem_cons_self c hc
    rw [run_placeFields_cons]
    have hagrees := hr.agrees
    rcases ha : ((ask f.type).run c).1 with e | l <;> rw [ha] at hagrees
    · refine ⟨fun hs => ?_, hc'⟩
      simp [placed, plainPart, hagrees hs]
    · have hl : plainPart target t f.type = some l := hagrees
      simp only [List.map_cons, placed, hl]
      split
      · exact ⟨fun _ => rfl, hc'⟩
      · exact ih (fun g hg => hask g (List.mem_cons_of_mem f hg)) _ _ hc'

/-- The answer on a type that is not remembered; `ask` answers for its
parts. -/
def workOut (target : Target) (t : TypeTable) (ask : TypeId → StateM Cache Answer)
    (id : TypeId) : StateM Cache Answer :=
  match t.find? id with
  | none => pure (.error (.unknownType id))
  | some d =>
    match d.kind with
    | .void => pure (.ok empty)
    | .int | .uint =>
      if d.width = 0 then pure (.ok (pointerLayout target))
      else pure (numberLayout (d.width.toNat / 8) id)
    | .float =>
      if d.width = 32 ∨ d.width = 64 then pure (numberLayout (d.width.toNat / 8) id)
      else pure (.error (.invalidWidth id))
    | .pointer | .signature => pure (.ok (pointerLayout target))
    | .tagged => ask d.elem
    | .struct =>
      match t.fieldsOf id with
      | [] => pure (.ok empty)
      | fields => placeFields ask id 0 {} fields
    | _ => pure (.error (.unknownType id))

theorem run_layoutWithin_succ (n : Nat) (id : TypeId) (c : Cache) :
    (layoutWithin target t (n + 1) id).run c =
      match c.lookup id with
      | some a => (a, c)
      | none =>
        let r := (workOut target t (layoutWithin target t n) id).run c
        (r.1, (id, r.1) :: r.2) := by
  have hrun : (layoutWithin target t (n + 1) id).run c =
      (match c.lookup id with
        | some a => (pure a : StateM Cache Answer)
        | none => do
          let a ← workOut target t (layoutWithin target t n) id
          modify ((id, a) :: ·)
          pure a).run c := by
    simp only [layoutWithin, workOut]
    rcases t.find? id with _ | ⟨kind, elem, width, slot⟩
    · rfl
    · cases kind with
      | int | uint => by_cases hw : width = 0 <;> simp only [hw, if_true, if_false] <;> rfl
      | float =>
        by_cases hw : width = 32 ∨ width = 64 <;> simp only [hw, if_true, if_false] <;> rfl
      | struct => cases t.fieldsOf id <;> rfl
      | _ => rfl
  rw [hrun]
  rcases c.lookup id with _ | a <;> rfl

/-- The walk for a layout where `last` has its say on what is deeper than `n`. -/
def layoutElse (last : TypeId → StateM Cache Answer) (target : Target) (t : TypeTable) :
    Nat → TypeId → StateM Cache Answer
  | 0, id => last id
  | n + 1, id => do
    match (← get).lookup id with
    | some answer => pure answer
    | none =>
      let answer ← workOut target t (layoutElse last target t n) id
      modify ((id, answer) :: ·)
      pure answer

theorem run_layoutElse_succ (last : TypeId → StateM Cache Answer) (n : Nat) (id : TypeId)
    (c : Cache) :
    (layoutElse last target t (n + 1) id).run c =
      match c.lookup id with
      | some a => (a, c)
      | none =>
        let r := (workOut target t (layoutElse last target t n) id).run c
        (r.1, (id, r.1) :: r.2) := by
  show ((match c.lookup id with
    | some a => (pure a : StateM Cache Answer)
    | none => do
      let a ← workOut target t (layoutElse last target t n) id
      modify ((id, a) :: ·)
      pure a).run c) = _
  cases c.lookup id <;> rfl

theorem agrees_numberLayout (size : Nat) (id : TypeId) :
    (numberLayout size id).Agrees strict (numberLayout size id).toOption := by
  rcases numberLayout size id with r | l
  · exact fun _ => rfl
  · exact rfl

theorem workOut_right (h : t.Ordered) (ask : TypeId → StateM Cache Answer) (id : Nat) {c : Cache}
    (hc : Honest target t strict c)
    (hask : ∀ d, t.find? id = some d → ∀ p ∈ t.parts d, ∀ c, Honest target t strict c →
      Right target t strict p ((ask p).run c).1 ∧ Honest target t strict ((ask p).run c).2) :
    ((workOut target t ask id).run c).1.Agrees strict (plain target t (id + 1) id) ∧
    Honest target t strict ((workOut target t ask id).run c).2 := by
  rcases hd : t.find? id with _ | d
  · simp only [workOut, plain, hd]
    exact ⟨fun _ => rfl, hc⟩
  · have hid := (TypeTable.find?_lt hd).2
    have holder := h.older hd
    have hpart : ∀ p ∈ t.parts d, plain target t id p = plainPart target t p := by
      intro p hp
      have := holder p hp
      exact plain_eq h (.refl t) _ _ (by omega) (by omega) (by omega)
    simp only [workOut, plain, hd]
    split
    · exact ⟨rfl, hc⟩
    · split
      · exact ⟨rfl, hc⟩
      · exact ⟨agrees_numberLayout _ _, hc⟩
    · split
      · exact ⟨rfl, hc⟩
      · exact ⟨agrees_numberLayout _ _, hc⟩
    · split
      · exact ⟨agrees_numberLayout _ _, hc⟩
      · exact ⟨fun _ => rfl, hc⟩
    · exact ⟨rfl, hc⟩
    · exact ⟨rfl, hc⟩
    · next hk =>
      have hp : d.elem ∈ t.parts d := by simp [TypeTable.parts, hk]
      rw [hpart _ hp]
      exact ⟨(hask d hd _ hp c hc).1.agrees, (hask d hd _ hp c hc).2⟩
    · next hk =>
      have hparts := fieldTypes_eq_parts h hd hk
      rcases hf : t.fieldsOf id with _ | ⟨f, rest⟩
      · exact ⟨rfl, hc⟩
      · rw [hf] at hparts
        have hfields : ∀ g ∈ f :: rest, ∀ c, Honest target t strict c →
            Right target t strict g.type ((ask g.type).run c).1 ∧
            Honest target t strict ((ask g.type).run c).2 :=
          fun g hg => hask d hd g.type (hparts ▸ List.mem_map_of_mem hg)
        have hplaced := placeFields_right ask id hfields 0 {} hc
        rw [placed_congr (fun g hg => (hpart g (hparts ▸ hg)).symm)] at hplaced
        exact hplaced
    · exact ⟨fun _ => rfl, hc⟩

theorem layoutWithin_right (h : t.Ordered) (n : Nat) {id : Nat} {c : Cache}
    (hc : Honest target t strict c) (hknown : strict → id < t.types.size ∧ id < n) :
    Right target t strict id ((layoutWithin target t n id).run c).1 ∧
    Honest target t strict ((layoutWithin target t n id).run c).2 := by
  induction n generalizing id c with
  | zero => exact ⟨⟨fun hs => absurd (hknown hs).2 (by omega), fun hs => (hknown hs).1⟩, hc⟩
  | succ n ih =>
    rw [run_layoutWithin_succ]
    rcases hlook : c.lookup id with _ | a
    · obtain ⟨hagrees, hhonest⟩ := workOut_right h (layoutWithin target t n) id hc
        fun d hd p hp c' hc' => ih hc' fun hs => by
          have := h.older hd p hp
          have := hknown hs
          omega
      have hright : Right target t strict id _ := ⟨hagrees, fun hs => (hknown hs).1⟩
      exact ⟨hright, hhonest.cons hright⟩
    · exact ⟨hc id a hlook, hc⟩

end Layout

end TypedIR
