import Mathlib.Tactic.IntervalCases
import TypedIR.Emit
import TypedIR.Proofs.Typing

/-
  What types, layouts and values rest on.

  Three things go together in an engine and on the bench of an emitter: the target,
  the table of types and the layouts that are remembered (`Tables`). They are founded
  when every type comes after its parts and no layout that was given out is wrong; a
  refusal may be out of date. But no value has a type with such a refusal: when the value
  was made its layout was remembered, and that is never forgotten (`Tables.LaidOut`).
  Nothing here asks whether the code of a function makes sense, so all of it holds of
  loaded images too.
-/

namespace TypedIR

/-! ## Layouts -/

namespace Layout

def Recalls (c c' : Cache) : Prop :=
  ∀ (id : TypeId) (a : Answer), c.lookup id = some a → c'.lookup id = some a

theorem Recalls.refl (c : Cache) : Recalls c c := fun _ _ h => h

theorem Recalls.trans {c c' c'' : Cache} (h : Recalls c c') (h' : Recalls c' c'') :
    Recalls c c'' :=
  fun id a ha => h' id a (h id a ha)

theorem Recalls.cons {c c' : Cache} (h : Recalls c c') {id : TypeId} (hid : c.lookup id = none)
    (a : Answer) : Recalls c ((id, a) :: c') := by
  intro k b hk
  have hne : (k == id) = false := by
    apply beq_false_of_ne
    intro he
    rw [he, hid] at hk
    cases hk
  rw [List.lookup_cons, hne]
  exact h k b hk

variable {target : Target} {t : TypeTable}

/-! ### Questions about parts -/

section

variable {step : Cache → Cache → Prop} [Std.Refl step] [Trans step step step]
  {ask : TypeId → StateM Cache Answer}

theorem steps_placeFields (id : TypeId) (i : Nat) (p : Partial) (fields : List Field)
    (hask : ∀ f ∈ fields, ∀ c, step c ((ask f.type).run c).2) (c : Cache) :
    step c ((placeFields ask id i p fields).run c).2 := by
  induction fields generalizing i p c with
  | nil => exact Std.Refl.refl c
  | cons f rest ih =>
    rw [run_placeFields_cons]
    have hfirst := hask f List.mem_cons_self c
    rcases ((ask f.type).run c).1 with r | l
    · exact hfirst
    · dsimp only
      split
      · exact hfirst
      · exact Trans.trans hfirst
          (ih (i + 1) (p.place l) (fun g hg => hask g (List.mem_cons_of_mem f hg)) _)

theorem steps_workOut (id : TypeId)
    (helem : ∀ d, t.find? id = some d → d.kind = .tagged → ∀ c, step c ((ask d.elem).run c).2)
    (hfields : ∀ d, t.find? id = some d → d.kind = .struct →
      ∀ f ∈ t.fieldsOf id, ∀ c, step c ((ask f.type).run c).2) (c : Cache) :
    step c ((workOut target t ask id).run c).2 := by
  unfold workOut
  cases hd : t.find? id with
  | none => exact Std.Refl.refl c
  | some d =>
    dsimp only
    split
    · exact Std.Refl.refl c
    · split <;> exact Std.Refl.refl c
    · split <;> exact Std.Refl.refl c
    · split <;> exact Std.Refl.refl c
    · exact Std.Refl.refl c
    · exact Std.Refl.refl c
    · next hk => exact helem d hd hk c
    · next hk =>
      have hparts := hfields d hd hk
      split
      · exact Std.Refl.refl c
      · exact steps_placeFields id 0 {} _ hparts c
    · exact Std.Refl.refl c

end

instance : Std.Refl Recalls := ⟨Recalls.refl⟩

instance : Trans Recalls Recalls Recalls := ⟨Recalls.trans⟩

def HandsOn (p : Cache → Prop) (c c' : Cache) : Prop := p c → p c'

instance (p : Cache → Prop) : Std.Refl (HandsOn p) := ⟨fun _ h => h⟩

instance (p : Cache → Prop) : Trans (HandsOn p) (HandsOn p) (HandsOn p) := ⟨fun h h' => h' ∘ h⟩

theorem recalls_layoutWithin (n : Nat) (id : TypeId) (c : Cache) :
    Recalls c ((layoutWithin target t n id).run c).2 := by
  induction n generalizing id c with
  | zero => exact .refl c
  | succ n ih =>
    rw [run_layoutWithin_succ]
    cases hid : c.lookup id with
    | some a => exact .refl c
    | none =>
      have hworked : Recalls c ((workOut target t (layoutWithin target t n) id).run c).2 :=
        steps_workOut id (fun _ _ _ => ih _) (fun _ _ _ _ _ => ih _) c
      exact hworked.cons hid _

theorem lookup_layoutOf (id : TypeId) (c : Cache) :
    ((layoutOf target t id).run c).2.lookup id = some ((layoutOf target t id).run c).1 := by
  unfold layoutOf
  rw [run_layoutWithin_succ]
  cases hid : c.lookup id with
  | some answer => exact hid
  | none => exact List.lookup_cons_self

/-- A type without parts is worked out from its descriptor. -/
def Direct (target : Target) (t : TypeTable) (id : TypeId) (l : Layout) : Prop :=
  ∃ d, t.find? id = some d ∧ d.kind ≠ .struct ∧
    ∀ ask c, (workOut target t ask id).run c = (.ok l, c)

theorem Direct.grow {id : TypeId} {l : Layout} {t' : TypeTable} (h : Direct target t id l)
    (hg : t.Grows t') : Direct target t' id l := by
  obtain ⟨d, hd, hk, hanswer⟩ := h
  refine ⟨d, hg.find? hd, hk, fun ask c => ?_⟩
  rw [← hanswer ask c]
  unfold workOut
  rw [hd, hg.find? hd]
  dsimp only
  split <;> first | rfl | exact absurd ‹_› hk

def Cleared (id : TypeId) (c : Cache) : Prop := ∀ why, c.lookup id ≠ some (.error why)

/-- Whatever is asked, no type without parts comes to be refused. -/
theorem Direct.cleared {id : TypeId} {l : Layout} (h : Direct target t id l) (n : Nat) (k : TypeId)
    (c : Cache) (hc : Cleared id c) : Cleared id ((layoutWithin target t n k).run c).2 := by
  induction n generalizing k c with
  | zero => exact hc
  | succ n ih =>
    rw [run_layoutWithin_succ]
    cases hk : c.lookup k with
    | some a => exact hc
    | none =>
      have hworked : HandsOn (Cleared id) c ((workOut target t (layoutWithin target t n) k).run c).2 :=
        steps_workOut k (fun _ _ _ => ih _) (fun _ _ _ _ _ => ih _) c
      intro why hwhy
      rw [List.lookup_cons] at hwhy
      split at hwhy
      · next he =>
        obtain rfl := eq_of_beq he
        obtain ⟨d, hd, hstruct, hanswer⟩ := h
        rw [hanswer] at hwhy
        cases Option.some.inj hwhy
      · exact hworked hc why hwhy

/-! ### The first types -/

/-- None of the first types is remembered as refused. -/
def Firm (c : Cache) : Prop :=
  ∀ (id : TypeId) (why : Refusal), 0 < id → id < TypeTable.initial.types.size →
    c.lookup id ≠ some (.error why)

theorem Firm.cons {c : Cache} (h : Firm c) {id : TypeId} {a : Answer}
    (ha : 0 < id → id < TypeTable.initial.types.size → ∃ l, a = .ok l) : Firm ((id, a) :: c) := by
  intro k why hpos hlt hk
  rw [List.lookup_cons] at hk
  split at hk
  · next he =>
    obtain rfl := eq_of_beq he
    obtain ⟨l, rfl⟩ := ha hpos hlt
    cases Option.some.inj hk
  · exact h k why hpos hlt hk

/-- A first type is a scalar, has no size, or has a tag and a first type below. -/
theorem workOut_initial (ht : t.Ordered) {ask : TypeId → StateM Cache Answer} {id : Nat}
    (hpos : 0 < id) (hlt : id < TypeTable.initial.types.size) (c : Cache) :
    (∃ l, ((workOut target t ask id).run c).1 = .ok l) ∨
      ∃ p : Nat, 0 < p ∧ p < id ∧ (workOut target t ask id).run c = (ask p).run c := by
  obtain ⟨d, hd⟩ := TypeTable.find?_of_lt hpos hlt
  unfold workOut
  rw [ht.builtins.find? hd]
  unfold TypeTable.find? at hd
  rw [TypeTable.initial_types] at hd hlt
  rw [if_neg (Nat.ne_of_gt hpos)] at hd
  have hsize : id < 18 := hlt
  interval_cases id <;> obtain rfl := Option.some.inj hd
  case «15» => exact .inr ⟨2, by decide, by decide, rfl⟩
  case «17» => exact .inr ⟨16, by decide, by decide, rfl⟩
  all_goals exact .inl ⟨_, rfl⟩


theorem firm_layoutWithin (ht : t.Ordered) (n id : Nat) (hn : id < t.types.size → id < n)
    (c : Cache) (hc : Firm c) : (0 < id → id < TypeTable.initial.types.size →
      ∃ l, ((layoutWithin target t n id).run c).1 = .ok l) ∧
    Firm ((layoutWithin target t n id).run c).2 := by
  have hsize : TypeTable.initial.types.size ≤ t.types.size := ht.builtins.size_le
  induction n generalizing id c with
  | zero => exact ⟨fun _ hlt => absurd (hn (Nat.lt_of_lt_of_le hlt hsize)) (Nat.not_lt_zero _), hc⟩
  | succ n ih =>
    rw [run_layoutWithin_succ]
    cases hid : c.lookup id with
    | some a =>
      refine ⟨fun hpos hlt => ?_, hc⟩
      cases a with
      | ok l => exact ⟨l, rfl⟩
      | error why => exact absurd hid (hc id why hpos hlt)
    | none =>
      have hpart : ∀ d, t.find? id = some d → ∀ p ∈ t.parts d, p < n := fun d hd p hp => by
        have := ht.older hd p hp
        have := hn (TypeTable.find?_lt hd).2
        omega
      have hworked : Firm ((workOut target t (layoutWithin target t n) id).run c).2 := by
        have hsteps : HandsOn Firm c ((workOut target t (layoutWithin target t n) id).run c).2 :=
          steps_workOut id (fun d hd hk c hc => ?_) (fun d hd hk f hf c hc => ?_) c
        · exact hsteps hc
        · exact (ih d.elem (fun _ => hpart d hd _ (by simp [TypeTable.parts, hk])) c hc).2
        · have hp : f.type ∈ t.parts d := fieldTypes_eq_parts ht hd hk ▸ List.mem_map_of_mem hf
          exact (ih f.type (fun _ => hpart d hd _ hp) c hc).2
      have hok : 0 < id → id < TypeTable.initial.types.size →
          ∃ l, ((workOut target t (layoutWithin target t n) id).run c).1 = .ok l := by
        intro hpos hlt
        rcases workOut_initial ht hpos hlt c with h | ⟨p, hppos, hpid, h⟩
        · exact h
        · have hidn := hn (Nat.lt_of_lt_of_le hlt hsize)
          rw [h]
          exact (ih p (fun _ => by omega) c hc).1 hppos (Nat.lt_trans hpid hlt)
      exact ⟨hok, hworked.cons hok⟩

end Layout

/-! ## Tables -/

/-- What an engine knows about types: its target, their table and the layouts that it
remembers. -/
structure Tables where
  target : Target
  types : TypeTable
  layouts : Layout.Cache

def Engine.tables (e : Engine) : Tables := ⟨e.target, e.types, e.layouts⟩

def Bench.tables (b : Bench) : Tables := ⟨b.target, b.types, b.layouts⟩

namespace Tables

/-- Every type comes after its parts, and a layout that is remembered is that of its
type. -/
structure Founded (s : Tables) : Prop where
  ordered : s.types.Ordered
  honest : Layout.Honest s.target s.types False s.layouts
  firm : Layout.Firm s.layouts

/-- The target is the same, types were added, layouts are remembered, and no type without
parts has come to be refused. -/
structure Onward (s s' : Tables) : Prop where
  target : s'.target = s.target
  types : s.types.Grows s'.types
  layouts : Layout.Recalls s.layouts s'.layouts
  cleared : ∀ {id l}, Layout.Direct s.target s.types id l → Layout.Cleared id s.layouts →
    Layout.Cleared id s'.layouts

variable {s s' s'' : Tables}

theorem Onward.refl (s : Tables) : s.Onward s := ⟨rfl, .refl _, .refl _, fun _ h => h⟩

theorem Onward.trans (h : s.Onward s') (h' : s'.Onward s'') : s.Onward s'' where
  target := h'.target.trans h.target
  types := h.types.trans h'.types
  layouts := h.layouts.trans h'.layouts
  cleared hdirect hc := h'.cleared (h.target ▸ hdirect.grow h.types) (h.cleared hdirect hc)

def asked (s : Tables) (id : TypeId) : Tables :=
  { s with layouts := ((Layout.layoutOf s.target s.types id).run s.layouts).2 }

theorem onward_asked (s : Tables) (id : TypeId) : s.Onward (s.asked id) :=
  ⟨rfl, .refl _, Layout.recalls_layoutWithin _ id s.layouts,
    fun hdirect => hdirect.cleared _ id s.layouts⟩

theorem Founded.asked (h : s.Founded) (id : TypeId) : (s.asked id).Founded :=
  ⟨h.ordered, (Layout.layoutWithin_right h.ordered _ h.honest fun hf => hf.elim).2,
    (Layout.firm_layoutWithin h.ordered _ id Nat.lt_succ_of_lt s.layouts h.firm).2⟩

theorem onward_types {types : TypeTable} (hg : s.types.Grows types) :
    s.Onward { s with types } :=
  ⟨rfl, hg, .refl _, fun _ h => h⟩

theorem Founded.grow (h : s.Founded) {types : TypeTable} (hg : s.types.Grows types)
    (ho : types.Ordered) : ({ s with types } : Tables).Founded :=
  ⟨ho, h.honest.grow h.ordered hg, h.firm⟩

/-- The layout of the type, below its tags, is remembered. -/
def LaidOut (s : Tables) (id : TypeId) : Prop :=
  id < s.types.types.size ∧ ∃ l, s.layouts.lookup (s.types.underlying id) = some (.ok l)

theorem LaidOut.onward {id : Nat} (hid : s.LaidOut id) (ho : s.types.Ordered) (h : s.Onward s') :
    s'.LaidOut id := by
  obtain ⟨hlt, l, hl⟩ := hid
  refine ⟨Nat.lt_of_lt_of_le hlt h.types.size_le, l, ?_⟩
  rw [ho.underlying_eq h.types hlt]
  exact h.layouts _ _ hl

end Tables

theorem TypeTable.findRep_asks (t : TypeTable) (target : Target) (id : TypeId) (c : Layout.Cache) :
    ((t.findRep target id).run c).2 = c ∨
    ∃ k, ((t.findRep target id).run c).2 = ((Layout.layoutOf target t k).run c).2 := by
  rw [TypeTable.run_findRep]
  cases t.find? (t.underlying id) with
  | none => exact .inl rfl
  | some d => exact .inr ⟨_, rfl⟩

theorem TypeTable.lt_of_findRep {t : TypeTable} {target : Target} {id : TypeId} {c : Layout.Cache}
    {r : Rep} (h : ((t.findRep target id).run c).1 = .ok r) : id < t.types.size := by
  rw [TypeTable.run_findRep] at h
  cases hd : t.find? (t.underlying id) with
  | none =>
    rw [hd] at h
    cases h
  | some d =>
    obtain ⟨d', hd'⟩ := TypeTable.known_of_underlying hd
    exact (TypeTable.find?_lt hd').2

theorem TypeTable.laidOut_of_findRep {t : TypeTable} {target : Target} {id : TypeId}
    {c : Layout.Cache} {r : Rep} (h : ((t.findRep target id).run c).1 = .ok r) :
    (Tables.mk target t ((t.findRep target id).run c).2).LaidOut id := by
  refine ⟨lt_of_findRep h, ?_⟩
  rw [run_findRep] at h ⊢
  cases hd : t.find? (t.underlying id) with
  | none =>
    rw [hd] at h
    cases h
  | some d =>
    rw [hd] at h
    dsimp only at h ⊢
    rw [Layout.lookup_layoutOf]
    cases ha : ((Layout.layoutOf target t (t.underlying id)).run c).1 with
    | ok l => exact ⟨l, rfl⟩
    | error why =>
      rw [ha] at h
      unfold repOf at h
      rw [hd] at h
      cases h

theorem TypeTable.Ordered.signature_older {t : TypeTable} (h : t.Ordered) {id : Nat} {s : Signature}
    (hs : t.signature? id = some s) :
    (∀ p ∈ s.result :: s.params, p < id) ∧ id < t.types.size := by
  unfold TypeTable.signature? at hs
  cases hd : t.find? id with
  | none =>
    rw [hd] at hs
    cases hs
  | some d =>
    simp only [hd] at hs
    split at hs
    · next hk =>
      refine ⟨fun p hp => h.older hd p ?_, (TypeTable.find?_lt hd).2⟩
      simpa [TypeTable.parts, hk, Array.getD_eq_getD_getElem?, hs] using hp
    · cases hs

/-! ## Values -/

/-- The types of the values of the function are such types. -/
def Func.OfTypes (f : Func) (p : TypeId → Prop) : Prop :=
  ∀ (v : ValueId) (info : ValueInfo), f.value? v = some info → p info.type

/-- The values of the function are of types that are there. -/
abbrev Func.Known (t : TypeTable) (f : Func) : Prop := f.OfTypes (· < t.types.size)

namespace Func.OfTypes

variable {p q : TypeId → Prop} {f f' : Func}

theorem addValue (h : f.OfTypes p) {info : ValueInfo} (hinfo : p info.type) :
    (f.addValue info).2.OfTypes p := by
  intro v info' hv
  unfold Func.value? at hv
  split at hv
  · cases hv
  · next hv0 =>
    simp only [Func.addValue, Array.getElem?_push] at hv
    split at hv
    · obtain rfl := Option.some.inj hv
      exact hinfo
    · exact h v info' (by rwa [Func.value?, if_neg hv0])

theorem mark (h : f.OfTypes p) (v : ValueId) : (f.mark v).OfTypes p := by
  intro w info hw
  rw [Func.value?_mark] at hw
  split at hw
  · obtain ⟨info', hinfo', rfl⟩ := Option.map_eq_some_iff.mp hw
    exact h _ info' hinfo'
  · exact h w info hw

theorem mono (h : f.OfTypes p) (hpq : ∀ id, p id → q id) : f.OfTypes q :=
  fun v info hv => hpq _ (h v info hv)

theorem congr (h : f.OfTypes p) (hv : f'.values = f.values) : f'.OfTypes p := by
  intro v info hinfo
  apply h v info
  unfold Func.value? at hinfo ⊢
  rwa [hv] at hinfo

theorem of_values {infos : List ValueInfo}
    (hvalues : f.values = #[ValueInfo.placeholder] ++ infos.toArray)
    (h : ∀ info ∈ infos, p info.type) : f.OfTypes p := by
  intro v info hv
  apply h info
  cases v with
  | zero => cases hv
  | succ i =>
    rw [Func.value?_of_list hvalues] at hv
    exact List.mem_of_getElem? hv

theorem onward {s s' : Tables} (h : f.OfTypes s.LaidOut) (ho : s.types.Ordered) (hs : s.Onward s') :
    f.OfTypes s'.LaidOut :=
  h.mono fun _ hid => hid.onward ho hs

end Func.OfTypes

/-! ## Benches and engines -/

/-- The tables on a bench are founded, and the layouts of the values of its function are
remembered. -/
structure Bench.Founded (b : Bench) : Prop where
  tables : b.tables.Founded
  values : b.func.OfTypes b.tables.LaidOut

/-- The tables of an engine are founded, and the layouts of the values of its functions are
remembered. -/
structure Engine.Founded (e : Engine) : Prop where
  tables : e.tables.Founded
  values : ∀ fn f, e.func? fn = some f → f.OfTypes e.tables.LaidOut

def Bench.Rests (b b' : Bench) : Prop :=
  b.Founded → b'.Founded ∧ b.tables.Onward b'.tables

def Engine.Rests (e e' : Engine) : Prop :=
  e.Founded → e'.Founded ∧ e.tables.Onward e'.tables

instance : Std.Refl Bench.Rests := ⟨fun _ h => ⟨h, .refl _⟩⟩

instance : Trans Bench.Rests Bench.Rests Bench.Rests where
  trans h h' hb := ⟨(h' (h hb).1).1, (h hb).2.trans (h' (h hb).1).2⟩

instance : Std.Refl Engine.Rests := ⟨fun _ h => ⟨h, .refl _⟩⟩

instance : Trans Engine.Rests Engine.Rests Engine.Rests where
  trans h h' he := ⟨(h' (h he).1).1, (h he).2.trans (h' (h he).1).2⟩

namespace Bench

variable {b b' : Bench}

theorem Rests.of_func {f : Func} {notes : Array Trace.Note}
    (h : b.Founded → f.OfTypes b.tables.LaidOut) : b.Rests { b with func := f, notes } :=
  fun hb => ⟨⟨hb.tables, h hb⟩, .refl _⟩

theorem rests_asked (b : Bench) (id : TypeId) :
    b.Rests { b with layouts := ((Layout.layoutOf b.target b.types id).run b.layouts).2 } :=
  fun hb => ⟨⟨hb.tables.asked id, hb.values.onward hb.tables.ordered (b.tables.onward_asked id)⟩,
    b.tables.onward_asked id⟩

theorem rests_findRep (b : Bench) (id : TypeId) :
    b.Rests { b with layouts := ((b.types.findRep b.target id).run b.layouts).2 } := by
  rcases b.types.findRep_asks b.target id b.layouts with h | ⟨k, h⟩ <;> rw [h]
  · exact Std.Refl.refl b
  · exact b.rests_asked k

theorem Rests.of_types {types : TypeTable}
    (h : b.Founded → b.types.Grows types ∧ types.Ordered) : b.Rests { b with types } := by
  intro hb
  obtain ⟨hg, ho⟩ := h hb
  have honward := Tables.onward_types (s := b.tables) hg
  exact ⟨⟨hb.tables.grow hg ho, hb.values.onward hb.tables.ordered honward⟩, honward⟩

end Bench

end TypedIR
