import TypedIR.Proofs.HashConsing
import TypedIR.Proofs.LayoutOutcomes

/-
  Layouts are asked for while types are made.

  In a session types are made and layouts are asked for, in any order, about
  types that are there and types that are not. Answers are remembered. A question
  is answered as it would be with nothing remembered (`Session.answers_afresh`) as
  long as the session is discreet: when a type is made, no refusal is remembered
  that calls it unknown. Such a refusal is remembered like any answer, and
  `Session.stale_refusal` is what comes of it when the type is made afterwards.

  Two things that the table does not rule out are left out: descriptors that name
  a slot for the fields of a struct that is still to come, and questions about
  types that contain themselves.
-/

namespace TypedIR

namespace Layout

variable {target : Target} {t t' side : TypeTable} {d : Descriptor}

/-! ## Making types -/

theorem StructsIn.of_side (h : StructsIn t) (hg : t.Grows t') (ht : t'.types = t.types) :
    StructsIn t' := by
  intro id d hd hk
  have hold : t.find? id = some d := by
    unfold TypeTable.find? at hd ⊢
    rwa [ht] at hd
  obtain ⟨fs, hfs, -⟩ := hg.structs (Array.getElem?_eq_getElem (h id d hold hk))
  exact lt_of_getElem? hfs

theorem StructsIn.append (h : StructsIn t) (hg : t.Grows side) (ht : side.types = t.types)
    (hd : d.kind = .struct → d.slot < side.structs.size) :
    t.Grows (side.append d).2 ∧ StructsIn (side.append d).2 := by
  refine ⟨hg.trans (side.append_grows d), ?_⟩
  intro id d' hd' hk
  rcases TypeTable.find?_append hd' with ⟨-, hold⟩ | ⟨-, rfl⟩
  · exact h.of_side hg ht id d' hold hk
  · exact hd hk

theorem StructsIn.intern (h : StructsIn t) (hd : d.kind = .struct → d.slot < t.structs.size) :
    t.Grows (t.intern d).2 ∧ StructsIn (t.intern d).2 := by
  unfold TypeTable.intern
  split
  · exact ⟨.refl t, h⟩
  · split
    · exact ⟨.refl t, h⟩
    · exact h.append (.refl t) rfl hd

theorem StructsIn.addSignature (h : StructsIn t) (s : Signature) :
    t.Grows (t.addSignature s).2 ∧ StructsIn (t.addSignature s).2 := by
  unfold TypeTable.addSignature
  split
  · exact ⟨.refl t, h⟩
  · apply h.append (t.grows_pushSignature s) rfl
    nofun

theorem StructsIn.request (h : StructsIn t) (q : Request) :
    t.Grows (q.perform t).2 ∧ StructsIn (q.perform t).2 := by
  cases q with
  | plain p =>
    apply h.intern
    intro hk
    cases p <;> cases hk
  | signature s => exact h.addSignature s
  | extend id extra =>
    rcases hs : t.signature? id with _ | s
    · simp only [Request.perform, TypeTable.extendSignature?, hs, Option.map_none]
      exact ⟨.refl t, h⟩
    · simp only [Request.perform, TypeTable.extendSignature?, hs, Option.map_some]
      exact h.addSignature _
  | tagged base deco =>
    show t.Grows (t.addTagged base deco).2 ∧ StructsIn (t.addTagged base deco).2
    unfold TypeTable.addTagged
    split
    · exact ⟨.refl t, h⟩
    · apply h.append (t.grows_pushDecoration deco) rfl
      intro hk
      cases hk
  | struct fields =>
    apply h.append (t.grows_pushStruct _) rfl
    intro _
    exact Nat.sub_lt (by simp) Nat.one_pos
  | nameFields id names =>
    show t.Grows ((t.setNames? id names).getD t) ∧ StructsIn ((t.setNames? id names).getD t)
    rcases hn : t.setNames? id names with _ | t'
    · exact ⟨.refl t, h⟩
    · obtain ⟨hg, ht⟩ := TypeTable.grows_of_setNames? hn
      exact ⟨hg, h.of_side hg ht⟩

/-! ## Sessions -/

/-- What can be asked about the layout of a type. -/
inductive Query where
  | layout (id : TypeId)
  | size (id : TypeId)
  | align (id : TypeId)
  | fieldOffset (id : TypeId) (i : Int)
  | bits (id : TypeId)

/-- What is replied: the layout or a number of it, with the reason if there is no
layout, or, where no reason is given, what was asked for alone. -/
inductive Reply where
  | layout (l : Layout) (refused : Option Refusal)
  | number (n : Int) (refused : Option Refusal)
  | offset (n? : Option Int)
  | bits (n : Int)
  deriving DecidableEq

namespace Query

def id : Query → TypeId
  | .layout id | .size id | .align id | .fieldOffset id _ | .bits id => id

def reply (q : Query) (a : Answer) : Reply :=
  let l := a.toOption.getD empty
  let refused : Option Refusal :=
    match a with
    | .ok _ => none
    | .error r => some r
  match q with
  | .layout _ => .layout l refused
  | .size _ => .number l.size refused
  | .align _ => .number l.align refused
  | .fieldOffset _ i => .offset (a.fieldOffset? i)
  | .bits _ => .bits a.bits

def perform (target : Target) (t : TypeTable) (q : Query) : StateM Cache Reply :=
  q.reply <$> layoutOf target t q.id

theorem run_perform (t : TypeTable) (q : Query) (c : Cache) :
    (q.perform target t).run c =
      (q.reply ((layoutOf target t q.id).run c).1, ((layoutOf target t q.id).run c).2) := rfl

end Query

/-- What happens in a session. -/
inductive Event where
  | request (q : Request)
  | intern (d : Descriptor)
  | ask (q : Query)

def Event.types : Event → TypeTable → TypeTable
  | .request q, t => (q.perform t).2
  | .intern d, t => (t.intern d).2
  | .ask _, t => t

/-- The types there are and the answers given so far. -/
structure Session where
  types : TypeTable
  cache : Cache

namespace Session

def start : Session := { types := .initial, cache := [] }

def step (target : Target) (s : Session) (e : Event) : Session where
  types := e.types s.types
  cache :=
    match e with
    | .ask q => ((q.perform target s.types).run s.cache).2
    | _ => s.cache

def after (target : Target) (es : List Event) : Session :=
  es.foldl (step target) start

def reply (target : Target) (s : Session) (q : Query) : Reply :=
  ((q.perform target s.types).run s.cache).1

def fresh (target : Target) (s : Session) (q : Query) : Reply :=
  ((q.perform target s.types).run []).1

/-- An event is discreet. -/
structure Admits (target : Target) (s : Session) (e : Event) : Prop where
  /-- No type is made that an answer calls unknown. -/
  timely : ∀ k, s.types.size ≤ k → k < (e.types s.types).size →
    ∀ entry ∈ s.cache, entry.2 ≠ .error (.unknownType k)
  /-- A descriptor of a struct names the fields of a struct. -/
  slots : ∀ d, e = .intern d → d.kind = .struct → d.slot < s.types.structs.size
  /-- The type that is asked about does not contain itself. -/
  ends : ∀ q, e = .ask q → ∃ a, Laid target s.types q.id a

def Discreet (target : Target) : Session → List Event → Prop
  | _, [] => True
  | s, e :: rest => s.Admits target e ∧ Discreet target (s.step target e) rest

/-- Structs have their fields, and what is remembered is so. -/
structure Sound (target : Target) (s : Session) : Prop where
  structs : StructsIn s.types
  truthful : Truthful target s.types s.cache

theorem sound_start : start.Sound target where
  structs := by
    intro id d hd hk
    have hnone : ∀ d ∈ TypeTable.initial.types, d.kind ≠ .struct := by decide +kernel
    unfold TypeTable.find? at hd
    split at hd
    · cases hd
    · exact absurd hk (hnone d (Array.mem_of_getElem? hd))
  truthful := truthful_nil

theorem Sound.step {s : Session} (h : s.Sound target) {e : Event} (he : s.Admits target e) :
    (s.step target e).Sound target := by
  have hmade : s.types.Grows (e.types s.types) ∧ StructsIn (e.types s.types) := by
    cases e with
    | request q => exact h.structs.request q
    | intern d => exact h.structs.intern (he.slots d rfl)
    | ask q => exact ⟨.refl _, h.structs⟩
  refine ⟨hmade.2, ?_⟩
  have hgrown : Truthful target (e.types s.types) s.cache := by
    apply h.truthful.grow h.structs hmade.1
    intro id k d hk hd
    apply hmade.1.find?_back _ hd
    by_contra hnew
    obtain ⟨before, rest, hsplit, -⟩ := List.lookup_eq_some_iff.mp hk
    have hmem : (id, .error (.unknownType k)) ∈ s.cache := by
      rw [hsplit]
      exact List.mem_append_right before List.mem_cons_self
    exact he.timely k (Nat.le_of_not_lt hnew) (TypeTable.find?_lt hd).2 _ hmem rfl
  cases e with
  | request q => exact hgrown
  | intern d => exact hgrown
  | ask q =>
    obtain ⟨a, ha⟩ := he.ends q rfl
    exact (h.truthful.run_layoutOf ha).2

theorem Sound.run {s : Session} (h : s.Sound target) {es : List Event}
    (hes : Discreet target s es) : (es.foldl (Session.step target) s).Sound target := by
  induction es generalizing s with
  | nil => exact h
  | cons e rest ih => exact ih (h.step hes.1) hes.2

/-- In a discreet session every question is answered as it would be with nothing
remembered. -/
theorem answers_afresh (target : Target) (es : List Event) (hes : Discreet target start es)
    (q : Query) (hq : ∃ a, Laid target (after target es).types q.id a) :
    (after target es).reply target q = (after target es).fresh target q := by
  have hsound : (after target es).Sound target := sound_start.run hes
  obtain ⟨a, ha⟩ := hq
  unfold reply fresh
  rw [Query.run_perform, Query.run_perform]
  rw [(hsound.truthful.run_layoutOf ha).1, (truthful_nil.run_layoutOf ha).1]

/-- Questions come before and between the making of two types, also about a type
that is never made, and the offset of a field of the second is what it is afresh. -/
theorem field_asked_afresh :
    (after .amd64 [.ask (.layout 40), .request (.plain (.pointer 4)), .ask (.size 18),
        .request (.struct [2, 18])]).reply .amd64 (.fieldOffset 19 1) = .offset (some 8) := by
  have hpointer : (TypeTable.initial.intern (.pointer 4)).2.Ordered :=
    (TypeTable.initial_ordered.makes_pointer (by decide +kernel)).ordered
  have hstruct : ((TypeTable.initial.intern (.pointer 4)).2.addStruct [2, 18]).2.Ordered :=
    (hpointer.makes_addStruct (by decide +kernel)).ordered
  have hdiscreet : Discreet .amd64 start [.ask (.layout 40), .request (.plain (.pointer 4)),
      .ask (.size 18), .request (.struct [2, 18])] := by
    refine ⟨⟨?_, nofun, ?_⟩, ⟨?_, nofun, nofun⟩, ⟨?_, nofun, ?_⟩, ⟨?_, nofun, nofun⟩, trivial⟩
    · decide +kernel
    · rintro q ⟨⟩
      exact ⟨_, laid_ledTo TypeTable.initial_ordered 40⟩
    · decide +kernel
    · decide +kernel
    · rintro q ⟨⟩
      exact ⟨_, laid_ledTo hpointer 18⟩
    · decide +kernel
  rw [answers_afresh .amd64 _ hdiscreet (.fieldOffset 19 1) ⟨_, laid_ledTo hstruct 19⟩]
  decide +kernel

/-- The number 18 is asked about before it is given to a type, which then has no
layout, though it would have one if nothing were remembered. -/
theorem stale_refusal :
    (after .amd64 [.ask (.layout 18), .request (.plain (.pointer 2))]).reply .amd64 (.layout 18) =
        .layout empty (some (.unknownType 18)) ∧
      (after .amd64 [.ask (.layout 18), .request (.plain (.pointer 2))]).fresh .amd64 (.layout 18) =
        .layout { size := 8, align := 8 } none := by
  decide +kernel

end Session

end Layout

end TypedIR
