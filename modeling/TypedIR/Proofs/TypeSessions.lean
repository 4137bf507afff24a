import TypedIR.Proofs.FunctionEnds
import TypedIR.Proofs.MadeTypes

/-
  Clients that make types and compare them.

  In a session a client makes types by the constructors of runtimes, and whatever else
  happens to the engines happens in between (`Session`). What a constructor makes is
  described by a term, and its erasure follows from the term and the target alone. Of
  types that were made it is proved:

  1. comparing two of them always answers, and answers yes exactly when their erasures
     are equal; so being compatible is an equivalence relation, also between runtimes;
  2. compatible types of one runtime take the same place in memory and are held alike,
     as far as the engine gives them layouts at all.

  An engine that was asked about a type before it was made keeps refusing it a layout.
  Then two compatible types may have different sizes (`early_question_splits`).
-/

namespace TypedIR

open BuildM

/-! ## Sessions -/

namespace Workspace

def targetFor (w : Workspace) (a : Ty) : Target :=
  ((a.owner.bind fun rt => w.runtimes[rt]?).map (·.engine.target)).getD .amd64

def erasure (w : Workspace) (x : TypeTerm) (a : Ty) : Erasure :=
  x.erase (w.targetFor a)

/-- Comparing the types tells that they are compatible. -/
def Compatible (w : Workspace) (a b : Ty) : Prop :=
  ∃ w', ((compatible a b).run w : Except Stop Bool × Workspace) = (.ok true, w')

/-- A type takes the place `l` in memory and is held as `rep`. -/
structure Measures (w : Workspace) (a : Ty) (l : Layout) (rep : Rep) : Prop where
  size : ∃ w', ((BuildM.sizeOf a).run w : Except Stop Int × Workspace) = (.ok l.size, w')
  align : ∃ w', ((alignOf a).run w : Except Stop Int × Workspace) = (.ok l.align, w')
  rep : ∀ op rt, a.owner = some rt → ∃ w',
    ((onEngine rt op (EngineM.repOf a.id)).run w : Except Stop Rep × Workspace) = (.ok rep, w')

end Workspace

/-- No refusal that is remembered is of a type that was asked about before it was there. -/
def Engine.AskedInTime (e : Engine) : Prop :=
  Layout.Honest e.target e.types True e.layouts

/-- `p` stands, in a runtime, for the type that was made by the constructors in `x`. Only
its number counts. -/
def Stands (made : List (TypeTerm × Ty)) (rt : RuntimeId) (x : TypeTerm) (p : Ty) : Prop :=
  ∃ a, (x, a) ∈ made ∧ a.owner = some rt ∧ a.id = p.id

/-- The workspaces of clients that make types, with the types that were made. -/
inductive Session : Workspace → List (TypeTerm × Ty) → Prop
  | start {w : Workspace} (h : w.Reached) : Session w []
  | builtin {w : Workspace} {made : List (TypeTerm × Ty)} {rt : RuntimeId} (h : Session w made)
      (hrt : rt < w.runtimes.size) (b : Builtin) : Session w ((.builtin b, b.ty rt) :: made)
  | pointer {w w' : Workspace} {made : List (TypeTerm × Ty)} {rt : RuntimeId} {x : TypeTerm}
      {p a : Ty} (h : Session w made) (hx : Stands made rt x p)
      (hrun : ((pointerTy rt p).run w : Except Stop Ty × Workspace) = (.ok a, w')) :
      Session w' ((.pointer x, a) :: made)
  | struct {w w' : Workspace} {made : List (TypeTerm × Ty)} {rt : RuntimeId}
      {xs : List TypeTerm} {ps : List Ty} {a : Ty} (h : Session w made)
      (hx : List.Forall₂ (Stands made rt) xs ps)
      (hrun : ((structTy rt ps).run w : Except Stop Ty × Workspace) = (.ok a, w')) :
      Session w' ((.struct xs, a) :: made)
  | signature {w w' : Workspace} {made : List (TypeTerm × Ty)} {rt : RuntimeId}
      {xs : List TypeTerm} {x : TypeTerm} {ps : List Ty} {p a : Ty} {abi : Abi}
      (h : Session w made) (hx : List.Forall₂ (Stands made rt) xs ps) (hr : Stands made rt x p)
      (hrun : ((signatureTy rt ps p abi).run w : Except Stop Ty × Workspace) = (.ok a, w')) :
      Session w' ((.signature xs x abi, a) :: made)
  | named {w w' : Workspace} {made : List (TypeTerm × Ty)} {rt : RuntimeId} {x : TypeTerm}
      {p a : Ty} {name : String} (h : Session w made) (hx : Stands made rt x p)
      (hown : p.owner = some rt)
      (hrun : ((withName p name).run w : Except Stop Ty × Workspace) = (.ok a, w')) :
      Session w' ((.named x name, a) :: made)
  | moved {w w' : Workspace} {made : List (TypeTerm × Ty)} (h : Session w made)
      (hmoves : w.Moves w') : Session w' made

/-! ## What was made -/

namespace Workspace

/-- `a` is what constructors in `x` make: its erasure is that of the term, and it has a
place in memory. -/
structure Made (w : Workspace) (x : TypeTerm) (a : Ty) : Prop where
  erased : w.Erased (w.erasure x a) a
  placed : ∃ l, (w.erasure x a).layout? (w.targetFor a) = some l

variable {w w' : Workspace} {x : TypeTerm} {a b p : Ty} {rt : RuntimeId} {r : Runtime}

theorem targetFor_eq (hown : a.owner = some rt) (hr : w.runtimes[rt]? = some r) :
    w.targetFor a = r.engine.target := by
  unfold targetFor
  rw [hown, Option.bind_some, hr]
  rfl

theorem Moves.targetFor_eq (h : w.Moves w') (hw : w.Reached) (hown : a.owner = some rt)
    (hr : w.runtimes[rt]? = some r) : w'.targetFor a = w.targetFor a := by
  obtain ⟨r', hr', halong⟩ := h.moved rt r hr
  rw [Workspace.targetFor_eq hown hr, Workspace.targetFor_eq hown hr']
  exact ((hw rt r hr).along halong).2.target

theorem Moves.made (h : w.Moves w') (hw : w.Reached) (hx : w.Made x a) : w'.Made x a := by
  obtain ⟨rt, r, hown, hr, hE, hk⟩ := hx.erased
  obtain ⟨r', hr', halong⟩ := h.moved rt r hr
  obtain ⟨-, honward⟩ := (hw rt r hr).along halong
  have hsame : w'.erasure x a = w.erasure x a := congrArg x.erase (h.targetFor_eq hw hown hr)
  refine ⟨⟨rt, r', hown, hr', ?_, by rw [hsame]; exact hk⟩, ?_⟩
  · rw [hsame]
    exact hE.onward (hw rt r hr).founded.tables honward
  · rw [hsame, h.targetFor_eq hw hown hr]
    exact hx.placed

theorem Moves.made_new (h : w.Moves w') (hw : w.Reached) (hr : w.runtimes[rt]? = some r)
    (hown : a.owner = some rt) (hE : w'.Erased (x.erase r.engine.target) a)
    (hplaced : ∃ l, (x.erase r.engine.target).layout? r.engine.target = some l) :
    w'.Made x a := by
  have htarget : w'.targetFor a = r.engine.target :=
    (h.targetFor_eq hw hown hr).trans (Workspace.targetFor_eq hown hr)
  refine ⟨?_, ?_⟩
  · rw [erasure, htarget]
    exact hE
  · rw [erasure, htarget]
    exact hplaced

end Workspace

/-! ## Places in memory -/

def Engine.layoutAnswer (e : Engine) (id : TypeId) : Layout.Answer :=
  ((Layout.layoutOf e.target e.types id).run e.layouts).1

/-- A layout that an engine gives out is that of the erasure, and it is given out if
nothing was asked too early. -/
theorem Engine.layoutAnswer_erased {e : Engine} (he : e.Founded) {E : Erasure} {id : TypeId}
    (hE : e.tables.Erased E id) :
    (∀ l, e.layoutAnswer id = .ok l → E.layout? e.target = some l) ∧
    (e.AskedInTime → ∀ l, E.layout? e.target = some l → e.layoutAnswer id = .ok l) := by
  have hord : e.types.Ordered := he.tables.ordered
  have hplain : Layout.plain e.target e.types (id + 1) id = E.layout? e.target := hE.layout he.tables
  have hlt : id < e.types.types.size := hE.lt
  have hagrees : ∀ {strict : Prop}, Layout.Honest e.target e.types strict e.layouts →
      (e.layoutAnswer id).Agrees strict (E.layout? e.target) := by
    intro strict hc
    have hright := (Layout.layoutWithin_right hord (e.types.size + 1) hc
      fun _ => ⟨hlt, Nat.lt_succ_of_lt hlt⟩).1.agrees
    rw [hplain] at hright
    exact hright
  constructor
  · intro l hl
    have hgiven := hagrees he.tables.honest
    rw [hl] at hgiven
    exact hgiven
  · intro htime l hl
    have hgiven := hagrees htime
    rw [hl] at hgiven
    cases hcase : e.layoutAnswer id with
    | error err =>
      rw [hcase] at hgiven
      cases hgiven trivial
    | ok l' =>
      rw [hcase] at hgiven
      rw [Option.some.inj hgiven]

namespace Workspace

variable {w : Workspace} {a : Ty} {rt : RuntimeId} {r : Runtime} {E : Erasure}

theorem ends_layoutOf? (hown : a.owner = some rt) (hr : w.runtimes[rt]? = some r)
    (hvalid : a.valid = true) :
    Ends (layoutOf? a) w (fun l _ => l = (r.engine.layoutAnswer a.id).toOption)
      fun _ _ => False := by
  obtain ⟨spans, tracing, hrun⟩ := run_onEngineState hr
    fun e => ((EngineM.layoutOf a.id).run e : Except Failure Layout.Answer × Engine)
  unfold layoutOf?
  rw [hown]
  refine .ite' (fun h => ?_) fun _ => .bind_ok hrun ?_
  · rw [hvalid] at h
    cases h
  · have hanswer : ((EngineM.layoutOf a.id).run r.engine :
        Except Failure Layout.Answer × Engine).1 = .ok (r.engine.layoutAnswer a.id) := rfl
    rw [hanswer]
    cases r.engine.layoutAnswer a.id with
    | ok l => exact .pure' rfl
    | error err => exact .pure' rfl

theorem answer_of_ends {α : Type} {act : BuildM α} {ok : α → Workspace → Prop}
    (h : Ends act w ok fun _ _ => False) :
    ∃ x w', (act.run w : Except Stop α × Workspace) = (.ok x, w') ∧ ok x w' := by
  unfold Ends at h
  rcases hrun : (act.run w : Except Stop α × Workspace) with ⟨how | x, w'⟩
  · rw [hrun] at h
    exact h.elim
  · rw [hrun] at h
    exact ⟨x, w', rfl, h⟩

theorem run_of_ends {α : Type} {act : BuildM α} {x : α}
    (h : Ends act w (fun y _ => y = x) fun _ _ => False) :
    ∃ w', (act.run w : Except Stop α × Workspace) = (.ok x, w') := by
  obtain ⟨_, w', hrun, rfl⟩ := answer_of_ends h
  exact ⟨w', hrun⟩

/-- The place of a type and how it is held follow from the erasure, if nothing was asked
too early. -/
theorem measures_of_erased (hw : w.Founded) (hown : a.owner = some rt)
    (hr : w.runtimes[rt]? = some r) (hvalid : a.valid = true)
    (hE : r.engine.tables.Erased E a.id) (htime : r.engine.AskedInTime) {l : Layout}
    (hl : E.layout? r.engine.target = some l) :
    w.Measures a l { cls := E.cls, size := l.size } := by
  have he := hw rt r hr
  have hlayout := ends_layoutOf? hown hr hvalid
  rw [(Engine.layoutAnswer_erased he hE).2 htime l hl] at hlayout
  refine ⟨run_of_ends (.bind' hlayout ?_), run_of_ends (.bind' hlayout ?_), ?_⟩
  · rintro _ _ rfl
    exact .pure' rfl
  · rintro _ _ rfl
    exact .pure' rfl
  · intro op rt' hown'
    obtain rfl := Option.mem_unique hown hown'
    have hrep : E.rep? r.engine.target = some { cls := E.cls, size := l.size } := by
      unfold Erasure.rep?
      rw [hl]
      rfl
    have hfound := (hE.hasRep he.tables hrep).findRep he.tables.ordered htime
    have hact : Ends (EngineM.repOf a.id) r.engine
        (fun rep _ => rep = { cls := E.cls, size := l.size }) fun _ _ => False := by
      refine .bind_get ?_
      have hanswer : ((r.engine.types.findRep r.engine.target a.id).run r.engine.layouts).1 =
          .ok { cls := E.cls, size := l.size } := hfound
      revert hanswer
      generalize (r.engine.types.findRep r.engine.target a.id).run r.engine.layouts = answered
      obtain ⟨answer, layouts⟩ := answered
      rintro rfl
      exact .bind_set (.pure' rfl)
    refine run_of_ends ((ends_operation op hr hact).mono ?_ ?_)
    · rintro _ _ ⟨_, _, _, rfl, -⟩
      rfl
    · rintro _ _ ⟨_, _, _, _, -, hstop, -⟩
      exact hstop

end Workspace

namespace Session

variable {w w' : Workspace} {made : List (TypeTerm × Ty)} {x : TypeTerm} {a p : Ty}
  {rt : RuntimeId}

theorem stands (h : ∀ x a, (x, a) ∈ made → w.Made x a) (hx : Stands made rt x p) :
    ∃ r : Runtime, w.runtimes[rt]? = some r ∧
      r.engine.tables.Erased (x.erase r.engine.target) p.id ∧
      ∃ l, (x.erase r.engine.target).layout? r.engine.target = some l := by
  obtain ⟨a, hmem, hown, hid⟩ := hx
  obtain ⟨⟨rt', r, hown', hr, hE, -⟩, hplaced⟩ := h x a hmem
  obtain rfl := Option.mem_unique hown hown'
  have htarget := Workspace.targetFor_eq hown hr
  unfold Workspace.erasure at hE hplaced
  rw [htarget] at hE hplaced
  exact ⟨r, hr, hid ▸ hE, hplaced⟩

theorem all_stand {xs : List TypeTerm} {ps : List Ty} {r : Runtime}
    (h : ∀ x a, (x, a) ∈ made → w.Made x a) (hr : w.runtimes[rt]? = some r)
    (hx : List.Forall₂ (Stands made rt) xs ps) :
    List.Forall₂ r.engine.tables.Erased (TypeTerm.eraseAll r.engine.target xs)
      (ps.map (·.id)) := by
  rw [TypeTerm.eraseAll_eq, List.forall₂_map_left_iff, List.forall₂_map_right_iff]
  refine hx.imp fun x p hx => ?_
  obtain ⟨r', hr', hE, -⟩ := stands h hx
  obtain rfl := Option.mem_unique hr hr'
  exact hE

theorem kept_cons {r : Runtime} (hw : w.Reached) (h : ∀ x a, (x, a) ∈ made → w.Made x a)
    (hmoves : w.Moves w') (hr : w.runtimes[rt]? = some r) (hown : a.owner = some rt)
    (hE : w'.Erased (x.erase r.engine.target) a)
    (hplaced : ∃ l, (x.erase r.engine.target).layout? r.engine.target = some l) :
    w'.Reached ∧ ∀ y b, (y, b) ∈ (x, a) :: made → w'.Made y b := by
  refine ⟨hmoves.reached hw, fun y b hmem => ?_⟩
  rcases List.mem_cons.mp hmem with heq | hold
  · obtain ⟨rfl, rfl⟩ := Prod.mk.inj heq
    exact hmoves.made_new hw hr hown hE hplaced
  · exact hmoves.made hw (h y b hold)

theorem placed_builtin (b : Builtin) (target : Target) :
    ∃ l, b.erase.layout? target = some l := by
  cases b <;> exact ⟨_, rfl⟩

theorem kept (h : Session w made) : w.Reached ∧ ∀ x a, (x, a) ∈ made → w.Made x a := by
  induction h with
  | start h => exact ⟨h, nofun⟩
  | builtin h hrt b ih =>
    rename_i w made rt
    obtain ⟨r, hr⟩ : ∃ r, w.runtimes[rt]? = some r := ⟨_, Array.getElem?_eq_getElem hrt⟩
    have hE : r.engine.tables.Erased b.erase b.id :=
      Tables.erased_builtin (ih.1 rt r hr).founded.tables b
    refine kept_cons ih.1 ih.2 (.refl w) hr rfl ⟨rt, r, rfl, hr, hE, ?_⟩ (placed_builtin b _)
    cases b <;> rfl
  | pointer h hx hrun ih =>
    obtain ⟨r, hr, hE, -⟩ := stands ih.2 hx
    obtain ⟨hmoves, hown, hnew⟩ := (ends_pointerTy_made ih.1.founded hr hE).ok_of_run hrun
    exact kept_cons ih.1 ih.2 hmoves hr hown hnew ⟨_, rfl⟩
  | struct h hx hrun ih =>
    rename_i w w' made rt xs ps a
    cases hr : w.runtimes[rt]? with
    | none =>
      have hnone : Ends (structTy rt ps) w (fun _ _ => False) fun _ _ => True := by
        refine .bind' (ends_validFields 0 ps w) ?_
        rintro _ _ rfl
        exact .stopped ((ends_operation_none "create" hr).imp_stop fun _ _ _ => trivial)
      exact (hnone.ok_of_run hrun).elim
    | some r =>
      have hparts := all_stand ih.2 hr hx
      obtain ⟨hmoves, hown, l, hl, hnew⟩ := (ends_structTy_made ih.1.founded hr hparts).ok_of_run hrun
      have hterm : (TypeTerm.struct xs).erase r.engine.target =
          .struct l.offsets (TypeTerm.eraseAll r.engine.target xs) := by
        rw [TypeTerm.erase, hl]
        rfl
      refine kept_cons ih.1 ih.2 hmoves hr hown (hterm ▸ hnew) ⟨l, ?_⟩
      rw [hterm, Erasure.layout?, Erasure.layouts?_eq]
      exact hl
  | signature h hx hres hrun ih =>
    obtain ⟨r, hr, hE, -⟩ := stands ih.2 hres
    have hparams := all_stand ih.2 hr hx
    obtain ⟨hmoves, hown, hnew⟩ :=
      (ends_signatureTy_made ih.1.founded hr _ hparams hE).ok_of_run hrun
    exact kept_cons ih.1 ih.2 hmoves hr hown hnew ⟨_, rfl⟩
  | named h hx hown hrun ih =>
    obtain ⟨r, hr, hE, hplaced⟩ := stands ih.2 hx
    obtain ⟨hmoves, hown', hnew⟩ :=
      (ends_withName_made ih.1.founded hr hown hE _).ok_of_run hrun
    exact kept_cons ih.1 ih.2 hmoves hr hown' hnew hplaced
  | moved h hmoves ih =>
    exact ⟨hmoves.reached ih.1, fun x a hmem => hmoves.made ih.1 (ih.2 x a hmem)⟩

/-- Comparing two types that were made answers whether their erasures are equal. -/
theorem answers_compatible (h : Session w made) {y : TypeTerm} {b : Ty} (hx : (x, a) ∈ made)
    (hy : (y, b) ∈ made) : ∃ yes w', ((compatible a b).run w : Except Stop Bool × Workspace) =
      (.ok yes, w') ∧ (yes = true ↔ w.erasure x a = w.erasure y b) := by
  obtain ⟨hw, hmade⟩ := h.kept
  obtain ⟨yes, w', hrun, -, hiff⟩ := Workspace.answer_of_ends
    (ends_compatible hw.founded (hmade x a hx).erased (hmade y b hy).erased)
  exact ⟨yes, w', hrun, hiff⟩

theorem compatible_iff (h : Session w made) {y : TypeTerm} {b : Ty} (hx : (x, a) ∈ made)
    (hy : (y, b) ∈ made) : w.Compatible a b ↔ w.erasure x a = w.erasure y b := by
  obtain ⟨yes, w', hrun, hiff⟩ := h.answers_compatible hx hy
  rw [← hiff]
  unfold Workspace.Compatible
  rw [hrun]
  constructor
  · rintro ⟨_, heq⟩
    exact Except.ok.inj (Prod.mk.inj heq).1
  · rintro rfl
    exact ⟨w', rfl⟩

/-- Types that were made are compatible exactly when their erasures are equal; that is an
equivalence relation. In one runtime, compatible types have one layout, if they are given
layouts; and if nothing was asked too early they have one size, alignment and
representation. -/
theorem compatible_types (h : Session w made) :
    (∀ x a y b, (x, a) ∈ made → (y, b) ∈ made →
      ∃ yes w', ((compatible a b).run w : Except Stop Bool × Workspace) = (.ok yes, w') ∧
        (yes = true ↔ w.erasure x a = w.erasure y b)) ∧
    (Equivalence fun p q : { p // p ∈ made } => w.Compatible p.1.2 q.1.2) ∧
    ∀ x a y b, (x, a) ∈ made → (y, b) ∈ made → w.Compatible a b →
      ∀ rt (r : Runtime), a.owner = some rt → b.owner = some rt → w.runtimes[rt]? = some r →
        (∀ l l', r.engine.layoutAnswer a.id = .ok l → r.engine.layoutAnswer b.id = .ok l' →
          l = l') ∧
        (r.engine.AskedInTime → ∃ l rep, w.Measures a l rep ∧ w.Measures b l rep) := by
  refine ⟨fun x a y b hx hy => h.answers_compatible hx hy, ⟨?_, ?_, ?_⟩, ?_⟩
  · exact fun p => (h.compatible_iff p.2 p.2).mpr rfl
  · exact fun {p q} hpq => (h.compatible_iff q.2 p.2).mpr ((h.compatible_iff p.2 q.2).mp hpq).symm
  · intro p q s hpq hqs
    have hfirst := (h.compatible_iff p.2 q.2).mp hpq
    exact (h.compatible_iff p.2 s.2).mpr (hfirst.trans ((h.compatible_iff q.2 s.2).mp hqs))
  · intro x a y b hx hy hcompatible rt r hown hown' hr
    have hsame := (h.compatible_iff hx hy).mp hcompatible
    obtain ⟨hw, hmade⟩ := h.kept
    have herased : ∀ {z : TypeTerm} {c : Ty}, (z, c) ∈ made → c.owner = some rt →
        r.engine.tables.Erased (w.erasure z c) c.id ∧ c.valid = true := by
      intro z c hz hc
      have hE := (hmade z c hz).erased
      refine ⟨?_, hE.valid⟩
      obtain ⟨rt', r', hc', hr', hE, -⟩ := hE
      obtain rfl := Option.mem_unique hc hc'
      obtain rfl := Option.mem_unique hr hr'
      exact hE
    obtain ⟨hE, hvalid⟩ := herased hx hown
    obtain ⟨hF, hvalid'⟩ := herased hy hown'
    rw [← hsame] at hF
    have he := hw.founded rt r hr
    refine ⟨fun l l' hl hl' => ?_, fun htime => ?_⟩
    · have hplace := (Engine.layoutAnswer_erased he hE).1 l hl
      exact Option.mem_unique hplace ((Engine.layoutAnswer_erased he hF).1 l' hl')
    · obtain ⟨l, hl⟩ := (hmade x a hx).placed
      rw [Workspace.targetFor_eq hown hr] at hl
      exact ⟨l, _, Workspace.measures_of_erased hw.founded hown hr hvalid hE htime hl,
        Workspace.measures_of_erased hw.founded hown' hr hvalid' hF htime hl⟩

end Session

/-! ## A pointer and its name -/

def oneRuntime : Workspace :=
  { runtimes := #[{ engine := .create .amd64 0 0 default 0 }] }

theorem reached_oneRuntime : oneRuntime.Reached := by
  intro rt r hr
  have hmem : r ∈ oneRuntime.runtimes := Array.mem_of_getElem? hr
  rw [oneRuntime, Array.mem_singleton] at hmem
  rw [hmem]
  exact .created _ _ _ _ _

def bytePointer : TypeTerm := .pointer (.builtin .int8)

/-- A workspace in which the pointer to a byte was made and then given a name. -/
def Workspace.withNamedPointer (w : Workspace) : Workspace :=
  (w.after (pointerTy 0 (Builtin.int8.ty 0))).after (withName ⟨some 0, 18, .pointer⟩ "p")

def namedPointer : List (TypeTerm × Ty) :=
  [(.named bytePointer "p", ⟨some 0, 19, .pointer⟩), (bytePointer, ⟨some 0, 18, .pointer⟩),
    (.builtin .int8, Builtin.int8.ty 0)]

theorem Session.namedPointer {w : Workspace} (h : Session w []) (hrt : 0 < w.runtimes.size)
    (ha : ((pointerTy 0 (Builtin.int8.ty 0)).run w : Except Stop Ty × Workspace).1 =
      .ok ⟨some 0, 18, .pointer⟩)
    (hb : ((withName ⟨some 0, 18, .pointer⟩ "p").run (w.after (pointerTy 0 (Builtin.int8.ty 0))) :
      Except Stop Ty × Workspace).1 = .ok ⟨some 0, 19, .pointer⟩) :
    Session w.withNamedPointer namedPointer := by
  have hbyte := Session.builtin h hrt .int8
  have hpointer := Session.pointer hbyte ⟨_, List.mem_singleton_self _, rfl, rfl⟩ (Prod.ext ha rfl)
  exact .named hpointer ⟨_, List.mem_cons_self, rfl, rfl⟩ rfl (Prod.ext hb rfl)

/-- A named pointer and the pointer itself are compatible, and take the same place. -/
theorem named_pointer_compatible : Session oneRuntime.withNamedPointer namedPointer ∧
    oneRuntime.withNamedPointer.Compatible ⟨some 0, 19, .pointer⟩ ⟨some 0, 18, .pointer⟩ ∧
    ∃ l rep, oneRuntime.withNamedPointer.Measures ⟨some 0, 19, .pointer⟩ l rep ∧
      oneRuntime.withNamedPointer.Measures ⟨some 0, 18, .pointer⟩ l rep := by
  have hsession : Session oneRuntime.withNamedPointer namedPointer :=
    (Session.start reached_oneRuntime).namedPointer Nat.zero_lt_one (by decide +kernel)
      (by decide +kernel)
  obtain ⟨hanswers, -, hmeasures⟩ := hsession.compatible_types
  have hx : (TypeTerm.named bytePointer "p", ⟨some 0, 19, .pointer⟩) ∈ namedPointer :=
    List.mem_cons_self
  have hy : (bytePointer, ⟨some 0, 18, .pointer⟩) ∈ namedPointer :=
    List.mem_cons_of_mem _ List.mem_cons_self
  obtain ⟨yes, w', hrun, hiff⟩ := hanswers _ _ _ _ hx hy
  obtain rfl := hiff.mpr rfl
  have hcompatible : oneRuntime.withNamedPointer.Compatible ⟨some 0, 19, .pointer⟩
      ⟨some 0, 18, .pointer⟩ := ⟨w', hrun⟩
  refine ⟨hsession, hcompatible, ?_⟩
  obtain ⟨r, hr, hlayouts⟩ : ∃ r, oneRuntime.withNamedPointer.runtimes[(0 : Nat)]? = some r ∧
      r.engine.layouts = [] := by
    have hsome : (oneRuntime.withNamedPointer.runtimes[(0 : Nat)]?).any (·.engine.layouts.isEmpty) = true := by
      decide +kernel
    obtain ⟨r, hr, hempty⟩ := (Option.any_eq_true _ _).mp hsome
    exact ⟨r, hr, List.isEmpty_iff.mp hempty⟩
  refine (hmeasures _ _ _ _ hx hy hcompatible 0 r rfl rfl hr).2 ?_
  unfold Engine.AskedInTime
  rw [hlayouts]
  exact Layout.honest_nil

/-- When the layout of type 19 was asked for before that type was made, a named pointer
has no size, and is compatible with the pointer itself, which has eight bytes. -/
theorem early_question_splits : ∃ w, Session w namedPointer ∧
    w.Compatible ⟨some 0, 19, .pointer⟩ ⟨some 0, 18, .pointer⟩ ∧
    ((BuildM.sizeOf ⟨some 0, 19, .pointer⟩).run w : Except Stop Int × Workspace).1 = .ok 0 ∧
    ((BuildM.sizeOf ⟨some 0, 18, .pointer⟩).run w : Except Stop Int × Workspace).1 = .ok 8 := by
  have hmoves : oneRuntime.Moves (oneRuntime.after (tryEngine 0 (EngineM.layoutOf 19))) :=
    moves_tryEngine 0 (.layoutOf 19) oneRuntime
  have hstart : Session (oneRuntime.after (tryEngine 0 (EngineM.layoutOf 19))) [] :=
    .moved (.start reached_oneRuntime) hmoves
  refine ⟨_, hstart.namedPointer (by decide +kernel) (by decide +kernel) (by decide +kernel),
    ⟨_, Prod.ext ?_ rfl⟩, ?_, ?_⟩ <;> decide +kernel

end TypedIR
