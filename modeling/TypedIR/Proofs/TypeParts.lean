import Mathlib
import TypedIR.Proofs.TypeSessions

/-
  Taking made types apart.

  A constructor is given types and makes a new one of their numbers alone, in the table
  of its runtime. So what the new type gives back, then and at any later time, is the
  type of that runtime with the number it was given
  (`Workspace.Reached.parts_of_made`):

  1. for a type of the runtime itself that is the type, so taking apart undoes making;
  2. for a type of another runtime it is whatever has its number here. The two are
     compatible exactly when their erasures are equal, which the constructors do not
     ask (`parts_of_another_runtime`).
-/

namespace TypedIR

open BuildM

def TypeShape.below : TypeShape → Kind
  | .pointer _ => .pointer
  | .struct _ => .struct
  | .signature _ => .signature

namespace TypeTable

variable {t t' : TypeTable} {id : TypeId} {x : TypeShape} {target : TypeId} {ps : List TypeId}

/-- A type without a tag, of one of the kinds that constructors make, has that kind for
the builder. -/
theorem tyKind?_of_untagged {d : Descriptor} (hd : t.find? id = some d) (hk : d.kind = x.below) :
    t.tyKind? id = some x.kind := by
  have hbase := Tables.base_of_untagged (s := ⟨.amd64, t, []⟩) hd hk (by cases x <;> exact nofun)
  have hplain : t.isBool id = false := hbase.plain
  have hfound : t.find? (t.underlying id) = some d := hbase.found
  unfold TypeTable.tyKind? kindOf
  rw [hplain, hfound, Option.map_some, Option.getD_some, hk]
  cases x <;> rfl

theorem Shaped.tyKind? (h : t.Shaped id x) : t.tyKind? id = some x.kind := by
  cases x with
  | pointer target => exact tyKind?_of_untagged (x := .pointer target) h rfl
  | struct fields =>
    obtain ⟨d, hd, hk, -⟩ := h
    exact tyKind?_of_untagged (x := .struct fields) hd hk
  | signature s =>
    obtain ⟨d, hd, hk, -⟩ := h
    exact tyKind?_of_untagged (x := .signature s) hd hk

theorem Shaped.pointerTarget? (h : t.Shaped id (.pointer target)) :
    t.pointerTarget? id = some target := by
  have hd : t.find? id = some (.pointer target) := h
  unfold TypeTable.pointerTarget?
  rw [underlying_of_not_tagged hd nofun, hd]
  rfl

theorem Ordered.fieldTypes_shaped (h : t.Ordered) (hx : t.Shaped id (.struct ps)) :
    (t.fieldsOf (t.underlying id)).map (·.type) = ps := by
  obtain ⟨d, hd, hk, rfl⟩ := hx
  rw [underlying_of_not_tagged hd (by rw [hk]; decide), Layout.fieldTypes_eq_parts h hd hk]

end TypeTable

namespace Workspace

/-- The type of this id in a runtime. -/
def typeOf? (w : Workspace) (rt : RuntimeId) (id : TypeId) : Option Ty :=
  w.runtimes[rt]?.bind (·.engine.types.wrap? rt id)

/-- The call gives this answer. -/
def Answers {α : Type} (w : Workspace) (act : BuildM α) (x : α) : Prop :=
  ∃ w', (act.run w : Except Stop α × Workspace) = (.ok x, w')

/-- `a` is a type of the runtime, made of these parts. -/
structure Shaped (w : Workspace) (rt : RuntimeId) (a : Ty) (x : TypeShape) : Prop where
  owner : a.owner = some rt
  kind : a.kind = x.kind
  table : ∃ r : Runtime, w.runtimes[rt]? = some r ∧ r.engine.types.Shaped a.id x

variable {w w' : Workspace} {rt : RuntimeId} {r : Runtime} {id : TypeId} {a x : Ty}
  {shape : TypeShape}

theorem typeOf?_eq (hr : w.runtimes[rt]? = some r) :
    w.typeOf? rt id = r.engine.types.wrap? rt id := by
  unfold typeOf?
  rw [hr, Option.bind_some]

theorem answers_iff {α : Type} {act : BuildM α} {o : Option α}
    (h : Ends act w (fun y _ => o = some y) fun _ _ => o = none) (x : α) :
    w.Answers act x ↔ o = some x := by
  unfold Ends at h
  unfold Answers
  rcases hrun : (act.run w : Except Stop α × Workspace) with ⟨how | y, w'⟩
  · rw [hrun] at h
    have hnone : o = none := h
    rw [hnone]
    exact ⟨fun ⟨_, heq⟩ => (nomatch (Prod.mk.inj heq).1), nofun⟩
  · rw [hrun] at h
    have hsome : o = some y := h
    rw [hsome]
    constructor
    · rintro ⟨_, heq⟩
      rw [Except.ok.inj (Prod.mk.inj heq).1]
    · rintro heq
      obtain rfl := Option.some.inj heq
      exact ⟨w', rfl⟩

theorem Moves.typeOf? (h : w.Moves w') (hw : w.Reached) (hx : w.typeOf? rt id = some x) :
    w'.typeOf? rt id = some x := by
  obtain ⟨r, hr, hwrap⟩ := Option.bind_eq_some_iff.mp hx
  obtain ⟨r', hr', halong⟩ := h.moved rt r hr
  obtain ⟨-, honward⟩ := (hw rt r hr).along halong
  have hord : r.engine.types.Ordered := (hw.founded rt r hr).tables.ordered
  have hgrows : r.engine.types.Grows r'.engine.types := honward.types
  obtain ⟨kind, hkind, rfl⟩ := Option.map_eq_some_iff.mp hwrap
  rw [typeOf?_eq hr', TypeTable.wrap?, hord.tyKind?_grow hgrows hkind, Option.map_some]

theorem Moves.shaped (h : w.Moves w') (hw : w.Reached) (hx : w.Shaped rt a shape) :
    w'.Shaped rt a shape := by
  obtain ⟨r, hr, hshaped⟩ := hx.table
  obtain ⟨r', hr', halong⟩ := h.moved rt r hr
  obtain ⟨-, honward⟩ := (hw rt r hr).along halong
  have hord : r.engine.types.Ordered := (hw.founded rt r hr).tables.ordered
  exact ⟨hx.owner, hx.kind, r', hr', hord.shaped_grow honward.types hshaped⟩

end Workspace

open Workspace

namespace BuildM

variable {w : Workspace} {rt : RuntimeId} {id : TypeId} {a : Ty} {ps : List TypeId}

/-- Both ways to look a type up answer as the numbers of the types tell. -/
theorem ends_wraps_numbered {act : BuildM Ty} (hact : act = wrapType rt id ∨ act = mustWrap rt id) :
    Ends act w (fun x w' => w' = w ∧ w.typeOf? rt id = some x) fun _ _ => w.typeOf? rt id = none := by
  refine (ends_wraps hact).mono ?_ fun _ _ ⟨_, hnone⟩ => ?_
  · rintro x _ ⟨rfl, r, hr, hx⟩
    exact ⟨rfl, (typeOf?_eq hr).trans hx⟩
  · exact Option.bind_eq_none_iff.mpr hnone

/-! ## Questions about made types -/

theorem answers_targetOf? (h : w.Shaped rt a (.pointer id)) :
    w.Answers (targetOf? a) (w.typeOf? rt id) := by
  obtain ⟨r, hr, hx⟩ := h.table
  refine run_of_ends (.ite' (fun hk => absurd h.kind hk) fun _ => ends_owned h.owner ?_)
  refine ends_tableOf hr (.pure' ?_)
  have htarget : r.engine.tables.types.pointerTarget? a.id = some id := hx.pointerTarget?
  rw [htarget, typeOf?_eq hr]
  rfl

theorem ends_fieldCount_shaped (hw : w.Founded) (h : w.Shaped rt a (.struct ps)) :
    Ends (fieldCount a) w (fun n w' => w' = w ∧ n = ps.length) fun _ _ => False := by
  obtain ⟨r, hr, hx⟩ := h.table
  refine .ite' (fun hk => absurd h.kind hk) fun _ => ends_owned h.owner ?_
  refine ends_engineOf hr (.pure' ⟨rfl, ?_⟩)
  have hord : r.engine.types.Ordered := (hw rt r hr).tables.ordered
  rw [← hord.fieldTypes_shaped hx, List.length_map]
  rfl

theorem ends_fieldType_shaped (hw : w.Founded) (h : w.Shaped rt a (.struct ps)) {i : Nat}
    (hi : ps[i]? = some id) :
    Ends (fieldType a i) w (fun x _ => w.typeOf? rt id = some x)
      fun _ _ => w.typeOf? rt id = none := by
  obtain ⟨r, hr, hx⟩ := h.table
  obtain ⟨hlt, -⟩ := List.getElem?_eq_some_iff.mp hi
  have hcheck : Ends (checkField a "field_type" i) w (fun _ w' => w' = w) fun _ _ => False := by
    refine .ite' (fun hk => absurd h.kind hk) fun _ => .bind' (ends_fieldCount_shaped hw h) ?_
    rintro n _ ⟨rfl, rfl⟩
    refine .ite' (fun h => ?_) fun _ => .pure' rfl
    omega
  refine .bind' hcheck.total ?_
  rintro _ w rfl
  have hord : r.engine.types.Ordered := (hw rt r hr).tables.ordered
  have hfield : Ends (EngineM.field a.id i) r.engine (fun f e => e = r.engine ∧ f.type = id)
      fun _ _ => False := by
    rw [← hord.fieldTypes_shaped hx, List.getElem?_map] at hi
    obtain ⟨f, hf, rfl⟩ := Option.map_eq_some_iff.mp hi
    refine .bind_get ?_
    dsimp only
    rw [if_neg (by omega), Int.toNat_natCast, hf]
    exact .pure' ⟨rfl, rfl⟩
  refine ends_owned h.owner (.bind' ((ends_operation "field_type" hr hfield).imp_stop ?_) ?_)
  · rintro _ _ ⟨_, _, _, _, -, hstop, -⟩
    exact hstop.elim
  · rintro f _ ⟨_, spans, tracing, ⟨rfl, rfl⟩, rfl⟩
    have hr' := getElem?_advance { r.engine with notes := #[] } spans tracing hr rt
    rw [if_pos rfl] at hr'
    have hsame : (w.advance rt r { r.engine with notes := #[] } spans tracing).typeOf? rt f.type =
        w.typeOf? rt f.type := by
      rw [typeOf?_eq hr', typeOf?_eq hr]
    refine (ends_wraps_numbered (.inl rfl)).mono (fun _ _ h => hsame ▸ h.2) fun _ _ h => hsame ▸ h

variable {s : Signature}

theorem ends_signatureOf?_shaped (h : w.Shaped rt a (.signature s)) :
    Ends (signatureOf? a) w (fun g w' => w' = w ∧ g = some s) fun _ _ => False := by
  obtain ⟨r, hr, hx⟩ := h.table
  refine .ite' (fun hk => absurd h.kind hk) fun _ => ends_owned h.owner ?_
  exact ends_engineOf hr (.pure' ⟨rfl, hx.signature?⟩)

theorem answers_abiOf (h : w.Shaped rt a (.signature s)) : w.Answers (abiOf a) s.abi := by
  refine run_of_ends (.bind' (ends_signatureOf?_shaped h) ?_)
  rintro _ _ ⟨rfl, rfl⟩
  exact .pure' rfl

theorem ends_returnOf_shaped (h : w.Shaped rt a (.signature s)) :
    Ends (returnOf a) w (fun x _ => w.typeOf? rt s.result = some x)
      fun _ _ => w.typeOf? rt s.result = none := by
  refine .ite' (fun hk => absurd h.kind hk) fun _ => ends_owned h.owner ?_
  refine .bind' (ends_signatureOf?_shaped h).total ?_
  rintro _ _ ⟨rfl, rfl⟩
  exact (ends_wraps_numbered (.inr rfl)).imp fun _ _ h => h.2

theorem ends_paramsOf_shaped (h : w.Shaped rt a (.signature s)) :
    Ends (paramsOf a) w (fun xs _ => s.params.mapM (w.typeOf? rt) = some xs)
      fun _ _ => s.params.mapM (w.typeOf? rt) = none := by
  refine .bind' (ends_signatureOf?_shaped h).total ?_
  rintro _ w ⟨rfl, rfl⟩
  refine ends_owned h.owner ?_
  have hall : Ends (s.params.mapM (mustWrap rt)) w
      (fun xs w' => w' = w ∧ s.params.mapM (w.typeOf? rt) = some xs)
      fun _ _ => s.params.mapM (w.typeOf? rt) = none := by
    generalize s.params = ids
    induction ids with
    | nil => exact .pure' ⟨rfl, rfl⟩
    | cons id rest ih =>
      rw [List.mapM_cons, List.mapM_cons]
      refine .bind' ((ends_wraps_numbered (.inr rfl)).imp_stop fun _ _ h => ?_) ?_
      · rw [h]
        rfl
      rintro x _ ⟨rfl, hx⟩
      refine .bind' (ih.imp_stop fun _ _ h => ?_) ?_
      · rw [hx, h]
        rfl
      rintro xs _ ⟨rfl, hxs⟩
      refine .pure' ⟨rfl, ?_⟩
      rw [hx, hxs]
      rfl
  exact hall.imp fun _ _ h => h.2

/-! ## Constructors -/

theorem ends_shaped {act : EngineM TypeId} (shape : TypeShape) (op : String)
    (hcall : EngineCall act)
    (hact : ∀ r : Runtime, w.runtimes[rt]? = some r →
      Ends act r.engine (fun id e => e.types.Shaped id shape) fun _ _ => True) :
    Ends (do wrapType rt (← onEngine rt op act)) w
      (fun a w' => w.Moves w' ∧ w'.Shaped rt a shape) fun _ _ => True := by
  cases hr : w.runtimes[rt]? with
  | none =>
    exact .stopped ((ends_operation_none op hr).imp_stop fun _ _ _ => trivial)
  | some r =>
    refine (ends_constructed (fun id s => s.types.Shaped id shape) op hr hcall (hact r hr)).mono
      ?_ fun _ _ h => h
    rintro a w' ⟨hmoves, r', hr', hwrap, hshape⟩
    obtain ⟨hown, -, hkind, -⟩ := TypeTable.of_wrap? hwrap
    have hk : a.kind = shape.kind := Option.mem_unique hkind hshape.tyKind?
    exact ⟨hmoves, hown, hk, r', hr', hshape⟩

theorem ends_pointerTy_shaped (hw : w.Founded) (p : Ty) :
    Ends (pointerTy rt p) w (fun a w' => w.Moves w' ∧ w'.Shaped rt a (.pointer p.id))
      fun _ _ => True := by
  refine .ite' (fun _ => .bind_throw trivial) fun _ =>
    ends_shaped _ "create" (.pointerType _) fun r hr => ?_
  exact (EngineM.ends_pointerShaped (hw rt r hr) p.id).imp fun _ _ h => h.2

theorem ends_structTy_shaped (hw : w.Founded) (ps : List Ty) :
    Ends (structTy rt ps) w
      (fun a w' => w.Moves w' ∧ w'.Shaped rt a (.struct (ps.map (·.id)))) fun _ _ => True := by
  refine .bind' (ends_validFields 0 ps w) ?_
  rintro _ _ rfl
  refine ends_shaped _ "create" (.structType _) fun r hr => ?_
  exact (EngineM.ends_structShaped (hw rt r hr) _).imp fun _ _ h => h.2.2.1

theorem ends_signatureTy_shaped (hw : w.Founded) (ps : List Ty) (p : Ty) (abi : Abi) :
    Ends (signatureTy rt ps p abi) w (fun a w' => w.Moves w' ∧
      w'.Shaped rt a (.signature { abi, params := ps.map (·.id), result := p.id }))
      fun _ _ => True := by
  refine .ite' (fun _ => .bind_throw trivial) fun _ => .bind' (ends_validParams 0 ps w) ?_
  rintro _ _ rfl
  refine ends_shaped _ "create" (.signatureType _ _ _) fun r hr => ?_
  exact (EngineM.ends_signatureShaped (hw rt r hr) _ _ _).imp fun _ _ h => h.2

end BuildM

/-! ## Making and taking apart -/

/-- Parts that are looked up one by one are all there and related if each of them is. -/
theorem exists_mapM_related {α β γ : Type} {k : α → β} {g : β → Option γ} {R : γ → α → Prop}
    (ps : List α) : (∃ xs, (ps.map k).mapM g = some xs ∧ List.Forall₂ R xs ps) ↔
      ∀ p ∈ ps, ∃ x, g (k p) = some x ∧ R x p := by
  induction ps with
  | nil => exact ⟨fun _ => List.forall_mem_nil _, fun _ => ⟨[], rfl, .nil⟩⟩
  | cons p ps ih =>
    rw [List.forall_mem_cons, ← ih, List.map_cons, List.mapM_cons]
    constructor
    · rintro ⟨xs, hxs, hR⟩
      cases hR with
      | cons hx hrest =>
        obtain ⟨y, hy, hxs⟩ := Option.bind_eq_some_iff.mp hxs
        obtain ⟨ys, hys, hcons⟩ := Option.bind_eq_some_iff.mp hxs
        obtain ⟨rfl, rfl⟩ := List.cons.inj (Option.some.inj hcons)
        exact ⟨⟨y, hy, hx⟩, ys, hys, hrest⟩
    · rintro ⟨⟨x, hx, hRx⟩, xs, hxs, hR⟩
      refine ⟨x :: xs, ?_, .cons hRx hR⟩
      rw [hx, hxs]
      rfl

namespace Workspace

variable {w w' : Workspace} {rt : RuntimeId} {p : Ty}

/-- The runtime has a type of the same id, compatible with it. -/
def Agrees (w : Workspace) (rt : RuntimeId) (p : Ty) : Prop :=
  ∃ x, w.typeOf? rt p.id = some x ∧ w.Compatible x p

theorem valid_of_wrap? {t : TypeTable} {id : TypeId} (h : t.wrap? rt id = some p) :
    p.valid = true := by
  obtain ⟨hown, -, hkind, -⟩ := TypeTable.of_wrap? h
  have hne : p.kind ≠ .invalid := by
    intro hk
    rw [hk] at hkind
    unfold TypeTable.tyKind? at hkind
    split at hkind
    · cases hkind
    · split at hkind <;> cases hkind
  unfold Ty.valid
  rw [hown, bne_iff_ne.mpr hne]
  rfl

theorem compatible_self (hp : w.typeOf? rt p.id = some p) : w.Compatible p p := by
  obtain ⟨r, hr, hwrap⟩ := Option.bind_eq_some_iff.mp hp
  have hvalid := valid_of_wrap? hwrap
  have hsize : ((tableSize p).run w : Except Stop Nat × Workspace) =
      (.ok r.engine.types.types.size, w) := by
    unfold tableSize
    rw [(TypeTable.of_wrap? hwrap).1]
    dsimp only
    rw [run_bind, run_table, hr]
    rfl
  refine run_of_ends (.bind_ok hsize (.bind_ok hsize ?_))
  unfold compatibleWithin
  refine .ite' (fun h => ?_) fun _ => .ite' (fun _ => .pure' rfl) fun h => absurd ⟨rfl, rfl⟩ h
  simp [hvalid] at h

theorem agrees_of_own (hp : w.typeOf? rt p.id = some p) : w.Agrees rt p :=
  ⟨p, hp, compatible_self hp⟩

theorem agrees_iff_erased {x : Ty} {E F : Erasure} (hw : w.Founded)
    (hx : w.typeOf? rt p.id = some x) (hE : w.Erased E x) (hF : w.Erased F p) :
    w.Agrees rt p ↔ E = F := by
  obtain ⟨yes, w', hrun, -, hiff⟩ := answer_of_ends (ends_compatible hw hE hF)
  rw [← hiff]
  constructor
  · rintro ⟨y, hy, w'', hrun'⟩
    obtain rfl := Option.mem_unique hx hy
    exact Except.ok.inj (Prod.mk.inj (hrun.symm.trans hrun')).1
  · rintro rfl
    exact ⟨x, hx, w', hrun⟩

/-- What constructors make gives back, then and at any later time, types that are
compatible with those it was made of exactly if these agree with the types of the runtime
that have their numbers. Types of the runtime do; types of any runtime that have erasures
do exactly if the erasures are equal. -/
theorem Reached.parts_of_made (hw : w.Reached) (rt : RuntimeId) :
    (∀ p a w₁ w₂, ((pointerTy rt p).run w : Except Stop Ty × Workspace) = (.ok a, w₁) →
      w₁.Moves w₂ → w.Moves w₂ ∧
        ((∃ x, w₂.Answers (targetOf? a) (some x) ∧ w₂.Compatible x p) ↔ w₂.Agrees rt p)) ∧
    (∀ ps a w₁ w₂, ((structTy rt ps).run w : Except Stop Ty × Workspace) = (.ok a, w₁) →
      w₁.Moves w₂ → w.Moves w₂ ∧ w₂.Answers (fieldCount a) ps.length ∧
        ∀ (i : Nat) p, ps[i]? = some p →
          ((∃ x, w₂.Answers (fieldType a i) x ∧ w₂.Compatible x p) ↔ w₂.Agrees rt p)) ∧
    (∀ ps p abi a w₁ w₂,
      ((signatureTy rt ps p abi).run w : Except Stop Ty × Workspace) = (.ok a, w₁) →
      w₁.Moves w₂ → w.Moves w₂ ∧ w₂.Answers (abiOf a) abi ∧
        ((∃ x, w₂.Answers (returnOf a) x ∧ w₂.Compatible x p) ↔ w₂.Agrees rt p) ∧
        ((∃ xs, w₂.Answers (paramsOf a) xs ∧ List.Forall₂ w₂.Compatible xs ps) ↔
          ∀ q ∈ ps, w₂.Agrees rt q)) ∧
    (∀ p w₂, w.Moves w₂ → w.typeOf? rt p.id = some p → w₂.Agrees rt p) ∧
    ∀ p x E F w₂, w.Moves w₂ → w₂.typeOf? rt p.id = some x → w₂.Erased E x → w₂.Erased F p →
      (w₂.Agrees rt p ↔ E = F) := by
  refine ⟨?_, ?_, ?_, ?_, ?_⟩
  · intro p a w₁ w₂ hrun hlater
    obtain ⟨hmoves, ha⟩ := (ends_pointerTy_shaped hw.founded p).ok_of_run hrun
    obtain ⟨w₃, htarget⟩ := answers_targetOf? (hlater.shaped (hmoves.reached hw) ha)
    refine ⟨hmoves.trans hlater, exists_congr fun x =>
      and_congr_left' ⟨?_, fun hx => ⟨w₃, hx ▸ htarget⟩⟩⟩
    rintro ⟨_, hx⟩
    exact Except.ok.inj (Prod.mk.inj (htarget.symm.trans hx)).1
  · intro ps a w₁ w₂ hrun hlater
    obtain ⟨hmoves, ha⟩ := (ends_structTy_shaped hw.founded ps).ok_of_run hrun
    have hw₁ := hmoves.reached hw
    have hw₂ := (hlater.reached hw₁).founded
    have ha₂ := hlater.shaped hw₁ ha
    refine ⟨hmoves.trans hlater, run_of_ends ((ends_fieldCount_shaped hw₂ ha₂).imp ?_), fun i p hp => ?_⟩
    · rintro _ _ ⟨-, rfl⟩
      exact List.length_map _
    · have hi : (ps.map (·.id))[i]? = some p.id := by rw [List.getElem?_map, hp, Option.map_some]
      exact exists_congr fun x => and_congr_left'
        (answers_iff (ends_fieldType_shaped hw₂ ha₂ hi) x)
  · intro ps p abi a w₁ w₂ hrun hlater
    obtain ⟨hmoves, ha⟩ := (ends_signatureTy_shaped hw.founded ps p abi).ok_of_run hrun
    have ha₂ := hlater.shaped (hmoves.reached hw) ha
    refine ⟨hmoves.trans hlater, answers_abiOf ha₂, ?_, ?_⟩
    · exact exists_congr fun x => and_congr_left' (answers_iff (ends_returnOf_shaped ha₂) x)
    · have hparams := answers_iff (ends_paramsOf_shaped ha₂)
      rw [exists_congr fun xs => and_congr_left' (hparams xs)]
      exact exists_mapM_related ps
  · exact fun p w₂ hmoves hp => agrees_of_own (hmoves.typeOf? hw hp)
  · exact fun p x E F w₂ hmoves hx hE hF =>
      agrees_iff_erased (hmoves.reached hw).founded hx hE hF

end Workspace

/-- A pointer to a byte gives back the byte. -/
theorem byte_pointer_gives_byte : oneRuntime.Reached ∧
    ∃ a w', ((pointerTy 0 (Builtin.int8.ty 0)).run oneRuntime : Except Stop Ty × Workspace) =
      (.ok a, w') ∧
      ∃ x, w'.Answers (targetOf? a) (some x) ∧ w'.Compatible x (Builtin.int8.ty 0) := by
  obtain ⟨hpointer, -, -, hown, -⟩ := reached_oneRuntime.parts_of_made 0
  have hrun : ((pointerTy 0 (Builtin.int8.ty 0)).run oneRuntime : Except Stop Ty × Workspace) =
      (.ok ⟨some 0, 18, .pointer⟩, oneRuntime.after (pointerTy 0 (Builtin.int8.ty 0))) :=
    run_after (by decide +kernel)
  obtain ⟨hmoves, hlaw⟩ := hpointer _ _ _ _ hrun (.refl _)
  exact ⟨reached_oneRuntime, _, _, hrun, hlaw.mpr (hown _ _ hmoves (by decide +kernel))⟩

/-! ## Two runtimes -/

def freshRuntimes : Workspace :=
  { runtimes := #[{ engine := .create .amd64 0 0 default 0 },
      { engine := .create .amd64 0 0 default 0 }] }

/-- In the first the pointer to a byte was made, in the second a struct of one byte. Both
types have the number 18. -/
def twoRuntimes : Workspace :=
  (freshRuntimes.after (pointerTy 0 (Builtin.int8.ty 0))).after (structTy 1 [Builtin.int8.ty 1])

theorem reached_twoRuntimes : twoRuntimes.Reached := by
  have hfresh : freshRuntimes.Reached := by
    intro rt r hr
    have hmem : r ∈ freshRuntimes.runtimes := Array.mem_of_getElem? hr
    have hr : r = { engine := .create .amd64 0 0 default 0 } := by
      simpa [freshRuntimes] using hmem
    rw [hr]
    exact .created _ _ _ _ _
  have hpointer : ((pointerTy 0 (Builtin.int8.ty 0)).run freshRuntimes :
      Except Stop Ty × Workspace) = (.ok ⟨some 0, 18, .pointer⟩,
        freshRuntimes.after (pointerTy 0 (Builtin.int8.ty 0))) :=
    run_after (by decide +kernel)
  have hfirst := ((ends_pointerTy_shaped hfresh.founded _).ok_of_run hpointer).1.reached hfresh
  have hstruct : ((structTy 1 [Builtin.int8.ty 1]).run
      (freshRuntimes.after (pointerTy 0 (Builtin.int8.ty 0))) : Except Stop Ty × Workspace) =
        (.ok ⟨some 1, 18, .struct⟩, twoRuntimes) := run_after (by decide +kernel)
  exact ((ends_structTy_shaped hfirst.founded _).ok_of_run hstruct).1.reached hfirst

/-- The second runtime makes a pointer to the pointer of the first, and what that points
to is the struct. -/
theorem parts_of_another_runtime : twoRuntimes.Reached ∧
    twoRuntimes.typeOf? 0 18 = some ⟨some 0, 18, .pointer⟩ ∧
    ∃ a w' x, ((pointerTy 1 ⟨some 0, 18, .pointer⟩).run twoRuntimes :
        Except Stop Ty × Workspace) = (.ok a, w') ∧
      w'.Answers (targetOf? a) (some x) ∧ ¬ w'.Compatible x ⟨some 0, 18, .pointer⟩ := by
  refine ⟨reached_twoRuntimes, by decide +kernel, ⟨some 1, 19, .pointer⟩, _,
    ⟨some 1, 18, .struct⟩, run_after (by decide +kernel), ⟨_, run_after (by decide +kernel)⟩,
    ?_⟩
  rintro ⟨w'', hrun⟩
  have hno : ((compatible ⟨some 1, 18, .struct⟩ ⟨some 0, 18, .pointer⟩).run
      (twoRuntimes.after (pointerTy 1 ⟨some 0, 18, .pointer⟩)) :
        Except Stop Bool × Workspace).1 = .ok false := by decide +kernel
  exact Bool.false_ne_true (Except.ok.inj (hno.symm.trans (congrArg Prod.fst hrun)))

end TypedIR
