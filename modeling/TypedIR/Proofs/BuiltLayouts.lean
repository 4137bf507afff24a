import TypedIR.Proofs.IntegerTypes
import TypedIR.Proofs.ReachedEngines
import TypedIR.Proofs.SealedFunctions

/-
  The types of an engine that was built, and what it remembers of its integers.

  The type table keeps types apart whatever is requested of it (`Keyed`). An
  engine changes its table through such requests only: its own operations on
  types, and the pointer type that an emitter makes for the address of a value.
  So whatever history of operations leads to an engine, two of its types with
  one form are one type, and none of its requests adds an integer
  (`Engine.Built.keepsKeyed`).

  An operation is also one of the calls that keep an engine founded, so a layout that is
  remembered is that of its type and the first types are not refused. A refusal that is
  out of date is therefore never one of an integer that is among them, tags aside
  (`Engine.Founded.numbers`), whatever was asked of the engine and when.
-/

namespace TypedIR

open TypeTable

namespace Engine

/-- Types that are kept apart stay so, and no integers are added. -/
structure KeepsKeyed (e e' : Engine) : Prop where
  keyed : e.types.Keyed → e'.types.Keyed
  integers : e.types.IntegersFrom e'.types

instance : Std.Refl KeepsKeyed := ⟨fun e => ⟨id, .refl e.types⟩⟩

instance : Trans KeepsKeyed KeepsKeyed KeepsKeyed :=
  ⟨fun h h' => ⟨h'.keyed ∘ h.keyed, h.integers.trans h'.integers⟩⟩

theorem KeepsKeyed.of_same {e e' : Engine} (h : e'.types = e.types) : e.KeepsKeyed e' := by
  constructor
  · rw [h]
    exact id
  · rw [h]
    exact .refl e.types

instance : Aside KeepsKeyed := ⟨fun _ _ _ => .of_same rfl⟩

end Engine

namespace EngineM

open Engine

variable {α : Type}

/-! ## Operations on types -/

theorem keyed_makeType {g : TypeTable → TypeId × TypeTable} (hg : ∀ t : TypeTable, t.Keyed → (g t).2.Keyed)
    (hi : ∀ t : TypeTable, t.IntegersFrom (g t).2) : Leaves KeepsKeyed (makeType g) :=
  .bind_get fun e => ⟨hg e.types, hi e.types⟩

theorem keyed_pointerType (target : TypeId) : Leaves KeepsKeyed (pointerType target) :=
  .bind' (quiet_knownType target) fun _ =>
    keyed_makeType (fun _ h => (h.registers_plain (.pointer target)).keyed) fun t => .intern t rfl

theorem keyed_structType (fields : List TypeId) : Leaves KeepsKeyed (structType fields) := by
  refine .bind' (.forM' fields quiet_knownType) fun _ => ?_
  refine .bind' (keyed_makeType (fun _ h => (h.addsStruct fields).keyed) fun t =>
    .addStruct t fields) fun id => ?_
  refine .bind' (quiet_layoutOf id) fun answer => ?_
  cases answer with
  | ok l => exact .pure' id
  | error r => exact quiet_fail _

theorem keyed_signatureType (abi : Abi) (result : TypeId) (params : List TypeId) :
    Leaves KeepsKeyed (signatureType abi result params) :=
  .bind' (quiet_knownType result) fun _ => .bind' (.forM' params quiet_knownType) fun _ =>
    keyed_makeType (fun _ h => (h.registers_signature _).keyed) fun t => .addSignature t _

theorem keyed_taggedType (base : TypeId) (tag : Tag) (data : String) :
    Leaves KeepsKeyed (taggedType base tag data) :=
  .bind' (quiet_knownType base) fun _ =>
    keyed_makeType (fun _ h => (h.registers_tagged base _).keyed) fun t => .addTagged t base _

theorem keyed_setFieldNames (id : TypeId) (names : List String) :
    Leaves KeepsKeyed (setFieldNames id names) := by
  refine .bind_get fun e => ?_
  cases hn : e.types.setNames? (e.types.underlying id) names with
  | none => exact Std.Refl.refl e
  | some types =>
    obtain ⟨hg, ht⟩ := grows_of_setNames? hn
    exact ⟨fun h => h.of_side hg ht, .of_side ht⟩

/-! ## Operations that make no type -/

theorem keyed_destroyContext (id : ContextId) : Leaves KeepsKeyed (destroyContext id) :=
  .bind' (quiet_liveContext id) fun _ => .modify' fun _ => .of_same rfl

theorem keyed_buildStart (id : ContextId) : Leaves KeepsKeyed (buildStart id) := by
  refine .bind' (quiet_liveContext id) fun _ => .bind' .get' fun e => ?_
  exact .ite' .bind_throw (.modify' fun _ => .of_same rfl)

theorem keyed_buildEnd (id : ContextId) : Leaves KeepsKeyed (buildEnd id) :=
  .bind' .get' fun _ => .ite' .bind_throw (.modify' fun _ => .of_same rfl)

theorem keyed_createFunction (ctx : ContextId) (sig : TypeId) (name : String) :
    Leaves KeepsKeyed (createFunction ctx sig name) := by
  refine .bind' .get' fun e => ?_
  cases e.types.signature? sig with
  | none => exact .throw' _
  | some s =>
    refine .bind' (quiet_repOf s.result) fun ret => .ite' .bind_throw ?_
    refine .bind' (quiet_paramReps 0 s.params) fun reps => .bind' (quiet_liveContext ctx) fun _ => ?_
    refine .bind' .get' fun e => .ite' .bind_throw (.bind' .get' fun e => ?_)
    exact .bind' (.modify' fun _ => .of_same rfl) fun _ => .bind' (quiet_note _) fun _ => .pure' _

theorem keyed_compile (fn : FuncId) : Leaves KeepsKeyed (compile fn) :=
  leaves_compile fun _ _ _ _ => .of_same rfl

theorem Into.keyed {fn : FuncId} {act : EngineM α} (h : Into fn Bench.InPlace Bench.InPlace act) :
    Leaves KeepsKeyed act :=
  h.leaves fun _ _ _ _ hb => ⟨hb.keyed, hb.integers⟩

end EngineM

open EngineM in
theorem Operation.keyed_perform (op : Operation) : Leaves Engine.KeepsKeyed op.perform := by
  have discard : ∀ {α : Type} {act : EngineM α}, Leaves Engine.KeepsKeyed act →
      Leaves Engine.KeepsKeyed (Functor.discard act) := fun h => .bind' h fun _ => .pure' _
  cases hw : op.writes? with
  | some fn => exact (into_perform hw).keyed
  | none =>
  unfold perform
  cases op with
  | createContext => exact discard (.bind' (.modify' fun _ => .of_same rfl) fun _ => .bind' .get' fun _ => .pure' _)
  | destroyContext ctx => exact keyed_destroyContext ctx
  | buildStart ctx => exact keyed_buildStart ctx
  | buildEnd ctx => exact keyed_buildEnd ctx
  | pointerType target => exact discard (keyed_pointerType target)
  | structType fields => exact discard (keyed_structType fields)
  | signatureType abi result params => exact discard (keyed_signatureType _ result params)
  | taggedType base tag data => exact discard (keyed_taggedType base _ data)
  | setFieldNames id names => exact keyed_setFieldNames id names
  | layoutOf id => exact discard (quiet_layoutOf id)
  | changeHost change => exact .modify' fun _ => .of_same rfl
  | registerNative name run => exact .modify' fun _ => .of_same rfl
  | removeNative name => exact .modify' fun _ => .of_same rfl
  | createFunction ctx sig name => exact discard (keyed_createFunction ctx sig name)
  | compile fn => exact keyed_compile fn
  | _ => cases hw

/-- The types of an engine are kept apart, and its integers are among the first types,
whatever history led to it. -/
theorem Engine.Built.keepsKeyed {target : Target} {e : Engine} (h : e.Built target) :
    e.types.Keyed ∧ TypeTable.initial.IntegersFrom e.types := by
  obtain ⟨maxSteps, maxDepth, rng, clock, ops, rfl⟩ := h
  have hafter : ∀ (ops : List Operation) (e : Engine), e.KeepsKeyed (e.after ops) := by
    intro ops
    induction ops with
    | nil => exact fun e => Std.Refl.refl e
    | cons op ops ih =>
      intro e
      have hop : e.KeepsKeyed (e.performed op) := op.keyed_perform e
      exact Trans.trans hop (ih (e.performed op))
  have hkept := hafter ops (create target maxSteps maxDepth rng clock)
  exact ⟨hkept.keyed Registry.keyed_initial, hkept.integers⟩

theorem EngineM.run_discard {α : Type} (act : EngineM α) (e : Engine) :
    ((Functor.discard act).run e : Except Failure Unit × Engine).2 =
      (act.run e : Except Failure α × Engine).2 := by
  show ((act >>= fun _ => pure ()).run e : Except Failure Unit × Engine).2 = _
  rw [run_bind]
  rcases (act.run e : Except Failure α × Engine) with ⟨_ | _, e'⟩ <;> rfl

theorem Operation.moves (op : Operation) (e : Engine) : e.Moves (e.performed op) := by
  have call : ∀ {act : EngineM Unit}, EngineCall act →
      e.Moves (act.run e : Except Failure Unit × Engine).2 := fun h => .called h e
  have discard : ∀ {α : Type} {act : EngineM α}, EngineCall act →
      e.Moves ((Functor.discard act).run e : Except Failure Unit × Engine).2 := by
    intro α act h
    rw [EngineM.run_discard]
    exact .called h e
  unfold Engine.performed perform
  cases op with
  | createContext => exact discard .createContext
  | destroyContext ctx => exact call (.destroyContext ctx)
  | buildStart ctx => exact call (.buildStart ctx)
  | buildEnd ctx => exact call (.buildEnd ctx)
  | pointerType target => exact discard (.pointerType target)
  | structType fields => exact discard (.structType fields)
  | signatureType abi result params => exact discard (.signatureType _ result params)
  | taggedType base tag data => exact discard (.taggedType base _ data)
  | setFieldNames id names => exact call (.setFieldNames id names)
  | layoutOf id => exact discard (.layoutOf id)
  | changeHost change => exact .hosted e (change.apply e.host) e.notes
  | registerNative name run => exact call (.registerNative name run)
  | removeNative name => exact call (.removeNative name)
  | createFunction ctx sig name => exact discard (.createFunction ctx sig name)
  | createValue fn type => exact discard (.createValue fn type)
  | setAddressable fn v => exact call (.setAddressable fn v)
  | constInt fn type n => exact discard (.constInt fn type n)
  | constFloat32 fn type bits => exact discard (.constFloat32 fn type bits)
  | constFloat64 fn type bits => exact discard (.constFloat64 fn type bits)
  | newLabel fn => exact discard (.newLabel fn)
  | placeLabel fn l => exact call (.placeLabel fn l)
  | binary fn op a b => exact discard (.binary fn _ a b)
  | unary fn op a => exact discard (.unary fn _ a)
  | compare fn op a b => exact discard (.compare fn _ a b)
  | toBool fn a => exact discard (.toBool fn a)
  | toNotBool fn a => exact discard (.toNotBool fn a)
  | convert fn a type => exact discard (.convert fn a type)
  | store fn dest src => exact call (.store fn dest src)
  | addressOf fn v => exact discard (.addressOf fn v)
  | loadRel fn ptr offset type => exact discard (.loadRel fn ptr offset type)
  | storeRel fn ptr offset v => exact call (.storeRel fn ptr offset v)
  | loadElem fn base index type => exact discard (.loadElem fn base index type)
  | storeElem fn base index v => exact call (.storeElem fn base index v)
  | alloca fn size => exact discard (.alloca fn size)
  | branch fn l => exact call (.branch fn l)
  | branchIf fn cond l => exact call (.branchIf fn cond l)
  | branchIfNot fn cond l => exact call (.branchIfNot fn cond l)
  | ret fn v => exact call (.ret fn v)
  | defaultReturn fn => exact discard (.defaultReturn fn)
  | call fn callee args => exact discard (.call fn callee args)
  | callNative fn name sig args => exact discard (.callNative fn name sig args)
  | math fn op args => exact discard (.math fn _ args)
  | compile fn => exact call (.compile fn)

namespace Engine

variable {target : Target} {e : Engine}

theorem Built.reached (h : e.Built target) : e.Reached := by
  obtain ⟨maxSteps, maxDepth, rng, clock, ops, rfl⟩ := h
  have hafter : ∀ (ops : List Operation) (e : Engine), e.Reached → (e.after ops).Reached := by
    intro ops
    induction ops with
    | nil => exact fun _ h => h
    | cons op ops ih => exact fun e h => ih (e.performed op) (.moved h (op.moves e))
  exact hafter ops _ (.created target maxSteps maxDepth rng clock)

/-- Where layouts are honest and no first type is refused, the integers that are first
types are as they are remembered. -/
theorem Founded.numbers (h : e.Founded) : Layout.Numbers e.target e.types e.layouts := by
  have hord : e.types.Ordered := h.tables.ordered
  intro id r hr hi a hlook
  cases a with
  | ok l =>
    -- a layout is that of the type below the tags
    obtain ⟨d, hd⟩ := hr.hasRep.found
    obtain ⟨l', hl', hrep⟩ := hr.hasRep
    have hplain : Layout.plainPart e.target e.types id = some l := (h.tables.honest id _ hlook).agrees
    rw [Layout.plainPart_underlying hord, hplain] at hl'
    obtain rfl := Option.some.inj hl'
    unfold TypeTable.repOf at hrep
    rw [hd] at hrep
    dsimp only at hrep
    cases hk : d.kind <;> rw [hk] at hrep <;> cases hrep
    case ok.void.refl => rcases hi.1 with hc | hc <;> cases hc
    all_goals rfl
  | error why =>
    intro hself
    obtain ⟨d, hd⟩ := hr.hasRep.found
    have hfirst := hr.first
    rw [hself] at hd hfirst
    exact h.tables.firm id why (TypeTable.find?_lt hd).1 hfirst hlook

end Engine

end TypedIR
