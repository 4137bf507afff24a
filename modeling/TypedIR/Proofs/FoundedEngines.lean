import TypedIR.Proofs.EngineEdits

/-
  Engines stay founded.

  The calls of an engine are listed with what they give (`EngineCall`). Some make
  types, of parts that they look up first; emitters make the pointer type for the
  address of a value; and an image brings a table of its own, in which a number stands
  for a type that was loaded before it or for none. So every type that is added rests on
  types that are there, whatever fails on the way (`EngineCall.rests`).
-/

namespace TypedIR

/-- The calls of the engine. Questions that change nothing are one kind of them. -/
inductive EngineCall : {α : Type} → EngineM α → Prop
  | ask {α : Type} (q : Engine → Except Failure α) : EngineCall (EngineM.ask q)
  | createContext : EngineCall EngineM.createContext
  | destroyContext (ctx : ContextId) : EngineCall (EngineM.destroyContext ctx)
  | buildStart (ctx : ContextId) : EngineCall (EngineM.buildStart ctx)
  | buildEnd (ctx : ContextId) : EngineCall (EngineM.buildEnd ctx)
  | primitive (n : Nat) : EngineCall (EngineM.primitive n)
  | pointerType (target : TypeId) : EngineCall (EngineM.pointerType target)
  | structType (fields : List TypeId) : EngineCall (EngineM.structType fields)
  | signatureType (abi : Abi) (result : TypeId) (params : List TypeId) :
      EngineCall (EngineM.signatureType abi result params)
  | taggedType (base : TypeId) (tag : Tag) (data : String) :
      EngineCall (EngineM.taggedType base tag data)
  | setFieldNames (id : TypeId) (names : List String) :
      EngineCall (EngineM.setFieldNames id names)
  | field (id : TypeId) (i : Int) : EngineCall (EngineM.field id i)
  | fieldOffset (id : TypeId) (i : Int) : EngineCall (EngineM.fieldOffset id i)
  | layoutOf (id : TypeId) : EngineCall (EngineM.layoutOf id)
  | repOf (id : TypeId) : EngineCall (EngineM.repOf id)
  | registerNative (name : String) (run : NativeFunc) :
      EngineCall (EngineM.registerNative name run)
  | removeNative (name : String) : EngineCall (EngineM.removeNative name)
  | createFunction (ctx : ContextId) (sig : TypeId) (name : String) :
      EngineCall (EngineM.createFunction ctx sig name)
  | importImage (ctx : ContextId) (img : Option Image) :
      EngineCall (EngineM.importImage ctx img)
  | paramValue (fn : FuncId) (i : Int) : EngineCall (EngineM.paramValue fn i)
  | valueInfo (fn : FuncId) (v : ValueId) : EngineCall (EngineM.valueInfo fn v)
  | createValue (fn : FuncId) (type : TypeId) : EngineCall (EngineM.createValue fn type)
  | setAddressable (fn : FuncId) (v : ValueId) : EngineCall (EngineM.setAddressable fn v)
  | constInt (fn : FuncId) (type : TypeId) (n : Int) : EngineCall (EngineM.constInt fn type n)
  | constFloat32 (fn : FuncId) (type : TypeId) (bits : UInt32) :
      EngineCall (EngineM.constFloat32 fn type bits)
  | constFloat64 (fn : FuncId) (type : TypeId) (bits : Word) :
      EngineCall (EngineM.constFloat64 fn type bits)
  | newLabel (fn : FuncId) : EngineCall (EngineM.newLabel fn)
  | placeLabel (fn : FuncId) (l : LabelId) : EngineCall (EngineM.placeLabel fn l)
  | binary (fn : FuncId) (op : Opcode) (a b : ValueId) : EngineCall (EngineM.binary fn op a b)
  | unary (fn : FuncId) (op : Opcode) (a : ValueId) : EngineCall (EngineM.unary fn op a)
  | compare (fn : FuncId) (op : Opcode) (a b : ValueId) : EngineCall (EngineM.compare fn op a b)
  | toBool (fn : FuncId) (a : ValueId) : EngineCall (EngineM.toBool fn a)
  | toNotBool (fn : FuncId) (a : ValueId) : EngineCall (EngineM.toNotBool fn a)
  | convert (fn : FuncId) (a : ValueId) (type : TypeId) : EngineCall (EngineM.convert fn a type)
  | store (fn : FuncId) (dest src : ValueId) : EngineCall (EngineM.store fn dest src)
  | addressOf (fn : FuncId) (v : ValueId) : EngineCall (EngineM.addressOf fn v)
  | loadRel (fn : FuncId) (ptr : ValueId) (offset : Int) (type : TypeId) :
      EngineCall (EngineM.loadRel fn ptr offset type)
  | storeRel (fn : FuncId) (ptr : ValueId) (offset : Int) (v : ValueId) :
      EngineCall (EngineM.storeRel fn ptr offset v)
  | loadElem (fn : FuncId) (base index : ValueId) (type : TypeId) :
      EngineCall (EngineM.loadElem fn base index type)
  | storeElem (fn : FuncId) (base index v : ValueId) :
      EngineCall (EngineM.storeElem fn base index v)
  | alloca (fn : FuncId) (size : ValueId) : EngineCall (EngineM.alloca fn size)
  | branch (fn : FuncId) (l : LabelId) : EngineCall (EngineM.branch fn l)
  | branchIf (fn : FuncId) (cond : ValueId) (l : LabelId) :
      EngineCall (EngineM.branchIf fn cond l)
  | branchIfNot (fn : FuncId) (cond : ValueId) (l : LabelId) :
      EngineCall (EngineM.branchIfNot fn cond l)
  | ret (fn : FuncId) (v : ValueId) : EngineCall (EngineM.ret fn v)
  | defaultReturn (fn : FuncId) : EngineCall (EngineM.defaultReturn fn)
  | call (fn callee : FuncId) (args : List ValueId) : EngineCall (EngineM.call fn callee args)
  | callNative (fn : FuncId) (name : String) (sig : TypeId) (args : List ValueId) :
      EngineCall (EngineM.callNative fn name sig args)
  | math (fn : FuncId) (op : MathOp) (args : List ValueId) : EngineCall (EngineM.math fn op args)
  | compile (fn : FuncId) : EngineCall (EngineM.compile fn)

namespace Engine

variable {e e' : Engine} {fn : FuncId} {f f' : Func}

theorem Rests.of_same (ht : e'.tables = e.tables) (hf : e'.funcs = e.funcs) : e.Rests e' := by
  intro he
  refine ⟨⟨ht ▸ he.tables, fun fn f hfn => ?_⟩, ht ▸ .refl _⟩
  rw [ht]
  exact he.values fn f ((SameCode.func? hf fn).symm.trans hfn)

theorem rests_asked (e : Engine) (id : TypeId) :
    e.Rests { e with layouts := ((Layout.layoutOf e.target e.types id).run e.layouts).2 } :=
  fun he => ⟨⟨he.tables.asked id, fun fn f hf =>
    (he.values fn f hf).onward he.tables.ordered (e.tables.onward_asked id)⟩, e.tables.onward_asked id⟩

instance : Asking Rests := ⟨fun _ _ => .of_same rfl rfl, rests_asked⟩

instance : Hosting Rests := ⟨fun _ _ => .of_same rfl rfl⟩

theorem Rests.of_types {types : TypeTable}
    (h : e.Founded → e.types.Grows types ∧ types.Ordered) : e.Rests { e with types } := by
  intro he
  obtain ⟨hg, ho⟩ := h he
  have honward := Tables.onward_types (s := e.tables) hg
  exact ⟨⟨he.tables.grow hg ho, fun fn f hf => (he.values fn f hf).onward he.tables.ordered honward⟩,
    honward⟩

theorem Rests.of_values (ht : e'.tables = e.tables)
    (h : e.Founded → ∀ fn f, e'.func? fn = some f → f.OfTypes e.tables.LaidOut) : e.Rests e' := by
  intro he
  refine ⟨⟨ht ▸ he.tables, fun fn f hf => ?_⟩, ht ▸ .refl _⟩
  rw [ht]
  exact h he fn f hf

theorem Rests.of_set (ht : e'.tables = e.tables) (hf : e.func? fn = some f)
    (hset : e'.funcs = e.funcs.setIfInBounds (fn - 1) f')
    (h : e.Founded → f'.OfTypes e.tables.LaidOut) : e.Rests e' := by
  refine .of_values ht fun he gn g hg => ?_
  rw [func?_set hf gn e' hset] at hg
  split at hg
  · exact Option.some.inj hg ▸ h he
  · exact he.values gn g hg

theorem rests_put (hf : e.func? fn = some f) {b : Bench}
    (h : Bench.Rests { target := e.target, types := e.types, layouts := e.layouts, func := f } b) :
    e.Rests (e.put fn b) := by
  intro he
  obtain ⟨hb, honward⟩ := h ⟨he.tables, he.values fn f hf⟩
  have htables : (e.put fn b).tables = b.tables :=
    congrArg (fun target => Tables.mk target b.types b.layouts) honward.target.symm
  refine ⟨⟨htables ▸ hb.tables, fun gn g hg => ?_⟩, htables ▸ honward⟩
  rw [func?_set hf gn (e.put fn b) rfl] at hg
  split at hg
  · rw [htables]
    exact Option.some.inj hg ▸ hb.values
  · exact (he.values gn g hg).onward he.tables.ordered (htables ▸ honward)

theorem Rests.of_push (ht : e'.tables = e.tables) (hfuncs : e'.funcs = e.funcs.push f)
    (h : e.Founded → f.OfTypes e.tables.LaidOut) : e.Rests e' := by
  refine .of_values ht fun he fn g hg => ?_
  unfold func? at hg
  split at hg
  · cases hg
  · next hfn =>
    rw [hfuncs, Array.getElem?_push] at hg
    split at hg
    · exact Option.some.inj hg ▸ h he
    · exact he.values fn g (by rwa [func?, if_neg hfn])

theorem rests_destroy (ids : List FuncId) (ht : e'.tables = e.tables)
    (h : e'.funcs =
      ids.foldl (fun fs fid => fs.modify (fid - 1) ({ · with destroyed := true })) e.funcs) :
    e.Rests e' := by
  refine .of_values ht fun he gn g hg => ?_
  rw [func?_destroy ids h] at hg
  obtain ⟨f, hf, rfl⟩ := Option.map_eq_some_iff.mp hg
  exact (he.values gn f hf).congr rfl

def Ponders (e e' : Engine) : Prop := e.Rests e' ∧ e.SameTables e'

instance : Std.Refl Ponders := ⟨fun e => ⟨Std.Refl.refl e, Std.Refl.refl e⟩⟩

instance : Trans Ponders Ponders Ponders :=
  ⟨fun h h' => ⟨Trans.trans h.1 h'.1, Trans.trans h.2 h'.2⟩⟩

instance : Asking Ponders :=
  ⟨fun e notes => ⟨Asking.noted e notes, Asking.noted e notes⟩,
    fun e id => ⟨Asking.asked e id, Asking.asked e id⟩⟩

end Engine

namespace EngineM

open Engine

variable {α β : Type} {e : Engine}

/-! ## Types -/

theorem rests_makeType {g : TypeTable → TypeId × TypeTable}
    (h : e.Founded → e.types.Grows (g e.types).2 ∧ (g e.types).2.Ordered) :
    Ends (makeType g) e (fun _ => e.Rests) fun _ => e.Rests :=
  .bind_get (.bind_set (.pure' (.of_types h)))

theorem rests_knownType (id : TypeId) {k : PUnit → EngineM α}
    (h : id < e.types.types.size → Ends (k ⟨⟩) e (fun _ => e.Rests) fun _ => e.Rests) :
    Ends (knownType id >>= k) e (fun _ => e.Rests) fun _ => e.Rests := by
  refine .bind' (.bind_get ?_) fun u e' (hu : e = e' ∧ id < e.types.types.size) => ?_
  · refine .ite' (fun _ => .throw' (Std.Refl.refl e)) fun hknown => .pure' ⟨rfl, ?_⟩
    obtain ⟨d, hd⟩ := Option.isSome_iff_exists.mp (by simpa [Option.isSome_iff_ne_none] using hknown)
    exact (TypeTable.find?_lt hd).2
  · obtain ⟨rfl, hlt⟩ := hu
    exact h hlt

theorem rests_knownTypes (ids : List TypeId) {k : PUnit → EngineM α}
    (h : (∀ id ∈ ids, id < e.types.types.size) →
      Ends (k ⟨⟩) e (fun _ => e.Rests) fun _ => e.Rests) :
    Ends (ids.forM knownType >>= k) e (fun _ => e.Rests) fun _ => e.Rests := by
  induction ids with
  | nil => exact h (List.forall_mem_nil _)
  | cons id rest ih =>
    show Ends ((knownType id >>= fun _ => rest.forM knownType) >>= k) e _ _
    rw [bind_assoc]
    exact rests_knownType id fun hlt => ih fun hrest => h (List.forall_mem_cons.mpr ⟨hlt, hrest⟩)

theorem rests_pointerType (target : TypeId) : Leaves Rests (pointerType target) := by
  refine fun e => Ends.state (rests_knownType target fun hlt => rests_makeType fun he => ?_)
  have hmakes := he.tables.ordered.makes_pointer hlt
  exact ⟨hmakes.grows, hmakes.ordered⟩

theorem rests_structType (fields : List TypeId) : Leaves Rests (structType fields) := by
  refine fun e => Ends.state (rests_knownTypes fields fun hlt => ?_)
  refine .bind' (rests_makeType fun he => ?_) fun id e₁ h₁ => ?_
  · have hmakes := he.tables.ordered.makes_addStruct hlt
    exact ⟨hmakes.grows, hmakes.ordered⟩
  · have hrests : Leaves Rests (layoutOf id) := quiet_layoutOf id
    have hlayout := hrests.ends e₁
    refine .bind' (hlayout.mono (fun _ _ h => Trans.trans h₁ h) fun _ _ h => Trans.trans h₁ h) ?_
    intro answer e₂ h₂
    cases answer with
    | ok l => exact .pure' h₂
    | error r => exact .throw' h₂

theorem rests_signatureType (abi : Abi) (result : TypeId) (params : List TypeId) :
    Leaves Rests (signatureType abi result params) := by
  refine fun e => Ends.state (rests_knownType result fun hr => rests_knownTypes params fun hp => ?_)
  refine rests_makeType fun he => ?_
  obtain ⟨d, hmakes, -⟩ :=
    he.tables.ordered.makes_addSignature (s := { abi, params, result }) hr hp
  exact ⟨hmakes.grows, hmakes.ordered⟩

theorem rests_taggedType (base : TypeId) (tag : Tag) (data : String) :
    Leaves Rests (taggedType base tag data) := by
  refine fun e => Ends.state (rests_knownType base fun hb => rests_makeType fun he => ?_)
  obtain ⟨d, hmakes, -⟩ := he.tables.ordered.makes_addTagged { tag, data } hb
  exact ⟨hmakes.grows, hmakes.ordered⟩

theorem rests_setFieldNames (id : TypeId) (names : List String) :
    Leaves Rests (setFieldNames id names) := by
  refine .bind_get fun e => ?_
  cases hn : e.types.setNames? (e.types.underlying id) names with
  | none => exact Std.Refl.refl e
  | some types => exact .of_types fun he => he.tables.ordered.setNames? hn

theorem rests_createContext : Leaves Rests createContext :=
  .bind' (.modify' fun _ => .of_same rfl rfl) fun _ => .bind' .get' fun _ => .pure' _

theorem rests_destroyContext (id : ContextId) : Leaves Rests (destroyContext id) :=
  .bind' (quiet_liveContext id) fun c => .modify' fun _ => rests_destroy c.funcs rfl rfl

theorem rests_buildStart (id : ContextId) : Leaves Rests (buildStart id) := by
  refine .bind' (quiet_liveContext id) fun _ => .bind' .get' fun e => ?_
  exact .ite' .bind_throw (.modify' fun _ => .of_same rfl rfl)

theorem rests_buildEnd (id : ContextId) : Leaves Rests (buildEnd id) :=
  .bind' .get' fun _ => .ite' .bind_throw (.modify' fun _ => .of_same rfl rfl)

/-! ## Functions -/

theorem rests_paramValue (fn : FuncId) (i : Int) : Leaves Rests (paramValue fn i) := by
  refine .bind' (quiet_ask _) fun f => ?_
  generalize (if i < 0 then none else f.params[i.toNat]?) = v
  cases v with
  | some v => exact .pure' v
  | none => exact .throw' _

theorem rests_valueInfo (fn : FuncId) (v : ValueId) : Leaves Rests (valueInfo fn v) := by
  refine .bind' (quiet_ask _) fun f => ?_
  cases f.value? v with
  | some info => exact .pure' info
  | none => exact .throw' _

theorem Into.rests {fn : FuncId} {act : EngineM α} (h : Into fn Bench.InPlace Bench.InPlace act) :
    Leaves Rests act :=
  h.leaves fun _ _ _ hf hb => rests_put (findOpen_ok hf).1 hb.rests

theorem rests_edits {fn : FuncId} {act : EngineM α} (h : EditsIn fn act) : Leaves Rests act :=
  h.inPlace.rests

/-! ### New functions -/

theorem ends_paramReps_laidOut (i : Nat) (params : List TypeId) (e : Engine) :
    Ends (paramReps i params) e (fun _ e' => e.Ponders e' ∧
      (e.Founded → ∀ p ∈ params, e'.tables.LaidOut p)) fun _ => e.Ponders := by
  induction params generalizing i e with
  | nil => exact .pure' ⟨Std.Refl.refl e, fun _ => List.forall_mem_nil _⟩
  | cons p rest ih =>
    have hrep : Ends (repOf p) e (fun _ e' => e.Ponders e' ∧ e'.tables.LaidOut p) fun _ => e.Ponders :=
      (ends_repOf_laidOut p e).imp fun _ _ h => ⟨h.1, h.2.2⟩
    refine .bind' hrep fun r e₁ ⟨h₁, hp⟩ => ?_
    refine .ite' (fun _ => .bind_get (.bind_throw h₁)) fun _ => ?_
    refine .bind' ((ih (i + 1) e₁).imp_stop fun _ _ h => Trans.trans h₁ h) fun reps e₂ ⟨h₂, hrest⟩ => ?_
    refine .pure' ⟨Trans.trans h₁ h₂, fun he => List.forall_mem_cons.mpr ⟨?_, hrest (h₁.1 he).1⟩⟩
    have he₁ := (h₁.1 he).1
    exact hp.onward he₁.tables.ordered (h₂.1 he₁).2

theorem rests_createFunction (ctx : ContextId) (sig : TypeId) (name : String) :
    Leaves Rests (createFunction ctx sig name) := by
  intro e
  refine Ends.state (.bind_get ?_)
  cases hsig : e.types.signature? sig with
  | none => exact .throw' (Std.Refl.refl e)
  | some s =>
    have hrep : Leaves Ponders (repOf s.result) := quiet_repOf s.result
    have hlive : Leaves Ponders (liveContext ctx) := quiet_liveContext ctx
    refine .bind' ((hrep.ends e).imp_stop fun _ _ h => h.1) fun ret e₁ h₁ => ?_
    refine .ite' (fun _ => .bind_throw h₁.1) fun _ => ?_
    refine .bind' ((ends_paramReps_laidOut 0 s.params e₁).imp_stop fun _ _ h => Trans.trans h₁.1 h.1)
      fun reps e₂ ⟨h₂, hlaid⟩ => ?_
    refine .bind' ((hlive.ends e₂).imp_stop fun _ _ h => Trans.trans h₁.1 (Trans.trans h₂.1 h.1))
      fun _ e₃ h₃ => ?_
    have hrests : e.Rests e₃ := Trans.trans h₁.1 (Trans.trans h₂.1 h₃.1)
    refine .bind_get (.ite' (fun _ => .bind_throw hrests) fun _ => .bind_get ?_)
    extract_lets id name params f
    refine .bind_modify (.bind_modify (.pure' fun he => ?_))
    have he₁ := (h₁.1 he).1
    have he₂ := (h₂.1 he₁).1
    have hparams : ∀ info ∈ params, e₃.tables.LaidOut info.type := by
      intro info hinfo
      obtain ⟨i, hi, rfl⟩ := List.mem_mapIdx.mp hinfo
      have hp : ((s.params.zip reps)[i]).1 ∈ s.params := (List.of_mem_zip (List.getElem_mem hi)).1
      exact (hlaid he₁ _ hp).onward he₂.tables.ordered (h₃.1 he₂).2
    have hlater : ∀ e₄, e₃.Rests e₄ → e₄.Founded ∧ e.tables.Onward e₄.tables :=
      fun e₄ h => (Trans.trans hrests h : e.Rests e₄) he
    exact hlater _ (.of_push (f := f) rfl rfl fun _ => .of_values rfl hparams)

/-! ### Compiling -/

theorem rests_compile (fn : FuncId) : Leaves Rests (compile fn) := by
  refine leaves_compile fun e f notes hf => ?_
  -- placing the slots asks for the layouts of the values, and changes nothing but slots
  have hasked : e.Rests { e with layouts := (e.slots f).2 } :=
    @keeps_slots e f (fun c => e.Rests { e with layouts := c }) (Std.Refl.refl e)
      fun v _ c hc => Trans.trans hc (rests_asked { e with layouts := c } v.type)
  have hfunc := (findOpen_ok hf).1
  refine Trans.trans hasked (Rests.of_set rfl hfunc rfl fun he v info hv => ?_)
  obtain ⟨info₀, hv₀, hslot⟩ := (e.framed_framed f).value_back hv
  rw [hslot]
  exact he.values fn f hfunc v info₀ hv₀

/-! ## Images -/

theorem founds_loadedType {ids : Array TypeId} (he : e.Founded)
    (hids : ∀ id ∈ ids, id < e.types.types.size) (ref : Int) :
    Ends (loadedType ids ref) e (fun id e' => e = e' ∧ id < e.types.types.size)
      fun _ e' => e = e' := by
  refine .ite' (fun _ => .pure' ⟨rfl, he.tables.ordered.size_pos⟩) fun _ => ?_
  cases hfound : (if ref < 0 then none else ids[ref.toNat - 1]?) with
  | none => exact .throw' rfl
  | some id =>
    have hmem : id ∈ ids := by
      split at hfound
      · cases hfound
      · exact Array.mem_of_getElem? hfound
    cases id with
    | zero => exact .throw' rfl
    | succ id => exact .pure' ⟨rfl, hids _ hmem⟩

theorem founds_loadedTypes {ids : Array TypeId} (he : e.Founded)
    (hids : ∀ id ∈ ids, id < e.types.types.size) (refs : List Int) :
    Ends (refs.mapM (loadedType ids)) e
      (fun types e' => e = e' ∧ ∀ id ∈ types, id < e.types.types.size) fun _ e' => e = e' := by
  induction refs with
  | nil => exact .pure' ⟨rfl, List.forall_mem_nil _⟩
  | cons ref rest ih =>
    rw [List.mapM_cons]
    refine .bind' (founds_loadedType he hids ref) ?_
    rintro id _ ⟨rfl, hlt⟩
    refine .bind' ih ?_
    rintro types _ ⟨rfl, hrest⟩
    exact .pure' ⟨rfl, List.forall_mem_cons.mpr ⟨hlt, hrest⟩⟩

def Founds (e e' : Engine) : Prop := e'.Founded ∧ e.tables.Onward e'.tables

theorem Founds.refl (he : e.Founded) : Founds e e := ⟨he, .refl _⟩

theorem Founds.trans {e₁ e₂ : Engine} (h : Founds e e₁) (h' : Founds e₁ e₂) : Founds e e₂ :=
  ⟨h'.1, h.2.trans h'.2⟩

theorem founds_makeType {g : TypeTable → TypeId × TypeTable} {d : Descriptor} (he : e.Founded)
    (h : e.types.Makes (g e.types) d) {stop : Failure → Engine → Prop} :
    Ends (makeType g) e (fun id e' => Founds e e' ∧ id < e'.types.types.size) stop := by
  refine .bind_get (.bind_set (.pure' ⟨?_, (TypeTable.find?_lt h.found).2⟩))
  exact Rests.of_types (fun _ => ⟨h.grows, h.ordered⟩) he

theorem founds_loadType {ids : Array TypeId} (he : e.Founded)
    (hids : ∀ id ∈ ids, id < e.types.types.size) (n : Nat) (it : ImageType) :
    Ends (loadType ids n it) e (fun id e' => Founds e e' ∧ id < e'.types.types.size)
      fun _ e' => Founds e e' := by
  have hord : e.types.Ordered := he.tables.ordered
  have hscalar : ∀ d : Descriptor, d.kind.isType = true → e.types.parts d = [] →
      e.types.SlotOk d → Ends (makeType (·.intern d)) e
        (fun id e' => Founds e e' ∧ id < e'.types.types.size) fun _ e' => Founds e e' :=
    fun d hk hparts hslot => founds_makeType he (hord.makes_intern hk (hparts ▸ List.forall_mem_nil _) hslot)
  have hloaded := founds_loadedType he hids
  have hstop : ∀ (err : Failure) e', e = e' → Founds e e' := fun _ _ h => h ▸ .refl he
  unfold loadType
  dsimp only
  split
  · exact hscalar _ rfl rfl ⟨nofun, nofun, nofun⟩
  · exact hscalar _ rfl rfl ⟨nofun, nofun, nofun⟩
  · exact hscalar _ rfl rfl ⟨nofun, nofun, nofun⟩
  · exact hscalar _ rfl rfl ⟨nofun, nofun, nofun⟩
  · refine .bind' ((hloaded it.elem).imp_stop hstop) ?_
    rintro elem _ ⟨rfl, hlt⟩
    exact founds_makeType he (hord.makes_pointer hlt)
  · refine .bind' ((hloaded it.elem).imp_stop hstop) ?_
    rintro elem _ ⟨rfl, hlt⟩
    obtain ⟨d, hmakes, -⟩ := hord.makes_addTagged { tag := .ofCode it.tag, data := it.data } hlt
    exact founds_makeType he hmakes
  · refine .bind' ((founds_loadedTypes he hids _).imp_stop hstop) ?_
    rintro fields _ ⟨rfl, hlt⟩
    refine .bind' (founds_makeType he (hord.makes_addStruct hlt)) fun id e₁ ⟨h₁, hid⟩ => ?_
    refine .ite' (fun _ => .bind_modify (.pure' ?_)) fun _ => .pure' ⟨h₁, hid⟩
    -- naming the fields of the struct that was made changes no type
    cases hn : e₁.types.setNames? id (it.names.getD []) with
    | none => exact ⟨h₁, hid⟩
    | some types =>
      have hnamed := h₁.1.tables.ordered.setNames? hn
      have hfounds : Founds e₁ { e₁ with types } := Rests.of_types (fun _ => hnamed) h₁.1
      exact ⟨h₁.trans hfounds, Nat.lt_of_lt_of_le hid hnamed.1.size_le⟩
  · refine .bind' ((founds_loadedTypes he hids _).imp_stop hstop) ?_
    rintro params _ ⟨rfl, hp⟩
    refine .bind' ((hloaded it.result).imp_stop hstop) ?_
    rintro result _ ⟨rfl, hr⟩
    obtain ⟨d, hmakes, -⟩ :=
      hord.makes_addSignature (s := { abi := .ofCode it.abi, params, result }) hr hp
    exact founds_makeType he hmakes
  · exact .throw' (.refl he)

theorem founds_loadTypes {ids : Array TypeId} (he : e.Founded)
    (hids : ∀ id ∈ ids, id < e.types.types.size) (its : List ImageType) :
    Ends (loadTypes ids its) e (fun _ e' => Founds e e') fun _ e' => Founds e e' := by
  induction its generalizing e ids with
  | nil => exact .pure' (.refl he)
  | cons it rest ih =>
    refine .bind' (founds_loadType he hids _ it) fun id e₁ ⟨h₁, hid⟩ => ?_
    have hids₁ : ∀ id' ∈ ids.push id, id' < e₁.types.types.size := by
      intro id' hmem
      rcases Array.mem_push.mp hmem with hmem | rfl
      · exact Nat.lt_of_lt_of_le (hids id' hmem) h₁.2.types.size_le
      · exact hid
    exact (ih h₁.1 hids₁).mono (fun _ _ h => h₁.trans h) fun _ _ h => h₁.trans h

theorem rests_loadTypes (its : List ImageType) : Leaves Rests (loadTypes #[] its) :=
  fun e he => ((founds_loadTypes (e := e) he (by simp) its).imp fun _ _ h => h).state

theorem rests_imageType (f : Func) (ids : Array TypeId) (ref : Int) :
    Leaves Rests (imageType f ids ref) := by
  refine .ite' (.pure' _) ?_
  cases (if ref < 0 then none else ids[ref.toNat - 1]?) with
  | none => exact .throw' _
  | some id => exact .pure' _

theorem rests_modifyFunc (fn : FuncId) {g : Func → Func}
    (hg : ∀ f, f.OfTypes e.tables.LaidOut → (g f).OfTypes e.tables.LaidOut) :
    e.Rests { e with funcs := e.funcs.modify (fn - 1) g } := by
  refine .of_values rfl fun he gn f' hf' => ?_
  unfold func? at hf'
  split at hf'
  · cases hf'
  · next hgn =>
    simp only [Array.getElem?_modify] at hf'
    have hvalues : ∀ f, e.funcs[gn - 1]? = some f → f.OfTypes e.tables.LaidOut :=
      fun f hf => he.values gn f (by rwa [func?, if_neg hgn])
    split at hf'
    · obtain ⟨f, hf, rfl⟩ := Option.map_eq_some_iff.mp hf'
      exact hg f (hvalues f hf)
    · exact hvalues f' hf'

theorem rests_loadValues (f : Func) (ids : Array TypeId) (vs : List ImageValue) :
    Leaves Rests (loadValues f ids vs) := by
  induction vs with
  | nil => exact .pure' _
  | cons v rest ih =>
    refine .bind' (rests_imageType f ids v.type) fun type e => Ends.state ?_
    have hrep : Ends (tryCatch (repOf type) fun err => throw (err.within f.name)) e
        (fun _ e' => e.Rests e' ∧ e'.tables.LaidOut type) fun _ e' => e.Rests e' :=
      .tryCatch' ((ends_repOf_laidOut type e).mono (fun _ _ h => ⟨h.1, h.2.2⟩) fun _ _ h => .throw' h)
    refine .bind' hrep fun rep e₁ ⟨h₁, hlaid⟩ => .bind_modify ?_
    have hadded := rests_modifyFunc (e := e₁) f.id (g := fun g =>
      (g.addValue { type, rep, origin := .ofCode v.origin, param := v.param, bits := v.bits,
                    addressable := v.addressable }).2) fun g hg => hg.addValue hlaid
    exact (ih.ends _).mono (fun _ _ h => Trans.trans (Trans.trans h₁ hadded) h)
      fun _ _ h => Trans.trans (Trans.trans h₁ hadded) h

theorem rests_loadParams (f : Func) (values : List ImageValue) (i : Nat) (owns ps : List ValueId) :
    Leaves Rests (loadParams f values i owns ps) := by
  induction owns generalizing i ps with
  | nil => exact .pure' _
  | cons own owns ih =>
    cases ps with
    | nil => exact .pure' _
    | cons p ps =>
      refine .ite' .bind_throw (.bind' (.modify' fun e => ?_) fun _ => ih (i + 1) ps)
      refine rests_modifyFunc f.id fun g hg v info hv => ?_
      unfold Func.value? at hv
      split at hv
      · cases hv
      · next hv0 =>
        simp only [Array.getElem?_modify] at hv
        split at hv
        · obtain ⟨info', hinfo', rfl⟩ := Option.map_eq_some_iff.mp hv
          exact hg v info' (by rwa [Func.value?, if_neg hv0])
        · exact hg v info (by rwa [Func.value?, if_neg hv0])

theorem rests_loadInsns (f : Func) (ids : Array TypeId) (valueCount labelCount pc : Nat)
    (is : List ImageInsn) : Leaves Rests (loadInsns f ids valueCount labelCount pc is) := by
  induction is generalizing pc with
  | nil => exact .pure' _
  | cons i rest ih =>
    have hrest : Leaves Rests (do
        if labelCount ≤ i.label then failIn f (.imageLabel pc i.label)
        let type ← imageType f ids i.type
        let insn : Insn :=
          { op := .ofCode i.op, dest := i.dest, a := i.a, b := i.b, args := i.args.getD [],
            label := i.label, offset := i.offset, type,
            callee := if i.selfCall then f.id else 0, native := i.native, math := .ofCode i.math,
            rep := { cls := .ofCode i.cls, size := i.size }, implicit := i.implicit }
        modifyFunc f.id (·.push insn)
        note (.point .insn ("insn:" ++ insn.op.name) f.name)
        loadInsns f ids valueCount labelCount (pc + 1) rest) := by
      refine .ite' .bind_throw (.bind' (rests_imageType f ids i.type) fun type => ?_)
      refine .bind' (.modify' fun e => rests_modifyFunc f.id fun g hg => hg.congr rfl) fun _ => ?_
      exact .bind' (quiet_note _) fun _ => ih (pc + 1)
    unfold loadInsns
    cases firstUnknown? valueCount (i.dest :: i.a :: i.b :: i.args.getD []) with
    | some v => exact .bind_throw
    | none => exact hrest

theorem rests_importImage (ctx : ContextId) (img : Option Image) :
    Leaves Rests (importImage ctx img) := by
  cases img with
  | none => exact .throw' _
  | some img =>
    refine .bind' .get' fun e => .ite' .bind_throw (.ite' .bind_throw ?_)
    refine .bind' (rests_loadTypes _) fun ids => .ite' .bind_throw ?_
    refine .bind' (rests_createFunction ctx _ img.name) fun fn => .bind' (quiet_ask _) fun f => ?_
    refine .ite' .bind_throw (.bind' (rests_loadValues f ids _) fun _ => ?_)
    refine .bind' (rests_loadParams f _ 0 f.params _) fun _ => ?_
    refine .bind' (.modify' fun e => rests_modifyFunc fn fun g hg => hg.congr rfl) fun _ => ?_
    refine .bind' (quiet_ask _) fun f' => .bind' (rests_loadInsns f ids _ _ 0 _) fun _ => ?_
    exact .bind' (rests_compile fn) fun _ => .pure' _

end EngineM

open EngineM Engine in
/-- No call of the engine, whether or not it succeeds, adds a type that does not rest on
others, or makes a value of an unknown type. -/
theorem EngineCall.rests {α : Type} {act : EngineM α} (h : EngineCall act) :
    Leaves Engine.Rests act := by
  cases h with
  | ask q => exact quiet_ask q
  | createContext => exact rests_createContext
  | destroyContext ctx => exact rests_destroyContext ctx
  | buildStart ctx => exact rests_buildStart ctx
  | buildEnd ctx => exact rests_buildEnd ctx
  | primitive n => exact quiet_primitive n
  | pointerType target => exact rests_pointerType target
  | structType fields => exact rests_structType fields
  | signatureType abi result params => exact rests_signatureType abi result params
  | taggedType base tag data => exact rests_taggedType base tag data
  | setFieldNames id names => exact rests_setFieldNames id names
  | field id i => exact quiet_field id i
  | fieldOffset id i => exact quiet_fieldOffset id i
  | layoutOf id => exact quiet_layoutOf id
  | repOf id => exact quiet_repOf id
  | registerNative name run => exact .modify' fun _ => .of_same rfl rfl
  | removeNative name => exact .modify' fun _ => .of_same rfl rfl
  | createFunction ctx sig name => exact rests_createFunction ctx sig name
  | importImage ctx img => exact rests_importImage ctx img
  | paramValue fn i => exact rests_paramValue fn i
  | valueInfo fn v => exact rests_valueInfo fn v
  | createValue fn type => exact rests_edits (.emits (Emit.edits_createLocal type))
  | setAddressable fn v => exact rests_edits (.emits (Emit.edits_setAddressable v))
  | constInt fn type n => exact rests_edits (.emits (Emit.edits_constant type _ .int))
  | constFloat32 fn type bits => exact rests_edits (.edits_constFloat32 type bits)
  | constFloat64 fn type bits => exact rests_edits (.edits_constFloat64 type bits)
  | newLabel fn => exact rests_edits (.emits Emit.edits_newLabel)
  | placeLabel fn l => exact rests_edits (.emits (Emit.edits_placeLabel l))
  | binary fn op a b => exact rests_edits (.edits_binary op a b)
  | unary fn op a => exact rests_edits (.edits_unary op a)
  | compare fn op a b => exact rests_edits (.edits_compare op a b)
  | toBool fn a => exact rests_edits (.emits (Emit.edits_test (by decide) a))
  | toNotBool fn a => exact rests_edits (.emits (Emit.edits_test (by decide) a))
  | convert fn a type => exact rests_edits (.emits (Emit.edits_convert a type))
  | store fn dest src => exact rests_edits (.emits (Emit.edits_store dest src))
  | addressOf fn v => exact rests_edits (.emits (Emit.edits_addressOf v))
  | loadRel fn ptr offset type => exact rests_edits (.emits (Emit.edits_loadRel ptr offset type))
  | storeRel fn ptr offset v => exact rests_edits (.emits (Emit.edits_storeRel ptr offset v))
  | loadElem fn base index type => exact rests_edits (.emits (Emit.edits_loadElem base index type))
  | storeElem fn base index v => exact rests_edits (.emits (Emit.edits_storeElem base index v))
  | alloca fn size => exact rests_edits (.emits (Emit.edits_alloca size))
  | branch fn l => exact rests_edits (.emits (Emit.edits_branch l))
  | branchIf fn cond l => exact rests_edits (.emits (Emit.edits_branchOn (by decide) cond l))
  | branchIfNot fn cond l => exact rests_edits (.emits (Emit.edits_branchOn (by decide) cond l))
  | ret fn v => exact rests_edits (.emits (Emit.edits_ret v))
  | defaultReturn fn => exact Into.defaultReturn.rests
  | call fn callee args => exact rests_edits (.edits_call callee args)
  | callNative fn name sig args => exact rests_edits (.emits (Emit.edits_callNative name sig args))
  | math fn op args => exact rests_edits (.emits (Emit.edits_math op args))
  | compile fn => exact rests_compile fn

end TypedIR
