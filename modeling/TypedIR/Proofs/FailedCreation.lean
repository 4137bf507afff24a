import TypedIR.Proofs.SealedFunctions

/-
  What is left of a creation that fails.

  Types, functions and images are checked while they are made, so not every creation is
  all or nothing. A pointer, a signature, a tagged type and a function are
  checked before anything is changed. A struct is in the table when its layout is worked
  out, and stays there when it has none. An image has its types, and the function it
  fills, made before the rest of it is looked at. `Creation.Residue` says what can be
  left, and `Creation.residue_of_failure` that nothing else is.
-/

namespace TypedIR

/-! ## Tables that were added to -/

/-- `t'` is `t` with entries added at the ends. -/
structure TypeTable.Extends (t t' : TypeTable) : Prop where
  types : t.types.toList <+: t'.types.toList
  structs : t.structs.toList <+: t'.structs.toList
  signatures : t.signatures.toList <+: t'.signatures.toList
  decorations : t.decorations.toList <+: t'.decorations.toList

namespace TypeTable

variable {t t' : TypeTable}

instance : Std.Refl Extends :=
  ⟨fun t => ⟨t.types.toList.prefix_refl, t.structs.toList.prefix_refl,
    t.signatures.toList.prefix_refl, t.decorations.toList.prefix_refl⟩⟩

instance : Trans Extends Extends Extends where
  trans h h' := ⟨h.types.trans h'.types, h.structs.trans h'.structs,
    h.signatures.trans h'.signatures, h.decorations.trans h'.decorations⟩

theorem prefix_push {α : Type} (xs : Array α) (x : α) : xs.toList <+: (xs.push x).toList := by
  rw [Array.toList_push]
  exact List.prefix_append _ _

theorem Extends.append (h : t.Extends t') (d : Descriptor) : t.Extends (t'.append d).2 :=
  ⟨h.types.trans (prefix_push _ _), h.structs, h.signatures, h.decorations⟩

theorem extends_intern (t : TypeTable) (d : Descriptor) : t.Extends (t.intern d).2 := by
  unfold intern
  split
  · exact Std.Refl.refl t
  · split
    · exact Std.Refl.refl t
    · exact (Std.Refl.refl t : t.Extends t).append d

theorem extends_addStruct (t : TypeTable) (fields : List TypeId) :
    t.Extends (t.addStruct fields).2 := by
  have hside : t.Extends { t with structs := t.structs.push (fields.map fun f => { type := f }) } :=
    ⟨List.prefix_rfl, prefix_push _ _, List.prefix_rfl, List.prefix_rfl⟩
  exact hside.append _

theorem extends_addSignature (t : TypeTable) (s : Signature) : t.Extends (t.addSignature s).2 := by
  unfold addSignature
  split
  · exact Std.Refl.refl t
  · have hside : t.Extends { t with signatures := t.signatures.push s } :=
      ⟨List.prefix_rfl, List.prefix_rfl, prefix_push _ _, List.prefix_rfl⟩
    exact hside.append _

theorem extends_addTagged (t : TypeTable) (base : TypeId) (deco : Decoration) :
    t.Extends (t.addTagged base deco).2 := by
  unfold addTagged
  split
  · exact Std.Refl.refl t
  · have hside : t.Extends { t with decorations := t.decorations.push deco } :=
      ⟨List.prefix_rfl, List.prefix_rfl, List.prefix_rfl, prefix_push _ _⟩
    exact hside.append _

/-- Naming the fields of the struct that was just made changes no other struct. -/
theorem extends_setNames (t : TypeTable) (fields : List TypeId) (names : List String) :
    t.Extends (((t.addStruct fields).2.setNames? (t.addStruct fields).1 names).getD
      (t.addStruct fields).2) := by
  have hadded := t.extends_addStruct fields
  unfold setNames?
  split
  · next d fs hd hfs =>
    have hslot : d.slot = t.structs.size := by
      unfold find? at hd
      split at hd
      · cases hd
      · have hnew : (t.addStruct fields).2.types[(t.addStruct fields).1]? =
            some { kind := .struct, slot := t.structs.size } := by
          simp [addStruct, append]
        rw [hnew] at hd
        exact (Option.some.inj hd) ▸ rfl
    refine ⟨hadded.types, ?_, hadded.signatures, hadded.decorations⟩
    rw [hslot]
    show t.structs.toList <+: ((t.structs.push _).setIfInBounds t.structs.size _).toList
    rw [Array.toList_setIfInBounds, Array.toList_push]
    have hlen : t.structs.size = t.structs.toList.length := rfl
    rw [hlen, List.set_append_right _ _ (Nat.le_refl _)]
    exact List.prefix_append _ _
  · exact hadded

end TypeTable

/-! ## Engines of which little changed -/

namespace Engine

/-- The types, the functions and the contexts with their functions are what they were. -/
def Intact (e e' : Engine) : Prop :=
  e'.types = e.types ∧ e'.funcs = e.funcs ∧ e'.contexts = e.contexts

instance : Std.Refl Intact := ⟨fun _ => ⟨rfl, rfl, rfl⟩⟩

instance : Trans Intact Intact Intact :=
  ⟨fun h h' => ⟨h'.1.trans h.1, h'.2.1.trans h.2.1, h'.2.2.trans h.2.2⟩⟩

instance : Aside Intact := ⟨fun _ _ _ => ⟨rfl, rfl, rfl⟩⟩

def Adds (e e' : Engine) : Prop :=
  e.types.Extends e'.types ∧ e'.funcs = e.funcs ∧ e'.contexts = e.contexts

instance : Std.Refl Adds := ⟨fun e => ⟨Std.Refl.refl e.types, rfl, rfl⟩⟩

instance : Trans Adds Adds Adds :=
  ⟨fun h h' => ⟨Trans.trans h.1 h'.1, h'.2.1.trans h.2.1, h'.2.2.trans h.2.2⟩⟩

instance : Aside Adds := ⟨fun e _ _ => ⟨Std.Refl.refl e.types, rfl, rfl⟩⟩

theorem Intact.adds {e e' : Engine} (h : e.Intact e') : e.Adds e' :=
  ⟨h.1.symm ▸ Std.Refl.refl e.types, h.2⟩

/-- One function was changed at most, and it is in its context and as open as it was. -/
def Refilled (fn : FuncId) (e e' : Engine) : Prop :=
  e'.types = e.types ∧ e'.contexts = e.contexts ∧
    ∃ g : Func → Func, (∀ f, (g f).ctx = f.ctx ∧ (g f).compiled = f.compiled) ∧
      e'.funcs = e.funcs.modify (fn - 1) g

theorem Refilled.of_intact {fn : FuncId} {e e' : Engine} (h : e.Intact e') : e.Refilled fn e' := by
  refine ⟨h.1, h.2.2, id, fun _ => ⟨rfl, rfl⟩, h.2.1.trans ?_⟩
  exact Array.ext_getElem? fun i => by simp [Array.getElem?_modify]

instance (fn : FuncId) : Std.Refl (Refilled fn) := ⟨fun e => .of_intact (Std.Refl.refl e)⟩

instance (fn : FuncId) : Trans (Refilled fn) (Refilled fn) (Refilled fn) where
  trans := by
    rintro e e' e'' ⟨ht, hc, g, hg, hf⟩ ⟨ht', hc', g', hg', hf'⟩
    refine ⟨ht'.trans ht, hc'.trans hc, g' ∘ g, fun f => ?_, ?_⟩
    · exact ⟨(hg' (g f)).1.trans (hg f).1, (hg' (g f)).2.trans (hg f).2⟩
    · rw [hf', hf]
      refine Array.ext_getElem? fun i => ?_
      simp only [Array.getElem?_modify]
      split <;> simp [Function.comp_def]

instance (fn : FuncId) : Aside (Refilled fn) := ⟨fun e _ _ => .of_intact (Aside.aside e _ _)⟩

end Engine

/-! ## Creations -/

/-- The calls that make a type or a function. -/
inductive Creation where
  | pointerType (target : TypeId)
  | structType (fields : List TypeId)
  | signatureType (abi : Abi) (result : TypeId) (params : List TypeId)
  | taggedType (base : TypeId) (tag : Tag) (data : String)
  | createFunction (ctx : ContextId) (sig : TypeId) (name : String)
  | importImage (ctx : ContextId) (img : Option Image)

/-- The image is of the version that is read, and for this target. -/
def Image.MeantFor (img : Image) (target : Target) : Prop :=
  img.version = Cause.currentImageVersion ∧ img.target = target.triple

/-- A function that is not compiled comes to the context. -/
def Engine.Opens (ctx : ContextId) (e e' : Engine) : Prop :=
  ∃ f : Func, f.ctx = ctx ∧ f.compiled = false ∧ e'.funcs = e.funcs.push f ∧
    e'.contexts = e.contexts.modify (ctx - 1) fun c =>
      { c with funcs := c.funcs ++ [e.funcs.size + 1] }

namespace Creation

def perform : Creation → EngineM Nat
  | .pointerType target => EngineM.pointerType target
  | .structType fields => EngineM.structType fields
  | .signatureType abi result params => EngineM.signatureType abi result params
  | .taggedType base tag data => EngineM.taggedType base tag data
  | .createFunction ctx sig name => EngineM.createFunction ctx sig name
  | .importImage ctx img => EngineM.importImage ctx img

/-- What a creation that failed can have changed of the types, the functions and the
contexts. A struct of known types may be there; so may types of an image that is meant
for the engine, and after them its function. -/
def Residue (e e' : Engine) : Creation → Prop
  | .structType fields => e.Intact e' ∨
      (∀ f ∈ fields, (e.types.find? f).isSome) ∧ e'.types = (e.types.addStruct fields).2 ∧
        e'.funcs = e.funcs ∧ e'.contexts = e.contexts
  | .importImage ctx img =>
      ((∀ i, img = some i → ¬ i.MeantFor e.target) → e.Intact e') ∧
      e.types.Extends e'.types ∧
      (e'.funcs = e.funcs ∧ e'.contexts = e.contexts ∨ e.Opens ctx e')
  | _ => e.Intact e'

end Creation

namespace EngineM

open Engine TypeTable

variable {e : Engine}

/-! ## Types -/

theorem ends_makeType (g : TypeTable → TypeId × TypeTable) (e : Engine)
    {stop : Failure → Engine → Prop} :
    Ends (makeType g) e (fun id e' => (g e.types).1 = id ∧ { e with types := (g e.types).2 } = e')
      stop :=
  .bind_get (.bind_set (.pure' ⟨rfl, rfl⟩))

theorem adds_makeType {g : TypeTable → TypeId × TypeTable} (hg : ∀ t : TypeTable, t.Extends (g t).2) :
    Leaves Adds (makeType g) :=
  .bind_get fun e => ⟨hg e.types, rfl, rfl⟩

theorem intact_makeType {α : Type} {check : EngineM α} (h : Leaves Intact check)
    (g : TypeTable → TypeId × TypeTable) (e : Engine) :
    Ends (do let _ ← check; makeType g) e (fun _ _ => True) fun _ e' => e.Intact e' :=
  .bind' ((h.ends e).imp fun _ _ _ => trivial) fun _ e' _ =>
    (ends_makeType g e').imp fun _ _ _ => trivial

theorem ends_knownTypes (types : List TypeId) (e : Engine) :
    Ends (types.forM knownType) e
      (fun _ e' => e = e' ∧ ∀ t ∈ types, (e.types.find? t).isSome) fun _ e' => e.Intact e' := by
  induction types with
  | nil => exact .pure' ⟨rfl, List.forall_mem_nil _⟩
  | cons t rest ih =>
    have hknown : Ends (knownType t) e (fun _ e' => e = e' ∧ (e.types.find? t).isSome)
        fun _ e' => e.Intact e' := by
      refine .bind_get (.ite' (fun _ => .throw' (Std.Refl.refl e)) fun h => .pure' ⟨rfl, ?_⟩)
      exact Option.isSome_iff_ne_none.mpr (by simpa using h)
    refine .bind' hknown ?_
    rintro _ _ ⟨rfl, ht⟩
    exact ih.imp fun _ _ h => ⟨h.1, List.forall_mem_cons.mpr ⟨ht, h.2⟩⟩

theorem ends_structType_refused (fields : List TypeId) (e : Engine) :
    Ends (structType fields) e (fun _ _ => True) fun _ e' =>
      (Creation.structType fields).Residue e e' := by
  refine .bind' ((ends_knownTypes fields e).imp_stop fun _ _ h => .inl h) ?_
  rintro _ _ ⟨rfl, hknown⟩
  refine .bind' (ends_makeType _ e) ?_
  rintro id _ ⟨-, rfl⟩
  have hlayout : ∀ id, Leaves Intact (layoutOf id) := quiet_layoutOf
  refine .bind' (((hlayout _).ends _).imp_stop ?_) ?_
  · exact fun _ e' h => .inr ⟨hknown, h.1, h.2⟩
  intro answer e' h
  cases answer with
  | ok l => exact .pure' trivial
  | error r => exact .throw' (.inr ⟨hknown, h.1, h.2⟩)

/-! ## Functions -/

theorem ends_createFunction_refused (ctx : ContextId) (sig : TypeId) (name : String) (e : Engine) :
    Ends (createFunction ctx sig name) e (fun _ _ => True) fun _ e' => e.Intact e' := by
  have hrefl : e.Intact e := Std.Refl.refl e
  have hnext : ∀ {β : Type} {act : EngineM β} e₁, Leaves Intact act → e.Intact e₁ →
      Ends act e₁ (fun _ e' => e.Intact e') fun _ e' => e.Intact e' :=
    fun e₁ h h₁ => (h.ends e₁).mono (fun _ _ h => Trans.trans h₁ h) fun _ _ h => Trans.trans h₁ h
  refine .bind_get ?_
  cases e.types.signature? sig with
  | none => exact .throw' hrefl
  | some s =>
    refine .bind' (hnext e (quiet_repOf s.result) hrefl) fun ret e₁ h₁ => ?_
    refine .ite' (fun _ => .bind_throw h₁) fun _ => ?_
    refine .bind' (hnext e₁ (quiet_paramReps 0 s.params) h₁) fun reps e₂ h₂ => ?_
    refine .bind' (hnext e₂ (quiet_liveContext ctx) h₂) fun _ e₃ h₃ => ?_
    refine .bind_get (.ite' (fun _ => .bind_throw h₃) fun _ => .bind_get ?_)
    exact .bind_modify (.bind_modify (.pure' trivial))

/-! ## Images -/

theorem adds_loadType (ids : Array TypeId) (n : Nat) (it : ImageType) :
    Leaves Adds (loadType ids n it) := by
  have href : ∀ ref, Leaves Adds (loadedType ids ref) := quiet_loadedType ids
  have hplain : ∀ d, Leaves Adds (makeType (·.intern d)) :=
    fun d => adds_makeType fun t => t.extends_intern d
  unfold loadType
  extract_lets ref
  cases Kind.ofCode it.kind
  case void => exact hplain _
  case int => exact hplain _
  case uint => exact hplain _
  case float => exact hplain _
  case pointer => exact .bind' (href _) fun _ => hplain _
  case tagged =>
    exact .bind' (href _) fun base => adds_makeType fun t => t.extends_addTagged base _
  case struct =>
    refine .bind' (.mapM' _ href) fun fields e => ?_
    -- the names are those of the struct that was just made
    refine Ends.state (.bind' (ends_makeType _ e) ?_)
    rintro _ _ ⟨rfl, rfl⟩
    refine .ite' (fun _ => ?_) fun _ => .pure' ⟨e.types.extends_addStruct fields, rfl, rfl⟩
    exact .bind_modify (.pure' ⟨e.types.extends_setNames fields _, rfl, rfl⟩)
  case signature =>
    refine .bind' (.mapM' _ href) fun params => .bind' (href _) fun result => ?_
    exact adds_makeType fun t => t.extends_addSignature _
  all_goals exact quiet_fail _

theorem adds_loadTypes (ids : Array TypeId) (its : List ImageType) :
    Leaves Adds (loadTypes ids its) := by
  induction its generalizing ids with
  | nil => exact .pure' _
  | cons it rest ih => exact .bind' (adds_loadType ids _ it) fun _ => ih _

theorem refills_refilled (fn : FuncId) : Refills (Refilled fn) fn :=
  fun g hg => .modify' fun _ => ⟨rfl, rfl, g, hg, rfl⟩

theorem ends_compile_refused (fn : FuncId) (e : Engine) :
    Ends (compile fn) e (fun _ _ => True) fun _ e' => e.Intact e' := by
  refine (ends_compile fn e).mono (fun _ _ _ => trivial) ?_
  rintro _ _ ⟨⟨notes, rfl⟩, -⟩
  exact ⟨rfl, rfl, rfl⟩

theorem ends_fillFromImage_refused {f : Func} {fn : FuncId} (hid : f.id = fn) (ids : Array TypeId)
    (img : Image) (e : Engine) :
    Ends (fillFromImage f fn ids img) e (fun _ _ => True) fun _ e' => e.Refilled fn e' := by
  subst hid
  have hnext : ∀ {β : Type} {act : EngineM β} e₁, Leaves (Refilled f.id) act →
      e.Refilled f.id e₁ → Ends act e₁ (fun _ e' => e.Refilled f.id e') fun _ e' => e.Refilled f.id e' :=
    fun e₁ h h₁ => (h.ends e₁).mono (fun _ _ h => Trans.trans h₁ h) fun _ _ h => Trans.trans h₁ h
  have hrefills := refills_refilled f.id
  refine .bind' (hnext e (refills_loadValues hrefills _ _) (Std.Refl.refl e)) fun _ e₁ h₁ => ?_
  refine .bind' (hnext e₁ (refills_loadParams hrefills _ _ _ _) h₁) fun _ e₂ h₂ => ?_
  refine .bind' (hnext e₂ (hrefills _ fun _ => ⟨rfl, rfl⟩) h₂) fun _ e₃ h₃ => ?_
  refine .bind' (hnext e₃ (quiet_ask (·.findOpen f.id)) h₃) fun _ e₄ h₄ => ?_
  refine .bind' (hnext e₄ (refills_loadInsns hrefills _ _ _ _ _) h₄) fun _ e₅ h₅ => ?_
  refine .bind' ((ends_compile_refused f.id e₅).imp_stop fun _ _ h => ?_)
    fun _ _ _ => .pure' trivial
  have hlast : Refilled f.id e₅ _ := .of_intact h
  exact Trans.trans h₅ hlast

theorem ends_importImage_refused (ctx : ContextId) (img : Option Image) (e : Engine) :
    Ends (importImage ctx img) e (fun _ _ => True) fun _ e' =>
      (Creation.importImage ctx img).Residue e e' := by
  have hrefl : e.Intact e := Std.Refl.refl e
  cases img with
  | none => exact .throw' ⟨fun _ => hrefl, hrefl.adds.1, .inl hrefl.2⟩
  | some img =>
    refine .bind_get ?_
    refine .ite' (fun _ => .bind_throw ⟨fun _ => hrefl, hrefl.adds.1, .inl hrefl.2⟩) fun hv => ?_
    refine .ite' (fun _ => .bind_throw ⟨fun _ => hrefl, hrefl.adds.1, .inl hrefl.2⟩) fun ht => ?_
    have hmeant : ∀ {p : Prop}, (∀ i, some img = some i → ¬ i.MeantFor e.target) → p :=
      fun h => (h img rfl ⟨not_not.mp hv, not_not.mp ht⟩).elim
    have hadds : ∀ {e'}, e.Adds e' → (Creation.importImage ctx (some img)).Residue e e' :=
      fun h => ⟨hmeant, h.1, .inl h.2⟩
    refine .bind' (((adds_loadTypes #[] _).ends e).imp_stop fun _ _ h => hadds h) ?_
    intro ids e₁ h₁
    refine .ite' (fun _ => .bind_throw (hadds h₁)) fun _ => ?_
    have hcreate := (ends_createFunction_refused ctx (ids.getD (img.sig.toNat - 1) 0) img.name e₁).and'
      ((ends_founding ctx (ids.getD (img.sig.toNat - 1) 0) img.name e₁).and'
        (ends_createFunction ctx (ids.getD (img.sig.toNat - 1) 0) img.name e₁))
    refine .bind' (hcreate.imp_stop fun _ _ h => hadds (Trans.trans h₁ h.1.adds)) ?_
    rintro fn e₂ ⟨-, ⟨e', c, f, hstill, hfounds⟩, hfn, htypes, f', hf', hfresh⟩
    have hfuncs : e'.funcs = e.funcs := hstill.1.trans h₁.2.1
    have hpush : e₂.funcs = e.funcs.push f := by rw [hfounds.funcs, hfuncs]
    have hcontexts : e₂.contexts = e.contexts.modify (ctx - 1) fun c =>
        { c with funcs := c.funcs ++ [e.funcs.size + 1] } := by
      rw [hfounds.contexts, hfuncs, hstill.2.1, h₁.2.2]
    rw [h₁.2.1] at hfn hf'
    obtain rfl : f' = f := (Array.push_eq_push.mp (hf'.symm.trans hpush)).1
    have hresidue : ∀ {e₃}, e₂.Refilled fn e₃ →
        (Creation.importImage ctx (some img)).Residue e e₃ := by
      rintro e₃ ⟨htypes', hcontexts', g, hg, hfuncs'⟩
      have hext : e.types.Extends e₃.types := (htypes'.trans htypes) ▸ h₁.1
      refine ⟨hmeant, hext, .inr ⟨g f', (hg f').1.trans hfounds.home, (hg f').2.trans hfresh.compiled,
        ?_, hcontexts'.trans hcontexts⟩⟩
      rw [hfuncs', hpush, hfn, Nat.add_sub_cancel]
      refine Array.ext_getElem? fun i => ?_
      rw [Array.getElem?_modify, Array.getElem?_push, Array.getElem?_push]
      by_cases hi : i = e.funcs.size
      · rw [if_pos hi, if_pos hi, if_pos hi.symm]
        rfl
      · rw [if_neg hi, if_neg hi, if_neg (Ne.symm hi)]
    have hmade := hresidue (Std.Refl.refl e₂)
    refine ends_ask (fun f'' hopen => ?_) fun _ => hmade
    refine .ite' (fun _ => .bind_throw hmade) fun _ => ?_
    have hid : f''.id = fn := by
      have hget := (func?_lt (findOpen_ok hopen).1).2.1
      rw [hpush, hfn, Nat.add_sub_cancel, Array.getElem?_push_size] at hget
      exact Option.some.inj hget ▸ hfresh.id
    exact (ends_fillFromImage_refused hid ids img e₂).imp_stop fun _ _ h => hresidue h

end EngineM

/-- Whatever creation fails, what it can have changed is its residue. In particular a
pointer, a signature, a tagged type and a function are made whole or not at all. -/
theorem Creation.residue_of_failure {c : Creation} {e e' : Engine} {err : Failure}
    (h : (c.perform.run e : Except Failure Nat × Engine) = (.error err, e')) : c.Residue e e' := by
  have hends : Ends c.perform e (fun _ _ => True) fun _ e' => c.Residue e e' := by
    cases c with
    | pointerType target => exact EngineM.intact_makeType (EngineM.quiet_knownType target) _ e
    | structType fields => exact EngineM.ends_structType_refused fields e
    | signatureType abi result params =>
      have hresult : Leaves Engine.Intact (EngineM.knownType result) := EngineM.quiet_knownType result
      refine .bind' ((hresult.ends e).imp fun _ _ h => h) fun _ e₁ h₁ => ?_
      have hparams : Leaves Engine.Intact (params.forM EngineM.knownType) :=
        .forM' params EngineM.quiet_knownType
      refine (EngineM.intact_makeType hparams _ e₁).imp_stop fun _ e₂ h => ?_
      have h₂ : e.Intact e₂ := Trans.trans h₁ h
      exact h₂
    | taggedType base tag data => exact EngineM.intact_makeType (EngineM.quiet_knownType base) _ e
    | createFunction ctx sig name => exact EngineM.ends_createFunction_refused ctx sig name e
    | importImage ctx img => exact EngineM.ends_importImage_refused ctx img e
  exact hends.stop_of_run h

def refusing : Engine :=
  (Engine.create .amd64 0 0 (.seeded 1) 0).after [.createContext, .buildStart 1]

def strayImage : Image :=
  { version := Cause.currentImageVersion, target := "x86_64-linux-gnu", name := "stray", sig := 2
    types := some [{ kind := Kind.int.code, width := 32 },
      { kind := Kind.signature.code, result := 1 }]
    values := some [{}], labels := some [-1], insns := some [{ op := Opcode.ret.code, a := 1 }] }

/-- What is left of that image when it is refused is a residue. -/
theorem stray_residue : ∃ err e', ((Creation.importImage 1 (some strayImage)).perform.run refusing :
    Except Failure Nat × Engine) = (.error err, e') ∧
      (Creation.importImage 1 (some strayImage)).Residue refusing e' := by
  have hfails : ((Creation.importImage 1 (some strayImage)).perform.run refusing :
      Except Failure Nat × Engine).1.isOk = false := by decide +kernel
  rcases hr : ((Creation.importImage 1 (some strayImage)).perform.run refusing :
    Except Failure Nat × Engine) with ⟨err | fn, e'⟩
  · exact ⟨err, e', rfl, Creation.residue_of_failure hr⟩
  · rw [hr] at hfails
    cases hfails

/-- A struct of something that has no size is refused and stays in the table. The image
leaves the type of its signature, and its function, which is in the list of the
context. -/
theorem refused_and_left :
    (∃ err e', ((Creation.structType [Builtin.void.id]).perform.run refusing :
      Except Failure Nat × Engine) = (.error err, e') ∧
        e'.types.size = refusing.types.size + 1) ∧
    ∃ err e', ((Creation.importImage 1 (some strayImage)).perform.run refusing :
      Except Failure Nat × Engine) = (.error err, e') ∧
        e'.types.size = refusing.types.size + 1 ∧ refusing.funcs.size = 0 ∧ e'.funcs.size = 1 ∧
        refusing.contexts = #[{}] ∧ e'.contexts = #[{ funcs := [1] }] := by
  constructor
  · have hcheck : (match ((Creation.structType [Builtin.void.id]).perform.run refusing :
        Except Failure Nat × Engine) with
      | (.error _, e') => e'.types.size == refusing.types.size + 1
      | _ => false) = true := by decide +kernel
    rcases hr : ((Creation.structType [Builtin.void.id]).perform.run refusing :
      Except Failure Nat × Engine) with ⟨err | fn, e'⟩ <;> rw [hr] at hcheck
    · exact ⟨err, e', rfl, beq_iff_eq.mp hcheck⟩
    · cases hcheck
  · have hcheck : (match ((Creation.importImage 1 (some strayImage)).perform.run refusing :
        Except Failure Nat × Engine) with
      | (.error _, e') => decide (e'.types.size = refusing.types.size + 1 ∧
          refusing.funcs.size = 0 ∧ e'.funcs.size = 1 ∧
          refusing.contexts = #[{}] ∧ e'.contexts = #[{ funcs := [1] }])
      | _ => false) = true := by decide +kernel
    rcases hr : ((Creation.importImage 1 (some strayImage)).perform.run refusing :
      Except Failure Nat × Engine) with ⟨err | fn, e'⟩ <;> rw [hr] at hcheck
    · exact ⟨err, e', rfl, of_decide_eq_true hcheck⟩
    · cases hcheck

end TypedIR
