import TypedIR.Proofs.EngineEdits
import TypedIR.Proofs.History

/-
  Compiled functions are sealed, and functions do not interfere.

  Whatever builds into a function asks for it first: the function has to be
  there, not compiled, and of the context that holds the build cursor. So an
  operation that names a function can change that one only
  (`Engine.Touches`), and it succeeds only on a function that is open
  (`EngineM.Writes`). The tables of functions and contexts stay consistent
  along the way (`Engine.Housed`): a context owns functions of its own only,
  and the context that holds the cursor is alive.
-/

namespace TypedIR

/-! ## What can be asked of an engine -/

/-- The function that an operation builds into. -/
def Operation.writes? : Operation → Option FuncId
  | .createValue fn _ | .setAddressable fn _ | .constInt fn _ _ | .constFloat32 fn _ _
  | .constFloat64 fn _ _ | .newLabel fn | .placeLabel fn _ | .binary fn _ _ _ | .unary fn _ _
  | .compare fn _ _ _ | .toBool fn _ | .toNotBool fn _ | .convert fn _ _ | .store fn _ _
  | .addressOf fn _ | .loadRel fn _ _ _ | .storeRel fn _ _ _ | .loadElem fn _ _ _
  | .storeElem fn _ _ _ | .alloca fn _ | .branch fn _ | .branchIf fn _ _ | .branchIfNot fn _ _
  | .ret fn _ | .defaultReturn fn | .call fn _ _ | .callNative fn _ _ _ | .math fn _ _ => some fn
  | _ => none

def Operation.target? : Operation → Option FuncId
  | .compile fn => some fn
  | op => op.writes?

/-- Everything a client may do with an engine: call its operations, load images,
ask about types and functions, and run code. -/
inductive Action where
  | operation (op : Operation)
  | importImage (ctx : ContextId) (img : Option Image)
  | primitive (n : Nat)
  | field (id : TypeId) (i : Int)
  | fieldOffset (id : TypeId) (i : Int)
  | paramValue (fn : FuncId) (i : Int)
  | valueInfo (fn : FuncId) (v : ValueId)
  | apply (fn : FuncId) (args : List Word)

namespace Action

def perform : Action → RunM Unit
  | .operation op => RunM.ofEngine op.perform
  | .importImage ctx img => RunM.ofEngine (discard (EngineM.importImage ctx img))
  | .primitive n => RunM.ofEngine (discard (EngineM.primitive n))
  | .field id i => RunM.ofEngine (discard (EngineM.field id i))
  | .fieldOffset id i => RunM.ofEngine (discard (EngineM.fieldOffset id i))
  | .paramValue fn i => RunM.ofEngine (discard (EngineM.paramValue fn i))
  | .valueInfo fn v => RunM.ofEngine (discard (EngineM.valueInfo fn v))
  | .apply fn args => discard (RunM.apply fn args)

def writes? : Action → Option FuncId
  | .operation op => op.writes?
  | _ => none

def target? : Action → Option FuncId
  | .operation op => op.target?
  | _ => none

def Succeeds (a : Action) (e : Engine) : Prop :=
  (a.perform.run e : Except (Halt Failure) Unit × Engine).1 = .ok ()

end Action

def Engine.acted (e : Engine) (a : Action) : Engine :=
  ((a.perform.run e : Except (Halt Failure) Unit × Engine)).2

/-- The engines that clients can have. -/
inductive Engine.Arises : Engine → Prop
  | created (target : Target) (maxSteps maxDepth : Int) (rng : Generator) (clock : Int) :
    Arises (.create target maxSteps maxDepth rng clock)
  | acted {e : Engine} (h : Arises e) (a : Action) : Arises (e.acted a)

/-! ## Relations of engines -/

namespace Engine

/-- Functions, contexts and the cursor are what they were. -/
def Still (e e' : Engine) : Prop :=
  e'.funcs = e.funcs ∧ e'.contexts = e.contexts ∧ e'.building = e.building

instance : Std.Refl Still := ⟨fun _ => ⟨rfl, rfl, rfl⟩⟩

instance : Trans Still Still Still :=
  ⟨fun h h' => ⟨h'.1.trans h.1, h'.2.1.trans h.2.1, h'.2.2.trans h.2.2⟩⟩

instance : Aloof Still := ⟨fun _ _ _ _ _ _ => ⟨rfl, rfl, rfl⟩⟩

/-- Contexts and the cursor are what they were, and every function is in the context
it was in. -/
structure SameHomes (e e' : Engine) : Prop where
  contexts : e'.contexts = e.contexts
  building : e'.building = e.building
  home : ∀ fn, (e'.func? fn).map Func.ctx = (e.func? fn).map Func.ctx

instance : Std.Refl SameHomes := ⟨fun _ => ⟨rfl, rfl, fun _ => rfl⟩⟩

instance : Trans SameHomes SameHomes SameHomes where
  trans h h' := ⟨h'.contexts.trans h.contexts, h'.building.trans h.building,
    fun fn => (h'.home fn).trans (h.home fn)⟩

instance : Aloof SameHomes := ⟨fun _ _ _ _ _ _ => ⟨rfl, rfl, fun _ => rfl⟩⟩

/-- Only the function `g` may change, and that only as long as it is not compiled. -/
structure Touches (g : FuncId) (e e' : Engine) : Prop where
  others : ∀ fn, fn ≠ g → e'.func? fn = e.func? fn
  sealed : ∀ f, e.func? g = some f → f.compiled = true → e'.func? g = some f
  homes : e.SameHomes e'

instance (g : FuncId) : Std.Refl (Touches g) :=
  ⟨fun e => ⟨fun _ _ => rfl, fun _ h _ => h, Std.Refl.refl e⟩⟩

instance (g : FuncId) : Trans (Touches g) (Touches g) (Touches g) where
  trans h h' := ⟨fun fn hfn => (h'.others fn hfn).trans (h.others fn hfn),
    fun f hf hc => h'.sealed f (h.sealed f hf hc) hc, Trans.trans h.homes h'.homes⟩

instance (g : FuncId) : Aloof (Touches g) where
  aloof e types layouts host natives notes :=
    ⟨fun _ _ => rfl, fun _ h _ => h, Aloof.aloof e types layouts host natives notes⟩

/-- A context owns functions of its own only, no function is without a context, and
the context that holds the cursor is alive. -/
structure Housed (e : Engine) : Prop where
  cursor : e.building ≠ 0 → ∃ c, e.context? e.building = some c ∧ c.destroyed = false
  home : ∀ fn f, e.func? fn = some f → f.ctx ≠ 0
  owned : ∀ ctx c, e.context? ctx = some c → ∀ fn ∈ c.funcs,
    ∃ f, e.func? fn = some f ∧ f.ctx = ctx

variable {e e' : Engine} {g : FuncId}

theorem Still.func? (h : e.Still e') (fn : FuncId) : e'.func? fn = e.func? fn :=
  SameCode.func? h.1 fn

theorem Still.touches (h : e.Still e') : e.Touches g e' where
  others fn _ := h.func? fn
  sealed _ hf _ := (h.func? g).trans hf
  homes := ⟨h.2.1, h.2.2, fun fn => congrArg _ (h.func? fn)⟩

instance (g : FuncId) : Trans Still (Touches g) (Touches g) where
  trans h h' :=
    have htouch : Touches g _ _ := h.touches
    Trans.trans htouch h'

theorem Still.findOpen (h : e.Still e') (fn : FuncId) : e'.findOpen fn = e.findOpen fn := by
  unfold Engine.findOpen Engine.findFunc
  rw [h.func? fn, h.2.2]

theorem touches_of_set {f f' : Func} (hf : e.findOpen g = .ok f)
    (hset : e'.funcs = e.funcs.setIfInBounds (g - 1) f') (hctx : f'.ctx = f.ctx)
    (hcontexts : e'.contexts = e.contexts) (hbuilding : e'.building = e.building) :
    e.Touches g e' := by
  obtain ⟨hfunc, -, hopen, -⟩ := EngineM.findOpen_ok hf
  have hafter := fun fn => func?_set hfunc fn e' hset
  refine ⟨fun fn hfn => ?_, fun f₁ hf₁ hc => ?_, hcontexts, hbuilding, fun fn => ?_⟩
  · rw [hafter, if_neg hfn]
  · obtain rfl := Option.mem_unique hfunc hf₁
    exact absurd (hc.symm.trans hopen) nofun
  · rw [hafter]
    split
    · next hfn => rw [hfn, hfunc, Option.map_some, Option.map_some, hctx]
    · rfl

/-- The function `g` was open, and it alone may change. -/
def Writes (g : FuncId) (e e' : Engine) : Prop :=
  e.Touches g e' ∧ ∃ f, e.findOpen g = .ok f

instance (g : FuncId) : Trans Still (Writes g) (Writes g) where
  trans h h' := ⟨Trans.trans h h'.1, h'.2.imp fun _ hf => (h.findOpen g).symm.trans hf⟩

theorem Housed.congr (h : e.Housed) (hs : e.SameHomes e') : e'.Housed := by
  have hcontext : ∀ ctx, e'.context? ctx = e.context? ctx := by
    intro ctx
    unfold Engine.context?
    rw [hs.contexts]
  have hback : ∀ fn f', e'.func? fn = some f' → ∃ f, e.func? fn = some f ∧ f.ctx = f'.ctx := by
    intro fn f' hf'
    apply Option.map_eq_some_iff.mp
    rw [← hs.home fn, hf', Option.map_some]
  have hforth : ∀ fn f, e.func? fn = some f → ∃ f', e'.func? fn = some f' ∧ f'.ctx = f.ctx := by
    intro fn f hf
    apply Option.map_eq_some_iff.mp
    rw [hs.home fn, hf, Option.map_some]
  refine ⟨fun hb => ?_, fun fn f' hf' => ?_, fun ctx c hc fn hfn => ?_⟩
  · rw [hcontext, hs.building]
    exact h.cursor (hs.building ▸ hb)
  · obtain ⟨f, hf, hctx⟩ := hback fn f' hf'
    exact hctx ▸ h.home fn f hf
  · obtain ⟨f, hf, hctx⟩ := h.owned ctx c ((hcontext ctx).symm.trans hc) fn hfn
    obtain ⟨f', hf', hctx'⟩ := hforth fn f hf
    exact ⟨f', hf', hctx'.trans hctx⟩

theorem context?_modify {k : ContextState → ContextState} {ctx : ContextId} (h0 : ctx ≠ 0)
    (h : e'.contexts = e.contexts.modify (ctx - 1) k) (id : ContextId) :
    e'.context? id = if id = ctx then (e.context? id).map k else e.context? id := by
  unfold Engine.context?
  rw [h]
  by_cases hid : id = 0
  · simp [hid, h0.symm]
  · have hsame : (ctx - 1 = id - 1) = (id = ctx) := by
      unfold ContextId at *
      rw [eq_iff_iff]
      omega
    simp only [hid, Array.getElem?_modify, hsame, if_false]

/-- A context, `c` before, is destroyed with all its functions. -/
structure Destroys (id : ContextId) (c : ContextState) (e e' : Engine) : Prop where
  context : e.context? id = some c
  contexts : e'.contexts = e.contexts.modify (id - 1) ({ · with destroyed := true })
  funcs : e'.funcs =
    c.funcs.foldl (fun fs fid => fs.modify (fid - 1) ({ · with destroyed := true })) e.funcs
  building : e'.building = if e.building = id then 0 else e.building

theorem context?_ne_zero {ctx : ContextId} {c : ContextState} (h : e.context? ctx = some c) :
    ctx ≠ 0 := by
  intro h0
  subst h0
  cases h

theorem Destroys.housed {id : ContextId} {c : ContextState} (hd : e.Destroys id c e')
    (h : e.Housed) : e'.Housed := by
  have hcontext := context?_modify (context?_ne_zero hd.context) hd.contexts
  have hfunc := func?_destroy c.funcs hd.funcs
  refine ⟨fun hb => ?_, fun fn f hf => ?_, fun ctx c' hc' fn hfn => ?_⟩
  · -- the cursor is left alone only if it is at another context
    rw [hd.building] at hb ⊢
    have hne : e.building ≠ id := fun he => hb (if_pos he)
    rw [if_neg hne] at hb ⊢
    obtain ⟨c', hc', hlive⟩ := h.cursor hb
    exact ⟨c', by rw [hcontext, if_neg hne, hc'], hlive⟩
  · rw [hfunc] at hf
    obtain ⟨f', hf', rfl⟩ := Option.map_eq_some_iff.mp hf
    exact h.home fn f' hf'
  · obtain ⟨c'', hc'', hfuncs⟩ : ∃ c'', e.context? ctx = some c'' ∧ c''.funcs = c'.funcs := by
      rw [hcontext] at hc'
      split at hc'
      · obtain ⟨c'', hc'', rfl⟩ := Option.map_eq_some_iff.mp hc'
        exact ⟨c'', hc'', rfl⟩
      · exact ⟨c', hc', rfl⟩
    obtain ⟨f, hf, hctx⟩ := h.owned ctx c'' hc'' fn (hfuncs ▸ hfn)
    rw [hfunc, hf]
    exact ⟨_, rfl, hctx⟩

theorem Destroys.spares {id : ContextId} {c : ContextState} (hd : e.Destroys id c e')
    (h : e.Housed) {fn : FuncId} {f : Func} (hf : e.func? fn = some f) (hctx : f.ctx ≠ id) :
    e'.func? fn = some f := by
  have hout : fn - 1 ∉ c.funcs.map (· - 1) := by
    intro hin
    obtain ⟨gn, hgn, hsame⟩ := List.mem_map.mp hin
    obtain ⟨f', hf', hctx'⟩ := h.owned id c hd.context gn hgn
    obtain rfl : gn = fn := Nat.sub_one_cancel (func?_lt hf').1 (func?_lt hf).1 hsame
    obtain rfl := Option.mem_unique hf hf'
    exact hctx hctx'
  rw [func?_destroy c.funcs hd.funcs, hf, Option.map_some]
  simp [hout]

theorem func?_push {f : Func} (h : e'.funcs = e.funcs.push f) (fn : FuncId) :
    e'.func? fn = if fn = e.funcs.size + 1 then some f else e.func? fn := by
  unfold Engine.func?
  rw [h, Array.getElem?_push]
  by_cases hfn : fn = 0
  · simp [hfn]
  · have hlast : (fn - 1 = e.funcs.size) = (fn = e.funcs.size + 1) := by
      unfold FuncId at *
      rw [eq_iff_iff]
      omega
    simp only [hfn, hlast, if_false]

instance : Aloof (Onward Housed) where
  aloof e types layouts host natives notes :=
    fun h => h.congr (Aloof.aloof e types layouts host natives notes)

/-- Every function is there and is what it was, and the tables stay consistent. -/
structure Retains (e e' : Engine) : Prop where
  func : ∀ fn f, e.func? fn = some f → e'.func? fn = some f
  housed : e.Housed → e'.Housed

instance : Std.Refl Retains := ⟨fun _ => ⟨fun _ _ h => h, id⟩⟩

instance : Trans Retains Retains Retains :=
  ⟨fun h h' => ⟨fun fn f hf => h'.func fn f (h.func fn f hf), h'.housed ∘ h.housed⟩⟩

instance : Aloof Retains where
  aloof e types layouts host natives notes :=
    ⟨fun _ _ h => h, fun h => h.congr (Aloof.aloof e types layouts host natives notes)⟩

/-- A function comes to a context that is alive and holds the cursor. -/
structure Founds (ctx : ContextId) (c : ContextState) (f : Func) (e e' : Engine) : Prop where
  context : e.context? ctx = some c
  live : c.destroyed = false
  home : f.ctx = ctx
  funcs : e'.funcs = e.funcs.push f
  contexts : e'.contexts =
    e.contexts.modify (ctx - 1) fun c => { c with funcs := c.funcs ++ [e.funcs.size + 1] }
  building : e'.building = e.building

theorem Founds.housed {ctx : ContextId} {c : ContextState} {f : Func} (hf : e.Founds ctx c f e')
    (h : e.Housed) : e'.Housed := by
  have h0 := context?_ne_zero hf.context
  have hcontext := context?_modify h0 hf.contexts
  have hfunc := func?_push hf.funcs
  have hold : ∀ fn g, e.func? fn = some g → e'.func? fn = some g :=
    fun fn g hg => (SameBelow.of_push hf.funcs _).func? hg
  refine ⟨fun hb => ?_, fun fn g hg => ?_, fun id c' hc' fn hfn => ?_⟩
  · rw [hf.building] at hb ⊢
    obtain ⟨c', hc', hlive⟩ := h.cursor hb
    rw [hcontext, hc']
    split
    · exact ⟨_, rfl, hlive⟩
    · exact ⟨c', rfl, hlive⟩
  · rw [hfunc] at hg
    split at hg
    · obtain rfl := Option.some.inj hg
      exact hf.home ▸ h0
    · exact h.home fn g hg
  · rw [hcontext] at hc'
    split at hc'
    · next hid =>
      -- the context owns what it owned, and the new function
      subst hid
      rw [hf.context] at hc'
      obtain rfl := Option.some.inj hc'
      rcases List.mem_append.mp hfn with hfn | hfn
      · obtain ⟨g, hg, hctx⟩ := h.owned id c hf.context fn hfn
        exact ⟨g, hold fn g hg, hctx⟩
      · exact ⟨f, by rw [hfunc, if_pos (List.mem_singleton.mp hfn)], hf.home⟩
    · obtain ⟨g, hg, hctx⟩ := h.owned id c' hc' fn hfn
      exact ⟨g, hold fn g hg, hctx⟩

end Engine

/-! ## Operations that build into a function -/

namespace EngineM

open Engine

variable {α β : Type} {g : FuncId}

/-- An operation that builds into the function `g`: it touches no other, and `g` was
open if it succeeds. -/
def Writes (g : FuncId) (act : EngineM α) : Prop :=
  ∀ e, Ends act e (fun _ e' => e.Writes g e') fun _ e' => e.Touches g e'

theorem Into.writes {act : EngineM α} (h : Into g Bench.InPlace Bench.InPlace act) : Writes g act :=
  have hput : ∀ (e : Engine) f b, e.findOpen g = .ok f → (e.bench f).InPlace b →
      e.Touches g (e.put g b) :=
    fun _ _ _ hf hb => touches_of_set hf rfl hb.ctx rfl rfl
  h.ends (fun _ _ (h : Still _ _) => h.touches) (fun e f b hf hb => ⟨hput e f b hf hb, f, hf⟩) hput

end EngineM

open EngineM in
/-- An operation that names a function runs an emitter on it. -/
theorem Operation.into_perform {op : Operation} {g : FuncId} (h : op.writes? = some g) :
    Into g Bench.InPlace Bench.InPlace op.perform := by
  unfold perform
  cases op with
  | createValue _ type => cases h; exact Into.inPlace (.discard (.emits (Emit.edits_createLocal type)))
  | setAddressable _ v => cases h; exact Into.inPlace (.emits (Emit.edits_setAddressable v))
  | constInt _ type n => cases h; exact Into.inPlace (.discard (.emits (Emit.edits_constant type _ .int)))
  | constFloat32 _ type bits => cases h; exact Into.inPlace (.discard (.edits_constFloat32 type bits))
  | constFloat64 _ type bits => cases h; exact Into.inPlace (.discard (.edits_constFloat64 type bits))
  | newLabel => cases h; exact Into.inPlace (.discard (.emits Emit.edits_newLabel))
  | placeLabel _ l => cases h; exact Into.inPlace (.emits (Emit.edits_placeLabel l))
  | binary _ op a b => cases h; exact Into.inPlace (.discard (.edits_binary (.ofCode op) a b))
  | unary _ op a => cases h; exact Into.inPlace (.discard (.edits_unary (.ofCode op) a))
  | compare _ op a b => cases h; exact Into.inPlace (.discard (.edits_compare (.ofCode op) a b))
  | toBool _ a => cases h; exact Into.inPlace (.discard (.emits (Emit.edits_test (by decide) a)))
  | toNotBool _ a => cases h; exact Into.inPlace (.discard (.emits (Emit.edits_test (by decide) a)))
  | convert _ a type => cases h; exact Into.inPlace (.discard (.emits (Emit.edits_convert a type)))
  | store _ dest src => cases h; exact Into.inPlace (.emits (Emit.edits_store dest src))
  | addressOf _ v => cases h; exact Into.inPlace (.discard (.emits (Emit.edits_addressOf v)))
  | loadRel _ ptr offset type =>
    cases h; exact Into.inPlace (.discard (.emits (Emit.edits_loadRel ptr offset type)))
  | storeRel _ ptr offset v => cases h; exact Into.inPlace (.emits (Emit.edits_storeRel ptr offset v))
  | loadElem _ base index type =>
    cases h; exact Into.inPlace (.discard (.emits (Emit.edits_loadElem base index type)))
  | storeElem _ base index v => cases h; exact Into.inPlace (.emits (Emit.edits_storeElem base index v))
  | alloca _ size => cases h; exact Into.inPlace (.discard (.emits (Emit.edits_alloca size)))
  | branch _ l => cases h; exact Into.inPlace (.emits (Emit.edits_branch l))
  | branchIf _ cond l => cases h; exact Into.inPlace (.emits (Emit.edits_branchOn (by decide) cond l))
  | branchIfNot _ cond l => cases h; exact Into.inPlace (.emits (Emit.edits_branchOn (by decide) cond l))
  | ret _ v => cases h; exact Into.inPlace (.emits (Emit.edits_ret v))
  | defaultReturn => cases h; exact .discard .defaultReturn
  | call _ callee args => cases h; exact Into.inPlace (.discard (.edits_call callee args))
  | callNative _ name sig args =>
    cases h; exact Into.inPlace (.discard (.emits (Emit.edits_callNative name sig args)))
  | math _ op args => cases h; exact Into.inPlace (.discard (.emits (Emit.edits_math (.ofCode op) args)))
  | _ => cases h

theorem Operation.writes_perform {op : Operation} {g : FuncId} (h : op.writes? = some g) :
    EngineM.Writes g op.perform :=
  (into_perform h).writes

/-! ## The other operations -/

namespace EngineM

open Engine

variable {g : FuncId}

theorem touches_compile (g : FuncId) : Leaves (Touches g) (compile g) :=
  leaves_compile fun _ _ _ hf => touches_of_set hf rfl rfl rfl rfl

theorem refills_sameHomes (fn : FuncId) : Refills SameHomes fn := by
  refine fun k hk => .modify' fun e => ⟨rfl, rfl, fun id => ?_⟩
  unfold Engine.func?
  split
  · rfl
  · show ((e.funcs.modify (fn - 1) k)[id - 1]?).map Func.ctx = (e.funcs[id - 1]?).map Func.ctx
    rw [Array.getElem?_modify]
    split
    · rw [Option.map_map]
      congr 1
      funext f
      exact (hk f).1
    · rfl

theorem ends_liveContext (id : ContextId) (e : Engine) :
    Ends (liveContext id) e
      (fun c e' => e' = e ∧ e.context? id = some c ∧ c.destroyed = false)
      fun _ e' => e' = e ∧ ∀ c, e.context? id = some c → c.destroyed = true := by
  refine .bind_get ?_
  cases hc : e.context? id with
  | none => exact .throw' ⟨rfl, nofun⟩
  | some c =>
    refine .ite' (fun h => .throw' ⟨rfl, fun c' hc' => ?_⟩) fun h => .pure' ⟨rfl, rfl, by simpa using h⟩
    exact Option.some.inj hc' ▸ h

theorem housed_createContext : Leaves (Onward Housed) createContext := by
  refine .bind' (.modify' fun e h => ?_) fun _ => .bind' .get' fun _ => .pure' _
  -- the new context owns nothing, and the others are where they were
  have hcontext : ∀ id c, Engine.context? { e with contexts := e.contexts.push {} } id = some c →
      e.context? id = some c ∨ c.funcs = [] := by
    intro id c hc
    unfold Engine.context? at hc ⊢
    split at hc
    · cases hc
    · next h0 =>
      rw [Array.getElem?_push] at hc
      split at hc
      · exact .inr (Option.some.inj hc ▸ rfl)
      · exact .inl (by rw [if_neg h0]; exact hc)
  refine ⟨fun hb => ?_, h.home, fun ctx c hc fn hfn => ?_⟩
  · obtain ⟨c, hc, hlive⟩ := h.cursor hb
    refine ⟨c, ?_, hlive⟩
    unfold Engine.context? at hc ⊢
    rw [if_neg hb] at hc ⊢
    have hlt := lt_of_getElem? hc
    rw [Array.getElem?_push_lt hlt, ← hc]
    exact (Array.getElem?_eq_getElem hlt).symm
  · rcases hcontext ctx c hc with hc | hnone
    · exact h.owned ctx c hc fn hfn
    · rw [hnone] at hfn
      cases hfn

theorem housed_buildStart (id : ContextId) : Leaves (Onward Housed) (buildStart id) := by
  refine fun e => Ends.state (.bind' ((ends_liveContext id e).imp_stop ?_) ?_)
  · intro _ e' ⟨he, _⟩
    subst he
    exact Std.Refl.refl e'
  · intro c e' ⟨he, hc, hlive⟩
    subst he
    refine .bind_get (.ite' (fun _ => .bind_throw (Std.Refl.refl e')) fun _ => .modify' fun h => ?_)
    exact ⟨fun _ => ⟨c, hc, hlive⟩, h.home, h.owned⟩

theorem housed_buildEnd (id : ContextId) : Leaves (Onward Housed) (buildEnd id) := by
  refine .bind' .get' fun _ => .ite' (.bind' (.throw' _) fun _ => ?_) ?_ <;>
    exact .modify' fun e h => ⟨fun hb => absurd rfl hb, h.home, h.owned⟩

theorem ends_destroyContext (id : ContextId) (e : Engine) :
    Ends (destroyContext id) e (fun _ e' => ∃ c, e.Destroys id c e') fun _ e' => e' = e := by
  refine .bind' ((ends_liveContext id e).imp_stop fun _ _ h => h.1) ?_
  intro c e' ⟨he, hc, _⟩
  subst he
  exact .modify' ⟨c, hc, rfl, rfl, rfl⟩

theorem ends_founding (ctx : ContextId) (sig : TypeId) (name : String) (e : Engine) :
    Ends (createFunction ctx sig name) e (fun _ e' => ∃ e₁ c f, e.Still e₁ ∧ e₁.Founds ctx c f e')
      fun _ e' => e.Still e' := by
  have hrefl : e.Still e := Std.Refl.refl e
  have hquiet : ∀ {β : Type} {act : EngineM β} e₁, Leaves Still act → e.Still e₁ →
      Ends act e₁ (fun _ e' => e.Still e') fun _ e' => e.Still e' :=
    fun e₁ h h₁ => (h.ends e₁).mono (fun _ _ h => Trans.trans h₁ h) fun _ _ h => Trans.trans h₁ h
  refine .bind_get ?_
  cases e.types.signature? sig with
  | none => exact .throw' hrefl
  | some s =>
    refine .bind' (hquiet e (quiet_repOf s.result) hrefl) fun ret e₁ h₁ => ?_
    refine .ite' (fun _ => .bind_throw h₁) fun _ => ?_
    refine .bind' (hquiet e₁ (quiet_paramReps 0 s.params) h₁) fun reps e₂ h₂ => ?_
    refine .bind' ((ends_liveContext ctx e₂).imp_stop ?_) ?_
    · intro _ e' ⟨he', _⟩
      exact he' ▸ h₂
    intro c e₃ ⟨he₃, hc, hlive⟩
    subst he₃
    refine .bind_get (.ite' (fun _ => .bind_throw h₂) fun hb => .bind_get ?_)
    exact .bind_modify (.bind_modify (.pure' ⟨e₃, c, _, h₂, hc, hlive, rfl, rfl, rfl, rfl⟩))

theorem housed_createFunction (ctx : ContextId) (sig : TypeId) (name : String) :
    Leaves (Onward Housed) (createFunction ctx sig name) := by
  refine fun e => Ends.state ((ends_founding ctx sig name e).mono ?_ ?_)
  · intro _ e' ⟨e₁, c, f, h₁, hfounds⟩ h
    exact hfounds.housed (h.congr (h₁.touches (g := 0)).homes)
  · exact fun _ e' h₁ h => h.congr (h₁.touches (g := 0)).homes

theorem housed_importImage (ctx : ContextId) (img : Option Image) :
    Leaves (Onward Housed) (importImage ctx img) := by
  refine fun e => Ends.state ?_
  have hrefl : Onward Housed e e := Std.Refl.refl e
  have hrest : ∀ {β : Type} {act : EngineM β} {e₁}, Onward Housed e e₁ →
      Leaves (Onward Housed) act → Ends act e₁ (fun _ => Onward Housed e) fun _ => Onward Housed e :=
    fun h₁ h => (h.ends _).mono (fun _ _ h => Trans.trans h₁ h) fun _ _ h => Trans.trans h₁ h
  cases img with
  | none => exact .throw' hrefl
  | some img =>
    refine .bind_get (.ite' (fun _ => .bind_throw hrefl) fun _ => ?_)
    refine .ite' (fun _ => .bind_throw hrefl) fun _ => ?_
    refine .bind' (hrest hrefl (quiet_loadTypes #[] _)) fun ids e₁ h₁ => ?_
    refine .ite' (fun _ => .bind_throw h₁) fun _ => ?_
    refine .bind' (hrest h₁ (housed_createFunction ctx _ img.name)) fun fn e₂ h₂ => ?_
    refine ends_ask (fun f hf => ?_) fun _ => h₂
    refine .ite' (fun _ => .bind_throw h₂) fun _ => ?_
    have hfill : Leaves SameHomes (fillFromImage f fn ids img) :=
      refills_fillFromImage (refills_sameHomes f.id) (refills_sameHomes fn)
        ((touches_compile fn).mono fun _ _ h => h.homes) ids img
    exact hrest h₂ (hfill.mono fun _ _ hs h => h.congr hs)

theorem retains_of {α : Type} {act : EngineM α}
    (hbelow : ∀ e : Engine, e.SameBelow e.funcs.size (act.run e : Except Failure α × Engine).2)
    (hhoused : Leaves (Onward Housed) act) : Leaves Retains act :=
  fun e => ⟨fun _ _ hf => (hbelow e).func? hf, hhoused e⟩

theorem retains_of_same {α : Type} {act : EngineM α} (hcode : Leaves SameCode act)
    (hhoused : Leaves (Onward Housed) act) : Leaves Retains act :=
  retains_of (fun e => below_of_same hcode _ e) hhoused

end EngineM

open EngineM in
/-- An operation that builds into no function adds types, or changes names, layouts, the host
or natives, unless it is about a context or makes a function. -/
theorem Operation.quiet_perform {op : Operation} (hnone : op.target? = none)
    {step : Engine → Engine → Prop} [Std.Refl step] [Trans step step step] [Engine.Aloof step]
    (hnew : Leaves step EngineM.createContext) (hstart : ∀ ctx, Leaves step (EngineM.buildStart ctx))
    (hend : ∀ ctx, Leaves step (EngineM.buildEnd ctx))
    (hdestroy : ∀ ctx, op = .destroyContext ctx → Leaves step (EngineM.destroyContext ctx))
    (hcreate : ∀ ctx sig name, op = .createFunction ctx sig name →
      Leaves step (EngineM.createFunction ctx sig name)) : Leaves step op.perform := by
  unfold perform
  cases op with
  | createContext => exact .bind' hnew fun _ => .pure' _
  | destroyContext ctx => exact hdestroy ctx rfl
  | createFunction ctx sig name => exact .bind' (hcreate ctx sig name rfl) fun _ => .pure' _
  | buildStart ctx => exact hstart ctx
  | buildEnd ctx => exact hend ctx
  | pointerType target => exact .bind' (quiet_pointerType target) fun _ => .pure' _
  | structType fields => exact .bind' (quiet_structType fields) fun _ => .pure' _
  | signatureType abi result params =>
    exact .bind' (quiet_signatureType _ result params) fun _ => .pure' _
  | taggedType base tag data => exact .bind' (quiet_taggedType base _ data) fun _ => .pure' _
  | setFieldNames id names => exact quiet_setFieldNames id names
  | layoutOf id => exact .bind' (quiet_layoutOf id) fun _ => .pure' _
  | changeHost change => exact .modify' fun e => Engine.Aloof.aloof e _ _ _ _ _
  | registerNative name run => exact quiet_registerNative name run
  | removeNative name => exact quiet_removeNative name
  | _ => cases hnone

open EngineM in
/-- Operations that build into no function and destroy no context change no function. -/
theorem Operation.retains_perform {op : Operation} (hnone : op.target? = none)
    (hdestroy : ∀ ctx, op ≠ .destroyContext ctx) : Leaves Engine.Retains op.perform :=
  quiet_perform hnone (retains_of_same sameCode_createContext housed_createContext)
    (fun ctx => retains_of_same (sameCode_buildStart ctx) (housed_buildStart ctx))
    (fun ctx => retains_of_same (sameCode_buildEnd ctx) (housed_buildEnd ctx))
    (fun ctx h => absurd h (hdestroy ctx)) fun ctx sig name _ =>
      retains_of (fun e => below_createFunction ctx sig name _ e) (housed_createFunction ctx sig name)

theorem Operation.touches_perform {op : Operation} {g : FuncId} (h : op.target? = some g) :
    Leaves (Engine.Touches g) op.perform := by
  have hwrites : op.writes? = some g → Leaves (Engine.Touches g) op.perform := fun hw e =>
    Ends.state ((writes_perform hw e).imp fun _ _ h => h.1)
  cases op with
  | compile fn =>
    cases h
    exact EngineM.touches_compile g
  | _ => exact hwrites h

/-! ## Actions -/

namespace Action

open EngineM RunM

theorem touches_perform {a : Action} {g : FuncId} (h : a.target? = some g) :
    Leaves (Engine.Touches g) a.perform := by
  cases a with
  | operation op => exact leaves_ofEngine (Operation.touches_perform h)
  | _ => cases h

theorem retains_perform {a : Action} (hnone : a.target? = none)
    (hdestroy : ∀ ctx, a ≠ .operation (.destroyContext ctx)) :
    Leaves Engine.Retains a.perform := by
  cases a with
  | operation op =>
    refine leaves_ofEngine (Operation.retains_perform hnone fun ctx hop => ?_)
    exact hdestroy ctx (congrArg Action.operation hop)
  | importImage ctx img =>
    exact leaves_ofEngine (.bind' (retains_of (below_importImage ctx img)
      (housed_importImage ctx img)) fun _ => .pure' _)
  | primitive n => exact leaves_ofEngine (.bind' (quiet_primitive n) fun _ => .pure' _)
  | field id i => exact leaves_ofEngine (.bind' (quiet_field id i) fun _ => .pure' _)
  | fieldOffset id i => exact leaves_ofEngine (.bind' (quiet_fieldOffset id i) fun _ => .pure' _)
  | paramValue fn i => exact leaves_ofEngine (.bind' (quiet_paramValue fn i) fun _ => .pure' _)
  | valueInfo fn v => exact leaves_ofEngine (.bind' (quiet_valueInfo fn v) fun _ => .pure' _)
  | apply fn args => exact .bind' (quiet_apply fn args) fun _ => .pure' _

theorem ends_destroyContext (ctx : ContextId) (e : Engine) :
    (∃ c, e.Destroys ctx c (e.acted (.operation (.destroyContext ctx)))) ∨
      e.acted (.operation (.destroyContext ctx)) = e := by
  have hends : Ends (Action.operation (.destroyContext ctx)).perform e
      (fun _ e' => (∃ c, e.Destroys ctx c e') ∨ e' = e)
      fun _ e' => (∃ c, e.Destroys ctx c e') ∨ e' = e :=
    RunM.ends_ofEngine ((EngineM.ends_destroyContext ctx e).mono (fun _ _ h => .inl h)
      fun _ _ h => .inr h)
  exact hends.state

theorem open_of_succeeds {a : Action} {g : FuncId} {e : Engine} (h : a.writes? = some g)
    (hok : a.Succeeds e) : ∃ f, e.findOpen g = .ok f := by
  cases a with
  | operation op =>
    have hends : Ends (Action.operation op).perform e (fun _ _ => ∃ f, e.findOpen g = .ok f)
        fun _ _ => True :=
      RunM.ends_ofEngine ((Operation.writes_perform h e).mono (fun _ _ h => h.2) fun _ _ _ => trivial)
    unfold Succeeds at hok
    unfold Ends at hends
    rcases hr : ((Action.operation op).perform.run e : Except (Halt Failure) Unit × Engine) with
      ⟨_ | _, e'⟩ <;> rw [hr] at hok hends
    · cases hok
    · exact hends
  | _ => cases h

end Action

namespace Engine

variable {e : Engine}

theorem Arises.housed (h : e.Arises) : e.Housed := by
  induction h with
  | created target maxSteps maxDepth rng clock =>
    refine ⟨fun hb => absurd rfl hb, fun fn f hf => ?_, fun ctx c hc => ?_⟩
    · simp [create, Engine.func?] at hf
    · simp [create, Engine.context?] at hc
  | @acted e _ a ih =>
    cases htarget : a.target? with
    | some g => exact ih.congr (Action.touches_perform htarget e).homes
    | none =>
      by_cases hdestroy : ∃ ctx, a = .operation (.destroyContext ctx)
      · obtain ⟨ctx, ha⟩ := hdestroy
        subst ha
        rcases Action.ends_destroyContext ctx e with ⟨c, hd⟩ | hsame
        · exact hd.housed ih
        · rwa [hsame]
      · exact (Action.retains_perform htarget (not_exists.mp hdestroy) e).housed ih

/-- Compiled functions are sealed and functions do not interfere. A function that is
compiled, or that the action does not build into, stays exactly what it was unless its
context is destroyed; an action that builds into a function or compiles it changes no
other; and it puts something into the function only if the function is not compiled and
its context is alive and holds the cursor. -/
theorem Arises.sealed (h : e.Arises) (a : Action) :
    (∀ fn f, e.func? fn = some f → f.compiled = true ∨ a.target? ≠ some fn →
      a ≠ .operation (.destroyContext f.ctx) → (e.acted a).func? fn = some f) ∧
    (∀ g, a.target? = some g → ∀ fn, fn ≠ g → (e.acted a).func? fn = e.func? fn) ∧
    (∀ g, a.writes? = some g → a.Succeeds e → ∃ f c, e.func? g = some f ∧ f.compiled = false ∧
      e.context? f.ctx = some c ∧ c.destroyed = false ∧ e.building = f.ctx) := by
  refine ⟨fun fn f hf hsealed hdestroy => ?_, fun g hg => ?_, fun g hg hok => ?_⟩
  · cases htarget : a.target? with
    | some g =>
      have htouch : e.Touches g (e.acted a) := Action.touches_perform htarget e
      by_cases hfn : fn = g
      · subst hfn
        exact htouch.sealed f hf (hsealed.resolve_right fun hne => hne htarget)
      · exact (htouch.others fn hfn).trans hf
    | none =>
      by_cases hany : ∃ ctx, a = .operation (.destroyContext ctx)
      · obtain ⟨ctx, ha⟩ := hany
        subst ha
        rcases Action.ends_destroyContext ctx e with ⟨c, hd⟩ | hsame
        · exact hd.spares h.housed hf fun hctx => hdestroy (hctx ▸ rfl)
        · rwa [hsame]
      · exact (Action.retains_perform htarget (not_exists.mp hany) e).func fn f hf
  · exact (Action.touches_perform hg e).others
  · obtain ⟨f, hf⟩ := Action.open_of_succeeds hg hok
    obtain ⟨hfunc, -, hopen, hcursor⟩ := EngineM.findOpen_ok hf
    -- the cursor is at the context of the function, so the context is alive
    have hctx : e.building ≠ 0 := hcursor ▸ h.housed.home g f hfunc
    obtain ⟨c, hc, hlive⟩ := h.housed.cursor hctx
    exact ⟨f, c, hfunc, hopen, hcursor ▸ hc, hlive, hcursor⟩

end Engine

/-- An engine with a compiled function, which gives 7 back, and one that is open. -/
def sealing : Engine :=
  ([.createContext, .buildStart 1, .signatureType 0 Builtin.int32.id [], .createFunction 1 18 "seven",
    .constInt 1 Builtin.int32.id 7, .ret 1 1, .compile 1, .createFunction 1 18 "next",
    .createValue 2 Builtin.int32.id] : List Operation).foldl (fun e op => e.acted (.operation op))
    (.create .amd64 0 0 (.seeded 1) 0)

/-- A label of the open function leaves the compiled one alone, which takes none. -/
theorem sealing_seals : sealing.Arises ∧
    (∃ f, sealing.func? 1 = some f ∧ f.compiled = true ∧
      (sealing.acted (.operation (.newLabel 2))).func? 1 = some f ∧
      (sealing.acted (.operation (.newLabel 1))).func? 1 = some f) ∧
    (∃ f c, sealing.func? 2 = some f ∧ f.compiled = false ∧ sealing.context? f.ctx = some c ∧
      c.destroyed = false ∧ sealing.building = f.ctx) := by
  have harises : sealing.Arises := by
    unfold sealing
    iterate 9 apply Engine.Arises.acted
    exact .created _ _ _ _ _
  have hcompiled : (sealing.func? 1).any (·.compiled) = true := by decide +kernel
  have hok : (Action.operation (.newLabel 2)).Succeeds sealing := by
    have hanswer : ((Action.operation (.newLabel 2)).perform.run sealing :
        Except (Halt Failure) Unit × Engine).1.isOk = true := by decide +kernel
    unfold Action.Succeeds
    cases hrun : ((Action.operation (.newLabel 2)).perform.run sealing :
        Except (Halt Failure) Unit × Engine).1 with
    | ok => rfl
    | error => simp [hrun, Except.isOk, Except.toBool] at hanswer
  generalize sealing = e at harises hcompiled hok ⊢
  obtain ⟨f, hf, hc⟩ : ∃ f, e.func? 1 = some f ∧ f.compiled = true := by
    cases hf : e.func? 1 with
    | none => simp [hf] at hcompiled
    | some f => exact ⟨f, rfl, by simpa [hf] using hcompiled⟩
  have hlabel (g : FuncId) := harises.sealed (.operation (.newLabel g))
  exact ⟨harises, ⟨f, hf, hc, (hlabel 2).1 1 f hf (.inl hc) nofun,
    (hlabel 1).1 1 f hf (.inl hc) nofun⟩, (hlabel 2).2.2 2 rfl hok⟩

end TypedIR
