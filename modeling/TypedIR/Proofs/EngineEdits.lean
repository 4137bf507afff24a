import TypedIR.Image
import TypedIR.Proofs.FunctionEdits
import TypedIR.Proofs.MachineRuns

/-
  What the engine does to its functions.

  Most operations leave the functions alone (`Engine.SameCode`). Emitters edit
  one function that is open, destroying a context marks functions, and images
  are loaded into a function of their own; so whatever a client does, functions
  only evolve (`Engine.Evolves`). Compiling and the return at the end are the
  exceptions, and are described exactly.
-/

namespace TypedIR

/-- What becomes of a function while it is neither compiled nor given a return
at its end: as long as it is open it is edited, and then its code stays. -/
structure Func.Becomes (f f' : Func) : Prop where
  ret : f'.ret = f.ret
  compiled : f'.compiled = f.compiled
  frozen : f.compiled = true → f'.insns = f.insns ∧ f'.labels = f.labels
  labels : f.LabelsInside → f'.LabelsInside
  returns : f.ReturnsOperands → f'.ReturnsOperands

namespace Func

theorem Becomes.refl (f : Func) : f.Becomes f :=
  ⟨rfl, rfl, fun _ => ⟨rfl, rfl⟩, fun h => h, fun h => h⟩

theorem Becomes.trans {f g h : Func} (hfg : f.Becomes g) (hgh : g.Becomes h) : f.Becomes h where
  ret := hgh.ret.trans hfg.ret
  compiled := hgh.compiled.trans hfg.compiled
  frozen hc :=
    have hg := hgh.frozen (hfg.compiled.trans hc)
    have hf := hfg.frozen hc
    ⟨hg.1.trans hf.1, hg.2.trans hf.2⟩
  labels hf := hgh.labels (hfg.labels hf)
  returns hf := hgh.returns (hfg.returns hf)

theorem Edits.becomes {f f' : Func} (h : f.Edits f') (hopen : f.compiled = false) :
    f.Becomes f' :=
  ⟨h.same.2.1, h.same.2.2, fun hc => absurd (hc.symm.trans hopen) nofun, h.labelsInside,
    h.returnsOperands⟩

theorem becomes_destroyed (f : Func) (destroyed : Bool) : f.Becomes { f with destroyed } :=
  ⟨rfl, rfl, fun _ => ⟨rfl, rfl⟩, fun h => h, fun h => h⟩

end Func

/-- Compiling leaves the code alone. -/
structure Func.Finishes (f f' : Func) : Prop where
  ret : f'.ret = f.ret
  insns : f'.insns = f.insns
  labels : f'.labels = f.labels
  compiled : f'.compiled = true

/-- A function that was just made: it has no code, and gives nothing back if the
result of its signature is no value. -/
structure Func.Fresh (t : TypeTable) (sig : TypeId) (id : FuncId) (f : Func) : Prop where
  id : f.id = id
  insns : f.insns = #[]
  labels : f.labels = #[-1]
  compiled : f.compiled = false
  ret : ∃ s, t.signature? sig = some s ∧
    ∀ d, t.find? (t.underlying s.result) = some d → d.kind = .void → f.ret.cls = .void

namespace Engine

def SameCode (e e' : Engine) : Prop := e'.funcs = e.funcs

instance : Std.Refl SameCode := ⟨fun _ => rfl⟩

instance : Trans SameCode SameCode SameCode := ⟨fun h h' => h'.trans h⟩

def SameTables (e e' : Engine) : Prop := e'.funcs = e.funcs ∧ e'.types = e.types

instance : Std.Refl SameTables := ⟨fun _ => ⟨rfl, rfl⟩⟩

instance : Trans SameTables SameTables SameTables :=
  ⟨fun h h' => ⟨h'.1.trans h.1, h'.2.trans h.2⟩⟩

def SameBelow (n : Nat) (e e' : Engine) : Prop :=
  ∀ k f, k < n → e.funcs[k]? = some f → e'.funcs[k]? = some f

instance (n : Nat) : Std.Refl (SameBelow n) := ⟨fun _ _ _ _ h => h⟩

instance (n : Nat) : Trans (SameBelow n) (SameBelow n) (SameBelow n) :=
  ⟨fun h h' k f hk hf => h' k f hk (h k f hk hf)⟩

/-- The bench on which an emitter is given the function `f`. -/
def bench (e : Engine) (f : Func) : Bench :=
  { target := e.target, types := e.types, layouts := e.layouts, func := f }

/-- The engine with the function of a bench put in its place, and with what else the
bench changed. -/
def put (e : Engine) (fn : FuncId) (b : Bench) : Engine :=
  { e with
    types := b.types
    layouts := b.layouts
    funcs := e.funcs.setIfInBounds (fn - 1) b.func
    notes := e.notes ++ b.notes }

def Evolves (e e' : Engine) : Prop :=
  ∀ fn f, e.func? fn = some f → ∃ f', e'.func? fn = some f' ∧ f.Becomes f'

instance : Std.Refl Evolves := ⟨fun _ _ f h => ⟨f, h, .refl f⟩⟩

instance : Trans Evolves Evolves Evolves where
  trans h h' fn f hf := by
    obtain ⟨g, hg, hfg⟩ := h fn f hf
    obtain ⟨f', hf', hgf⟩ := h' fn g hg
    exact ⟨f', hf', hfg.trans hgf⟩

variable {e e' : Engine}

theorem SameCode.func? (h : e.SameCode e') (fn : FuncId) : e'.func? fn = e.func? fn := by
  unfold SameCode at h
  simp only [Engine.func?, h]

theorem SameCode.below (h : e.SameCode e') (n : Nat) : e.SameBelow n e' := by
  intro k f _ hf
  unfold SameCode at h
  rwa [h]

theorem SameBelow.of_push {f : Func} (h : e'.funcs = e.funcs.push f) (n : Nat) :
    e.SameBelow n e' := by
  intro k g _ hg
  obtain ⟨hlt, hget⟩ := Array.getElem?_eq_some_iff.mp hg
  rw [h, Array.getElem?_push_lt hlt, hget]

theorem func?_destroy (ids : List FuncId)
    (h : e'.funcs =
      ids.foldl (fun fs fid => fs.modify (fid - 1) ({ · with destroyed := true })) e.funcs)
    (fn : FuncId) : e'.func? fn = (e.func? fn).map fun f =>
      { f with destroyed := f.destroyed || decide (fn - 1 ∈ ids.map (· - 1)) } := by
  unfold Engine.func?
  split
  · rfl
  · rw [h, EngineM.getElem?_destroy]

theorem SameBelow.func? (h : e.SameBelow e.funcs.size e') {fn : FuncId} {f : Func}
    (hf : e.func? fn = some f) : e'.func? fn = some f := by
  obtain ⟨hpos, hget, hlt⟩ := func?_lt hf
  unfold Engine.func?
  rw [if_neg (Nat.ne_of_gt hpos)]
  exact h _ f hlt hget

theorem SameBelow.evolves (h : e.SameBelow e.funcs.size e') : e.Evolves e' :=
  fun _ f hf => ⟨f, h.func? hf, .refl f⟩

theorem SameCode.evolves (h : e.SameCode e') : e.Evolves e' := (h.below _).evolves

theorem Evolves.of_set {fn : FuncId} {f f' : Func} (hf : e.func? fn = some f)
    (hset : e'.funcs = e.funcs.setIfInBounds (fn - 1) f') (h : f.Becomes f') : e.Evolves e' := by
  intro gn g hg
  rw [func?_set hf gn e' hset]
  split
  · next he =>
    obtain rfl := Option.mem_unique hf (he ▸ hg)
    exact ⟨f', rfl, h⟩
  · exact ⟨g, hg, .refl g⟩

end Engine

namespace Engine

/-- A step relation that an engine takes when it makes a note and when it is asked for a
layout. -/
class Asking (step : Engine → Engine → Prop) : Prop where
  noted : ∀ (e : Engine) notes, step e { e with notes }
  asked : ∀ (e : Engine) id,
    step e { e with layouts := ((Layout.layoutOf e.target e.types id).run e.layouts).2 }

/-- A step relation that does not look at the layouts and the notes of an engine. -/
class Aside (step : Engine → Engine → Prop) : Prop where
  aside : ∀ (e : Engine) layouts notes, step e { e with layouts, notes }

instance {step : Engine → Engine → Prop} [Aside step] : Asking step :=
  ⟨fun e notes => Aside.aside e e.layouts notes, fun e _ => Aside.aside e _ e.notes⟩

/-- A step relation that does not look at the types, the layouts, the host, the natives
and the notes of an engine. -/
class Aloof (step : Engine → Engine → Prop) : Prop where
  aloof : ∀ (e : Engine) types layouts host natives notes,
    step e { e with types, layouts, host, natives, notes }

instance {step : Engine → Engine → Prop} [Aloof step] : Aside step :=
  ⟨fun e layouts notes => Aloof.aloof e e.types layouts e.host e.natives notes⟩

/-- A step relation that an engine takes also when its host changes. -/
class Hosting (step : Engine → Engine → Prop) : Prop extends Asking step where
  hosted : ∀ (e : Engine) host, step e { e with host }

instance {step : Engine → Engine → Prop} [Aloof step] : Hosting step :=
  ⟨fun e host => Aloof.aloof e e.types e.layouts host e.natives e.notes⟩

instance : Aside SameTables := ⟨fun _ _ _ => ⟨rfl, rfl⟩⟩

instance : Aloof SameCode := ⟨fun _ _ _ _ _ _ => rfl⟩

instance (n : Nat) : Aloof (SameBelow n) := ⟨fun _ _ _ _ _ _ _ _ _ h => h⟩

instance : Aloof Evolves := ⟨fun _ _ _ _ _ _ _ f h => ⟨f, h, .refl f⟩⟩

end Engine

namespace EngineM

open Engine

variable {α β : Type}

/-! ## Operations that leave the functions alone -/

section

-- every operation here needs some of what follows, and few need all of it
set_option linter.unusedSectionVars false

variable {step : Engine → Engine → Prop} [Std.Refl step] [Trans step step step] [Asking step]

theorem quiet_fail (c : Cause) : Leaves step (fail c : EngineM α) := .throw' _

theorem quiet_note (n : Trace.Note) : Leaves step (note n) :=
  .modify' fun e => Asking.noted e _

theorem quiet_ask (q : Engine → Except Failure α) : Leaves step (ask q) := by
  refine .bind' .get' fun e => ?_
  cases q e with
  | ok a => exact .pure' a
  | error err => exact .throw' err

theorem quiet_liveContext (id : ContextId) : Leaves step (liveContext id) := by
  refine .bind' .get' fun e => ?_
  cases e.context? id with
  | none => exact .throw' _
  | some c => exact .ite' (.throw' _) (.pure' c)

theorem quiet_layoutOf (id : TypeId) : Leaves step (layoutOf id) :=
  .bind_get fun e => Asking.asked e id

theorem ends_repOf_laidOut (id : TypeId) (e : Engine) :
    Ends (repOf id) e (fun _ e' => step e e' ∧ e'.types = e.types ∧ e'.tables.LaidOut id)
      fun _ => step e := by
  refine .bind_get ?_
  have hstep : step e { e with layouts := ((e.types.findRep e.target id).run e.layouts).2 } := by
    rcases e.types.findRep_asks e.target id e.layouts with h | ⟨k, h⟩ <;> rw [h]
    · exact Std.Refl.refl e
    · exact Asking.asked e k
  have hlaid : ∀ r, ((e.types.findRep e.target id).run e.layouts).1 = .ok r →
      (Tables.mk e.target e.types ((e.types.findRep e.target id).run e.layouts).2).LaidOut id :=
    fun _ h => TypeTable.laidOut_of_findRep h
  revert hstep hlaid
  generalize (e.types.findRep e.target id).run e.layouts = answered
  obtain ⟨c | r, layouts⟩ := answered <;> intro hstep hlaid
  · exact .bind_set (.throw' hstep)
  · exact .bind_set (.pure' ⟨hstep, rfl, hlaid r rfl⟩)

theorem quiet_repOf (id : TypeId) : Leaves step (repOf id) :=
  fun e => ((ends_repOf_laidOut id e).imp fun _ _ h => h.1).state

theorem quiet_paramReps (i : Nat) (params : List TypeId) :
    Leaves step (paramReps i params) := by
  induction params generalizing i with
  | nil => exact .pure' _
  | cons p rest ih =>
    refine .bind' (quiet_repOf p) fun r => ?_
    have hrest : Leaves step (do return r :: (← paramReps (i + 1) rest)) :=
      .bind' (ih _) fun _ => .pure' _
    exact .ite' (.bind' .get' fun _ => .bind' (.throw' _) fun _ => hrest) hrest

theorem quiet_knownType (id : TypeId) : Leaves step (knownType id) :=
  .bind' .get' fun _ => .ite' (quiet_fail _) (.pure' _)

theorem quiet_primitive (n : Nat) : Leaves step (primitive n) := by
  unfold primitive
  cases Builtin.ofNumber? n with
  | some b => exact .pure' _
  | none => exact quiet_fail _

theorem quiet_field (id : TypeId) (i : Int) : Leaves step (field id i) := by
  refine .bind' .get' fun e => ?_
  extract_lets t fields
  generalize (if i < 0 then none else fields[i.toNat]?) = f
  cases f with
  | some f => exact .pure' f
  | none => exact quiet_fail _

theorem quiet_fieldOffset (id : TypeId) (i : Int) : Leaves step (fieldOffset id i) := by
  refine .bind' (quiet_field id i) fun _ => .bind' .get' fun e => ?_
  refine .bind' (quiet_layoutOf _) fun l => ?_
  cases l.fieldOffset? i with
  | some off => exact .pure' off
  | none => exact quiet_fail _

end

section

set_option linter.unusedSectionVars false

variable {step : Engine → Engine → Prop} [Std.Refl step] [Trans step step step] [Aloof step]

theorem quiet_makeType (g : TypeTable → TypeId × TypeTable) : Leaves step (makeType g) :=
  .bind_get fun e => Aloof.aloof e _ _ _ _ _

theorem quiet_pointerType (target : TypeId) : Leaves step (pointerType target) :=
  .bind' (quiet_knownType target) fun _ => quiet_makeType _

theorem quiet_structType (fields : List TypeId) : Leaves step (structType fields) := by
  refine .bind' (.forM' fields quiet_knownType) fun _ => ?_
  refine .bind' (quiet_makeType _) fun id => .bind' (quiet_layoutOf id) fun answer => ?_
  cases answer with
  | ok l => exact .pure' id
  | error r => exact quiet_fail _

theorem quiet_signatureType (abi : Abi) (result : TypeId) (params : List TypeId) :
    Leaves step (signatureType abi result params) :=
  .bind' (quiet_knownType result) fun _ => .bind' (.forM' params quiet_knownType) fun _ =>
    quiet_makeType _

theorem quiet_taggedType (base : TypeId) (tag : Tag) (data : String) :
    Leaves step (taggedType base tag data) :=
  .bind' (quiet_knownType base) fun _ => quiet_makeType _

theorem quiet_setFieldNames (id : TypeId) (names : List String) :
    Leaves step (setFieldNames id names) := by
  refine .bind_get fun e => ?_
  cases e.types.setNames? (e.types.underlying id) names <;> exact Aloof.aloof e _ _ _ _ _

theorem quiet_registerNative (name : String) (run : NativeFunc) :
    Leaves step (registerNative name run) :=
  .modify' fun e => Aloof.aloof e _ _ _ _ _

theorem quiet_removeNative (name : String) : Leaves step (removeNative name) :=
  .modify' fun e => Aloof.aloof e _ _ _ _ _

theorem quiet_paramValue (fn : FuncId) (i : Int) : Leaves step (paramValue fn i) := by
  refine .bind' (quiet_ask _) fun f => ?_
  generalize (if i < 0 then none else f.params[i.toNat]?) = v
  cases v with
  | some v => exact .pure' v
  | none => exact .throw' _

theorem quiet_valueInfo (fn : FuncId) (v : ValueId) : Leaves step (valueInfo fn v) := by
  refine .bind' (quiet_ask _) fun f => ?_
  cases f.value? v with
  | some info => exact .pure' info
  | none => exact .throw' _

end

theorem sameCode_createContext : Leaves SameCode createContext :=
  .bind' (.modify' fun _ => rfl) fun _ => .bind' .get' fun _ => .pure' _

theorem sameCode_buildStart (id : ContextId) : Leaves SameCode (buildStart id) := by
  refine .bind' (quiet_liveContext id) fun _ => .bind' .get' fun e => ?_
  exact .ite' (.bind' (quiet_fail _) fun _ => .modify' fun _ => rfl) (.modify' fun _ => rfl)

theorem sameCode_buildEnd (id : ContextId) : Leaves SameCode (buildEnd id) := by
  refine .bind' .get' fun e => ?_
  exact .ite' (.bind' (quiet_fail _) fun _ => .modify' fun _ => rfl) (.modify' fun _ => rfl)

theorem evolves_of_same {act : EngineM α} (h : Leaves SameCode act) : Leaves Evolves act :=
  h.mono fun _ _ h => h.evolves

theorem below_of_same {act : EngineM α} (h : Leaves SameCode act) (n : Nat) :
    Leaves (SameBelow n) act :=
  h.mono fun _ _ h => h.below n

/-! ## Operations on open functions -/

theorem run_answer (answer : Except Failure α) (e : Engine) :
    ((match answer with
      | .ok a => pure a
      | .error err => throw err : EngineM α).run e : Except Failure α × Engine) = (answer, e) := by
  cases answer <;> rfl

theorem run_ask (q : Engine → Except Failure α) (e : Engine) :
    ((ask q).run e : Except Failure α × Engine) = (q e, e) :=
  run_answer _ _

theorem run_emitInto (fn : FuncId) (act : EmitM α) (e : Engine) :
    ((emitInto fn act).run e : Except Failure α × Engine) =
      match e.findOpen fn with
      | .error err => (.error err, e)
      | .ok f =>
        let r := (act.run { target := e.target, types := e.types, layouts := e.layouts, func := f } :
          Except Failure α × Bench)
        (r.1, { e with
          types := r.2.types
          layouts := r.2.layouts
          funcs := e.funcs.setIfInBounds (fn - 1) r.2.func
          notes := e.notes ++ r.2.notes }) := by
  unfold emitInto
  rw [run_bind]
  unfold openFunc
  rw [run_ask]
  rcases e.findOpen fn with err | f
  · rfl
  · exact run_answer _ _

theorem ends_ask {q : Engine → Except Failure α} {e : Engine} {k : α → EngineM β}
    {ok : β → Engine → Prop} {stop : Failure → Engine → Prop}
    (hok : ∀ a, q e = .ok a → Ends (k a) e ok stop) (hstop : ∀ err, stop err e) :
    Ends (ask q >>= k) e ok stop := by
  have hask : Ends (ask q) e (fun a e' => e = e' ∧ q e = .ok a) stop := by
    unfold ask
    refine .bind_get ?_
    cases hq : q e with
    | ok a => exact .pure' ⟨rfl, rfl⟩
    | error err => exact .throw' (hstop err)
  refine .bind' hask ?_
  rintro a _ ⟨rfl, ha⟩
  exact hok a ha

theorem ends_emitOpen {fn : FuncId} {f : Func} {act : EmitM α} {e : Engine}
    {ok : α → Engine → Prop} {stop : Failure → Engine → Prop} (hf : e.findOpen fn = .ok f)
    (h : Ends act (e.bench f) (fun a b => ok a (e.put fn b)) fun err b => stop err (e.put fn b)) :
    Ends (emitInto fn act) e ok stop := by
  unfold Ends at h ⊢
  rw [run_emitInto, hf]
  dsimp only
  revert h
  unfold Engine.bench
  generalize (act.run { target := e.target, types := e.types, layouts := e.layouts, func := f } :
    Except Failure α × Bench) = r
  rcases r with ⟨err | a, b⟩ <;> exact id

theorem ends_emitInto {fn : FuncId} {act : EmitM α} {e : Engine} {ok : α → Engine → Prop}
    {stop : Failure → Engine → Prop} (hstop : ∀ err, stop err e)
    (h : ∀ f, e.findOpen fn = .ok f →
      Ends act { target := e.target, types := e.types, layouts := e.layouts, func := f }
        (fun a b => ok a (e.put fn b)) fun err b => stop err (e.put fn b)) :
    Ends (emitInto fn act) e ok stop := by
  cases hf : e.findOpen fn with
  | ok f => exact ends_emitOpen hf (h f hf)
  | error err =>
    unfold Ends
    rw [run_emitInto, hf]
    exact hstop err

/-- An operation that runs an emitter on the open function `g`. Before that it may ask
the engine something, or refuse. What the emitter does to its bench is `ok` if it
succeeds and `stop` if it fails. -/
inductive Into (g : FuncId) (ok stop : Bench → Bench → Prop) : {α : Type} → EngineM α → Prop
  | emit {α : Type} {act : EmitM α}
      (h : ∀ b, Ends act b (fun _ b' => ok b b') fun _ b' => stop b b') :
      Into g ok stop (emitInto g act)
  | after {α β : Type} {pre : EngineM β} {k : β → EngineM α}
      (hpre : ∀ {step : Engine → Engine → Prop} [Std.Refl step] [Trans step step step]
        [Asking step], Leaves step pre)
      (hk : ∀ b, Into g ok stop (k b)) : Into g ok stop (pre >>= k)
  | refused {α : Type} {c : Prop} [Decidable c] {why act : EngineM α}
      (hwhy : ∀ e, Ends why e (fun _ _ => False) fun _ e' => e' = e)
      (h : ¬ c → Into g ok stop act) : Into g ok stop (if c then why else act)
  | discard {α : Type} {act : EngineM α} (h : Into g ok stop act) :
      Into g ok stop (Functor.discard act)

/-- The operation edits the open function `g`. -/
abbrev EditsIn (g : FuncId) (act : EngineM α) : Prop := Into g Bench.Edits Bench.Edits act

namespace Into

variable {g : FuncId} {ok stop R : Bench → Bench → Prop}

theorem emits {act : EmitM α} (h : Leaves R act) : Into g R R (emitInto g act) := .emit h.ends

theorem ends {quiet fin out : Engine → Engine → Prop} [Std.Refl quiet] [Trans quiet quiet quiet]
    [Asking quiet] [Trans quiet fin fin] [Trans quiet out out] {act : EngineM α}
    (h : Into g ok stop act) (hquiet : ∀ e e', quiet e e' → out e e')
    (hok : ∀ e f b, e.findOpen g = .ok f → ok (e.bench f) b → fin e (e.put g b))
    (hstop : ∀ e f b, e.findOpen g = .ok f → stop (e.bench f) b → out e (e.put g b)) (e : Engine) :
    Ends act e (fun _ e' => fin e e') fun _ e' => out e e' := by
  induction h generalizing e with
  | emit h =>
    refine ends_emitInto (fun _ => hquiet e e (Std.Refl.refl e)) fun f hf => ?_
    exact (h _).mono (fun _ b hb => hok e f b hf hb) fun _ b hb => hstop e f b hf hb
  | after hpre _ ih =>
    have hpre : Leaves quiet _ := hpre
    refine .bind' ((hpre.ends e).imp_stop fun _ _ h => hquiet _ _ h) fun a e₁ h₁ => ?_
    exact (ih a e₁).mono (fun _ _ h => Trans.trans h₁ h) fun _ _ h => Trans.trans h₁ h
  | refused hwhy _ ih =>
    refine .ite' (fun _ => (hwhy e).mono (fun _ _ h => h.elim) fun _ e' h => ?_) fun hc => ih hc e
    exact h ▸ hquiet e e (Std.Refl.refl e)
  | discard _ ih => exact (ih e).bind' fun _ _ h => .pure' h

theorem leaves {step : Engine → Engine → Prop} [Std.Refl step] [Trans step step step]
    [Asking step] {act : EngineM α} (h : Into g R R act)
    (hput : ∀ e f b, e.findOpen g = .ok f → R (e.bench f) b → step e (e.put g b)) :
    Leaves step act :=
  fun e => Ends.state (h.ends (fun _ _ h => h) hput hput e)

theorem mono {R' : Bench → Bench → Prop} {act : EngineM α} (h : Into g R R act)
    (himp : ∀ b b', R b b' → R' b b') : Into g R' R' act := by
  induction h with
  | emit h => exact .emit fun b => (h b).mono (fun _ _ h => himp _ _ h) fun _ _ h => himp _ _ h
  | after hpre _ ih => exact .after hpre ih
  | refused hwhy _ ih => exact .refused hwhy ih
  | discard _ ih => exact ih.discard

/-! ### Operations of more than an emitter -/

section

variable {op : Opcode} {x y : ValueId} {type : TypeId}

theorem binary (h : op.isBinary = true →
    ∀ b, Ends (Emit.binary op x y) b (fun _ b' => ok b b') fun _ b' => stop b b') :
    Into g ok stop (EngineM.binary g op x y) :=
  .refused (fun _ => .bind_throw rfl) fun hop => .emit (h (by simpa using hop))

theorem unary (h : op = .neg ∨ op = .not →
    ∀ b, Ends (Emit.unary op x) b (fun _ b' => ok b b') fun _ b' => stop b b') :
    Into g ok stop (EngineM.unary g op x) :=
  .refused (fun _ => .bind_throw rfl) fun hop => .emit (h (by tauto))

theorem compare (h : op.isCompare = true →
    ∀ b, Ends (Emit.compare op x y) b (fun _ b' => ok b b') fun _ b' => stop b b') :
    Into g ok stop (EngineM.compare g op x y) :=
  .refused (fun _ => .bind_throw rfl) fun hop => .emit (h (by simpa using hop))

theorem constFloat32 {bits : UInt32} (h : ∀ b, Ends (Emit.constant type bits.toUInt64 .float) b
    (fun _ b' => ok b b') fun _ b' => stop b b') :
    Into g ok stop (EngineM.constFloat32 g type bits) :=
  .after (quiet_repOf type) fun _ => .refused (fun _ => .bind_get (.bind_throw rfl)) fun _ => .emit h

theorem constFloat64 {bits : Word} (h : ∀ b, Ends (Emit.constant type bits .float) b
    (fun _ b' => ok b b') fun _ b' => stop b b') :
    Into g ok stop (EngineM.constFloat64 g type bits) :=
  .after (quiet_repOf type) fun _ => .refused (fun _ => .bind_get (.bind_throw rfl)) fun _ => .emit h

theorem call {callee : FuncId} {args : List ValueId} (h : ∀ sig rep b,
    Ends (Emit.call callee sig rep args) b (fun _ b' => ok b b') fun _ b' => stop b b') :
    Into g ok stop (EngineM.call g callee args) :=
  .after (quiet_ask _) fun _ => .after (quiet_ask _) fun _ => .emit (h _ _)

end

theorem edits_binary (op : Opcode) (x y : ValueId) :
    EditsIn g (EngineM.binary g op x y) :=
  .binary fun hop => (Emit.edits_binary (by rintro rfl; cases hop) x y).ends

theorem edits_unary (op : Opcode) (x : ValueId) :
    EditsIn g (EngineM.unary g op x) :=
  .unary fun hop => (Emit.edits_unary (by rintro rfl; simp at hop) x).ends

theorem edits_compare (op : Opcode) (x y : ValueId) :
    EditsIn g (EngineM.compare g op x y) :=
  .compare fun hop => (Emit.edits_compare (by rintro rfl; cases hop) x y).ends

theorem edits_constFloat32 (type : TypeId) (bits : UInt32) :
    EditsIn g (EngineM.constFloat32 g type bits) :=
  .constFloat32 (Emit.edits_constant _ _ _).ends

theorem edits_constFloat64 (type : TypeId) (bits : Word) :
    EditsIn g (EngineM.constFloat64 g type bits) :=
  .constFloat64 (Emit.edits_constant _ _ _).ends

theorem edits_call (callee : FuncId) (args : List ValueId) :
    EditsIn g (EngineM.call g callee args) :=
  .call fun sig rep => (Emit.edits_call callee sig rep args).ends

theorem inPlace {act : EngineM α} (h : EditsIn g act) : Into g Bench.InPlace Bench.InPlace act :=
  h.mono fun _ _ => Bench.Edits.inPlace

theorem defaultReturn : Into g Bench.InPlace Bench.InPlace (EngineM.defaultReturn g) := by
  refine .emit fun b => .bind_get (.ite' (fun _ => .pure' ?_) fun _ => .bind_modify (.pure' ?_))
  · exact Bench.Edits.inPlace (Std.Refl.refl b)
  · exact ⟨rfl, id, .refl b.types, .of_func fun hb => hb.values.congr rfl⟩

theorem evolves {act : EngineM α} (h : EditsIn g act) : Leaves Evolves act :=
  h.leaves fun _ _ _ hf hb =>
    have hopen := findOpen_ok hf
    .of_set hopen.1 rfl (hb.func.becomes hopen.2.2.1)

end Into

theorem evolves_destroyContext (id : ContextId) : Leaves Evolves (destroyContext id) := by
  refine .bind' (evolves_of_same (quiet_liveContext id)) fun c => .modify' fun e => ?_
  intro fn f hf
  refine ⟨_, ?_, Func.becomes_destroyed f (f.destroyed || decide (fn - 1 ∈ c.funcs.map (· - 1)))⟩
  rw [func?_destroy c.funcs rfl, hf, Option.map_some]

/-! ## New functions -/

theorem ends_repOf (id : TypeId) (e : Engine) :
    Ends (repOf id) e (fun r e' => e'.funcs = e.funcs ∧ e'.types = e.types ∧
      ∀ d, e.types.find? (e.types.underlying id) = some d → d.kind = .void → r.cls = .void)
      fun _ e' => e'.funcs = e.funcs := by
  refine .bind_get ?_
  rcases hrun : (e.types.findRep e.target id).run e.layouts with ⟨c | r, layouts⟩
  · exact .bind_set (Ends.throw' rfl)
  · refine .bind_set (Ends.pure' ⟨rfl, rfl, fun d hd hvoid => ?_⟩)
    unfold TypeTable.findRep at hrun
    rw [hd] at hrun
    have hanswer : e.types.repOf id
        ((Layout.layoutOf e.target e.types (e.types.underlying id)).run e.layouts).1 = .ok r :=
      congrArg Prod.fst hrun
    unfold TypeTable.repOf at hanswer
    rw [hd] at hanswer
    split at hanswer
    · cases hanswer
    · cases hanswer
    · next d' l hd' _ =>
      obtain rfl := Option.some.inj hd'
      rw [hvoid] at hanswer
      exact (Except.ok.inj hanswer) ▸ rfl

theorem ends_createFunction (ctx : ContextId) (sig : TypeId) (name : String) (e : Engine) :
    Ends (createFunction ctx sig name) e
      (fun id e' => id = e.funcs.size + 1 ∧ e'.types = e.types ∧
        ∃ f, e'.funcs = e.funcs.push f ∧ f.Fresh e.types sig id)
      fun _ e' => e'.funcs = e.funcs := by
  refine .bind_get ?_
  cases hsig : e.types.signature? sig with
  | none => exact .throw' rfl
  | some s =>
    refine .bind' (ends_repOf s.result e) fun ret e₁ ⟨hf₁, ht₁, hret⟩ => ?_
    have hkeep : ∀ {γ : Type} {act : EngineM γ}, Leaves SameTables act → ∀ e',
        e'.funcs = e.funcs ∧ e'.types = e.types →
        Ends act e' (fun _ e'' => e''.funcs = e.funcs ∧ e''.types = e.types)
          fun _ e'' => e''.funcs = e.funcs :=
      fun h e' he' => (h.ends e').mono (fun _ _ h => ⟨h.1.trans he'.1, h.2.trans he'.2⟩)
        fun _ _ h => h.1.trans he'.1
    refine .ite' (fun _ => .bind_throw hf₁) fun _ => ?_
    refine .bind' (hkeep (quiet_paramReps 0 s.params) e₁ ⟨hf₁, ht₁⟩) fun reps e₂ h₂ => ?_
    refine .bind' (hkeep (quiet_liveContext ctx) e₂ h₂) fun _ e₃ ⟨hf₃, ht₃⟩ => ?_
    refine .bind_get (.ite' (fun _ => .bind_throw hf₃) fun _ => .bind_get ?_)
    extract_lets id name params f
    have hid : id = e.funcs.size + 1 := congrArg (·.size + 1) hf₃
    refine .bind_modify (.bind_modify (.pure' ⟨hid, ht₃, f, congrArg (·.push f) hf₃, ?_⟩))
    exact ⟨rfl, rfl, rfl, rfl, s, hsig, hret⟩

theorem below_createFunction (ctx : ContextId) (sig : TypeId) (name : String) (n : Nat) :
    Leaves (SameBelow n) (createFunction ctx sig name) := by
  refine fun e => Ends.state ((ends_createFunction ctx sig name e).mono ?_ ?_)
  · rintro _ e' ⟨-, -, f, hf, -⟩
    exact .of_push hf n
  · exact fun _ e' h => Engine.SameCode.below h n

/-! ## Compiling -/

def Compiles (fn : FuncId) (e e' : Engine) : Prop :=
  ∃ f f', e.func? fn = some f ∧ f.Finishes f' ∧ e'.funcs = e.funcs.setIfInBounds (fn - 1) f'

theorem compiles_compile (fn : FuncId) (e : Engine) :
    Ends (compile fn) e (fun _ e' => Compiles fn e e') fun _ e' => e'.funcs = e.funcs := by
  refine (ends_compile fn e).mono ?_ ?_
  · rintro _ _ ⟨f, hf, ⟨hc, rfl⟩ | ⟨-, -, notes, rfl⟩⟩
    · refine ⟨f, f, (findFunc_ok hf).1, ⟨rfl, rfl, rfl, hc⟩, ?_⟩
      obtain ⟨hlt, hget⟩ := Array.getElem?_eq_some_iff.mp (func?_lt (findFunc_ok hf).1).2.1
      simp [Array.setIfInBounds, hlt, ← hget]
    · exact ⟨f, e.framed f, (findFunc_ok hf).1, ⟨rfl, rfl, rfl, rfl⟩, rfl⟩
  · rintro _ _ ⟨⟨notes, rfl⟩, -⟩
    rfl

theorem leaves_compile {step : Engine → Engine → Prop} [Std.Refl step] [Asking step] {fn : FuncId}
    (h : ∀ e f notes, e.findOpen fn = .ok f → step e { e.compiled fn f with notes }) :
    Leaves step (compile fn) := by
  refine fun e => Ends.state ((ends_compile fn e).mono ?_ ?_)
  · rintro _ _ ⟨f, -, ⟨-, rfl⟩ | ⟨hf, -, notes, rfl⟩⟩
    · exact Std.Refl.refl _
    · exact h e f notes hf
  · rintro _ _ ⟨⟨notes, rfl⟩, -⟩
    exact Asking.noted e notes

theorem below_compile {n fn : Nat} (h : n < fn) : Leaves (SameBelow n) (compile fn) := by
  refine fun e => Ends.state ((compiles_compile fn e).mono ?_ fun _ e' h => Engine.SameCode.below h n)
  rintro _ e' ⟨f, f', -, -, hset⟩ k g hk hg
  have hne : fn - 1 ≠ k := by omega
  rw [hset, Array.getElem?_setIfInBounds_ne hne]
  exact hg

theorem ends_defaultReturn (fn : FuncId) (e : Engine) :
    Ends (defaultReturn fn) e (fun reach e' => ∃ f f', e.func? fn = some f ∧ f.compiled = false ∧
      reach = f.endReachable ∧
      f' = (if reach = some true then f.push { op := .ret, implicit := true } else f) ∧
      e'.funcs = e.funcs.setIfInBounds (fn - 1) f') fun _ e' => e'.funcs = e.funcs := by
  refine ends_emitInto (fun _ => rfl) fun f hf => .bind_get ?_
  obtain ⟨hfunc, -, hopen, -⟩ := findOpen_ok hf
  refine .ite' (fun h => ?_) fun h => ?_
  · exact .pure' ⟨f, f, hfunc, hopen, rfl, (if_neg h).symm, rfl⟩
  · exact .bind_modify (.pure' ⟨f, _, hfunc, hopen, rfl, (if_pos (not_not.mp h)).symm, rfl⟩)

/-! ## Images -/

theorem below_modifyFunc {n fn : Nat} (h : n < fn) (g : Func → Func) :
    Leaves (SameBelow n) (modifyFunc fn g) := by
  refine .modify' fun e k f hk hf => ?_
  have hne : fn - 1 ≠ k := by omega
  change (e.funcs.modify (fn - 1) g)[k]? = some f
  rw [Array.getElem?_modify, if_neg hne]
  exact hf

section

set_option linter.unusedSectionVars false

variable {step : Engine → Engine → Prop} [Std.Refl step] [Trans step step step] [Aside step]

theorem quiet_loadedType (ids : Array TypeId) (ref : Int) :
    Leaves step (loadedType ids ref) := by
  refine .ite' (.pure' _) ?_
  generalize (if ref < 0 then none else ids[ref.toNat - 1]?) = id
  rcases id with _ | _ | id
  · exact quiet_fail _
  · exact quiet_fail _
  · exact .pure' _

end

section

set_option linter.unusedSectionVars false

variable {step : Engine → Engine → Prop} [Std.Refl step] [Trans step step step] [Aloof step]

theorem quiet_loadType (ids : Array TypeId) (n : Nat) (it : ImageType) :
    Leaves step (loadType ids n it) := by
  have href : ∀ ref, Leaves step (loadedType ids ref) := quiet_loadedType ids
  unfold loadType
  extract_lets ref
  cases Kind.ofCode it.kind
  case void => exact quiet_makeType _
  case int => exact quiet_makeType _
  case uint => exact quiet_makeType _
  case float => exact quiet_makeType _
  case pointer => exact .bind' (href _) fun _ => quiet_makeType _
  case tagged => exact .bind' (href _) fun _ => quiet_makeType _
  case struct =>
    refine .bind' (.mapM' _ href) fun fields => .bind' (quiet_makeType _) fun id => ?_
    exact .ite' (.bind' (.modify' fun e => Aloof.aloof e _ _ _ _ _) fun _ => .pure' id) (.pure' id)
  case signature =>
    exact .bind' (.mapM' _ href) fun params => .bind' (href _) fun _ => quiet_makeType _
  all_goals exact quiet_fail _

theorem quiet_loadTypes (ids : Array TypeId) (its : List ImageType) :
    Leaves step (loadTypes ids its) := by
  induction its generalizing ids with
  | nil => exact .pure' _
  | cons it rest ih => exact .bind' (quiet_loadType ids _ it) fun _ => ih _

end

section

set_option linter.unusedSectionVars false

variable {step : Engine → Engine → Prop} [Std.Refl step] [Trans step step step] [Aside step]
  {f : Func}

theorem quiet_imageType (f : Func) (ids : Array TypeId) (ref : Int) :
    Leaves step (imageType f ids ref) := by
  refine .ite' (.pure' _) ?_
  generalize (if ref < 0 then none else ids[ref.toNat - 1]?) = id
  cases id with
  | none => exact .throw' _
  | some id => exact .pure' _

/-- Filling a function from an image is a sequence of changes of that function, none
of which moves it to another context or compiles it. -/
def Refills (step : Engine → Engine → Prop) (fn : FuncId) : Prop :=
  ∀ g : Func → Func, (∀ h, (g h).ctx = h.ctx ∧ (g h).compiled = h.compiled) →
    Leaves step (modifyFunc fn g)

theorem refills_loadValues (hf : Refills step f.id) (ids : Array TypeId) (vs : List ImageValue) :
    Leaves step (loadValues f ids vs) := by
  induction vs with
  | nil => exact .pure' _
  | cons v rest ih =>
    refine .bind' (quiet_imageType f ids _) fun type => ?_
    refine .bind' (.tryCatch' (quiet_repOf type) fun _ => .throw' _) fun rep => ?_
    exact .bind' (hf _ fun _ => ⟨rfl, rfl⟩) fun _ => ih

theorem refills_loadParams (hf : Refills step f.id) (values : List ImageValue) (i : Nat)
    (own params : List ValueId) : Leaves step (loadParams f values i own params) := by
  induction own generalizing i params with
  | nil => exact .pure' _
  | cons v owns ih =>
    cases params with
    | nil => exact .pure' _
    | cons p ps =>
      refine .ite' (.bind' (.throw' _) fun _ => ?_) ?_ <;>
        exact .bind' (hf _ fun _ => ⟨rfl, rfl⟩) fun _ => ih (i + 1) ps

theorem refills_loadInsns (hf : Refills step f.id) (ids : Array TypeId)
    (valueCount labelCount pc : Nat) (is : List ImageInsn) :
    Leaves step (loadInsns f ids valueCount labelCount pc is) := by
  induction is generalizing pc with
  | nil => exact .pure' _
  | cons i rest ih =>
    have hload : ∀ (g : TypeId → Func → Func) (t : TypeId → Trace.Note),
        (∀ type h, (g type h).ctx = h.ctx ∧ (g type h).compiled = h.compiled) → Leaves step (do
          let type ← imageType f ids i.type
          modifyFunc f.id (g type)
          note (t type)
          loadInsns f ids valueCount labelCount (pc + 1) rest) :=
      fun g t hg => .bind' (quiet_imageType f ids _) fun type => .bind' (hf _ (hg type)) fun _ =>
        .bind' (quiet_note _) fun _ => ih (pc + 1)
    unfold loadInsns
    extract_lets k checked
    have hk : ∀ u, Leaves step (k u) := fun _ => hload _ _ fun _ _ => ⟨rfl, rfl⟩
    have hchecked : ∀ u, Leaves step (checked u) :=
      fun _ => .ite' (.bind' (.throw' _) hk) (hk ())
    clear_value checked
    cases firstUnknown? valueCount (i.dest :: i.a :: i.b :: i.args.getD []) with
    | none => exact hchecked ()
    | some v => exact .bind' (.throw' _) hchecked

def fillFromImage (f : Func) (fn : FuncId) (ids : Array TypeId) (img : Image) : EngineM FuncId := do
  loadValues f ids ((img.values.getD []).drop f.values.size)
  loadParams f (img.values.getD []) 0 f.params (img.params.getD [])
  modifyFunc fn fun g => { g with labels := g.labels ++ ((img.labels.getD []).drop 1).toArray }
  let f' ← openFunc fn
  loadInsns f ids f'.values.size f'.labels.size 0 (img.insns.getD [])
  compile fn
  pure fn

theorem refills_fillFromImage {fn : FuncId} (hf : Refills step f.id) (hfn : Refills step fn)
    (hcompile : Leaves step (compile fn)) (ids : Array TypeId) (img : Image) :
    Leaves step (fillFromImage f fn ids img) :=
  .bind' (refills_loadValues hf _ _) fun _ => .bind' (refills_loadParams hf _ _ _ _) fun _ =>
    .bind' (hfn _ fun _ => ⟨rfl, rfl⟩) fun _ => .bind' (quiet_ask (·.findOpen fn)) fun _ =>
    .bind' (refills_loadInsns hf _ _ _ _ _) fun _ => .bind' hcompile fun _ => .pure' fn

end

theorem ends_fillFromImage {n : Nat} {f : Func} {fn : FuncId} (hid : f.id = fn) (hfn : n < fn)
    (ids : Array TypeId) (img : Image) (e : Engine) :
    Ends (fillFromImage f fn ids img) e (fun answer e' => answer = fn ∧ e.SameBelow n e')
      fun _ e' => e.SameBelow n e' := by
  have hbelow : Leaves (SameBelow n) (fillFromImage f fn ids img) :=
    refills_fillFromImage (fun g _ => below_modifyFunc (hid ▸ hfn) g)
      (fun g _ => below_modifyFunc hfn g) (below_compile hfn) ids img
  have hanswer : Ends (fillFromImage f fn ids img) e (fun answer _ => answer = fn)
      fun _ _ => True :=
    .bind_any fun _ _ => .bind_any fun _ _ => .bind_any fun _ _ => .bind_any fun _ _ =>
      .bind_any fun _ _ => .bind_any fun _ _ => .pure' rfl
  exact (hanswer.and' (hbelow.ends e)).imp_stop fun _ _ h => h.2

theorem ends_importImage (ctx : ContextId) (img : Option Image) (e : Engine) :
    Ends (importImage ctx img) e
      (fun fn e' => fn = e.funcs.size + 1 ∧ e.SameBelow e.funcs.size e')
      fun _ e' => e.SameBelow e.funcs.size e' := by
  have hrefl : e.SameBelow e.funcs.size e := Std.Refl.refl e
  cases img with
  | none => exact .throw' hrefl
  | some img =>
    refine .bind_get ?_
    refine .ite' (fun _ => .bind_throw hrefl) fun _ => ?_
    refine .ite' (fun _ => .bind_throw hrefl) fun _ => ?_
    have htypes : Leaves SameCode (loadTypes #[] (img.types.getD [])) := quiet_loadTypes #[] _
    refine .bind' ((htypes.ends e).imp_stop fun _ _ h => h.below _) fun ids e₁ h₁ => ?_
    have hsize : e₁.funcs.size = e.funcs.size := congrArg Array.size h₁
    have hnext : ∀ e', e₁.SameBelow e.funcs.size e' → e.SameBelow e.funcs.size e' :=
      fun e' h => Trans.trans (h₁.below e.funcs.size) h
    refine .ite' (fun _ => .bind_throw (hnext _ (Std.Refl.refl e₁))) fun _ => ?_
    have hcreate := (ends_createFunction ctx (ids.getD (img.sig.toNat - 1) 0) img.name e₁).and'
      ((below_createFunction ctx _ img.name e.funcs.size).ends e₁)
    refine .bind' (hcreate.imp_stop fun _ _ h => hnext _ h.2) ?_
    rintro fn e₂ ⟨⟨hfn, -, f, hf, hfresh⟩, h₂⟩
    have hnew : fn = e.funcs.size + 1 := hsize ▸ hfn
    have hlt : e.funcs.size < fn := hnew ▸ Nat.lt_succ_self _
    refine ends_ask (fun f' hopen => ?_) fun _ => hnext _ h₂
    have hget := (func?_lt (findOpen_ok hopen).1).2.1
    rw [hfn, hf, Nat.add_sub_cancel, Array.getElem?_push_size] at hget
    obtain rfl := Option.some.inj hget
    refine .ite' (fun _ => .bind_throw (hnext _ h₂)) fun _ => ?_
    exact (ends_fillFromImage hfresh.id hlt ids img e₂).mono
      (fun _ _ h => ⟨h.1.trans hnew, hnext _ (Trans.trans h₂ h.2)⟩)
      fun _ _ h => hnext _ (Trans.trans h₂ h)

theorem below_importImage (ctx : ContextId) (img : Option Image) (e : Engine) :
    e.SameBelow e.funcs.size ((importImage ctx img).run e : Except Failure FuncId × Engine).2 :=
  Ends.state ((ends_importImage ctx img e).imp fun _ _ h => h.2)

end EngineM

/-! ## Running code -/

namespace RunM

open Engine EngineM

section

set_option linter.unusedSectionVars false

variable {α : Type} {step : Engine → Engine → Prop} [Std.Refl step] [Trans step step step]
  [Hosting step]

theorem leaves_ofEngine {act : EngineM α} (h : Leaves step act) : Leaves step (ofEngine act) :=
  fun e => Ends.state (ends_ofEngine (h.ends e))

theorem quiet_request (q : Memory.Request α) : Leaves step (EngineM.request q) := by
  refine fun e => Ends.state (.bind_get (.bind_set ?_))
  rcases (q.run e.host.memory : Except (Halt Fault) α × Memory) with ⟨(f | _) | a, memory⟩
  · exact .bind_modify (.throw' (Hosting.hosted e _))
  · exact .bind_modify (.throw' (Hosting.hosted e _))
  · exact .bind_modify (.pure' (Hosting.hosted e _))

theorem quiet_apply (fn : FuncId) (bits : List Word) : Leaves step (apply fn bits) := by
  unfold apply
  generalize runFuel = fuel
  refine .bind' (leaves_ofEngine (quiet_ask _)) fun f => ?_
  refine .ite' .bind_throw (.ite' .bind_throw ?_)
  refine .bind' (leaves_ofEngine (quiet_note _)) fun _ e => ?_
  refine Ends.state (.bind_get (.bind_set ?_))
  dsimp only
  generalize Machine.call _ fuel e.host f bits = out
  refine .bind_modify ?_
  have hhost : step e { e with host := out.2.host } := Hosting.hosted e _
  have hclosing : Leaves step (ofEngine (note (.closed ""
      [("func", f.name), ("steps", Text.decimalNat out.2.steps)]))) :=
    leaves_ofEngine (quiet_note _)
  refine .bind' ((hclosing.ends _).mono (fun _ _ h => Trans.trans hhost h)
    fun _ _ h => Trans.trans hhost h) ?_
  intro _ e' he'
  rcases out with ⟨bits | h | _, m⟩
  · exact .pure' he'
  · exact .throw' he'
  · exact .throw' he'

end

end RunM

end TypedIR
