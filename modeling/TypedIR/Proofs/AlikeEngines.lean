import TypedIR.Proofs.AlikeEmitting
import TypedIR.Proofs.EngineEdits
import TypedIR.Proofs.History

/-
  Histories that differ in which scalars they mark.

  Two engines are alike if their functions are. Every operation answers the same
  on alike engines and leaves them alike (`Operation.agree_perform`), and marking
  a scalar in one of them only leaves them alike as well (`Engine.Alike.mark`). So
  a history and the same one with marks put in lead to alike engines.
-/

namespace TypedIR

/-- Engines whose functions are alike, with caches that answer alike. -/
inductive Engine.Alike (e : Engine) : Engine → Prop
  | intro {layouts : Layout.Cache} {funcs : Array Func} (hordered : e.types.Ordered)
      (hlayouts : Layout.Alike e.target e.types e.layouts layouts)
      (hfuncs : List.Forall₂ Func.Alike e.funcs.toList funcs.toList) :
      Alike e { e with layouts, funcs }

/-- Searches that find alike functions, or fail alike. -/
inductive Found : Except Failure Func → Except Failure Func → Prop
  | ok {f f' : Func} (h : f.Alike f') : Found (.ok f) (.ok f')
  | error (err : Failure) : Found (.error err) (.error err)

theorem Found.bind {x x' : Except Failure Func} {k k' : Func → Except Failure Func}
    (h : Found x x') (hk : ∀ f f', f.Alike f' → Found (k f) (k' f')) :
    Found (x >>= k) (x' >>= k') := by
  cases h with
  | ok hf => exact hk _ _ hf
  | error err => exact .error err

theorem Found.ite {c : Prop} [Decidable c] {x x' y y' : Except Failure Func}
    (hpos : Found x x') (hneg : Found y y') : Found (if c then x else y) (if c then x' else y') := by
  split
  · exact hpos
  · exact hneg

theorem Func.Alike.refl (f : Func) : f.Alike f := by
  refine .intro ?_
  rw [List.forall₂_same]
  exact fun info _ => .refl info

theorem Func.Alike.known {t : TypeTable} {f f' : Func} (h : f.Alike f') (hk : f.Known t) :
    f'.Known t := by
  intro v info hv
  have hrel := h.value? v
  rw [hv] at hrel
  rcases hf : f.value? v with _ | info'
  · rw [hf] at hrel
    cases hrel
  · rw [hf] at hrel
    cases hrel with
    | some hi =>
      obtain ⟨-⟩ := hi
      exact hk v info' hf

namespace Engine.Alike

variable {e e' : Engine}

theorem size_funcs (h : e.Alike e') : e'.funcs.size = e.funcs.size := by
  obtain ⟨-, -, hfuncs⟩ := h
  simpa using hfuncs.length_eq.symm

theorem func? (h : e.Alike e') (fn : FuncId) :
    Option.Rel Func.Alike (e.func? fn) (e'.func? fn) := by
  obtain ⟨-, -, hfuncs⟩ := h
  unfold Engine.func?
  split
  · exact .none
  · simpa using forall₂_getElem? hfuncs (fn - 1)

theorem findFunc (h : e.Alike e') (fn : FuncId) : Found (e.findFunc fn) (e'.findFunc fn) := by
  have hf := h.func? fn
  unfold Engine.findFunc
  generalize e.func? fn = x, e'.func? fn = y at hf
  cases hf with
  | none => exact .error _
  | some hff =>
    have hff' := hff
    obtain ⟨-⟩ := hff'
    exact .ite (.error _) (.ok hff)

theorem findOpen (h : e.Alike e') (fn : FuncId) : Found (e.findOpen fn) (e'.findOpen fn) := by
  have hbuilding : e'.building = e.building := by
    obtain ⟨-, -, -⟩ := h
    rfl
  unfold Engine.findOpen
  rw [hbuilding]
  refine (h.findFunc fn).bind fun f f' hf => ?_
  have hf' := hf
  obtain ⟨-⟩ := hf'
  exact .ite (.error _) (.ite (.error _) (.ok hf))

end Engine.Alike

namespace EngineM

open TypedIR.Respects

abbrev Blind {α : Type} (act : EngineM α) : Prop := Respects Engine.Alike act

variable {α β : Type} {e e' : Engine}

theorem refit {b b' : Bench} (hb : Bench.Alike e.target b b') {funcs : Array Func}
    (hfuncs : List.Forall₂ Func.Alike e.funcs.toList funcs.toList) (i : Nat) :
    Engine.Alike
      { e with
        types := b.types, layouts := b.layouts, funcs := e.funcs.setIfInBounds i b.func
        notes := e.notes ++ b.notes }
      { e with
        types := b'.types, layouts := b'.layouts, funcs := funcs.setIfInBounds i b'.func
        notes := e.notes ++ b'.notes } := by
  obtain ⟨ht, hord, -, hl, hf⟩ := hb
  refine .intro hord (ht ▸ hl) ?_
  simpa using forall₂_set hfuncs hf i

/-- An emitter that does not look at where values live does not as an operation
of the engine either. -/
theorem emitInto_agree (h : e.Alike e') {fn : FuncId}
    (hknown : ∀ f, e.func? fn = some f → f.Known e.types) {act : EmitM α}
    (hact : Emit.Blind e.target act) : Agree Engine.Alike (emitInto fn act) e e' := by
  have hfound := h.findOpen fn
  unfold Agree
  rw [run_emitInto, run_emitInto]
  rcases hf : e.findOpen fn with err | f <;> rw [hf] at hfound <;>
    generalize e'.findOpen fn = y at hfound
  · cases hfound
    exact ⟨rfl, h⟩
  · cases hfound with
    | ok hff =>
      have hk : f.Known e.types := hknown f (findOpen_ok hf).1
      obtain ⟨hord, hl, hfuncs⟩ := h
      have hb : Bench.Alike e.target
          { target := e.target, types := e.types, layouts := e.layouts, func := f }
          { target := e.target, types := e.types, layouts := _, func := _ } :=
        ⟨rfl, hord, hk, hl, hff⟩
      obtain ⟨hanswer, hafter⟩ := hact _ _ hb
      exact ⟨hanswer, refit hafter hfuncs _⟩

/-! ## Types -/

theorem fail' (c : Cause) : Blind (fail c : EngineM α) := throw' _

theorem fail_bind {c : Cause} {k : α → EngineM β} : Blind (fail c >>= k) := throw' _

theorem get_bind {k : Engine → EngineM α} (hsame : ∀ e e' : Engine, e.Alike e' → k e' = k e)
    (hk : ∀ e, Blind (k e)) : Blind (get >>= k) := by
  refine bind_get fun e e' h => ?_
  rw [hsame e e' h]
  exact hk e e e' h

theorem knownType_blind (id : TypeId) : Blind (knownType id) := by
  refine get_bind ?_ fun e => ite' (fun _ => fail' _) fun _ => pure' _
  intro e e' h
  obtain ⟨-, -, -⟩ := h
  rfl

theorem knownTypes_blind (ids : List TypeId) : Blind (ids.forM knownType) := by
  induction ids with
  | nil => exact pure' _
  | cons id ids ih => exact bind' (knownType_blind id) fun _ => ih

theorem makeType_agree (h : e.Alike e') {f : TypeTable → TypeId × TypeTable} {d : Descriptor}
    (hm : e.types.Makes (f e.types) d) : Agree Engine.Alike (makeType f) e e' := by
  obtain ⟨hord, hl, hfuncs⟩ := h
  exact ⟨rfl, hm.ordered, hl.grow hord hm.ordered hm.grows, hfuncs⟩

theorem layoutOf_blind (id : TypeId) : Blind (layoutOf id) := by
  refine bind_get ?_
  intro e e' h
  obtain ⟨hord, hl, hfuncs⟩ := h
  obtain ⟨ha, hl'⟩ := hl.ask hord id
  exact ⟨congrArg Except.ok ha, hord, hl', hfuncs⟩

theorem pointerType_agree (ht : e.Typed False) (h : e.Alike e') (target : TypeId) :
    Agree Engine.Alike (pointerType target) e e' := by
  refine (knownType_blind target e e' h).bind' fun _ e₁ e₁' hr h₁ => ?_
  obtain ⟨-, rfl, hid⟩ := (keeps_knownType ht target).ok hr
  exact makeType_agree h₁ (ht.ordered.makes_pointer hid)

theorem structType_agree (ht : e.Typed False) (h : e.Alike e') (fields : List TypeId) :
    Agree Engine.Alike (structType fields) e e' := by
  refine (knownTypes_blind fields e e' h).bind' fun _ e₁ e₁' hr h₁ => ?_
  obtain ⟨-, rfl, hids⟩ := (keeps_knownTypes ht fields).ok hr
  refine (makeType_agree h₁ (ht.ordered.makes_addStruct hids)).bind' fun id e₂ e₂' _ h₂ => ?_
  refine (layoutOf_blind id e₂ e₂' h₂).bind' fun a e₃ e₃' _ h₃ => ?_
  cases a with
  | ok l => exact pure' _ _ _ h₃
  | error r => exact fail' _ _ _ h₃

theorem signatureType_agree (ht : e.Typed False) (h : e.Alike e') (abi : Abi) (result : TypeId)
    (params : List TypeId) : Agree Engine.Alike (signatureType abi result params) e e' := by
  refine (knownType_blind result e e' h).bind' fun _ e₁ e₁' hr h₁ => ?_
  obtain ⟨-, rfl, hres⟩ := (keeps_knownType ht result).ok hr
  refine (knownTypes_blind params e e₁' h₁).bind' fun _ e₂ e₂' hr h₂ => ?_
  obtain ⟨-, rfl, hps⟩ := (keeps_knownTypes ht params).ok hr
  obtain ⟨d, hm, -⟩ := ht.ordered.makes_addSignature (s := { abi, params, result }) hres hps
  exact makeType_agree h₂ hm

theorem taggedType_agree (ht : e.Typed False) (h : e.Alike e') (base : TypeId) (tag : Tag)
    (data : String) : Agree Engine.Alike (taggedType base tag data) e e' := by
  refine (knownType_blind base e e' h).bind' fun _ e₁ e₁' hr h₁ => ?_
  obtain ⟨-, rfl, hb⟩ := (keeps_knownType ht base).ok hr
  obtain ⟨d, hm, -⟩ := ht.ordered.makes_addTagged { tag, data } hb
  exact makeType_agree h₁ hm

theorem setFieldNames_blind (id : TypeId) (names : List String) :
    Blind (setFieldNames id names) := by
  refine bind_get ?_
  intro e e' h
  obtain ⟨hord, hl, hfuncs⟩ := h
  dsimp only
  rcases hn : e.types.setNames? (e.types.underlying id) names with _ | types
  · exact ⟨rfl, hord, hl, hfuncs⟩
  · obtain ⟨hgrows, hord'⟩ := hord.setNames? hn
    exact ⟨rfl, hord', hl.grow hord hord' hgrows, hfuncs⟩

/-! ## Contexts and functions -/

theorem liveContext_blind (id : ContextId) : Blind (liveContext id) := by
  refine get_bind ?_ fun e => ?_
  · intro e e' h
    obtain ⟨-, -, -⟩ := h
    rfl
  · split
    · exact fail' _
    · exact ite' (fun _ => fail' _) fun _ => pure' _

theorem createContext_blind : Blind createContext := by
  refine bind' (modify' ?_) fun _ => get_bind ?_ fun e => pure' _
  · intro e e' h
    obtain ⟨hord, hl, hfuncs⟩ := h
    exact ⟨hord, hl, hfuncs⟩
  · intro e e' h
    obtain ⟨-, -, -⟩ := h
    rfl

theorem forall₂_destroy (ids : List FuncId) {fs fs' : Array Func}
    (h : List.Forall₂ Func.Alike fs.toList fs'.toList) :
    List.Forall₂ Func.Alike
      (ids.foldl (fun fs id => fs.modify (id - 1) ({ · with destroyed := true })) fs).toList
      (ids.foldl (fun fs id => fs.modify (id - 1) ({ · with destroyed := true })) fs').toList := by
  induction ids generalizing fs fs' with
  | nil => exact h
  | cons id ids ih =>
    refine ih ?_
    rw [Array.toList_modify, Array.toList_modify]
    refine forall₂_modify h fun f f' _ hf => ?_
    obtain ⟨hvalues⟩ := hf
    exact .intro hvalues

theorem destroyContext_blind (id : ContextId) : Blind (destroyContext id) := by
  refine bind' (liveContext_blind id) fun c => modify' ?_
  intro e e' h
  obtain ⟨hord, hl, hfuncs⟩ := h
  exact ⟨hord, hl, forall₂_destroy c.funcs hfuncs⟩

theorem buildStart_blind (id : ContextId) : Blind (buildStart id) := by
  refine bind' (liveContext_blind id) fun _ => get_bind ?_ fun e => ?_
  · intro e e' h
    obtain ⟨-, -, -⟩ := h
    rfl
  · refine ite' (fun _ => fail_bind) fun _ => modify' ?_
    intro e e' h
    obtain ⟨hord, hl, hfuncs⟩ := h
    exact ⟨hord, hl, hfuncs⟩

theorem buildEnd_blind (id : ContextId) : Blind (buildEnd id) := by
  refine get_bind ?_ fun e => ?_
  · intro e e' h
    obtain ⟨-, -, -⟩ := h
    rfl
  · refine ite' (fun _ => fail_bind) fun _ => modify' ?_
    intro e e' h
    obtain ⟨hord, hl, hfuncs⟩ := h
    exact ⟨hord, hl, hfuncs⟩

theorem run_repOf (id : TypeId) (e : Engine) :
    ((repOf id).run e : Except Failure Rep × Engine) =
      let r := (e.types.findRep e.target id).run e.layouts
      (r.1.mapError fun c => { cause := c }, { e with layouts := r.2 }) := by
  unfold repOf
  rw [run_bind_get]
  rcases (e.types.findRep e.target id).run e.layouts with ⟨_ | _, _⟩ <;> rfl

theorem repOf_blind (id : TypeId) : Blind (repOf id) := by
  intro e e' h
  obtain ⟨hord, hl, hfuncs⟩ := h
  obtain ⟨ha, hl'⟩ := hl.findRep hord id
  unfold Agree
  rw [run_repOf, run_repOf]
  exact ⟨congrArg (Except.mapError fun c => ({ cause := c } : Failure)) ha, hord, hl', hfuncs⟩

theorem failType {c : String → Cause} (type : TypeId) {k : α → EngineM β} :
    Blind (get >>= fun e => fail (c (e.typeText type)) >>= k) := by
  refine get_bind ?_ fun e => fail_bind
  intro e e' h
  obtain ⟨-, -, -⟩ := h
  rfl

theorem paramReps_blind (i : Nat) (params : List TypeId) : Blind (paramReps i params) := by
  induction params generalizing i with
  | nil => exact pure' _
  | cons p rest ih =>
    refine bind' (repOf_blind p) fun r => ?_
    refine ite' (fun _ => failType p) fun _ => ?_
    exact bind' (ih (i + 1)) fun _ => pure' _

theorem note_blind (n : Trace.Note) : Blind (note n) := by
  refine modify' ?_
  intro e e' h
  obtain ⟨hord, hl, hfuncs⟩ := h
  exact ⟨hord, hl, hfuncs⟩

theorem createFunction_blind (ctx : ContextId) (sig : TypeId) (name : String) :
    Blind (createFunction ctx sig name) := by
  refine get_bind ?_ fun e => ?_
  · intro e e' h
    obtain ⟨-, -, -⟩ := h
    rfl
  · split
    · exact fail' _
    · refine bind' (repOf_blind _) fun ret => ite' (fun _ => fail_bind) fun _ => ?_
      refine bind' (paramReps_blind _ _) fun reps => bind' (liveContext_blind ctx) fun _ => ?_
      refine get_bind ?_ fun e => ?_
      · intro e e' h
        obtain ⟨-, -, -⟩ := h
        rfl
      · refine ite' (fun _ => fail_bind) fun _ => get_bind ?_ fun e => ?_
        · intro e e' h
          rw [h.size_funcs]
        · refine bind' (modify' ?_) fun _ => bind' (note_blind _) fun _ => pure' _
          intro e e' h
          obtain ⟨hord, hl, hfuncs⟩ := h
          refine ⟨hord, hl, ?_⟩
          simpa using forall₂_concat hfuncs (.refl _)

theorem registerNative_blind (name : String) (run : NativeFunc) :
    Blind (registerNative name run) := by
  refine modify' ?_
  intro e e' h
  obtain ⟨hord, hl, hfuncs⟩ := h
  exact ⟨hord, hl, hfuncs⟩

theorem removeNative_blind (name : String) : Blind (removeNative name) := by
  refine modify' ?_
  intro e e' h
  obtain ⟨hord, hl, hfuncs⟩ := h
  exact ⟨hord, hl, hfuncs⟩

/-! ## Emitters -/

theorem known_of_typed (ht : e.Typed False) {fn : FuncId} {f : Func} (hf : e.func? fn = some f) :
    f.Known e.types :=
  fun _ _ hv => ((ht.func hf).value hv).rep.known

theorem constFloat_agree (ht : e.Typed False) (h : e.Alike e') (fn : FuncId) (type : TypeId)
    (size : Int) (width : Nat) (bits : Word) :
    Agree Engine.Alike (do
      let r ← repOf type
      if r.size ≠ size then fail (.constWidth width ((← get).typeText type))
      emitInto fn (Emit.constant type bits .float) : EngineM ValueId) e e' := by
  refine (repOf_blind type e e' h).bind' fun r e₁ e₁' hr h₁ => ?_
  refine .ite' (fun _ => failType type _ _ h₁) fun _ => ?_
  have ht₁ := ((keeps_repOf ht type).ok hr).1.typed
  exact emitInto_agree h₁ (fun _ hf => known_of_typed ht₁ hf) (Emit.Blind.constant _ _ _)

/-- Where the values of a function that is found live does not matter to what
follows. -/
theorem found_bind {q : Engine → Except Failure Func} (h : e.Alike e') (hq : Found (q e) (q e'))
    {k : Func → EngineM α} (hsame : ∀ f f' : Func, f.Alike f' → k f' = k f)
    (hk : ∀ f, Agree Engine.Alike (k f) e e') : Agree Engine.Alike (ask q >>= k) e e' := by
  unfold Agree
  rw [run_bind, run_bind, run_ask, run_ask]
  generalize q e = x, q e' = y at hq
  cases hq with
  | error err => exact ⟨rfl, h⟩
  | ok hf =>
    dsimp only
    rw [hsame _ _ hf]
    exact hk _

theorem call_agree (ht : e.Typed False) (h : e.Alike e') (fn callee : FuncId)
    (args : List ValueId) : Agree Engine.Alike (call fn callee args) e e' := by
  refine found_bind h (h.findOpen fn) (fun _ _ _ => rfl) fun _ => ?_
  refine found_bind h (h.findFunc callee) ?_ fun target => ?_
  · intro f f' hf
    obtain ⟨-⟩ := hf
    rfl
  · exact emitInto_agree h (fun _ hf => known_of_typed ht hf) (Emit.Blind.call _ _ _ _)

/-! ## Compiling -/

theorem checkInsns_alike (h : e.Alike e') {f f' : Func} (hf : f.Alike f') (pc : Nat)
    (is : List Insn) : e'.checkInsns f' pc is = e.checkInsns f pc is := by
  induction is generalizing pc with
  | nil => rfl
  | cons i rest ih =>
    have hcallee := h.findFunc i.callee
    have htarget : f'.target? i = f.target? i := by
      obtain ⟨-⟩ := hf
      rfl
    have hname : f'.name = f.name := by
      obtain ⟨-⟩ := hf
      rfl
    unfold Engine.checkInsns
    rw [htarget, hname, ih]
    generalize e.findFunc i.callee = x, e'.findFunc i.callee = y at hcallee
    cases hcallee <;> rfl

theorem run_compileOpen (fn : FuncId) (e : Engine) :
    ((compileOpen fn).run e : Except Failure Unit × Engine) =
      match e.findOpen fn with
      | .error err => (.error err, e)
      | .ok f =>
        match e.checkInsns f 0 f.insns.toList with
        | .error err => (.error err, e)
        | .ok _ => (.ok (), e.compiled fn f) := by
  unfold compileOpen
  rw [run_bind]
  unfold openFunc
  rw [run_ask]
  rcases e.findOpen fn with err | f
  · rfl
  · dsimp only
    rw [run_bind, run_ask]
    rcases e.checkInsns f 0 f.insns.toList with err | ⟨⟨⟩⟩ <;> rfl

theorem placeSlots_alike {target : Target} {t : TypeTable} (hord : t.Ordered) {f : Func}
    (hk : f.Known t) (c : Layout.Cache) :
    List.Forall₂ Slotted (f.values.toList.drop 1)
      ((placeSlots (Layout.layoutOf target t) 0 (f.values.toList.drop 1)).run c).1.1 ∧
    Layout.Alike target t c
      ((placeSlots (Layout.layoutOf target t) 0 (f.values.toList.drop 1)).run c).2 := by
  have hask : ∀ v ∈ f.values.toList.drop 1, ∀ c', Layout.Alike target t c c' →
      True ∧ Layout.Alike target t c ((Layout.layoutOf target t v.type).run c').2 := by
    intro v hv c' hc
    obtain ⟨i, hi, rfl⟩ := List.getElem_of_mem hv
    have hlt := hk (i + 1) _ (Func.value?_succ hi)
    exact ⟨trivial, hc.trans (Layout.Alike.ask_known hord hlt c').2⟩
  obtain ⟨hslots, -, hc⟩ := @placeSlots_spec _ (fun _ _ => True) _ _ hask 0 c (.refl c)
  exact ⟨hslots, hc⟩

theorem forall₂_slotted {vs vs' ws ws' : List ValueInfo} (h : List.Forall₂ ValueInfo.Alike vs vs')
    (hw : List.Forall₂ Slotted vs ws) (hw' : List.Forall₂ Slotted vs' ws') :
    List.Forall₂ ValueInfo.Alike ws ws' := by
  induction h generalizing ws ws' with
  | nil =>
    cases hw
    cases hw'
    exact .nil
  | cons hv _ ih =>
    cases hw with
    | cons hs hrest =>
      cases hw' with
      | cons hs' hrest' =>
        refine .cons ?_ (ih hrest hrest')
        obtain ⟨hflag⟩ := hv
        rw [hs, hs']
        exact .intro hflag

theorem compileOpen_agree (ht : e.Typed False) (h : e.Alike e') (fn : FuncId) :
    Agree Engine.Alike (compileOpen fn) e e' := by
  have hfound := h.findOpen fn
  unfold Agree
  rw [run_compileOpen, run_compileOpen]
  rcases hf : e.findOpen fn with err | f <;> rw [hf] at hfound <;>
    generalize e'.findOpen fn = y at hfound
  · cases hfound
    exact ⟨rfl, h⟩
  · cases hfound with
    | ok hff =>
      rename_i f'
      have hk : f.Known e.types := known_of_typed ht (findOpen_ok hf).1
      have hinsns : f'.insns = f.insns := by
        obtain ⟨-⟩ := hff
        rfl
      dsimp only
      rw [hinsns, checkInsns_alike h hff]
      rcases e.checkInsns f 0 f.insns.toList with err | ⟨⟨⟩⟩
      · exact ⟨rfl, h⟩
      · obtain ⟨hord, hl, hfuncs⟩ := h
        obtain ⟨hs, hc⟩ := @placeSlots_alike e.target _ hord _ hk e.layouts
        obtain ⟨hs', hc'⟩ := @placeSlots_alike e.target _ hord _ (hff.known hk) _
        refine ⟨rfl, hord, hc.symm.trans (hl.trans hc'), ?_⟩
        obtain ⟨hvalues⟩ := hff
        have hplaced := forall₂_slotted (List.forall₂_drop 1 hvalues) hs hs'
        unfold Engine.compiled Engine.framed Engine.slots
        dsimp only
        rw [Array.toList_setIfInBounds, Array.toList_setIfInBounds]
        refine forall₂_set hfuncs (.intro ?_) (fn - 1)
        simpa using List.Forall₂.cons (.refl ValueInfo.placeholder) hplaced

theorem compile_agree (ht : e.Typed False) (h : e.Alike e') (fn : FuncId) :
    Agree Engine.Alike (compile fn) e e' := by
  refine found_bind h (h.findFunc fn) ?_ fun f => ?_
  · intro f f' hf
    obtain ⟨-⟩ := hf
    rfl
  · refine .ite' (fun _ => pure' _ _ _ h) fun _ => ?_
    refine (note_blind _ e e' h).bind' fun _ e₁ e₁' hr h₁ => ?_
    have ht₁ := ((keeps_note ht _).ok hr).1.typed
    refine Agree.bind' ?_ fun _ _ _ _ h₂ => note_blind _ _ _ h₂
    refine (compileOpen_agree ht₁ h₁ fn).tryCatch' fun err e₂ e₂' h₂ => ?_
    exact bind' (note_blind _) (fun _ => throw' err) _ _ h₂

end EngineM

/-! ## Histories -/

open EngineM in
open TypedIR.Respects in
theorem Operation.agree_perform {e e' : Engine} (ht : e.Typed False) (h : e.Alike e')
    (op : Operation) : Agree Engine.Alike op.perform e e' := by
  have emit : ∀ {α : Type} (fn : FuncId) {act : EmitM α}, Emit.Blind e.target act →
      Agree Engine.Alike (emitInto fn act) e e' :=
    fun fn _ hact => emitInto_agree h (fun _ hf => known_of_typed ht hf) hact
  have discard : ∀ {α : Type} {act : EngineM α}, Agree Engine.Alike act e e' →
      Agree Engine.Alike (Functor.discard act) e e' :=
    fun hact => hact.bind' fun _ _ _ _ h₁ => pure' _ _ _ h₁
  unfold perform
  cases op with
  | createContext => exact discard (createContext_blind e e' h)
  | destroyContext ctx => exact destroyContext_blind ctx e e' h
  | buildStart ctx => exact buildStart_blind ctx e e' h
  | buildEnd ctx => exact buildEnd_blind ctx e e' h
  | pointerType target => exact discard (pointerType_agree ht h target)
  | structType fields => exact discard (structType_agree ht h fields)
  | signatureType abi result params => exact discard (signatureType_agree ht h _ result params)
  | taggedType base tag data => exact discard (taggedType_agree ht h base _ data)
  | setFieldNames id names => exact setFieldNames_blind id names e e' h
  | layoutOf id => exact discard (layoutOf_blind id e e' h)
  | changeHost change =>
    obtain ⟨hord, hl, hfuncs⟩ := h
    exact ⟨rfl, hord, hl, hfuncs⟩
  | registerNative name run => exact registerNative_blind name run e e' h
  | removeNative name => exact removeNative_blind name e e' h
  | createFunction ctx sig name => exact discard (createFunction_blind ctx sig name e e' h)
  | createValue fn type => exact discard (emit fn (Emit.Blind.createLocal type))
  | setAddressable fn v => exact emit fn (Emit.Blind.setAddressable v)
  | constInt fn type n => exact discard (emit fn (Emit.Blind.constant type _ _))
  | constFloat32 fn type bits => exact discard (constFloat_agree ht h fn type _ _ _)
  | constFloat64 fn type bits => exact discard (constFloat_agree ht h fn type _ _ _)
  | newLabel fn => exact discard (emit fn Emit.Blind.newLabel)
  | placeLabel fn l => exact emit fn (Emit.Blind.placeLabel l)
  | binary fn op x y =>
    refine discard (.ite' (fun _ => fail_bind _ _ h) fun _ => ?_)
    exact emit fn (Emit.Blind.binary _ x y)
  | unary fn op x =>
    refine discard (.ite' (fun _ => fail_bind _ _ h) fun _ => ?_)
    exact emit fn (Emit.Blind.unary _ x)
  | compare fn op x y =>
    refine discard (.ite' (fun _ => fail_bind _ _ h) fun _ => ?_)
    exact emit fn (Emit.Blind.compare _ x y)
  | toBool fn x => exact discard (emit fn (Emit.Blind.test _ x))
  | toNotBool fn x => exact discard (emit fn (Emit.Blind.test _ x))
  | convert fn x type => exact discard (emit fn (Emit.Blind.convert x type))
  | store fn dest src => exact emit fn (Emit.Blind.store dest src)
  | addressOf fn v => exact discard (emit fn (Emit.Blind.addressOf v))
  | loadRel fn ptr offset type => exact discard (emit fn (Emit.Blind.loadRel ptr offset type))
  | storeRel fn ptr offset v => exact emit fn (Emit.Blind.storeRel ptr offset v)
  | loadElem fn base index type => exact discard (emit fn (Emit.Blind.loadElem base index type))
  | storeElem fn base index v => exact emit fn (Emit.Blind.storeElem base index v)
  | alloca fn size => exact discard (emit fn (Emit.Blind.alloca size))
  | branch fn l => exact emit fn (Emit.Blind.branch l)
  | branchIf fn cond l => exact emit fn (Emit.Blind.branchOn _ cond l)
  | branchIfNot fn cond l => exact emit fn (Emit.Blind.branchOn _ cond l)
  | ret fn v => exact emit fn (Emit.Blind.ret v)
  | defaultReturn fn => exact discard (emit fn Emit.Blind.defaultReturn)
  | call fn callee args => exact discard (call_agree ht h fn callee args)
  | callNative fn name sig args => exact discard (emit fn (Emit.Blind.callNative name sig args))
  | math fn op args => exact discard (emit fn (Emit.Blind.math _ args))
  | compile fn => exact compile_agree ht h fn

/-- A history and the same one with marks of scalars put in. The engine is the
one the first history starts from. -/
inductive Marked : Engine → List Operation → List Operation → Prop
  | nil {e : Engine} : Marked e [] []
  | keep {e : Engine} {op : Operation} {ops ops' : List Operation}
      (h : Marked (e.performed op) ops ops') : Marked e (op :: ops) (op :: ops')
  | mark {e : Engine} {fn : FuncId} {v : ValueId} {ops ops' : List Operation}
      (hscalar : ∀ f info, e.func? fn = some f → f.value? v = some info →
        info.rep.isScalar = true)
      (h : Marked e ops ops') : Marked e ops (.setAddressable fn v :: ops')

namespace Engine.Alike

variable {e e' : Engine}

theorem refl (ht : e.Typed False) : e.Alike e := by
  refine .intro ht.ordered (.refl _) ?_
  rw [List.forall₂_same]
  exact fun f _ => .refl f

theorem performed (ht : e.Typed False) (h : e.Alike e') (op : Operation) :
    (e.performed op).Alike (e'.performed op) :=
  (op.agree_perform ht h).2

theorem run_setAddressable (v : ValueId) (b : Bench) :
    ((Emit.setAddressable v).run b : Except Failure Unit × Bench).2 = b ∨
    (b.func.value? v).isSome = true ∧
      ((Emit.setAddressable v).run b : Except Failure Unit × Bench).2 =
        { b with func := b.func.mark v } := by
  unfold Emit.setAddressable
  rw [run_bind, Emit.Blind.run_value]
  rcases b.func.value? v with _ | info
  · exact .inl rfl
  · by_cases hc : info.origin = .const
    · simp only [hc, if_true]
      exact .inl rfl
    · simp only [hc, if_false]
      exact .inr ⟨rfl, rfl⟩

theorem mark (h : e.Alike e') {fn : FuncId} {v : ValueId}
    (hscalar : ∀ f info, e.func? fn = some f → f.value? v = some info →
      info.rep.isScalar = true) : e.Alike (e'.performed (.setAddressable fn v)) := by
  have hfound := h.findOpen fn
  unfold Engine.performed Operation.perform EngineM.setAddressable
  rw [EngineM.run_emitInto]
  rcases hf : e.findOpen fn with err | f <;> rw [hf] at hfound <;>
    generalize e'.findOpen fn = y at hfound
  · cases hfound
    exact h
  · cases hfound with
    | ok hff =>
      rename_i f'
      obtain ⟨hfunc, -, -, -⟩ := EngineM.findOpen_ok hf
      obtain @⟨layouts, funcs, hord, hl, hfuncs⟩ := h
      have hself : e.funcs.toList.set (fn - 1) f = e.funcs.toList := by
        obtain ⟨hlt, hget⟩ := Array.getElem?_eq_some_iff.mp (func?_lt hfunc).2.1
        rw [← hget, ← Array.getElem_toList, List.set_getElem_self]
      have hput : ∀ g, f.Alike g → Engine.Alike e
          { e with layouts, funcs := funcs.setIfInBounds (fn - 1) g } := by
        intro g hg
        refine .intro hord hl ?_
        rw [Array.toList_setIfInBounds, ← hself]
        exact forall₂_set hfuncs hg (fn - 1)
      rcases run_setAddressable v { target := e.target, types := e.types, layouts, func := f' }
        with hr | ⟨hv, hr⟩
      · dsimp only at hr ⊢
        rw [hr]
        simpa using hput f' hff
      · dsimp only at hr hv ⊢
        rw [hr]
        obtain ⟨info', hinfo'⟩ := Option.isSome_iff_exists.mp hv
        have hrel := hff.value? v
        rw [hinfo'] at hrel
        rcases hinfo : f.value? v with _ | info
        · rw [hinfo] at hrel
          cases hrel
        · simpa using hput _ (hff.mark_right hinfo (hscalar f info hfunc hinfo))

end Engine.Alike

theorem Marked.alike {e e' : Engine} {ops ops' : List Operation} (hm : Marked e ops ops')
    (ht : e.Typed False) (h : e.Alike e') : (e.after ops).Alike (e'.after ops') := by
  induction hm generalizing e' with
  | nil => exact h
  | keep _ ih => exact ih (Engine.step_performed ht _ nofun).typed (h.performed ht _)
  | mark hscalar _ ih => exact ih ht (h.mark hscalar)

end TypedIR
