import TypedIR.Proofs.History
import TypedIR.Proofs.LoweredBlocks

/-
  The whole of an exported function.

  A function is opened with the slots of its values and the stores of its
  parameters, its instructions are lowered one after the other, and its last
  block is closed. `Exported` holds what a successful export went through.
-/

namespace TypedIR.Llvm

namespace Lowering

def defined (s : Lowering) (name : String) (ret : LType) (params : List LType) : Lowering :=
  { s with
    self := s.module.functions.size
    module := { s.module with
      functions := s.module.functions.push { name, ret, params, body := some {} } }
    names := (name, s.module.functions.size) :: s.names
    body := { blocks := #[{ name := .entry }], order := #[0] } }

def slotted (s : Lowering) (slots : List (ValueId × LType)) : Lowering :=
  (slots.map fun p => Instr.slot p.1 p.2).foldl written s

def closed (s : Lowering) : Body :=
  { s.body with blocks := s.body.blocks.modify s.current ({ · with terminator := some .unreachable }) }

variable {s s' : Lowering} {ls : List Line}

theorem growing_defined (hs : s.current = 0) (name : String) (ret : LType) (params : List LType) :
    (s.defined name ret params).Growing [.head .entry] :=
  ⟨[], { name := .entry }, ⟨rfl, rfl, hs, nofun, rfl, List.nodup_singleton _⟩, rfl⟩

theorem Growing.slotted (h : s.Growing ls) (slots : List (ValueId × LType)) :
    (s.slotted slots).Growing (ls ++ slots.map fun p => Line.instr (.slot p.1 p.2)) := by
  induction slots generalizing s ls with
  | nil => simpa [Lowering.slotted] using h
  | cons p slots ih =>
    have := ih (h.written (.slot p.1 p.2))
    rwa [List.append_assoc] at this

theorem slotted_rest (s : Lowering) (slots : List (ValueId × LType)) :
    (s.slotted slots).names = s.names ∧ (s.slotted slots).self = s.self ∧
      (s.slotted slots).module = s.module := by
  unfold Lowering.slotted
  induction slots.map (fun p => Instr.slot p.1 p.2) generalizing s with
  | nil => exact ⟨rfl, rfl, rfl⟩
  | cons i is ih => exact ih (s.written i)

theorem Growing.closed (h : s.Growing ls) :
    s.closed.lines = ls ++ [.ending .unreachable] ∧ (∀ b ∈ s.closed.listed, b.terminator.isSome) ∧
      s.closed.listed.map (·.name) = heads ls := by
  obtain ⟨bs, b, h, rfl⟩ := h
  have hlisted : s.closed.listed = bs ++ [{ b with terminator := some .unreachable }] := by
    refine listed_eq ?_ ?_
    · simp only [Lowering.closed, h.blocks, h.current]
      exact modify_last bs b _
    · simp [Lowering.closed, h.order]
  refine ⟨?_, ?_, ?_⟩
  · rw [Body.lines, hlisted]
    simp [Block.lines, h.isOpen]
  · rw [hlisted]
    intro c hc
    rcases List.mem_append.mp hc with hc | hc
    · exact h.ended c hc
    · rw [List.mem_singleton.mp hc]
      rfl
  · rw [hlisted, heads_blocks]
    simp

end Lowering

namespace LowerM

open Lowering

variable {s s' : Lowering} {ls : List Line}

/-- The slots of values from a position on, with their types. -/
inductive Slots : ValueId → List ValueInfo → List (ValueId × LType) → Prop
  | nil {v} : Slots v [] []
  | skip {v i is slots} (hi : hasSlot i = false) (h : Slots (v + 1) is slots) :
      Slots v (i :: is) slots
  | slot {v i is t slots} (hi : hasSlot i = true) (ht : LType.ofRep? i.rep = some t)
      (h : Slots (v + 1) is slots) : Slots v (i :: is) ((v, t) :: slots)

theorem Slots.le {v : ValueId} {is : List ValueInfo} {slots : List (ValueId × LType)}
    (h : Slots v is slots) : ∀ p ∈ slots, v ≤ p.1 := by
  induction h with
  | nil => exact List.forall_mem_nil _
  | skip _ _ ih => exact fun p hp => Nat.le_of_succ_le (ih p hp)
  | slot _ _ _ ih =>
    exact List.forall_mem_cons.mpr ⟨Nat.le_refl _, fun p hp => Nat.le_of_succ_le (ih p hp)⟩

theorem Slots.nodup {v : ValueId} {is : List ValueInfo} {slots : List (ValueId × LType)}
    (h : Slots v is slots) : (slots.map Prod.fst).Nodup := by
  induction h with
  | nil => exact List.nodup_nil
  | skip _ _ ih => exact ih
  | slot _ _ h ih =>
    refine List.nodup_cons.mpr ⟨fun hmem => ?_, ih⟩
    obtain ⟨p, hp, hv⟩ := List.mem_map.mp hmem
    exact Nat.not_succ_le_self _ (hv ▸ h.le p hp)

theorem ends_lowerSlots (v : ValueId) (is : List ValueInfo) :
    Ends (lowerSlots v is) s (fun _ s' => ∃ slots, Slots v is slots ∧ s' = s.slotted slots)
      fun _ _ => True := by
  induction is generalizing s v with
  | nil => exact Ends.pure' ⟨[], .nil, rfl⟩
  | cons i is ih =>
    unfold lowerSlots
    refine Ends.ite' (fun hi => ?_) fun hi => ?_
    · refine ends_after (quiet_typeOf i.rep) ?_
      rintro t _ - ⟨rfl, ht⟩
      refine Ends.bind_modify ((ih (v + 1)).imp ?_)
      rintro _ _ ⟨slots, hslots, rfl⟩
      exact ⟨(v, t) :: slots, .slot hi ht hslots, rfl⟩
    · refine (ih (v + 1)).imp ?_
      rintro _ _ ⟨slots, hslots, rfl⟩
      exact ⟨slots, .skip (by simpa using hi) hslots, rfl⟩

theorem quiet_lowerParams (f : Func) (n : Nat) (ps : List (ValueId × LType)) :
    Keeps Quiet (lowerParams f n ps) s fun _ _ => True := by
  induction ps generalizing s n with
  | nil => exact .pure' (Std.Refl.refl s) trivial
  | cons p ps ih =>
    unfold lowerParams
    dsimp only
    split
    · refine .ite' (fun _ => .bind' (quiet_set (knows_of_ne ?_) f p.1) fun _ _ _ _ => ih (n + 1))
        fun _ => crash'
      rintro _ _ ⟨⟩
    · exact crash'

def ParamTypes (f : Func) (ts : List LType) : Prop :=
  List.Forall₂ (fun p t => ∃ i, f.values[p]? = some i ∧ LType.ofRep? i.rep = some t) f.params ts

theorem quiet_valueTypes (f : Func) (vs : List ValueId) :
    Keeps Quiet (vs.mapM fun v => do typeOf (← repOfValue f v)) s fun ts s' => s = s' ∧
      List.Forall₂ (fun p t => ∃ i, f.values[p]? = some i ∧ LType.ofRep? i.rep = some t) vs ts := by
  induction vs with
  | nil => exact .pure' (Std.Refl.refl s) ⟨rfl, .nil⟩
  | cons v vs ih =>
    rw [List.mapM_cons]
    have hone : Keeps Quiet (do typeOf (← repOfValue f v)) s fun t s' => s = s' ∧
        ∃ i, f.values[v]? = some i ∧ LType.ofRep? i.rep = some t := by
      refine .bind' (quiet_repOfValue f v) ?_
      rintro r _ - ⟨rfl, i, hi, rfl⟩
      refine (quiet_typeOf i.rep).mono ?_
      rintro t _ - ⟨rfl, ht⟩
      exact ⟨rfl, i, hi, ht⟩
    refine .bind' hone ?_
    rintro t _ - ⟨rfl, ht⟩
    refine .bind' ih ?_
    rintro ts _ - ⟨rfl, hts⟩
    exact .pure' (Std.Refl.refl s) ⟨rfl, .cons ht hts⟩

/-- A definition that is open: it was started under a name that stood for no
definition, with the types of the function, its slots and its parameters. -/
structure Opened (e : Engine) (f : Func) (o : Options) (name : String) (s : Lowering) (sc : Scene)
    (s' : Lowering) (ret : LType) (params : List LType) (slots : List (ValueId × LType)) : Prop where
  scene : sc = { engine := e, func := f, ptrInt := sc.ptrInt,
                 openNatives := openNatives o.variadic f.insns.toList }
  free : ∀ i g, s.names.lookup name = some i → s.module.functions[i]? = some g → g.body = none
  gives : TypeOfId e (resultOf e f.sig) ret
  takes : ParamTypes f params
  holds : Slots 1 (f.values.toList.drop 1) slots
  stores : ((s.defined name ret params).slotted slots).Quiet s'

theorem ends_openFunction (e : Engine) (f : Func) (o : Options) (name : String) :
    Ends (openFunction e f o name) s
      (fun sc s' => ∃ ret params slots, Opened e f o name s sc s' ret params slots)
      fun _ _ => True := by
  unfold openFunction
  have hint : Keeps Quiet (intType e.target.ptrSize) s fun _ s' => s = s' := by
    unfold intType
    exact .ite' (fun _ => .pure' (Std.Refl.refl s) rfl) fun _ => fail'
  refine ends_after hint ?_
  rintro ptrInt _ - rfl
  refine ends_after (quiet_repOf e _) ?_
  rintro r _ - ⟨rfl, hr⟩
  refine ends_after (quiet_typeOf r) ?_
  rintro ret _ - ⟨rfl, hret⟩
  refine ends_after (quiet_valueTypes f f.params) ?_
  rintro params _ - ⟨rfl, hparams⟩
  refine Ends.bind_get ?_
  extract_lets self start
  have hstart : (∀ i g, s.names.lookup name = some i → s.module.functions[i]? = some g →
      g.body = none) → Ends (start ⟨⟩) s (fun sc s' => ∃ ret params slots,
        Opened e f o name s sc s' ret params slots) fun _ _ => True := by
    intro hfree
    refine Ends.bind_modify ?_
    refine Ends.bind' (ends_lowerSlots 1 _) ?_
    rintro _ _ ⟨slots, hslots, rfl⟩
    refine ends_after (quiet_lowerParams f 0 _) ?_
    rintro _ s' hq -
    exact Ends.pure' ⟨ret, params, slots, rfl, hfree, ⟨r, hr, hret⟩, hparams, hslots, hq⟩
  split
  · next g hg =>
    obtain ⟨i, hi, hgi⟩ := Option.bind_eq_some_iff.mp hg
    refine Ends.ite' (fun _ => Ends.throw' trivial) fun hbody => hstart fun j g' hj hg' => ?_
    obtain rfl := Option.mem_unique hi hj
    obtain rfl := Option.mem_unique hgi hg'
    simpa using hbody
  · next hnone =>
    refine hstart fun i g hi hg => ?_
    rw [hi] at hnone
    exact absurd (hnone.symm.trans hg) nofun

theorem ends_closeFunction (h : s.Growing ls) :
    Ends closeFunction s (fun _ s' => s' = { s with body := s.closed }) fun _ _ => False := by
  unfold closeFunction
  refine Ends.bind_get ?_
  obtain ⟨bs, b, h, -⟩ := h
  rw [if_pos (by simp [h.blocks, h.current, h.isOpen])]
  exact Ends.modify' rfl

/-- What opening leaves: the first block with the slots and the stores of the
parameters. -/
theorem Opened.growing {e : Engine} {f : Func} {o : Options} {name : String} {sc : Scene}
    {ret : LType} {params : List LType} {slots : List (ValueId × LType)}
    (h : Opened e f o name s sc s' ret params slots) (hs : s.current = 0) :
    ∃ es, ((s.defined name ret params).slotted slots).Performs es s' ∧
      s'.Growing (([Line.head .entry] ++ slots.map fun p => Line.instr (.slot p.1 p.2)) ++
        (es.filterMap Event.instr?).map .instr) := by
  obtain ⟨is, his, -⟩ := h.stores
  exact ⟨_, his, ((growing_defined hs name ret params).slotted slots).performs his⟩

theorem Opened.own {e : Engine} {f : Func} {o : Options} {name : String} {sc : Scene}
    {ret : LType} {params : List LType} {slots : List (ValueId × LType)}
    (h : Opened e f o name s sc s' ret params slots) :
    s'.names.lookup name = some s'.self ∧ s'.self = s.module.functions.size ∧
      s'.module.functions[s.module.functions.size]? =
        some { name, ret, params, body := some {} } := by
  obtain ⟨is, his, -⟩ := h.stores
  obtain ⟨hnames, hself, hmodule⟩ := slotted_rest (s.defined name ret params) slots
  have hs' : s'.self = s.module.functions.size := his.self_eq.trans hself
  refine ⟨?_, hs', his.functions ?_⟩
  · rw [hs']
    refine his.lookup ?_
    rw [hnames]
    exact List.lookup_cons_self
  · rw [hmodule]
    simp [Lowering.defined]

/-- What the lowering of a whole function goes through: it is opened, its
instructions are lowered one after the other, and it is closed. -/
structure Exported (e : Engine) (f : Func) (o : Options) (name : String) (s : Lowering) (sc : Scene)
    (s₁ s₂ : Lowering) (ret : LType) (params : List LType) (slots : List (ValueId × LType))
    (pieces : List (List Line)) : Prop where
  opened : Opened e f o name s sc s₁ ret params slots
  openRun : ((openFunction e f o name).run s : Except (Halt Problem) Scene × Lowering) = (.ok sc, s₁)
  lowered : LowersAll sc name 0 f.insns.toList s₁ pieces s₂

theorem Exported.growing {e : Engine} {f : Func} {o : Options} {name : String} {sc : Scene}
    {s₁ s₂ : Lowering} {ret : LType} {params : List LType} {slots : List (ValueId × LType)}
    {pieces : List (List Line)} (h : Exported e f o name s sc s₁ s₂ ret params slots pieces)
    (hs : s.current = 0) :
    s₁.Growing s₁.body.lines ∧ s₂.Growing (s₁.body.lines ++ pieces.flatten) := by
  obtain ⟨es, -, hgrowing⟩ := h.opened.growing hs
  rw [hgrowing.lines]
  exact ⟨hgrowing, h.lowered.growing hgrowing⟩

theorem Exported.self {e : Engine} {f : Func} {o : Options} {name : String} {sc : Scene}
    {s₁ s₂ : Lowering} {ret : LType} {params : List LType} {slots : List (ValueId × LType)}
    {pieces : List (List Line)} (h : Exported e f o name s sc s₁ s₂ ret params slots pieces) :
    s₂.self = s.module.functions.size ∧
      s₂.module.functions[s.module.functions.size]? = some { name, ret, params, body := some {} } := by
  obtain ⟨-, hself, hg⟩ := h.opened.own
  exact ⟨h.lowered.self_eq.trans hself, h.lowered.functions hg⟩

theorem Exported.defined {e : Engine} {f : Func} {o : Options} {name : String} {sc : Scene}
    {s₁ s₂ : Lowering} {ret : LType} {params : List LType} {slots : List (ValueId × LType)}
    {pieces : List (List Line)} (h : Exported e f o name s sc s₁ s₂ ret params slots pieces)
    (hs : s.current = 0) :
    (s₂.module.functions.modify s₂.self fun g =>
      if g.body.isSome && !s₂.closed.blocks.isEmpty then { g with body := some s₂.closed } else g)[
        s.module.functions.size]? = some { name, ret, params, body := some s₂.closed } := by
  obtain ⟨hself, hg⟩ := h.self
  obtain ⟨-, bs, b, hgrown, -⟩ := h.growing hs
  have hsome : s₂.closed.blocks ≠ #[] := by
    simp [Lowering.closed, hgrown.blocks]
  rw [Array.getElem?_modify, hself, if_pos rfl, hg]
  simp [hsome]

theorem ends_lowerFunction {e : Engine} {f : Func} {o : Options} {name : String}
    (hs : s.current = 0) (honce : LabelsOnce f.insns.toList) (hnop : ∀ i ∈ f.insns.toList, i.op ≠ .nop) :
    Ends (lowerFunction e f o name) s (fun _ s' => ∃ sc s₁ s₂ ret params slots pieces,
      Exported e f o name s sc s₁ s₂ ret params slots pieces ∧ s' = { s₂ with body := s₂.closed })
      fun _ _ => True := by
  refine Ends.bind' (((ends_openFunction e f o name).and' (Ends.of_run rfl)).imp_stop
    fun _ _ _ => trivial) ?_
  rintro sc s₁ ⟨⟨ret, params, slots, hopened⟩, hrun⟩
  obtain ⟨es, -, hgrowing⟩ := hopened.growing hs
  have hnamed : NamedBefore f.insns.toList 0 (([.head .entry] ++
      slots.map fun p => .instr (.slot p.1 p.2)) ++ (es.filterMap Event.instr?).map .instr) := by
    intro n hn
    have hslots : heads (slots.map fun p => Line.instr (.slot p.1 p.2)) = [] := by
      simp [heads, List.filterMap_eq_nil_iff, Line.head?]
    rw [heads_append, heads_append, heads_instrs, hslots] at hn
    exact .inl (by simpa [heads, Line.head?] using hn)
  refine Ends.bind' (ends_lowerInsns honce hnop hgrowing hnamed hopened.own.1 ?_) ?_
  · exact List.drop_zero
  · rintro _ s₂ ⟨pieces, hall⟩
    refine (ends_closeFunction (hall.growing hgrowing)).mono ?_ fun _ _ h => h.elim
    rintro _ _ rfl
    exact ⟨sc, s₁, s₂, ret, params, slots, pieces, ⟨hopened, hrun, hall⟩, rfl⟩

end LowerM

def Module.lowering (m : Module) : Lowering :=
  { module := m, names := ((m.functions.toList.zipIdx).map fun (g, i) => (g.key, i)).reverse }

def Options.nameOf (o : Options) (f : Func) : String := if o.name = "" then f.name else o.name

/-- What a successful export comes to: the function is lowered and its body put
in place. -/
theorem Module.addFunction_ok {m m' : Module} {e : Engine} {fn : FuncId} {o : Options}
    (h : m.addFunction e fn o = (.ok (), m')) :
    ∃ f s, e.findFunc fn = .ok f ∧ f.compiled = true ∧
      ((LowerM.lowerFunction e f o (o.nameOf f)).run m.lowering :
        Except (Halt Problem) Unit × Lowering) = (.ok (), s) ∧
      m' = { s.module with functions := s.module.functions.modify s.self fun g =>
        if g.body.isSome && !s.body.blocks.isEmpty then { g with body := some s.body } else g } := by
  unfold addFunction at h
  cases hf : e.findFunc fn with
  | error err => simp [hf] at h
  | ok f =>
    rw [hf] at h
    dsimp only at h
    by_cases hc : f.compiled = true
    · rw [if_neg (by simp [hc])] at h
      rcases hrun : ((LowerM.at_ ("llvmir: " ++ o.nameOf f) (LowerM.lowerFunction e f o (o.nameOf f))).run
        m.lowering : Except (Halt Problem) Unit × Lowering) with ⟨answer, s⟩
      have hrun' := hrun
      unfold Options.nameOf Module.lowering at hrun'
      rw [hrun'] at h
      obtain ⟨rfl, rfl⟩ := Prod.mk.inj h
      exact ⟨f, s, rfl, hc, LowerM.run_of_at hrun, rfl⟩
    · rw [if_pos (by simpa using hc)] at h
      simp at h

theorem LowerM.labelsOnce {sc : TypedIR.Scope} {f : Func} (h : f.Typed sc) :
    LabelsOnce f.insns.toList := by
  intro p q i j hi hj hop hop' hlabel
  rw [Array.getElem?_toList] at hi hj
  have hp := h.placed hi hop
  rw [hlabel, h.placed hj hop'] at hp
  exact (Int.ofNat.inj (Option.some.inj hp)).symm

theorem LowerM.op_ne_nop {sc : TypedIR.Scope} {f : Func} (h : f.Typed sc) :
    ∀ i ∈ f.insns.toList, i.op ≠ .nop := by
  rintro i hi hop
  have hi := h.insn i (Array.mem_toList_iff.mp hi)
  cases hi with
  | binary hop' | compare hop' => cases hop; cases hop'
  | unary hop' | test hop' | branchOn hop' => cases hop; exact hop'.elim nofun nofun
  | _ => cases hop

/-- What the export of a function of an engine that operations built goes
through. -/
theorem exported_of_ok {target : Target} {e : Engine} {m m' : Module} {fn : FuncId} {o : Options}
    (he : e.Built target) (h : m.addFunction e fn o = (.ok (), m')) :
    ∃ f sc s₁ s₂ ret params slots pieces, e.findFunc fn = .ok f ∧ f.compiled = true ∧
      LowerM.Exported e f o (o.nameOf f) m.lowering sc s₁ s₂ ret params slots pieces ∧
      m' = { s₂.module with functions := s₂.module.functions.modify s₂.self fun g =>
        if g.body.isSome && !s₂.closed.blocks.isEmpty then { g with body := some s₂.closed } else g } := by
  obtain ⟨f, s', hf, hcompiled, hrun, rfl⟩ := m.addFunction_ok h
  have hft := he.typed.func (EngineM.findFunc_ok hf).1
  have hends : Ends (LowerM.lowerFunction e f o (o.nameOf f)) m.lowering _ _ :=
    LowerM.ends_lowerFunction rfl (LowerM.labelsOnce hft) (LowerM.op_ne_nop hft)
  obtain ⟨sc, s₁, s₂, ret, params, slots, pieces, hexp, rfl⟩ := hends.ok_of_run hrun
  exact ⟨f, sc, s₁, s₂, ret, params, slots, pieces, hf, hcompiled, hexp, rfl⟩

end TypedIR.Llvm
