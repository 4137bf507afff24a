import TypedIR.Proofs.ExportedBodies

/-
  The names of the functions of a module.

  Lowering declares functions, and only under names that stand for nothing yet
  (`Declaring`); this holds of every instruction of every function, however its
  labels are placed. An export defines its function under a name that need not
  be new: only a name that is defined already is refused, one that is declared
  is not. So of a module that a sequence of exports assembled, the names are
  pairwise distinct if and only if each function was exported under a name that
  the module did not have by then (`assembled_names`).
-/

namespace TypedIR.Llvm

def Module.names (m : Module) : List String := m.functions.toList.map (·.name)

/-- Every function of the module is called by its key. -/
def Module.Plain (m : Module) : Prop := ∀ g ∈ m.functions, g.key = g.name

namespace Lowering

def Covers (s : Lowering) : Prop := ∀ n ∈ s.module.names, s.names.lookup n ≠ none

/-- What lowering does to the functions of the module: it adds some under new
names. -/
structure Declaring (s s' : Lowering) : Prop where
  self : s'.self = s.self
  grounded : s.Grounded → s'.Grounded
  lookup : ∀ {n c}, s.names.lookup n = some c → s'.names.lookup n = some c
  names : ∃ ns, s'.module.names = s.module.names ++ ns ∧
    (s.Covers → s'.Covers ∧ ns.Nodup ∧ ∀ n ∈ ns, n ∉ s.module.names)

variable {s s' s'' : Lowering}

theorem Declaring.of_module_eq (hself : s'.self = s.self) (hgrounded : s.Grounded → s'.Grounded)
    (hnames : s'.names = s.names) (hmodule : s'.module = s.module) : s.Declaring s' := by
  refine ⟨hself, hgrounded, fun h => hnames ▸ h, [], ?_, fun hc => ⟨?_, List.nodup_nil, nofun⟩⟩
  · rw [hmodule, List.append_nil]
  · unfold Covers
    rw [hmodule, hnames]
    exact hc

theorem Declaring.refl (s : Lowering) : s.Declaring s := .of_module_eq rfl id rfl rfl

theorem Declaring.trans (h : s.Declaring s') (h' : s'.Declaring s'') : s.Declaring s'' := by
  obtain ⟨ns, hns, hnew⟩ := h.names
  obtain ⟨ns', hns', hnew'⟩ := h'.names
  refine ⟨h'.self.trans h.self, fun hs => h'.grounded (h.grounded hs), fun hn => h'.lookup (h.lookup hn),
    ns ++ ns', by rw [hns', hns, List.append_assoc], fun hc => ?_⟩
  obtain ⟨hc', hnodup, hout⟩ := hnew hc
  obtain ⟨hc'', hnodup', hout'⟩ := hnew' hc'
  refine ⟨hc'', List.nodup_append.mpr ⟨hnodup, hnodup', ?_⟩, ?_⟩
  · rintro n hn n' hn' rfl
    exact hout' n hn' (hns ▸ List.mem_append_right _ hn)
  · intro n hn hmem
    rcases List.mem_append.mp hn with hn | hn
    · exact hout n hn hmem
    · exact hout' n hn (hns ▸ List.mem_append_left _ hmem)

theorem names_declared (g : Function) : (s.declared g).module.names = s.module.names ++ [g.name] := by
  simp [declared, Module.names]

theorem Covers.declared (hc : s.Covers) (g : Function) : (s.declared g).Covers := by
  intro n hn
  rw [names_declared, List.mem_append, List.mem_singleton] at hn
  by_cases hng : n = g.name
  · simp [Lowering.declared, hng]
  · rw [Lowering.declared, List.lookup_cons, beq_false_of_ne hng]
    exact hc n (hn.resolve_right hng)

theorem declaring_declared {g : Function} (hg : s.names.lookup g.name = none) :
    s.Declaring (s.declared g) := by
  refine ⟨rfl, id, fun {n c} hn => ?_, [g.name], names_declared g, fun hc =>
    ⟨hc.declared g, List.nodup_singleton _, fun n hn hmem => ?_⟩⟩
  · have hne : n ≠ g.name := by
      rintro rfl
      rw [hg] at hn
      cases hn
    rw [declared, List.lookup_cons, beq_false_of_ne hne]
    exact hn
  · exact hc n hmem (List.mem_singleton.mp hn ▸ hg)

theorem Performs.declaring {es : List Event} (h : s.Performs es s') : s.Declaring s' := by
  induction h with
  | nil => exact .refl _
  | @write s _ i _ _ _ ih =>
    have hwritten : s.Declaring (s.written i) :=
      .of_module_eq rfl (fun hs => by simpa [Grounded, written] using hs) rfl rfl
    exact hwritten.trans ih
  | declare _ hg _ ih => exact (declaring_declared hg).trans ih

theorem Quiet.declaring (h : s.Quiet s') : s.Declaring s' := by
  obtain ⟨is, h, -⟩ := h
  exact h.declaring

end Lowering

namespace LowerM

open Lowering

variable {s : Lowering}

def Adds {α : Type} (act : LowerM α) (s : Lowering) : Prop :=
  Ends act s (fun _ s' => s.Declaring s') fun _ _ => True

theorem Adds.bind' {α β : Type} {act : LowerM α} {k : α → LowerM β} (h : Adds act s)
    (hk : ∀ a s', s.Declaring s' → Adds (k a) s') : Adds (act >>= k) s :=
  Ends.bind' h fun a s' hd => (hk a s' hd).imp fun _ _ hd' => hd.trans hd'

theorem Adds.of_emits {act : LowerM Unit} {post} (h : Emits post act s) : Adds act s := by
  refine h.imp ?_
  rintro _ s' ⟨gs, calls, ⟨es, hes, -⟩, -⟩
  exact hes.declaring

theorem Adds.after {α β : Type} {act : LowerM α} {k : α → LowerM β} {known : α → Lowering → Prop}
    (h : Keeps Quiet act s known) (hk : ∀ a s', s.Quiet s' → known a s' → Adds (k a) s') :
    Adds (act >>= k) s :=
  ends_after h fun a s' hq ha =>
    (hk a s' hq ha).imp fun _ _ hd => hq.declaring.trans hd

theorem adds_terminate (t : Terminator) : Adds (terminate t) s :=
  Ends.modify' (.of_module_eq rfl (by simp [Grounded]) rfl rfl)

theorem adds_startBlock (n : BlockName) : Adds (startBlock n) s := by
  unfold startBlock
  refine Ends.bind_get ?_
  extract_lets size go
  have hgo : ∀ t : Lowering, t.self = s.self → t.names = s.names → t.module = s.module →
      t.body.blocks.size = s.body.blocks.size →
      Ends (go ⟨⟩) t (fun _ s' => s.Declaring s') fun _ _ => True := by
    intro t hself hnames hmodule hsize
    dsimp only [go]
    cases hi : s.body.blocks.findIdx? (·.name == n) with
    | some i =>
      refine Ends.modify' (.of_module_eq hself (fun _ => ?_) hnames hmodule)
      rw [Grounded, hsize]
      exact (Array.findIdx?_eq_some_iff_getElem.mp hi).1
    | none =>
      refine Ends.modify' (.of_module_eq hself (fun _ => ?_) hnames hmodule)
      simp [Grounded, hsize, size]
  refine Ends.ite' (fun _ => ?_) fun _ => hgo s rfl rfl rfl rfl
  exact Ends.bind_modify (hgo _ rfl rfl rfl (by simp))

theorem adds_labelBlock (f : Func) (l : LabelId) : Adds (labelBlock f l) s := by
  unfold labelBlock
  exact Ends.ite' (fun _ => Ends.throw' trivial) fun _ => Ends.pure' (.refl s)

theorem adds_lowerInsn (hs : s.Grounded) {own : String} (hown : s.names.lookup own = some s.self)
    (sc : Scene) (pc : Nat) (i : Insn) : Adds (lowerInsn sc pc i) s := by
  by_cases hstraight : isStraight i.op = true
  · exact .of_emits (emits_lowerInsn hs sc pc hstraight)
  by_cases hcalling : isCalling i.op = true
  · exact .of_emits (emits_lowerCall hs sc hown pc hcalling)
  unfold lowerInsn
  refine Ends.ite' (fun hb => ?_) fun _ => Ends.ite' (fun hc => ?_) fun _ => ?_
  · generalize i.op = op at *
    cases op <;> simp_all [isStraight, isCalling, Opcode.isBinary]
  · generalize i.op = op at *
    cases op <;> simp_all [isStraight, isCalling, Opcode.isCompare]
  have hend : ∀ {t : Lowering} (term : Terminator), Adds (do
      terminate term
      startBlock (.before (pc + 1))) t := fun term =>
    (adds_terminate term).bind' fun _ _ _ => adds_startBlock _
  extract_lets f jump after
  split
  case h_1 => exact Ends.pure' (.refl s)
  case h_14 => exact (adds_labelBlock f i.label).bind' fun n _ _ => adds_startBlock n
  case h_15 => exact (adds_labelBlock f i.label).bind' fun n _ _ => hend _
  case h_16 | h_17 =>
    refine (adds_labelBlock f i.label).bind' fun n s₁ h₁ => ?_
    have hs₁ := h₁.grounded hs
    refine .after (quiet_operand hs₁ f i.a) ?_
    rintro a s₂ hq ⟨_, _, _, _, ha⟩
    refine .after (quiet_repOfValue f i.a) ?_
    rintro r _ - ⟨rfl, -⟩
    exact .after (quiet_truth (hq.grounded hs₁) ha.1 r _) fun c s₃ _ _ => hend _
  case h_18 =>
    refine Ends.ite' (fun _ => hend _) fun _ => ?_
    refine Adds.after (quiet_repOf _ _) ?_
    rintro r _ - ⟨rfl, -⟩
    exact .after (quiet_operandAs hs _ _ _ _) fun x s₁ _ _ => hend _
  case h_22 => exact Ends.throw' trivial
  all_goals
    exfalso
    simp_all [isStraight, isCalling]

theorem adds_lowerInsns (hs : s.Grounded) {own : String} (hown : s.names.lookup own = some s.self)
    (sc : Scene) (pc : Nat) (is : List Insn) : Adds (lowerInsns sc pc is) s := by
  induction is generalizing s pc with
  | nil => exact Ends.pure' (.refl s)
  | cons i is ih =>
    refine Adds.bind' (ends_at (adds_lowerInsn hs hown sc pc i)) fun _ s' h => ?_
    exact ih (h.grounded hs) (h.self ▸ h.lookup hown) (pc + 1)

theorem ends_closeFunction_names (s : Lowering) :
    Ends closeFunction s (fun _ s' => s'.module = s.module) fun _ _ => True := by
  unfold closeFunction
  exact Ends.bind_get (Ends.ite' (fun _ => Ends.modify' rfl) fun _ => Ends.pure' rfl)

/-- The functions of the module once a function is lowered: those that were
there, the function, and others under new names. -/
theorem ends_lowerFunction_names {e : Engine} {f : Func} {o : Options} {name : String}
    (hs : s.current = 0) :
    Ends (lowerFunction e f o name) s (fun _ s' => ∃ ns,
      s'.module.names = s.module.names ++ name :: ns ∧
        (s.Covers → ns.Nodup ∧ ∀ n ∈ ns, n ∉ s.module.names ∧ n ≠ name)) fun _ _ => True := by
  refine Ends.bind' (ends_openFunction e f o name) ?_
  rintro sc s₁ ⟨ret, params, slots, hopened⟩
  obtain ⟨es, hes, hgrowing⟩ := hopened.growing hs
  obtain ⟨hnames, -, hmodule⟩ := slotted_rest (s.defined name ret params) slots
  have hdefined : (s.defined name ret params).module.names = s.module.names ++ [name] := by
    simp [Lowering.defined, Module.names]
  have hcovers : s.Covers → ((s.defined name ret params).slotted slots).Covers := by
    intro hc
    unfold Covers
    rw [hnames, hmodule]
    exact hc.declared { name, ret, params, body := some {} }
  refine Ends.bind' (adds_lowerInsns hgrowing.grounded hopened.own.1 sc 0 _) fun _ s₂ h₂ => ?_
  refine (ends_closeFunction_names s₂).imp ?_
  intro _ s₃ hmodule₃
  obtain ⟨ns, hns, hnew⟩ := (hes.declaring.trans h₂).names
  rw [hmodule, hdefined] at hns
  refine ⟨ns, by rw [hmodule₃, hns]; simp, fun hc => ?_⟩
  obtain ⟨-, hnodup, hout⟩ := hnew (hcovers hc)
  rw [hmodule, hdefined] at hout
  exact ⟨hnodup, fun n hn => by simpa using hout n hn⟩

end LowerM

/-! ## Sequences of exports -/

/-- A function of an engine, and how it is to be exported. -/
structure Export where
  engine : Engine
  fn : FuncId
  options : Options := {}

def Export.name (x : Export) : String :=
  match x.engine.findFunc x.fn with
  | .ok f => x.options.nameOf f
  | .error _ => ""

namespace Module

/-- The module once functions are exported into it one after the other, if
all of that goes well. -/
def assemble (m : Module) : List Export → Option Module
  | [] => some m
  | x :: xs =>
    match m.addFunction x.engine x.fn x.options with
    | (.ok (), m') => m'.assemble xs
    | (.error _, _) => none

/-- Each function is exported under a name that the module does not have by
then. -/
def NewNames (m : Module) : List Export → Prop
  | [] => True
  | x :: xs => x.name ∉ m.names ∧ (m.addFunction x.engine x.fn x.options).2.NewNames xs

variable {m m' : Module}

theorem key_eq {g g' : Function} (h : g.name = g'.name) : g.key = g'.key := by
  unfold Function.key
  rw [h]

theorem Plain.of_append {ns : List String} (h : m'.Plain) (hns : m'.names = m.names ++ ns) : m.Plain := by
  intro g hg
  have hmem : g.name ∈ m'.names := by
    rw [hns]
    exact List.mem_append_left _ (List.mem_map_of_mem (Array.mem_toList_iff.mpr hg))
  obtain ⟨g', hg', hname⟩ := List.mem_map.mp hmem
  rw [key_eq hname.symm, h g' (Array.mem_toList_iff.mp hg'), hname]

theorem Plain.covers (h : m.Plain) : m.lowering.Covers := by
  intro n hn hnone
  obtain ⟨g, hg, rfl⟩ := List.mem_map.mp hn
  obtain ⟨i, hi⟩ := List.getElem?_of_mem hg
  have hmem : (g.key, i) ∈ m.lowering.names :=
    List.mem_reverse.mpr (List.mem_map.mpr ⟨(g, i), List.mem_zipIdx_iff_getElem?.mpr hi, rfl⟩)
  have := List.lookup_eq_none_iff.mp hnone _ hmem
  rw [h g (Array.mem_toList_iff.mp hg)] at this
  simp at this

theorem addFunction_names {x : Export}
    (h : m.addFunction x.engine x.fn x.options = (.ok (), m')) :
    ∃ ns, m'.names = m.names ++ x.name :: ns ∧
      (m.Plain → ns.Nodup ∧ ∀ n ∈ ns, n ∉ m.names ∧ n ≠ x.name) := by
  obtain ⟨f, s, hf, -, hrun, rfl⟩ := m.addFunction_ok h
  have hname : x.name = x.options.nameOf f := by rw [Export.name, hf]
  have hends : Ends (LowerM.lowerFunction x.engine f x.options (x.options.nameOf f)) m.lowering _ _ :=
    LowerM.ends_lowerFunction_names rfl
  obtain ⟨ns, hns, hnew⟩ := hends.ok_of_run hrun
  refine ⟨ns, ?_, fun hplain => hname ▸ hnew hplain.covers⟩
  rw [hname]
  refine Eq.trans ?_ hns
  -- the body that is put in place keeps the name
  apply List.ext_getElem?
  intro k
  simp only [names, List.getElem?_map, Array.getElem?_toList, Array.getElem?_modify]
  split
  · cases s.module.functions[k]? with
    | none => rfl
    | some g =>
      simp only [Option.map_some]
      split <;> rfl
  · rfl

theorem assemble_cons {x : Export} {xs : List Export} (h : m.assemble (x :: xs) = some m') :
    ∃ m₁, m.addFunction x.engine x.fn x.options = (.ok (), m₁) ∧ m₁.assemble xs = some m' := by
  unfold assemble at h
  split at h
  · next m₁ hm₁ => exact ⟨m₁, hm₁, h⟩
  · cases h

theorem assemble_names {xs : List Export} (h : m.assemble xs = some m') :
    ∃ ns, m'.names = m.names ++ ns := by
  induction xs generalizing m with
  | nil => exact ⟨[], by rw [← Option.some.inj h, List.append_nil]⟩
  | cons x xs ih =>
    obtain ⟨m₁, hm₁, h⟩ := assemble_cons h
    obtain ⟨ns, hns, -⟩ := addFunction_names hm₁
    obtain ⟨ns', hns'⟩ := ih h
    exact ⟨x.name :: ns ++ ns', by rw [hns', hns, List.append_assoc]⟩

theorem nodup_append_iff {ms ns : List String} {n : String} (hns : ns.Nodup)
    (hnew : ∀ k ∈ ns, k ∉ ms ∧ k ≠ n) : (ms ++ n :: ns).Nodup ↔ n ∉ ms ∧ ms.Nodup := by
  rw [List.nodup_append, List.nodup_cons]
  constructor
  · rintro ⟨hms, -, hne⟩
    exact ⟨fun hn => hne n hn n List.mem_cons_self rfl, hms⟩
  · rintro ⟨hn, hms⟩
    refine ⟨hms, ⟨fun hmem => (hnew n hmem).2 rfl, hns⟩, ?_⟩
    rintro k hk j hj rfl
    rcases List.mem_cons.mp hj with rfl | hj
    · exact hn hk
    · exact (hnew k hj).1 hk

theorem nodup_names_iff {xs : List Export} (h : m.assemble xs = some m') (hplain : m'.Plain) :
    m'.names.Nodup ↔ m.NewNames xs ∧ m.names.Nodup := by
  induction xs generalizing m with
  | nil =>
    obtain rfl := Option.some.inj h
    simp [NewNames]
  | cons x xs ih =>
    obtain ⟨m₁, hm₁, h⟩ := assemble_cons h
    obtain ⟨ns, hns, hnew⟩ := addFunction_names hm₁
    obtain ⟨ns', hns'⟩ := assemble_names h
    have hplain₁ : m₁.Plain := hplain.of_append hns'
    obtain ⟨hnodup, hout⟩ := hnew (hplain₁.of_append hns)
    rw [ih h, hns, nodup_append_iff hnodup hout, NewNames, hm₁, and_left_comm, and_assoc]

end Module

/-- Of a module that a sequence of exports assembled, and in which functions are
found under their names, the names are pairwise distinct if and only if each
function was exported under a name that the module did not have by then. -/
theorem assembled_names {triple : String} {xs : List Export} {m : Module}
    (h : ({ triple } : Module).assemble xs = some m) (hplain : m.Plain) :
    m.names.Nodup ↔ ({ triple } : Module).NewNames xs := by
  simpa [Module.names] using Module.nodup_names_iff h hplain

def callerAndCallee : Engine :=
  (Engine.create .i386 0 0 (.seeded 1) 0).after
    [.createContext, .buildStart 1, .signatureType 0 Builtin.int32.id [],
      .createFunction 1 18 "callee", .constInt 1 Builtin.int32.id 1, .ret 1 1, .compile 1,
      .createFunction 1 18 "caller", .call 2 1 [], .ret 2 1, .compile 2]

/-- The callee first: both names are new. -/
theorem callee_first_names :
    ∃ m, ({} : Module).assemble [⟨callerAndCallee, 1, {}⟩, ⟨callerAndCallee, 2, {}⟩] = some m ∧
      m.Plain ∧ ({} : Module).NewNames [⟨callerAndCallee, 1, {}⟩, ⟨callerAndCallee, 2, {}⟩] ∧
      m.names.Nodup := by
  have hcheck : ((({} : Module).assemble [⟨callerAndCallee, 1, {}⟩, ⟨callerAndCallee, 2, {}⟩]).any
      fun m => m.functions.all fun g => g.key == g.name) = true := by decide +kernel
  obtain ⟨m, hm, hkeys⟩ := (Option.any_eq_true _ _).mp hcheck
  have hplain : m.Plain := fun g hg => eq_of_beq (Array.all_eq_true_iff_forall_mem.mp hkeys g hg)
  have hnew : ({} : Module).NewNames [⟨callerAndCallee, 1, {}⟩, ⟨callerAndCallee, 2, {}⟩] :=
    ⟨by decide +kernel, by decide +kernel, trivial⟩
  exact ⟨m, hm, hplain, hnew, (assembled_names hm hplain).mpr hnew⟩

/-- The caller first: its callee is declared, and then defined under the same
name. -/
theorem caller_first_names :
    ∃ m, ({} : Module).assemble [⟨callerAndCallee, 2, {}⟩, ⟨callerAndCallee, 1, {}⟩] = some m ∧
      m.Plain ∧ m.names = ["caller", "callee", "callee"] ∧ ¬ m.names.Nodup := by
  have hcheck : ((({} : Module).assemble [⟨callerAndCallee, 2, {}⟩, ⟨callerAndCallee, 1, {}⟩]).any
      fun m => m.functions.all (fun g => g.key == g.name) &&
        m.names == ["caller", "callee", "callee"]) = true := by decide +kernel
  obtain ⟨m, hm, hboth⟩ := (Option.any_eq_true _ _).mp hcheck
  obtain ⟨hkeys, hnames⟩ := Bool.and_eq_true_iff.mp hboth
  have hnames := eq_of_beq hnames
  refine ⟨m, hm, fun g hg => ?_, hnames, ?_⟩
  · exact eq_of_beq (Array.all_eq_true_iff_forall_mem.mp hkeys g hg)
  · rw [hnames]
    decide

end TypedIR.Llvm
