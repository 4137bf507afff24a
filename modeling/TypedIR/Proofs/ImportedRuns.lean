import TypedIR.Proofs.ImageLoading
import TypedIR.Proofs.SafeRuns

/-
  Runs of loaded images.

  An image can come from anywhere. What loading checks (`Image.Fills`) is that values,
  labels and callees are there; it does not look at how many arguments an instruction
  has, nor at the sizes of what is moved between registers and memory. A function whose
  instructions and values are sturdy in these respects (`Func.sturdy`) never makes the
  machine crash: every frame runs that function with a register for each of its values
  (`Machine.Within`), and a step keeps it that way.
-/

namespace TypedIR

/-! ## What loading does not check -/

def Rep.loadable (r : Rep) : Bool := r.cls == .struct || decide (r.size ≤ 8)

/-- Whether a store is of a struct whose end does not wrap around, or of a scalar that
fits a register. -/
def Rep.storable (r : Rep) : Bool :=
  if r.cls = .struct then decide (r.size ≤ Memory.largestRange) else r.fitsRegister

theorem Rep.loadable_of_storable {r : Rep} (h : r.storable = true) : r.loadable = true := by
  unfold storable at h
  unfold loadable
  by_cases hc : r.cls = .struct
  · simp [hc]
  · rw [if_neg hc, fitsRegister, Bool.and_eq_true] at h
    simp [of_decide_eq_true h.2]

/-- Whether an instruction has the arguments it takes, and moves what can be moved.
Calls are of a function with `params` parameters. -/
def Insn.sturdy (params : Nat) (i : Insn) : Bool :=
  match i.op with
  | .loadRel | .loadElem => i.rep.loadable
  | .storeRel => i.rep.storable
  | .storeElem => !i.args.isEmpty && i.rep.storable
  | .math => decide (i.math.arity ≤ i.args.length)
  | .call => decide (params ≤ i.args.length)
  | _ => true

/-- Whether all instructions of a function are sturdy and all its values in the frame
can be read and written. -/
def Func.sturdy (f : Func) : Bool :=
  f.insns.all (·.sturdy f.params.length) && f.values.all fun v => v.place?.isNone || v.rep.storable

/-- A function that names nothing but values, labels and callees that are there. -/
structure Func.Contained (f : Func) : Prop where
  compiled : f.compiled = true
  first : 0 < f.values.size
  params : ∀ p ∈ f.params, p < f.values.size
  mentions : ∀ i ∈ f.insns, ∀ v ∈ i.mentions, v < f.values.size
  targets : ∀ i ∈ f.insns, i.op.isBranch = true → (f.target? i).isSome
  calls : ∀ i ∈ f.insns, i.op = .call → i.callee = f.id

theorem Image.Fills.contained {img : Image} {ids : Array TypeId} {f₀ f : Func}
    (h : img.Fills ids f₀ f) (hblank : EngineM.Blank f₀)
    (hcount : f₀.values.size ≤ (img.values.getD []).length) : f.Contained where
  compiled := h.compiled
  first := lt_of_getElem? h.first
  params p hp := by
    rw [h.header.params] at hp
    rw [h.size]
    exact Nat.lt_of_lt_of_le (hblank.param_lt hp).2 hcount
  mentions := h.mentions
  targets := h.targets
  calls i hi hop := (h.calls i hi hop).trans h.header.id.symm

/-- A machine that runs nothing but `f`. -/
structure Machine.Within (e : Engine) (f : Func) (m : Machine) : Prop where
  memory : m.host.memory.Serves e.target.ptrSize
  frames : ∀ fr ∈ m.frames,
    fr.func = f ∧ fr.regs.size = f.values.size ∧ fr.dest < f.values.size
  busy : m.frames ≠ []

/-- What runs of `f` rely on. -/
structure Engine.Supports (e : Engine) (f : Func) : Prop where
  known : e.findFunc f.id = .ok f
  bare : e.natives.names = []
  contained : f.Contained
  sturdy : f.sturdy = true

namespace Machine.Within

variable {e : Engine} {f : Func} {m : Machine}

theorem withMemory (h : m.Within e f) {mem : Memory}
    (hmem : mem.offsetBits = m.host.memory.offsetBits) : (m.withMemory mem).Within e f :=
  ⟨hmem.trans h.memory, h.frames, h.busy⟩

theorem top (h : m.Within e f) : ∃ fr rest, m.frames = fr :: rest ∧ fr.func = f ∧
    fr.regs.size = f.values.size ∧ fr.dest < f.values.size := by
  obtain ⟨fr, rest, hframes⟩ := List.exists_cons_of_ne_nil h.busy
  exact ⟨fr, rest, hframes, h.frames fr (hframes ▸ List.mem_cons_self)⟩

theorem replace (h : m.Within e f) {fr fr' : Frame} {rest : List Frame}
    (hframes : m.frames = fr :: rest) (hfunc : fr'.func = fr.func)
    (hregs : fr'.regs.size = fr.regs.size) (hdest : fr'.dest = fr.dest) :
    ({ m with frames := fr' :: rest } : Machine).Within e f := by
  refine ⟨h.memory, fun g hg => ?_, List.cons_ne_nil _ _⟩
  rcases List.mem_cons.mp hg with rfl | hg
  · rw [hfunc, hregs, hdest]
    exact h.frames fr (hframes ▸ List.mem_cons_self)
  · exact h.frames g (hframes ▸ List.mem_cons_of_mem fr hg)

end Machine.Within

namespace Engine.Supports

variable {e : Engine} {f : Func}

theorem insn (h : e.Supports f) {i : Insn} (hi : i ∈ f.insns) : i.sturdy f.params.length = true := by
  have hall := h.sturdy
  rw [Func.sturdy, Bool.and_eq_true, Array.all_eq_true_iff_forall_mem] at hall
  exact hall.1 i hi

theorem place (h : e.Supports f) {v : ValueId} {info : ValueInfo} {slot : Int}
    (hv : f.values[v]? = some info) (hslot : info.place? = some slot) : info.rep.storable = true := by
  have hall := h.sturdy
  rw [Func.sturdy, Bool.and_eq_true] at hall
  have hinfo := Array.all_eq_true_iff_forall_mem.mp hall.2 info (Array.mem_of_getElem? hv)
  simpa [hslot] using hinfo

end Engine.Supports

namespace StepM

variable {e : Engine} {f : Func} {m : Machine}

/-! ## Loads and stores -/

theorem ends_load_loadable {r : Rep} (hr : r.loadable = true) {ptrSize : Int}
    (hs : m.host.memory.Serves ptrSize) (addr : Word) :
    Ends (load r addr) m (fun _ m' => m = m') NoCrash := by
  unfold load
  refine .ite' (fun _ => .pure' rfl) fun hc => ?_
  have hsize : r.size ≤ 8 := by simpa [Rep.loadable, hc] using hr
  have hrange : r.size ≤ Memory.largestRange := Int.le_trans hsize (by decide)
  refine .bind' (ends_request_noCrash (ends_memoryRead hs addr hrange)) ?_
  rintro data _ ⟨_, ⟨rfl, h0⟩, rfl⟩
  have hfits : r.fitsRegister = true := by simp [Rep.fitsRegister, h0, hsize]
  rw [if_pos hfits]
  exact .pure' rfl

theorem ends_store_storable {r : Rep} (hr : r.storable = true) (h : m.Within e f)
    (addr bits : Word) : Ends (store r addr bits) m (fun _ m' => m'.Within e f) NoCrash := by
  unfold Rep.storable at hr
  unfold store
  refine .ite' (fun hc => ?_) fun hc => ?_
  · rw [if_pos hc, decide_eq_true_eq] at hr
    refine (ends_request_noCrash (ends_memoryCopy h.memory addr bits hr)).imp ?_
    rintro _ _ ⟨mem, hmem, rfl⟩
    exact h.withMemory hmem
  · rw [if_neg hc] at hr
    rw [if_pos hr]
    refine (ends_request_noCrash (ends_memoryWrite _ addr _)).imp ?_
    rintro _ _ ⟨mem, hmem, rfl⟩
    exact h.withMemory hmem

/-! ## Values of the running frame -/

theorem ends_read_within (he : e.Supports f) (h : m.Within e f) {v : ValueId} (hv : v < f.values.size) :
    Ends (read v) m (fun _ m' => m = m') NoCrash := by
  obtain ⟨fr, rest, hframes, rfl, hregs, -⟩ := h.top
  unfold read
  refine .bind' (ends_frame hframes) ?_
  rintro _ _ ⟨rfl, rfl⟩
  have hinfo : fr.func.values[v]? = some fr.func.values[v] := Array.getElem?_eq_getElem hv
  rw [hinfo]
  dsimp only
  cases hplace : fr.func.values[v].place? with
  | some slot =>
    exact ends_load_loadable (Rep.loadable_of_storable (he.place hinfo hplace)) h.memory _
  | none =>
    dsimp only
    rw [Array.getElem?_eq_getElem (hregs ▸ hv : v < fr.regs.size)]
    exact .pure' rfl

theorem ends_write_within (he : e.Supports f) (h : m.Within e f) {v : ValueId}
    (hv : v < f.values.size) (bits : Word) :
    Ends (write v bits) m (fun _ m' => m'.Within e f) NoCrash := by
  obtain ⟨fr, rest, hframes, rfl, -, -⟩ := h.top
  unfold write
  refine .bind' (ends_frame hframes) ?_
  rintro _ _ ⟨rfl, rfl⟩
  have hinfo : fr.func.values[v]? = some fr.func.values[v] := Array.getElem?_eq_getElem hv
  rw [hinfo]
  dsimp only
  cases hplace : fr.func.values[v].place? with
  | some slot => exact ends_store_storable (he.place hinfo hplace) h _ bits
  | none =>
    refine (ends_modifyFrame hframes).imp ?_
    rintro _ _ rfl
    exact h.replace hframes rfl (by simp) rfl

theorem ends_readAll_within (he : e.Supports f) (h : m.Within e f) {vs : List ValueId}
    (hvs : ∀ v ∈ vs, v < f.values.size) :
    Ends (readAll vs) m (fun ws m' => m = m' ∧ ws.length = vs.length) NoCrash := by
  induction vs with
  | nil => exact .pure' ⟨rfl, rfl⟩
  | cons v vs ih =>
    obtain ⟨hv, hrest⟩ := List.forall_mem_cons.mp hvs
    refine .bind' (ends_read_within he h hv) ?_
    rintro w _ rfl
    refine .bind' (ih hrest) ?_
    rintro ws _ ⟨rfl, hlen⟩
    exact .pure' ⟨rfl, congrArg (· + 1) hlen⟩

/-! ## Calls and returns -/

theorem ends_setParams_within (he : e.Supports f) (h : m.Within e f) {params : List ValueId}
    (hp : ∀ p ∈ params, p < f.values.size) {args : List Word} (hlen : params.length ≤ args.length) :
    Ends (setParams f params args) m (fun _ m' => m'.Within e f) NoCrash := by
  induction params generalizing args m with
  | nil => exact .pure' h
  | cons p params ih =>
    obtain ⟨hlt, hrest⟩ := List.forall_mem_cons.mp hp
    rcases args with _ | ⟨a, args⟩
    · exact absurd hlen (Nat.not_succ_le_zero _)
    · unfold setParams
      rw [Array.getElem?_eq_getElem hlt]
      refine .bind' (ends_write_within he h hlt _) fun _ m' h' => ?_
      exact ih h' hrest (Nat.le_of_succ_le_succ hlen)

/-- A call starts in a frame of its own, or fails. The frames that wait are of `f` too,
if there are any. -/
theorem ends_enter_within (he : e.Supports f) (hmem : m.host.memory.Serves e.target.ptrSize)
    (hframes : ∀ fr ∈ m.frames,
      fr.func = f ∧ fr.regs.size = f.values.size ∧ fr.dest < f.values.size)
    {args : List Word} (hlen : f.params.length ≤ args.length) (depth : Nat) (caller : String)
    {dest : ValueId} (hdest : dest < f.values.size) :
    Ends (enter e f args depth caller dest) m (fun _ m' => m'.Within e f) NoCrash := by
  unfold enter
  extract_lets start alloc check
  refine .ite' (fun _ => .bind' (ends_fail _) fun _ _ => False.elim) fun _ => ?_
  refine .ite' (fun _ => .bind' (ends_fail _) fun _ _ => False.elim) fun _ => ?_
  have hstart : ∀ base m', m'.frames = m.frames → m'.host.memory.Serves e.target.ptrSize →
      Ends (start base) m' (fun _ m' => m'.Within e f) NoCrash := by
    intro base m' hsame hmem'
    refine .bind_modify (ends_inFunction_noCrash ?_)
    refine ends_setParams_within he ?_ he.contained.params hlen
    refine ⟨hmem', ?_, List.cons_ne_nil _ _⟩
    rw [hsame]
    refine List.forall_mem_cons.mpr ⟨⟨rfl, ?_, hdest⟩, hframes⟩
    simp [initialRegs]
  refine .ite' (fun _ => ?_) fun _ => .bind_pure (hstart _ _ rfl hmem)
  refine .bind' (ends_inFunction_noCrash (ends_request_noCrash (ends_alloc hmem _))) ?_
  rintro base _ ⟨mem, ⟨hbits, -⟩, rfl⟩
  exact hstart base _ rfl (hbits.trans hmem)

def Stays (e : Engine) (f : Func) (answer : Option Word) (m : Machine) : Prop :=
  answer = none → m.Within e f

theorem ends_leave_within (he : e.Supports f) (h : m.Within e f) (bits : Word) :
    Ends (leave bits) m (Stays e f) NoCrash := by
  obtain ⟨fr, rest, hframes, hfunc, -, hdest⟩ := h.top
  unfold leave
  refine .bind' (ends_frame hframes) ?_
  rintro _ _ ⟨rfl, rfl⟩
  refine .bind' (ends_releaseFrame fr).total ?_
  rintro _ _ ⟨mem, hmem, rfl⟩
  refine .bind_modify (.bind_get ?_)
  dsimp only [Machine.withMemory_frames]
  rw [hframes]
  cases rest with
  | nil => exact .pure' nofun
  | cons caller rest =>
    have hcaller : Machine.Within e f
        ⟨(m.withMemory mem).host, (m.withMemory mem).steps, caller :: rest⟩ := by
      refine ⟨hmem.trans h.memory, fun g hg => ?_, List.cons_ne_nil _ _⟩
      exact h.frames g (hframes ▸ List.mem_cons_of_mem fr hg)
    refine .ite' (fun _ => ?_) fun _ => .pure' fun _ => hcaller
    refine .bind' (ends_inFunction_noCrash (ends_write_within he hcaller hdest bits)) ?_
    exact fun _ _ h' => .pure' fun _ => h'

theorem ends_jump_within (h : m.Within e f) {i : Insn} (hi : (f.target? i).isSome) :
    Ends (jump f i) m (fun _ m' => m'.Within e f) NoCrash := by
  obtain ⟨pc, hpc⟩ := Option.isSome_iff_exists.mp hi
  obtain ⟨fr, rest, hframes, -⟩ := h.top
  unfold jump
  rw [hpc]
  refine (ends_modifyFrame hframes).imp ?_
  rintro _ _ rfl
  exact h.replace hframes rfl rfl rfl

/-! ## Instructions -/

theorem ends_onTwo_within (he : e.Supports f) (h : m.Within e f) {a b : ValueId}
    (ha : a < f.values.size) (hb : b < f.values.size) {k : Word → Word → StepM Unit}
    (hk : ∀ x y, Ends (k x y) m (fun _ m' => m'.Within e f) NoCrash) :
    Ends (do
      let x ← read a
      let y ← read b
      k x y) m (fun _ m' => m'.Within e f) NoCrash := by
  refine .bind' (ends_read_within he h ha) ?_
  rintro x _ rfl
  refine .bind' (ends_read_within he h hb) ?_
  rintro y _ rfl
  exact hk x y

/-- An instruction that is no jump and no return leaves a machine that runs `f`, or it
fails. -/
theorem ends_execute_within (he : e.Supports f) (h : m.Within e f) {i : Insn} (hi : i ∈ f.insns)
    (depth : Nat) : Ends (execute e f depth i) m (fun _ m' => m'.Within e f) NoCrash := by
  have hmentions := he.contained.mentions i hi
  have hsturdy := he.insn hi
  have hd : i.dest < f.values.size := hmentions _ (by simp [Insn.mentions])
  have ha : i.a < f.values.size := hmentions _ (by simp [Insn.mentions])
  have hb : i.b < f.values.size := hmentions _ (by simp [Insn.mentions])
  have hargs : ∀ v ∈ i.args, v < f.values.size :=
    fun v hv => hmentions v (by simp [Insn.mentions, hv])
  have hwrite : ∀ {m : Machine} (bits : Word), m.Within e f →
      Ends (write i.dest bits) m (fun _ m' => m'.Within e f) NoCrash :=
    fun bits h => ends_write_within he h hd bits
  have hunary : ∀ g : Word → Word, Ends (do
      let a ← read i.a
      write i.dest (g a)) m (fun _ m' => m'.Within e f) NoCrash := by
    intro g
    refine .bind' (ends_read_within he h ha) ?_
    rintro x _ rfl
    exact hwrite _ h
  have htwo := fun k => ends_onTwo_within he h ha hb (k := k)
  have hload : i.rep.loadable = true → ∀ addr, Ends (do
      let v ← load i.rep addr
      write i.dest v) m (fun _ m' => m'.Within e f) NoCrash := by
    intro hr addr
    refine .bind' (ends_load_loadable hr h.memory addr) ?_
    rintro v _ rfl
    exact hwrite v h
  unfold Insn.sturdy at hsturdy
  unfold execute
  cases hop : i.op <;> rw [hop] at hsturdy
  case add | sub | mul | div | rem | pow | and | or | xor | shl | shr =>
    refine htwo _ fun x y => ?_
    generalize evalBinary _ i.rep x y = answer
    cases answer with
    | ok z => exact hwrite z h
    | error c => exact .throw' (noCrash_failed _ _)
  case lt | le | gt | ge | eq | ne => exact htwo _ fun x y => hwrite _ h
  case neg | not => exact hunary _
  case toBool | toNotBool => exact hunary _
  case convert =>
    refine .bind' (ends_read_within he h ha) ?_
    rintro x _ rfl
    rw [Array.getElem?_eq_getElem hd]
    exact hwrite _ h
  case copy => exact hunary id
  case addressOf =>
    obtain ⟨fr, rest, hframes, -⟩ := h.top
    dsimp only
    rw [Array.getElem?_eq_getElem ha]
    refine .bind' (ends_frame hframes) ?_
    rintro _ _ ⟨rfl, rfl⟩
    exact hwrite _ h
  case loadRel =>
    refine .bind' (ends_read_within he h ha) ?_
    rintro p _ rfl
    exact hload hsturdy _
  case storeRel => exact htwo _ fun p v => ends_store_storable hsturdy h _ v
  case loadElem => exact htwo _ fun p index => hload hsturdy _
  case storeElem =>
    refine htwo _ fun p index => ?_
    cases hlist : i.args with
    | nil => simp [hlist] at hsturdy
    | cons arg rest =>
      rw [Bool.and_eq_true] at hsturdy
      refine .bind' (ends_read_within he h (hargs arg (hlist ▸ List.mem_cons_self))) ?_
      rintro v _ rfl
      exact ends_store_storable hsturdy.2 h _ v
  case alloca =>
    refine .bind' (ends_read_within he h ha) ?_
    rintro n _ rfl
    refine .bind' (ends_allocaSize n) ?_
    rintro size _ rfl
    refine .bind' (ends_request_noCrash (ends_alloc h.memory size)) ?_
    rintro p _ ⟨mem, ⟨hmem, -⟩, rfl⟩
    have h' := h.withMemory hmem
    obtain ⟨fr, rest, hframes, -⟩ := h'.top
    refine .bind' (ends_modifyFrame hframes) ?_
    rintro _ _ rfl
    exact hwrite p (h'.replace hframes rfl rfl rfl)
  case call =>
    dsimp only
    rw [he.contained.calls i hi hop, he.known]
    refine .bind' (ends_readAll_within he h hargs) ?_
    rintro ws _ ⟨rfl, hlen⟩
    refine ends_enter_within he h.memory h.frames ?_ depth f.name hd
    rw [hlen]
    exact of_decide_eq_true hsturdy
  case callNative =>
    have hnone : e.natives.find? i.native = none := by
      simp [NameTable.find?, List.map_eq_nil_iff.mp he.bare]
    dsimp only
    unfold callNative
    rw [hnone]
    exact .throw' (noCrash_failed _ _)
  case math =>
    refine .bind' (ends_readAll_within he h hargs) ?_
    rintro ws _ ⟨rfl, hlen⟩
    have hvalue : ∃ z, evalMath? i.math i.rep ws = some z :=
      evalMath_of_arity i.rep (hlen.symm ▸ of_decide_eq_true hsturdy)
    obtain ⟨z, hz⟩ := hvalue
    rw [hz]
    exact hwrite z h
  all_goals exact .throw' (noCrash_failed _ _)

theorem ends_dispatch_within (he : e.Supports f) (h : m.Within e f) {i : Insn} (hi : i ∈ f.insns)
    (depth : Nat) : Ends (dispatch e f depth i) m (Stays e f) NoCrash := by
  have ha : i.a < f.values.size := he.contained.mentions i hi _ (by simp [Insn.mentions])
  have hstays : ∀ {act : StepM Unit}, Ends act m (fun _ m' => m'.Within e f) NoCrash →
      Ends (do act; pure none) m (Stays e f) NoCrash :=
    fun hact => .bind' hact fun _ _ h' => .pure' fun _ => h'
  have hjump : i.op.isBranch = true → Ends (jump f i) m (fun _ m' => m'.Within e f) NoCrash :=
    fun hop => ends_jump_within h (he.contained.targets i hi hop)
  have hplain : i.op.isPlain = true → Ends (dispatch e f depth i) m (Stays e f) NoCrash := by
    intro hop
    rw [dispatch_plain hop]
    exact hstays (ends_execute_within he h hi depth)
  cases hop : i.op
  case nop | label =>
    unfold dispatch
    rw [hop]
    exact .pure' fun _ => h
  case branch =>
    unfold dispatch
    rw [hop]
    exact hstays (hjump (by rw [hop]; rfl))
  case branchIf | branchIfNot =>
    unfold dispatch
    rw [hop]
    refine .bind' (ends_read_within he h ha) ?_
    rintro c _ rfl
    exact .ite' (fun _ => hstays (hjump (by rw [hop]; rfl))) fun _ => .pure' fun _ => h
  case ret =>
    unfold dispatch
    rw [hop]
    refine .ite' (fun _ => ends_leave_within he h 0) fun _ => ?_
    refine .bind' (ends_read_within he h ha) ?_
    rintro c _ rfl
    exact ends_leave_within he h c
  case call =>
    unfold dispatch
    rw [hop]
    exact hstays (ends_execute_within he h hi depth)
  all_goals exact hplain (by rw [hop]; rfl)

/-- One step of a machine that runs `f` leaves one that does, or a result, or it fails;
it never crashes. -/
theorem ends_step_within (he : e.Supports f) (h : m.Within e f) :
    Ends (step e) m (Stays e f) NoCrash := by
  obtain ⟨fr, rest, hframes, rfl, hregs, hdest⟩ := h.top
  unfold step
  refine .bind' (ends_frame hframes) ?_
  rintro _ _ ⟨rfl, rfl⟩
  dsimp only
  cases hi : fr.func.insns[fr.pc]? with
  | none => exact ends_leave_within he h 0
  | some i =>
    refine .bind_modify (ends_inFunction_noCrash (.bind_get ?_))
    refine .ite' (fun _ => .bind_throw nofun) fun _ => ?_
    have hcounted : Machine.Within e fr.func { m with steps := m.steps + 1 } :=
      ⟨h.memory, h.frames, h.busy⟩
    have htop : ({ m with steps := m.steps + 1 } : Machine).frames = fr :: rest := hframes
    have hnext : Machine.Within e fr.func
        ⟨m.host, m.steps + 1, { fr with pc := fr.pc + 1 } :: rest⟩ :=
      hcounted.replace htop rfl rfl rfl
    refine .bind' (ends_modifyFrame htop) ?_
    rintro _ _ rfl
    exact ends_dispatch_within he hnext (Array.mem_of_getElem? hi) fr.depth

end StepM

/-! ## Runs -/

namespace Machine

variable {e : Engine} {f : Func} {m : Machine}

theorem Within.run (he : e.Supports f) (h : m.Within e f) (fuel : Nat) :
    (Machine.run e fuel m).1 ≠ .halted .crashed := by
  induction fuel generalizing m with
  | zero =>
    intro hc
    cases hc
  | succ fuel ih =>
    have hends := StepM.ends_step_within he h
    unfold Ends at hends
    unfold Machine.run
    rcases hs : ((StepM.step e).run m : Except (Halt Failure) (Option Word) × Machine) with
      ⟨halt | _ | w, m'⟩ <;> rw [hs] at hends
    · exact fun hc => hends (RunEnd.halted.inj hc)
    · exact ih (hends rfl)
    · intro hc
      cases hc

theorem call_within (he : e.Supports f) {host : Host} (hs : host.memory.Serves e.target.ptrSize)
    {args : List Word} (hlen : args.length = f.params.length) (fuel : Nat) :
    (Machine.call e fuel host f args).1 ≠ .halted .crashed := by
  have hends := StepM.ends_enter_within (m := { host }) he hs (List.forall_mem_nil _) hlen.ge 0 ""
    he.contained.first
  unfold Ends at hends
  unfold Machine.call
  rcases hrun : ((StepM.enter e f args 0 "" 0).run { host } :
    Except (Halt Failure) Unit × Machine) with ⟨halt | _, m'⟩ <;> rw [hrun] at hends
  · exact fun hc => hends (RunEnd.halted.inj hc)
  · exact hends.run he fuel

end Machine

/-- What loading an image gives is a compiled function. If it is sturdy, no call of it
with as many arguments as it takes crashes, in any engine that has the function and no
natives: it ends with a result, with a failure, or not at all. -/
theorem Engine.imported_runs {e e₁ : Engine} {ctx : ContextId} {img : Option Image} {fn : FuncId}
    (himport : ((EngineM.importImage ctx img).run e : Except Failure FuncId × Engine) =
      (.ok fn, e₁)) :
    ∃ f, e₁.findFunc fn = .ok f ∧ f.compiled = true ∧ (f.sturdy = true →
      ∀ e₂ : Engine, e₂.findFunc fn = .ok f → e₂.natives.names = [] →
        e₂.host.memory.Serves e₂.target.ptrSize →
        ∀ args : List Word, args.length = f.params.length →
          (∀ fuel, (Machine.call e₂ fuel e₂.host f args).1 ≠ .halted .crashed) ∧
          match ((RunM.apply fn args).run e₂ : Except (Halt Failure) Word × Engine).1 with
          | .ok _ => True
          | .error (.failed _) => True
          | .error .crashed => (Machine.call e₂ runFuel e₂.host f args).1 = .unfinished) := by
  cases img with
  | none => cases himport
  | some img =>
    have hends := EngineM.ends_importImage_filled (e := e) ctx img
      ((EngineM.quiet_loadTypes #[] _ : Leaves Engine.SameCode _).ends e)
    obtain ⟨ids, e', f₀, f, -, -, hmade, hfills, hcount, hf, -⟩ := hends.ok_of_run himport
    have hid : f.id = fn := hfills.header.id.trans hmade.id
    refine ⟨f, hf, hfills.compiled, fun hsturdy e₂ hf₂ hbare hs args hlen => ?_⟩
    have he : e₂.Supports f :=
      ⟨hid ▸ hf₂, hbare, hfills.contained hmade.blank hcount, hsturdy⟩
    have hcall := fun fuel => Machine.call_within he hs hlen fuel
    refine ⟨hcall, ?_⟩
    have hlast := hcall runFuel
    rw [(RunM.apply_eq hf₂ hfills.compiled hlen).1]
    revert hlast
    generalize (Machine.call e₂ runFuel e₂.host f args).1 = ending
    intro hlast
    rcases ending with bits | (err | _) | _
    · trivial
    · trivial
    · exact absurd rfl hlast
    · rfl

/-- An image of a function that gives the square root of its parameter, with the
operands that the root is taken of. -/
def rootImage (args : Option (List Nat)) : Image :=
  { version := Cause.currentImageVersion, target := "x86_64-linux-gnu", name := "root", sig := 2
    types := some [{ kind := Kind.float.code, width := 64 },
      { kind := Kind.signature.code, params := some [1], result := 1 }]
    values := some [{}, { type := 1, origin := Origin.param.code }, { type := 1 }]
    params := some [1], labels := some [-1]
    insns := some [
      { op := Opcode.math.code, dest := 2, args, math := MathOp.sqrt.code,
        cls := Class.float.code, size := 8 },
      { op := Opcode.ret.code, a := 2, cls := Class.float.code, size := 8 }] }

def rooting : Engine :=
  (Engine.create .amd64 0 0 (.seeded 1) 0).after [.createContext, .buildStart 1]

def rooted (args : Option (List Nat)) : Except Failure FuncId × Engine :=
  (EngineM.importImage 1 (some (rootImage args))).run rooting

/-- The root of the parameter is loaded, it is sturdy, and no run of it crashes. -/
theorem root_runs : ∃ f, (rooted (some [1])).2.findFunc 1 = .ok f ∧ f.sturdy = true ∧
    ∀ bits fuel, (Machine.call (rooted (some [1])).2 fuel (rooted (some [1])).2.host f [bits]).1 ≠
      .halted .crashed := by
  have hload : (rooted (some [1])).1.toOption.any (· == 1) = true := by decide +kernel
  have hcheck : ((rooted (some [1])).2.natives.names.isEmpty &&
      (rooted (some [1])).2.host.memory.offsetBits == 32 &&
      (rooted (some [1])).2.target.ptrSize == 8 &&
      ((rooted (some [1])).2.findFunc 1).toOption.any fun f =>
        f.params.length == 1 && f.sturdy) = true := by decide +kernel
  simp only [any_toOption, Bool.and_eq_true, beq_iff_eq, List.isEmpty_iff,
    exists_eq_right] at hload hcheck
  obtain ⟨⟨⟨hbare, hbits⟩, hptr⟩, f, hf, hfunc⟩ := hcheck
  obtain ⟨f', hf', -, hruns⟩ := Engine.imported_runs (Prod.ext hload rfl)
  obtain rfl := Except.ok.inj (hf.symm.trans hf')
  have hs : (rooted (some [1])).2.host.memory.Serves (rooted (some [1])).2.target.ptrSize := by
    rw [hptr]
    exact hbits
  exact ⟨f, hf, hfunc.2, fun bits fuel => (hruns hfunc.2 _ hf hbare hs [bits] hfunc.1.symm).1 fuel⟩

/-- A root of nothing is loaded too, and running it crashes at once. -/
theorem root_of_nothing : ∃ e f, rooted none = (.ok 1, e) ∧ e.natives.names = [] ∧
    e.findFunc 1 = .ok f ∧ f.params.length = 1 ∧ f.sturdy = false ∧
    (Machine.call e 1 e.host f [0]).1 = .halted .crashed ∧
    ((RunM.apply 1 [0]).run e : Except (Halt Failure) Word × Engine).1 = .error .crashed := by
  have hload : (rooted none).1.toOption.any (· == 1) = true := by decide +kernel
  have hcheck : ((rooted none).2.natives.names.isEmpty &&
      ((rooted none).2.findFunc 1).toOption.any fun f =>
        f.compiled && f.params.length == 1 && !f.sturdy &&
        decide ((Machine.call (rooted none).2 1 (rooted none).2.host f [0]).1 =
          .halted .crashed) &&
        decide ((Machine.call (rooted none).2 runFuel (rooted none).2.host f [0]).1 =
          .halted .crashed)) = true := by decide +kernel
  simp only [any_toOption, Bool.and_eq_true, beq_iff_eq, List.isEmpty_iff,
    Bool.not_eq_true', decide_eq_true_eq, exists_eq_right] at hload hcheck
  obtain ⟨hbare, f, hf, ⟨⟨⟨hc, hlen⟩, hsturdy⟩, hcall⟩, hlast⟩ := hcheck
  refine ⟨_, f, Prod.ext hload rfl, hbare, hf, hlen, hsturdy, hcall, ?_⟩
  have hone : ([0] : List Word).length = f.params.length := hlen.symm
  rw [(RunM.apply_eq hf hc hone).1, hlast]
  rfl

/-- A function that gives 7 and has a local of the address type 19. -/
def exporting : Engine :=
  (Engine.create .amd64 0 0 (.seeded 1) 0).after
    [.createContext, .buildStart 1, .signatureType 0 Builtin.int32.id [],
      .pointerType Builtin.int32.id, .createFunction 1 18 "seven", .createValue 1 19,
      .constInt 1 Builtin.int32.id 7, .ret 1 2, .compile 1]

def Engine.loading (e : Engine) (img : Image) : Except Failure FuncId × Engine :=
  (EngineM.importImage 1 (some img)).run e

/-- Its image is loaded, but not by an engine that was asked too early about that type. -/
theorem early_question_refuses_image : ∃ img ∈ (exporting.exportImage 1).toOption,
    ((RunM.apply 1 []).run exporting : Except (Halt Failure) Word × Engine).1.toOption = some 7 ∧
    (rooting.loading img).1 = .ok 1 ∧ ((rooting.after [.layoutOf 19]).loading img).1 =
      .error { cause := .layout (.unknownType 19), function := "seven" } := by
  decide +kernel

/-- What is left of the image there is not exported. -/
theorem early_question_keeps_no_image : ∃ img ∈ (exporting.exportImage 1).toOption,
    (rooting.loading img).2.exportImage 1 = .ok img ∧
    ((rooting.after [.layoutOf 19]).loading img).2.exportImage 1 ≠ .ok img := by
  decide +kernel

end TypedIR
