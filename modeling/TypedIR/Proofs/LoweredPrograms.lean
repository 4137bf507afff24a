import TypedIR.Proofs.HostedBuilds
import TypedIR.Proofs.ProgramCalls

/-
  Structured programs, from their text to their calls.

  A program whose function was started, built and compiled without a problem is a function
  of the engine (`Workspace.Reached.compiles_program`). A call of it from the host puts the
  numbers of the arguments into registers and hands the number of the result back
  (`Program.Compiled.called`). So it returns, fails and lasts as the program does
  (`Workspace.Reached.lowers_programs`).
-/

namespace TypedIR

/-! ## Numbers of the host -/

/-- The number that a value of the host stands for: a truth value is one or zero, and a float
that is whole is a number too. -/
def HostValue.number? : HostValue → Option Int
  | .bool b => some (if b then 1 else 0)
  | .int _ n => some n
  | .float32 bits => whole (.ofSingle bits)
  | .float64 bits => whole ⟨bits⟩
  | _ => none
where
  whole (x : Double) : Option Int := if BuildM.isWhole x.toFloat then some x.toSigned.toInt else none

/-- A number of the host goes into the register as the number the type holds in its place. -/
theorem Rep.IsInteger.marshal_number {r : Rep} (h : r.IsInteger) {a : HostValue} {n : Int}
    (ha : a.number? = some n) : BuildM.marshal r a = .ok (Word.ofInt (r.wrap n)) := by
  have hfloat : ∀ {x : Double}, HostValue.number?.whole x = some n →
      (if BuildM.isWhole x.toFloat then Except.ok (r.normalize x.toSigned)
        else .error (Unfit.asInteger (Decimal.shortText x.toFloat))) = .ok (Word.ofInt (r.wrap n)) := by
    intro x hx
    unfold HostValue.number?.whole at hx
    split at hx
    · next hwhole =>
      obtain rfl := Option.some.inj hx
      rw [if_pos hwhole, ← h.isWhole.normalize_ofInt, Word.ofInt_toInt]
    · cases hx
  cases a with
  | int type m =>
    obtain rfl := Option.some.inj ha
    exact h.isWhole.marshal_int type m
  | bool b =>
    obtain rfl := Option.some.inj ha
    have hholds : r.Holds (if b then 1 else 0) := by
      unfold Rep.Holds Rep.least Rep.greatest Rep.width
      rcases h.1 with hc | hc <;> rcases h.2 with hs | hs | hs | hs <;> rw [hc, hs] <;>
        cases b <;> decide
    have hword : Word.ofBool b = Word.ofInt (if b then 1 else 0) := by cases b <;> rfl
    rw [h.wrap_eq hholds, ← hword]
    unfold BuildM.marshal
    rcases h.1 with hc | hc <;> rw [hc]
  | float32 bits =>
    unfold BuildM.marshal
    rcases h.1 with hc | hc <;> rw [hc] <;> exact hfloat ha
  | float64 bits =>
    unfold BuildM.marshal
    rcases h.1 with hc | hc <;> rw [hc] <;> exact hfloat ha
  | _ => cases ha

def Function.hostNumber (s : Function) (x : Int) : HostValue :=
  if s.ret.kind == .bool then .bool (x != 0) else s.retRep.hostNumber x

theorem Function.unmarshal_ofInt {s : Function} (hr : s.retRep.IsInteger) {x : Int}
    (hx : s.retRep.Holds x) :
    BuildM.unmarshal s.retRep (s.ret.kind == .bool) (Word.ofInt x) = s.hostNumber x := by
  have hnumber := hr.isWhole.number_ofInt hx
  unfold hostNumber
  cases hb : s.ret.kind == .bool with
  | false => exact hr.isWhole.unmarshal_eq hnumber
  | true =>
    have hzero : Word.ofInt x = 0 ↔ x = 0 := by
      constructor
      · intro h0
        rw [h0] at hnumber
        rw [← hnumber]
        unfold Rep.number
        split <;> rfl
      · rintro rfl
        rfl
    have hne : (Word.ofInt x != 0) = (x != 0) := by
      rw [Bool.eq_iff_iff, bne_iff_ne, bne_iff_ne, Ne, hzero]
    unfold BuildM.unmarshal
    rcases hr.1 with hc | hc <;> simp [hc, hne]

/-! ## Calls from the host -/

/-- The function of the builder stands for the function of the engine of the runtime. -/
structure Workspace.Calls (w : Workspace) (fn : FnId) (s : Function) (r : Runtime) (g : Func) :
    Prop where
  function : w.functions[fn]? = some s
  runtime : w.runtimes[s.runtime]? = some r
  func : r.engine.findFunc s.id = .ok g

def Function.shown (s : Function) : RunEnd → Except Stop HostValue
  | .result bits => .ok (BuildM.unmarshal s.retRep (s.ret.kind == .bool) bits)
  | .halted halt => .error (Stop.ofHalt "call" halt)
  | .unfinished => .error .crashed

/-- A call from the host whose arguments need no memory shows how the call of the engine
ends. -/
theorem Workspace.Calls.shows {w : Workspace} {fn : FnId} {s : Function} {r : Runtime} {g : Func}
    (h : w.Calls fn s r g) (hdone : s.compiled = true) {args : List HostValue} {words : List Word}
    (hlen : args.length = s.params.length) (hargs : Marshals (s.params.zip s.paramReps) args words) :
    ((BuildM.call fn args).run w : Except Stop HostValue × Workspace).1 =
      s.shown (r.engine.applied runFuel s.id words).1 := by
  have hplace : w.Place fn s (· = r.engine) := ⟨h.function, r, h.runtime, rfl⟩
  have happly : ∀ e : Engine, e = r.engine → Ends (RunM.apply s.id words) e
      (fun bits _ => (r.engine.applied runFuel s.id words).1.answer = .ok bits)
      fun halt _ => (r.engine.applied runFuel s.id words).1.answer = .error halt := by
    rintro e rfl
    have happlied := (RunM.apply_eq_applied r.engine s.id words).1
    unfold Ends
    rcases hout : ((RunM.apply s.id words).run r.engine :
      Except (Halt Failure) Word × Engine) with ⟨halt | bits, e'⟩ <;> rw [hout] at happlied <;>
      exact happlied.symm
  have hcall := hplace.ends_call_args hdone hlen hargs happly
  unfold Ends at hcall
  cases hend : (r.engine.applied runFuel s.id words).1 <;> rw [hend] at hcall <;>
    rcases hrun : ((BuildM.call fn args).run w : Except Stop HostValue × Workspace) with
      ⟨how | a, w'⟩ <;> rw [hrun] at hcall <;> obtain ⟨x, hx, rfl⟩ := hcall <;> cases hx <;> rfl

theorem marshals_numbers {reps : List Rep} {ts : List Ty} {args : List HostValue} {xs : List Int}
    (hints : ∀ r ∈ reps, r.IsInteger) (hlen : ts.length = reps.length)
    (hargs : args.map (·.number?) = xs.map some) (hxs : xs.length = reps.length) :
    Marshals (ts.zip reps) args (List.zipWith (fun r x => Word.ofInt (r.wrap x)) reps xs) := by
  induction reps generalizing ts args xs with
  | nil =>
    obtain rfl := List.length_eq_zero_iff.mp hlen
    obtain rfl := List.length_eq_zero_iff.mp hxs
    obtain rfl := List.map_eq_nil_iff.mp hargs
    exact .nil
  | cons r reps ih =>
    obtain ⟨t, ts, rfl⟩ := List.exists_cons_of_length_eq_add_one hlen
    obtain ⟨x, xs, rfl⟩ := List.exists_cons_of_length_eq_add_one hxs
    obtain ⟨a, args, rfl, ha, hargs⟩ := List.map_eq_cons_iff.mp hargs
    obtain ⟨hr, hreps⟩ := List.forall_mem_cons.mp hints
    refine .cons (fun text hno => ?_) (hr.marshal_number ha)
      (ih hreps (Nat.succ.inj hlen) hargs (Nat.succ.inj hxs))
    rw [hno] at ha
    cases ha

namespace Program

variable {c : Setting} {rt : RuntimeId} {p : Program c rt} {result : Rep} {g : Func} {s : Function}
  {args : List HostValue} {xs : List Int}

def words (p : Program c rt) (xs : List Int) : List Word :=
  List.zipWith (fun t x => Word.ofInt (t.rep.wrap x)) p.params xs

theorem takes_words (hlen : xs.length = p.params.length) : p.Takes (p.words xs) xs where
  length := by simp [words, hlen]
  numbers := hlen
  each i t a ht ha := by
    obtain ⟨t', x, ht', hx, rfl⟩ := List.getElem?_zipWith_eq_some.mp ha
    obtain rfl := Option.mem_unique ht ht'
    have ht := t.isInteger
    rw [ht.isWhole.normalize_ofInt, ht.wrap_eq (ht.holds_wrap x), List.getD_eq_getElem?_getD, hx]
    rfl

theorem marshals {ts : List Ty} (hlen : ts.length = p.params.length)
    (hargs : args.map (·.number?) = xs.map some) (hxs : xs.length = p.params.length) :
    Marshals (ts.zip (p.params.map (·.rep))) args (p.words xs) := by
  have hall : ∀ r ∈ p.params.map (·.rep), r.IsInteger := by
    intro r hr
    obtain ⟨t, -, rfl⟩ := List.mem_map.mp hr
    exact t.isInteger
  have hmap : (p.params.map (·.rep)).length = p.params.length := List.length_map _
  have hwords := marshals_numbers hall (hlen.trans hmap.symm) hargs (hxs.trans hmap.symm)
  rw [List.zipWith_map_left] at hwords
  exact hwords

/-- The host is answered as the program ends. -/
structure Answered (p : Program c rt) (result : Rep) (s : Function) (name : String) (xs : List Int)
    (answer : Except Stop HostValue) : Prop where
  returns : ∀ a, answer = .ok a ↔
    ∃ n x, p.exec result n xs = some (.returned x) ∧ a = s.hostNumber x
  fails : ∀ how, answer = .error how ↔ ∃ n why, p.exec result n xs = some (.failed why) ∧
    how = .problem (.engine "call" { cause := why, function := name })

theorem Compiled.answered {e : Engine} (h : p.Compiled result g) (hfunc : e.findFunc s.id = .ok g)
    (hlimit : e.maxSteps ≤ 0) (hdepth : 0 < e.maxDepth) (hret : s.retRep = result)
    (hresult : result.IsInteger) (hxs : xs.length = p.params.length) {fuel : Nat}
    (hends : (e.applied fuel s.id (p.words xs)).1 ≠ .unfinished) :
    p.Answered result s g.name xs (s.shown (e.applied fuel s.id (p.words xs)).1) := by
  subst hret
  obtain ⟨m, hrun, hfollows⟩ := h.runs hfunc hlimit hdepth (takes_words hxs)
  rw [hrun] at hends ⊢
  have hreturned : ∀ {n x}, p.exec s.retRep n xs = some (.returned x) →
      s.shown (.result (Word.ofInt x)) = .ok (s.hostNumber x) := fun hx =>
    congrArg Except.ok (Function.unmarshal_ofInt hresult (p.body.holds_returned hresult.isWhole hx))
  refine ⟨fun a => ⟨fun ha => ?_, ?_⟩, fun how => ⟨fun hhow => ?_, ?_⟩⟩
  · rcases (hfollows fuel).agrees rfl hends with ⟨x, hx, hend⟩ | ⟨why, -, hend⟩ <;> rw [hend] at ha
    · rw [hreturned hx] at ha
      exact ⟨fuel, x, hx, (Except.ok.inj ha).symm⟩
    · cases ha
  · rintro ⟨n, x, hx, rfl⟩
    have hstops := hfollows n
    rw [hx] at hstops
    rw [Machine.Stops.unique hstops hends, hreturned hx]
  · rcases (hfollows fuel).agrees rfl hends with ⟨x, -, hend⟩ | ⟨why, hwhy, hend⟩ <;> rw [hend] at hhow
    · cases hhow
    · exact ⟨fuel, why, hwhy, (Except.error.inj hhow).symm⟩
  · rintro ⟨n, why, hwhy, rfl⟩
    have hstops := hfollows n
    rw [hwhy] at hstops
    rw [Machine.Stops.unique hstops hends]
    rfl

end Program

/-! ## From the text to calls -/

/-- The function is one of the runtime, whose engine has the types of the setting. -/
structure Workspace.Housed (w : Workspace) (fn : FnId) (rt : RuntimeId) (c : Setting) : Prop where
  function : ∃ s, w.functions[fn]? = some s ∧ s.runtime = rt
  target : ∃ r, w.runtimes[rt]? = some r ∧ r.engine.target = c.target ∧ r.engine.types = c.types

theorem BuildM.clean_of_compile {w w' : Workspace} {fn : FnId}
    (h : ((compile fn).run w : Except Stop Unit × Workspace) = (.ok (), w')) : w.Clean fn := by
  intro s hs
  by_contra hsome
  obtain ⟨p, hp⟩ := Option.ne_none_iff_exists'.mp hsome
  have hends : Ends (compile fn) w (fun _ _ => False) fun _ _ => True := by
    refine ends_function hs ?_
    rw [hp]
    exact .throw' trivial
  exact hends.ok_of_run h

theorem Function.Started.ret_kind {s : Function} {e : Engine} {f : Func} {params : List TypeId}
    {result : TypeId} {r : Rep} (h : s.Started e f params result)
    (hr : e.types.HasRep e.target result r) (hi : r.IsInteger) : s.ret.kind ≠ .void := by
  intro hvoid
  obtain ⟨-, -, hkind, -⟩ := TypeTable.of_wrap? h.ret
  rw [hvoid] at hkind
  unfold TypeTable.tyKind? at hkind
  have hord : e.types.Ordered := h.founded.tables.ordered
  obtain ⟨hsame, hbelow⟩ := hr.below hord
  obtain ⟨d, hd, ⟨hk, -⟩ | ⟨-, hint, -⟩⟩ := hbelow.integer_cases hord hi
  · exact absurd hk (hord.kind_underlying result hd)
  have hk : e.types.kindOf (e.types.underlying result) = d.kind := by
    unfold TypeTable.kindOf
    rw [hd]
    rfl
  rw [hk] at hkind
  split at hkind
  · cases hkind
  · rcases hint with ⟨hint, -⟩ | ⟨hint, -⟩ <;> rw [hint] at hkind <;> cases hkind

theorem Workspace.Drafts.calls {w w' : Workspace} {c : Setting} {fn : FnId} {s : Function} {f g : Func}
    (h : w.Drafts c fn s f) (hg : f.Compiles g) (hhas : w'.Has fn s.finished g) :
    ∃ r, w'.Calls fn s.finished r g := by
  obtain ⟨hs, r, hr, hfunc⟩ := hhas
  refine ⟨r, hs, hr, ?_⟩
  have halive : g.destroyed = false := by
    obtain ⟨_, -, he⟩ := h.engine
    exact hg.alive.trans (EngineM.findFunc_ok he.func).2
  exact EngineM.findFunc_of hfunc halive

section

open BuildM

variable {w w₁ w₂ w₃ : Workspace} {b : BuildId} {c : Setting} {rt : RuntimeId} {fn : FnId}

theorem Workspace.Reached.compiles_program (hw : w.Reached) (hl : w.Linked) (p : Program c rt)
    (result : c.Integer rt)
    (hstart : ((startFunction b (p.params.map (·.ty)) result.ty).run w :
      Except Stop FnId × Workspace) = (.ok fn, w₁))
    (hhome : w₁.Housed fn rt c)
    (hemit : ((p.emit fn).run w₁ : Except Stop Unit × Workspace) = (.ok (), w₂))
    (hcompile : ((compile fn).run w₂ : Except Stop Unit × Workspace) = (.ok (), w₃)) :
    ∃ s r g, w₃.Calls fn s r g ∧ s.compiled = true ∧ s.params.length = p.params.length ∧
      s.paramReps = p.params.map (·.rep) ∧ s.retRep = result.rep ∧ p.Compiled result.rep g := by
  have hstarted := @ends_startFunction_started w b (p.params.map (·.ty)) result.ty hw
  have hmakes := BuildM.ends_startFunction hl b (p.params.map (·.ty)) result.ty
  unfold Ends at hstarted hmakes
  rw [hstart] at hstarted hmakes
  obtain ⟨s, r, f, hs, hr, hstarted⟩ := hstarted
  obtain ⟨⟨s', hs', rfl⟩, r', hr', htarget, htypes⟩ := hhome
  obtain rfl := Option.mem_unique hs hs'
  obtain rfl := Option.mem_unique hr hr'
  have hids : (p.params.map (·.ty)).map (·.id) = p.params.map (·.ty.id) := List.map_map
  rw [hids] at hstarted
  -- how the parameters and the result are held
  have hheld : List.Forall₂ (c.types.HasRep c.target) (p.params.map (·.ty.id)) (p.params.map (·.rep)) :=
    List.forall₂_map_left_iff.mpr (List.forall₂_map_right_iff.mpr
      (List.forall₂_same.mpr fun t _ => t.firm.hasRep))
  have hreps : s.paramReps = p.params.map (·.rep) :=
    hstarted.paramReps_eq (htarget.symm ▸ htypes.symm ▸ hheld)
  have hret : s.retRep = result.rep :=
    TypeTable.HasRep.unique (htypes ▸ htarget ▸ hstarted.retRep) result.firm.hasRep
  have hlen : s.params.length = p.params.length := by
    rw [hstarted.count, List.length_map]
  have hkind : s.ret.kind ≠ .void := hstarted.ret_kind (hret ▸ hstarted.retRep) result.isInteger
  -- what is built in the function
  have hdrafts : w₁.Drafts c fn s f := by
    refine hstarted.drafts hmakes.linked hs hr htarget htypes fun q hq => ?_
    rw [hreps] at hq
    obtain ⟨t, -, rfl⟩ := List.mem_map.mp hq
    exact t.isInteger.isWhole
  have hback : f.GivesBack c :=
    hstarted.givesBack htypes (hret ▸ result.firm) (hret ▸ result.isInteger)
  obtain ⟨ctx, name, sig, abi, hfresh, hsig⟩ := hstarted.fresh
  rw [hreps, hret] at hfresh
  have hbuilds := p.builds hdrafts rfl hlen hfresh hback
  unfold BuildM.Builds Yields Ends at hbuilds
  rw [hemit] at hbuilds
  obtain ⟨-, hbuilds⟩ := hbuilds
  obtain ⟨f', hdrafts', hcont, f₀, vals, hcont₀, hvars, hsize, hnumbers, hexec⟩ :=
    hbuilds (clean_of_compile hcompile)
  -- what is compiled
  obtain ⟨g, hg, hhas⟩ := (hdrafts'.ends_compile hstarted.compiled hkind).ok_of_run hcompile
  obtain ⟨r₃, hcalls⟩ := hdrafts'.calls hg hhas
  refine ⟨s.finished, r₃, g, hcalls, rfl, hlen, hreps, hret, ?_, fn, f₀, f', vals, hvars, hsize,
    hnumbers, hstarted.breaks ▸ hexec, hg⟩
  rw [hg.within.header.params, hcont.within.header.params, hfresh]
  simp [Func.fresh]

/-- Structured control flow is lowered as it is meant. A program is accepted: its function is
started, its text is built in it, and it is compiled. From then on, wherever the function can be
called without a step limit, a call of it with numbers returns a number, fails with a cause, or
lasts for ever exactly if the program does; and the host, if it does not give up, is handed that
number or that failure. -/
theorem Workspace.Reached.lowers_programs (hw : w.Reached) (hl : w.Linked) (p : Program c rt)
    (result : c.Integer rt)
    (hstart : ((startFunction b (p.params.map (·.ty)) result.ty).run w :
      Except Stop FnId × Workspace) = (.ok fn, w₁))
    (hhome : w₁.Housed fn rt c)
    (hemit : ((p.emit fn).run w₁ : Except Stop Unit × Workspace) = (.ok (), w₂))
    (hcompile : ((compile fn).run w₂ : Except Stop Unit × Workspace) = (.ok (), w₃)) :
    ∃ s g, (∃ r, w₃.Calls fn s r g) ∧ ∀ (w₄ : Workspace) (r : Runtime), w₄.Calls fn s r g →
      r.engine.maxSteps ≤ 0 → 0 < r.engine.maxDepth → ∀ (args : List HostValue) (xs : List Int),
        args.map (·.number?) = xs.map some → xs.length = p.params.length →
          p.Mirrored result.rep r.engine s.id g.name (p.words xs) xs ∧
          ((r.engine.applied runFuel s.id (p.words xs)).1 ≠ .unfinished →
            p.Answered result.rep s g.name xs
              ((call fn args).run w₄ : Except Stop HostValue × Workspace).1) := by
  obtain ⟨s, r₃, g, hcalls₃, hdone, hparams, hreps, hret, hp⟩ :=
    hw.compiles_program hl p result hstart hhome hemit hcompile
  refine ⟨s, g, ⟨r₃, hcalls₃⟩, fun w₄ r hcalls hlimit hdepth args xs hargs hxs => ⟨?_, fun hends => ?_⟩⟩
  · exact hp.mirrored hcalls.func hlimit hdepth (Program.takes_words hxs)
  · have hlen : args.length = s.params.length := by
      rw [hparams, ← hxs, ← List.length_map (·.number?), hargs, List.length_map]
    rw [hcalls.shows hdone hlen (hreps ▸ Program.marshals hparams hargs hxs)]
    exact hp.answered hcalls.func hlimit hdepth hret result.isInteger hxs hends

/-! ## A nested loop -/

def readyEngine : Engine :=
  ((EngineM.buildStart 1).run ((EngineM.createContext.run (.create .amd64 0 0 default 0) :
    Except Failure ContextId × Engine).2) : Except Failure Unit × Engine).2

def readyWorkspace : Workspace where
  runtimes := #[{ engine := readyEngine, holder := some 0 }]
  contexts := #[{ runtime := 0, id := 1, uid := "c", build := some 0 }]
  builds := #[{ ctx := 0 }]

theorem reached_readyWorkspace : readyWorkspace.Reached := by
  intro rt r hr
  have hmem : r ∈ readyWorkspace.runtimes := Array.mem_of_getElem? hr
  rw [readyWorkspace, Array.mem_singleton] at hmem
  rw [hmem]
  exact .moved (.moved (.created _ _ _ _ _) (.called .createContext _)) (.called (.buildStart 1) _)

theorem linked_readyWorkspace : readyWorkspace.Linked := ⟨nofun, nofun, nofun⟩

def sumSetting : Setting where
  target := .amd64
  types := (TypeTable.initial.addSignature
    { abi := .cdecl, params := [Builtin.int64.id], result := Builtin.int64.id }).2
  building := 1
  usual := usual_amd64
  ordered := TypeTable.initial_ordered.addSignatures [_] (by decide +kernel)

def sumSetting.int64 : sumSetting.Integer 0 where
  ty := Builtin.int64.ty 0
  rep := Builtin.int64.rep .amd64
  owner := rfl
  firm := Builtin.firm sumSetting.ordered .int64
  isInteger := ⟨.inl rfl, .inr (.inr (.inr rfl))⟩

/-- Adds up the numbers from one to the parameter. The inner loop is left in its first
turn, the outer one goes on. -/
def sumProgram : Program sumSetting 0 where
  params := [sumSetting.int64]
  locals := [sumSetting.int64, sumSetting.int64]
  body :=
    .seq (.loop false (.compare .lt (.var 1) (.var 0))
      (.seq (.assign 1 (.binary .add (.var 1) (.const sumSetting.int64 (.signed 1))))
        (.loop true (.compare .gt (.var 2) (.const sumSetting.int64 (.signed 5)))
          (.seq (.assign 2 (.binary .add (.var 2) (.var 1))) .leave))))
    (.ret (.var 2))

def sumStarted : Workspace := readyWorkspace.after (startFunction 0 [Builtin.int64.ty 0] (Builtin.int64.ty 0))
def sumWritten : Workspace := sumStarted.after (sumProgram.emit 0)
def sumCompiled : Workspace := sumWritten.after (compile 0)


/-- The program is accepted, and gives six for four. -/
theorem sum_lowered : readyWorkspace.Reached ∧ readyWorkspace.Linked ∧
    ((startFunction 0 (sumProgram.params.map (·.ty)) sumSetting.int64.ty).run readyWorkspace :
      Except Stop FnId × Workspace) = (.ok 0, sumStarted) ∧
    sumStarted.Housed 0 0 sumSetting ∧
    ((sumProgram.emit 0).run sumStarted : Except Stop Unit × Workspace) = (.ok (), sumWritten) ∧
    ((compile 0).run sumWritten : Except Stop Unit × Workspace) = (.ok (), sumCompiled) ∧
    ∃ n, sumProgram.exec (Builtin.int64.rep .amd64) n [4] = some (.returned 6) := by
  have hfacts :
      (((startFunction 0 (sumProgram.params.map (·.ty)) sumSetting.int64.ty).run readyWorkspace :
          Except Stop FnId × Workspace).1 = .ok 0 ∧
        ((sumProgram.emit 0).run sumStarted : Except Stop Unit × Workspace).1 = .ok () ∧
        ((compile 0).run sumWritten : Except Stop Unit × Workspace).1 = .ok ()) ∧
      ((∃ s ∈ sumStarted.functions[(0 : Nat)]?, s.runtime = 0) ∧
        ∃ r ∈ sumStarted.runtimes[(0 : Nat)]?, r.engine.target = .amd64 ∧
          r.engine.types.types = sumSetting.types.types ∧
          r.engine.types.structs = sumSetting.types.structs ∧
          r.engine.types.signatures = sumSetting.types.signatures ∧
          r.engine.types.decorations = sumSetting.types.decorations) ∧
      (∃ s ∈ sumCompiled.functions[(0 : Nat)]?, s.runtime = 0 ∧ s.id = 1) ∧
      (∃ r ∈ sumCompiled.runtimes[(0 : Nat)]?, r.engine.maxSteps ≤ 0 ∧ 0 < r.engine.maxDepth ∧
        (r.engine.applied runFuel 1 (sumProgram.words [4])).1.answer.toBool = true) ∧
      ∃ a ∈ ((call 0 [.int .int64 4]).run sumCompiled :
        Except Stop HostValue × Workspace).1.toOption, a.number? = some 6 := by decide +kernel
  obtain ⟨⟨hanswer, hanswer', hanswer''⟩, ⟨hfunction, hengine⟩, hfunction', hengine', hcall⟩ := hfacts
  have hstart : ((startFunction 0 (sumProgram.params.map (·.ty)) sumSetting.int64.ty).run
      readyWorkspace : Except Stop FnId × Workspace) = (.ok 0, sumStarted) := Workspace.run_after hanswer
  have hemit : ((sumProgram.emit 0).run sumStarted : Except Stop Unit × Workspace) =
      (.ok (), sumWritten) := Workspace.run_after hanswer'
  have hcompile : ((compile 0).run sumWritten : Except Stop Unit × Workspace) =
      (.ok (), sumCompiled) := Workspace.run_after hanswer''
  have hhome : sumStarted.Housed 0 0 sumSetting := by
    obtain ⟨r, hr, htarget, hsame⟩ := hengine
    exact ⟨hfunction, r, hr, htarget, TypeTable.eq_of_tables hsame⟩
  refine ⟨reached_readyWorkspace, linked_readyWorkspace, hstart, hhome, hemit, hcompile, ?_⟩
  obtain ⟨s, g, ⟨r, hcalls⟩, hlowered⟩ := reached_readyWorkspace.lowers_programs linked_readyWorkspace
    sumProgram sumSetting.int64 hstart hhome hemit hcompile
  obtain ⟨s', hs', hruntime, hid⟩ := hfunction'
  obtain rfl := Option.mem_unique hcalls.function hs'
  obtain ⟨r', hr', hlimit, hdepth, hdone⟩ := hengine'
  obtain rfl := Option.mem_unique (hruntime ▸ hcalls.runtime) hr'
  obtain ⟨-, hanswered⟩ := hlowered sumCompiled r hcalls hlimit hdepth [.int .int64 4] [4] rfl rfl
  have hends : (r.engine.applied runFuel s.id (sumProgram.words [4])).1 ≠ .unfinished := by
    intro hno
    rw [hid] at hno
    rw [hno] at hdone
    cases hdone
  obtain ⟨a, ha, hnumber⟩ := hcall
  have hok : ((call 0 [.int .int64 4]).run sumCompiled : Except Stop HostValue × Workspace).1 =
      .ok a := by
    rcases hrun : ((call 0 [.int .int64 4]).run sumCompiled :
      Except Stop HostValue × Workspace).1 with why | a' <;> rw [hrun] at ha <;> cases ha
    rfl
  obtain ⟨n, x, hx, rfl⟩ := ((hanswered hends).returns a).mp hok
  refine ⟨n, ?_⟩
  unfold Function.hostNumber Rep.hostNumber at hnumber
  split at hnumber
  · have hbool : (if x != 0 then (1 : Int) else 0) = 6 := Option.some.inj hnumber
    split at hbool <;> cases hbool
  · split at hnumber <;> exact hx.trans (by rw [Option.some.inj hnumber])

end

end TypedIR
