import TypedIR.Proofs.DemoBuilds

/-
  Functions that call themselves.

  What a call comes to depends on how deeply it is nested, and on nothing else that happened
  before it: neither on the frames that wait nor on the steps that were taken
  (`Engine.Answers`). So a function that calls itself is understood by what its calls come
  to one level deeper, or fails where the calls are nested too deeply already
  (`Machine.Stands.again`, `Func.Asks.does`).

  The builder brings the argument to the type of the parameter and gives a fresh value for
  the answer (`Workspace.Drafts.callItself`).
-/

namespace TypedIR

open Func (Reads)

/-! ## Calls -/

def Machine.Brings (m : Machine) (e : Engine) (t : Activation) : Except Cause Int → Prop
  | .ok n => m.Returns e t (Word.ofInt n)
  | .error why => m.Stops e (.halted (.failed { cause := why, function := t.func.name }))

/-- What a call of the function that is nested so deeply comes to, wherever it is made. -/
def Engine.Answers (e : Engine) (g : Func) (args : List Word) (depth : Nat) (x : Except Cause Int) : Prop :=
  ∀ (t : Activation) (m : Machine) (regs : Array Word), t.func = g → t.depth = depth → t.Awaited →
    m.At t 0 regs → g.Entered args regs → m.Brings e t x

/-- The call of the function that a call of it makes, whose answer goes into a value. -/
def Activation.again (t : Activation) (pc : Nat) (regs : Array Word) (dest : ValueId) : Activation :=
  { func := t.func, depth := t.depth + 1, dest, below := t.frame pc regs :: t.below }

namespace Machine

variable {e : Engine} {m : Machine} {t : Activation} {pc : Nat} {regs : Array Word}

theorem Brings.after {mid : Machine → Prop} {x : Except Cause Int} (h : m.Comes e mid)
    (h' : ∀ m', mid m' → m'.Brings e t x) : m.Brings e t x := by
  cases x with
  | ok n => exact Returns.after h h'
  | error why => exact Stops.after h h'

theorem Brings.given {α : Type} {y : Except Cause α} {post : α → Machine → Prop}
    {k : α → Except Cause Int} (h : m.Does e t.func.name y post)
    (hk : ∀ a m', post a m' → m'.Brings e t (k a)) : m.Brings e t (y >>= k) := by
  cases y with
  | ok a => exact .after h (hk a)
  | error why => exact h

theorem At.ends_call (h : m.At t pc regs) (hf : t.func.InRegisters) {i : Insn} (hop : i.op = .call)
    {g : Func} (hfunc : e.findFunc i.callee = .ok g) {a : ValueId} (hargs : i.args = [a]) {info : ValueInfo}
    (ha : t.func.value? a = some info) {bits : Word} (hbits : regs[a]? = some bits)
    {P : Machine → Prop} {stop : Halt Failure → Machine → Prop}
    (henter : Ends (StepM.enter e g [bits] t.depth t.func.name i.dest) m (fun _ => P) stop) :
    Ends (StepM.dispatch e t.func t.depth i) m (fun a m' => a = none ∧ P m') stop := by
  have hread : Ends (StepM.readAll i.args) m (fun ws m' => ws = [bits] ∧ m' = m) stop := by
    rw [hargs]
    refine .bind' (h.ends_read hf ha hbits) ?_
    rintro _ _ ⟨rfl, rfl⟩
    exact .pure' ⟨rfl, rfl⟩
  have hexecute : Ends (StepM.execute e t.func t.depth i) m (fun _ => P) stop := by
    unfold StepM.execute
    rw [hop]
    dsimp only
    rw [hfunc]
    refine .bind' hread ?_
    rintro _ _ ⟨rfl, rfl⟩
    exact henter
  unfold StepM.dispatch
  rw [hop]
  exact .bind' hexecute fun _ _ hpost => .pure' ⟨rfl, hpost⟩

theorem Stands.again (h : m.Stands t pc regs) (hlimit : e.maxSteps ≤ 0) (hcall : t.func.Callable)
    {i : Insn} (hi : t.func.insns[pc]? = some i) (hop : i.op = .call)
    (hfunc : e.findFunc i.callee = .ok t.func) {a : ValueId} (hargs : i.args = [a]) {ia id : ValueInfo}
    (ha : t.func.value? a = some ia) {bits : Word} (hbits : regs[a]? = some bits)
    (hlen : t.func.params.length = 1) (hd : t.func.value? i.dest = some id) (hc : id.origin ≠ .const)
    (hret : t.func.ret.cls ≠ .void) {x : Except Cause Int}
    (hx : (t.depth : Int) < e.maxDepth → e.Answers t.func [bits] (t.depth + 1) x) :
    m.Does e t.func.name (if e.maxDepth ≤ t.depth then .error (.depthLimit e.maxDepth) else x)
      fun n m' => m'.Stands t (pc + 1) (regs.setIfInBounds i.dest (Word.ofInt n)) := by
  have hregs := hcall.inRegisters
  by_cases hdeep : e.maxDepth ≤ t.depth
  · rw [if_pos hdeep]
    refine h.at'.stops hlimit hi fun m' h' => ?_
    refine (h'.ends_call hregs hop hfunc hargs ha hbits (P := fun _ => False)
      (StepM.ends_enter_deep hcall.compiled hdeep [bits] t.func.name i.dest m')).mono
      (fun _ _ hno => hno.2.elim) fun halt _ hhalt => ⟨_, hhalt, ?_⟩
    unfold Failure.within
    split <;> rfl
  rw [if_neg hdeep]
  have hcomes : m.Comes e fun m' => ∃ regs', m'.At (t.again (pc + 1) regs i.dest) 0 regs' ∧
      t.func.Entered [bits] regs' := by
    refine h.at'.comes hlimit hi fun m' h' => h'.ends_call hregs hop hfunc hargs ha hbits
      (P := fun m' => ∃ regs', m'.At (t.again (pc + 1) regs i.dest) 0 regs' ∧
        t.func.Entered [bits] regs') ?_
    have henter := @StepM.ends_enter_at e t.func hcall t.depth (by omega) [bits] hlen t.func.name i.dest
      (fun _ _ => False) m'
    rw [show m'.frames = _ from h'] at henter
    exact henter
  have hawaited : (t.again (pc + 1) regs i.dest).Awaited := by
    rintro fr rest ⟨⟩ -
    exact ⟨hregs, id, hd⟩
  have hbrings : m.Brings e (t.again (pc + 1) regs i.dest) x :=
    .after hcomes fun m' ⟨regs', hat, hentered⟩ => hx (by omega) _ m' regs' rfl rfl hawaited hat hentered
  cases x with
  | error why => exact hbrings
  | ok n =>
    refine Comes.mono hbrings fun m' hm' => ⟨?_, h.fits.set hd hc _, h.awaited⟩
    rw [Frame.received_of_ne (f := (t.again (pc + 1) regs i.dest).func) hret] at hm'
    exact hm'

end Machine


/-! ## Code -/

namespace Func

variable {c : Setting} {f f' : Func} {u v : ValueId} {rv r ro : Rep} {callee : FuncId}

/-- The code from `f` to `f'` calls a function with the number of `v`, held as `r`. The
answer goes into `u` and is held as `ro`. -/
def Asks (f f' : Func) (c : Setting) (callee : FuncId) (v u : ValueId) (rv r ro : Rep) : Prop :=
  ∃ f₁ x info i, (f.Gives c f₁ x r fun regs l => ∃ n, Reads rv v n regs ∧ l = pure (r.wrap n)) ∧
    u = f₁.values.size ∧ (info.rep = ro ∧ c.types.Firm c.target info.type ro ∧ info.origin = .temp ∧
      info.addressable = false ∧ info.slot = none) ∧
    (i.op = .call ∧ i.dest = u ∧ i.args = [x] ∧ i.callee = callee) ∧ f' = (f₁.addValue info).2.push i

theorem Asks.continues (h : f.Asks f' c callee v u rv r ro) (hro : ro.IsInteger) : f.Continues f' := by
  obtain ⟨f₁, x, info, i, hx, -, ⟨hrep, -, -, ha, -⟩, -, rfl⟩ := h
  have hadd := hx.continues.plain.addValue (needsSlot_of_integer (hrep.symm ▸ hro) ha)
  exact hx.continues.trans (hadd.trans (hadd.plain.push i))

theorem Asks.number (h : f.Asks f' c callee v u rv r ro) (hro : ro.IsInteger) : f'.Number c u ro := by
  obtain ⟨f₁, x, info, i, hx, rfl, ⟨hrep, htype, -, -, hslot⟩, -, rfl⟩ := h
  refine ⟨⟨info, ?_, hrep, htype⟩, hro⟩
  have hinfo : { info with slot := none } = info := by rw [← hslot]
  exact hinfo ▸ (value?_addValue hx.continues.plain.first _).trans (if_pos rfl)

theorem Asks.does (h : f.Asks f' c callee v u rv r ro) (hro : ro.IsInteger) {e : Engine} {t : Activation}
    {m : Machine} {regs : Array Word} {n : Int} (hlimit : e.maxSteps ≤ 0) (hg : f'.Within t.func)
    (hruns : t.func.Runs) (hcall : t.func.Callable) (hfunc : e.findFunc callee = .ok t.func)
    (hlen : t.func.params.length = 1) (hret : t.func.ret.cls ≠ .void) (hm : m.Stands t f.insns.size regs)
    (hn : Reads rv v n regs) {x : Except Cause Int} (hholds : ∀ k, x = .ok k → ro.Holds k)
    (hx : (t.depth : Int) < e.maxDepth → e.Answers t.func [Word.ofInt (r.wrap n)] (t.depth + 1) x) :
    m.Does e t.func.name (if e.maxDepth ≤ t.depth then .error (.depthLimit e.maxDepth) else x)
      fun k m' => ∃ regs', m'.Stands t f'.insns.size regs' ∧ Reads ro u k regs' ∧ f.Kept regs regs' := by
  have hnumber := h.number hro
  obtain ⟨f₁, a, info, i, ha, rfl, ⟨hrep, -, horigin, hnot, hslot⟩, ⟨hop, hdest, hargs, rfl⟩, rfl⟩ := h
  have hadd := ha.continues.plain.addValue (needsSlot_of_integer (hrep.symm ▸ hro) hnot)
  have hwithin : f₁.Within t.func := hadd.within.trans ((hadd.plain.push i).within.trans hg)
  refine .after (ha.computes ⟨n, hn, rfl⟩ e t m hlimit hwithin hruns hm) ?_
  rintro m₁ ⟨regs₁, hm₁, hread, hkept⟩
  have hi : t.func.insns[f₁.insns.size]? = some i :=
    hg.insn (show (f₁.insns.push i)[f₁.insns.size]? = some i by simp)
  obtain ⟨ia, hia, -⟩ := ha.number.value
  have hinfo : { info with slot := none } = info := by rw [← hslot]
  have hu : t.func.value? f₁.values.size = some info :=
    hg.value (hinfo ▸ (value?_addValue ha.continues.plain.first _).trans (if_pos rfl))
  have hconst : info.origin ≠ .const := by rw [horigin]; nofun
  have hsize : ((f₁.addValue info).2.push i).insns.size = f₁.insns.size + 1 := by
    simp [Func.push, Func.addValue]
  have hdoes := hm₁.again hlimit hcall hi hop hfunc hargs (hwithin.value hia) hread.2 hlen
    (hdest.symm ▸ hu) hconst hret hx
  have hends : ∀ k, (if e.maxDepth ≤ t.depth then .error (.depthLimit e.maxDepth) else x) = .ok k →
      ro.Holds k := by
    intro k hk
    split at hk
    · cases hk
    · exact hholds k hk
  generalize (if e.maxDepth ≤ t.depth then Except.error (.depthLimit e.maxDepth) else x) = y at hdoes hends ⊢
  cases y with
  | error why => exact hdoes
  | ok k =>
    rw [hdest] at hdoes
    refine Machine.Comes.mono hdoes fun m' hm' => ⟨_, hsize ▸ hm', ⟨hends k rfl, hm₁.fits.get_set hu _⟩,
      fun hother => ?_⟩
    have hlt := (value?_lt (ha.continues.within.value hother)).2.2
    rw [Array.getElem?_setIfInBounds_ne (Nat.ne_of_gt hlt), hkept hother]

end Func

theorem Bench.Drafts.call {b : Bench} {c : Setting} {f : Func} (hb : b.Drafts c f) (hf : f.Plain)
    {v : ValueId} {rv r ro : Rep} (hv : f.Number c v rv) {sig : TypeId} {g : Signature} {p : TypeId}
    (hsig : c.types.signature? sig = some g) (hparams : g.params = [p]) (hp : c.types.Firm c.target p r)
    (hi : r.IsInteger) (hret : c.types.Firm c.target g.result ro) (hio : ro.IsInteger) (callee : FuncId)
    (rep : Rep) {stop : Failure → Bench → Prop} :
    Ends (Emit.call callee sig rep [v]) b
      (fun u b' => ∃ f', b'.Drafts c f' ∧ f.Asks f' c callee v u rv r ro) stop := by
  refine .bind_get ?_
  rw [hb.types, hsig]
  have hargs : Ends (Emit.callArgs g [v]) b (fun xs b' => ∃ x, xs = [x] ∧ b'.Gives c f r
      (fun regs l => ∃ n, Reads rv v n regs ∧ l = pure (r.wrap n)) x) stop := by
    unfold Emit.callArgs
    rw [hparams]
    refine .ite' (fun hno => absurd rfl hno) fun _ => .bind_pure ?_
    refine .bind' (hb.coerce hf hv hp hi) ?_
    rintro x b₁ hx
    exact .bind_pure (.pure' ⟨x, rfl, hx⟩)
  refine .bind' hargs ?_
  rintro _ b₁ ⟨x, rfl, f₁, hb₁, hx⟩
  refine .bind' (hb₁.temp hret hio) ?_
  rintro _ b₂ ⟨rfl, hb₂⟩
  refine .bind' (hb₂.push _) fun _ b₃ hb₃ => .pure' ⟨_, hb₃, f₁, x, _, _, hx, rfl,
    ⟨rfl, hret, rfl, rfl, rfl⟩, ⟨rfl, rfl, rfl, rfl⟩, rfl⟩

/-! ## The builder -/

namespace Workspace.Drafts

open BuildM

variable {w : Workspace} {c : Setting} {fn : FnId} {s : Function} {f : Func} {v : Val} {r rv ro : Rep}

theorem callItself (h : w.Drafts c fn s f) (hcount : s.params.length = 1) (hfn : v.fn = some fn)
    (hv : f.Number c v.id rv) {g : Signature} {p : TypeId} (hsig : c.types.signature? f.sig = some g)
    (hparams : g.params = [p]) (hp : c.types.Firm c.target p r) (hi : r.IsInteger)
    (hret : c.types.Firm c.target g.result ro) (hio : ro.IsInteger) :
    (callOther fn (some fn) [.value v]).Builds w c fn s f fun u f' =>
      u.fn = some fn ∧ f.Asks f' c s.id v.id u.id rv r ro := by
  obtain ⟨t, ht⟩ := List.length_eq_one_iff.mp hcount
  have hemit : ∀ e : Engine, e.Drafts c s.id f → Ends (EngineM.call s.id s.id [v.id]) e
      (fun u e' => ∃ f', e'.Drafts c s.id f' ∧ f.Continues f' ∧ f.Asks f' c s.id v.id u rv r ro)
      fun _ _ => True := by
    intro e he
    refine EngineM.ends_ask (fun _ _ => EngineM.ends_answered he.func ?_) fun _ => trivial
    refine he.ends_emitInto fun b hb => ?_
    refine (hb.call h.plain hv hsig hparams hp hi hret hio s.id f.ret).imp ?_
    rintro u b' ⟨f', hb', hasks⟩
    exact ⟨f', hb', hasks.continues hio, hasks⟩
  have hoperands : Ends (operands? fn "call" ([.value v].zip s.params)) w
      (fun ids w' => ids = some [v.id] ∧ w' = w) fun _ _ => True := by
    rw [ht, List.zip_cons_cons]
    simp only [operands?, operand?_eq hfn hv.pos]
    exact .bind_pure (.bind_pure (.pure' ⟨rfl, rfl⟩))
  have hrt : Ends (runtimeOf fn) w (fun rt w' => rt = s.runtime ∧ w' = w) fun _ _ => True :=
    ends_function h.function (.pure' ⟨rfl, rfl⟩)
  refine Ends.bind' hrt ?_
  rintro _ _ ⟨rfl, rfl⟩
  refine ends_function h.function (.ite' (fun hno => absurd rfl hno) fun _ =>
    .ite' (fun hno => absurd hcount.symm hno) fun _ => .bind' hoperands ?_)
  rintro _ _ ⟨rfl, rfl⟩
  exact h.emit "call" (fun _ => .edits_call _ _) hemit

end Workspace.Drafts

end TypedIR
