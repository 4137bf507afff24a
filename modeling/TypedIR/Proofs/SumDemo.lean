import TypedIR.Proofs.DemoBuilds

/-
  The demo that adds the numbers from one to its argument.

  The body is built from three parts, and one lemma for each says as which text it runs: the
  turn of the loop, the loop, and the return behind it. What the text computes is proved by
  induction on the turns that are left. The counter is one of 32 bits and is compared with
  the argument, so the loop has no last turn if the argument is the greatest number of 32 bits.
-/

namespace TypedIR

open Func (Reads)
open Workspace (Goes)

namespace Stmt

variable {k n : Nat} {cond : Valuation k → Except Cause Bool} {body : Valuation k → Option (Exit k)}
  {σ σ' : Valuation k}

theorem turns_true (hcond : cond σ = .ok true) (hbody : body σ = some (.next σ')) :
    turns cond body (n + 1) σ = turns cond body n σ' := by
  simp only [turns, given, hcond, hbody]

theorem turns_false (hcond : cond σ = .ok false) : turns cond body (n + 1) σ = some (.next σ) := by
  simp only [turns, given, hcond]

end Stmt

namespace Demo

open BuildM

/-! ## Its text -/

def sumReps (target : Target) : Fin 3 → Rep
  | 0 | 1 => Builtin.int32.rep target
  | 2 => Builtin.int64.rep target

def turnText (c : Setting) (rt : RuntimeId) : Stmt c rt 3 :=
  .seq (.assign 2 (.binary .add (.var 2) (.var 1)))
    (.assign 1 (.binary .add (.var 1) (.const (Builtin.counts_int32.integer c rt) (.signed 1))))

def sumText (c : Setting) (rt : RuntimeId) : Stmt c rt 3 :=
  .seq (.loop false (.compare .le (.var 1) (.var 0)) (turnText c rt)) (.ret (.var 2))

section

variable {c : Setting} {rt : RuntimeId} {target : Target} {result : Rep} {x i a : Int} {fuel : Nat}

def sumState (x i a : Int) : Valuation 3
  | 0 => x
  | 1 => i
  | 2 => a

theorem holds_sumCond (hx : -2 ^ 31 ≤ x ∧ x < 2 ^ 31) (hi : -2 ^ 31 ≤ i ∧ i < 2 ^ 31) :
    (Term.compare .le (.var 1) (.var 0) : Term c rt 3).holds (sumReps c.target) false
      (sumState x i a) = .ok (decide (i ≤ x)) := by
  have hrun : (Term.compare .le (.var 1) (.var 0) : Term c rt 3).holds (sumReps c.target) false
      (sumState x i a) = .ok (((if decide ((Builtin.int32.rep c.target).wrap i ≤
        (Builtin.int32.rep c.target).wrap x) then (1 : Int) else 0) != 0) != false) := rfl
  rw [hrun, wrap_int32 hx, wrap_int32 hi]
  cases decide (i ≤ x) <;> rfl

theorem exec_turnText (hi : -2 ^ 31 ≤ i ∧ i < 2 ^ 31) (ha : -2 ^ 63 ≤ a ∧ a < 2 ^ 63) :
    (turnText c rt).exec (sumReps c.target) result fuel (sumState x i a) =
      some (.next (sumState x ((Builtin.int32.rep c.target).wrap (i + 1))
        ((Builtin.int64.rep c.target).wrap (a + i)))) := by
  have h32 := Builtin.counts_int32.isInteger c.target
  have h64 := Builtin.counts_int64.isInteger c.target
  have hrun : (turnText c rt).exec (sumReps c.target) result fuel (sumState x i a) =
      some (.next (Function.update (Function.update (sumState x i a) 2
        ((Builtin.int64.rep c.target).wrap ((Builtin.int64.rep c.target).wrap
          ((Builtin.int64.rep c.target).wrap a + (Builtin.int64.rep c.target).wrap i)))) 1
        ((Builtin.int32.rep c.target).wrap ((Builtin.int32.rep c.target).wrap
          ((Builtin.int32.rep c.target).wrap i + (Builtin.int32.rep c.target).wrap
            ((Builtin.int32.rep c.target).wrap 1)))))) := rfl
  rw [hrun, h32.wrap_eq (h32.holds_wrap _), h64.wrap_eq (h64.holds_wrap _), wrap_int64 ha,
    wrap_int64 (x := i) (by omega), wrap_int32 hi, wrap_int32 (x := 1) (by omega), wrap_int32 (x := 1) (by omega)]
  refine congrArg (some ∘ Exit.next) (funext fun k => ?_)
  match k with
  | 0 => rfl
  | 1 => rfl
  | 2 => rfl

section

variable (c : Setting) (rt : RuntimeId)

def sumTurns (fuel turns : Nat) (σ : Valuation 3) : Option (Exit 3) :=
  Stmt.turns ((Term.compare .le (.var 1) (.var 0) : Term c rt 3).holds (sumReps c.target) false)
    ((turnText c rt).exec (sumReps c.target) (Builtin.int64.rep c.target) fuel) turns σ

theorem sumTurns_succ (hx : -2 ^ 31 ≤ x ∧ x < 2 ^ 31) (hi : -2 ^ 31 ≤ i ∧ i < 2 ^ 31)
    (ha : -2 ^ 63 ≤ a ∧ a < 2 ^ 63) (hle : i ≤ x) (fuel n : Nat) :
    sumTurns c rt fuel (n + 1) (sumState x i a) = sumTurns c rt fuel n
      (sumState x ((Builtin.int32.rep c.target).wrap (i + 1)) ((Builtin.int64.rep c.target).wrap (a + i))) := by
  refine Stmt.turns_true ?_ (exec_turnText hi ha)
  rw [holds_sumCond hx hi, decide_eq_true hle]

theorem sumTurns_done (hx : -2 ^ 31 ≤ x ∧ x < 2 ^ 31) (hi : -2 ^ 31 ≤ i ∧ i < 2 ^ 31)
    (hlt : x < i) (fuel n : Nat) :
    sumTurns c rt fuel (n + 1) (sumState x i a) = some (.next (sumState x i a)) := by
  refine Stmt.turns_false ?_
  rw [holds_sumCond hx hi, decide_eq_false (Int.not_le.mpr hlt)]

/-- As long as the sum is that of the numbers before the counter, the loop ends with the
counter right behind the parameter. -/
theorem sumTurns_closed (hx : x < 2 ^ 31 - 1) (fuel : Nat) {n : Nat} (hn : x < i + n)
    (hi : 1 ≤ i ∧ i ≤ x + 1) (ha : 2 * a = i * (i - 1)) :
    sumTurns c rt fuel (n + 1) (sumState x i a) =
      some (.next (sumState x (x + 1) (x * (x + 1) / 2))) := by
  have hdone : ∀ {a : Int}, 2 * a = (x + 1) * (x + 1 - 1) → x * (x + 1) / 2 = a := by
    intro a ha
    have hswap : x * (x + 1) = a * 2 := by rw [mul_comm a 2, ha]; ring
    rw [hswap, Int.mul_ediv_cancel _ (by decide)]
  induction n generalizing i a with
  | zero =>
    obtain rfl : i = x + 1 := by omega
    rw [sumTurns_done c rt (by omega) (by omega) (by omega), hdone ha]
  | succ n ih =>
    by_cases hlast : i = x + 1
    · subst hlast
      rw [sumTurns_done c rt (by omega) (by omega) (by omega), hdone ha]
    have hnext : 2 * (a + i) = (i + 1) * (i + 1 - 1) := by rw [mul_add, ha]; ring
    have hsmall : i * (i - 1) ≤ 2 ^ 31 * 2 ^ 31 := by nlinarith
    have hsmall' : (i + 1) * (i + 1 - 1) ≤ 2 ^ 31 * 2 ^ 31 := by nlinarith
    have hpos : 0 ≤ i * (i - 1) := by nlinarith
    rw [sumTurns_succ c rt (by omega) (by omega) (by omega) (by omega), wrap_int32 (by omega),
      wrap_int64 (by omega)]
    exact ih (by omega) (by omega) hnext

theorem sumTurns_greatest (fuel n : Nat) (hi : -2 ^ 31 ≤ i ∧ i < 2 ^ 31) (ha : -2 ^ 63 ≤ a ∧ a < 2 ^ 63) :
    sumTurns c rt fuel n (sumState (2 ^ 31 - 1) i a) = none := by
  induction n generalizing i a with
  | zero => rfl
  | succ n ih =>
    rw [sumTurns_succ c rt (by decide) hi ha (by omega)]
    exact ih (holds_int32.mp ((Builtin.counts_int32.isInteger c.target).holds_wrap _))
      (holds_int64.mp ((Builtin.counts_int64.isInteger c.target).holds_wrap _))

end

def sumTo (x : Int) : Int := if x ≤ 0 then 0 else x * (x + 1) / 2

theorem sumTo_range (hx : x < 2 ^ 31) : 0 ≤ sumTo x ∧ sumTo x < 2 ^ 63 := by
  unfold sumTo
  split
  · decide
  · have hsmall : x * (x + 1) ≤ 2 ^ 31 * 2 ^ 31 := by nlinarith
    have hpos : 0 ≤ x * (x + 1) := by nlinarith
    omega

theorem exec_sumText (hx : -2 ^ 31 ≤ x ∧ x < 2 ^ 31 - 1) (hfuel : x < fuel) (hpos : 0 < fuel) :
    (sumText c rt).exec (sumReps c.target) (Builtin.int64.rep c.target) fuel (sumState x 1 0) =
      some (.returned (sumTo x)) := by
  have hloop : ∀ {i a : Int}, -2 ^ 63 ≤ a ∧ a < 2 ^ 63 →
      sumTurns c rt fuel fuel (sumState x 1 0) = some (.next (sumState x i a)) →
      (sumText c rt).exec (sumReps c.target) (Builtin.int64.rep c.target) fuel (sumState x 1 0) =
        some (.returned a) := by
    intro i a ha hturns
    show Stmt.andThen (sumTurns c rt fuel fuel (sumState x 1 0)) _ = _
    rw [hturns]
    exact congrArg (some ∘ Exit.returned) (wrap_int64 ha)
  obtain ⟨m, rfl⟩ := Nat.exists_eq_add_one_of_ne_zero (Nat.ne_of_gt hpos)
  have hrange := sumTo_range (x := x) (by omega)
  unfold sumTo at hrange ⊢
  split
  · next hx₀ =>
    exact hloop (by decide) (sumTurns_done c rt (by omega) (by decide) (by omega) _ m)
  · next hx₀ =>
    rw [if_neg hx₀] at hrange
    exact hloop (by omega) (sumTurns_closed c rt (by omega) _ (by omega) (by omega) (by ring))

theorem exec_sumText_greatest (fuel : Nat) :
    (sumText c rt).exec (sumReps c.target) (Builtin.int64.rep c.target) fuel
      (sumState (2 ^ 31 - 1) 1 0) = none := by
  show Stmt.andThen (sumTurns c rt fuel fuel (sumState (2 ^ 31 - 1) 1 0)) _ = none
  rw [sumTurns_greatest c rt fuel fuel (by decide) (by decide)]
  rfl

end

/-! ## Its code -/

/-- The code of the demo: the locals get their first values, and then it runs as its text. -/
structure SumBuilt (c : Setting) (rt : RuntimeId) (fn : FnId) (f : Func) (n : Val) (f' : Func) (f₁ : Func)
    (vals : Fin 3 → Val) : Prop where
  param : vals 0 = n
  vars : f₁.Variables c fn vals (sumReps c.target)
  continues : f.Continues f₁
  starts : ∀ {x regs}, Reads (Builtin.int32.rep c.target) n.id x regs →
    f.Code f₁ regs (pure ()) fun _ regs' =>
      Valuation.In vals (sumReps c.target) (sumState x 1 0) regs'
  executes : f₁.Executes f' vals (sumReps c.target) [] fun fuel σ =>
    (sumText c rt).exec (sumReps c.target) (Builtin.int64.rep c.target) fuel σ

variable {w : Workspace} {c : Setting} {rt : RuntimeId} {fn : FnId} {s : Function} {f : Func}
  {vs : List Val}

def sum : Demo :=
  { name := "sum", summary := "1 + 2 + ... + n with a while loop", sample := ["100"],
    params := [.int32], ret := .int64, body := sumBody }

theorem ofName_sum : ofName? "sum" = some sum := by rfl

theorem goes_newLocal (fn : FnId) (t : Ty) (x : HostValue) : Leaves Goes (newLocal fn t x) :=
  .bind' (goes_declare fn t) fun v => goes_store v x

theorem goes_assign (v : Val) (x : HostValue) : Leaves Goes (assign v x) :=
  .bind' (goes_store v x) fun _ => .pure' _

theorem goes_whileLoop (fn : FnId) {cond : BuildM Val} {body : BuildM Unit} (hcond : Leaves Goes cond)
    (hbody : Leaves Goes body) : Leaves Goes (whileLoop fn cond body) :=
  .bind' (Loop.goes_run _ hcond hbody) fun l => .bind' l.goes_finish fun _ => .pure' _

def sumTurn (acc i : Val) : BuildM Unit := do
  assign acc (.value (← arith .add acc (.value i)))
  assign i (.value (← arith .add i (num 1)))

theorem goes_sumTurn (acc i : Val) : Leaves Goes (sumTurn acc i) :=
  .bind' (goes_binary _ _ _ _) fun _ => .bind' (goes_assign _ _) fun _ =>
    .bind' (goes_binary _ _ _ _) fun _ => goes_assign _ _

theorem goes_sumLoop (fn : FnId) (n i acc : Val) : Leaves Goes (do
    let ending ← whileLoop fn (rel .le i (.value n)) (sumTurn acc i)
    BuildM.ret fn (.value acc)
    check ending) :=
  .bind' (goes_whileLoop fn (goes_compare _ _ _ _) (goes_sumTurn acc i)) fun _ =>
    .bind' (goes_ret fn _) fun _ => goes_check _

theorem goes_sumBody (rt : RuntimeId) (fn : FnId) (vs : List Val) : Leaves Goes (sumBody rt fn vs) :=
  .bind' (goes_newLocal fn _ _) fun i => .bind' (goes_newLocal fn _ _) fun acc =>
    goes_sumLoop fn _ i acc

theorem sumTurn_builds (h : w.Drafts c fn s f) {vals : Fin 3 → Val}
    (hvars : f.Variables c fn vals (sumReps c.target)) (hi : (vals 1).Typed c s.runtime f) :
    (sumTurn (vals 2) (vals 1)).Builds w c fn s f fun _ f' =>
      f.Executes f' vals (sumReps c.target) s.breaks fun fuel σ =>
        (turnText c s.runtime).exec (sumReps c.target) (Builtin.int64.rep c.target) fuel σ := by
  refine Yields.bind' ((Term.binary .add (.var 2) (.var 1)).builds rfl h hvars) (fun _ =>
    .bind' (goes_assign _ _) fun _ => .bind' (goes_binary _ _ _ _) fun _ => goes_assign _ _) ?_
  rintro v w₁ ⟨f₁, h₁, hcont₁, hvfn, hv⟩
  refine Yields.bind' (h₁.assign hvars 2 hvfn hv) (fun _ =>
    .bind' (goes_binary _ _ _ _) fun _ => goes_assign _ _) ?_
  rintro _ w₂ ⟨f₂, h₂, hcont₂, hfirst⟩
  have hvars₂ := hvars.continues (hcont₁.trans hcont₂)
  have hi₂ := (hi.within (hcont₁.trans hcont₂).within).integral (hvars₂.number 1)
  refine Yields.bind' (h₂.binaryNumber (hvars₂.fn 1) (hvars₂.number 1) hi₂ _ .add 1 rfl)
    (fun _ => goes_assign _ _) ?_
  rintro u w₃ ⟨f₃, h₃, hcont₃, hufn, hu⟩
  have hu' : f₂.Gives c f₃ u.id _ fun regs x => ∃ σ : Valuation 3,
      σ.In vals (sumReps c.target) regs ∧ x = Term.eval (sumReps c.target) σ (Term.binary .add (.var 1)
        (.const (Builtin.counts_int32.integer c s.runtime) (.signed 1))) :=
    hu.weaken fun regs x ⟨σ, hσ, hx⟩ => ⟨σ 1, hσ 1, hx⟩
  refine Yields.mono (h₃.assign hvars₂ 1 hufn hu') ?_
  rintro _ w₄ ⟨f₄, h₄, hcont₄, hsecond⟩
  exact ⟨f₄, h₄, hcont₁.trans (hcont₂.trans (hcont₃.trans hcont₄)), hfirst.seq hsecond⟩

theorem sumLoop_builds (h : w.Drafts c fn s f) {vals : Fin 3 → Val}
    (hf : f.Hosts c fn vals (sumReps c.target) (Builtin.int64.rep c.target))
    (hi : (vals 1).Typed c s.runtime f) :
    (do
      let ending ← whileLoop fn (rel .le (vals 1) (.value (vals 0))) (sumTurn (vals 2) (vals 1))
      BuildM.ret fn (.value (vals 2))
      check ending).Builds w c fn s f fun _ f' =>
        f.Executes f' vals (sumReps c.target) s.breaks fun fuel σ =>
          (sumText c s.runtime).exec (sumReps c.target) (Builtin.int64.rep c.target) fuel σ := by
  have hcond : ∀ (w' : Workspace) (s' : Function) (f' : Func), s'.runtime = s.runtime →
      w'.Drafts c fn s' f' → f'.Variables c fn vals (sumReps c.target) →
      (rel .le (vals 1) (.value (vals 0))).Gives w' c fn s' f' .bool fun regs x => ∃ σ : Valuation 3,
        σ.In vals (sumReps c.target) regs ∧ x = Term.eval (sumReps c.target) σ
          (Term.compare .le (.var 1) (.var 0) : Term c s.runtime 3) :=
    fun w' s' f' hrt h' hvars' => (Term.compare .le (.var 1) (.var 0)).builds hrt h' hvars'
  have hturn : ∀ (w' : Workspace) (f' : Func) (l : Label), f.Continues f' →
      w'.Drafts c fn { s with breaks := l :: s.breaks } f' →
      (sumTurn (vals 2) (vals 1)).Builds w' c fn { s with breaks := l :: s.breaks } f' fun _ f'' =>
        f'.Executes f'' vals (sumReps c.target) (l :: s.breaks) fun fuel σ =>
          (turnText c s.runtime).exec (sumReps c.target) (Builtin.int64.rep c.target) fuel σ :=
    fun w' f' l hcont' h' => sumTurn_builds h' (hf.vars.continues hcont') (hi.within hcont'.within)
  refine Yields.bind' (Loop.builds h hf.vars false (goes_compare _ _ _ _) hcond (goes_sumTurn _ _)
    hturn (·.1)) (fun _ => .bind' (goes_ret fn _) fun _ => goes_check _) ?_
  rintro ending w₁ ⟨f₁, h₁, hcont₁, hloop⟩
  refine Yields.bind' ((Stmt.ret (.var 2)).builds rfl h₁ (hf.continues hcont₁)) (fun _ => goes_check _) ?_
  rintro _ w₂ ⟨f₂, h₂, hcont₂, hret⟩
  exact yields_check h₂.linked ending
    ⟨f₂, h₂, hcont₁.trans hcont₂, hloop.seq hret⟩

theorem sum_builds (h : w.Drafts c fn s f) (ho : sum.Opens c rt fn s f vs) :
    (sumBody rt fn vs).Builds w c fn s f fun _ f' =>
      ∃ f₁ vals, SumBuilt c rt fn f (vs.getD 0 {}) f' f₁ vals := by
  obtain rfl := ho.runtime
  obtain ⟨n, rfl⟩ : ∃ n, vs = [n] := List.length_eq_one_iff.mp ho.owns.each.length_eq
  refine Yields.bind' (h.newLocal Builtin.counts_int32 1) (fun i => .bind' (goes_newLocal fn _ _)
    fun acc => goes_sumLoop fn n i acc) ?_
  rintro i w₁ ⟨f₁, h₁, hcont₁, ⟨hi, hiid⟩, hityped, hicode⟩
  refine Yields.bind' (h₁.newLocal Builtin.counts_int64 0) (fun acc => goes_sumLoop fn n i acc) ?_
  rintro acc w₂ ⟨f₂, h₂, hcont₂, ⟨hacc, haccid⟩, -, hacccode⟩
  have hnames := (ho.owns.names.declared hcont₁ hi hiid).declared hcont₂ hacc haccid
  obtain ⟨vals, hvars, rfl, rfl, rfl⟩ : ∃ vals, f₂.Variables c fn vals (sumReps c.target) ∧
      vals 0 = n ∧ vals 1 = i ∧ vals 2 = acc :=
    ⟨_, Func.Names.variables (k := 3) hnames rfl fun | 0 | 1 | 2 => rfl, rfl, rfl, rfl⟩
  have hcont := hcont₁.trans hcont₂
  have hhosts : f₂.Hosts c fn vals (sumReps c.target) (Builtin.int64.rep c.target) :=
    ⟨hvars, ho.givesBack.within hcont.within, hcont.within.header.ret.trans ho.ret⟩
  refine Yields.mono (sumLoop_builds h₂ hhosts (hityped.within hcont₂.within)) ?_
  rintro _ w₃ ⟨f₃, h₃, hcont₃, hexec⟩
  refine ⟨f₃, h₃, hcont.trans hcont₃, f₂, vals, rfl, hvars, hcont, fun {x regs} hx => ?_, ho.breaks ▸ hexec⟩
  have hn := (List.forall₂_cons.mp ho.owns.each).1.number
  have hone : (Builtin.int32.rep c.target).wrap (1 : Int64).toInt = 1 :=
    (by decide : Rep.wrap { cls := .int, size := 4 } (1 : Int64).toInt = 1)
  have hzero : (Builtin.int64.rep c.target).wrap (0 : Int64).toInt = 0 :=
    (by decide : Rep.wrap { cls := .int, size := 8 } (0 : Int64).toInt = 0)
  rw [hone] at hicode
  rw [hzero] at hacccode
  refine Func.Code.bind' (x := pure ()) (k := fun _ => pure ()) (hicode regs) hcont₂.within
    fun _ regs₁ _ ⟨hi₁, hkept₁⟩ => ?_
  refine (hacccode regs₁).mono fun _ regs₂ _ ⟨hacc₂, hkept₂⟩ => ?_
  intro k
  match k with
  | 0 => exact (hn.within hcont₁.within).reads (hn.reads hx hkept₁) hkept₂
  | 1 => exact hi.number.reads hi₁ hkept₂
  | 2 => exact hacc₂

/-! ## Its calls -/

theorem SumBuilt.runs {f' g f₁ : Func} {vals : Fin 3 → Val} {e : Engine} {id : FuncId} {x : Int}
    (hb : SumBuilt c rt fn f (vs.getD 0 {}) f' f₁ vals) (ho : sum.Opens c rt fn s f vs)
    (hg : f'.Compiles g) (hfunc : e.findFunc id = .ok g) (hlimit : e.maxSteps ≤ 0)
    (hdepth : 0 < e.maxDepth) (hx : -2 ^ 31 ≤ x ∧ x < 2 ^ 31) :
    ∃ m : Machine, (∀ fuel, e.applied fuel id (Opens.words sum c.target [x]) = Machine.run e fuel m) ∧
      ∀ n, m.Follows e g.name n ((sumText c rt).exec (sumReps c.target) (Builtin.int64.rep c.target) n
        (sumState x 1 0)) := by
  have hwithin := hb.executes.within.trans hg.within
  have hopened := hb.continues.within.trans hwithin
  have hparams : g.params.length = (Opens.words sum c.target [x]).length := by
    rw [hopened.header.params, ho.params]
    rfl
  obtain ⟨m, regs, hat, hentered, hrun⟩ :=
    Engine.applied_eq_run hfunc (ho.callable hopened hg) hdepth hparams
  refine ⟨m, hrun, fun n => ?_⟩
  have hread := ho.reads hopened hentered (i := 0) rfl rfl
  rw [wrap_int32 hx] at hread
  have hcomes := hb.starts hread e ⟨g, 1, 0, []⟩ m hlimit hwithin hg.runs
    (by rw [ho.empty]; exact ⟨hat, hentered.fits, .outermost rfl⟩)
  have hexits : m.Exits e ⟨g, 1, 0, []⟩ vals (sumReps c.target) [] f'.insns.size n _ :=
    .after_steps hcomes fun m' ⟨regs', hm', hin⟩ =>
      hb.executes.exits n hlimit hg.within hg.runs ⟨regs', hm', hin⟩
  exact hexits.follows hg hat.onFlow

theorem words_sum {target : Target} {x : Int} (hx : -2 ^ 31 ≤ x ∧ x < 2 ^ 31) :
    Opens.words sum target [x] = [Word.ofInt x] := by
  show [Word.ofInt ((Builtin.int32.rep target).wrap x)] = _
  rw [wrap_int32 hx]

section

variable {w w' : Workspace} {rt : RuntimeId} {r : Runtime} {d : Demo} {uid : String} {fn : FnId}

theorem sum_counts : ∀ b ∈ sum.ret :: sum.params, b.Counts := by
  intro b hb
  rcases List.mem_cons.mp hb with rfl | hb
  · exact Builtin.counts_int64
  · exact List.mem_singleton.mp hb ▸ Builtin.counts_int32

/-- A call of the demo that was built, wherever it is called, goes as its text does. -/
theorem sum_built (hw : w.Reached) (hl : w.Linked) (hr : w.runtimes[rt]? = some r)
    (husual : r.engine.target.Usual)
    (hbuild : ((sum.build rt uid).run w : Except Stop FnId × Workspace) = (.ok fn, w')) :
    ∃ c s f vs g, sum.Opens c rt fn s f vs ∧ (∃ r', w'.Calls fn s.finished r' g) ∧
      ∀ (e : Engine) (x : Int), e.findFunc s.id = .ok g → e.maxSteps ≤ 0 → 0 < e.maxDepth →
        -2 ^ 31 ≤ x ∧ x < 2 ^ 31 → ∃ m : Machine,
          (∀ fuel, e.applied fuel s.id [Word.ofInt x] = Machine.run e fuel m) ∧
          ∀ n, m.Follows e g.name n ((sumText c rt).exec (sumReps c.target)
            (Builtin.int64.rep c.target) n (sumState x 1 0)) := by
  have hends := sum.ends_build uid hw.founded hl hr husual sum_counts (goes_sumBody rt)
    fun w c fn s f vs h ho => sum_builds h ho
  obtain ⟨c, s, f, vs, f', g, r', ho, -, ⟨f₁, vals, hb⟩, hg, hcalls⟩ := hends.ok_of_run hbuild
  refine ⟨c, s, f, vs, g, ho, ⟨r', hcalls⟩, fun e x hfunc hlimit hdepth hx => ?_⟩
  obtain ⟨m, hrun, hfollows⟩ := hb.runs ho hg hfunc hlimit hdepth hx
  rw [words_sum hx] at hrun
  exact ⟨m, hrun, hfollows⟩

/-- The demo adds the numbers from one to its argument. If that is the greatest number its
counter can hold, a call never ends. -/
theorem sum_adds (hd : ofName? "sum" = some d) (hw : w.Reached) (hl : w.Linked)
    (hr : w.runtimes[rt]? = some r) (husual : r.engine.target.Usual)
    (hbuild : ((d.build rt uid).run w : Except Stop FnId × Workspace) = (.ok fn, w')) :
    ∃ s g, (∃ r', w'.Calls fn s r' g) ∧ ∀ (w₁ : Workspace) (r₁ : Runtime), w₁.Calls fn s r₁ g →
      r₁.engine.maxSteps ≤ 0 → 0 < r₁.engine.maxDepth → ∀ (a : HostValue) (x : Int),
        a.number? = some x → -2 ^ 31 ≤ x ∧ x < 2 ^ 31 →
          (x ≠ 2 ^ 31 - 1 →
            (∃ m, r₁.engine.Finishes s.id [Word.ofInt x] (.result (Word.ofInt (sumTo x))) m) ∧
            ((r₁.engine.applied runFuel s.id [Word.ofInt x]).1 ≠ .unfinished →
              ((call fn [a]).run w₁ : Except Stop HostValue × Workspace).1 =
                .ok (.int .int64 (sumTo x)))) ∧
          (x = 2 ^ 31 - 1 →
            ∀ fuel, (r₁.engine.applied fuel s.id [Word.ofInt x]).1 = .unfinished) := by
  obtain rfl : sum = d := Option.mem_unique ofName_sum hd
  obtain ⟨c, s, f, vs, g, ho, hcalls, hruns⟩ := sum_built hw hl hr husual hbuild
  refine ⟨s.finished, g, hcalls, fun w₁ r₁ hcalls₁ hlimit hdepth a x ha hx => ?_⟩
  obtain ⟨m, hrun, hfollows⟩ := hruns r₁.engine x hcalls₁.func hlimit hdepth hx
  refine ⟨fun hne => ?_, fun heq fuel => ?_⟩
  · have hstops := hfollows (x.toNat + 1)
    rw [exec_sumText (by omega) (by omega) (by omega)] at hstops
    have hrange := sumTo_range hx.2
    have hargs : [a].map (·.number?) = [x].map some := by rw [List.map_singleton, ha]; rfl
    have hends := ho.ends (fun b hb => sum_counts b (List.mem_cons_of_mem _ hb)) hcalls₁ hargs rfl
      ((words_sum hx).symm ▸ hrun) hstops nofun
    rw [words_sum hx, ho.shown_result Builtin.counts_int64 nofun rfl (holds_int64.mpr (by omega))] at hends
    exact hends
  · subst heq
    have hlasts := hfollows fuel
    rw [exec_sumText_greatest] at hlasts
    rw [show s.finished.id = s.id from rfl, hrun]
    exact Machine.Lasts.unfinished hlasts

end

def sumWorkspace : Workspace := idleWorkspace.after (sum.build 0 "sum")

theorem build_sum : ((sum.build 0 "sum").run idleWorkspace : Except Stop FnId × Workspace) =
    (.ok 0, sumWorkspace) := Workspace.run_after (by decide +kernel)

/-- A call with four gives ten. -/
theorem sum_of_four : ofName? "sum" = some sum ∧ idleWorkspace.Reached ∧ idleWorkspace.Linked ∧
    (∃ r : Runtime, idleWorkspace.runtimes[0]? = some r ∧ r.engine.target.Usual) ∧
    ((sum.build 0 "sum").run idleWorkspace : Except Stop FnId × Workspace) = (.ok 0, sumWorkspace) ∧
    ((call 0 [.int .int64 4]).run sumWorkspace : Except Stop HostValue × Workspace).1 =
      .ok (.int .int64 10) := by
  refine ⟨ofName_sum, reached_idleWorkspace, linked_idleWorkspace,
    ⟨_, runtime_idleWorkspace, usual_amd64⟩, build_sum, ?_⟩
  obtain ⟨s, g, ⟨r, hcalls⟩, hadds⟩ := sum_adds ofName_sum reached_idleWorkspace linked_idleWorkspace
    runtime_idleWorkspace usual_amd64 build_sum
  obtain ⟨hfunction, hengine⟩ :
      (∃ s ∈ sumWorkspace.functions[(0 : Nat)]?, s.runtime = 0 ∧ s.id = 1) ∧
      ∃ r ∈ sumWorkspace.runtimes[(0 : Nat)]?, r.engine.maxSteps ≤ 0 ∧ 0 < r.engine.maxDepth ∧
        (r.engine.applied runFuel 1 [Word.ofInt 4]).1.answer.toBool = true := by decide +kernel
  obtain ⟨s', hs', hruntime, hid⟩ := hfunction
  obtain rfl := Option.mem_unique hcalls.function hs'
  obtain ⟨r', hr', hlimit, hdepth, hdone⟩ := hengine
  obtain rfl := Option.mem_unique hcalls.runtime (hruntime.symm ▸ hr')
  have hended := ((hadds sumWorkspace r hcalls hlimit hdepth (.int .int64 4) 4 rfl
    ⟨by decide, by decide⟩).1 (by decide)).2
  refine hended fun hrun => ?_
  rw [hid] at hrun
  rw [hrun] at hdone
  exact nomatch hdone

/-- No number of steps is enough for a call with the greatest number of the counter. -/
theorem sum_of_greatest : ∃ (s : Function) (r : Runtime),
    sumWorkspace.functions[0]? = some s ∧ sumWorkspace.runtimes[s.runtime]? = some r ∧
    r.engine.maxSteps ≤ 0 ∧ 0 < r.engine.maxDepth ∧ ∀ fuel, (r.engine.applied fuel s.id [Word.ofInt (2 ^ 31 - 1)]).1 = .unfinished := by
  obtain ⟨c, s, f, vs, g, ho, ⟨r, hcalls⟩, hruns⟩ := sum_built reached_idleWorkspace
    linked_idleWorkspace runtime_idleWorkspace usual_amd64 build_sum
  obtain ⟨hfunction, hengine⟩ : (∃ s ∈ sumWorkspace.functions[(0 : Nat)]?, s.runtime = 0) ∧
      ∃ r ∈ sumWorkspace.runtimes[(0 : Nat)]?, r.engine.maxSteps ≤ 0 ∧ 0 < r.engine.maxDepth := by
    decide +kernel
  obtain ⟨s', hs', hruntime⟩ := hfunction
  obtain rfl := Option.mem_unique hcalls.function hs'
  obtain ⟨r', hr', hlimit, hdepth⟩ := hengine
  obtain rfl := Option.mem_unique hcalls.runtime (hruntime.symm ▸ hr')
  obtain ⟨m, hrun, hfollows⟩ := hruns r.engine (2 ^ 31 - 1) hcalls.func hlimit hdepth
    ⟨by decide, by decide⟩
  refine ⟨s.finished, r, hcalls.function, hcalls.runtime, hlimit, hdepth, fun fuel => ?_⟩
  have hlasts := hfollows fuel
  rw [exec_sumText_greatest] at hlasts
  rw [show s.finished.id = s.id from rfl, hrun]
  exact Machine.Lasts.unfinished hlasts

end Demo

end TypedIR
