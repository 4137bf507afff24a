import TypedIR.Proofs.IntegerTypes
import TypedIR.Proofs.RegisterCode

/-
  What emitters make of integers.

  Where values are integers an emitter brings its operands to one type, adds one
  instruction, and gives a value for the result. So the code it adds computes what the
  operator says, from the numbers in the registers of its operands. There is one lemma
  for each emitter a structured program needs.
-/

namespace TypedIR

def Func.GivesBack (f : Func) (c : Setting) : Prop :=
  f.ret.cls = .void ∨ ∃ s, c.types.signature? f.sig = some s ∧
    c.types.Firm c.target s.result f.ret ∧ f.ret.IsInteger

def Bench.Gives (b : Bench) (c : Setting) (f : Func) (r : Rep)
    (p : Array Word → Except Cause Int → Prop) (v : ValueId) : Prop :=
  ∃ f', b.Drafts c f' ∧ f.Gives c f' v r p

namespace Bench.Drafts

open Func (Reads)

variable {b : Bench} {c : Setting} {f f' : Func} {u v : ValueId} {type : TypeId} {r ru rv : Rep}
  {regs : Array Word} {stop : Failure → Bench → Prop} (hb : b.Drafts c f)
include hb

/-! ## Parts of emitters -/

theorem value {info : ValueInfo} (hv : f.value? v = some info) :
    Ends (Emit.value v) b (fun a b' => a = info ∧ b'.Drafts c f) stop := by
  unfold Emit.value
  refine .bind_get ?_
  rw [hb.func, hv]
  exact .pure' ⟨rfl, hb⟩

theorem addValue (info : ValueInfo) :
    Ends (Emit.addValue info) b
      (fun v b' => v = f.values.size ∧ b'.Drafts c (f.addValue info).2) stop := by
  unfold Emit.addValue
  refine .bind_get ?_
  rw [hb.func]
  exact .bind_set (.pure' ⟨rfl, { hb with func := rfl }⟩)

theorem push (i : Insn) :
    Ends (Emit.push i) b (fun _ b' => b'.Drafts c (f.push i)) stop :=
  .modify' { hb with func := congrArg (Func.push · i) hb.func }

theorem temp (hr : c.types.Firm c.target type r) (hi : r.IsInteger) :
    Ends (Emit.temp type) b (fun v b' => v = f.values.size ∧
      b'.Drafts c (f.addValue { type, rep := r, origin := .temp }).2) stop := by
  refine .bind' (hb.repOf hr hi) ?_
  rintro _ b' ⟨rfl, hb'⟩
  exact hb'.addValue _

theorem compute (hf : f.Plain) (hr : c.types.Firm c.target type r)
    (hi : r.IsInteger) {g : ValueId → Insn} {p : Array Word → Except Cause Int → Prop}
    (hstep : ∀ (e : Engine) (t : Activation) (m : Machine) (regs : Array Word) (x : Except Cause Int),
      e.maxSteps ≤ 0 → f.Within t.func → t.func.InRegisters → m.At t f.insns.size regs →
      t.func.insns[f.insns.size]? = some (g f.values.size) →
      t.func.value? f.values.size = some { type, rep := r, origin := .temp } → p regs x →
      m.Does e t.func.name (Word.ofInt <$> x) fun bits =>
        Machine.At.Sets t f.insns.size regs f.values.size bits)
    (hholds : ∀ regs n, p regs (.ok n) → r.Holds n) :
    Ends (do
      let dest ← Emit.temp type
      Emit.push (g dest)
      pure dest) b (fun v b' => b'.Gives c f r p v) stop := by
  refine .bind' (hb.temp hr hi) ?_
  rintro _ b₁ ⟨rfl, hb₁⟩
  refine .bind' (hb₁.push _) fun _ b₂ hb₂ => .pure' ?_
  let info : ValueInfo := { type, rep := r, origin := .temp }
  have hneeds : info.needsSlot = false := Func.needsSlot_of_integer hi rfl
  have hconst : info.origin ≠ .const := nofun
  have hadd := hf.addValue hneeds
  refine ⟨_, hb₂, hadd.trans (hadd.plain.push _),
    ⟨⟨info, ?_, rfl, hr⟩, hi⟩, fun {regs x} hx => ?_⟩
  · exact (Func.value?_addValue hf.first _).trans (if_pos rfl)
  · refine .of_words (.compute hf hconst (fun e t m hlimit hw hregs hm hi hv => ?_) hneeds)
      fun n hn => hholds regs n (hn ▸ hx)
    exact hstep e t m regs x hlimit hw hregs hm hi hv hx

/-! ## Conversions -/

theorem converting (hf : f.Plain) {info : ValueInfo} (hinfo : f.value? v = some info)
    (hiv : info.rep.IsInteger) (hr : c.types.Firm c.target type r) (hi : r.IsInteger) :
    Ends (do
      let dest ← Emit.temp type
      Emit.push { op := .convert, dest, a := v, type, rep := info.rep }
      pure dest) b (fun u b' => b'.Gives c f r
        (fun regs x => ∃ n, Reads info.rep v n regs ∧ x = pure (r.wrap n)) u) stop := by
  refine hb.compute hf hr hi ?_ ?_
  · rintro e g m regs _ hlimit hw hregs hm hpc hdest ⟨n, hn, rfl⟩
    have hconvert := hm.convert hregs hlimit hpc (hw.value hinfo) hdest hn.2
    rw [hi.convertWord_ofInt hiv] at hconvert
    exact hconvert
  · rintro regs _ ⟨n, -, ⟨⟩⟩
    exact hi.holds_wrap n

theorem coerce (hf : f.Plain) (hv : f.Number c v rv)
    (hr : c.types.Firm c.target type r) (hi : r.IsInteger) :
    Ends (Emit.coerce v type) b (fun u b' => b'.Gives c f r
      (fun regs x => ∃ n, Reads rv v n regs ∧ x = pure (r.wrap n)) u) stop := by
  obtain ⟨⟨info, hinfo, rfl, htype⟩, hiv⟩ := hv
  have hsame : info.rep = r → ∀ b' : Bench, b'.Drafts c f → b'.Gives c f r
      (fun regs x => ∃ n, Reads info.rep v n regs ∧ x = pure (r.wrap n)) v := by
    rintro rfl b' hb'
    refine ⟨f, hb', .refl hf, ⟨⟨info, hinfo, rfl, htype⟩, hiv⟩, ?_⟩
    rintro regs _ ⟨n, hn, rfl⟩
    rw [hiv.wrap_eq hn.1]
    exact .refl' hn
  refine .bind' (hb.value hinfo) ?_
  rintro _ b₁ ⟨rfl, hb₁⟩
  refine .ite' (fun heq => .pure' (hsame ?_ b₁ hb₁)) fun _ => ?_
  · exact (heq ▸ htype).unique hr.hasRep
  refine .bind' (hb₁.repOf hr hi) ?_
  rintro _ b₂ ⟨rfl, hb₂⟩
  refine .ite' (fun heq => .pure' (hsame heq b₂ hb₂)) fun _ => ?_
  dsimp only
  rw [hiv.isScalar, hi.isScalar]
  exact hb₂.converting hf hinfo hiv hr hi

theorem convert (hf : f.Plain) (hv : f.Number c v rv)
    (hr : c.types.Firm c.target type r) (hi : r.IsInteger) :
    Ends (Emit.convert v type) b (fun u b' => b'.Gives c f r
      (fun regs x => ∃ n, Reads rv v n regs ∧ x = pure (r.wrap n)) u) stop := by
  obtain ⟨⟨info, hinfo, rfl, htype⟩, hiv⟩ := hv
  refine .bind' (hb.value hinfo) ?_
  rintro _ b₁ ⟨rfl, hb₁⟩
  refine .bind' (hb₁.repOf hr hi) ?_
  rintro _ b₂ ⟨rfl, hb₂⟩
  dsimp only
  rw [hiv.isScalar, hi.isScalar]
  exact hb₂.converting hf hinfo hiv hr hi

/-! ## Operators -/

theorem combine (hf : f.Plain) (hu : f.Number c u ru) (hv : f.Number c v rv)
    (hr : c.types.Firm c.target type r) (hi : r.IsInteger) {out : TypeId} {t : Rep}
    (ht : c.types.Firm c.target out t) (hit : t.IsInteger) {g : ValueId → ValueId → ValueId → Insn}
    {z : Int → Int → Except Cause Int}
    (hstep : ∀ {e : Engine} {s : Activation} {m : Machine} {pc : Nat} {regs : Array Word}
      {x y dest : ValueId} {xi yi di : ValueInfo} {n k : Int}, e.maxSteps ≤ 0 →
      s.func.InRegisters → m.At s pc regs → s.func.insns[pc]? = some (g x y dest) →
      s.func.value? x = some xi → s.func.value? y = some yi → s.func.value? dest = some di →
      Reads r x n regs → Reads r y k regs →
      m.Does e s.func.name (Word.ofInt <$> z n k) fun bits => Machine.At.Sets s pc regs dest bits)
    (hz : ∀ {n k l}, z n k = .ok l → t.Holds l) :
    Ends (do
      let x ← Emit.coerce u type
      let y ← Emit.coerce v type
      let dest ← Emit.temp out
      Emit.push (g x y dest)
      pure dest) b (fun w b' => b'.Gives c f t (fun regs l => ∃ n k, Reads ru u n regs ∧
        Reads rv v k regs ∧ l = z (r.wrap n) (r.wrap k)) w) stop := by
  refine .bind' (hb.coerce hf hu hr hi) ?_
  rintro x b₁ ⟨f₁, hb₁, hx⟩
  refine .bind' (hb₁.coerce hx.continues.plain (hv.within hx.continues.within) hr hi) ?_
  rintro y b₂ ⟨f₂, hb₂, hy⟩
  obtain ⟨xi, hxi, -⟩ := (hx.number.within hy.continues.within).value
  obtain ⟨yi, hyi, -⟩ := hy.number.value
  refine .mono (hb₂.compute (g := g x y)
    (p := fun regs l => ∃ n k, Reads r x n regs ∧ Reads r y k regs ∧ l = z n k)
    hy.continues.plain ht hit ?_ ?_) ?_ fun _ _ h => h
  · rintro e s m regs _ hlimit hw hregs hm hpc hdest ⟨n, k, hn, hk, rfl⟩
    exact hstep hlimit hregs hm hpc (hw.value hxi) (hw.value hyi) hdest hn hk
  · rintro regs l ⟨n, k, -, -, hl⟩
    exact hz hl.symm
  · rintro w b₃ ⟨f₃, hb₃, hw⟩
    have hrest : f₁.Gives c f₃ w t fun regs l => ∃ n k, Reads r x n regs ∧ Reads rv v k regs ∧
        l = z n (r.wrap k) := by
      refine hy.bind' hw ?_
      rintro regs _ ⟨n, k, hn, hk, rfl⟩
      exact ⟨_, fun k => z n k, ⟨k, hk, rfl⟩, rfl, fun k' regs' hk' hkept =>
        ⟨n, k', hx.number.reads hn hkept, hk', rfl⟩⟩
    refine ⟨f₃, hb₃, hx.bind' hrest ?_⟩
    rintro regs _ ⟨n, k, hn, hk, rfl⟩
    exact ⟨_, fun n => z n (r.wrap k), ⟨n, hn, rfl⟩, rfl, fun n' regs' hn' hkept =>
      ⟨n', k, hn', hv.reads hk hkept, rfl⟩⟩

theorem binary (hf : f.Plain) (hu : f.Number c u ru) (hv : f.Number c v rv) {op : Opcode}
    (hop : op.isBinary = true) (hr : r = if op.isShift then ru.promoted else ru.common rv) :
    Ends (Emit.binary op u v) b (fun w b' => b'.Gives c f r (fun regs l => ∃ n k,
      Reads ru u n regs ∧ Reads rv v k regs ∧ l = r.operate op (r.wrap n) (r.wrap k)) w) stop := by
  obtain ⟨⟨iu, hiu, hru, hut⟩, hinu⟩ := id hu
  obtain ⟨⟨iv, hiv, hrv, hvt⟩, hinv⟩ := id hv
  have hi : r.IsInteger := by
    rw [hr]
    split
    · exact hinu.promoted
    · exact hinu.common hinv
  refine .bind' (hb.value hiu) ?_
  rintro _ b₁ ⟨rfl, hb₁⟩
  refine .bind' (hb₁.value hiv) ?_
  rintro _ b₂ ⟨rfl, hb₂⟩
  extract_lets k
  have hk : ∀ type b', b'.Drafts c f → c.types.Firm c.target type r →
      Ends (k type) b' (fun w b' => b'.Gives c f r (fun regs l => ∃ n k,
        Reads ru u n regs ∧ Reads rv v k regs ∧ l = r.operate op (r.wrap n) (r.wrap k)) w) stop := by
    intro type b' hb' htype
    refine .bind' (hb'.repOf htype hi) ?_
    rintro r b₃ ⟨rfl, hb₃⟩
    have hpointer : r.cls ≠ .pointer := by
      rcases hi.1 with hc | hc <;> rw [hc] <;> nofun
    dsimp only
    rw [if_neg (fun h => hi.not_float h.1), if_neg hpointer]
    refine hb₃.combine hf hu hv htype hi htype hi ?_ fun hl => hi.holds_operate op hl
    intro e s m pc regs x y dest xi yi di n k hlimit hregs hm hpc hx hy hd hn hk
    have hbinary := hm.binary hregs hlimit hop hpc hx hy hd hn.2 hk.2
    rwa [hi.evalBinary_ofInt hn.1 hk.1 hop] at hbinary
  clear_value k
  refine .ite' (fun hs => ?_) fun hs => ?_
  · rw [if_pos hs] at hr
    refine .bind' (hb₂.promoteUnary? hut hinu) ?_
    rintro _ b₃ ⟨⟨type, rfl, htype⟩, hb₃⟩
    exact hk type b₃ hb₃ (hr ▸ htype)
  · rw [if_neg hs] at hr
    refine .bind' (hb₂.commonType op hut hvt hinu hinv) ?_
    rintro type b₃ ⟨htype, hb₃⟩
    exact hk type b₃ hb₃ (hr ▸ htype)

theorem compare (hf : f.Plain) (hu : f.Number c u ru) (hv : f.Number c v rv) {op : Opcode}
    (hop : op.isCompare = true) :
    Ends (Emit.compare op u v) b (fun w b' => b'.Gives c f .bool (fun regs l => ∃ n k,
      Reads ru u n regs ∧ Reads rv v k regs ∧ l = pure (if op.relates ((ru.common rv).wrap n)
        ((ru.common rv).wrap k) then 1 else 0)) w) stop := by
  obtain ⟨⟨iu, hiu, hru, hut⟩, hinu⟩ := id hu
  obtain ⟨⟨iv, hiv, hrv, hvt⟩, hinv⟩ := id hv
  have hi := hinu.common hinv
  refine .bind' (hb.value hiu) ?_
  rintro _ b₁ ⟨rfl, hb₁⟩
  refine .bind' (hb₁.value hiv) ?_
  rintro _ b₂ ⟨rfl, hb₂⟩
  refine .bind' (hb₂.commonType op hut hvt hinu hinv) ?_
  rintro type b₃ ⟨htype, hb₃⟩
  refine .bind' (hb₃.repOf htype hi) ?_
  rintro _ b₄ ⟨rfl, hb₄⟩
  refine hb₄.combine hf hu hv htype hi (z := fun n k => pure (if op.relates n k then 1 else 0))
    (Builtin.firm c.ordered .bool) Rep.isInteger_bool ?_ ?_
  · intro e s m pc regs x y dest xi yi di n k hlimit hregs hm hpc hx hy hd hn hk
    have hcompare := hm.compare hregs hlimit hop hpc hx hy hd hn.2 hk.2
    rwa [hi.evalCompare_ofInt hn.1 hk.1 hop] at hcompare
  · rintro n k _ ⟨⟩
    exact Rep.holds_ofBool _

theorem unary (hf : f.Plain) (hv : f.Number c v rv) {op : Opcode} (hop : op = .neg ∨ op = .not) :
    Ends (Emit.unary op v) b (fun w b' => b'.Gives c f rv.promoted (fun regs l => ∃ n,
      Reads rv v n regs ∧ l = pure (rv.promoted.turn op (rv.promoted.wrap n))) w) stop := by
  obtain ⟨⟨iv, hiv, hrv, hvt⟩, hinv⟩ := id hv
  have hi := hinv.promoted
  refine .bind' (hb.value hiv) ?_
  rintro _ b₁ ⟨rfl, hb₁⟩
  refine .bind' (hb₁.promoteUnary? hvt hinv) ?_
  rintro _ b₂ ⟨⟨type, rfl, htype⟩, hb₂⟩
  refine .bind' (hb₂.repOf htype hi) ?_
  rintro _ b₃ ⟨rfl, hb₃⟩
  dsimp only
  rw [if_neg (fun h => hi.not_float h.1)]
  refine .bind' (hb₃.coerce hf hv htype hi) ?_
  rintro x b₄ ⟨f₁, hb₄, hx⟩
  obtain ⟨xi, hxi, -⟩ := hx.number.value
  refine .mono (hb₄.compute (p := fun regs l => ∃ n, Reads rv.promoted x n regs ∧
    l = pure (rv.promoted.turn op n)) hx.continues.plain htype hi ?_ ?_) ?_ fun _ _ h => h
  · rintro e s m regs _ hlimit hw hregs hm hpc hdest ⟨n, hn, rfl⟩
    have hunary := hm.unary hregs hlimit hop hpc (hw.value hxi) hdest hn.2
    rwa [hi.evalUnary_ofInt hn.1 hop] at hunary
  · rintro regs _ ⟨n, -, ⟨⟩⟩
    exact hi.holds_wrap _
  · rintro w b₅ ⟨f₂, hb₅, hw⟩
    refine ⟨f₂, hb₅, hx.bind' hw ?_⟩
    rintro regs _ ⟨n, hn, rfl⟩
    exact ⟨_, fun n => pure (rv.promoted.turn op n), ⟨n, hn, rfl⟩, rfl,
      fun n' regs' hn' _ => ⟨n', hn', rfl⟩⟩

theorem test (hf : f.Plain) (hv : f.Number c v rv) :
    Ends (Emit.test .toBool v) b (fun w b' => b'.Gives c f .bool (fun regs l => ∃ n,
      Reads rv v n regs ∧ l = pure (if n != 0 then 1 else 0)) w) stop := by
  obtain ⟨⟨iv, hiv, rfl, hvt⟩, hinv⟩ := id hv
  refine .bind' (hb.value hiv) ?_
  rintro _ b₁ ⟨rfl, hb₁⟩
  dsimp only
  rw [hinv.isScalar]
  refine hb₁.compute hf (Builtin.firm c.ordered .bool) Rep.isInteger_bool ?_ ?_
  · rintro e s m regs _ hlimit hw hregs hm hpc hdest ⟨n, hn, rfl⟩
    have htest := hm.test hregs hlimit hpc (hw.value hiv) hdest hn.2
    rwa [hinv.truthy_ofInt hn.1, Rep.ofBool_eq] at htest
  · rintro regs _ ⟨n, -, ⟨⟩⟩
    exact Rep.holds_ofBool _

/-! ## Values without an instruction -/

theorem createLocal (hr : c.types.Firm c.target type r) (hi : r.IsInteger) :
    Ends (Emit.createLocal type) b (fun v b' => v = f.values.size ∧
      b'.Drafts c (f.addValue { type, rep := r, origin := .local }).2) stop := by
  refine .bind' (hb.repOf hr hi) ?_
  rintro r b₁ ⟨rfl, hb₁⟩
  have hvoid : r.cls ≠ .void := by
    rcases hi.1 with hc | hc <;> rw [hc] <;> nofun
  dsimp only
  rw [if_neg hvoid]
  exact hb₁.addValue _

theorem constant (hf : f.Plain) (hr : c.types.Firm c.target type r) (hi : r.IsInteger) (n : Int) :
    Ends (Emit.constant type (Word.ofInt n) .int) b (fun v b' => b'.Gives c f r
      (fun _ l => l = pure (r.wrap n)) v) stop := by
  refine .bind' (hb.repOf hr hi) ?_
  rintro r b₁ ⟨rfl, hb₁⟩
  have hclass : Emit.constClassOk r.cls .int = true := by
    rcases hi.1 with hc | hc <;> rw [hc] <;> rfl
  dsimp only
  rw [hclass]
  let info : ValueInfo := { type, rep := r, origin := .const, bits := Word.ofInt (r.wrap n) }
  have hneeds : info.needsSlot = false := Func.needsSlot_of_integer hi rfl
  have hinfo : (f.addValue info).2.value? f.values.size = some info :=
    (Func.value?_addValue hf.first _).trans (if_pos rfl)
  rw [hi.normalize_ofInt]
  refine (hb₁.addValue info).imp ?_
  rintro _ b₂ ⟨rfl, hb₂⟩
  refine ⟨_, hb₂, hf.addValue hneeds, ⟨⟨info, hinfo, rfl, hr⟩, hi⟩, ?_⟩
  rintro regs _ rfl e t m hlimit hg hruns hm
  refine .pure' ⟨regs, hm, ⟨hi.holds_wrap n, ?_⟩, fun _ => rfl⟩
  exact hm.fits.const _ _ (hg.value hinfo) rfl

/-! ## Assignments and returns -/

theorem store (hf : f.Plain) (hu : f.Number c u ru)
    (hconst : ∀ info, f.value? u = some info → info.origin ≠ .const) (hv : f.Number c v rv) :
    Ends (Emit.store u v) b (fun _ b' => ∃ f', b'.Drafts c f' ∧ f.Continues f' ∧
      ∀ {regs n}, Reads rv v n regs → f.Code f' regs (pure ()) fun _ regs' =>
        Reads ru u (ru.wrap n) regs' ∧
          ∀ {w info}, f.value? w = some info → w ≠ u → regs'[w]? = regs[w]?) stop := by
  obtain ⟨⟨iu, hiu, rfl, hut⟩, hinu⟩ := id hu
  obtain ⟨⟨iv, hiv, rfl, hvt⟩, hinv⟩ := id hv
  have hstruct : ∀ {r : Rep}, r.IsInteger → r.cls ≠ .struct := by
    intro r hi
    rcases hi.1 with hc | hc <;> rw [hc] <;> nofun
  refine .bind' (hb.value hiu) ?_
  rintro iu b₁ ⟨rfl, hb₁⟩
  refine .bind' (hb₁.value hiv) ?_
  rintro iv b₂ ⟨rfl, hb₂⟩
  dsimp only
  rw [if_neg (hconst _ hiu), if_neg (not_or.mpr ⟨hstruct hinu, hstruct hinv⟩)]
  refine .bind' (hb₂.coerce hf hv hut hinu) ?_
  rintro x b₃ ⟨f₁, hb₃, hx⟩
  obtain ⟨xi, hxi, -⟩ := hx.number.value
  have hcopy := hx.continues.plain.push { op := .copy, dest := u, a := x, rep := iu.rep }
  refine (hb₃.push _).imp fun _ b₄ hb₄ => ⟨_, hb₄, hx.continues.trans hcopy, ?_⟩
  intro regs n hn
  refine Func.Code.bind' (k := fun _ => pure ()) (hx.computes ⟨n, hn, rfl⟩) hcopy.within ?_
  rintro _ regs₁ ⟨⟩ ⟨hread, hkept⟩ e t m hlimit hg hruns hm
  have hpc : t.func.insns[f₁.insns.size]? =
      some { op := .copy, dest := u, a := x, rep := iu.rep } :=
    hg.insn (by simp [Func.push])
  have hvx := (hcopy.within.trans hg).value hxi
  have hvu := (hx.continues.within.trans (hcopy.within.trans hg)).value hiu
  refine Machine.Comes.mono (hm.at'.copy hruns.inRegisters hlimit hpc hvx hvu hread.2) ?_
  intro m' hset
  have hsize : (f₁.push { op := .copy, dest := u, a := x, rep := iu.rep }).insns.size =
      f₁.insns.size + 1 := by simp [Func.push]
  refine ⟨_, ⟨hsize ▸ hset, hm.fits.set hvu (hconst _ hiu) _, hm.awaited⟩,
    ⟨hread.1, hm.fits.get_set hvu _⟩, fun {w info} hw hne => ?_⟩
  rw [Array.getElem?_setIfInBounds_ne (Ne.symm hne), hkept hw]

theorem ret (hf : f.Plain) (hv : f.Number c v rv) (hback : f.GivesBack c) :
    Ends (Emit.ret v) b (fun _ b' => ∃ f', b'.Drafts c f' ∧ f.Continues f' ∧
      ∀ {e : Engine} {t : Activation} {m : Machine} {regs n}, e.maxSteps ≤ 0 → f'.Within t.func →
        t.func.Runs → m.Stands t f.insns.size regs → Reads rv v n regs →
        m.Returns e t (Word.ofInt (f.ret.wrap n))) fun _ _ => True := by
  obtain ⟨iv, hiv, -⟩ := id hv.value
  unfold Emit.ret
  refine .bind_get ?_
  dsimp only
  rw [if_neg (Nat.ne_of_gt (Func.value?_lt hiv).1), hb.func]
  rcases hback with hvoid | ⟨s, hsig, hret, hi⟩
  · exact .ite' (fun _ => .stopped (.bind_get (.throw' trivial))) fun h => absurd hvoid h
  refine .ite' (fun _ => .stopped (.bind_get (.throw' trivial))) fun _ => .bind_get ?_
  rw [hb.types, hsig]
  refine .bind' (hb.coerce hf hv hret hi) ?_
  rintro x b₁ ⟨f₁, hb₁, hx⟩
  obtain ⟨xi, hxi, -⟩ := hx.number.value
  have hpush := hx.continues.plain.push { op := .ret, a := x, rep := f.ret }
  refine (hb₁.push _).imp fun _ b₂ hb₂ => ⟨_, hb₂, hx.continues.trans hpush, ?_⟩
  intro e t m regs n hlimit hg hruns hm hn
  refine Machine.Returns.after
    (hx.computes ⟨n, hn, rfl⟩ e t m hlimit (hpush.within.trans hg) hruns hm) ?_
  rintro m' ⟨regs', hm', hread, -⟩
  have hpc : t.func.insns[f₁.insns.size]? = some { op := .ret, a := x, rep := f.ret } :=
    hg.insn (by simp [Func.push])
  exact hm'.at'.ret hm'.awaited hruns.inRegisters hlimit rfl hpc ((hpush.within.trans hg).value hxi) hread.2

theorem defaultReturn :
    Ends Emit.defaultReturn b (fun reach b' => reach = f.endReachable ∧ b'.Drafts c
      (if f.endReachable = some true then f.push { op := .ret, implicit := true } else f)) stop := by
  unfold Emit.defaultReturn
  refine .bind_get ?_
  rw [hb.func]
  refine .ite' (fun hno => .pure' ⟨rfl, ?_⟩) fun hyes => .bind' (hb.push _) fun _ b' hb' => ?_
  · rw [if_neg hno]
    exact hb
  · rw [if_pos (not_not.mp hyes)]
    exact .pure' ⟨rfl, hb'⟩

/-! ## Labels and jumps -/

theorem newLabel :
    Ends Emit.newLabel b (fun l b' => l = f.labels.size ∧ b'.Drafts c f.addLabel.2) stop := by
  unfold Emit.newLabel
  refine .bind_get ?_
  rw [hb.func]
  exact .bind_set (.pure' ⟨rfl, { hb with func := rfl }⟩)

theorem knownLabel (l : LabelId) :
    Ends (Emit.knownLabel l) b (fun pos b' => f.label? l = some pos ∧ b'.Drafts c f)
      fun _ _ => True := by
  unfold Emit.knownLabel
  refine .bind_get ?_
  rw [hb.func]
  cases hl : f.label? l with
  | none => exact .bind_get (.throw' trivial)
  | some pos => exact .pure' ⟨rfl, hb⟩

theorem placeLabel (l : LabelId) :
    Ends (Emit.placeLabel l) b
      (fun _ b' => (∃ pos, f.label? l = some pos ∧ pos < 0) ∧ b'.Drafts c (f.place l))
      fun _ _ => True := by
  refine .bind' (hb.knownLabel l) ?_
  rintro pos b₁ ⟨hl, hb₁⟩
  refine .ite' (fun _ => .stopped (.bind_get (.throw' trivial))) fun hpos => .bind_modify ?_
  refine .modify' ⟨⟨pos, hl, Int.not_le.mp hpos⟩, { hb₁ with func := ?_ }⟩
  rw [← hb₁.func]
  rfl

theorem branch (l : LabelId) :
    Ends (Emit.branch l) b (fun _ b' => b'.Drafts c (f.push { op := .branch, label := l }))
      fun _ _ => True := by
  refine .bind' (hb.knownLabel l) ?_
  rintro _ b₁ ⟨-, hb₁⟩
  exact hb₁.push _

theorem branchOn (hv : f.Number c v rv) (op : Opcode) (l : LabelId) :
    Ends (Emit.branchOn op v l) b
      (fun _ b' => b'.Drafts c (f.push { op, a := v, label := l, rep := rv }))
      fun _ _ => True := by
  obtain ⟨⟨iv, hiv, rfl, hvt⟩, hinv⟩ := hv
  refine .bind' (hb.knownLabel l) ?_
  rintro _ b₁ ⟨-, hb₁⟩
  refine .bind' (hb₁.value hiv) ?_
  rintro iv b₂ ⟨rfl, hb₂⟩
  dsimp only
  rw [hinv.isScalar]
  exact hb₂.push _

end Bench.Drafts

end TypedIR
