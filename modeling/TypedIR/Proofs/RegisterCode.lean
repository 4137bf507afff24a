import TypedIR.Proofs.BuildSites
import TypedIR.Proofs.IntegerValues
import TypedIR.Proofs.RegisterRuns

/-
  Code while it is being built.

  Building only goes on at the end of a function: what is there stays, until the
  function that runs in the end (`Func.Within`). So the code that was added between
  two moments does what it does in every function that comes later (`Func.Code`), and
  the pieces can be put together one after the other. A piece that computes a number
  leaves it in the register of a value and keeps the values there were
  (`Func.Computes`).
-/

namespace TypedIR

/-! ## What stays while a function is built -/

namespace Func

/-- Everything in `f` is in `g`: values, instructions, and labels that are placed. -/
structure Within (f g : Func) : Prop where
  header : f.SameHeader g
  value : ∀ {v info}, f.value? v = some info → g.value? v = some info
  insn : ∀ {pc : Nat} {i}, f.insns[pc]? = some i → g.insns[pc]? = some i
  label : ∀ {l pos}, f.label? l = some pos → 0 ≤ pos → g.label? l = some pos

/-- No value of the function needs memory, and labels are placed inside it. -/
structure Plain (f : Func) : Prop where
  first : 0 < f.values.size
  firstLabel : 0 < f.labels.size
  value : ∀ {v info}, f.value? v = some info → info.slot = none ∧ info.needsSlot = false
  labels : f.LabelsInside

/-- A function that was built further. -/
structure Continues (f f' : Func) : Prop where
  within : f.Within f'
  plain : f'.Plain
  destroyed : f'.destroyed = f.destroyed

variable {f f' g : Func} {regs regs' : Array Word}

theorem Within.refl (f : Func) : f.Within f := ⟨.refl f, fun h => h, fun h => h, fun h _ => h⟩

theorem Within.trans (h : f.Within f') (h' : f'.Within g) : f.Within g :=
  ⟨h.header.trans h'.header, fun hv => h'.value (h.value hv), fun hi => h'.insn (h.insn hi),
    fun hl hpos => h'.label (h.label hl hpos) hpos⟩

theorem Continues.refl (h : f.Plain) : f.Continues f := ⟨.refl f, h, rfl⟩

theorem Continues.trans (h : f.Continues f') (h' : f'.Continues g) : f.Continues g :=
  ⟨h.within.trans h'.within, h'.plain, h'.destroyed.trans h.destroyed⟩

namespace Plain

variable (hf : f.Plain)
include hf

theorem addValue {info : ValueInfo} (hinfo : info.needsSlot = false) :
    f.Continues (f.addValue info).2 where
  within := by
    refine ⟨⟨rfl, rfl, rfl, rfl, rfl, rfl⟩, fun {v} other hv => ?_, fun h => h, fun h _ => h⟩
    rw [value?_addValue hf.first, if_neg (Nat.ne_of_lt (value?_lt hv).2.2), hv]
  plain := by
    refine ⟨by simp [Func.addValue], hf.firstLabel, fun {v} other hv => ?_,
      hf.labels.edit (.value info)⟩
    rw [value?_addValue hf.first] at hv
    split at hv
    · obtain rfl := Option.some.inj hv
      exact ⟨rfl, hinfo⟩
    · exact hf.value hv
  destroyed := rfl

theorem push (i : Insn) : f.Continues (f.push i) where
  within := ⟨⟨rfl, rfl, rfl, rfl, rfl, rfl⟩, fun h => h, (extends_push i).insn, fun h _ => h⟩
  plain := ⟨hf.first, hf.firstLabel, hf.value, hf.labels.push i⟩
  destroyed := rfl

theorem addLabel : f.Continues f.addLabel.2 where
  within := by
    refine ⟨⟨rfl, rfl, rfl, rfl, rfl, rfl⟩, fun h => h, fun h => h, fun {l pos} hl _ => ?_⟩
    obtain ⟨hpos, hget, hlt⟩ := label?_lt hl
    refine label?_of_pos hpos ?_
    rw [show f.addLabel.2.labels = f.labels.push (-1) from rfl, Array.getElem?_push_lt hlt]
    exact (Array.getElem?_eq_getElem hlt).symm.trans hget
  plain := ⟨hf.first, by simp [Func.addLabel], hf.value, hf.labels.edit .label⟩
  destroyed := rfl

theorem place {l : LabelId} {pos : Int} (hl : f.label? l = some pos) (hpos : pos < 0) :
    f.Continues (f.place l) where
  within := by
    refine ⟨⟨rfl, rfl, rfl, rfl, rfl, rfl⟩, fun h => h, (extends_push _).insn,
      fun {k at'} hk hat => ?_⟩
    obtain ⟨hkpos, hget, -⟩ := label?_lt hk
    refine label?_of_pos hkpos ?_
    have hne : l ≠ k := by
      rintro rfl
      obtain rfl := Option.mem_unique hl hk
      exact absurd hat (Int.not_le.mpr hpos)
    rw [show (f.place l).labels = f.labels.setIfInBounds l f.insns.size from rfl,
      Array.getElem?_setIfInBounds_ne hne, hget]
  plain := ⟨hf.first, by simpa [Func.place, Func.push] using hf.firstLabel, hf.value,
    hf.labels.edit (.place l)⟩
  destroyed := rfl

omit hf in
theorem label?_place {l : LabelId} {pos : Int} (hl : f.label? l = some pos) :
    (f.place l).label? l = some (f.insns.size : Int) := by
  obtain ⟨hlpos, -, hlt⟩ := label?_lt hl
  refine label?_of_pos hlpos ?_
  rw [show (f.place l).labels = f.labels.setIfInBounds l f.insns.size from rfl,
    Array.getElem?_setIfInBounds_self_of_lt hlt]

end Plain

/-! ## What code does -/

/-- The function can run: its values are in registers, and its jumps go to labels that
are placed. -/
structure Runs (g : Func) : Prop where
  inRegisters : g.InRegisters
  aims : ∀ {pc : Nat} {i}, g.insns[pc]? = some i → i.op.isBranch = true →
    ∃ pos, g.target? i = some pos

end Func

/-- The machine is in the call at a position, with registers that fit. -/
structure Machine.Stands (m : Machine) (t : Activation) (pc : Nat) (regs : Array Word) : Prop where
  at' : m.At t pc regs
  fits : t.func.Fits regs
  awaited : t.Awaited

namespace Func

variable {α β : Type}

/-- What the code from `f` to `f'` does with registers, in every function that was built
from there on. -/
def Code (f f' : Func) (regs : Array Word) (x : Except Cause α) (post : α → Array Word → Prop) :
    Prop :=
  ∀ (e : Engine) (t : Activation) (m : Machine), e.maxSteps ≤ 0 → f'.Within t.func → t.func.Runs →
    m.Stands t f.insns.size regs → m.Does e t.func.name x fun a m' =>
      ∃ regs', m'.Stands t f'.insns.size regs' ∧ post a regs'

def Kept (f : Func) (regs regs' : Array Word) : Prop :=
  ∀ {v info}, f.value? v = some info → regs'[v]? = regs[v]?

variable {f f' f'' : Func} {regs regs' : Array Word} {x : Except Cause α}
  {post : α → Array Word → Prop}

theorem Kept.trans {regs'' : Array Word} (h : f.Kept regs regs') (hw : f.Within f')
    (h' : f'.Kept regs' regs'') : f.Kept regs regs'' :=
  fun hv => (h' (hw.value hv)).trans (h hv)

namespace Code

theorem refl' {a : α} (h : post a regs) : Code f f regs (pure a) post :=
  fun _ _ _ _ _ _ hm => .pure' ⟨regs, hm, h⟩

theorem bind' {mid : α → Array Word → Prop} {k : α → Except Cause β}
    {after : β → Array Word → Prop} (h : Code f f' regs x mid) (hw : f'.Within f'')
    (hk : ∀ a regs', x = .ok a → mid a regs' → Code f' f'' regs' (k a) after) :
    Code f f'' regs (x >>= k) after := by
  intro e t m hlimit hg hruns hm
  have hdoes := h e t m hlimit (hw.trans hg) hruns hm
  cases x with
  | ok a =>
    refine .after (x := k a) hdoes ?_
    rintro m' ⟨regs', hm', hmid⟩
    exact hk a regs' rfl hmid e t m' hlimit hg hruns hm'
  | error c => exact hdoes

theorem mono {post' : α → Array Word → Prop} (h : Code f f' regs x post)
    (himp : ∀ a regs', x = .ok a → post a regs' → post' a regs') : Code f f' regs x post' := by
  intro e t m hlimit hg hruns hm
  have hdoes := h e t m hlimit hg hruns hm
  cases x with
  | ok a => exact Machine.Comes.mono hdoes fun _ ⟨regs', hm', hp⟩ =>
      ⟨regs', hm', himp a regs' rfl hp⟩
  | error c => exact hdoes

theorem map' {z : β → α} {y : Except Cause β} (h : Code f f' regs (z <$> y) post) :
    Code f f' regs y fun b => post (z b) := by
  intro e t m hlimit hg hruns hm
  have hdoes := h e t m hlimit hg hruns hm
  cases y with
  | ok b => exact hdoes
  | error c => exact hdoes

theorem compute (hf : f.Plain) {info : ValueInfo} (hc : info.origin ≠ .const) {i : Insn}
    {x : Except Cause Word} (hstep : ∀ (e : Engine) (t : Activation) (m : Machine), e.maxSteps ≤ 0 →
      f.Within t.func → t.func.InRegisters → m.At t f.insns.size regs →
      t.func.insns[f.insns.size]? = some i →
      t.func.value? f.values.size = some { info with slot := none } →
      m.Does e t.func.name x fun bits => Machine.At.Sets t f.insns.size regs f.values.size bits)
    (hn : info.needsSlot = false) :
    Code f ((f.addValue info).2.push i) regs x fun bits regs' =>
      regs'[f.values.size]? = some bits ∧ f.Kept regs regs' := by
  intro e t m hlimit hg hruns hm
  have hadd := hf.addValue hn
  have hwithin := hadd.within.trans ((hadd.plain.push i).within.trans hg)
  have hi : t.func.insns[f.insns.size]? = some i :=
    hg.insn (show (f.insns.push i)[f.insns.size]? = some i by simp)
  have hv : t.func.value? f.values.size = some { info with slot := none } :=
    hg.value ((value?_addValue hf.first _).trans (if_pos rfl))
  refine (hstep e t m hlimit hwithin hruns.inRegisters hm.at' hi hv).mono fun bits m' hset => ?_
  have hsize : ((f.addValue info).2.push i).insns.size = f.insns.size + 1 := by
    simp [Func.push, Func.addValue]
  refine ⟨_, ⟨hsize ▸ hset, hm.fits.set hv hc bits, hm.awaited⟩, hm.fits.get_set hv bits,
    fun hother => ?_⟩
  rw [Array.getElem?_setIfInBounds_ne (Nat.ne_of_gt (value?_lt hother).2.2)]

end Code

/-! ## Numbers -/

theorem needsSlot_of_integer {info : ValueInfo} (hi : info.rep.IsInteger)
    (ha : info.addressable = false) : info.needsSlot = false := by
  unfold ValueInfo.needsSlot
  rw [ha]
  rcases hi.1 with hc | hc <;> rw [hc] <;> rfl

/-- A value of the function that is held as an integer. -/
structure Number (f : Func) (c : Setting) (v : ValueId) (r : Rep) : Prop where
  value : ∃ info, f.value? v = some info ∧ info.rep = r ∧ c.types.Firm c.target info.type r
  isInteger : r.IsInteger

theorem Number.within {c : Setting} {v : ValueId} {r : Rep} (h : f.Number c v r)
    (hw : f.Within f') : f'.Number c v r := by
  obtain ⟨⟨info, hv, hr⟩, hi⟩ := h
  exact ⟨⟨info, hw.value hv, hr⟩, hi⟩

/-- The register of the value holds the number. -/
def Reads (r : Rep) (v : ValueId) (n : Int) (regs : Array Word) : Prop :=
  r.Holds n ∧ regs[v]? = some (Word.ofInt n)

theorem Number.reads {c : Setting} {v : ValueId} {r : Rep} (h : f.Number c v r) {n : Int}
    (hn : Reads r v n regs) (hkept : f.Kept regs regs') : Reads r v n regs' := by
  obtain ⟨⟨info, hv, -⟩, -⟩ := h
  exact ⟨hn.1, (hkept hv).trans hn.2⟩

def Computes (f f' : Func) (v : ValueId) (r : Rep) (regs : Array Word) (x : Except Cause Int) :
    Prop :=
  Code f f' regs x fun n regs' => Reads r v n regs' ∧ f.Kept regs regs'

namespace Computes

variable {u v : ValueId} {r r' : Rep} {x : Except Cause Int}

theorem refl' {n : Int} (h : Reads r v n regs) : Computes f f v r regs (pure n) :=
  Code.refl' ⟨h, fun _ => rfl⟩

theorem bind' {k : Int → Except Cause Int} (h : Computes f f' u r' regs x) (hw : f.Within f')
    (hw' : f'.Within f'') (hk : ∀ n regs', Reads r' u n regs' → f.Kept regs regs' →
      Computes f' f'' v r regs' (k n)) : Computes f f'' v r regs (x >>= k) :=
  Code.bind' h hw' fun n regs' _ ⟨hn, hkept⟩ => (hk n regs' hn hkept).mono
    fun _ _ _ ⟨hread, hkept'⟩ => ⟨hread, hkept.trans hw hkept'⟩

theorem of_words (h : Code f f' regs (Word.ofInt <$> x) fun bits regs' =>
      regs'[v]? = some bits ∧ f.Kept regs regs') (hx : ∀ n, x = .ok n → r.Holds n) :
    Computes f f' v r regs x :=
  h.map'.mono fun n _ hn ⟨hread, hkept⟩ => ⟨⟨hx n hn, hread⟩, hkept⟩

end Computes

/-- A function with code for a number: from which registers which number is computed,
`p` tells. -/
structure Gives (c : Setting) (f f' : Func) (v : ValueId) (r : Rep)
    (p : Array Word → Except Cause Int → Prop) : Prop where
  continues : f.Continues f'
  number : f'.Number c v r
  computes : ∀ {regs x}, p regs x → Computes f f' v r regs x

theorem Gives.bind' {c : Setting} {u v : ValueId} {r r' : Rep}
    {p q s : Array Word → Except Cause Int → Prop} (h : Gives c f f' u r' p)
    (h' : Gives c f' f'' v r q)
    (hspec : ∀ regs x, s regs x → ∃ y k, p regs y ∧ x = y >>= k ∧
      ∀ n regs', Reads r' u n regs' → f.Kept regs regs' → q regs' (k n)) :
    Gives c f f'' v r s where
  continues := h.continues.trans h'.continues
  number := h'.number
  computes {regs x} hx := by
    obtain ⟨y, k, hy, rfl, hk⟩ := hspec regs x hx
    exact (h.computes hy).bind' h.continues.within h'.continues.within fun n regs' hn hkept =>
      h'.computes (hk n regs' hn hkept)

theorem Gives.both {c : Setting} {f₁ f₂ f₃ : Func} {u v w : ValueId} {r ru rv : Rep} {σ : Type}
    {H : σ → Array Word → Prop} {x y : σ → Except Cause Int} {z : Int → Int → Except Cause Int}
    (hkept : ∀ {s regs regs'}, H s regs → f.Kept regs regs' → H s regs')
    (hu : Gives c f f₁ u ru fun regs l => ∃ s, H s regs ∧ l = x s)
    (hv : Gives c f₁ f₂ v rv fun regs l => ∃ s, H s regs ∧ l = y s)
    (hz : Gives c f₂ f₃ w r fun regs l => ∃ n k, Reads ru u n regs ∧ Reads rv v k regs ∧ l = z n k) :
    Gives c f f₃ w r fun regs l => ∃ s, H s regs ∧ l = (do
      let n ← x s
      let k ← y s
      z n k) := by
  have hrest : Gives c f₁ f₃ w r fun regs l => ∃ s n, H s regs ∧ Reads ru u n regs ∧ l = (do
      let k ← y s
      z n k) := by
    refine hv.bind' hz ?_
    rintro regs _ ⟨s, n, hs, hn, rfl⟩
    exact ⟨_, _, ⟨s, hs, rfl⟩, rfl, fun k regs' hk hkept' =>
      ⟨n, k, hu.number.reads hn hkept', hk, rfl⟩⟩
  refine hu.bind' hrest ?_
  rintro regs _ ⟨s, hs, rfl⟩
  exact ⟨_, _, ⟨s, hs, rfl⟩, rfl, fun n regs' hn hkept' => ⟨s, n, hkept hs hkept', hn, rfl⟩⟩

end Func

end TypedIR
