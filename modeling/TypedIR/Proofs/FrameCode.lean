import TypedIR.Proofs.FrameReads
import TypedIR.Proofs.IntegerValues

/-
  What straight code brings about.

  Code that only computes fresh values is described by the word that it leaves in one of
  them, in any frame of any function that was built from there on (`Func.Brings`). If the
  fresh values have no place in the frame, the code does not fail but for the step limit
  and leaves the host as it is; if one has, the run must be a sound one, and the memory
  of the frame may be gone. Pieces of such code follow one another (`Func.Brings.bind'`).
-/

namespace TypedIR

/-! ## Instructions -/

namespace StepM

variable {e : Engine} {f : Func} {m : Machine} {depth : Nat} {dest a b : ValueId} {rep : Rep}
  {x y : Word}

theorem run_execute_test (h : m.Reads a x) {op : Opcode} (hop : op = .toBool ∨ op = .toNotBool) :
    ((execute e f depth { op, dest, a, rep }).run m : Except (Halt Failure) Unit × Machine) =
      (write dest (Word.ofBool (truthy rep x == (op == .toBool)))).run m := by
  have hread : ((do
      let x ← read a
      write dest (Word.ofBool (truthy rep x == (op == .toBool))) : StepM Unit).run m :
      Except (Halt Failure) Unit × Machine) =
      (write dest (Word.ofBool (truthy rep x == (op == .toBool)))).run m := by
    rw [run_bind, h]
  rcases hop with rfl | rfl
  · exact hread
  · exact hread

theorem run_execute_convert (h : m.Reads a x) {info : ValueInfo} (hd : f.value? dest = some info)
    (type : TypeId) :
    ((execute e f depth { op := .convert, dest, a, type, rep }).run m :
      Except (Halt Failure) Unit × Machine) = (write dest (convertWord rep info.rep x)).run m := by
  unfold execute
  dsimp only
  rw [run_bind, h]
  dsimp only
  rw [(Func.value?_lt hd).2.1]

theorem run_execute_binary (ha : m.Reads a x) (hb : m.Reads b y) {op : Opcode}
    (hop : op.isBinary = true) {z : Word} (hz : evalBinary op rep x y = .ok z) :
    ((execute e f depth { op, dest, a, b, rep }).run m : Except (Halt Failure) Unit × Machine) =
      (write dest z).run m := by
  rw [execute_binary hop, run_bind, ha]
  dsimp only
  rw [run_bind, hb]
  dsimp only
  rw [hz]

theorem run_execute_compare (ha : m.Reads a x) (hb : m.Reads b y) {op : Opcode}
    (hop : op.isCompare = true) :
    ((execute e f depth { op, dest, a, b, rep }).run m : Except (Halt Failure) Unit × Machine) =
      (write dest (evalCompare op rep x y)).run m := by
  rw [execute_compare hop, run_bind, ha]
  dsimp only
  rw [run_bind, hb]

end StepM

/-! ## Code in a frame -/

def Machine.SoundRun (e : Engine) (m : Machine) : Prop :=
  ∃ root, e.Runs root ∧ e.target.Aligned ∧ m.Sound e root

namespace Func

def Gains (f f' : Func) (v : ValueId) : Prop := f.value? v = none ∧ (f'.value? v).isSome

/-- A value that the code from `f` to `f'` brought has a slot in `g`. -/
def Spills (f f' g : Func) : Prop := ∃ v, f.Gains f' v ∧ g.Spilled v

/-- What the code from `f` to `f'` does in a frame of a function that was built from
there on: it leaves in `u` the word that `p` tells from the machine it starts in, and
values that are not fresh stay what they are. If what it computes has places in the frame, the
run has to be sound; if not, the code does not touch the host. -/
def Brings (f f' : Func) (u : ValueId) (p : Machine → Word → Prop) : Prop :=
  ∀ ⦃e : Engine⦄ ⦃fr : Frame⦄ ⦃rest : List Frame⦄ ⦃m : Machine⦄ ⦃w : Word⦄,
    f'.Extends fr.func → m.Inside fr rest f.insns.size →
    (f.Spills f' fr.func → m.SoundRun e) → p m w →
    m.Leads e (f.Spills f' fr.func) (f'.insns.size - f.insns.size) fun m' =>
      m'.Inside fr rest f'.insns.size ∧ m'.Reads u w ∧ m.Keeps fr.func (f.Gains f') m' ∧
        (m.SoundRun e → m'.SoundRun e) ∧ (¬ f.Spills f' fr.func → m'.host = m.host)

variable {f f' f'' g : Func} {u v : ValueId} {p q s : Machine → Word → Prop}

theorem Extends.isSome_value? (h : f.Extends f') (hv : (f.value? v).isSome) :
    (f'.value? v).isSome := by
  obtain ⟨info, hv⟩ := Option.isSome_iff_exists.mp hv
  obtain ⟨info', hv', -⟩ := h.value hv
  rw [hv']
  rfl

theorem Extends.size_le (h : f.Extends f') : f.insns.size ≤ f'.insns.size := by
  by_contra hlt
  have hget := Array.getElem?_eq_getElem (Nat.not_le.mp hlt)
  have hbound := lt_of_getElem? (h.insn hget)
  exact Nat.lt_irrefl _ hbound

theorem Extends.sub_size (h : f.Extends f') (h' : f'.Extends f'') :
    f'.insns.size - f.insns.size + (f''.insns.size - f'.insns.size) =
      f''.insns.size - f.insns.size := by
  have hle := h.size_le
  have hle' := h'.size_le
  omega

theorem Gains.later (h : f.Gains f' v) (hext : f'.Extends f'') : f.Gains f'' v :=
  ⟨h.1, hext.isSome_value? h.2⟩

theorem Gains.earlier (h : f'.Gains f'' v) (hext : f.Extends f') : f.Gains f'' v := by
  refine ⟨?_, h.2⟩
  cases hf : f.value? v with
  | none => rfl
  | some info =>
    have hsome := hext.isSome_value? (v := v) (by rw [hf]; rfl)
    rw [h.1] at hsome
    cases hsome

theorem Spills.later (h : f.Spills f' g) (hext : f'.Extends f'') : f.Spills f'' g :=
  h.imp fun _ hv => ⟨hv.1.later hext, hv.2⟩

theorem Spills.earlier (h : f'.Spills f'' g) (hext : f.Extends f') : f.Spills f'' g :=
  h.imp fun _ hv => ⟨hv.1.earlier hext, hv.2⟩

theorem keeps_old {m m' : Machine} {w : Word} (h : m.Keeps g (f.Gains f') m') (hext : f.Extends g)
    (hv : (f.value? v).isSome) (hread : m.Reads v w) : m'.Reads v w := by
  refine h (hext.isSome_value? hv) (fun hfresh => ?_) hread
  rw [hfresh.1] at hv
  cases hv

theorem Brings.present (hinsns : f'.insns = f.insns) (h : ∀ m w, p m w → m.Reads v w) :
    f.Brings f' v p := by
  intro e fr rest m w _ hm _ hp
  rw [← hinsns] at hm
  exact .here ⟨hm, h m w hp, fun _ _ hread => hread, fun hsafe => hsafe, fun _ => rfl⟩

theorem Brings.refl' (h : ∀ m w, p m w → m.Reads v w) : f.Brings f v p := .present rfl h

theorem Brings.of_spec (h : f.Brings f' u p) (himp : ∀ m w, q m w → p m w) : f.Brings f' u q :=
  fun _ _ _ m w hext hm hsound hq => h hext hm hsound (himp m w hq)

theorem Brings.bind' (h : f.Brings f' v p) (h' : f'.Brings f'' u q) (hf : f.Extends f')
    (hf' : f'.Extends f'') (hspec : ∀ m w, s m w → ∃ x, p m x ∧ ∀ m', m'.Reads v x →
      m.Keeps f'' (f.Gains f') m' → q m' w) : f.Brings f'' u s := by
  intro e fr rest m w hext hm hsound hs
  obtain ⟨x, hp, hq⟩ := hspec m w hs
  have hfirst := h (e := e) (hf'.trans hext) hm (fun hsp => hsound (hsp.later hf')) hp
  rw [← hf.sub_size hf']
  refine (hfirst.weaken (·.later hf')).trans fun m' hm' => ?_
  obtain ⟨hin, hread, hkept, hsound', hhost⟩ := hm'
  have hsecond := h' (e := e) hext hin (fun hsp => hsound' (hsound (hsp.earlier hf)))
    (hq m' hread fun hu => hkept (hext.isSome_value? hu))
  refine (hsecond.weaken (·.earlier hf)).mono fun m'' hm'' => ?_
  obtain ⟨hin', hread', hkept', hsound'', hhost'⟩ := hm''
  refine ⟨hin', hread', fun hw hno hreads => ?_, hsound'' ∘ hsound', fun hreg => ?_⟩
  · exact hkept' hw (fun h => hno (h.earlier hf)) (hkept hw (fun h => hno (h.later hf')) hreads)
  · rw [hhost' fun hsp => hreg (hsp.earlier hf), hhost fun hsp => hreg (hsp.later hf')]

theorem Brings.skip (h : f'.Brings f'' u p) (hinsns : f'.insns = f.insns) (hf : f.Extends f') :
    f.Brings f'' u p := by
  intro e fr rest m w hext hm hsound hp
  rw [← hinsns] at hm ⊢
  have hcode := h (e := e) hext hm (fun hsp => hsound (hsp.earlier hf)) hp
  refine (hcode.weaken (·.earlier hf)).mono fun m' hm' => ?_
  obtain ⟨hin, hread, hkept, hsound', hhost⟩ := hm'
  exact ⟨hin, hread, fun hv hno => hkept hv (fun hg => hno (hg.earlier hf)), hsound',
    fun hreg => hhost fun hsp => hreg (hsp.earlier hf)⟩

/-! ### A fresh value and its instruction -/

section

variable (hf : 0 < f.values.size) {info : ValueInfo} {i : Insn}

theorem value?_next : f.value? f.values.size = none := by
  cases hv : f.value? f.values.size with
  | none => rfl
  | some other => exact absurd (value?_lt hv).2.2 (Nat.lt_irrefl _)

theorem size_computed : ((f.addValue info).2.push i).insns.size = f.insns.size + 1 := by
  simp [push, addValue]

include hf

theorem value?_computed :
    ((f.addValue info).2.push i).value? f.values.size = some { info with slot := none } :=
  (value?_addValue hf _).trans (if_pos rfl)

theorem extends_computed : f.Extends ((f.addValue info).2.push i) :=
  (extends_addValue hf).trans (extends_push i)

theorem gains_computed : f.Gains ((f.addValue info).2.push i) v ↔ v = f.values.size := by
  constructor
  · intro h
    obtain ⟨hv, hv'⟩ := h
    have hpush : ((f.addValue info).2.push i).value? v = (f.addValue info).2.value? v := rfl
    rw [hpush, value?_addValue hf] at hv'
    split at hv'
    · assumption
    · rw [hv] at hv'
      cases hv'
  · intro h
    rw [h]
    exact ⟨value?_next, by rw [value?_computed hf]; rfl⟩

theorem spills_computed : f.Spills ((f.addValue info).2.push i) g ↔ g.Spilled f.values.size := by
  unfold Spills
  simp only [gains_computed hf, exists_eq_left]

theorem at_computed (hext : ((f.addValue info).2.push i).Extends g) :
    g.insns[f.insns.size]? = some i ∧ f.Extends g ∧
      ∃ d, g.value? f.values.size = some d ∧ d.rep = info.rep := by
  obtain ⟨d, hd, hsame⟩ := hext.value (value?_computed hf)
  refine ⟨hext.insn ?_, (extends_computed hf).trans hext, d, hd, hsame.rep⟩
  show (f.insns.push i)[f.insns.size]? = some i
  simp

theorem Brings.of_insn (hdest : i.dest = f.values.size) (hplain : i.op.isPlain = true)
    (hs : info.rep.isScalar = true)
    (hexec : ∀ {e : Engine} {g : Func} {m : Machine} {w : Word} {d : ValueInfo}, f.Extends g →
      g.value? f.values.size = some d → d.rep = info.rep → p m w → info.rep.Canonical w ∧
        ∀ m' depth, m.Keeps g (fun _ => False) m' →
          ((StepM.execute e g depth i).run m' : Except (Halt Failure) Unit × Machine) =
            (StepM.write f.values.size w).run m') :
    f.Brings ((f.addValue info).2.push i) f.values.size p := by
  intro e fr rest m w hext hm hsound hp
  obtain ⟨hi, hg, d, hd, hrep⟩ := at_computed hf hext
  obtain ⟨hc, hrun⟩ := hexec (e := e) hg hd hrep hp
  have hspills : f.Spills ((f.addValue info).2.push i) fr.func ↔ fr.func.Spilled f.values.size :=
    spills_computed hf
  have hold : ∀ {m' : Machine}, m.Keeps fr.func (· = f.values.size) m' →
      m.Keeps fr.func (f.Gains ((f.addValue info).2.push i)) m' :=
    fun hkept _ _ hv hno hread => hkept hv (fun he => hno ((gains_computed hf).mpr he)) hread
  rw [size_computed, Nat.add_sub_cancel_left]
  rw [← hdest] at hd hrun hspills hold
  by_cases hsafe : m.SoundRun e
  · obtain ⟨root, hr, ha, hs'⟩ := hsafe
    have hin : m.InFrame e root fr rest f.insns.size := ⟨hs', hm.imp fun _ h => h.1⟩
    have hsteps := hin.computes hr ha hi hplain hd (hrep ▸ hs) (hrep ▸ hc) hrun
    refine (hsteps.weaken hspills.mpr).mono fun m' h => ?_
    exact ⟨h.1.inside, hdest ▸ h.2.1, hold h.2.2.1, fun _ => ⟨root, hr, ha, h.1.toSound⟩,
      fun hreg => h.2.2.2 fun hsp => hreg (hspills.mpr hsp)⟩
  · have hreg : d.place? = none := by
      cases hplace : d.place? with
      | none => rfl
      | some slot => exact absurd (hsound (hspills.mpr ⟨d, slot, hd, hplace⟩)) hsafe
    have hsteps := hm.computes (e := e) hi hplain hd hreg fun m' depth hkept _ => hrun m' depth hkept
    refine (hsteps.weaken False.elim).mono fun m' h => ?_
    exact ⟨h.1, hdest ▸ h.2.1, hold h.2.2.1, fun hsafe' => absurd hsafe' hsafe, fun _ => h.2.2.2⟩

end

/-! ### Integers -/

def Converted (r rx : Rep) (x : ValueId) (m : Machine) (w : Word) : Prop :=
  ∃ n, rx.Holds n ∧ m.Reads x (Word.ofInt n) ∧ w = Word.ofInt (r.wrap n)

theorem isSome_of_rep? {r : Rep} (hv : f.rep? v = some r) : (f.value? v).isSome := by
  obtain ⟨info, hinfo, -⟩ := value?_of_rep? hv
  rw [hinfo]
  rfl

theorem Brings.converting (hf : 0 < f.values.size) {r want : Rep} (hv : f.rep? v = some r)
    (hi : r.IsWhole) (hiw : want.IsWhole) (type : TypeId) :
    f.Brings ((f.addValue { type, rep := want, origin := .temp }).2.push
      { op := .convert, dest := f.values.size, a := v, type, rep := r }) f.values.size
      (Converted want r v) := by
  refine Brings.of_insn hf rfl rfl hiw.isScalar ?_
  rintro e g m _ d hg hd hdrep ⟨n, hn, hread, rfl⟩
  have hword := hiw.convertWord_ofInt hi n
  refine ⟨hword ▸ canonical_convertWord _ _ _, fun m' depth hkept => ?_⟩
  have hread' := hkept (isSome_of_rep? (hg.rep? hv)) not_false hread
  rw [StepM.run_execute_convert hread' hd type, hdrep, hword]

def Operated (z : Int → Int → Except Cause Int) (r rx ry : Rep) (x y : ValueId) (m : Machine)
    (w : Word) : Prop :=
  ∃ n k l, (rx.Holds n ∧ m.Reads x (Word.ofInt n)) ∧ (ry.Holds k ∧ m.Reads y (Word.ofInt k)) ∧
    z (r.wrap n) (r.wrap k) = .ok l ∧ w = Word.ofInt l

theorem Brings.operands {z : Int → Int → Except Cause Int} {r rx ry : Rep} {x y cx cy : ValueId}
    (hx : f.Brings f' cx (Converted r rx x)) (hy : f'.Brings f'' cy (Converted r ry y))
    (hu : f''.Brings g u (Operated z r r r cx cy)) (hf : f.Extends f') (hf' : f'.Extends f'')
    (hg : f''.Extends g) (hi : r.IsInteger) (hry : f.rep? y = some ry)
    (hrx : f'.rep? cx = some r) : f.Brings g u (Operated z r rx ry x y) := by
  have hrest : f'.Brings g u (Operated z r r ry cx y) := by
    refine hy.bind' hu hf' hg ?_
    rintro m _ ⟨n, k, l, ⟨hn, hxn⟩, ⟨hk, hyk⟩, hz, rfl⟩
    refine ⟨_, ⟨k, hk, hyk, rfl⟩, fun m' hread hkept => ?_⟩
    have hxn' := keeps_old hkept (hf'.trans hg) (isSome_of_rep? hrx) hxn
    exact ⟨n, _, l, ⟨hn, hxn'⟩, ⟨hi.holds_wrap k, hread⟩, by rwa [hi.wrap_eq (hi.holds_wrap k)], rfl⟩
  refine hx.bind' hrest hf (hf'.trans hg) ?_
  rintro m _ ⟨n, k, l, ⟨hn, hxn⟩, ⟨hk, hyk⟩, hz, rfl⟩
  refine ⟨_, ⟨n, hn, hxn, rfl⟩, fun m' hread hkept => ?_⟩
  have hyk' := keeps_old hkept (hf.trans (hf'.trans hg)) (isSome_of_rep? hry) hyk
  exact ⟨_, k, l, ⟨hi.holds_wrap n, hread⟩, ⟨hk, hyk'⟩, by rwa [hi.wrap_eq (hi.holds_wrap n)], rfl⟩

end Func

end TypedIR
