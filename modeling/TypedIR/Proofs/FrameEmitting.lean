import TypedIR.Proofs.BuiltLayouts
import TypedIR.Proofs.FrameCode
import TypedIR.Proofs.IntegerEmitting

/-
  What emitters bring about.

  Emitters are followed here with what their code does in a frame (`Func.Brings`): a test
  gives the truth value of its operand, a conversion of an integer the number that the
  other type holds in its place, an operator of integers the number that it gives.

  An emitter can fail on a type whose layout was asked for too early, as the refusal is
  remembered. The integers of an engine that was built are never refused, the types of its
  values are not (`Tables.LaidOut.clears`), and what is emitted refuses no more of them
  (`Tables.Clears.onward`). On such types the emitters go through (`Emit.Lands`).
-/

namespace TypedIR

/-! ## Types that are not refused -/

theorem TypeTable.HasRep.direct {target : Target} {t : TypeTable} {id : TypeId} {r : Rep} {l : Layout}
    (hl : Layout.plainPart target t (t.underlying id) = some l) (hr : t.repOf id (.ok l) = .ok r)
    (hs : r.isScalar = true) : Layout.Direct target t (t.underlying id) l := by
  unfold Layout.plainPart Layout.plain at hl
  unfold TypeTable.repOf at hr
  cases hd : t.find? (t.underlying id) with
  | none =>
    rw [hd] at hr
    cases hr
  | some d =>
    rw [hd] at hl hr
    dsimp only at hl hr
    refine ⟨d, hd, fun hk => ?_, fun ask c => ?_⟩
    · rw [hk] at hr
      obtain rfl := Except.ok.inj hr
      cases hs
    · unfold Layout.workOut
      rw [hd]
      dsimp only
      cases hk : d.kind <;> rw [hk] at hl hr <;> dsimp only at hl hr ⊢
      case void | pointer | signature => exact congrArg (Except.ok · , c) (Option.some.inj hl)
      case int | uint =>
        split at hl
        · rw [if_pos ‹_›]
          exact congrArg (Except.ok · , c) (Option.some.inj hl)
        · rw [if_neg ‹_›, Layout.Answer.eq_ok hl]
          rfl
      case float =>
        split at hl
        · rw [if_pos ‹_›, Layout.Answer.eq_ok hl]
          rfl
        · cases hl
      case struct =>
        obtain rfl := Except.ok.inj hr
        cases hs
      all_goals cases hr

namespace Tables

variable {s s' : Tables} {id : TypeId}

/-- The type below the tags has no parts, and no refusal of it is remembered. -/
structure Clears (s : Tables) (id : TypeId) : Prop where
  direct : ∃ l, Layout.Direct s.target s.types (s.types.underlying id) l
  cleared : Layout.Cleared (s.types.underlying id) s.layouts

theorem Clears.onward (h : s.Clears id) (ho : s.types.Ordered) (hs : s.Onward s') : s'.Clears id := by
  obtain ⟨⟨l, hdirect⟩, hcleared⟩ := h
  obtain ⟨d, hd⟩ : ∃ d, s.types.find? id = some d := by
    obtain ⟨d, hd, -⟩ := hdirect
    exact TypeTable.known_of_underlying hd
  have hsame := ho.underlying_eq hs.types (TypeTable.find?_lt hd).2
  refine ⟨⟨l, ?_⟩, ?_⟩ <;> rw [hsame]
  · exact hs.target ▸ hdirect.grow hs.types
  · exact hs.cleared hdirect hcleared

theorem Clears.below (h : s.Clears id)
    (hsame : s.types.underlying (s.types.underlying id) = s.types.underlying id) :
    s.Clears (s.types.underlying id) :=
  ⟨hsame.symm ▸ h.direct, hsame.symm ▸ h.cleared⟩

theorem Clears.findRep (h : s.Clears id) (hs : s.Founded) {r : Rep}
    (hr : s.types.HasRep s.target id r) (hscalar : r.isScalar = true) :
    ((s.types.findRep s.target id).run s.layouts).1 = .ok r := by
  obtain ⟨l, hl, hrep⟩ := hr
  obtain ⟨d, hd, -, hanswer⟩ := TypeTable.HasRep.direct hl hrep hscalar
  rw [TypeTable.run_findRep, hd]
  dsimp only
  unfold Layout.layoutOf
  rw [Layout.run_layoutWithin_succ]
  cases hlook : s.layouts.lookup (s.types.underlying id) with
  | none =>
    dsimp only
    rw [hanswer]
    exact hrep
  | some a =>
    cases a with
    | error why => exact absurd hlook (h.cleared why)
    | ok l' =>
      have hplain := (hs.honest _ _ hlook).agrees
      obtain rfl := Option.mem_unique hl hplain
      exact hrep

theorem LaidOut.clears (h : s.LaidOut id) {r : Rep}
    (hr : s.types.HasRep s.target id r) (hscalar : r.isScalar = true) : s.Clears id where
  direct := by
    obtain ⟨l, hl, hrep⟩ := hr
    exact ⟨l, TypeTable.HasRep.direct hl hrep hscalar⟩
  cleared why hwhy := by
    obtain ⟨-, l, hl⟩ := h
    cases hl.symm.trans hwhy

theorem Founded.clears_integer (hs : s.Founded) {r : Rep} (hr : s.types.Firm s.target id r)
    (hi : r.IsInteger) : s.Clears id where
  direct := by
    obtain ⟨l, hl, hrep⟩ := hr.hasRep
    exact ⟨l, TypeTable.HasRep.direct hl hrep hi.isScalar⟩
  cleared why := by
    obtain ⟨d, hd⟩ := hr.hasRep.found
    exact hs.firm _ why (TypeTable.find?_lt hd).1 hr.first

end Tables

/-! ## Emitters that go through -/

/-- The bench is typed and founded, and its integers are first types. -/
structure Bench.Serves (heads : FuncId → Option Head) (b : Bench) : Prop extends
    Bench.Typed False heads b where
  founded : b.Founded
  integers : TypeTable.initial.IntegersFrom b.types

/-- The bench has everything that it had, and remembers what it did. -/
structure Bench.Goes (heads : FuncId → Option Head) (b b' : Bench) : Prop where
  serves : b'.Serves heads
  extended : b.Extends b'
  onward : b.tables.Onward b'.tables

instance {heads : FuncId → Option Head} : Trans (Bench.Goes heads) (Bench.Goes heads) (Bench.Goes heads) :=
  ⟨fun h h' => ⟨h'.serves, h.extended.trans h'.extended, h.onward.trans h'.onward⟩⟩

/-- The type is not refused: integers never are. -/
def Bench.Grants (b : Bench) (type : TypeId) (r : Rep) : Prop := r.IsInteger ∨ b.tables.Clears type

theorem Bench.Goes.grants {heads : FuncId → Option Head} {b b' : Bench} {type : TypeId} {r : Rep}
    (h : b.Goes heads b') (hb : b.types.Ordered) (hok : b.Grants type r) : b'.Grants type r :=
  hok.imp_right fun hclears => hclears.onward hb h.onward

namespace Emit

open Func (Converted Operated)

variable {heads : FuncId → Option Head} {c : Setting} {α β : Type}
  {act : EmitM α} {b : Bench} {post : α → Bench → Prop}

/-- The emitter goes through and stays in the setting. -/
def Lands (heads : FuncId → Option Head) (c : Setting) (act : EmitM α) (b : Bench)
    (post : α → Bench → Prop) : Prop :=
  Ends act b (fun a b' => b.Goes heads b' ∧ b'.Drafts c b'.func ∧ post a b') fun _ _ => False

namespace Lands

theorem of_keeps {after : α → Bench → Prop} (hb : b.Serves heads) (hedits : Leaves Bench.Edits act)
    (h : TypedIR.Keeps (Bench.Step False heads) act b post)
    (h' : Ends act b (fun a b' => after a b' ∧ ∃ f, b'.Drafts c f) fun _ _ => False) :
    Lands heads c act b fun a b' => post a b' ∧ after a b' := by
  refine Ends.mono ((Ends.and' h h').and' (hedits.ends b)) ?_ fun _ _ h => h.1.2
  rintro a b' ⟨⟨⟨hs, hp⟩, ha, f, hd⟩, hedited⟩
  obtain ⟨hfounded, honward⟩ := hedited.rests hb.founded
  refine ⟨⟨⟨hs.typed, hfounded, hb.integers.trans hedited.integers⟩, hs.extended, honward⟩, ?_, hp, ha⟩
  exact { hd with func := rfl }

theorem of_drafts {p : α → Prop} (hb : b.Serves heads) (hedits : Leaves Bench.Edits act)
    (h : TypedIR.Keeps (Bench.Step False heads) act b post)
    (h' : Ends act b (fun a b' => p a ∧ b'.Drafts c b.func) fun _ _ => False) :
    Lands heads c act b fun a b' => p a ∧ b'.func = b.func :=
  Ends.mono (of_keeps hb hedits h (h'.imp fun _ _ h => ⟨⟨h.1, h.2.func⟩, _, h.2⟩))
    (fun _ _ h => ⟨h.1, h.2.1, h.2.2.2⟩) fun _ _ h => h

theorem mono {post' : α → Bench → Prop} (h : Lands heads c act b post)
    (himp : ∀ a b', b.Goes heads b' → post a b' → post' a b') :
    Lands heads c act b post' :=
  Ends.mono h (fun a b' h => ⟨h.1, h.2.1, himp a b' h.1 h.2.2⟩) fun _ _ h => h

theorem bind' {k : α → EmitM β} {after : β → Bench → Prop} (h : Lands heads c act b post)
    (hk : ∀ a b', b.Goes heads b' → b'.Drafts c b'.func → post a b' →
      Lands heads c (k a) b' after) : Lands heads c (act >>= k) b after :=
  Ends.bind' h fun a b' ⟨hs, hd, hp⟩ => Ends.mono (hk a b' hs hd hp)
    (fun _ _ h => ⟨Trans.trans hs h.1, h.2⟩) fun _ _ h => h

theorem ite' {p : Prop} [Decidable p] {other : EmitM α} (ht : p → Lands heads c act b post)
    (he : ¬ p → Lands heads c other b post) :
    Lands heads c (if p then act else other) b post :=
  Ends.ite' ht he

section

variable (hb : b.Serves heads) (hd : b.Drafts c b.func)
include hb hd

theorem pure' {a : α} (h : post a b) : Lands heads c (pure a) b post :=
  Ends.pure' ⟨⟨hb, .refl b, .refl _⟩, hd, h⟩

theorem value {v : ValueId} {info : ValueInfo} (hv : b.func.value? v = some info) :
    Lands heads c (Emit.value v) b fun a b' => info = a ∧ b = b' := by
  have hends : Ends (Emit.value v) b (fun a b' => a = info ∧ ∃ f, b'.Drafts c f)
      fun _ _ => False :=
    (hd.value hv).imp fun _ _ h => ⟨h.1, _, h.2⟩
  refine (of_keeps hb (edits_value v) (Keeps.value hb.toTyped v) hends).mono ?_
  rintro a b' - ⟨⟨rfl, -⟩, rfl⟩
  exact ⟨rfl, rfl⟩

theorem firm {type : TypeId} {r : Rep} (hr : c.types.HasRep c.target type r) (hi : r.IsInteger) :
    c.types.Firm c.target type r :=
  TypeTable.HasRep.firm c.ordered (hd.types ▸ hb.integers) hr hi

theorem clears {type : TypeId} {r : Rep} (hr : c.types.HasRep c.target type r)
    (hok : b.Grants type r) : b.tables.Clears type := by
  rcases hok with hi | hclears
  · refine hb.founded.tables.clears_integer ?_ hi
    have hfirm := firm hb hd hr hi
    rw [← hd.types, ← hd.target] at hfirm
    exact hfirm
  · exact hclears

theorem repOf {type : TypeId} {r : Rep} (hr : c.types.HasRep c.target type r)
    (hs : r.isScalar = true) (hok : b.Grants type r) :
    Lands heads c (Emit.repOf type) b fun a b' => r = a ∧ b'.func = b.func := by
  have hfound : ((b.types.findRep b.target type).run b.layouts).1 = .ok r :=
    (clears hb hd hr hok).findRep hb.founded.tables (by rwa [← hd.types, ← hd.target] at hr) hs
  have hends : Ends (Emit.repOf type) b (fun a b' => (r = a ∧ b'.func = b.func) ∧ ∃ f, b'.Drafts c f)
      fun _ _ => False := by
    have hasked := hd.layouts.findRep_asked c.ordered type
    rw [hd.types, hd.target] at hfound
    unfold Emit.repOf
    apply Ends.bind_get
    rw [hd.types, hd.target]
    rcases hrun : (c.types.findRep c.target type).run b.layouts with ⟨answer, layouts⟩
    rw [hrun] at hasked hfound
    obtain rfl : answer = .ok r := hfound
    exact Ends.bind_set (.pure' ⟨⟨rfl, rfl⟩, b.func, rfl, rfl, hasked, rfl⟩)
  exact (of_keeps hb (edits_repOf type) (Keeps.repOf hb.toTyped type) hends).mono fun _ _ _ h => h.2

theorem promoteUnary? {x : TypeId} {rx : Rep} (hx : c.types.HasRep c.target x rx)
    (hix : rx.IsInteger) :
    Lands heads c (Emit.promoteUnary? x) b fun t b' =>
      (∃ type, t = some type ∧ c.types.HasRep c.target type rx.promoted) ∧ b'.func = b.func := by
  refine of_drafts hb (edits_promoteUnary? x) (Keeps.promoteUnary hb.toTyped x) ?_
  refine (hd.promoteUnary? (firm hb hd hx hix) hix).imp ?_
  rintro _ _ ⟨⟨type, rfl, hr⟩, hd'⟩
  exact ⟨⟨type, rfl, hr.hasRep⟩, hd'⟩

theorem commonType (op : Opcode) {x y : TypeId} {rx ry : Rep} (hx : c.types.HasRep c.target x rx)
    (hy : c.types.HasRep c.target y ry) (hix : rx.IsInteger) (hiy : ry.IsInteger) :
    Lands heads c (Emit.commonType op x y) b fun type b' =>
      c.types.HasRep c.target type (rx.common ry) ∧ b'.func = b.func :=
  of_drafts hb (edits_commonType op x y) (Keeps.commonType hb.toTyped op x y)
    ((hd.commonType op (firm hb hd hx hix) (firm hb hd hy hiy) hix hiy).imp
      fun _ _ h => ⟨h.1.hasRep, h.2⟩)

theorem temp {type : TypeId} {r : Rep} (hr : c.types.HasRep c.target type r)
    (hs : r.isScalar = true) (hok : b.Grants type r) :
    Lands heads c (Emit.temp type) b fun v b' => v = b.func.values.size ∧
      b'.func = (b.func.addValue { type, rep := r, origin := .temp }).2 := by
  have hends : Ends (Emit.temp type) b (fun v b' => (v = b.func.values.size ∧
      b'.func = (b.func.addValue { type, rep := r, origin := .temp }).2) ∧ ∃ f, b'.Drafts c f)
      fun _ _ => False := by
    refine Ends.bind' (repOf hb hd hr hs hok) ?_
    rintro _ b₁ ⟨-, hd₁, rfl, hf₁⟩
    rw [← hf₁]
    exact (hd₁.addValue _).imp fun _ _ h => ⟨⟨h.1, h.2.func⟩, _, h.2⟩
  exact (of_keeps hb (edits_temp type) (Keeps.temp hb.toTyped type) hends).mono fun _ _ _ h => h.2

theorem push {i : Insn} (hi : i.Typed (b.scope heads) b.func) (hplain : i.op.isPlain = true) :
    Lands heads c (Emit.push i) b fun _ b' => b'.func = b.func.push i := by
  have hother : i.op ≠ .label ∧ i.op ≠ .ret := by
    constructor <;> intro hop <;> rw [hop] at hplain <;> cases hplain
  have hends : Ends (Emit.push i) b (fun _ b' => b'.func = b.func.push i ∧ ∃ f, b'.Drafts c f)
      fun _ _ => False :=
    (hd.push i).imp fun _ _ h => ⟨h.func, _, h⟩
  exact (of_keeps hb (edits_push hother.2) (Keeps.push hb.toTyped hi hother.1) hends).mono
    fun _ _ _ h => h.2

theorem computed {type : TypeId} {r : Rep} (hr : c.types.HasRep c.target type r)
    (hs : r.isScalar = true) (hok : b.Grants type r) {g : ValueId → Insn}
    (hg : ∀ dest b', b.Goes heads b' → b'.types.HasRep b'.target type r →
      b'.func.rep? dest = some r → (g dest).Typed (b'.scope heads) b'.func) (hplain : ∀ dest, (g dest).op.isPlain = true) :
    Lands heads c (do let dest ← Emit.temp type; Emit.push (g dest); pure dest) b
      fun u b' => u = b.func.values.size ∧
        b'.func = (b.func.addValue { type, rep := r, origin := .temp }).2.push (g u) := by
  refine bind' (temp hb hd hr hs hok) ?_
  rintro dest b₁ hs₁ hd₁ ⟨rfl, hf₁⟩
  have hv : b₁.func.value? b.func.values.size = some { type, rep := r, origin := .temp } := by
    rw [hf₁]
    exact (Func.value?_addValue hb.func.values_pos _).trans (if_pos rfl)
  have hr₁ : b₁.types.HasRep b₁.target type r := by rwa [hd₁.types, hd₁.target]
  refine bind' (push hs₁.serves hd₁ (hg _ b₁ hs₁ hr₁ (Func.rep?_of_value? hv)) (hplain _)) ?_
  intro _ b₂ hs₂ hd₂ hf₂
  refine pure' hs₂.serves hd₂ ⟨rfl, ?_⟩
  rw [hf₂, hf₁]

theorem bringing {type : TypeId} {r : Rep} (hr : c.types.HasRep c.target type r)
    (hs : r.isScalar = true) (hok : b.Grants type r) {g : ValueId → Insn} {p : Machine → Word → Prop}
    (hg : ∀ dest b', b.Goes heads b' → b'.types.HasRep b'.target type r →
      b'.func.rep? dest = some r → (g dest).Typed (b'.scope heads) b'.func)
    (hdest : ∀ dest, (g dest).dest = dest) (hplain : ∀ dest, (g dest).op.isPlain = true)
    (hexec : ∀ {e : Engine} {f : Func} {m : Machine} {dest : ValueId} {w : Word} {d : ValueInfo},
      b.func.Extends f → f.value? dest = some d → d.rep = r → p m w → r.Canonical w ∧
        ∀ m' depth, m.Keeps f (fun _ => False) m' →
          ((StepM.execute e f depth (g dest)).run m' : Except (Halt Failure) Unit × Machine) =
            (StepM.write dest w).run m') :
    Lands heads c (do let dest ← Emit.temp type; Emit.push (g dest); pure dest) b
      (fun u b' => (∃ info, b'.func.value? u = some info ∧ info.type = type ∧ info.rep = r) ∧
        b.func.Brings b'.func u p) := by
  refine (computed hb hd hr hs hok hg hplain).mono ?_
  rintro _ b' - ⟨rfl, hf⟩
  rw [hf]
  refine ⟨⟨_, Func.value?_computed hb.func.values_pos, rfl, rfl⟩, ?_⟩
  exact Func.Brings.of_insn hb.func.values_pos (hdest _) (hplain _) hs hexec

theorem test {op : Opcode} (hop : op = .toBool ∨ op = .toNotBool) {v : ValueId} {r : Rep}
    (hv : b.func.rep? v = some r) (hs : r.isScalar = true) :
    Lands heads c (Emit.test op v) b fun u b' =>
      (∃ info, b'.func.value? u = some info ∧ info.type = Builtin.bool.id ∧ info.rep = .bool) ∧
        b.func.Brings b'.func u fun m w => ∃ x, m.Reads v x ∧
          w = Word.ofBool (truthy r x == (op == .toBool)) := by
  obtain ⟨info, hinfo, rfl⟩ := Func.value?_of_rep? hv
  unfold Emit.test
  refine bind' (value hb hd hinfo) ?_
  rintro info _ - - ⟨rfl, rfl⟩
  dsimp only
  rw [hs]
  refine bringing hb hd (Builtin.hasRep c.ordered .bool) rfl (.inl Rep.isInteger_bool)
    (g := fun dest => { op, dest, a := v, rep := info.rep }) (fun dest b₁ hs₁ _ hdest => ?_)
    (fun _ => rfl) (fun _ => ?_) ?_
  · exact .test hop hdest (hs₁.extended.func.rep? hv) hs
  · rcases hop with rfl | rfl <;> rfl
  · rintro e f m dest w d hf hd - ⟨x, hx, rfl⟩
    refine ⟨Rep.canonical_ofBool _, fun m' depth hkept => ?_⟩
    exact StepM.run_execute_test (hkept (Func.isSome_of_rep? (hf.rep? hv)) id hx) hop

theorem converting {v : ValueId} {r want : Rep} {type : TypeId} (hv : b.func.rep? v = some r)
    (hi : r.IsWhole) (hwant : c.types.HasRep c.target type want) (hiw : want.IsWhole)
    (hok : b.Grants type want) :
    Lands heads c (do
      let dest ← Emit.temp type
      Emit.push { op := .convert, dest, a := v, type, rep := r }
      pure dest) b fun u b' =>
        (∃ info, b'.func.value? u = some info ∧ info.type = type ∧ info.rep = want) ∧
          b.func.Brings b'.func u (Converted want r v) := by
  refine (computed hb hd hwant hiw.isScalar hok
    (g := fun dest => { op := .convert, dest, a := v, type, rep := r }) (fun dest b₁ hs₁ hr' hdest => ?_)
    fun _ => rfl).mono ?_
  · exact .convert hr' hdest (hs₁.extended.func.rep? hv) ⟨hi.isScalar, hiw.isScalar⟩
  · rintro _ b' - ⟨rfl, hf⟩
    rw [hf]
    have hpos := hb.func.values_pos
    exact ⟨⟨_, Func.value?_computed hpos, rfl, rfl⟩, Func.Brings.converting hpos hv hi hiw type⟩

theorem coerce {v : ValueId} {r want : Rep} {type : TypeId} (hv : b.func.rep? v = some r)
    (hi : r.IsWhole) (hwant : c.types.HasRep c.target type want) (hiw : want.IsWhole)
    (hok : b.Grants type want) :
    Lands heads c (Emit.coerce v type) b fun u b' =>
      b'.func.rep? u = some want ∧ b.func.Brings b'.func u (Converted want r v) := by
  obtain ⟨info, hinfo, rfl⟩ := Func.value?_of_rep? hv
  have hsame : ∀ b' : Bench, b'.func = b.func → info.rep = want →
      b'.func.rep? v = some want ∧ b.func.Brings b'.func v (Converted want info.rep v) := by
    intro b' hf hrep
    rw [hf]
    refine ⟨hrep ▸ hv, Func.Brings.refl' ?_⟩
    rintro m _ ⟨n, hn, hread, rfl⟩
    rw [hrep] at hn
    rwa [hiw.wrap_eq hn]
  have hrep : c.types.HasRep c.target info.type info.rep := by
    rw [← hd.types, ← hd.target]
    exact (hb.func.value hinfo).rep
  unfold Emit.coerce
  refine bind' (value hb hd hinfo) ?_
  rintro _ _ - - ⟨rfl, rfl⟩
  refine ite' (fun htype => pure' hb hd (hsame _ rfl ?_)) fun _ => ?_
  · exact (htype ▸ hrep).unique hwant
  refine bind' (repOf hb hd hwant hiw.isScalar hok) ?_
  rintro _ b₁ hs₁ hd₁ ⟨rfl, hf⟩
  refine ite' (fun heq => pure' hs₁.serves hd₁ (hsame b₁ hf heq)) fun _ => ?_
  dsimp only
  rw [hi.isScalar, hiw.isScalar]
  rw [← hf] at hv ⊢
  refine (converting hs₁.serves hd₁ hv hi hwant hiw (hs₁.grants hb.ordered hok)).mono ?_
  rintro u b₂ - ⟨⟨info', hu, -, rfl⟩, hbrings⟩
  exact ⟨Func.rep?_of_value? hu, hbrings⟩

theorem convert {v : ValueId} {r want : Rep} {type : TypeId} (hv : b.func.rep? v = some r)
    (hi : r.IsWhole) (hwant : c.types.HasRep c.target type want) (hiw : want.IsWhole)
    (hok : b.Grants type want) :
    Lands heads c (Emit.convert v type) b fun u b' =>
      (∃ info, b'.func.value? u = some info ∧ info.type = type ∧ info.rep = want) ∧
        b.func.Brings b'.func u (Converted want r v) := by
  obtain ⟨info, hinfo, rfl⟩ := Func.value?_of_rep? hv
  unfold Emit.convert
  refine bind' (value hb hd hinfo) ?_
  rintro _ _ - - ⟨rfl, rfl⟩
  refine bind' (repOf hb hd hwant hiw.isScalar hok) ?_
  rintro _ b₁ hs₁ hd₁ ⟨rfl, hf⟩
  dsimp only
  rw [hi.isScalar, hiw.isScalar]
  rw [← hf] at hv ⊢
  exact converting hs₁.serves hd₁ hv hi hwant hiw (hs₁.grants hb.ordered hok)

theorem combine {type : TypeId} {r rx ry : Rep} (hr : c.types.HasRep c.target type r)
    (hi : r.IsInteger) {x y : ValueId} (hx : b.func.rep? x = some rx) (hy : b.func.rep? y = some ry)
    (hix : rx.IsInteger) (hiy : ry.IsInteger) {out : TypeId} {t : Rep}
    (ht : c.types.HasRep c.target out t) (hit : t.IsInteger) {op : Opcode} (hop : op.isPlain = true)
    {z : Int → Int → Except Cause Int}
    (htyped : ∀ {cx cy dest : ValueId} {b' : Bench}, b'.func.rep? dest = some t →
      b'.func.rep? cx = some r → b'.func.rep? cy = some r →
      Insn.Typed (b'.scope heads) b'.func { op, dest, a := cx, b := cy, rep := r })
    (hexec : ∀ {e : Engine} {f : Func} {m : Machine} {depth : Nat} {cx cy dest : ValueId}
      {n k l : Int}, r.Holds n → r.Holds k → z n k = .ok l →
      m.Reads cx (Word.ofInt n) → m.Reads cy (Word.ofInt k) → t.Canonical (Word.ofInt l) ∧
        ((StepM.execute e f depth { op, dest, a := cx, b := cy, rep := r }).run m :
          Except (Halt Failure) Unit × Machine) = (StepM.write dest (Word.ofInt l)).run m) :
    Lands heads c (do
      let cx ← Emit.coerce x type
      let cy ← Emit.coerce y type
      let dest ← Emit.temp out
      Emit.push { op, dest, a := cx, b := cy, rep := r }
      pure dest) b fun u b' =>
        (∃ info, b'.func.value? u = some info ∧ info.type = out ∧ info.rep = t) ∧
          b.func.Brings b'.func u (Operated z r rx ry x y) := by
  refine bind' (coerce hb hd hx hix.isWhole hr hi.isWhole (.inl hi)) ?_
  rintro cx b₁ hs₁ hd₁ ⟨hcx, hbx⟩
  refine bind' (coerce hs₁.serves hd₁ (hs₁.extended.func.rep? hy) hiy.isWhole hr
    hi.isWhole (.inl hi)) ?_
  rintro cy b₂ hs₂ hd₂ ⟨hcy, hby⟩
  have hcx₂ := hs₂.extended.func.rep? hcx
  refine (bringing hs₂.serves hd₂ ht hit.isScalar (.inl hit) (p := Operated z r r r cx cy)
    (g := fun dest => { op, dest, a := cx, b := cy, rep := r }) (fun dest b₃ hs₃ _ hdest => ?_)
    (fun _ => rfl) (fun _ => hop) ?_).mono ?_
  · exact htyped hdest (hs₃.extended.func.rep? hcx₂) (hs₃.extended.func.rep? hcy)
  · rintro e f m dest w d hf hd hdrep ⟨n, k, l, ⟨hn, hxn⟩, ⟨hk, hyk⟩, hz, rfl⟩
    rw [hi.wrap_eq hn, hi.wrap_eq hk] at hz
    have hat : ∀ (m' : Machine) (depth : Nat), m'.Reads cx (Word.ofInt n) →
        m'.Reads cy (Word.ofInt k) → t.Canonical (Word.ofInt l) ∧
          ((StepM.execute e f depth { op, dest, a := cx, b := cy, rep := r }).run m' :
            Except (Halt Failure) Unit × Machine) = (StepM.write dest (Word.ofInt l)).run m' :=
      fun _ _ hxn hyk => hexec hn hk hz hxn hyk
    refine ⟨(hat m 0 hxn hyk).1, fun m' depth hkept => (hat m' depth ?_ ?_).2⟩
    · exact hkept (Func.isSome_of_rep? (hf.rep? hcx₂)) id hxn
    · exact hkept (Func.isSome_of_rep? (hf.rep? hcy)) id hyk
  · rintro u b₃ hs₃ ⟨hvalue, hbu⟩
    exact ⟨hvalue, hbx.operands hby hbu hs₁.extended.func hs₂.extended.func hs₃.extended.func hi hy hcx⟩

theorem constant {type : TypeId} {r : Rep} (hr : c.types.HasRep c.target type r)
    (hi : r.IsInteger) (n : Int) :
    Lands heads c (Emit.constant type (Word.ofInt n) .int) b fun v b' =>
      (∃ info, b'.func.value? v = some info ∧ info.type = type ∧ info.rep = r ∧
        info.origin = .const ∧ info.bits = Word.ofInt (r.wrap n)) ∧
        b.func.value? v = none ∧ b'.func.insns = b.func.insns := by
  have hclass : Emit.constClassOk r.cls .int = true := by
    rcases hi.1 with hc | hc <;> rw [hc] <;> rfl
  let info : ValueInfo :=
    { type, rep := r, origin := .const, bits := r.normalize (Word.ofInt n) }
  have hends : Ends (Emit.constant type (Word.ofInt n) .int) b (fun v b' =>
      (v = b.func.values.size ∧ b'.func = (b.func.addValue info).2) ∧ ∃ f, b'.Drafts c f)
      fun _ _ => False := by
    refine Ends.bind' (repOf hb hd hr hi.isScalar (.inl hi)) ?_
    rintro _ b₁ ⟨-, hd₁, rfl, hf⟩
    dsimp only
    rw [hclass]
    refine (hd₁.addValue info).imp ?_
    rintro v b₂ ⟨rfl, hd₂⟩
    rw [hf] at hd₂ ⊢
    exact ⟨⟨rfl, hd₂.func⟩, _, hd₂⟩
  apply (of_keeps hb (edits_constant type _ .int) (Keeps.constant hb.toTyped type _ (.inl rfl)) hends).mono
  rintro v b' - ⟨-, rfl, hf⟩
  rw [hf]
  refine ⟨⟨info, ?_, rfl, rfl, rfl, hi.normalize_ofInt n⟩, Func.value?_next, rfl⟩
  exact (Func.value?_addValue hb.func.values_pos _).trans (if_pos rfl)

theorem hasRep {v : ValueId} {info : ValueInfo} (hv : b.func.value? v = some info) :
    c.types.HasRep c.target info.type info.rep := by
  rw [← hd.types, ← hd.target]
  exact (hb.func.value hv).rep

theorem operating {op : Opcode} (hop : op.isBinary = true) {x y : ValueId} {rx ry r : Rep}
    (hx : b.func.rep? x = some rx) (hy : b.func.rep? y = some ry) (hix : rx.IsInteger)
    (hiy : ry.IsInteger) (hi : r.IsInteger) {type : TypeId} (htype : c.types.HasRep c.target type r) :
    Lands heads c (do
      let rep ← Emit.repOf type
      if rep.cls = .float ∧ op.isBitwise then Emit.fail (.notDefinedOn op (← Emit.typeText type))
      let coerceTo := if rep.cls = .pointer then Emit.coerceOffset else Emit.coerce
      let cx ← coerceTo x type
      let cy ← coerceTo y type
      let dest ← Emit.temp type
      Emit.push { op, dest, a := cx, b := cy, rep }
      pure dest) b fun u b' =>
        (∃ info, b'.func.value? u = some info ∧ info.type = type ∧ info.rep = r) ∧
          b.func.Brings b'.func u (Operated (r.operate op) r rx ry x y) := by
  refine bind' (repOf hb hd htype hi.isScalar (.inl hi)) ?_
  rintro _ b₁ hs₁ hd₁ ⟨rfl, hf⟩
  have hpointer : r.cls ≠ .pointer := by
    rcases hi.1 with hc | hc <;> rw [hc] <;> nofun
  dsimp only
  rw [if_neg (fun h => hi.not_float h.1), if_neg hpointer]
  rw [← hf] at hx hy ⊢
  have hexec : ∀ {e : Engine} {f : Func} {m : Machine} {depth : Nat} {cx cy dest : ValueId}
      {n k l : Int}, r.Holds n → r.Holds k → r.operate op n k = .ok l →
      m.Reads cx (Word.ofInt n) → m.Reads cy (Word.ofInt k) → r.Canonical (Word.ofInt l) ∧
        ((StepM.execute e f depth { op, dest, a := cx, b := cy, rep := r }).run m :
          Except (Halt Failure) Unit × Machine) = (StepM.write dest (Word.ofInt l)).run m := by
    intro e f m depth cx cy dest n k l hn hk hl hxn hyk
    have hbits : evalBinary op r (Word.ofInt n) (Word.ofInt k) = .ok (Word.ofInt l) := by
      rw [hi.evalBinary_ofInt hn hk hop, hl]
      rfl
    exact ⟨canonical_evalBinary hbits, StepM.run_execute_binary hxn hyk hop hbits⟩
  exact combine hs₁.serves hd₁ htype hi hx hy hix hiy htype hi (Opcode.isPlain_of_binary hop)
    (fun hdest hcx hcy => .binary hop hdest hcx hcy (fun _ => ⟨rfl, rfl⟩)
      ⟨hi.isScalar, hi.isScalar⟩) hexec

theorem binary {op : Opcode} (hop : op.isBinary = true) {x y : ValueId} {rx ry : Rep}
    (hx : b.func.rep? x = some rx) (hy : b.func.rep? y = some ry) (hix : rx.IsInteger)
    (hiy : ry.IsInteger) {r : Rep} (hr : r = if op.isShift then rx.promoted else rx.common ry) :
    Lands heads c (Emit.binary op x y) b fun u b' =>
      (∃ info, b'.func.value? u = some info ∧ c.types.HasRep c.target info.type r ∧
        info.rep = r) ∧
        b.func.Brings b'.func u (Operated (r.operate op) r rx ry x y) := by
  obtain ⟨ix, hinfox, rfl⟩ := Func.value?_of_rep? hx
  obtain ⟨iy, hinfoy, rfl⟩ := Func.value?_of_rep? hy
  have hi : r.IsInteger := by
    rw [hr]
    split
    · exact hix.promoted
    · exact hix.common hiy
  unfold Emit.binary
  refine bind' (value hb hd hinfox) ?_
  rintro _ _ - - ⟨rfl, rfl⟩
  refine bind' (value hb hd hinfoy) ?_
  rintro _ _ - - ⟨rfl, rfl⟩
  extract_lets k
  have hk : ∀ type b₁, b₁.Serves heads → b₁.Drafts c b₁.func → b₁.func = b.func →
      c.types.HasRep c.target type r → Lands heads c (k type) b₁ fun u b' =>
        (∃ info, b'.func.value? u = some info ∧ c.types.HasRep c.target info.type r ∧
          info.rep = r) ∧
          b.func.Brings b'.func u (Operated (r.operate op) r ix.rep iy.rep x y) := by
    intro type b₁ hb₁ hd₁ hf htype
    rw [← hf] at hx hy ⊢
    refine (operating hb₁ hd₁ hop hx hy hix hiy hi htype).mono ?_
    rintro u b' - ⟨⟨info, hu, rfl, hrep⟩, hbrings⟩
    exact ⟨⟨info, hu, htype, hrep⟩, hbrings⟩
  clear_value k
  refine ite' (fun hs => ?_) fun hs => ?_
  · rw [if_pos hs] at hr
    refine bind' (promoteUnary? hb hd (hasRep hb hd hinfox) hix) ?_
    rintro _ b₁ hs₁ hd₁ ⟨⟨type, rfl, htype⟩, hf₁⟩
    exact hk type b₁ hs₁.serves hd₁ hf₁ (hr ▸ htype)
  · rw [if_neg hs] at hr
    refine bind' (commonType hb hd op (hasRep hb hd hinfox) (hasRep hb hd hinfoy) hix hiy) ?_
    rintro type b₁ hs₁ hd₁ ⟨htype, hf₁⟩
    exact hk type b₁ hs₁.serves hd₁ hf₁ (hr ▸ htype)

theorem compare {op : Opcode} (hop : op.isCompare = true) {x y : ValueId} {rx ry : Rep}
    (hx : b.func.rep? x = some rx) (hy : b.func.rep? y = some ry) (hix : rx.IsInteger)
    (hiy : ry.IsInteger) :
    Lands heads c (Emit.compare op x y) b fun u b' =>
      (∃ info, b'.func.value? u = some info ∧ info.type = Builtin.bool.id ∧ info.rep = .bool) ∧
        b.func.Brings b'.func u (Operated (fun n k => pure (if op.relates n k then 1 else 0))
          (rx.common ry) rx ry x y) := by
  obtain ⟨ix, hinfox, rfl⟩ := Func.value?_of_rep? hx
  obtain ⟨iy, hinfoy, rfl⟩ := Func.value?_of_rep? hy
  have hi := hix.common hiy
  unfold Emit.compare
  refine bind' (value hb hd hinfox) ?_
  rintro _ _ - - ⟨rfl, rfl⟩
  refine bind' (value hb hd hinfoy) ?_
  rintro _ _ - - ⟨rfl, rfl⟩
  refine bind' (commonType hb hd op (hasRep hb hd hinfox) (hasRep hb hd hinfoy) hix hiy) ?_
  rintro type b₁ hs₁ hd₁ ⟨htype, hf₁⟩
  refine bind' (repOf hs₁.serves hd₁ htype hi.isScalar (.inl hi)) ?_
  rintro _ b₂ hs₂ hd₂ ⟨rfl, hf₂⟩
  rw [← (hf₂.trans hf₁ : b₂.func = _)] at hx hy ⊢
  refine combine hs₂.serves hd₂ htype hi hx hy hix hiy (Builtin.hasRep c.ordered .bool)
    Rep.isInteger_bool (Opcode.isPlain_of_compare hop)
    (fun hdest hcx hcy => .compare hop hdest hcx hcy hi.isScalar) ?_
  rintro e f m depth cx cy dest n k _ hn hk ⟨⟩ hxn hyk
  rw [← hi.evalCompare_ofInt hn hk hop]
  exact ⟨canonical_evalCompare .., StepM.run_execute_compare hxn hyk hop⟩

end

end Lands

end Emit

/-! ## Engines -/

/-- No refusal of a layout that is remembered is out of date. -/
def Engine.Candid (e : Engine) : Prop := Layout.Honest e.target e.types True e.layouts

/-- The engine is in the setting, and the function is open there. Such types are not
refused. -/
structure Engine.Receives (p : TypeId → Prop) (e : Engine) (c : Setting) (fn : FuncId) (f : Func) :
    Prop where
  typed : e.Typed False
  founded : e.Founded
  integers : TypeTable.initial.IntegersFrom e.types
  target : e.target = c.target
  types : e.types = c.types
  cleared : ∀ type, p type → e.tables.Clears type
  opened : e.findOpen fn = .ok f

theorem Engine.Receives.ends_emitInto {p : TypeId → Prop} {e : Engine} {c : Setting} {fn : FuncId}
    {f : Func} (h : e.Receives p c fn f) {α : Type} {act : EmitM α} {post : α → Func → Prop}
    (hedits : Leaves Bench.Edits act)
    (hact : ∀ b : Bench, b.Serves e.heads → b.Drafts c b.func → b.func = f → b.tables = e.tables →
      Emit.Lands e.heads c act b fun a b' => post a b'.func) :
    Ends (EngineM.emitInto fn act) e
      (fun a e' => ∃ f', e'.Receives p c fn f' ∧ f.Extends f' ∧ post a f') fun _ _ => False := by
  obtain ⟨hfunc, halive, hcompiled, hctx⟩ := EngineM.findOpen_ok h.opened
  have hserves : (e.bench f).Serves e.heads :=
    ⟨⟨h.typed.ordered, h.typed.honest, h.typed.func hfunc⟩,
      ⟨h.founded.tables, h.founded.values fn f hfunc⟩, h.integers⟩
  have hland := hact (e.bench f) hserves ⟨h.target, h.types, ?numbers, rfl⟩ rfl rfl
  case numbers =>
    rw [← h.target, ← h.types]
    exact h.founded.numbers
  refine EngineM.ends_emitOpen h.opened
    ((Ends.and' hland (hedits.ends (e.bench f))).mono ?_ fun _ _ h => h.1)
  rintro a b' ⟨⟨hstep, hdrafts, hpost⟩, hedited⟩
  have hext := hstep.extended
  have hshut : b'.func.compiled = false := hext.compiled.trans hcompiled
  refine ⟨b'.func, ?_, hext.func, hpost⟩
  have hset : (e.put fn b').func? fn = some b'.func :=
    (Engine.func?_set hfunc fn (e.put fn b') rfl).trans (if_pos rfl)
  -- the engine is typed because the bench is
  have hhonest := hstep.serves.honest
  have htyped := hstep.serves.func
  rw [hext.target] at hhonest htyped
  have hput : Engine.Step False e (e.put fn b') := by
    refine @Engine.Step.of_change False e (e.put fn b') h.typed fn f b'.func hfunc rfl rfl rfl
      hext.types hstep.serves.ordered hhonest hext.func.header.id
      ((h.typed.func hfunc).head_eq hext.func) (fun hheads => ?_) fun hc => ?_
    · rwa [hheads] at htyped
    · rw [hshut] at hc
      cases hc
  obtain ⟨hfounded, honward⟩ := rests_put hfunc (hedited.rests) h.founded
  refine ⟨hput.typed, hfounded, hstep.serves.integers, h.target, hdrafts.types,
    fun type hp => (h.cleared type hp).onward h.typed.ordered honward, ?_⟩
  have hctx' : (e.put fn b').building = b'.func.ctx := hctx.trans hext.func.header.ctx.symm
  unfold Engine.findOpen Engine.findFunc
  rw [hset, hctx']
  have hlives : b'.func.destroyed = false := hedited.func.alive.trans halive
  simp [hlives, hshut, bind, Except.bind, pure, Except.pure]

/-- Where an engine was built, each open function is open in the setting of its target and
types. -/
theorem Engine.Built.opens {target : Target} {e : Engine} (h : e.Built target) (hu : target.Usual)
    {fn : FuncId} {f : Func} (hf : e.findOpen fn = .ok f) :
    ∃ c : Setting, c.target = target ∧ c.types = e.types ∧ e.Receives e.tables.Clears c fn f := by
  have htarget : e.target = target :=
    (h.shape (by rcases hu with h | h <;> rw [h] <;> decide)).1
  let c : Setting := ⟨e.target, e.types, e.building, htarget ▸ hu, h.typed.ordered⟩
  exact ⟨c, htarget, rfl, h.typed, h.reached.founded, h.keepsKeyed.2, rfl, rfl, fun _ hcleared => hcleared, hf⟩

end TypedIR
