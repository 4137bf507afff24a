import TypedIR.Emit
import TypedIR.Proofs.Outcome
import TypedIR.Proofs.Typing

/-
  Emitters keep functions typed.

  A step takes a typed bench to a typed bench that extends it, and emitters keep
  to such steps, also when they fail. There is one lemma for each emitter; those
  about conversions say which representation the value they give has.
-/

namespace TypedIR

/-- The rules for benches. With `strict` no remembered refusal is out of
date. -/
structure Bench.Typed (strict : Prop) (heads : FuncId → Option Head) (b : Bench) : Prop where
  ordered : b.types.Ordered
  honest : Layout.Honest b.target b.types strict b.layouts
  func : b.func.Typed ⟨b.target, b.types, heads⟩

def Bench.scope (heads : FuncId → Option Head) (b : Bench) : Scope := ⟨b.target, b.types, heads⟩

/-- `b'` has everything `b` has. -/
structure Bench.Extends (b b' : Bench) : Prop where
  target : b'.target = b.target
  types : b.types.Grows b'.types
  func : b.func.Extends b'.func
  compiled : b'.func.compiled = b.func.compiled

namespace Bench.Extends

theorem refl (b : Bench) : b.Extends b := ⟨rfl, .refl _, .refl _, rfl⟩

theorem trans {a b c : Bench} (hab : a.Extends b) (hbc : b.Extends c) : a.Extends c :=
  ⟨hbc.target.trans hab.target, hab.types.trans hbc.types, hab.func.trans hbc.func,
    hbc.compiled.trans hab.compiled⟩

theorem hasRep {b b' : Bench} (hb : b.types.Ordered) (h : b.Extends b') {id : TypeId} {r : Rep}
    (hr : b.types.HasRep b.target id r) : b'.types.HasRep b'.target id r := by
  rw [h.target]
  exact hr.grow hb h.types

end Bench.Extends

variable {strict : Prop} {heads : FuncId → Option Head}

/-- What an emitter may do to a bench. -/
structure Bench.Step (strict : Prop) (heads : FuncId → Option Head) (b b' : Bench) : Prop where
  typed : b'.Typed strict heads
  extended : b.Extends b'

instance : Trans (Bench.Step strict heads) (Bench.Step strict heads) (Bench.Step strict heads) where
  trans h h' := ⟨h'.typed, h.extended.trans h'.extended⟩

namespace Emit.Keeps

open TypedIR.Keeps

variable {α β : Type} {act : EmitM α} {b : Bench} {post post' : α → Bench → Prop}

theorem same (hb : b.Typed strict heads) : b.Step strict heads b := ⟨hb, .refl b⟩

theorem fail' {c : Cause} (hb : b.Typed strict heads) :
    Keeps (Bench.Step strict heads) (Emit.fail c) b post := by
  refine bind' (get' (same hb)) ?_
  rintro _ _ - ⟨rfl, rfl⟩
  exact throw' (same hb)

theorem fail_bind {k : α → EmitM β} {after : β → Bench → Prop} {c : Cause}
    (hb : b.Typed strict heads) : Keeps (Bench.Step strict heads) (Emit.fail c >>= k) b after :=
  have hfail : Keeps (Bench.Step strict heads) (Emit.fail c : EmitM α) b (fun _ _ => False) :=
    fail' hb
  bind' hfail fun _ _ _ h => h.elim

theorem typeText (hb : b.Typed strict heads) (id : TypeId) :
    Keeps (Bench.Step strict heads) (Emit.typeText id) b (fun _ b' => b = b') :=
  bind' (get' (same hb)) fun _ _ _ h => pure' (same (h.2 ▸ hb)) h.2

theorem value (hb : b.Typed strict heads) (v : ValueId) :
    Keeps (Bench.Step strict heads) (Emit.value v) b (fun info b' => b = b' ∧ b.func.value? v = some info) := by
  unfold Emit.value
  refine bind' (get' (same hb)) ?_
  rintro _ _ - ⟨rfl, rfl⟩
  split
  · next info hv => exact pure' (same hb) ⟨rfl, hv⟩
  · exact fail' hb

theorem label (hb : b.Typed strict heads) (l : LabelId) :
    Keeps (Bench.Step strict heads) (Emit.knownLabel l) b
      (fun pos b' => b = b' ∧ b.func.label? l = some pos) := by
  unfold Emit.knownLabel
  refine bind' (get' (same hb)) ?_
  rintro _ _ - ⟨rfl, rfl⟩
  split
  · next pos hl => exact pure' (same hb) ⟨rfl, hl⟩
  · exact fail' hb

theorem relaid (hb : b.Typed strict heads) {c : Layout.Cache}
    (hc : Layout.Honest b.target b.types strict c) :
    b.Step strict heads { b with layouts := c } :=
  ⟨⟨hb.ordered, hc, hb.func⟩, ⟨rfl, .refl _, .refl _, rfl⟩⟩

theorem layoutOf (hb : b.Typed strict heads) {id : Nat} (hid : id < b.types.types.size) :
    Keeps (Bench.Step strict heads) (Emit.layoutOf id) b (fun _ b' => b'.types = b.types) := by
  unfold Emit.layoutOf
  refine bind' (get' (same hb)) ?_
  rintro _ _ - ⟨rfl, rfl⟩
  obtain ⟨-, hhonest⟩ := Layout.layoutWithin_right hb.ordered (b.types.size + 1) hb.honest
    fun _ => ⟨hid, Nat.lt_succ_of_lt hid⟩
  refine bind' (set' (relaid hb hhonest)) ?_
  rintro _ _ hs rfl
  exact pure' (same hs.typed) rfl

theorem repOf (hb : b.Typed strict heads) (id : TypeId) :
    Keeps (Bench.Step strict heads) (Emit.repOf id) b
      (fun r b' => b'.types.HasRep b'.target id r ∧ b'.func = b.func) := by
  unfold Emit.repOf
  refine bind' (get' (same hb)) ?_
  rintro _ _ - ⟨rfl, rfl⟩
  obtain ⟨hright, hhonest⟩ := TypeTable.findRep_right hb.ordered id hb.honest
  rcases hrun : (b.types.findRep b.target id).run b.layouts with ⟨answer, layouts⟩
  rw [hrun] at hright hhonest
  refine bind' (set' (relaid hb hhonest)) ?_
  rintro _ _ hs rfl
  cases answer with
  | ok r => exact pure' (same hs.typed) ⟨hright r rfl, rfl⟩
  | error c => exact throw' (same hs.typed)

theorem refit (hb : b.Typed strict heads) {f : Func} {notes : Array Trace.Note}
    (hext : b.func.Extends f) (hf : f.Typed (b.scope heads)) (hc : f.compiled = b.func.compiled) :
    b.Step strict heads { b with func := f, notes } :=
  ⟨⟨hb.ordered, hb.honest, hf⟩, ⟨rfl, .refl _, hext, hc⟩⟩

theorem addValue (hb : b.Typed strict heads) {info : ValueInfo}
    (hi : info.Typed (b.scope heads)) :
    Keeps (Bench.Step strict heads) (Emit.addValue info) b (fun v b' => b'.func.rep? v = some info.rep ∧
      b'.target = b.target ∧ b'.types = b.types) := by
  unfold Emit.addValue
  refine bind' (get' (same hb)) ?_
  rintro _ _ - ⟨rfl, rfl⟩
  refine bind' (set' (refit hb (Func.extends_addValue hb.func.values_pos)
    (hb.func.addValue hb.ordered hi) rfl)) ?_
  rintro _ _ hs rfl
  refine pure' (same hs.typed) ⟨?_, rfl, rfl⟩
  have hv : (b.func.addValue info).2.value? b.func.values.size = some { info with slot := none } :=
    (Func.value?_addValue hb.func.values_pos _).trans (if_pos rfl)
  have hrep := Func.rep?_of_value? hv
  exact hrep

def Fits (type : TypeId) (v : ValueId) (b : Bench) : Prop :=
  ∃ r, b.types.HasRep b.target type r ∧ b.func.rep? v = some r

theorem temp (hb : b.Typed strict heads) (type : TypeId) :
    Keeps (Bench.Step strict heads) (Emit.temp type) b (fun v b' => Fits type v b') := by
  unfold Emit.temp
  refine bind' (repOf hb type) ?_
  rintro r b₁ hs₁ ⟨hr, -⟩
  refine mono (addValue hs₁.typed ⟨hr, nofun, nofun⟩) ?_
  rintro v b₂ hs₂ ⟨hv, htarget, htypes⟩
  exact ⟨r, hs₂.extended.hasRep hs₁.typed.ordered hr, hv⟩

theorem push (hb : b.Typed strict heads) {i : Insn} (hi : i.Typed (b.scope heads) b.func)
    (hop : i.op ≠ .label) :
    Keeps (Bench.Step strict heads) (Emit.push i) b (fun _ _ => True) :=
  Ends.modify' ⟨refit hb (Func.extends_push i) (hb.func.push hb.ordered hi hop) rfl, trivial⟩

theorem failText {k : α → EmitM β} {after : β → Bench → Prop} {c : String → Cause}
    (hb : b.Typed strict heads) (x : TypeId) :
    Keeps (Bench.Step strict heads) (do let s ← Emit.typeText x; let r ← Emit.fail (c s); k r) b after := by
  refine bind' (typeText hb x) ?_
  rintro _ _ - rfl
  exact fail_bind hb

theorem failTexts {k : α → EmitM β} {after : β → Bench → Prop} {c : String → String → Cause}
    (hb : b.Typed strict heads) (x y : TypeId) :
    Keeps (Bench.Step strict heads)
      (do let s ← Emit.typeText x; let t ← Emit.typeText y; let r ← Emit.fail (c s t); k r)
      b after := by
  refine bind' (typeText hb x) ?_
  rintro _ _ - rfl
  exact failText hb y

theorem Fits.grow {type : TypeId} {v : ValueId} {b' : Bench} (h : Fits type v b)
    (hb : b.types.Ordered) (he : b.Extends b') : Fits type v b' := by
  obtain ⟨r, ht, hv⟩ := h
  exact ⟨r, he.hasRep hb ht, he.func.rep? hv⟩

theorem compute (hb : b.Typed strict heads) (type : TypeId) {g : ValueId → Insn}
    (hop : ∀ dest, (g dest).op ≠ .label)
    (hg : ∀ dest b', b.Step strict heads b' → Fits type dest b' →
      (g dest).Typed (b'.scope heads) b'.func) :
    Keeps (Bench.Step strict heads) (do let dest ← Emit.temp type; Emit.push (g dest); pure dest) b
      (fun v b' => Fits type v b') := by
  refine bind' (temp hb type) fun dest b₁ hs₁ hdest => ?_
  refine bind' (push hs₁.typed (hg dest b₁ hs₁ hdest) (hop dest)) fun _ b₂ hs₂ _ => ?_
  exact pure' (same hs₂.typed) (hdest.grow hs₁.typed.ordered hs₂.extended)

theorem coerce (hb : b.Typed strict heads) (v : ValueId) (type : TypeId) :
    Keeps (Bench.Step strict heads) (Emit.coerce v type) b (fun v' b' => Fits type v' b') := by
  unfold Emit.coerce
  refine bind' (value hb v) ?_
  rintro info _ - ⟨rfl, hv⟩
  have hinfo := hb.func.value hv
  have hrep := Func.rep?_of_value? hv
  refine ite' (fun htype => pure' (same hb) ⟨info.rep, htype ▸ hinfo.rep, hrep⟩) fun _ => ?_
  refine bind' (repOf hb type) ?_
  rintro want b₁ hs₁ ⟨hwant, -⟩
  have hrep₁ := hs₁.extended.func.rep? hrep
  refine ite' (fun hsame => pure' (same hs₁.typed) ⟨want, hwant, hsame ▸ hrep₁⟩) fun _ => ?_
  dsimp only
  refine ite' (fun _ => failTexts hs₁.typed info.type type) fun hscalar => ?_
  refine compute hs₁.typed type (fun _ => nofun) fun dest b₂ hs₂ ⟨r, hr, hdest⟩ => ?_
  obtain rfl : want = r := (hs₂.extended.hasRep hs₁.typed.ordered hwant).unique hr
  exact .convert hr hdest (hs₂.extended.func.rep? hrep₁) (by simpa using hscalar)

theorem numeric (hb : b.Typed strict heads) (type : TypeId) :
    Keeps (Bench.Step strict heads) (Emit.numeric? type) b (fun n b' => b'.types = b.types ∧
      ∀ x ∈ n, b.types.IsScalar type ∧ b.types.IsScalar x.id) := by
  unfold Emit.numeric?
  refine bind' (get' (same hb)) ?_
  rintro _ _ - ⟨rfl, rfl⟩
  dsimp only
  split
  · exact pure' (same hb) ⟨rfl, nofun⟩
  · next d hd =>
    refine ite' (fun hd' => ?_) fun _ => pure' (same hb) ⟨rfl, nofun⟩
    refine bind' (layoutOf hb (TypeTable.find?_lt hd).2) fun _ b₁ hs₁ ht => ?_
    refine pure' (same hs₁.typed) ⟨ht, fun x hx => ?_⟩
    obtain rfl := Option.some.inj hx
    have hun := TypeTable.underlying_of_not_tagged hd (hb.ordered.kind_underlying type hd)
    unfold TypeTable.IsScalar
    rw [hun, hd]
    exact ⟨hd', hd'⟩

theorem promoted_isScalar (hb : b.Typed strict heads) {n : Emit.Numeric}
    (hn : b.types.IsScalar n.id) {type : TypeId} (h : n.promoted? = some type) :
    b.types.IsScalar type := by
  have hint : b.types.IsScalar Builtin.int32.id := Builtin.isScalar hb.ordered nofun
  unfold Emit.Numeric.promoted? at h
  split at h
  · obtain rfl := Option.some.inj h
    split
    · exact hint
    · exact hn
  · obtain rfl := Option.some.inj h
    split
    · exact hint
    · exact hn
  · exact Option.some.inj h ▸ hn
  · cases h

theorem promoteUnary (hb : b.Typed strict heads) (type : TypeId) :
    Keeps (Bench.Step strict heads) (Emit.promoteUnary? type) b
      (fun t b' => ∀ x ∈ t, b'.types.IsScalar x) := by
  unfold Emit.promoteUnary?
  refine bind' (numeric hb type) fun n b₁ hs₁ ⟨ht, hn⟩ => ?_
  cases n with
  | none => exact pure' (same hs₁.typed) nofun
  | some n =>
    refine pure' (same hs₁.typed) fun x hx => promoted_isScalar hs₁.typed ?_ hx
    rw [ht]
    exact (hn n rfl).2

theorem commonInteger_isScalar (hb : b.Typed strict heads) (x y : Emit.Numeric) :
    b.types.IsScalar (Emit.commonInteger x y) := by
  have builtin : ∀ {c : Builtin}, c ≠ .void → b.types.IsScalar c.id := Builtin.isScalar hb.ordered
  have pick : ∀ {c : Prop} [Decidable c] {u v : TypeId}, b.types.IsScalar u → b.types.IsScalar v →
      b.types.IsScalar (if c then u else v) := by
    intro c _ u v hu hv
    split
    · exact hu
    · exact hv
  unfold Emit.commonInteger
  refine pick (pick (@builtin .nuint nofun) (@builtin .nint nofun)) ?_
  refine pick (pick (@builtin .uint64 nofun) (@builtin .int64 nofun)) ?_
  exact pick (@builtin .uint32 nofun) (@builtin .int32 nofun)

theorem commonType (hb : b.Typed strict heads) (op : Opcode) (x y : TypeId) :
    Keeps (Bench.Step strict heads) (Emit.commonType op x y) b
      (fun type b' => b'.types.IsScalar type) := by
  unfold Emit.commonType
  refine bind' (numeric hb x) fun na b₁ hs₁ ⟨ht₁, hna⟩ => ?_
  refine bind' (numeric hs₁.typed y) fun nb b₂ hs₂ ⟨ht₂, hnb⟩ => ?_
  have hb₂ := hs₂.typed
  have builtin : ∀ {c : Builtin}, c ≠ .void → b₂.types.IsScalar c.id :=
    Builtin.isScalar hb₂.ordered
  split
  · next na nb _ _ =>
    have hna : b₂.types.IsScalar na.id := by rw [ht₂, ht₁]; exact (hna na rfl).2
    have hnb : b₂.types.IsScalar nb.id := by rw [ht₂]; exact (hnb nb rfl).2
    dsimp only
    refine ite' (fun _ => ?_) fun _ => ?_
    · refine ite' (fun _ => pure' (same hb₂) (builtin nofun)) fun _ => ?_
      exact ite' (fun _ => fail_bind hb₂) fun _ => pure' (same hb₂) (builtin nofun)
    refine ite' (fun _ => pure' (same hb₂) hna) fun _ => ?_
    refine ite' (fun _ => pure' (same hb₂) hnb) fun _ => ?_
    refine ite' (fun _ => pure' (same hb₂) (builtin nofun)) fun _ => ?_
    refine ite' (fun _ => pure' (same hb₂) (builtin nofun)) fun _ => ?_
    refine bind' (numeric hb₂ _) fun pa b₃ hs₃ _ => ?_
    refine bind' (numeric hs₃.typed _) fun pb b₄ hs₄ _ => ?_
    exact pure' (same hs₄.typed) (commonInteger_isScalar hs₄.typed _ _)
  · refine bind' (typeText hb₂ x) ?_
    rintro _ _ - rfl
    refine bind' (typeText hb₂ y) ?_
    rintro _ _ - rfl
    exact fail' hb₂

def Scalar (v : ValueId) (b : Bench) : Prop := ∃ r, b.func.rep? v = some r ∧ r.isScalar = true

theorem Fits.scalar {type : TypeId} {v : ValueId} (h : Fits type v b)
    (hs : b.types.IsScalar type) : Scalar v b :=
  let ⟨r, ht, hv⟩ := h
  ⟨r, hv, ht.isScalar hs⟩

theorem coerceOffset (hb : b.Typed strict heads) (v : ValueId) (pointer : TypeId) :
    Keeps (Bench.Step strict heads) (Emit.coerceOffset v pointer) b (fun v' b' => Scalar v' b') := by
  unfold Emit.coerceOffset
  refine bind' (value hb v) ?_
  rintro info _ - ⟨rfl, hv⟩
  refine bind' (numeric hb info.type) fun n b₁ hs₁ ⟨_, hn⟩ => ?_
  split
  · refine bind' (typeText hs₁.typed _) ?_
    rintro _ _ - rfl
    refine bind' (typeText hs₁.typed _) ?_
    rintro _ _ - rfl
    exact fail' hs₁.typed
  · have hv₁ : Scalar v b₁ := ⟨_, hs₁.extended.func.rep? (Func.rep?_of_value? hv),
      (hb.func.value hv).rep.isScalar (hn _ rfl).1⟩
    refine ite' (fun _ => pure' (same hs₁.typed) hv₁) fun _ => ?_
    refine ite' (fun _ => ?_) fun _ => ?_
    · refine mono (coerce hs₁.typed v _) fun _ _ hs h => h.scalar ?_
      exact Builtin.isScalar hs.typed.ordered nofun
    · refine mono (coerce hs₁.typed v _) fun _ _ hs h => h.scalar ?_
      exact Builtin.isScalar hs.typed.ordered nofun

/-! ## The emitters -/

def FitsOffset (rep : Rep) (v : ValueId) (b : Bench) : Prop :=
  ∃ r, b.func.rep? v = some r ∧ r.isScalar = true ∧ (rep.cls ≠ .pointer → r = rep)

theorem coerceOperand (hb : b.Typed strict heads) {type : TypeId} {rep : Rep}
    (hrep : b.types.HasRep b.target type rep) (hscalar : rep.isScalar = true) (v : ValueId) :
    Keeps (Bench.Step strict heads) ((if rep.cls = .pointer then Emit.coerceOffset else Emit.coerce) v type) b
      (fun v' b' => FitsOffset rep v' b') := by
  split
  · next hp =>
    refine mono (coerceOffset hb v type) ?_
    rintro v' b' - ⟨r, hr, hs⟩
    exact ⟨r, hr, hs, fun h => absurd hp h⟩
  · refine mono (coerce hb v type) ?_
    rintro v' b' hs ⟨r, ht, hr⟩
    obtain rfl := ht.unique (hs.extended.hasRep hb.ordered hrep)
    exact ⟨r, hr, hscalar, fun _ => rfl⟩

theorem binary (hb : b.Typed strict heads) {op : Opcode} (hop : op.isBinary = true)
    (x y : ValueId) : Keeps (Bench.Step strict heads) (Emit.binary op x y) b (fun _ _ => True) := by
  unfold Emit.binary
  refine bind' (value hb x) ?_
  rintro vx _ - ⟨rfl, -⟩
  refine bind' (value hb y) ?_
  rintro vy _ - ⟨rfl, -⟩
  extract_lets k
  have hk : ∀ type b', b'.Typed strict heads → b'.types.IsScalar type →
      Keeps (Bench.Step strict heads) (k type) b' (fun _ _ => True) := by
    intro type b₁ hb₁ htype
    refine bind' (repOf hb₁ type) ?_
    rintro rep b₂ hs₂ ⟨hrep, -⟩
    have hscalar := hrep.isScalar (htype.grow hb₁.ordered hs₂.extended.types)
    dsimp only
    refine ite' (fun _ => failText hs₂.typed type) fun _ => ?_
    refine bind' (coerceOperand hs₂.typed hrep hscalar x) fun cx b₃ hs₃ ⟨rx, hx, hcx, hsx⟩ => ?_
    have hrep₃ := hs₃.extended.hasRep hs₂.typed.ordered hrep
    refine bind' (coerceOperand hs₃.typed hrep₃ hscalar y) fun cy b₄ hs₄ ⟨ry, hy, hcy, hsy⟩ => ?_
    have hrep₄ := hs₄.extended.hasRep hs₃.typed.ordered hrep₃
    refine mono (compute hs₄.typed type ?_ fun dest b₅ hs₅ ⟨r, ht, hdest⟩ => ?_)
      fun _ _ _ _ => trivial
    · rintro _ rfl
      cases hop
    obtain rfl := ht.unique (hs₅.extended.hasRep hs₄.typed.ordered hrep₄)
    exact .binary hop hdest (hs₅.extended.func.rep? (hs₄.extended.func.rep? hx))
      (hs₅.extended.func.rep? hy) (fun hp => ⟨hsx hp, hsy hp⟩) ⟨hcx, hcy⟩
  clear_value k
  refine ite' (fun _ => ?_) fun _ => ?_
  · refine bind' (promoteUnary hb _) fun t b₁ hs₁ ht => ?_
    cases t with
    | none => exact failText hs₁.typed _
    | some t => exact hk t b₁ hs₁.typed (ht t rfl)
  · exact bind' (commonType hb op _ _) fun t b₁ hs₁ ht => hk t b₁ hs₁.typed ht

theorem unary (hb : b.Typed strict heads) {op : Opcode} (hop : op = .neg ∨ op = .not)
    (x : ValueId) : Keeps (Bench.Step strict heads) (Emit.unary op x) b (fun _ _ => True) := by
  unfold Emit.unary
  refine bind' (value hb x) ?_
  rintro vx _ - ⟨rfl, -⟩
  refine bind' (promoteUnary hb _) fun t b₁ hs₁ htype => ?_
  cases t with
  | none =>
    refine bind' (typeText hs₁.typed _) ?_
    rintro _ _ - rfl
    exact fail' hs₁.typed
  | some type =>
    refine bind' (repOf hs₁.typed type) ?_
    rintro rep b₂ hs₂ ⟨hrep, -⟩
    have hscalar := hrep.isScalar ((htype type rfl).grow hs₁.typed.ordered hs₂.extended.types)
    dsimp only
    refine ite' (fun _ => failText hs₂.typed type) fun _ => ?_
    refine bind' (coerce hs₂.typed x type) fun cx b₃ hs₃ ⟨rx, htx, hx⟩ => ?_
    have hrep₃ := hs₃.extended.hasRep hs₂.typed.ordered hrep
    obtain rfl := htx.unique hrep₃
    refine mono (compute hs₃.typed type ?_ fun dest b₄ hs₄ ⟨r, ht, hdest⟩ => ?_)
      fun _ _ _ _ => trivial
    · rintro _ rfl
      exact hop.elim nofun nofun
    obtain rfl := ht.unique (hs₄.extended.hasRep hs₃.typed.ordered hrep₃)
    exact .unary hop hdest (hs₄.extended.func.rep? hx) hscalar

theorem compare (hb : b.Typed strict heads) {op : Opcode}
    (hop : op.isCompare = true) (x y : ValueId) :
    Keeps (Bench.Step strict heads) (Emit.compare op x y) b (fun _ _ => True) := by
  unfold Emit.compare
  refine bind' (value hb x) ?_
  rintro vx _ - ⟨rfl, -⟩
  refine bind' (value hb y) ?_
  rintro vy _ - ⟨rfl, -⟩
  refine bind' (commonType hb op _ _) fun type b₁ hs₁ htype => ?_
  refine bind' (repOf hs₁.typed type) ?_
  rintro rep b₂ hs₂ ⟨hrep, -⟩
  have hscalar := hrep.isScalar (htype.grow hs₁.typed.ordered hs₂.extended.types)
  refine bind' (coerce hs₂.typed x type) fun cx b₃ hs₃ ⟨rx, htx, hx⟩ => ?_
  obtain rfl := htx.unique (hs₃.extended.hasRep hs₂.typed.ordered hrep)
  refine bind' (coerce hs₃.typed y type) fun cy b₄ hs₄ ⟨ry, hty, hy⟩ => ?_
  obtain rfl := hty.unique (hs₄.extended.hasRep hs₃.typed.ordered htx)
  refine mono (compute hs₄.typed _ ?_ fun dest b₅ hs₅ ⟨r, ht, hdest⟩ => ?_)
    fun _ _ _ _ => trivial
  · rintro _ rfl
    cases hop
  obtain rfl := ht.unique (Builtin.hasRep hs₅.typed.ordered .bool)
  exact .compare hop hdest (hs₅.extended.func.rep? (hs₄.extended.func.rep? hx))
    (hs₅.extended.func.rep? hy) hscalar

theorem test (hb : b.Typed strict heads) {op : Opcode} (hop : op = .toBool ∨ op = .toNotBool)
    (x : ValueId) : Keeps (Bench.Step strict heads) (Emit.test op x) b (fun _ _ => True) := by
  unfold Emit.test
  refine bind' (value hb x) ?_
  rintro vx _ - ⟨rfl, hx⟩
  dsimp only
  refine ite' (fun _ => failText hb _) fun hscalar => ?_
  refine mono (compute hb _ ?_ fun dest b₁ hs₁ ⟨r, ht, hdest⟩ => ?_)
    fun _ _ _ _ => trivial
  · rintro _ rfl
    exact hop.elim nofun nofun
  obtain rfl := ht.unique (Builtin.hasRep hs₁.typed.ordered .bool)
  exact .test hop hdest (hs₁.extended.func.rep? (Func.rep?_of_value? hx)) (by simpa using hscalar)

theorem convert (hb : b.Typed strict heads) (x : ValueId) (type : TypeId) :
    Keeps (Bench.Step strict heads) (Emit.convert x type) b (fun _ _ => True) := by
  unfold Emit.convert
  refine bind' (value hb x) ?_
  rintro vx _ - ⟨rfl, hx⟩
  refine bind' (repOf hb type) ?_
  rintro want b₁ hs₁ ⟨hwant, -⟩
  dsimp only
  refine ite' (fun _ => failTexts hs₁.typed _ _) fun hscalar => ?_
  refine mono (compute hs₁.typed type (fun _ => nofun) fun dest b₂ hs₂ ⟨r, ht, hdest⟩ => ?_)
    fun _ _ _ _ => trivial
  have hrep := hs₂.extended.func.rep? (hs₁.extended.func.rep? (Func.rep?_of_value? hx))
  obtain rfl : want = r := (hs₂.extended.hasRep hs₁.typed.ordered hwant).unique ht
  exact .convert ht hdest hrep (by simpa using hscalar)

theorem store (hb : b.Typed strict heads) (dest src : ValueId) :
    Keeps (Bench.Step strict heads) (Emit.store dest src) b (fun _ _ => True) := by
  unfold Emit.store
  refine bind' (value hb dest) ?_
  rintro vd _ - ⟨rfl, hd⟩
  refine bind' (value hb src) ?_
  rintro vs _ - ⟨rfl, hs⟩
  dsimp only
  refine ite' (fun _ => fail_bind hb) fun hc => ?_
  have hvar : ∀ info, b.func.value? dest = some info → info.origin ≠ .const := by
    rintro info hinfo
    obtain rfl := Option.mem_unique hd hinfo
    exact hc
  refine ite' (fun _ => ite' (fun _ => failTexts hb _ _) fun hsame => ?_) fun _ => ?_
  · have hrep : vd.rep = vs.rep := Classical.not_not.mp hsame
    exact push hb (.copy (Func.rep?_of_value? hd) (hrep ▸ Func.rep?_of_value? hs) hvar) nofun
  · refine bind' (coerce hb src vd.type) fun cs b₁ hs₁ ⟨r, ht, hr⟩ => ?_
    obtain rfl := ht.unique (hs₁.extended.hasRep hb.ordered (hb.func.value hd).rep)
    refine push hs₁.typed (.copy (hs₁.extended.func.rep? (Func.rep?_of_value? hd)) hr ?_) nofun
    intro info hinfo
    obtain ⟨info', hinfo', hsame⟩ := hs₁.extended.func.value hd
    obtain rfl := Option.mem_unique hinfo hinfo'
    exact hsame.origin ▸ hc

theorem markAddressable (hb : b.Typed strict heads) {v : ValueId} {info : ValueInfo}
    (hv : b.func.value? v = some info) (hc : info.origin ≠ .const) :
    Keeps (Bench.Step strict heads) (Emit.markAddressable v) b (fun _ b' => b' = { b with func := b.func.mark v }) :=
  Ends.modify' ⟨refit hb (Func.extends_mark v) (hb.func.mark hb.ordered hv hc) rfl, rfl⟩

theorem retype (hb : b.Typed strict heads) {r : TypeId × TypeTable} {d : Descriptor}
    (hm : b.types.Makes r d) : b.Step strict heads { b with types := r.2 } :=
  ⟨⟨hm.ordered, hb.honest.grow hb.ordered hm.grows,
    @Func.Typed.grow (b.scope heads) _ _ hb.ordered ⟨rfl, hm.grows, fun h => h⟩ hb.func⟩,
    ⟨rfl, hm.grows, .refl _, rfl⟩⟩

theorem addressOf (hb : b.Typed strict heads) (v : ValueId) :
    Keeps (Bench.Step strict heads) (Emit.addressOf v) b (fun _ _ => True) := by
  unfold Emit.addressOf
  refine bind' (value hb v) ?_
  rintro vi _ - ⟨rfl, hv⟩
  dsimp only
  refine ite' (fun _ => fail_bind hb) fun hc => ?_
  refine bind' (markAddressable hb hv hc) ?_
  rintro _ b₁ hs₁ rfl
  refine bind' (get' (same hs₁.typed)) ?_
  rintro _ _ - ⟨rfl, rfl⟩
  have hknown := (hb.func.value hv).rep.known
  have hm := hs₁.typed.ordered.makes_pointer hknown
  refine bind' (set' (retype hs₁.typed hm)) ?_
  rintro _ _ hs₂ rfl
  refine mono (compute hs₂.typed _ (fun _ => nofun) fun dest b₃ hs₃ ⟨r, ht, hdest⟩ => ?_)
    fun _ _ _ _ => trivial
  obtain rfl := ht.unique (.address (hs₃.extended.types.find? hm.found) (.inl rfl))
  have hmarked : (b.func.mark v).value? v = some { vi with addressable := true } := by
    rw [Func.value?_mark, if_pos rfl, hv]
    rfl
  obtain ⟨info, hinfo, hsame⟩ := hs₃.extended.func.value hmarked
  exact .addressOf hinfo (hsame.2 rfl) hdest

theorem pointerOperand (hb : b.Typed strict heads) (v : ValueId) :
    Keeps (Bench.Step strict heads) (Emit.pointerOperand v) b
      (fun _ b' => b = b' ∧ b.func.rep? v = some b.target.pointerRep) := by
  unfold Emit.pointerOperand
  refine bind' (value hb v) ?_
  rintro vi _ - ⟨rfl, hv⟩
  refine ite' (fun _ => ?_) fun hp => pure' (same hb) ⟨rfl, ?_⟩
  · refine bind' (typeText hb _) ?_
    rintro _ _ - rfl
    exact fail' hb
  · rw [Func.rep?_of_value? hv, (hb.func.value hv).rep.eq_pointerRep (Classical.not_not.mp hp)]

theorem loadRel (hb : b.Typed strict heads) (ptr : ValueId) (offset : Int) (type : TypeId) :
    Keeps (Bench.Step strict heads) (Emit.loadRel ptr offset type) b (fun _ _ => True) := by
  unfold Emit.loadRel
  refine bind' (pointerOperand hb ptr) ?_
  rintro _ _ - ⟨rfl, hp⟩
  refine bind' (repOf hb type) ?_
  rintro rep b₁ hs₁ ⟨hrep, -⟩
  dsimp only
  refine ite' (fun _ => fail_bind hs₁.typed) fun hv => ?_
  refine mono (compute hs₁.typed type (fun _ => nofun) fun dest b₂ hs₂ ⟨r, ht, hdest⟩ => ?_)
    fun _ _ _ _ => trivial
  obtain rfl := ht.unique (hs₂.extended.hasRep hs₁.typed.ordered hrep)
  refine .loadRel ht hv hdest ?_
  rw [Bench.scope, hs₂.extended.target, hs₁.extended.target]
  exact hs₂.extended.func.rep? (hs₁.extended.func.rep? hp)

theorem storeRel (hb : b.Typed strict heads) (ptr : ValueId) (offset : Int) (v : ValueId) :
    Keeps (Bench.Step strict heads) (Emit.storeRel ptr offset v) b (fun _ _ => True) := by
  unfold Emit.storeRel
  refine bind' (pointerOperand hb ptr) ?_
  rintro _ _ - ⟨rfl, hp⟩
  refine bind' (value hb v) ?_
  rintro vi _ - ⟨rfl, hv⟩
  exact push hb (.storeRel (hb.func.value hv).rep hp (Func.rep?_of_value? hv)) nofun

theorem loadElem (hb : b.Typed strict heads) (base index : ValueId) (type : TypeId) :
    Keeps (Bench.Step strict heads) (Emit.loadElem base index type) b (fun _ _ => True) := by
  unfold Emit.loadElem
  refine bind' (pointerOperand hb base) ?_
  rintro _ _ - ⟨rfl, hp⟩
  refine bind' (coerce hb index _) fun ci b₁ hs₁ ⟨ri, hti, hi⟩ => ?_
  obtain rfl := hti.unique (Builtin.hasRep hs₁.typed.ordered .nint)
  refine bind' (repOf hs₁.typed type) ?_
  rintro rep b₂ hs₂ ⟨hrep, -⟩
  dsimp only
  refine ite' (fun _ => fail_bind hs₂.typed) fun hv => ?_
  refine mono (compute hs₂.typed type (fun _ => nofun) fun dest b₃ hs₃ ⟨r, ht, hdest⟩ => ?_)
    fun _ _ _ _ => trivial
  obtain rfl := ht.unique (hs₃.extended.hasRep hs₂.typed.ordered hrep)
  refine .loadElem ht hv hdest ?_ ?_
  · rw [Bench.scope, hs₃.extended.target, hs₂.extended.target, hs₁.extended.target]
    exact hs₃.extended.func.rep? (hs₂.extended.func.rep? (hs₁.extended.func.rep? hp))
  · rw [Bench.scope, hs₃.extended.target, hs₂.extended.target]
    exact hs₃.extended.func.rep? (hs₂.extended.func.rep? hi)

theorem storeElem (hb : b.Typed strict heads) (base index v : ValueId) :
    Keeps (Bench.Step strict heads) (Emit.storeElem base index v) b (fun _ _ => True) := by
  unfold Emit.storeElem
  refine bind' (pointerOperand hb base) ?_
  rintro _ _ - ⟨rfl, hp⟩
  refine bind' (coerce hb index _) fun ci b₁ hs₁ ⟨ri, hti, hi⟩ => ?_
  obtain rfl := hti.unique (Builtin.hasRep hs₁.typed.ordered .nint)
  refine bind' (value hs₁.typed v) ?_
  rintro vi _ - ⟨rfl, hv⟩
  refine push hs₁.typed (.storeElem (hs₁.typed.func.value hv).rep ?_ hi (Func.rep?_of_value? hv))
    nofun
  rw [Bench.scope, hs₁.extended.target]
  exact hs₁.extended.func.rep? hp

theorem alloca (hb : b.Typed strict heads) (size : ValueId) :
    Keeps (Bench.Step strict heads) (Emit.alloca size) b (fun _ _ => True) := by
  unfold Emit.alloca
  refine bind' (coerce hb size _) fun n b₁ hs₁ ⟨rn, htn, hn⟩ => ?_
  obtain rfl := htn.unique (Builtin.hasRep hs₁.typed.ordered .nuint)
  refine mono (compute hs₁.typed _ (fun _ => nofun) fun dest b₂ hs₂ ⟨r, ht, hdest⟩ => ?_)
    fun _ _ _ _ => trivial
  obtain rfl := ht.unique (Builtin.hasRep hs₂.typed.ordered .voidPtr)
  refine .alloca hdest ?_
  rw [Bench.scope, hs₂.extended.target]
  exact hs₂.extended.func.rep? hn

theorem placeLabel (hb : b.Typed strict heads) (l : LabelId) :
    Keeps (Bench.Step strict heads) (Emit.placeLabel l) b (fun _ _ => True) := by
  unfold Emit.placeLabel
  refine bind' (label hb l) ?_
  rintro pos _ - ⟨rfl, hl⟩
  dsimp only
  refine ite' (fun _ => fail_bind hb) fun hopen => ?_
  obtain ⟨hext, hplaced⟩ := hb.func.place hb.ordered hl (Int.not_le.mp hopen)
  -- the label is moved before its instruction is there, so the two go together
  exact Ends.bind_modify (Ends.modify' ⟨refit hb hext hplaced rfl, trivial⟩)

theorem branch (hb : b.Typed strict heads) (l : LabelId) :
    Keeps (Bench.Step strict heads) (Emit.branch l) b (fun _ _ => True) := by
  unfold Emit.branch
  refine bind' (label hb l) ?_
  rintro pos _ - ⟨rfl, hl⟩
  exact push hb (.branch (by rw [hl]; rfl)) nofun

theorem branchOn (hb : b.Typed strict heads) {op : Opcode}
    (hop : op = .branchIf ∨ op = .branchIfNot) (cond : ValueId) (l : LabelId) :
    Keeps (Bench.Step strict heads) (Emit.branchOn op cond l) b (fun _ _ => True) := by
  unfold Emit.branchOn
  refine bind' (label hb l) ?_
  rintro pos _ - ⟨rfl, hl⟩
  refine bind' (value hb cond) ?_
  rintro vc _ - ⟨rfl, hv⟩
  dsimp only
  refine ite' (fun _ => failText hb _) fun hscalar => ?_
  refine push hb (.branchOn hop (by rw [hl]; rfl) (Func.rep?_of_value? hv) (by simpa using hscalar))
    ?_
  rcases hop with rfl | rfl <;> exact nofun

theorem ret (hb : b.Typed strict heads) (v : ValueId) :
    Keeps (Bench.Step strict heads) (Emit.ret v) b (fun _ _ => True) := by
  have hop : Opcode.ret ≠ .label := by decide
  unfold Emit.ret
  refine bind' (get' (same hb)) ?_
  rintro _ _ - ⟨rfl, rfl⟩
  dsimp only
  refine ite' (fun _ => ite' (fun _ => fail_bind hb) fun hv => ?_) fun _ =>
    ite' (fun _ => fail_bind hb) fun hnovoid => ?_
  · exact push hb (.retNone fun _ => Classical.not_not.mp hv) hop
  · refine bind' (get' (same hb)) ?_
    rintro _ _ - ⟨rfl, rfl⟩
    obtain ⟨s, hsig, hret, hnostruct, -⟩ := hb.func.sig
    have hscalar : b.func.ret.isScalar = true := by simp [Rep.isScalar, hnovoid, hnostruct]
    have hsig' : b.types.signature? b.func.sig = some s := hsig
    rw [hsig']
    refine bind' (coerce hb v _) fun cv b₁ hs₁ hcv => ?_
    obtain ⟨r, ht, hr⟩ := hcv
    obtain rfl := ht.unique (hs₁.extended.hasRep hb.ordered hret)
    have htyped : Insn.Typed (b₁.scope heads) b₁.func { op := .ret, a := cv, rep := b₁.func.ret } :=
      .ret (hs₁.extended.func.header.ret ▸ hr) (hs₁.extended.func.header.ret ▸ hscalar)
    rw [hs₁.extended.func.header.ret] at htyped
    exact push hs₁.typed htyped hop

theorem defaultReturn (hb : b.Typed strict heads) :
    Keeps (Bench.Step strict heads) Emit.defaultReturn b (fun _ _ => True) := by
  unfold Emit.defaultReturn
  refine bind' (get' (same hb)) ?_
  rintro _ _ - ⟨rfl, rfl⟩
  refine ite' (fun _ => pure' (same hb) trivial) fun _ => ?_
  refine bind' (push hb (.retNone nofun) nofun) fun _ b₁ hs₁ _ => ?_
  exact pure' (same hs₁.typed) trivial

theorem coerceArgs (hb : b.Typed strict heads) (args : List ValueId) (params : List TypeId)
    (hl : args.length = params.length) :
    Keeps (Bench.Step strict heads) (Emit.coerceArgs args params) b
      (fun vs b' => List.Forall₂ (fun v p => Fits p v b') vs params) := by
  induction args generalizing b params with
  | nil =>
    cases params with
    | nil => exact pure' (same hb) .nil
    | cons p params => cases hl
  | cons a args ih =>
    cases params with
    | nil => cases hl
    | cons p params =>
      refine bind' (coerce hb a p) fun c b₁ hs₁ hc => ?_
      refine bind' (ih hs₁.typed params (Nat.succ.inj hl)) fun cs b₂ hs₂ hcs => ?_
      exact pure' (same hs₂.typed) (.cons (hc.grow hs₁.typed.ordered hs₂.extended) hcs)

theorem callArgs (hb : b.Typed strict heads) (s : Signature) (args : List ValueId) :
    Keeps (Bench.Step strict heads) (Emit.callArgs s args) b
      (fun vs b' => List.Forall₂ (fun v p => Fits p v b') vs s.params) := by
  unfold Emit.callArgs
  dsimp only
  refine ite' (fun _ => fail_bind hb) fun hl => ?_
  exact coerceArgs hb args s.params (Classical.not_not.mp hl)

theorem forall₂_rep {args : List ValueId} {params : List TypeId} {reps : List Rep}
    (hargs : List.Forall₂ (fun v p => Fits p v b) args params)
    (hreps : List.Forall₂ (fun p r => b.types.HasRep b.target p r) params reps) :
    List.Forall₂ (fun v r => b.func.rep? v = some r) args reps := by
  induction hargs generalizing reps with
  | nil =>
    cases hreps
    exact .nil
  | cons hv _ ih =>
    cases hreps with
    | cons hr hrest =>
      obtain ⟨r, ht, hv⟩ := hv
      exact .cons (ht.unique hr ▸ hv) (ih hrest)

theorem exists_reps {args : List ValueId} {params : List TypeId}
    (hargs : List.Forall₂ (fun v p => Fits p v b) args params) :
    ∃ reps : List Rep, List.Forall₂ (fun p r => b.types.HasRep b.target p r) params reps := by
  induction hargs with
  | nil => exact ⟨[], .nil⟩
  | cons hv _ ih =>
    obtain ⟨r, ht, -⟩ := hv
    obtain ⟨rs, hrs⟩ := ih
    exact ⟨r :: rs, .cons ht hrs⟩

theorem call (hb : b.Typed strict heads) {callee : FuncId} {sig : TypeId} {h : Head}
    (hh : heads callee = some h) (hsig : h.Of b.target b.types sig) (args : List ValueId) :
    Keeps (Bench.Step strict heads) (Emit.call callee sig h.ret args) b (fun _ _ => True) := by
  obtain ⟨s, hs, hret, hparams⟩ := hsig
  unfold Emit.call
  refine bind' (get' (same hb)) ?_
  rintro _ _ - ⟨rfl, rfl⟩
  rw [hs]
  refine bind' (callArgs hb s args) fun vs b₁ hs₁ hvs => ?_
  refine mono (compute hs₁.typed s.result (fun _ => nofun) fun dest b₂ hs₂ ⟨r, ht, hdest⟩ => ?_)
    fun _ _ _ _ => trivial
  have hext := hs₁.extended.trans hs₂.extended
  obtain rfl := ht.unique (hext.hasRep hb.ordered hret)
  have hreps : List.Forall₂ (fun p r => b₂.types.HasRep b₂.target p r) s.params h.params :=
    hparams.imp fun p r hr => hext.hasRep hb.ordered hr
  refine .call ⟨s, hext.types.signature? hs, ht, hreps⟩ hh hdest ?_
  exact forall₂_rep (hvs.imp fun v p hv => hv.grow hs₁.typed.ordered hs₂.extended) hreps

theorem callNative (hb : b.Typed strict heads) (native : String) (sig : TypeId)
    (args : List ValueId) :
    Keeps (Bench.Step strict heads) (Emit.callNative native sig args) b (fun _ _ => True) := by
  unfold Emit.callNative
  refine bind' (get' (same hb)) ?_
  rintro _ _ - ⟨rfl, rfl⟩
  split
  · refine bind' (typeText hb _) ?_
    rintro _ _ - rfl
    exact fail' hb
  · next s hs =>
    dsimp only
    refine ite' (fun _ => fail_bind hb) fun _ => ?_
    refine bind' (callArgs hb s args) fun vs b₁ hs₁ hvs => ?_
    refine bind' (repOf hs₁.typed s.result) ?_
    rintro rep b₂ hs₂ ⟨hrep, -⟩
    refine mono (compute hs₂.typed s.result (fun _ => nofun) fun dest b₃ hs₃ ⟨r, ht, hdest⟩ => ?_)
      fun _ _ _ _ => trivial
    obtain rfl := ht.unique (hs₃.extended.hasRep hs₂.typed.ordered hrep)
    have hext := (hs₁.extended.trans hs₂.extended).trans hs₃.extended
    have hargs : List.Forall₂ (fun v p => Fits p v b₃) vs s.params := hvs.imp fun v p hv =>
      (hv.grow hs₁.typed.ordered hs₂.extended).grow hs₂.typed.ordered hs₃.extended
    obtain ⟨reps, hreps⟩ := exists_reps hargs
    exact .callNative (h := ⟨reps, r⟩) ⟨s, hext.types.signature? hs, ht, hreps⟩ hdest
      (forall₂_rep hargs hreps)

theorem allFloat32 (hb : b.Typed strict heads) (args : List ValueId) :
    Keeps (Bench.Step strict heads) (Emit.allFloat32 args) b (fun _ b' => b = b') := by
  induction args with
  | nil => exact pure' (same hb) rfl
  | cons a args ih =>
    refine bind' (value hb a) ?_
    rintro va _ - ⟨rfl, -⟩
    refine bind' ih ?_
    rintro rest _ - rfl
    exact pure' (same hb) rfl

theorem coerceAll (hb : b.Typed strict heads) {type : TypeId} {r : Rep}
    (hr : b.types.HasRep b.target type r) (args : List ValueId) :
    Keeps (Bench.Step strict heads) (Emit.coerceAll type args) b
      (fun vs b' => vs.length = args.length ∧ ∀ v ∈ vs, b'.func.rep? v = some r) := by
  induction args generalizing b with
  | nil => exact pure' (same hb) ⟨rfl, nofun⟩
  | cons a args ih =>
    refine bind' (coerce hb a type) fun c b₁ hs₁ ⟨r', ht, hc⟩ => ?_
    have hr₁ := hs₁.extended.hasRep hb.ordered hr
    obtain rfl := ht.unique hr₁
    refine bind' (ih hs₁.typed hr₁) fun cs b₂ hs₂ ⟨hl, hcs⟩ => ?_
    refine pure' (same hs₂.typed) ⟨by simp [hl], fun v hv => ?_⟩
    rcases List.mem_cons.mp hv with rfl | hv
    · exact hs₂.extended.func.rep? hc
    · exact hcs v hv

theorem math (hb : b.Typed strict heads) {op : MathOp} (hop : MathOp.ofCode op.code = op)
    (args : List ValueId) : Keeps (Bench.Step strict heads) (Emit.math op args) b (fun _ _ => True) := by
  unfold Emit.math
  dsimp only
  refine ite' (fun _ => fail_bind hb) fun hl => ?_
  refine bind' (allFloat32 hb args) ?_
  rintro all _ - rfl
  have htype : ∃ r : Rep, r.cls = .float ∧ b.types.HasRep b.target
      (if all = true then Builtin.float32.id else Builtin.float64.id) r := by
    split
    · exact ⟨_, rfl, Builtin.hasRep hb.ordered .float32⟩
    · exact ⟨_, rfl, Builtin.hasRep hb.ordered .float64⟩
  generalize (if all = true then Builtin.float32.id else Builtin.float64.id) = type at htype ⊢
  obtain ⟨r, hcls, hr⟩ := htype
  refine bind' (coerceAll hb hr args) fun vs b₁ hs₁ ⟨hlen, hvs⟩ => ?_
  refine bind' (repOf hs₁.typed type) ?_
  rintro rep b₂ hs₂ ⟨hrep, -⟩
  have hext := hs₁.extended.trans hs₂.extended
  obtain rfl := hrep.unique (hext.hasRep hb.ordered hr)
  refine mono (compute hs₂.typed type (fun _ => nofun) fun dest b₃ hs₃ ⟨r', ht, hdest⟩ => ?_)
    fun _ _ _ _ => trivial
  obtain rfl := ht.unique (hs₃.extended.hasRep hs₂.typed.ordered hrep)
  refine .math hop hcls hdest (hlen.trans (Classical.not_not.mp hl)) fun v hv => ?_
  exact hs₃.extended.func.rep? (hs₂.extended.func.rep? (hvs v hv))

/-! ## Values and labels -/

theorem createLocal (hb : b.Typed strict heads) (type : TypeId) :
    Keeps (Bench.Step strict heads) (Emit.createLocal type) b (fun _ _ => True) := by
  unfold Emit.createLocal
  refine bind' (repOf hb type) ?_
  rintro rep b₁ hs₁ ⟨hrep, -⟩
  dsimp only
  refine ite' (fun _ => fail_bind hs₁.typed) fun _ => ?_
  exact mono (addValue hs₁.typed ⟨hrep, nofun, nofun⟩) fun _ _ _ _ => trivial

theorem constant (hb : b.Typed strict heads) (type : TypeId) (bits : Word) {want : Class}
    (hw : want = .int ∨ want = .float) :
    Keeps (Bench.Step strict heads) (Emit.constant type bits want) b (fun _ _ => True) := by
  unfold Emit.constant
  refine bind' (repOf hb type) ?_
  rintro rep b₁ hs₁ ⟨hrep, -⟩
  dsimp only
  refine ite' (fun _ => failText hs₁.typed _) fun hok => ?_
  refine mono (addValue hs₁.typed ⟨hrep, nofun, fun _ => ⟨?_, rep.canonical_normalize bits, rfl⟩⟩)
    fun _ _ _ _ => trivial
  rcases hw with rfl | rfl <;> cases hc : rep.cls <;>
    simp_all [Emit.constClassOk, Rep.isScalar]

theorem setAddressable (hb : b.Typed strict heads) (v : ValueId) :
    Keeps (Bench.Step strict heads) (Emit.setAddressable v) b (fun _ _ => True) := by
  unfold Emit.setAddressable
  refine bind' (value hb v) ?_
  rintro vi _ - ⟨rfl, hv⟩
  dsimp only
  refine ite' (fun _ => fail_bind hb) fun hc => ?_
  exact mono (markAddressable hb hv hc) fun _ _ _ _ => trivial

theorem newLabel (hb : b.Typed strict heads) :
    Keeps (Bench.Step strict heads) Emit.newLabel b (fun _ _ => True) := by
  unfold Emit.newLabel
  refine bind' (get' (same hb)) ?_
  rintro _ _ - ⟨rfl, rfl⟩
  obtain ⟨hext, htyped, -⟩ := hb.func.addLabel hb.ordered
  refine bind' (set' (refit hb hext htyped rfl)) fun _ b₁ hs₁ _ => ?_
  exact pure' (same hs₁.typed) trivial

end Emit.Keeps

end TypedIR
