import TypedIR.Proofs.CompiledFrames
import TypedIR.Proofs.ElementAccess
import TypedIR.Proofs.Promotion
import TypedIR.Proofs.RejectedCalls

/-
  Streams of instructions are well formed.

  Typing says of every instruction which values it names and which representations
  they have. It leaves one thing open: an operator on addresses may have any scalars
  as its operands. They are an address and an integer of the width of addresses
  (`Insn.Mixes`), because operands have the type of an address as their common type
  only if exactly one of them is an address (`Emit.joins_address`), and converting to
  an offset leaves addresses alone and makes such integers of everything else
  (`Emit.Keeps.offset`).

  Whatever an operation does, it changes no representation and appends no other
  operator on addresses (`Operation.mixed_perform`). With typing that gives all rules
  for streams, for every function of every engine that calls lead to, also when some
  of them failed (`Engine.Built.func_formed`).
-/

namespace TypedIR

/-! ## Operators on addresses -/

def Rep.IsNative (target : Target) (r : Rep) : Prop :=
  r = Builtin.nint.rep target ∨ r = Builtin.nuint.rep target

/-- One is the representation of addresses, the other that of integers of their width. -/
def Rep.Mix (target : Target) (ra rb : Rep) : Prop :=
  ra = target.pointerRep ∧ rb.IsNative target ∨ ra.IsNative target ∧ rb = target.pointerRep

/-- An operator on addresses works on an address and an integer of the width of
addresses. -/
def Insn.Mixes (target : Target) (f : Func) (i : Insn) : Prop :=
  i.op.isBinary = true → i.rep.cls = .pointer →
    ∃ ra rb, f.rep? i.a = some ra ∧ f.rep? i.b = some rb ∧ Rep.Mix target ra rb

/-- Values keep their representations, and new operators on addresses work on an address
and an integer. -/
structure Func.Blends (target : Target) (f f' : Func) : Prop where
  rep : ∀ {v r}, f.rep? v = some r → f'.rep? v = some r
  insns : ∀ i ∈ f'.insns, i ∈ f.insns ∨ i.Mixes target f'

variable {target : Target} {f f' : Func}

theorem Insn.Mixes.of_op {i : Insn} (h : i.op.isBinary = false) : i.Mixes target f :=
  fun hop => absurd (h.symm.trans hop) nofun

theorem Insn.Mixes.mono {i : Insn} (h : i.Mixes target f)
    (hrep : ∀ {v r}, f.rep? v = some r → f'.rep? v = some r) : i.Mixes target f' := by
  intro hop hcls
  obtain ⟨ra, rb, ha, hb, hmix⟩ := h hop hcls
  exact ⟨ra, rb, hrep ha, hrep hb, hmix⟩

theorem Func.Adds.blends {op : Opcode} (h : f.Adds op f') (hop : op.isBinary = false) :
    f.Blends target f' := by
  refine ⟨h.rep, fun i hi => (h.insns i hi).imp_right fun hnew => ?_⟩
  rcases hnew with hconvert | hsame
  · exact .of_op (by rw [hconvert]; rfl)
  · exact .of_op (by rw [hsame]; exact hop)

theorem Func.Converts.blends (h : f.Converts f') : f.Blends target f' :=
  (h.adds .label).blends rfl

/-! ## Where a common type is an address -/

/-- What promotion finds below the tags is an address exactly if the type has the
representation of addresses, which it then has below the tags. -/
theorem Tables.looks_rep {s : Tables} {type : TypeId} {n : Emit.Numeric} {r : Rep}
    (h : s.looks type = some n) (hr : s.types.HasRep s.target type r) :
    n.isAddress = true ↔ r.cls = .pointer := by
  obtain ⟨d, hd, hscalar, rfl⟩ := looks_some h
  obtain ⟨l, -, hr⟩ := hr
  unfold TypeTable.repOf at hr
  rw [hd] at hr
  dsimp only at hr
  unfold Emit.Numeric.isAddress
  unfold Descriptor.isScalar at hscalar
  cases hk : d.kind <;> rw [hk] at hr hscalar
  case int | uint | float =>
    cases hr
    exact ⟨nofun, nofun⟩
  case pointer | signature =>
    cases hr
    exact ⟨fun _ => rfl, fun _ => rfl⟩
  all_goals cases hscalar

theorem Builtin.hasRep_number {t : TypeTable} (ht : t.Ordered) {c : Builtin} {r : Rep}
    (hr : t.HasRep target c.id r) (hc : (c.rep target).cls ≠ .pointer) : r.cls ≠ .pointer := by
  rw [hr.unique (Builtin.hasRep ht c)]
  exact hc

namespace Emit

theorem commonInteger_cls {t : TypeTable} (ht : t.Ordered) {x y : Numeric} {r : Rep}
    (hr : t.HasRep target (commonInteger x y) r) : r.cls ≠ .pointer := by
  have pick : ∀ {c : Prop} [Decidable c] {u v : TypeId},
      (t.HasRep target u r → r.cls ≠ .pointer) → (t.HasRep target v r → r.cls ≠ .pointer) →
      t.HasRep target (if c then u else v) r → r.cls ≠ .pointer := by
    intro c _ u v hu hv
    split
    · exact hu
    · exact hv
  have number : ∀ c : Builtin, (c.rep target).cls ≠ .pointer →
      t.HasRep target c.id r → r.cls ≠ .pointer := fun c hc h => Builtin.hasRep_number ht h hc
  revert hr
  unfold commonInteger
  refine pick (pick (number .nuint nofun) (number .nint nofun)) ?_
  refine pick (pick (number .uint64 nofun) (number .int64 nofun)) ?_
  exact pick (number .uint32 nofun) (number .int32 nofun)

/-- Two operands have the type of an address as their common type only if exactly one of
them is an address. -/
theorem joins_address {s : Tables} {name : String} {op : Opcode} {x y c : TypeId} {rx ry r : Rep}
    (hs : s.types.Ordered) (h : joins s name op x y = .ok c)
    (hx : s.types.HasRep s.target x rx) (hy : s.types.HasRep s.target y ry)
    (hc : s.types.HasRep s.target c r) (hp : r.cls = .pointer) :
    Xor (rx.cls = .pointer) (ry.cls = .pointer) := by
  have number : ∀ b : Builtin, (b.rep s.target).cls ≠ .pointer → c ≠ b.id := by
    intro b hb he
    subst he
    exact Builtin.hasRep_number hs hc hb hp
  unfold joins at h
  split at h
  · next nx ny hnx hny =>
    have hax := Tables.looks_rep hnx hx
    have hay := Tables.looks_rep hny hy
    split at h
    · next c' hjoined =>
      obtain rfl := Except.ok.inj h
      rw [← hax, ← hay]
      unfold joined at hjoined
      split at hjoined
      · split at hjoined
        · exact absurd (Option.some.inj hjoined).symm (number .float64 nofun)
        · split at hjoined
          · cases hjoined
          · exact absurd (Option.some.inj hjoined).symm (number .float32 nofun)
      split at hjoined
      · next hleft =>
        simp only [Bool.and_eq_true, Bool.not_eq_true'] at hleft
        exact .inl ⟨hleft.1.1, by rw [hleft.1.2]; nofun⟩
      split at hjoined
      · next hright =>
        simp only [Bool.and_eq_true, Bool.not_eq_true'] at hright
        exact .inr ⟨hright.1.1, by rw [hright.1.2]; nofun⟩
      split at hjoined
      · exact absurd (Option.some.inj hjoined).symm (number .nint nofun)
      split at hjoined
      · exact absurd (Option.some.inj hjoined).symm (number .nuint nofun)
      · obtain rfl := Option.some.inj hjoined
        exact absurd hp (commonInteger_cls hs hc)
    · cases h
  · cases h

theorem promoted_cls {s : Tables} (hs : s.types.Ordered) {type t : TypeId} {n : Numeric} {r : Rep}
    (h : s.looks type = some n) (hn : n.promoted? = some t) (hr : s.types.HasRep s.target t r) :
    r.cls ≠ .pointer := by
  have hint : s.types.HasRep s.target Builtin.int32.id r → r.cls ≠ .pointer :=
    fun h => Builtin.hasRep_number hs h nofun
  obtain ⟨d, hd, -, rfl⟩ := Tables.looks_some h
  -- below the tags there is nothing to look below
  have hplain : s.types.underlying (s.types.underlying type) = s.types.underlying type :=
    TypeTable.underlying_of_not_tagged hd (hs.kind_underlying type hd)
  have hbelow : s.types.HasRep s.target (s.types.underlying type) r → r.cls = .pointer →
      d.kind = .pointer ∨ d.kind = .signature := by
    intro hr hp
    rw [hr.eq_pointerRep hp] at hr
    obtain ⟨d', hd', hkind⟩ := hr.address_kind
    rw [hplain] at hd'
    obtain rfl := Option.mem_unique hd hd'
    exact hkind
  intro hp
  unfold Numeric.promoted? at hn
  dsimp only at hn
  cases hk : d.kind <;> rw [hk] at hn hbelow <;> dsimp only at hn
  case int | uint =>
    split at hn <;> obtain rfl := Option.some.inj hn
    · exact hint hr hp
    · exact (hbelow hr hp).elim nofun nofun
  case float =>
    obtain rfl := Option.some.inj hn
    exact (hbelow hr hp).elim nofun nofun
  all_goals cases hn

end Emit

/-! ## The emitter of operators -/

variable {strict : Prop} {heads : FuncId → Option Head}

/-- What comes before the instruction of an emitter: a step that adds conversions only. -/
structure Bench.Prepares (strict : Prop) (heads : FuncId → Option Head) (b b' : Bench) : Prop where
  step : b.Step strict heads b'
  converts : b.Converts b'

instance : Trans (Bench.Prepares strict heads) (Bench.Prepares strict heads)
    (Bench.Prepares strict heads) where
  trans h h' := ⟨Trans.trans h.step h'.step, Trans.trans h.converts h'.converts⟩

/-- What the function on the bench has got are well-formed operators on addresses and
other instructions. -/
def Bench.Blends (b b' : Bench) : Prop := b.func.Blends b.target b'.func

namespace Emit

open TypedIR.Keeps

variable {α β : Type} {b : Bench}

namespace Keeps

theorem prepares {act : EmitM α} {post : α → Bench → Prop}
    (h : Keeps (Bench.Step strict heads) act b post) (hconv : Leaves Bench.Converts act) :
    Keeps (Bench.Prepares strict heads) act b post :=
  (h.and' (hconv.ends b)).mono (fun _ _ h => ⟨⟨h.1.1, h.2⟩, h.1.2⟩) fun _ _ h => ⟨h.1, h.2⟩

theorem looks (hb : b.Typed strict heads) (type : TypeId) :
    Keeps (Bench.Step strict heads) (Emit.numeric? type) b
      (fun n b' => n = b.tables.looks type ∧ b'.types = b.types) := by
  obtain ⟨b', hrun, -⟩ := run_numeric? type b
  have hstep := numeric hb type
  unfold Keeps Ends at hstep ⊢
  rw [hrun] at hstep ⊢
  exact ⟨hstep.1, rfl, hstep.2.1⟩

theorem promoteUnary_cls (hb : b.Typed strict heads) (type : TypeId) :
    Keeps (Bench.Step strict heads) (Emit.promoteUnary? type) b
      (fun t b' => ∀ x ∈ t, ∀ r, b'.types.HasRep b'.target x r → r.cls ≠ .pointer) := by
  unfold Emit.promoteUnary?
  refine bind' (looks hb type) fun n b₁ hs₁ hn => ?_
  obtain ⟨hn, htypes⟩ := hn
  cases n with
  | none => exact pure' (same hs₁.typed) nofun
  | some n =>
    refine pure' (same hs₁.typed) fun x hx r hr => ?_
    rw [htypes, hs₁.extended.target] at hr
    exact promoted_cls (s := b.tables) hb.ordered hn.symm hx hr

/-- The common type of two operands is that of an address only if exactly one of them is
an address. -/
theorem commonType_cls (hb : b.Typed strict heads) (op : Opcode) {x y : TypeId} {rx ry : Rep}
    (hx : b.types.HasRep b.target x rx) (hy : b.types.HasRep b.target y ry) :
    Keeps (Bench.Step strict heads) (Emit.commonType op x y) b
      (fun t b' => ∀ r, b'.types.HasRep b'.target t r → r.cls = .pointer →
        Xor (rx.cls = .pointer) (ry.cls = .pointer)) := by
  have hanswer := run_commonType op x y b
  have hconsults := consults_commonType op x y b
  have hstep := commonType hb op x y
  revert hanswer hconsults hstep
  unfold Keeps Ends
  generalize ((Emit.commonType op x y).run b : Except Failure TypeId × Bench) = run
  intro hanswer hconsults hstep
  obtain ⟨_ | t, b'⟩ := run
  · exact hstep
  · refine ⟨hstep.1, fun r hr hp => ?_⟩
    rw [hconsults.types, hconsults.target] at hr
    exact joins_address (s := b.tables) hb.ordered hanswer.symm hx hy hr hp

/-- An address is an offset already, and every other offset is made an integer of the
width of addresses. -/
theorem offset (hb : b.Typed strict heads) {v : ValueId} {r : Rep} (hv : b.func.rep? v = some r)
    (pointer : TypeId) : Keeps (Bench.Step strict heads) (Emit.coerceOffset v pointer) b
      (fun v' b' => ∃ r', b'.func.rep? v' = some r' ∧
        (r.cls = .pointer → r' = b.target.pointerRep) ∧
        (r.cls ≠ .pointer → r'.IsNative b.target)) := by
  obtain ⟨info, hinfo, rfl⟩ := Func.value?_of_rep? hv
  have hrep := (hb.func.value hinfo).rep
  unfold Emit.coerceOffset
  refine bind' (value hb v) fun info' b₀ _ h₀ => ?_
  obtain ⟨rfl, hinfo'⟩ := h₀
  obtain rfl := Option.mem_unique hinfo hinfo'
  refine bind' (looks hb info.type) fun n b₁ hs₁ hn => ?_
  obtain ⟨hn, -⟩ := hn
  cases n with
  | none =>
    refine bind' (typeText hs₁.typed _) fun _ b₂ _ h₂ => ?_
    subst h₂
    refine bind' (typeText hs₁.typed _) fun _ b₃ _ h₃ => ?_
    subst h₃
    exact fail' hs₁.typed
  | some n =>
    have haddress := Tables.looks_rep hn.symm hrep
    have hnative : ∀ c : Builtin, (c.rep b.target).IsNative b.target → n.isAddress ≠ true →
        Keeps (Bench.Step strict heads) (Emit.coerce v c.id) b₁
          (fun v' b' => ∃ r', b'.func.rep? v' = some r' ∧
            (info.rep.cls = .pointer → r' = b.target.pointerRep) ∧
            (info.rep.cls ≠ .pointer → r'.IsNative b.target)) := by
      intro c hc hno
      refine mono (coerce hs₁.typed v c.id) fun v' b₂ hs₂ hfits => ?_
      obtain ⟨r', hr', hv'⟩ := hfits
      have htarget := hs₂.extended.target.trans hs₁.extended.target
      obtain rfl := hr'.unique (Builtin.hasRep hs₂.typed.ordered c)
      rw [htarget] at hv'
      exact ⟨_, hv', fun hp => absurd (haddress.mpr hp) hno, fun _ => hc⟩
    refine ite' (fun hyes => ?_) fun hno => ?_
    · have hp := haddress.mp hyes
      refine pure' (same hs₁.typed) ⟨info.rep, hs₁.extended.func.rep? hv, ?_, fun hno => absurd hp hno⟩
      exact fun _ => hrep.eq_pointerRep hp
    · exact ite' (fun _ => hnative .nuint (.inr rfl) hno) fun _ => hnative .nint (.inl rfl) hno

theorem operand (hb : b.Typed strict heads) {v : ValueId} {r : Rep} (hv : b.func.rep? v = some r)
    (rep : Rep) (type : TypeId) :
    Keeps (Bench.Step strict heads)
      ((if rep.cls = .pointer then Emit.coerceOffset else Emit.coerce) v type) b
      (fun v' b' => rep.cls = .pointer → ∃ r', b'.func.rep? v' = some r' ∧
        (r.cls = .pointer → r' = b.target.pointerRep) ∧
        (r.cls ≠ .pointer → r'.IsNative b.target)) := by
  by_cases hp : rep.cls = .pointer
  · rw [if_pos hp]
    exact mono (offset hb hv type) fun _ _ _ h _ => h
  · rw [if_neg hp]
    exact mono (coerce hb v type) fun _ _ _ _ h => absurd h hp

theorem repOf_before (hb : b.Typed strict heads) (id : TypeId) :
    Keeps (Bench.Step strict heads) (Emit.repOf id) b (fun r _ => b.types.HasRep b.target id r) := by
  refine Ends.mono (Ends.and' (repOf hb id) ((consults_repOf id).ends b)) (fun r b' h => ?_)
    fun _ _ h => h.1
  have hrep := h.1.2.1
  rw [h.2.types, h.2.target] at hrep
  exact ⟨h.1.1, hrep⟩

end Keeps

theorem converts_operand (rep : Rep) (v : ValueId) (type : TypeId) : Leaves Bench.Converts
    ((if rep.cls = .pointer then coerceOffset else coerce) v type) := by
  split
  · exact converts_coerceOffset v type
  · exact converts_coerce v type

end Emit

theorem Bench.Prepares.bind {α β : Type} {b b₁ : Bench} (h : b.Prepares strict heads b₁)
    {act : EmitM α} {post : α → Bench → Prop} (hact : Keeps (Bench.Step strict heads) act b₁ post)
    (hconv : Leaves Bench.Converts act) {k : α → EmitM β} {ok : β → Bench → Prop}
    (hk : ∀ a b₂, b.Prepares strict heads b₂ → b₁.Prepares strict heads b₂ → post a b₂ →
      Ends (k a) b₂ ok fun _ b' => b.Converts b') :
    Ends (act >>= k) b₁ ok fun _ b' => b.Converts b' := by
  refine .bind' (Ends.mono (Emit.Keeps.prepares hact hconv) (fun _ _ h => h) fun _ b' h' => ?_) ?_
  · exact Trans.trans h.converts h'.converts
  · exact fun a b₂ h₂ => hk a b₂ (Trans.trans h h₂.1) h₂.1 h₂.2

theorem Bench.Prepares.failText {α β : Type} {b b₁ : Bench} (h : b.Prepares strict heads b₁)
    {cause : String → Cause} {x : TypeId} {k : α → EmitM β} {ok : β → Bench → Prop} :
    Ends (do let s ← Emit.typeText x; let a ← Emit.fail (cause s); k a) b₁ ok
      fun _ b' => b.Converts b' :=
  .bind_get (.bind_get (Ends.bind_throw (k := k) h.converts))

/-- An operator of two operands is appended behind conversions. If it works on addresses,
one of its operands is an address and the other an integer of the width of addresses. -/
theorem Emit.ends_binary_blends {b : Bench} (hb : b.Typed strict heads) (op : Opcode)
    (x y : ValueId) :
    Ends (Emit.binary op x y) b (fun _ b' => b.Blends b') fun _ b' => b.Converts b' := by
  have hrefl : b.Prepares strict heads b := ⟨⟨hb, .refl b⟩, Std.Refl.refl b⟩
  refine hrefl.bind (Keeps.value hb x) (converts_value x) fun vx b₀ _ _ h₀ => ?_
  obtain ⟨rfl, hvx⟩ := h₀
  refine hrefl.bind (Keeps.value hb y) (converts_value y) fun vy b₀ _ _ h₀ => ?_
  obtain ⟨rfl, hvy⟩ := h₀
  have hx := Func.rep?_of_value? hvx
  have hy := Func.rep?_of_value? hvy
  extract_lets k
  have hk : ∀ type b₁, b.Prepares strict heads b₁ →
      (∀ r, b₁.types.HasRep b₁.target type r → r.cls = .pointer →
        Xor (vx.rep.cls = .pointer) (vy.rep.cls = .pointer)) →
      Ends (k type) b₁ (fun _ b' => b.Blends b') fun _ b' => b.Converts b' := by
    intro type b₁ h₁ hone
    refine h₁.bind (Keeps.repOf_before h₁.step.typed type) (converts_repOf type)
      fun rep b₂ h₂ _ hrep => ?_
    refine .ite' (fun _ => h₂.failText) fun _ => ?_
    have hx₂ := h₂.step.extended.func.rep? hx
    refine h₂.bind (Keeps.operand h₂.step.typed hx₂ rep type) (converts_operand rep x type)
      fun cx b₃ h₃ hs₃ hcx => ?_
    have hy₃ := h₃.step.extended.func.rep? hy
    refine h₃.bind (Keeps.operand h₃.step.typed hy₃ rep type) (converts_operand rep y type)
      fun cy b₄ h₄ hs₄ hcy => ?_
    refine (ends_compute type (fun dest => { op, dest, a := cx, b := cy, rep }) b₄).mono
      (fun dest b₅ h₅ => ?_) fun _ b₅ h₅ => Trans.trans h₄.converts h₅
    obtain ⟨info, h₅⟩ := h₅
    have hvalue : b₄.func.Adds op (b₄.func.addValue info).2 := Func.adds_value _ info
    have hkeeps : ∀ {v r}, b₄.func.rep? v = some r → b₅.func.rep? v = some r := fun hr => by
      rw [h₅]
      exact hvalue.rep hr
    have hconverts : b.func.Blends b.target b₄.func := Func.Converts.blends h₄.converts
    refine ⟨fun hr => hkeeps (hconverts.rep hr), fun i hi => ?_⟩
    rw [h₅] at hi
    rcases Array.mem_push.mp hi with hi | rfl
    · exact (hconverts.insns i hi).imp_right fun hmix => hmix.mono hkeeps
    · refine .inr fun _ hp => ?_
      obtain ⟨ra, ha, haddress, hnative⟩ := hcx hp
      obtain ⟨rb, hb', haddress', hnative'⟩ := hcy hp
      rw [h₂.step.extended.target] at haddress hnative
      rw [h₃.step.extended.target] at haddress' hnative'
      refine ⟨ra, rb, hkeeps (hs₄.step.extended.func.rep? ha), hkeeps hb', ?_⟩
      rcases hone rep hrep hp with ⟨hpx, hpy⟩ | ⟨hpy, hpx⟩
      · exact .inl ⟨haddress hpx, hnative' hpy⟩
      · exact .inr ⟨hnative hpx, haddress' hpy⟩
  clear_value k
  refine .ite' (fun _ => ?_) fun _ => ?_
  · refine hrefl.bind (Keeps.promoteUnary_cls hb _) (converts_promoteUnary? _) fun t b₁ h₁ _ ht => ?_
    cases t with
    | none => exact h₁.failText
    | some t => exact hk t b₁ h₁ fun r hr hp => absurd hp (ht t rfl r hr)
  · refine hrefl.bind (Keeps.commonType_cls hb op (hb.func.value hvx).rep (hb.func.value hvy).rep)
      (converts_commonType op _ _) fun t b₁ h₁ _ ht => hk t b₁ h₁ ht

/-! ## Engines -/

namespace Engine

/-- Every operator on addresses of every function works on an address and an integer of
the width of addresses. -/
def Mixed (target : Target) (e : Engine) : Prop :=
  ∀ fn f, e.func? fn = some f → ∀ i ∈ f.insns, i.Mixes target f

variable {e e' : Engine} {g : FuncId}

theorem Mixed.blends (h : e.Mixed target) (hf : e.func? g = some f) (hb : f.Blends target f') :
    ∀ i ∈ f'.insns, i.Mixes target f' := fun i hi =>
  (hb.insns i hi).elim (fun hold => (h g f hf i hold).mono hb.rep) fun hnew => hnew

theorem Mixed.altered (h : e.Mixed target) (ht : e.Touches g e')
    (ha : e.Alters g (Func.Blends target) e') : e'.Mixed target := by
  intro fn f' hf'
  by_cases hfn : fn = g
  · subst hfn
    have hhome := ht.homes.home fn
    rw [hf', Option.map_some] at hhome
    obtain ⟨f, hf, -⟩ := Option.map_eq_some_iff.mp hhome.symm
    obtain ⟨f₁, hf₁, hb⟩ := ha f hf
    obtain rfl := Option.mem_unique hf' hf₁
    exact h.blends hf hb
  · exact h fn f' ((ht.others fn hfn).symm.trans hf')

theorem Mixed.same (h : e.Mixed target) (hs : e.SameCode e') : e'.Mixed target :=
  fun fn f hf => h fn f ((hs.func? fn).symm.trans hf)

theorem Mixed.pushed (h : e.Mixed target) (hpush : e'.funcs = e.funcs.push f)
    (hnew : f.insns = #[]) : e'.Mixed target := by
  intro fn f' hf'
  rw [func?_push hpush] at hf'
  split at hf'
  · obtain rfl := Option.some.inj hf'
    intro i hi
    rw [hnew] at hi
    exact absurd hi (Array.not_mem_empty i)
  · exact h fn f' hf'

theorem Mixed.destroyed (h : e.Mixed target) {ctx : ContextId} {c : ContextState}
    (hd : e.Destroys ctx c e') : e'.Mixed target := by
  intro fn f' hf'
  rw [func?_destroy c.funcs hd.funcs] at hf'
  obtain ⟨f, hf, rfl⟩ := Option.map_eq_some_iff.mp hf'
  exact h fn f hf

end Engine

namespace EngineM

open Engine

variable {e : Engine}

theorem alters_compile (he : e.Typed strict) (fn : FuncId) :
    e.Alters fn (Func.Blends target) ((compile fn).run e : Except Failure Unit × Engine).2 := by
  have hsame : ∀ e' : Engine, e.SameCode e' → e.Alters fn (Func.Blends target) e' := by
    intro e' hsame f hf
    exact ⟨f, (hsame.func? fn).trans hf, (Func.Converts.refl f).blends⟩
  refine Ends.state ((ends_compile fn e).mono ?_ ?_)
  · rintro _ _ ⟨f, hf, ⟨-, rfl⟩ | ⟨-, -, notes, rfl⟩⟩
    · exact hsame _ (Std.Refl.refl _)
    · intro f₁ hf₁
      obtain rfl := Option.some.inj ((findFunc_ok hf).1.symm.trans hf₁)
      exact ⟨_, (func?_set hf₁ fn _ rfl).trans (if_pos rfl), (e.framed_framed f).old.rep?,
        fun _ hi => .inl hi⟩
  · rintro _ _ ⟨⟨notes, rfl⟩, -⟩
    exact hsame _ rfl

theorem alters_addressOf (g : FuncId) (v : ValueId) :
    e.Alters g (Func.Blends target) ((addressOf g v).run e : Except Failure ValueId × Engine).2 := by
  refine Ends.state (ends_emitInto (fun _ f hf => ⟨f, hf, (Func.Converts.refl f).blends⟩)
    fun f hf => ?_)
  refine (Emit.ends_addressOf_tidy v _).mono (fun _ b hb => ?_) fun _ b hb => ?_
  · exact alters_put hf (hb.blends rfl)
  · rcases hb with hb | ⟨hb, -⟩
    · exact alters_put hf (Func.Converts.blends hb)
    · have hadds : f.Adds .addressOf b.func := by
        rw [hb]
        exact f.adds_mark v
      exact alters_put hf (hadds.blends rfl)

theorem alters_binary (he : e.Typed strict) (g : FuncId) (op : Opcode) (x y : ValueId) :
    e.Alters g (Func.Blends e.target)
      ((binary g op x y).run e : Except Failure ValueId × Engine).2 := by
  have hrefl : e.Alters g (Func.Blends e.target) e :=
    fun f hf => ⟨f, hf, (Func.Converts.refl f).blends⟩
  refine Ends.state (.ite' (fun _ => .bind_throw hrefl) fun _ => ?_)
  refine ends_emitInto (fun _ => hrefl) fun f hf => ?_
  have htyped : f.Typed ⟨e.target, e.types, e.heads⟩ := he.func (findOpen_ok hf).1
  have hb : Bench.Typed strict e.heads
      { target := e.target, types := e.types, layouts := e.layouts, func := f } :=
    ⟨he.ordered, he.honest, htyped⟩
  refine (Emit.ends_binary_blends hb op x y).mono (fun _ b hb => alters_put hf hb) fun _ b hb => ?_
  exact alters_put hf (Func.Converts.blends hb)

end EngineM

namespace Operation

open Engine EngineM

variable {e : Engine} {op : Operation} {g : FuncId}

theorem alters_performed (he : e.Typed strict) (hw : op.writes? = some g) :
    e.Alters g (Func.Blends e.target) (e.performed op) := by
  unfold performed
  by_cases haddr : ∃ v, op = .addressOf g v
  · obtain ⟨v, rfl⟩ := haddr
    cases hw
    exact run_discard (EngineM.addressOf g v) e ▸ alters_addressOf g v
  by_cases hbinary : ∃ code a b, op = .binary g code a b
  · obtain ⟨code, a, b, rfl⟩ := hbinary
    cases hw
    exact run_discard (EngineM.binary g (.ofCode code) a b) e ▸ alters_binary he g (.ofCode code) a b
  obtain ⟨o, ho, htidy⟩ := tidy_perform hw fun v hv => haddr ⟨v, hv⟩
  have hop : o.isBinary = false := Bool.eq_false_iff.mpr fun h => hbinary (ho h)
  have blends : ∀ {rel : Func → Func → Prop} {e' : Engine},
      (∀ {f f'}, rel f f' → f.Blends e.target f') → e.Alters g rel e' →
        e.Alters g (Func.Blends e.target) e' := by
    intro rel e' himp h f hf
    obtain ⟨f', hf', hrel⟩ := h f hf
    exact ⟨f', hf', himp hrel⟩
  exact Ends.state ((htidy e).mono (fun _ _ h => blends (fun hadds => hadds.blends hop) h)
    fun _ _ h => blends (fun hconv => hconv.blends) h)

/-- An operation that builds into no function, destroys no context and makes and
compiles no function leaves the functions alone. -/
theorem sameCode_perform (hnone : op.target? = none) (hdestroy : ∀ ctx, op ≠ .destroyContext ctx)
    (hcreate : ∀ ctx sig name, op ≠ .createFunction ctx sig name) :
    Leaves SameCode op.perform :=
  quiet_perform hnone sameCode_createContext sameCode_buildStart sameCode_buildEnd
    (fun ctx h => absurd h (hdestroy ctx)) fun ctx sig name h => absurd h (hcreate ctx sig name)

/-- One operation keeps operators on addresses well-formed, also when it fails. -/
theorem mixed_performed (he : e.Typed strict) (h : e.Mixed e.target) (op : Operation) :
    (e.performed op).Mixed e.target := by
  by_cases hw : ∃ g, op.target? = some g
  · obtain ⟨g, hw⟩ := hw
    refine h.altered (touches_perform hw e) ?_
    by_cases hcompile : op = .compile g
    · subst hcompile
      exact alters_compile he g
    · refine alters_performed he ?_
      cases op with
      | compile fn => exact absurd (congrArg _ (Option.some.inj hw)) hcompile
      | _ => exact hw
  have hnone : op.target? = none := Option.eq_none_iff_forall_ne_some.mpr fun g hg => hw ⟨g, hg⟩
  by_cases hdestroy : ∃ ctx, op = .destroyContext ctx
  · obtain ⟨ctx, rfl⟩ := hdestroy
    refine Ends.state ((ends_destroyContext ctx e).mono (fun _ e' hd => ?_) fun _ e' hd => ?_)
    · obtain ⟨c, hd⟩ := hd
      exact h.destroyed hd
    · exact hd ▸ h
  by_cases hcreate : ∃ ctx sig name, op = .createFunction ctx sig name
  · obtain ⟨ctx, sig, name, rfl⟩ := hcreate
    unfold performed
    refine run_discard (EngineM.createFunction ctx sig name) e ▸ Ends.state
      ((ends_createFunction ctx sig name e).mono (fun _ e' hf => ?_) fun _ e' hf => h.same hf)
    obtain ⟨-, -, f, hpush, hfresh⟩ := hf
    exact h.pushed hpush hfresh.insns
  · refine h.same (sameCode_perform hnone (fun ctx hc => hdestroy ⟨ctx, hc⟩) ?_ e)
    exact fun ctx sig name hc => hcreate ⟨ctx, sig, name, hc⟩

end Operation

namespace Engine

variable {e : Engine}

theorem mixed_after (he : e.Typed False) (h : e.Mixed e.target) (ops : List Operation) :
    (e.after ops).Mixed e.target := by
  induction ops generalizing e with
  | nil => exact h
  | cons op ops ih =>
    have hstep : Step False e (e.performed op) := step_performed he op nofun
    have htarget : (e.performed op).target = e.target := hstep.scope.target
    have hmixed := ih hstep.typed (htarget ▸ Operation.mixed_performed he h op)
    rw [htarget] at hmixed
    exact hmixed

theorem Built.mixed (h : e.Built target) : e.Mixed e.target := by
  obtain ⟨maxSteps, maxDepth, rng, clock, ops, rfl⟩ := h
  have htyped : (create target maxSteps maxDepth rng clock).Typed False :=
    typed_create target maxSteps maxDepth rng clock
  have htarget : ((create target maxSteps maxDepth rng clock).after ops).target =
      (create target maxSteps maxDepth rng clock).target := (step_after htyped ops nofun).scope.target
  rw [htarget]
  refine mixed_after htyped (fun fn f hf => ?_) ops
  have hlt := (func?_lt hf).2.2
  exact absurd hlt (Nat.not_lt_zero _)

end Engine

/-! ## What typing says of each opcode -/

namespace Insn.Typed

variable {sc : Scope} {i : Insn}

theorem binary_rep (h : i.Typed sc f) (hop : i.op.isBinary = true) :
    f.rep? i.dest = some i.rep ∧
      (i.rep.cls ≠ .pointer → f.rep? i.a = some i.rep ∧ f.rep? i.b = some i.rep) := by
  cases h with
  | binary _ hd ha hb hsame =>
    refine ⟨hd, fun hp => ?_⟩
    obtain ⟨rfl, rfl⟩ := hsame hp
    exact ⟨ha, hb⟩
  | compare hc => exact absurd ((Opcode.isCompare_of_isBinary hop).symm.trans hc) nofun
  | unary hu | test hu | branchOn hu => rcases hu with rfl | rfl <;> cases hop
  | _ => cases hop

theorem compare_rep (h : i.Typed sc f) (hop : i.op.isCompare = true) :
    f.rep? i.dest = some .bool ∧ f.rep? i.a = some i.rep ∧ f.rep? i.b = some i.rep := by
  cases h with
  | compare _ hd ha hb => exact ⟨hd, ha, hb⟩
  | binary hb => exact absurd ((Opcode.isCompare_of_isBinary hb).symm.trans hop) nofun
  | unary hu | test hu | branchOn hu => rcases hu with rfl | rfl <;> cases hop
  | _ => cases hop

theorem convert_rep (h : i.Typed sc f) (hop : i.op = .convert) : f.rep? i.a = some i.rep := by
  cases h <;> cases hop <;> first | assumption | contradiction

theorem copy_rep (h : i.Typed sc f) (hop : i.op = .copy) :
    f.rep? i.dest = some i.rep ∧ f.rep? i.a = some i.rep := by
  cases h with
  | copy hd ha => exact ⟨hd, ha⟩
  | _ => cases hop <;> contradiction

theorem ret_rep (h : i.Typed sc f) (hop : i.op = .ret) (h0 : i.a ≠ 0) :
    f.rep? i.a = some f.ret := by
  cases h with
  | ret ha => exact ha
  | retNone => exact absurd rfl h0
  | _ => cases hop <;> contradiction

theorem call_reps (h : i.Typed sc f) (hop : i.op = .call) : ∃ hd, sc.heads i.callee = some hd ∧
    List.Forall₂ (fun v r => f.rep? v = some r) i.args hd.params := by
  cases h with
  | call _ hh _ hargs => exact ⟨_, hh, hargs⟩
  | _ => cases hop <;> contradiction

theorem callNative_reps (h : i.Typed sc f) (hop : i.op = .callNative) :
    ∃ hd : Head, hd.Of sc.target sc.types i.type ∧
      List.Forall₂ (fun v r => f.rep? v = some r) i.args hd.params := by
  cases h with
  | callNative ht _ hargs => exact ⟨_, ht, hargs⟩
  | _ => cases hop <;> contradiction

end Insn.Typed

/-! ## Streams -/

/-- The rules for an instruction of a function. -/
structure Insn.Formed (e : Engine) (f : Func) (i : Insn) : Prop where
  /-- What the instruction reads and sets are values of the function. -/
  operands : ∀ v ∈ i.operands, v ≠ 0 ∧ ∃ info, f.value? v = some info
  binary : i.op.isBinary = true → f.rep? i.dest = some i.rep ∧
    (f.rep? i.a = some i.rep ∧ f.rep? i.b = some i.rep ∨
      i.rep.cls = .pointer ∧ ∃ r, r.IsNative e.target ∧
        (f.rep? i.a = some i.rep ∧ f.rep? i.b = some r ∨
          f.rep? i.a = some r ∧ f.rep? i.b = some i.rep))
  compare : i.op.isCompare = true →
    f.rep? i.dest = some .bool ∧ f.rep? i.a = some i.rep ∧ f.rep? i.b = some i.rep
  convert : i.op = .convert → f.rep? i.a = some i.rep
  copy : i.op = .copy → f.rep? i.dest = some i.rep ∧ f.rep? i.a = some i.rep
  /-- A return without an operand names the value 0. -/
  ret : i.op = .ret → i.a ≠ 0 → f.rep? i.a = some f.ret
  call : i.op = .call → ∃ g, e.func? i.callee = some g ∧ i.args.map f.rep? = g.params.map g.rep?
  callNative : i.op = .callNative → ∃ s, e.types.signature? i.type = some s ∧
    List.Forall₂ (fun v t => ∃ r, f.rep? v = some r ∧ e.types.HasRep e.target t r) i.args s.params

/-- The rules for the stream of instructions of a function. -/
structure Func.Formed (e : Engine) (f : Func) : Prop where
  insns : ∀ i ∈ f.insns, i.Formed e f
  /-- A label is at a position exactly if the instruction there is its label. -/
  placed : ∀ (l : LabelId) (p : Nat), f.label? l = some (p : Int) ↔
    ∃ i, f.insns[p]? = some i ∧ i.op = .label ∧ i.label = l
  once : ∀ (p q : Nat) (i j : Insn), f.insns[p]? = some i → f.insns[q]? = some j →
    i.op = .label → j.op = .label → i.label = j.label → p = q
  consts : ∀ v info, f.value? v = some info → info.origin = .const →
    info.rep.Canonical info.bits ∧ info.addressable = false

theorem map_some_filterMap {α β : Type} {k : α → Option β} {xs : List α}
    (h : ∀ x ∈ xs, ∃ y, k x = some y) : (xs.filterMap k).map some = xs.map k := by
  induction xs with
  | nil => rfl
  | cons x xs ih =>
    obtain ⟨y, hy⟩ := h x List.mem_cons_self
    rw [List.filterMap_cons_some hy, List.map_cons, List.map_cons, hy,
      ih fun x' hx' => h x' (List.mem_cons_of_mem x hx')]

theorem map_eq_of_forall₂ {α β : Type} {k : α → Option β} {xs : List α} {ys : List β}
    (h : List.Forall₂ (fun x y => k x = some y) xs ys) : xs.map k = ys.map some := by
  induction h with
  | nil => rfl
  | cons hxy _ ih => rw [List.map_cons, List.map_cons, hxy, ih]

/-- An instruction that is typed, and is on an address and an integer if it is an operator
on addresses, is well-formed. -/
theorem Insn.Typed.formed {e : Engine} (he : e.Typed strict) {i : Insn} (h : i.Typed e.scope f)
    (hmix : i.Mixes e.target f) (hf : f.Typed e.scope) : i.Formed e f := by
  refine ⟨fun v hv => ?_, fun hop => ?_, h.compare_rep, h.convert_rep, h.copy_rep, h.ret_rep,
    fun hop => ?_, fun hop => ?_⟩
  · obtain ⟨r, hr⟩ := h.operands v hv
    obtain ⟨info, hinfo, -⟩ := Func.value?_of_rep? hr
    exact ⟨Nat.ne_of_gt (Func.value?_lt hinfo).1, info, hinfo⟩
  · obtain ⟨hd, hsame⟩ := h.binary_rep hop
    refine ⟨hd, ?_⟩
    by_cases hp : i.rep.cls = .pointer
    · obtain ⟨info, hinfo, hrep⟩ := Func.value?_of_rep? hd
      have haddress : i.rep = e.target.pointerRep :=
        (hrep ▸ (hf.value hinfo).rep).eq_pointerRep hp
      obtain ⟨ra, rb, ha, hb, ⟨rfl, hnative⟩ | ⟨hnative, rfl⟩⟩ := hmix hop hp
      · exact .inr ⟨hp, rb, hnative, .inl ⟨haddress ▸ ha, hb⟩⟩
      · exact .inr ⟨hp, ra, hnative, .inr ⟨ha, haddress ▸ hb⟩⟩
    · exact .inl (hsame hp)
  · obtain ⟨hd, hhead, hargs⟩ := h.call_reps hop
    obtain ⟨g, hg, rfl⟩ := Option.map_eq_some_iff.mp hhead
    refine ⟨g, hg, (map_eq_of_forall₂ hargs).trans (map_some_filterMap fun p hp => ?_)⟩
    obtain ⟨info, hinfo, -⟩ := (he.func hg).param hp
    exact ⟨_, Func.rep?_of_value? hinfo⟩
  · obtain ⟨hd, ⟨s, hs, -, hparams⟩, hargs⟩ := h.callNative_reps hop
    refine ⟨s, hs, List.forall₂_iff_get.mpr ⟨hargs.length_eq.trans hparams.length_eq.symm, ?_⟩⟩
    intro k hk hk'
    have hlen : k < hd.params.length := hargs.length_eq ▸ hk
    exact ⟨_, (List.forall₂_iff_get.mp hargs).2 k hk hlen,
      (List.forall₂_iff_get.mp hparams).2 k hk' hlen⟩

/-- Whatever calls are made of an engine, and whether or not they succeed, the streams of
its functions are well-formed. -/
theorem Engine.Built.func_formed {e : Engine} (h : e.Built target) {fn : FuncId}
    (hf : e.func? fn = some f) : f.Formed e := by
  have htyped : f.Typed e.scope := h.typed.func hf
  have hplaced : ∀ {p : Nat} {i : Insn}, f.insns[p]? = some i → i.op = .label →
      f.label? i.label = some (p : Int) := htyped.placed
  refine ⟨fun i hi => ?_, fun l p => ⟨fun hl => ?_, ?_⟩, ?_, fun v info hv hc => ?_⟩
  · exact (htyped.insn i hi).formed h.typed (h.mixed fn f hf i hi) htyped
  · have hlabel := htyped.label hl (Int.natCast_nonneg p)
    rw [Int.toNat_natCast] at hlabel
    exact ⟨_, hlabel, rfl, rfl⟩
  · rintro ⟨i, hi, hop, rfl⟩
    exact hplaced hi hop
  · intro p q i j hi hj hop hop' hsame
    have hp := hplaced hi hop
    rw [hsame, hplaced hj hop'] at hp
    exact (Int.ofNat.inj (Option.some.inj hp)).symm
  · obtain ⟨-, hcanonical, hregister⟩ := (htyped.value hv).const hc
    exact ⟨hcanonical, hregister⟩

/-- The engine with a function that adds an integer to an address and returns the sum. -/
def addressPlus : Engine :=
  (Engine.create .amd64 0 0 (.seeded 1) 0).after
    [.createContext, .buildStart 1,
      .signatureType 0 Builtin.voidPtr.id [Builtin.voidPtr.id, Builtin.int32.id],
      .createFunction 1 18 "at", .binary 1 Opcode.add.code 1 2, .newLabel 1, .placeLabel 1 1,
      .ret 1 4]

theorem addressPlus_formed : ∃ f, addressPlus.func? 1 = some f ∧ f.Formed addressPlus ∧
    f.insns.toList.map (·.op) = [.convert, .add, .label, .ret] := by
  have hbuilt : addressPlus.Built .amd64 := ⟨_, _, _, _, _, rfl⟩
  have hops : (addressPlus.func? 1).map (·.insns.toList.map (·.op)) =
      some [.convert, .add, .label, .ret] := by decide +kernel
  obtain ⟨f, hf, hinsns⟩ := Option.map_eq_some_iff.mp hops
  exact ⟨f, hf, hbuilt.func_formed hf, hinsns⟩

end TypedIR
