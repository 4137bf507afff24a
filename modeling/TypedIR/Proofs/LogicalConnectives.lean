import TypedIR.Build.Value
import TypedIR.Proofs.FrameEmitting
import TypedIR.Proofs.HostedBuilds
import TypedIR.Proofs.Promotion

/-
  Comparisons and logical connectives.

  Both operands of a comparison are brought to one type, the wider of the two after
  promotion, and to the one without a sign where they are as wide. Where that type has a
  sign, or no operand is negative, it holds both numbers and the comparison is that of the
  numbers. Where it has none, a negative operand counts modulo the width. An engine that
  was built always makes the code, and the code leaves that truth value in every frame
  that it runs in.

  The operands of a connective are brought to truth values, combined bit by bit, and the
  result is tested once more. Only what is not of a bool type yet is tested, so a
  connective says what the operands say where those of a bool type hold 0 or 1
  (`Workspace.Opens.connects`); the disjunction and the negation do so anyway.

  A bool type is a signed byte and can hold any of them, so two operands that are true can
  have a conjunction that is not (`two_and_one_is_false`).
-/

namespace TypedIR

namespace Rep

variable {r a b : Rep} {x y : Int}

/-! ## The type both are brought to -/

theorem IsInteger.holds_promoted (h : r.IsInteger) (hx : r.Holds x) : r.promoted.Holds x := by
  unfold Rep.promoted
  split
  · next hsmall =>
    obtain ⟨hc, hs⟩ := h
    have hsize : r.size = 1 ∨ r.size = 2 := by omega
    unfold Holds least greatest width at hx ⊢
    rcases hc with hc | hc <;> rcases hsize with hs | hs <;> rw [hc, hs] at hx <;>
      simp at hx ⊢ <;> omega
  · exact hx

/-- A number fits a representation that is as wide, unless it would need a sign that is
not there or a bit that is taken by one. -/
theorem holds_widen {p c : Rep} (hp : p.size = 4 ∨ p.size = 8) (hc : c.size = 4 ∨ c.size = 8)
    (hsize : p.size ≤ c.size) (hsign : c.cls = .int ∧ (p.cls = .int ∨ p.size < c.size) ∨
      c.cls ≠ .int ∧ 0 ≤ x) (hx : p.Holds x) : c.Holds x := by
  unfold Holds least greatest width at hx ⊢
  rcases hsign with ⟨hi, hsign⟩ | ⟨hu, hpos⟩
  · rw [if_pos hi, if_pos hi]
    by_cases hpi : p.cls = .int
    · rw [if_pos hpi, if_pos hpi] at hx
      rcases hp with hp | hp <;> rcases hc with hc | hc <;> rw [hp] at hx hsize <;>
        rw [hc] at hsize ⊢ <;> simp at hx hsize ⊢ <;> omega
    · have hlt := hsign.resolve_left hpi
      rw [if_neg hpi, if_neg hpi] at hx
      obtain ⟨hp, hc⟩ : p.size = 4 ∧ c.size = 8 := by omega
      rw [hp] at hx
      rw [hc]
      simp at hx ⊢
      omega
  · rw [if_neg hu, if_neg hu]
    have hgreatest : x ≤ 2 ^ (8 * p.size.toNat) - 1 := by
      refine le_trans hx.2 ?_
      split <;> rcases hp with hp | hp <;> rw [hp] <;> decide
    refine ⟨hpos, le_trans hgreatest ?_⟩
    rcases hp with hp | hp <;> rcases hc with hc | hc <;> rw [hp] at hsize ⊢ <;>
      rw [hc] at hsize ⊢ <;> simp at hsize ⊢

theorem IsInteger.common_comm (ha : a.IsInteger) (hb : b.IsInteger) : a.common b = b.common a := by
  have hca := ha.promoted.1
  have hcb := hb.promoted.1
  unfold Rep.common
  generalize a.promoted = p at hca ⊢
  generalize b.promoted = q at hcb ⊢
  obtain ⟨cp, sp⟩ := p
  obtain ⟨cq, sq⟩ := q
  dsimp only at hca hcb ⊢
  rcases lt_trichotomy sp sq with hlt | rfl | hlt
  · rw [if_neg (by omega), if_pos hlt, if_pos hlt]
  · rcases hca with rfl | rfl <;> rcases hcb with rfl | rfl <;> simp
  · rw [if_pos hlt, if_neg (by omega), if_pos hlt]

/-- The common representation holds what the left operand holds, if it has a sign or
the number needs none. -/
theorem IsInteger.holds_common_left (ha : a.IsInteger) (hb : b.IsInteger) (hx : a.Holds x)
    (hsign : (a.common b).cls = .int ∨ 0 ≤ x) : (a.common b).Holds x := by
  have hp := ha.holds_promoted hx
  have hsize := (ha.common hb).2
  have hwider : a.promoted.size ≤ (a.common b).size ∧
      ((a.common b).cls = .int → a.promoted.cls = .int ∨ a.promoted.size < (a.common b).size) := by
    unfold Rep.common
    split
    · exact ⟨le_rfl, .inl⟩
    · split
      · next h => exact ⟨le_of_lt h, fun _ => .inr h⟩
      · split
        · exact ⟨le_rfl, .inl⟩
        · next h₁ h₂ hu =>
          exact ⟨by omega, fun _ => .inl (ha.promoted.1.resolve_right hu)⟩
  have hpsize := ha.promoted_size
  refine holds_widen hpsize (by omega) hwider.1 ?_ hp
  by_cases hi : (a.common b).cls = .int
  · exact .inl ⟨hi, hwider.2 hi⟩
  · exact .inr ⟨hi, hsign.resolve_left hi⟩

/-! ## What a comparison says -/

/-- A comparison of a number of `a` with one of `b`: that of the numbers, if their
common representation has a sign or none of them needs one, and otherwise that of what
they are modulo its width. -/
def compares (a b : Rep) (op : Opcode) (x y : Int) : Bool :=
  if (a.common b).cls = .int ∨ 0 ≤ x ∧ 0 ≤ y then op.relates x y
  else op.relates (x % 2 ^ (a.common b).width) (y % 2 ^ (a.common b).width)

theorem IsInteger.relates_wrap (ha : a.IsInteger) (hb : b.IsInteger) (hx : a.Holds x)
    (hy : b.Holds y) (op : Opcode) :
    op.relates ((a.common b).wrap x) ((a.common b).wrap y) = a.compares b op x y := by
  have hc := ha.common hb
  unfold compares
  split
  · next h =>
    have hx' : (a.common b).Holds x := ha.holds_common_left hb hx (h.imp_right And.left)
    have hy' : (a.common b).Holds y := by
      rw [ha.common_comm hb] at h ⊢
      exact hb.holds_common_left ha hy (h.imp_right And.right)
    rw [hc.wrap_eq hx', hc.wrap_eq hy']
  · next h =>
    have hu : (a.common b).cls ≠ .int := fun hi => h (.inl hi)
    unfold wrap
    rw [if_neg hu, if_neg hu]

theorem IsInteger.compares_swap (ha : a.IsInteger) (hb : b.IsInteger) (x y : Int) :
    a.compares b .lt x y = b.compares a .gt y x := by
  unfold compares
  rw [ha.common_comm hb]
  refine if_congr ?_ rfl rfl
  rw [and_comm (a := 0 ≤ x)]

theorem compares_not (a b : Rep) (x y : Int) :
    a.compares b .le x y = !a.compares b .gt x y ∧ a.compares b .ge x y = !a.compares b .lt x y ∧
      a.compares b .ne x y = !a.compares b .eq x y := by
  have hnot : ∀ x y : Int, Opcode.relates .le x y = !Opcode.relates .gt x y ∧
      Opcode.relates .ge x y = !Opcode.relates .lt x y ∧
      Opcode.relates .ne x y = !Opcode.relates .eq x y := by
    intro x y
    refine ⟨?_, ?_, ?_⟩ <;> rw [Bool.eq_iff_iff] <;> simp [Opcode.relates]
  unfold compares
  split
  · exact hnot x y
  · exact hnot _ _

end Rep

/-! ## The code of a comparison -/

/-- A comparison of two integers is always emitted, and wherever its code runs it leaves
the truth value of the comparison of the numbers that its operands hold; and the six
comparisons go together as those of numbers do. -/
theorem Engine.Built.compares_integers {target : Target} {e : Engine} (h : e.Built target)
    (hu : target.Usual) {fn : FuncId} {f : Func} (hf : e.findOpen fn = .ok f) {op : Opcode}
    (hop : op.isCompare = true) {a b : ValueId} {ra rb : Rep} (ha : f.rep? a = some ra)
    (hb : f.rep? b = some rb) (hia : ra.IsInteger) (hib : rb.IsInteger) :
    Ends (EngineM.compare fn op a b) e
      (fun d e' => ∃ f', e'.func? fn = some f' ∧ f.Extends f' ∧ f'.rep? d = some .bool ∧
        f.Brings f' d fun m w => ∃ x y, (ra.Holds x ∧ m.Reads a (Word.ofInt x)) ∧
          (rb.Holds y ∧ m.Reads b (Word.ofInt y)) ∧ w = Word.ofBool (ra.compares rb op x y))
      (fun _ _ => False) ∧
    ∀ x y, ra.compares rb .lt x y = rb.compares ra .gt y x ∧
      ra.compares rb .le x y = !ra.compares rb .gt x y ∧
      ra.compares rb .ge x y = !ra.compares rb .lt x y ∧
      ra.compares rb .ne x y = !ra.compares rb .eq x y := by
  refine ⟨?_, fun x y => ⟨hia.compares_swap hib x y, Rep.compares_not ra rb x y⟩⟩
  have hspec : ∀ {f' : Func} {d : ValueId}, f.Brings f' d (Func.Operated
      (fun n k => pure (if op.relates n k then 1 else 0)) (ra.common rb) ra rb a b) →
      f.Brings f' d fun m w => ∃ x y, (ra.Holds x ∧ m.Reads a (Word.ofInt x)) ∧
        (rb.Holds y ∧ m.Reads b (Word.ofInt y)) ∧ w = Word.ofBool (ra.compares rb op x y) := by
    intro f' d hbrings
    refine hbrings.of_spec fun m w hw => ?_
    obtain ⟨x, y, hx, hy, rfl⟩ := hw
    refine ⟨x, y, _, hx, hy, rfl, ?_⟩
    rw [hia.relates_wrap hib hx.1 hy.1, Rep.ofBool_eq]
  refine .ite' (fun hno => ?_) fun _ => ?_
  · rw [hop] at hno
    cases hno
  obtain ⟨c, -, -, hopens⟩ := h.opens hu hf
  have hmade : Ends (EngineM.emitInto fn (Emit.compare op a b)) e
      (fun d e' => ∃ f', e'.Receives e.tables.Clears c fn f' ∧ f.Extends f' ∧ f'.rep? d = some .bool ∧
        f.Brings f' d (Func.Operated (fun n k => pure (if op.relates n k then 1 else 0))
          (ra.common rb) ra rb a b)) fun _ _ => False := by
    apply hopens.ends_emitInto (Emit.edits_compare (by rintro rfl; cases hop) a b)
    rintro bench hbench hdrafts rfl -
    apply (Emit.Lands.compare hbench hdrafts hop ha hb hia hib).mono
    rintro d b' - ⟨⟨info, hd, -, hrep⟩, hbrings⟩
    exact ⟨hrep ▸ Func.rep?_of_value? hd, hbrings⟩
  refine hmade.imp ?_
  rintro d e' ⟨f', hf', hext, hrep, hbrings⟩
  exact ⟨f', (EngineM.findOpen_ok hf'.opened).1, hext, hrep, hspec hbrings⟩

/-- An engine with an open function of a signed byte and an unsigned number of four
bytes. -/
def mixedOperands : Engine :=
  (Engine.create .i386 0 0 (.seeded 1) 0).after
    [.createContext, .buildStart 1,
      .signatureType 0 Builtin.bool.id [Builtin.int8.id, Builtin.uint32.id],
      .createFunction 1 18 "below"]

/-- Whether -1 is below 1 is compared without a sign there, and it is not. -/
theorem mixed_operands_compared :
    ∃ f, mixedOperands.findOpen 1 = .ok f ∧
      Ends (EngineM.compare 1 .lt 1 2) mixedOperands
        (fun d e' => ∃ f', e'.func? 1 = some f' ∧ f.Extends f' ∧ f'.rep? d = some .bool ∧
          f.Brings f' d fun m w => ∃ x y,
            (Rep.Holds { cls := .int, size := 1 } x ∧ m.Reads 1 (Word.ofInt x)) ∧
            (Rep.Holds { cls := .uint, size := 4 } y ∧ m.Reads 2 (Word.ofInt y)) ∧
            w = Word.ofBool (Rep.compares { cls := .int, size := 1 } { cls := .uint, size := 4 } .lt x y))
        (fun _ _ => False) ∧
      Rep.compares { cls := .int, size := 1 } { cls := .uint, size := 4 } .lt (-1) 1 = false := by
  have hcheck : ((mixedOperands.findOpen 1).toOption.any fun f =>
      f.rep? 1 == some { cls := .int, size := 1 } &&
        f.rep? 2 == some { cls := .uint, size := 4 }) = true := by decide +kernel
  simp only [any_toOption, Bool.and_eq_true, beq_iff_eq] at hcheck
  obtain ⟨f, hf, ha, hb⟩ := hcheck
  have hbuilt : mixedOperands.Built .i386 := ⟨_, _, _, _, _, rfl⟩
  exact ⟨f, hf, (hbuilt.compares_integers (.inl rfl) hf (by decide) ha hb ⟨.inl rfl, .inl rfl⟩
    ⟨.inr rfl, .inr (.inr (.inl rfl))⟩).1, by decide⟩

/-! ## Connectives of numbers -/

/-- What a connective says about two facts. -/
def Opcode.connects (op : Opcode) (p q : Bool) : Bool :=
  match op with
  | .and => p && q
  | .or => p || q
  | _ => p != q

def Opcode.IsConnective (op : Opcode) : Prop := op = .and ∨ op = .or ∨ op = .xor

def IsTruth (n : Int) : Prop := n = 0 ∨ n = 1

theorem Rep.holds_lor {x y : Int} (hx : Rep.bool.Holds x) (hy : Rep.bool.Holds y) :
    Rep.bool.Holds (x.lor y) ∧ (x.lor y = 0 ↔ x = 0 ∧ y = 0) := by
  have hle : ∀ {n : Int}, Rep.bool.Holds n ↔ -2 ^ 7 ≤ n ∧ n < 2 ^ 7 := by
    intro n
    show -2 ^ 7 ≤ n ∧ n ≤ 2 ^ 7 - 1 ↔ _
    omega
  have hldiff : ∀ m k : Nat, m < 2 ^ 7 → m.ldiff k < 2 ^ 7 := by
    intro m k hm
    refine Nat.lt_pow_two_of_testBit _ fun i hi => ?_
    rw [Nat.testBit_ldiff, Nat.testBit_lt_two_pow (Nat.lt_of_lt_of_le hm (Nat.pow_le_pow_right
      (by decide) hi)), Bool.false_and]
  rw [hle] at hx hy ⊢
  rcases x with m | m <;> rcases y with k | k
  · have hm : (m : Int) < 2 ^ 7 := hx.2
    have hk : (k : Int) < 2 ^ 7 := hy.2
    have hor : m ||| k < 2 ^ 7 := Nat.or_lt_two_pow (by omega) (by omega)
    have hzero : (m ||| k = 0) ↔ m = 0 ∧ k = 0 := Nat.or_eq_zero_iff
    show (-2 ^ 7 ≤ ((m ||| k : Nat) : Int) ∧ ((m ||| k : Nat) : Int) < 2 ^ 7) ∧
      (((m ||| k : Nat) : Int) = 0 ↔ (m : Int) = 0 ∧ (k : Int) = 0)
    omega
  · have := hldiff k m (by omega)
    show (-2 ^ 7 ≤ Int.negSucc (k.ldiff m) ∧ Int.negSucc (k.ldiff m) < 2 ^ 7) ∧
      (Int.negSucc (k.ldiff m) = 0 ↔ (m : Int) = 0 ∧ Int.negSucc k = 0)
    omega
  · have := hldiff m k (by omega)
    show (-2 ^ 7 ≤ Int.negSucc (m.ldiff k) ∧ Int.negSucc (m.ldiff k) < 2 ^ 7) ∧
      (Int.negSucc (m.ldiff k) = 0 ↔ Int.negSucc m = 0 ∧ (k : Int) = 0)
    omega
  · have : m &&& k ≤ m := Nat.and_le_left
    show (-2 ^ 7 ≤ Int.negSucc (m &&& k) ∧ Int.negSucc (m &&& k) < 2 ^ 7) ∧
      (Int.negSucc (m &&& k) = 0 ↔ Int.negSucc m = 0 ∧ Int.negSucc k = 0)
    omega

/-- The bits of two truth values are combined as the facts are, and so are those of any two
bytes in a disjunction. -/
theorem Rep.operate_connects {op : Opcode} (hop : op.IsConnective) {n k : Int}
    (hn : Rep.bool.Holds n) (hk : Rep.bool.Holds k) (htruth : op ≠ .or → IsTruth n ∧ IsTruth k) :
    ∃ l, Rep.bool.promoted.operate op n k = .ok l ∧ Rep.bool.promoted.Holds l ∧
      (l != 0) = op.connects (n != 0) (k != 0) := by
  rcases hop with rfl | rfl | rfl
  · obtain ⟨rfl | rfl, rfl | rfl⟩ := htruth (by decide) <;>
      exact ⟨_, rfl, isInteger_bool.promoted.holds_wrap _, rfl⟩
  · obtain ⟨hholds, hzero⟩ := holds_lor hn hk
    have hwide := isInteger_bool.holds_promoted hholds
    refine ⟨n.lor k, ?_, hwide, ?_⟩
    · show Except.ok (Rep.bool.promoted.wrap (n.lor k)) = _
      rw [isInteger_bool.promoted.wrap_eq hwide]
    · rw [Bool.eq_iff_iff]
      simp only [Opcode.connects, bne_iff_ne, Bool.or_eq_true, ne_eq, hzero, not_and_or]
  · obtain ⟨rfl | rfl, rfl | rfl⟩ := htruth (by decide) <;>
      exact ⟨_, rfl, isInteger_bool.promoted.holds_wrap _, rfl⟩

/-! ## Operators of truth values -/


namespace Bench.Drafts

variable {b : Bench} {c : Setting} {f : Func} {stop : Failure → Bench → Prop}

theorem numeric_looks (h : b.Drafts c f) {type : TypeId} {r : Rep}
    (hr : c.types.Firm c.target type r) (hi : r.IsInteger) :
    Ends (Emit.numeric? type) b (fun a b' => (∃ n, a = some n ∧ n.Of c r ∧
      b.tables.looks type = some n) ∧ b'.Drafts c f) stop := by
  obtain ⟨b', hrun, -⟩ := Emit.run_numeric? type b
  have hends : Ends (Emit.numeric? type) b
      (fun a b' => (∃ n, a = some n ∧ n.Of c r) ∧ b'.Drafts c f) stop := h.numeric? hr hi
  unfold Ends at hends ⊢
  rw [hrun] at hends ⊢
  obtain ⟨⟨n, hn, hof⟩, hb'⟩ := hends
  exact ⟨⟨n, hn, hof, hn⟩, hb'⟩

theorem commonType_bool (h : b.Drafts c f) (op : Opcode) {x y : TypeId}
    (hx : c.types.Firm c.target x .bool) (hy : c.types.Firm c.target y .bool) :
    Ends (Emit.commonType op x y) b (fun type b' => type = Builtin.int32.id ∧ b'.Drafts c f) stop := by
  have hsmall : ∀ {n : Emit.Numeric}, n.Of c .bool →
      n.kind = .int ∧ n.promoted? = some Builtin.int32.id := by
    intro n hn
    have hkind : n.kind = .int := by
      rcases hn.kind with ⟨hk, -⟩ | ⟨-, hc⟩
      · exact hk
      · cases hc
    refine ⟨hkind, ?_⟩
    unfold Emit.Numeric.promoted?
    rw [hkind, hn.bits]
    rfl
  have hfull : ∀ {b' : Bench}, b'.Drafts c f → Ends (Emit.numeric? Builtin.int32.id) b'
      (fun a b'' => a = some { id := Builtin.int32.id, kind := .int, bits := 32, native := false } ∧
        b''.Drafts c f) stop := by
    intro b' hb'
    refine (hb'.numeric_looks (Builtin.firm c.ordered .int32) ⟨.inl rfl, .inr (.inr (.inl rfl))⟩).imp ?_
    rintro _ b'' ⟨⟨n, rfl, hof, hlooks⟩, hb''⟩
    refine ⟨?_, hb''⟩
    have hfound : b'.types.find? Builtin.int32.id = some (.int 32) := by
      rw [hb'.types]
      exact c.ordered.builtins.find? (by rw [TypeTable.initial_eq]; rfl)
    have hplain : b'.tables.types.underlying Builtin.int32.id = Builtin.int32.id :=
      TypeTable.underlying_of_not_tagged hfound (by decide)
    obtain ⟨d, hd, -, rfl⟩ := Tables.looks_some hlooks
    rw [hplain] at hd
    obtain rfl := Option.mem_unique hfound hd
    have hbits := hof.bits
    dsimp only at hbits
    rw [hplain, hbits]
    rfl
  unfold Emit.commonType
  refine .bind' (h.numeric? hx Rep.isInteger_bool) ?_
  rintro _ b₁ ⟨⟨nx, rfl, hnx⟩, hb₁⟩
  refine .bind' (hb₁.numeric? hy Rep.isInteger_bool) ?_
  rintro _ b₂ ⟨⟨ny, rfl, hny⟩, hb₂⟩
  obtain ⟨hkx, hpx⟩ := hsmall hnx
  obtain ⟨hky, hpy⟩ := hsmall hny
  have haddress : nx.isAddress = false ∧ ny.isAddress = false := by
    unfold Emit.Numeric.isAddress
    rw [hkx, hky]
    exact ⟨rfl, rfl⟩
  dsimp only
  rw [hkx, hky, if_neg (by decide), haddress.1, haddress.2, hpx, hpy]
  refine .bind' (hfull hb₂) ?_
  rintro _ b₃ ⟨rfl, hb₃⟩
  refine .bind' (hfull hb₃) ?_
  rintro _ b₄ ⟨rfl, hb₄⟩
  exact .pure' ⟨rfl, hb₄⟩

end Bench.Drafts

namespace Emit.Lands

open Func (Operated)

variable {heads : FuncId → Option Head} {c : Setting} {b : Bench}

theorem binary_bool (hb : b.Serves heads) (hd : b.Drafts c b.func) {op : Opcode}
    (hop : op.isBinary = true) (hshift : op.isShift = false) {x y : ValueId}
    (hx : b.func.rep? x = some .bool) (hy : b.func.rep? y = some .bool) :
    Lands heads c (Emit.binary op x y) b fun u b' =>
      (∃ info, b'.func.value? u = some info ∧ info.type = Builtin.int32.id ∧
        info.rep = Rep.bool.promoted) ∧
        b.func.Brings b'.func u
          (Operated (Rep.bool.promoted.operate op) Rep.bool.promoted .bool .bool x y) := by
  obtain ⟨ix, hinfox, hrx⟩ := Func.value?_of_rep? hx
  obtain ⟨iy, hinfoy, hry⟩ := Func.value?_of_rep? hy
  have hbool : ∀ {v : ValueId} {info : ValueInfo}, b.func.value? v = some info → info.rep = .bool →
      c.types.Firm c.target info.type .bool := fun hv hr =>
    firm hb hd (hr ▸ hasRep hb hd hv) Rep.isInteger_bool
  have htypes : Lands heads c (Emit.commonType op ix.type iy.type) b
      fun type b' => type = Builtin.int32.id ∧ b'.func = b.func :=
    of_drafts hb (edits_commonType op ix.type iy.type)
      (Keeps.commonType hb.toTyped op ix.type iy.type)
      (hd.commonType_bool op (hbool hinfox hrx) (hbool hinfoy hry))
  unfold Emit.binary
  refine bind' (value hb hd hinfox) ?_
  rintro _ _ - - ⟨rfl, rfl⟩
  refine bind' (value hb hd hinfoy) ?_
  rintro _ _ - - ⟨rfl, rfl⟩
  refine ite' (fun hs => absurd hs (by rw [hshift]; decide)) fun _ => bind' htypes ?_
  rintro _ b₁ hs₁ hd₁ ⟨rfl, hf⟩
  rw [← hf] at hx hy ⊢
  exact operating hs₁.serves hd₁ hop hx hy Rep.isInteger_bool Rep.isInteger_bool
    Rep.isInteger_bool.promoted (Builtin.hasRep c.ordered .int32)

end Emit.Lands

/-! ## Engines that take on more code -/

namespace Engine

variable {e : Engine} {c : Setting} {fn : FuncId} {f : Func} {p : TypeId → Prop}

/-- Some history led to the engine, which is in the setting, and the function is open there.
Notes may have been taken since. -/
structure TakesOn (e : Engine) (c : Setting) (fn : FuncId) (f : Func) : Prop where
  built : ∃ notes, Engine.Built c.target { e with notes }
  types : e.types = c.types
  opened : e.findOpen fn = .ok f

theorem Receives.noted (h : e.Receives p c fn f) (notes : Array Trace.Note) :
    { e with notes : Engine }.Receives p c fn f :=
  { h with typed := { h.typed with }, founded := ⟨h.founded.tables, h.founded.values⟩ }

theorem TakesOn.receives (h : e.TakesOn c fn f) : e.Receives (fun _ => False) c fn f := by
  obtain ⟨notes, hbuilt⟩ := h.built
  obtain ⟨c', htarget, -, hopens⟩ := hbuilt.opens c.usual h.opened
  have hnoted := hopens.noted e.notes
  exact { hnoted with
    target := hnoted.target.trans htarget
    types := h.types
    cleared := nofun
    opened := h.opened }

theorem Receives.ends_made (h : e.Receives p c fn f) {act : EmitM ValueId}
    (hedits : Leaves Bench.Edits act) {type : TypeId} {r : Rep}
    (hr : c.types.HasRep c.target type r) {q : Machine → Word → Prop}
    (hact : ∀ b : Bench, b.Serves e.heads → b.Drafts c b.func → b.func = f →
      Emit.Lands e.heads c act b fun u b' =>
        (∃ info, b'.func.value? u = some info ∧ info.type = type ∧ info.rep = r) ∧
          b.func.Brings b'.func u q) :
    Ends (EngineM.emitInto fn act) e (fun u e' => ∃ f', e'.Receives p c fn f' ∧ f.Extends f' ∧
      f'.Carries c u type r ∧ f.Brings f' u q) fun _ _ => False := by
  refine h.ends_emitInto hedits fun b hb hd hfunc _ => (hact b hb hd hfunc).mono ?_
  subst hfunc
  rintro u b' - ⟨hvalue, hbrings⟩
  exact ⟨⟨hvalue, hr⟩, hbrings⟩

end Engine

/-! ## Connectives -/

def Val.tested (v : Val) (n : Int) : Int :=
  if v.kind = .bool then n else if n = 0 then 0 else 1

def Val.TruthIs (v : Val) (r : Rep) (m : Machine) (w : Word) : Prop :=
  ∃ n, r.Holds n ∧ m.Reads v.id (Word.ofInt n) ∧ w = Word.ofInt (v.tested n)

/-- What a connective makes of two values, if the ones that are not tested hold truth
values or it is the disjunction. -/
def Val.Connected (op : Opcode) (v o : Val) (rv ro : Rep) (m : Machine) (w : Word) : Prop :=
  ∃ n k, (rv.Holds n ∧ m.Reads v.id (Word.ofInt n)) ∧ (ro.Holds k ∧ m.Reads o.id (Word.ofInt k)) ∧
    (op ≠ .or → (v.kind = .bool → IsTruth n) ∧ (o.kind = .bool → IsTruth k)) ∧
      w = Word.ofBool (op.connects (n != 0) (k != 0))

def Val.Negated (v : Val) (r : Rep) (m : Machine) (w : Word) : Prop :=
  ∃ n, r.Holds n ∧ m.Reads v.id (Word.ofInt n) ∧ w = Word.ofBool (n == 0)

theorem Val.tested_spec {v : Val} {n : Int} (h : v.kind = .bool → Rep.bool.Holds n) :
    Rep.bool.Holds (v.tested n) ∧ (v.tested n != 0) = (n != 0) ∧
      ((v.kind = .bool → IsTruth n) → IsTruth (v.tested n)) := by
  unfold tested
  by_cases hk : v.kind = .bool
  · rw [if_pos hk]
    exact ⟨h hk, rfl, fun htruth => htruth hk⟩
  · rw [if_neg hk]
    by_cases h0 : n = 0
    · rw [if_pos h0, h0]
      exact ⟨Rep.isInteger_bool.holds_wrap 0, rfl, fun _ => .inl rfl⟩
    · rw [if_neg h0, bne_iff_ne.mpr h0]
      exact ⟨Rep.isInteger_bool.holds_wrap 1, rfl, fun _ => .inr rfl⟩

theorem Func.Brings.connected {f f₁ f₂ f₃ f₄ : Func} {v o : Val} {l k a d : ValueId} {r q : Rep}
    {op : Opcode} (h₁ : f.Brings f₁ l (v.TruthIs r)) (h₂ : f₁.Brings f₂ k (o.TruthIs q))
    (h₃ : f₂.Brings f₃ a (Operated (Rep.bool.promoted.operate op) Rep.bool.promoted .bool .bool l k))
    (h₄ : f₃.Brings f₄ d fun m x => ∃ n, Rep.bool.promoted.Holds n ∧ m.Reads a (Word.ofInt n) ∧
      x = Word.ofBool (n != 0))
    (hf₁ : f.Extends f₁) (hf₂ : f₁.Extends f₂) (hf₃ : f₂.Extends f₃) (hf₄ : f₃.Extends f₄)
    (hl : f₁.rep? l = some .bool) (ho : f.rep? o.id = some q) (hop : op.IsConnective)
    (hr : v.kind = .bool → r = .bool) (hq : o.kind = .bool → q = .bool) :
    f.Brings f₄ d (Val.Connected op v o r q) := by
  have h₂₄ : f₂.Brings f₄ d fun m x => ∃ n z, (Rep.bool.Holds n ∧ m.Reads l (Word.ofInt n)) ∧
      (Rep.bool.Holds z ∧ m.Reads k (Word.ofInt z)) ∧ (op ≠ .or → IsTruth n ∧ IsTruth z) ∧
        x = Word.ofBool (op.connects (n != 0) (z != 0)) := by
    refine h₃.bind' h₄ hf₃ hf₄ ?_
    rintro m _ ⟨n, z, hn, hz, htruth, rfl⟩
    obtain ⟨y, hy, hholds, hconnects⟩ := Rep.operate_connects hop hn.1 hz.1 htruth
    have hwrap : ∀ {n : Int}, Rep.bool.Holds n → Rep.bool.promoted.wrap n = n := fun hn =>
      Rep.isInteger_bool.promoted.wrap_eq (Rep.isInteger_bool.holds_promoted hn)
    refine ⟨_, ⟨n, z, y, hn, hz, ?_, rfl⟩, fun m' hread _ => ⟨y, hholds, hread, by rw [hconnects]⟩⟩
    rw [hwrap hn.1, hwrap hz.1, hy]
  have h₁₄ : f₁.Brings f₄ d fun m x => ∃ n z, (Rep.bool.Holds n ∧ m.Reads l (Word.ofInt n)) ∧
      (q.Holds z ∧ m.Reads o.id (Word.ofInt z)) ∧
        (op ≠ .or → IsTruth n ∧ (o.kind = .bool → IsTruth z)) ∧
          x = Word.ofBool (op.connects (n != 0) (z != 0)) := by
    refine h₂.bind' h₂₄ hf₂ (hf₃.trans hf₄) ?_
    rintro m _ ⟨n, z, ⟨hn, hln⟩, ⟨hz, hoz⟩, htruth, rfl⟩
    obtain ⟨hholds, hconnects, htested⟩ := o.tested_spec (n := z) fun hk => hq hk ▸ hz
    refine ⟨_, ⟨z, hz, hoz, rfl⟩, fun m' hread hkept => ⟨n, o.tested z, ⟨hn, ?_⟩, ⟨hholds, hread⟩,
      fun hor => ⟨(htruth hor).1, htested (htruth hor).2⟩, by rw [hconnects]⟩⟩
    exact keeps_old hkept (hf₂.trans (hf₃.trans hf₄)) (isSome_of_rep? hl) hln
  refine h₁.bind' h₁₄ hf₁ (hf₂.trans (hf₃.trans hf₄)) ?_
  rintro m _ ⟨n, z, ⟨hn, hvn⟩, ⟨hz, hoz⟩, htruth, rfl⟩
  obtain ⟨hholds, hconnects, htested⟩ := v.tested_spec (n := n) fun hk => hr hk ▸ hn
  refine ⟨_, ⟨n, hn, hvn, rfl⟩, fun m' hread hkept => ⟨v.tested n, z, ⟨hholds, hread⟩, ⟨hz, ?_⟩,
    fun hor => ⟨htested (htruth hor).1, (htruth hor).2⟩, by rw [hconnects]⟩⟩
  exact keeps_old hkept (hf₁.trans (hf₂.trans (hf₃.trans hf₄))) (isSome_of_rep? ho) hoz

theorem ValKind.ofTy_eq_bool {t : Ty} : ValKind.ofTy t = .bool ↔ t.kind = .bool := by
  unfold ValKind.ofTy
  cases t.kind <;> decide

theorem Ty.whole_bool (c : Setting) (rt : RuntimeId) : (Builtin.bool.ty rt).Whole c rt .bool :=
  Builtin.whole c rt (.inl rfl) fun _ => rfl

theorem Ty.whole_int32 (c : Setting) (rt : RuntimeId) :
    (Builtin.int32.ty rt).Whole c rt Rep.bool.promoted :=
  Builtin.whole c rt (.inl rfl) nofun

namespace Workspace

/-- The function of the builder is open in an engine that some history led to. -/
def Opens (w : Workspace) (c : Setting) (fn : FnId) (s : Function) (f : Func) : Prop :=
  w.Place fn s (·.TakesOn c s.id f)

/-- The function of the builder is open in its engine, of which only the integers are known
not to be refused. -/
def Receives (w : Workspace) (c : Setting) (fn : FnId) (s : Function) (f : Func) : Prop :=
  w.Place fn s (·.Receives (fun _ => False) c s.id f)

namespace Receives

open BuildM

variable {w : Workspace} {c : Setting} {fn : FnId} {s : Function} {f : Func} {v o : Val} {t u : Ty}
  {r q : Rep}

theorem ends_emit (h : w.Receives c fn s f) (op : String) {act : FuncId → EngineM ValueId}
    (ht : t.Whole c s.runtime r) {p : Machine → Word → Prop}
    (hact : ∀ e : Engine, e.Receives (fun _ => False) c s.id f → Ends (act s.id) e
      (fun x e' => ∃ f', e'.Receives (fun _ => False) c s.id f' ∧ f.Extends f' ∧ f'.Carries c x t.id r ∧
        f.Brings f' x p) fun _ _ => False) :
    Ends (emit fn op act) w (fun a w' => ∃ f', w'.Receives c fn s f' ∧ f.Extends f' ∧
      a.Names fn f' c t r ∧ f.Brings f' a.id p) fun _ _ => False := by
  refine (Place.ends_emit h op (t := t) (Q := fun x e => ∃ f', e.Receives (fun _ => False) c s.id f' ∧
    f.Extends f' ∧ f'.Carries c x t.id r ∧ f.Brings f' x p) hact ?_ ?_).imp ?_
  · rintro x e notes ⟨f', he, hpost⟩
    exact ⟨f', he.noted notes, hpost⟩
  · rintro x e ⟨f', he, -, ⟨⟨info, hv, htype, -⟩, -⟩, -⟩
    obtain ⟨hfunc, halive, -⟩ := EngineM.findOpen_ok he.opened
    refine ⟨f', info, EngineM.findFunc_of hfunc halive, hv, ?_⟩
    rw [he.types, htype]
    exact ht.wrap?
  · rintro a w' ⟨ha, hs, x, hx, f', he, hext, hcarries, hbrings⟩
    exact ⟨f', ⟨hs, x, hx, he⟩, hext, ⟨ha, hcarries⟩, hbrings⟩

theorem ends_test (h : w.Receives c fn s f) (name : String) {op : Opcode}
    (hop : op = .toBool ∨ op = .toNotBool) (hv : f.Carries c v.id t.id r) (hi : r.IsWhole) :
    Ends (emit fn name fun id => EngineM.emitInto id (Emit.test op v.id)) w
      (fun a w' => ∃ f', w'.Receives c fn s f' ∧ f.Extends f' ∧
        a.Names fn f' c (Builtin.bool.ty s.runtime) .bool ∧ f.Brings f' a.id fun m x => ∃ n,
          r.Holds n ∧ m.Reads v.id (Word.ofInt n) ∧ x = Word.ofBool ((n != 0) == (op == .toBool)))
      fun _ _ => False := by
  refine h.ends_emit name (Ty.whole_bool c s.runtime) fun e he => ?_
  refine he.ends_made (Emit.edits_test (by rcases hop with rfl | rfl <;> decide) _)
    (Builtin.hasRep c.ordered .bool) fun b hb hd hfunc => ?_
  subst hfunc
  refine (Emit.Lands.test hb hd hop hv.rep? hi.isScalar).mono ?_
  rintro x b' - ⟨hvalue, hbrings⟩
  refine ⟨hvalue, hbrings.of_spec ?_⟩
  rintro m _ ⟨n, hn, hread, rfl⟩
  exact ⟨_, hread, by rw [hi.truthy_ofInt hn]⟩

theorem ends_toBool (h : w.Receives c fn s f) (hv : v.Names fn f c t r) (ht : t.Whole c s.runtime r) :
    Ends (BuildM.toBool v) w (fun a w' => ∃ f' u, w'.Receives c fn s f' ∧ f.Extends f' ∧
      a.Names fn f' c u .bool ∧ f.Brings f' a.id (v.TruthIs r)) fun _ _ => False := by
  have hkind : v.kind = ValKind.ofTy t := by rw [hv.eq]
  unfold BuildM.toBool
  rw [onValue_eq hv.fn_eq hv.carries.pos]
  refine .ite' (fun hk => .pure' ?_) fun hk => ?_
  · have hr : r = .bool := ht.bool (ValKind.ofTy_eq_bool.mp (hkind ▸ hk))
    refine ⟨f, t, h, .refl f, hr ▸ hv, Func.Brings.refl' ?_⟩
    rintro m _ ⟨n, -, hread, rfl⟩
    unfold Val.tested
    rwa [if_pos hk]
  · refine (h.ends_test "to_bool" (.inl rfl) hv.carries ht.isWhole).imp ?_
    rintro a w' ⟨f', h', hext, ha, hbrings⟩
    refine ⟨f', _, h', hext, ha, hbrings.of_spec ?_⟩
    rintro m _ ⟨n, hn, hread, rfl⟩
    refine ⟨n, hn, hread, ?_⟩
    unfold Val.tested
    rw [if_neg hk, Rep.ofBool_eq]
    by_cases h0 : n = 0
    · rw [if_pos h0, h0]
      rfl
    · rw [if_neg h0, bne_iff_ne.mpr h0]
      rfl

theorem ends_binary_bool (h : w.Receives c fn s f) (name : String) {op : Opcode}
    (hop : op.isBinary = true) (hshift : op.isShift = false) (hv : v.Names fn f c t .bool)
    (ho : o.Names fn f c u .bool) :
    Ends (BuildM.binary name op v (.value o)) w (fun a w' => ∃ f', w'.Receives c fn s f' ∧
      f.Extends f' ∧ a.Names fn f' c (Builtin.int32.ty s.runtime) Rep.bool.promoted ∧
        f.Brings f' a.id (Func.Operated (Rep.bool.promoted.operate op) Rep.bool.promoted .bool .bool
          v.id o.id)) fun _ _ => False := by
  unfold BuildM.binary
  rw [onValue_eq hv.fn_eq hv.carries.pos, operand?_eq ho.fn_eq ho.carries.pos, pure_bind]
  refine h.ends_emit name (Ty.whole_int32 c s.runtime) fun e he => ?_
  refine .ite' (fun hno => ?_) fun _ => ?_
  · rw [hop] at hno
    cases hno
  refine he.ends_made (Emit.edits_binary (by rintro rfl; cases hop) _ _)
    (Builtin.hasRep c.ordered .int32) fun b hb hd hfunc => ?_
  subst hfunc
  exact Emit.Lands.binary_bool hb hd hop hshift hv.carries.rep? ho.carries.rep?

theorem ends_logical (h : w.Receives c fn s f) (name : String) {op : Opcode} (hop : op.IsConnective)
    (hv : v.Names fn f c t r) (ht : t.Whole c s.runtime r) (ho : o.Names fn f c u q)
    (hu : u.Whole c s.runtime q) :
    Ends (logical name op v (.value o)) w (fun a w' => ∃ f', w'.Receives c fn s f' ∧ f.Extends f' ∧
      a.Names fn f' c (Builtin.bool.ty s.runtime) .bool ∧
        f.Brings f' a.id (Val.Connected op v o r q)) fun _ _ => False := by
  have hbinary : op.isBinary = true ∧ op.isShift = false := by
    rcases hop with rfl | rfl | rfl <;> decide
  have hruntime : ∀ {α : Type} {k : RuntimeId → BuildM α} {ok : α → Workspace → Prop}
      {stop : Stop → Workspace → Prop}, Ends (k s.runtime) w ok stop →
      Ends (runtimeOf fn >>= k) w ok stop := by
    intro α k ok stop hk
    refine .bind_ok ?_ hk
    unfold runtimeOf
    rw [run_bind, run_function, h.function]
    rfl
  unfold logical
  rw [onValue_eq hv.fn_eq hv.carries.pos]
  refine hruntime ?_
  rw [operand?_eq ho.fn_eq ho.carries.pos, pure_bind]
  refine .bind' (h.ends_toBool hv ht) ?_
  rintro l w₁ ⟨f₁, t₁, h₁, hext₁, hl, hbrings₁⟩
  have ho₁ : o.Names fn f₁ c u q := ⟨ho.eq, ho.carries.later hext₁⟩
  refine .bind' (h₁.ends_toBool ho₁ hu) ?_
  rintro k w₂ ⟨f₂, t₂, h₂, hext₂, hk, hbrings₂⟩
  have hl₂ : l.Names fn f₂ c t₁ .bool := ⟨hl.eq, hl.carries.later hext₂⟩
  refine .bind' (h₂.ends_binary_bool name hbinary.1 hbinary.2 hl₂ hk) ?_
  rintro a w₃ ⟨f₃, h₃, hext₃, ha, hbrings₃⟩
  have hplain : a.kind ≠ .bool := by
    rw [ha.eq]
    show ValKind.primitive ≠ .bool
    decide
  unfold BuildM.toBool
  rw [onValue_eq ha.fn_eq ha.carries.pos, if_neg hplain]
  refine (h₃.ends_test "to_bool" (.inl rfl) ha.carries Rep.isInteger_bool.promoted.isWhole).imp ?_
  rintro d w₄ ⟨f₄, h₄, hext₄, hd, hbrings₄⟩
  have hbool : ∀ {v : Val} {t : Ty} {r : Rep}, v.Names fn f c t r → t.Whole c s.runtime r →
      v.kind = .bool → r = .bool := fun hv ht hk =>
    ht.bool (ValKind.ofTy_eq_bool.mp (by rw [← hk, hv.eq]))
  refine ⟨f₄, h₄, hext₁.trans (hext₂.trans (hext₃.trans hext₄)), hd, ?_⟩
  exact Func.Brings.connected hbrings₁ hbrings₂ hbrings₃
    (hbrings₄.of_spec fun m x ⟨n, hn, hread, hx⟩ => ⟨n, hn, hread, by rw [hx]; simp⟩)
    hext₁ hext₂ hext₃ hext₄ hl.carries.rep? ho.carries.rep? hop (hbool hv ht) (hbool ho hu)

end Receives

/-- In a function that is open in an engine that some history led to, the conjunction, the
disjunction and the exclusive disjunction of two integers, truth values or addresses are
always emitted. Wherever their code runs it leaves 1 or 0 as the connective says about the
operands being other than zero: in the disjunction whatever the operands hold, and in the
others where an operand of a type of truth values holds one. So does the negation, whatever
its operand holds. -/
theorem Opens.connects {w : Workspace} {c : Setting} {fn : FnId} {s : Function} {f : Func}
    (h : w.Opens c fn s f) {v o : Val} {t u : Ty} {r q : Rep} (hv : v.Names fn f c t r)
    (ht : t.Whole c s.runtime r) (ho : o.Names fn f c u q) (hu : u.Whole c s.runtime q) :
    (∀ name op, op.IsConnective → Ends (BuildM.logical name op v (.value o)) w
      (fun a w' => ∃ f', w'.Place fn s (·.findOpen s.id = .ok f') ∧ f.Extends f' ∧
        a.Names fn f' c (Builtin.bool.ty s.runtime) .bool ∧
          f.Brings f' a.id (Val.Connected op v o r q)) fun _ _ => False) ∧
    Ends (BuildM.toNotBool v) w
      (fun a w' => ∃ f', w'.Place fn s (·.findOpen s.id = .ok f') ∧ f.Extends f' ∧
        a.Names fn f' c (Builtin.bool.ty s.runtime) .bool ∧ f.Brings f' a.id (v.Negated r))
      fun _ _ => False := by
  have hreceives : w.Receives c fn s f := Place.mono h fun _ he => he.receives
  have hopened : ∀ {w' : Workspace} {f' : Func}, w'.Receives c fn s f' →
      w'.Place fn s (·.findOpen s.id = .ok f') := fun h' => h'.mono fun _ he => he.opened
  constructor
  · intro name op hop
    refine (hreceives.ends_logical name hop hv ht ho hu).imp ?_
    rintro a w' ⟨f', h', hext, ha, hbrings⟩
    exact ⟨f', hopened h', hext, ha, hbrings⟩
  · unfold BuildM.toNotBool
    rw [BuildM.onValue_eq hv.fn_eq hv.carries.pos]
    refine (hreceives.ends_test "to_not_bool" (.inr rfl) hv.carries ht.isWhole).imp ?_
    rintro a w' ⟨f', h', hext, ha, hbrings⟩
    refine ⟨f', hopened h', hext, ha, hbrings.of_spec ?_⟩
    rintro m _ ⟨n, hn, hread, rfl⟩
    refine ⟨n, hn, hread, ?_⟩
    show Word.ofBool (n == 0) = Word.ofBool ((!(n == 0)) == false)
    cases n == 0 <;> rfl

def truthAndByte : Engine :=
  (Engine.create .amd64 0 0 (.seeded 1) 0).after
    [.createContext, .buildStart 1,
      .signatureType 0 Builtin.bool.id [Builtin.bool.id, Builtin.int8.id],
      .createFunction 1 18 "both"]

theorem built_truthAndByte : truthAndByte.Built .amd64 := ⟨_, _, _, _, _, rfl⟩

def truthAndByteSetting : Setting where
  target := .amd64
  types := truthAndByte.types
  building := truthAndByte.building
  usual := usual_amd64
  ordered := built_truthAndByte.typed.ordered

def truthAndByteFunction : Function where
  runtime := 0
  id := 1
  sig := { owner := some 0, id := 18, kind := .signature }
  ret := Builtin.bool.ty 0
  params := [Builtin.bool.ty 0, Builtin.int8.ty 0]
  paramReps := [.bool, Builtin.int8.rep .amd64]
  retRep := .bool

def truthAndByteWorkspace : Workspace where
  runtimes := #[{ engine := truthAndByte }]
  functions := #[truthAndByteFunction]

def truthAndByteParam (id : ValueId) (b : Builtin) : Val :=
  { fn := some 0, id, kind := .ofTy (b.ty 0), type := b.ty 0 }

/-- The conjunction of a truth value and a signed byte. -/
theorem truth_and_byte_connected : ∃ f,
    truthAndByteWorkspace.Opens truthAndByteSetting 0 truthAndByteFunction f ∧
    (truthAndByteParam 1 .bool).Names 0 f truthAndByteSetting (Builtin.bool.ty 0) .bool ∧
    (truthAndByteParam 2 .int8).Names 0 f truthAndByteSetting (Builtin.int8.ty 0)
      (Builtin.int8.rep .amd64) ∧
    Ends (BuildM.logical "logical_and" .and (truthAndByteParam 1 .bool)
        (.value (truthAndByteParam 2 .int8))) truthAndByteWorkspace
      (fun a _ => ∃ f', f.Extends f' ∧ f.Brings f' a.id (Val.Connected .and
        (truthAndByteParam 1 .bool) (truthAndByteParam 2 .int8) .bool (Builtin.int8.rep .amd64)))
      fun _ _ => False := by
  have hcheck : ((truthAndByte.findOpen 1).toOption.any fun f =>
      f.value? 1 == some { type := Builtin.bool.id, rep := .bool, origin := .param, param := 0 } &&
        f.value? 2 == some { type := Builtin.int8.id, rep := Builtin.int8.rep .amd64,
                             origin := .param, param := 1 }) = true := by decide +kernel
  simp only [any_toOption, Bool.and_eq_true, beq_iff_eq] at hcheck
  obtain ⟨f, hf, hone, htwo⟩ := hcheck
  have hopens : truthAndByteWorkspace.Opens truthAndByteSetting 0 truthAndByteFunction f :=
    ⟨rfl, _, rfl, ⟨_, built_truthAndByte⟩, rfl, hf⟩
  have htruth := Ty.whole_bool truthAndByteSetting 0
  have hbyte : (Builtin.int8.ty 0).Whole truthAndByteSetting 0 (Builtin.int8.rep .amd64) :=
    Builtin.whole _ 0 (.inl rfl) nofun
  have hv : (truthAndByteParam 1 .bool).Names 0 f truthAndByteSetting (Builtin.bool.ty 0) .bool :=
    ⟨rfl, ⟨_, hone, rfl, rfl⟩, htruth.rep⟩
  have ho : (truthAndByteParam 2 .int8).Names 0 f truthAndByteSetting (Builtin.int8.ty 0)
      (Builtin.int8.rep .amd64) := ⟨rfl, ⟨_, htwo, rfl, rfl⟩, hbyte.rep⟩
  refine ⟨f, hopens, hv, ho, ?_⟩
  refine ((hopens.connects hv htruth ho hbyte).1 "logical_and" .and (.inl rfl)).imp ?_
  rintro a w' ⟨f', -, hext, -, hbrings⟩
  exact ⟨f', hext, hbrings⟩

def conjunction : BuildM FnId :=
  BuildM.buildFunction 0 [Builtin.bool.ty 0, Builtin.bool.ty 0] (Builtin.bool.ty 0) (some fun fn => do
    let v ← BuildM.arg fn 0
    let o ← BuildM.arg fn 1
    BuildM.ret fn (.value (← BuildM.logical "logical_and" .and v (.value o))))

def isBool (b : Bool) : HostValue → Bool
  | .bool a => a == b
  | _ => false

theorem eq_of_isBool {b : Bool} {v : HostValue} (h : isBool b v = true) : v = .bool b := by
  cases v with
  | bool a => exact congrArg HostValue.bool (beq_iff_eq.mp h)
  | _ => cases h

/-- Both 2 and 1 count as true, and their conjunction does not. -/
theorem two_and_one_is_false :
    ((do BuildM.call (← conjunction) [.int .int64 2, .int .int64 1]).run building :
        Except Stop HostValue × Workspace).1 = .ok (.bool false) ∧
      Opcode.connects .and ((2 : Int) != 0) ((1 : Int) != 0) = true := by
  have hcheck : (((do BuildM.call (← conjunction) [.int .int64 2, .int .int64 1]).run building :
      Except Stop HostValue × Workspace).1.toOption.any (isBool false)) = true := by decide +kernel
  obtain ⟨v, hv, hfalse⟩ := any_toOption.mp hcheck
  exact ⟨hv.trans (congrArg Except.ok (eq_of_isBool hfalse)), rfl⟩

end Workspace

end TypedIR
