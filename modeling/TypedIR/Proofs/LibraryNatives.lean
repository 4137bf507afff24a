import Mathlib
import TypedIR.Native.Library
import TypedIR.Proofs.BoundsChecks
import TypedIR.Proofs.IntegerValues
import TypedIR.Proofs.Reps
import TypedIR.Proofs.StoreFiles

/-
  What natives of the library do: `calloc` and `printf`.

  `calloc` takes the product of its arguments modulo 2^64. Up to there it gives a fresh
  block of zeros of exactly the product, or fails and changes nothing
  (`Library.calloc_gives`). Two arguments of 2^32 give a block of no bytes
  (`calloc_wraps`).

  A format is spelled by literal bytes, doubled percent signs and conversions. `printf`
  writes the texts of its parts one after the other (`Library.printf_writes`). A letter
  is written as the character with the number of its byte, which is that byte below 128
  and two bytes from there on (`printf_widens`).
-/

namespace TypedIR

open Text

/-! ## Requests of natives -/

namespace HostM

variable {α β : Type}

theorem run_request (r : Memory.Request α) (h : Host) :
    ((request r).run h : Except (Halt NativeError) α × Host) =
      match (r.run h.memory : Except (Halt Fault) α × Memory) with
      | (.ok a, m) => (.ok a, { h with memory := m })
      | (.error (.failed f), m) => (.error (.failed (.cause (.memory f))), { h with memory := m })
      | (.error .crashed, m) => (.error .crashed, { h with memory := m }) := by
  unfold request
  rw [run_bind_get]
  rcases hr : (r.run h.memory : Except (Halt Fault) α × Memory) with ⟨(_ | _) | _, m⟩ <;>
    (rw [run_bind]; rfl)

theorem run_arg {c : NativeCall} {i : Nat} {a : NativeArg} (ha : c.args[i]? = some a) (h : Host) :
    ((c.arg i).run h : Except (Halt NativeError) NativeArg × Host) = (.ok a, h) := by
  unfold NativeCall.arg
  rw [ha]
  rfl

end HostM

/-! ## Allocation -/

/-- A block with the given bytes is there that was not there before, its first byte at
the address; everything else is as it was. -/
structure Memory.Added (m : Memory) (addr : Word) (data : List UInt8) (m' : Memory) : Prop where
  fresh : ∀ q, m.handleOf q = m.handleOf addr → m.resolve q = .error (.invalid q)
  start : m'.offsetOf addr = 0
  live : ∃ b, m'.Live addr b ∧ b.bytes = data
  others : ∀ q, m.handleOf q ≠ m.handleOf addr → m'.resolve q = m.resolve q

namespace Memory

variable {m : Memory} {ptrSize : Int}

theorem Bounded.added (h : m.Bounded ptrSize) {n : Nat} (hsize : n < twoTo m.offsetBits)
    (hroom : m.blocks.size < m.lastHandle) :
    m.Added (m.address (m.blocks.size + 1)) (List.replicate n 0)
      (m.add { size := n }) := by
  obtain ⟨haddr, -, -, -⟩ := address_alloc h.serves (Int.natCast_nonneg n)
    (Int.ofNat_lt.mpr hsize) (Nat.succ_le_of_lt hroom)
  have hpos : 0 < twoTo m.offsetBits := Nat.two_pow_pos _
  have hhandle : m.handleOf (m.address (m.blocks.size + 1)) = m.blocks.size + 1 := by
    unfold handleOf
    rw [haddr, Nat.mul_div_cancel _ hpos]
  refine ⟨fun q hq => ?_, ?_, ⟨_, ⟨?_, m.blocks.size, hhandle, ?_⟩, Block.bytes_fresh n⟩, fun q hq => ?_⟩
  · rw [hhandle] at hq
    rw [Shows.resolve_eq hq, Array.getElem?_eq_none (Nat.le_refl _)]
  · show (m.address (m.blocks.size + 1)).toNat % twoTo m.offsetBits = 0
    rw [haddr, Nat.mul_mod_left]
  · intro h0
    rw [h0] at hhandle
    unfold handleOf at hhandle
    rw [show (0 : Word).toNat = 0 from rfl, Nat.zero_div] at hhandle
    omega
  · show (m.blocks.push _)[m.blocks.size]? = _
    rw [Array.getElem?_push, if_pos rfl]
  · rw [hhandle] at hq
    rcases hk : m.handleOf q with _ | k
    · have hk' : handleOf (m.add { size := n }) q = 0 := hk
      unfold resolve
      rw [hk, hk']
      rfl
    · have hk' : handleOf (m.add { size := n }) q = k + 1 := hk
      have hblock : (m.add { size := n }).blocks[k]? = m.blocks[k]? := by
        show (m.blocks.push _)[k]? = _
        rw [Array.getElem?_push, if_neg (by omega)]
      rw [Shows.resolve_eq hk, Shows.resolve_eq hk', hblock]

end Memory

namespace Library

theorem run_sizeOfWord (n : Word) (h : Host) :
    ((sizeOfWord n).run h : Except (Halt NativeError) Int × Host) =
      if n.toNat < 0x8000000000000000 then (.ok n.toNat, h)
      else (.error (.failed (.text "out of range")), h) := by
  unfold sizeOfWord
  split <;> rfl

theorem run_calloc {c : NativeCall} {x y : NativeArg} (hargs : c.args = [x, y])
    (hx : x.rep.cls = .uint) (hy : y.rep.cls = .uint) (h : Host) :
    ((calloc c).run h : Except (Halt NativeError) Word × Host) =
      if (x.bits * y.bits).toNat < 0x8000000000000000 then
        (HostM.request (Memory.alloc (x.bits * y.bits).toNat)).run h
      else (.error (.failed (.text "out of range")), h) := by
  have huint : ∀ {a : NativeArg}, a.rep.cls = .uint → a.uint = a.bits := fun ha => by
    unfold NativeArg.uint
    rw [ha, if_neg (by decide)]
  unfold calloc
  rw [run_bind, HostM.run_arg (a := x) (by rw [hargs]; rfl)]
  dsimp only
  rw [run_bind, HostM.run_arg (a := y) (by rw [hargs]; rfl)]
  dsimp only
  rw [run_bind, run_sizeOfWord, huint hx, huint hy]
  by_cases hlt : (x.bits * y.bits).toNat < 0x8000000000000000
  · rw [if_pos hlt, if_pos hlt]
  · rw [if_neg hlt, if_neg hlt]

theorem toNat_nuint_lt {target : Target} (h4 : target.ptrSize = 4) {w : Word}
    (hw : (Builtin.nuint.rep target).normalize w = w) : w.toNat < 2 ^ 32 := by
  have hrep : Builtin.nuint.rep target = { cls := .uint, size := 4 } := by
    show ({ cls := .uint, size := target.addressSize } : Rep) = _
    unfold Target.addressSize Layout.pointerLayout
    rw [h4]
    rfl
  rw [hrep] at hw
  have hlow := Word.toNat_and_lowMask w (n := 32) (by decide) (by decide)
  have hnormal : w &&& Word.lowMask (32 : Nat) = w := hw
  rw [hnormal] at hlow
  rw [hlow]
  exact Nat.mod_lt _ (by decide)

/-- If the product of the arguments is below 2^64, as it is for 4-byte pointers, `calloc`
gives the address of a fresh block of exactly that many zeros, whenever addresses have
room for it; otherwise it fails and leaves all as it was. -/
theorem calloc_gives {target : Target} {c : NativeCall} {host : Host} {a b : Word}
    (hm : host.memory.Reached target.ptrSize)
    (hargs : c.args = [⟨Builtin.nuint.rep target, a⟩, ⟨Builtin.nuint.rep target, b⟩])
    (ha : (Builtin.nuint.rep target).normalize a = a)
    (hb : (Builtin.nuint.rep target).normalize b = b)
    (hproduct : target.ptrSize = 4 ∨ a.toNat * b.toNat < 2 ^ 64) :
    (∀ p host', ((calloc c).run host : Except (Halt NativeError) Word × Host) = (.ok p, host') →
      ∃ m', host' = { host with memory := m' } ∧
        host.memory.Added p (List.replicate (a.toNat * b.toNat) 0) m') ∧
    (∀ e host', ((calloc c).run host : Except (Halt NativeError) Word × Host) = (.error e, host') →
      host' = host ∧ ∃ why, e = .failed why) ∧
    ((∃ p host', ((calloc c).run host : Except (Halt NativeError) Word × Host) = (.ok p, host')) ↔
      a.toNat * b.toNat < twoTo host.memory.offsetBits ∧
        host.memory.blocks.size < host.memory.lastHandle) := by
  have hbounded := hm.bounded
  have hbits := hbounded.twoTo_le
  have hlt : a.toNat * b.toNat < 2 ^ 64 := by
    rcases hproduct with h4 | hlt
    · calc a.toNat * b.toNat < 2 ^ 32 * 2 ^ 32 :=
            Nat.mul_lt_mul'' (toNat_nuint_lt h4 ha) (toNat_nuint_lt h4 hb)
        _ = 2 ^ 64 := by decide
    · exact hlt
  have hmul : (a * b).toNat = a.toNat * b.toNat := by
    rw [UInt64.toNat_mul, Nat.mod_eq_of_lt hlt]
  have hrun := run_calloc hargs rfl rfl host
  dsimp only at hrun
  rw [hmul] at hrun
  by_cases hfits : a.toNat * b.toNat < twoTo host.memory.offsetBits ∧
      host.memory.blocks.size < host.memory.lastHandle
  · have hadded := hbounded.added hfits.1 hfits.2
    rw [if_pos (by omega), HostM.run_request, Memory.run_alloc, if_neg (by omega),
      if_neg (by omega)] at hrun
    rw [hrun]
    refine ⟨fun p host' h => ?_, fun e host' h => ?_, fun _ => hfits, fun _ => ⟨_, _, rfl⟩⟩
    · injection h with hp hhost
      exact ⟨_, hhost.symm, Except.ok.inj hp ▸ hadded⟩
    · injection h with he
      cases he
  · have hfails : ∃ why, ((calloc c).run host : Except (Halt NativeError) Word × Host) =
        (.error (.failed why), host) := by
      by_cases hword : a.toNat * b.toNat < 0x8000000000000000
      · rw [if_pos hword, HostM.run_request, Memory.run_alloc] at hrun
        by_cases hsize : a.toNat * b.toNat < twoTo host.memory.offsetBits
        · rw [if_neg (by omega), if_pos (by omega)] at hrun
          exact ⟨_, hrun⟩
        · rw [if_pos (by omega)] at hrun
          exact ⟨_, hrun⟩
      · rw [if_neg hword] at hrun
        exact ⟨_, hrun⟩
    obtain ⟨why, hwhy⟩ := hfails
    rw [hwhy]
    refine ⟨fun p host' h => ?_, fun e host' h => ?_, fun hok => ?_, fun h => absurd h hfits⟩
    · injection h with hp
      cases hp
    · injection h with he hhost
      exact ⟨hhost.symm, why, (Except.error.inj he).symm⟩
    · obtain ⟨p, host', h⟩ := hok
      injection h with hp
      cases hp

def callocCall (count size : Word) : NativeCall where
  name := "calloc"
  args := [⟨Builtin.nuint.rep .amd64, count⟩, ⟨Builtin.nuint.rep .amd64, size⟩]
  ret := Builtin.voidPtr.rep .amd64

/-- Ten numbers of four bytes are forty zeros. -/
theorem calloc_ten_numbers :
    ∃ p host', ((calloc (callocCall 10 4)).run { memory := .forPointers 8 } :
        Except (Halt NativeError) Word × Host) = (.ok p, host') ∧
      (Memory.forPointers 8).Added p (List.replicate 40 0) host'.memory := by
  have hstart : ({ memory := .forPointers 8 } : Host).memory.Reached Target.amd64.ptrSize := .start
  have h := calloc_gives (c := callocCall 10 4) hstart rfl (by decide) (by decide)
    (.inr (by decide))
  obtain ⟨p, host', hp⟩ := h.2.2.mpr ⟨by decide, by decide⟩
  obtain ⟨m', rfl, hadded⟩ := h.1 p host' hp
  exact ⟨p, _, hp, hadded⟩

/-- The product of 2^32 and 2^32 is 2^64, and the block is empty. -/
theorem calloc_wraps :
    ∃ p host', ((calloc (callocCall 0x100000000 0x100000000)).run { memory := .forPointers 8 } :
        Except (Halt NativeError) Word × Host) = (.ok p, host') ∧
      host'.memory.Live p { size := 0 } ∧
      ¬ (Memory.forPointers 8).Added p (List.replicate (0x100000000 * 0x100000000) 0)
        host'.memory := by
  have hlive : ((Memory.forPointers 8).add { size := 0 }).Live 0x100000000 { size := 0 } :=
    ⟨by decide, 0, by decide, rfl⟩
  have hrun := run_calloc (c := callocCall 0x100000000 0x100000000) rfl rfl rfl
    { memory := .forPointers 8 }
  rw [if_pos (by decide), HostM.run_request, Memory.run_alloc, if_neg (by decide),
    if_neg (by decide)] at hrun
  refine ⟨_, _, hrun, hlive, fun hadded => ?_⟩
  obtain ⟨b, hb, hbytes⟩ := hadded.live
  obtain rfl := hb.unique hlive
  have hlength := congrArg List.length hbytes
  rw [List.length_replicate] at hlength
  exact absurd hlength (by decide)

end Library

/-! ## Formatted output -/

namespace Memory

/-- The bytes stand at the address, in a live block, with the first zero behind them. -/
def Spells (m : Memory) (addr : Word) (s : Bytes) : Prop :=
  ∃ b rest, m.Live addr b ∧ b.bytes.drop (m.offsetOf addr) = s ++ 0 :: rest ∧ 0 ∉ s

theorem Spells.run_readString {m : Memory} {addr : Word} {s : Bytes} (h : m.Spells addr s) :
    ((readString addr).run m : Except (Halt Fault) Bytes × Memory) = (.ok s, m) := by
  obtain ⟨b, rest, hlive, hbytes, hzero⟩ := h
  have hle : m.offsetOf addr ≤ b.size := by
    by_contra hgt
    rw [List.drop_eq_nil_of_le (by rw [Block.length_bytes]; omega)] at hbytes
    exact absurd hbytes.symm (by simp)
  have hstring : b.stringFrom? (m.offsetOf addr) = some s := by
    rw [b.stringFrom_eq hle, hbytes, if_pos (by simp), List.takeWhile_append_of_pos]
    · simp
    · intro x hx
      exact decide_eq_true fun h0 => hzero (h0 ▸ hx)
  rw [Memory.run_readString, live_iff.mpr hlive]
  dsimp only
  rw [if_neg (by omega), hstring]

end Memory

namespace Format

/-- A part of a format, with what a conversion is about. -/
inductive Part where
  | literal (bs : Bytes)
  | percent
  | number (n : Int)
  | string (s : Bytes)
  | letter (n : Int)

namespace Part

def spelled : Part → Bytes
  | .literal bs => bs
  | .percent => [37, 37]
  | .number _ => [37, 100]
  | .string _ => [37, 115]
  | .letter _ => [37, 99]

def written : Part → Bytes
  | .literal bs => bs
  | .percent => [37]
  | .number n => bytesOf (decimal n)
  | .string s => s
  | .letter n => [UInt8.ofNat (n % 256).toNat]

def letter? : Part → Option UInt8
  | .literal _ | .percent => none
  | .number _ => some 100
  | .string _ => some 115
  | .letter _ => some 99

def Plain : Part → Prop
  | .literal bs => 37 ∉ bs
  | _ => True

def Narrow : Part → Prop
  | .letter n => n % 256 < 128
  | _ => True

/-- The argument is what the part asks for: the number, the text at an address, or a letter. -/
def Given (m : Memory) : Part → NativeArg → Prop
  | .number n, a => a.rep.cls = .int ∧ a.rep.IsInteger ∧ a.rep.Holds n ∧ a.bits = Word.ofInt n
  | .string s, a => m.Spells a.bits s
  | .letter n, a => a.rep.IsInteger ∧ a.rep.Holds n ∧ a.bits = Word.ofInt n
  | _, _ => False

end Part

def spelled (parts : List Part) : Bytes := parts.flatMap Part.spelled

def written (parts : List Part) : Bytes := parts.flatMap Part.written

def conversions (parts : List Part) : List Part := parts.filter (·.letter?.isSome)

/-- Formatting from a supply of arguments comes to an answer and leaves the host alone. -/
def Comes {α : Type} (act : FormatM α) (s : Supply) (h : Host)
    (r : Except (Halt NativeError) (α × Supply)) : Prop :=
  ((act.run s).run h : Except (Halt NativeError) (α × Supply) × Host) = (r, h)

namespace Comes

variable {α β : Type} {s s' : Supply} {h : Host}

theorem pure' {a : α} : Comes (pure a) s h (.ok (a, s)) := rfl

theorem bind' {act : FormatM α} {k : α → FormatM β} {a : α}
    {r : Except (Halt NativeError) (β × Supply)} (ha : Comes act s h (.ok (a, s')))
    (hk : Comes (k a) s' h r) : Comes (act >>= k) s h r := by
  unfold Comes at ha hk ⊢
  rw [StateT.run_bind, run_bind, ha]
  exact hk

theorem bind_error {act : FormatM α} {k : α → FormatM β} {e : Halt NativeError}
    (ha : Comes act s h (.error e)) : Comes (act >>= k) s h (.error e) := by
  unfold Comes at ha ⊢
  rw [StateT.run_bind, run_bind, ha]

theorem lift' {act : HostM α} {r : Except (Halt NativeError) α}
    (hr : (act.run h : Except (Halt NativeError) α × Host) = (r, h)) :
    Comes (liftM act) s h (r.map fun a => (a, s)) := by
  show ((act >>= fun a => pure (a, s)).run h : Except (Halt NativeError) (α × Supply) × Host) = _
  rw [run_bind, hr]
  cases r <;> rfl

end Comes

/-! ### Conversions -/

def letters : List UInt8 := [100, 115, 99]

theorem isLetter_of_mem : ∀ l ∈ letters, isLetter l = true := by
  simp [letters, isLetter, isOneOf]

theorem readConversion_letter {l : UInt8} (hl : l ∈ letters) (rest : Bytes) :
    readConversion (l :: rest) = ({ letter := some l }, rest) := by
  have hclass : isOneOf "-+ 0#" l = false ∧ isOneOf "0123456789" l = false ∧
      isOneOf "hlLqjzt" l = false ∧ l ≠ 42 ∧ l ≠ 46 := by
    revert l
    simp [letters, isOneOf]
  obtain ⟨hflag, hdigit, hlength, hstar, hpoint⟩ := hclass
  have hcount : readCount (l :: rest) = (.digits [], l :: rest) := by
    unfold readCount
    split
    · next heq => exact absurd (List.cons.inj heq).1 hstar
    · simp [hdigit]
  have hprec : readPrec (l :: rest) = (none, l :: rest) := by
    unfold readPrec
    split
    · next heq => exact absurd (List.cons.inj heq).1 hpoint
    · rfl
  unfold readConversion
  simp [hflag, hlength, hcount, hprec]

theorem comes_convert {l : UInt8} (hl : l ∈ letters) {a : NativeArg} (rest : List NativeArg)
    (used : Nat) {h : Host} {r : Except (Halt NativeError) Bytes}
    (hr : ((renderArg [] l a).run h : Except (Halt NativeError) Bytes × Host) = (r, h)) :
    Comes (convert { letter := some l }) { args := a :: rest, used } h
      (r.map fun text => (text, { args := rest, used := used + 1 })) := by
  unfold convert
  simp only [isLetter_of_mem l hl]
  exact Comes.lift' hr

theorem comes_convert_none {l : UInt8} (hl : l ∈ letters) {used : Nat} {h : Host} :
    Comes (convert { letter := some l }) { args := [], used } h
      (.error (.failed (.text (Malformed.missingArgument (used + 1)).message))) := by
  unfold convert
  simp only [isLetter_of_mem l hl]
  rfl

theorem writeDirective_verb {verb : Char} (hverb : verb ∈ ['d', 's', 'c']) (d : Datum) :
    writeDirective [verb] d = directive {} verb d := by
  have hnil : bytesOf (String.ofList []) = [] := by decide +kernel
  have hall : ∀ verb ∈ ['d', 's', 'c'], writeDirective [verb] d =
      directive {} verb d ++ bytesOf (String.ofList []) := by
    intro verb hverb
    simp only [List.mem_cons, List.not_mem_nil, or_false] at hverb
    rcases hverb with rfl | rfl | rfl <;> rfl
  rw [hall verb hverb, hnil, List.append_nil]

theorem pad_plain (bs : Bytes) : ({} : Flags).pad bs = bs := by
  unfold Flags.pad Flags.padding
  simp

theorem directive_int (i : Int) : directive {} 'd' (.int i) = bytesOf (decimal i) := by
  have hdigits : directive {} 'd' (.int i) = bytesOf (String.ofList
      (if i < 0 then '-' :: Nat.toDigits 10 i.natAbs else Nat.toDigits 10 i.natAbs)) := by
    show integerText {} 10 false (decide (i < 0)) i.natAbs = _
    unfold integerText Flags.padBlank Flags.pad
    simp [baseDigits, Flags.zeroPadded, Flags.padding]
  rw [hdigits]
  unfold decimal decimalNat
  split
  · rw [String.ofList_cons]
    rfl
  · rfl

theorem directive_bytes (bs : Bytes) : directive {} 's' (.bytes bs) = bs := pad_plain bs

theorem directive_rune {n : Nat} (hn : n < 128) : directive {} 'c' (.rune n) = [UInt8.ofNat n] := by
  have hchar : ∀ n : Fin 128, bytesOfChar (Char.ofNat n) = [UInt8.ofNat n] := by decide +kernel
  exact (pad_plain _).trans (hchar ⟨n, hn⟩)

theorem renderArg_number (a : NativeArg) (h : Host) :
    ((renderArg [] 100 a).run h : Except (Halt NativeError) Bytes × Host) =
      (.ok (bytesOf (decimal a.int)), h) := by
  have hrun : ((renderArg [] 100 a).run h : Except (Halt NativeError) Bytes × Host) =
      (.ok (writeDirective ['d'] (.int a.int)), h) := rfl
  rw [hrun, writeDirective_verb (by decide), directive_int]

theorem renderArg_string {a : NativeArg} {s : Bytes} {h : Host} (hs : h.memory.Spells a.bits s) :
    ((renderArg [] 115 a).run h : Except (Halt NativeError) Bytes × Host) = (.ok s, h) := by
  have hstring : (a.string.run h : Except (Halt NativeError) Bytes × Host) = (.ok s, h) := by
    unfold NativeArg.string
    rw [HostM.run_request, hs.run_readString]
  have hrun : ((renderArg [] 115 a).run h : Except (Halt NativeError) Bytes × Host) =
      ((do return writeDirective ['s'] (.bytes (← a.string)) : HostM Bytes).run h) := rfl
  rw [hrun, run_bind, hstring]
  dsimp only
  rw [writeDirective_verb (by decide), directive_bytes]
  rfl

theorem renderArg_letter {a : NativeArg} (h : Host) (hlow : (Word.ofInt a.int).toUInt8.toNat < 128) :
    ((renderArg [] 99 a).run h : Except (Halt NativeError) Bytes × Host) =
      (.ok [(Word.ofInt a.int).toUInt8], h) := by
  have hrun : ((renderArg [] 99 a).run h : Except (Halt NativeError) Bytes × Host) =
      (.ok (writeDirective ['c'] (.rune (Word.ofInt a.int).toUInt8.toNat)), h) := rfl
  rw [hrun, writeDirective_verb (by decide), directive_rune hlow, UInt8.ofNat_toNat]

/-- If it ends with an error then that is a failure, and no crash. -/
def Answers {α : Type} (r : Except (Halt NativeError) α) : Prop :=
  ∀ e, r = .error e → ∃ why, e = .failed why

theorem answers_ok {α : Type} (a : α) : Answers (.ok a) := fun e he => by cases he

theorem answers_failed {α : Type} (why : NativeError) :
    Answers (.error (.failed why) : Except (Halt NativeError) α) :=
  fun _ he => ⟨why, (Except.error.inj he).symm⟩

theorem string_answers (a : NativeArg) (h : Host) :
    ∃ r, (a.string.run h : Except (Halt NativeError) Bytes × Host) = (r, h) ∧ Answers r := by
  unfold NativeArg.string
  rw [HostM.run_request, Memory.run_readString]
  cases h.memory.resolve a.bits with
  | error f => exact ⟨_, rfl, answers_failed _⟩
  | ok b =>
    dsimp only
    by_cases hin : b.size < h.memory.offsetOf a.bits
    · rw [if_pos hin]
      exact ⟨_, rfl, answers_failed _⟩
    · rw [if_neg hin]
      cases b.stringFrom? (h.memory.offsetOf a.bits) with
      | none => exact ⟨_, rfl, answers_failed _⟩
      | some s => exact ⟨_, rfl, answers_ok s⟩

theorem renderArg_answers {l : UInt8} (hl : l ∈ letters) (a : NativeArg) (h : Host) :
    ∃ r, ((renderArg [] l a).run h : Except (Halt NativeError) Bytes × Host) = (r, h) ∧
      Answers r := by
  simp only [letters, List.mem_cons, List.not_mem_nil, or_false] at hl
  rcases hl with rfl | rfl | rfl
  · exact ⟨_, renderArg_number a h, answers_ok _⟩
  · obtain ⟨r, hr, hanswers⟩ := string_answers a h
    have hrun : ((renderArg [] 115 a).run h : Except (Halt NativeError) Bytes × Host) =
        ((do return writeDirective ['s'] (.bytes (← a.string)) : HostM Bytes).run h) := rfl
    rw [hrun, run_bind, hr]
    cases r with
    | error e => exact ⟨_, rfl, hanswers⟩
    | ok s => exact ⟨_, rfl, answers_ok _⟩
  · exact ⟨_, rfl, answers_ok _⟩

/-! ### Formats -/

variable {fuel : Nat} {rest : Bytes} {s : Supply} {h : Host}

theorem renderWithin_byte {b : UInt8} (hb : b ≠ 37) (fuel : Nat) (rest : Bytes) :
    renderWithin (fuel + 1) (b :: rest) = (do return b :: (← renderWithin fuel rest)) := by
  rw [renderWithin]
  exact hb

theorem renderWithin_percent (fuel : Nat) (rest : Bytes) :
    renderWithin (fuel + 1) (37 :: 37 :: rest) = (do return 37 :: (← renderWithin fuel rest)) := by
  rw [renderWithin]

theorem renderWithin_conversion {l : UInt8} (hl : l ∈ letters) (fuel : Nat) (rest : Bytes) :
    renderWithin (fuel + 1) (37 :: l :: rest) =
      (do return (← convert { letter := some l }) ++ (← renderWithin fuel rest)) := by
  have hne : l ≠ 37 := (by simp [letters] : ∀ l ∈ letters, l ≠ 37) l hl
  rw [renderWithin, readConversion_letter hl]
  · exact fun heq => by cases heq
  · exact fun _ heq => hne (List.cons.inj heq).1

def prefixed (front : Bytes) (answer : Bytes × Supply) : Bytes × Supply :=
  (front ++ answer.1, answer.2)

theorem Comes.prefixed {act : FormatM Bytes} {r : Except (Halt NativeError) (Bytes × Supply)}
    (hr : Comes act s h r) (front : Bytes) :
    Comes (do return front ++ (← act)) s h (r.map (prefixed front)) := by
  cases r with
  | error e => exact .bind_error hr
  | ok answer => exact .bind' hr .pure'

theorem comes_literal {bs : Bytes} (hbs : 37 ∉ bs)
    {r : Except (Halt NativeError) (Bytes × Supply)} (hr : Comes (renderWithin fuel rest) s h r) :
    Comes (renderWithin (bs.length + fuel) (bs ++ rest)) s h (r.map (prefixed bs)) := by
  induction bs with
  | nil =>
    have hnil : r.map (prefixed []) = r := by cases r <;> rfl
    rw [hnil, List.length_nil, Nat.zero_add, List.nil_append]
    exact hr
  | cons b bs ih =>
    have hb : b ≠ 37 := fun hb => hbs (hb ▸ List.mem_cons_self)
    have hnext := (ih fun hmem => hbs (List.mem_cons_of_mem b hmem)).prefixed [b]
    have hall : (r.map (prefixed bs)).map (prefixed [b]) = r.map (prefixed (b :: bs)) := by
      cases r <;> rfl
    rw [List.length_cons, Nat.add_right_comm, List.cons_append, renderWithin_byte hb, ← hall]
    exact hnext

theorem comes_copied {p : Part} (hp : p.letter? = none) (hplain : p.Plain)
    (hfuel : (p.spelled ++ rest).length ≤ fuel) :
    ∃ fuel', rest.length ≤ fuel' ∧ ∀ r, Comes (renderWithin fuel' rest) s h r →
      Comes (renderWithin fuel (p.spelled ++ rest)) s h (r.map (prefixed p.written)) := by
  rw [List.length_append] at hfuel
  obtain ⟨n, rfl⟩ := Nat.le.dest (Nat.le_trans (Nat.le_add_right _ _) hfuel)
  cases p with
  | literal bs =>
    exact ⟨n, Nat.le_of_add_le_add_left hfuel, fun r hr => comes_literal hplain hr⟩
  | percent =>
    have hfuel' : rest.length ≤ n + 1 := by
      change 2 + rest.length ≤ 2 + n at hfuel
      omega
    refine ⟨n + 1, hfuel', fun r hr => ?_⟩
    have hstep : renderWithin (Part.percent.spelled.length + n) (Part.percent.spelled ++ rest) =
        (do return [37] ++ (← renderWithin (n + 1) rest)) := by
      rw [show Part.percent.spelled.length + n = n + 1 + 1 from Nat.add_comm 2 n]
      exact renderWithin_percent (n + 1) rest
    rw [hstep]
    exact hr.prefixed _
  | number | string | letter => cases hp

theorem Part.spelled_conversion {p : Part} {l : UInt8} (hp : p.letter? = some l) :
    p.spelled = [37, l] ∧ l ∈ letters := by
  cases p with
  | literal | percent => cases hp
  | number | string | letter =>
    obtain rfl := Option.some.inj hp
    exact ⟨rfl, by decide⟩

theorem Part.Given.renderArg {p : Part} {a : NativeArg} (hgiven : p.Given h.memory a)
    (hnarrow : p.Narrow) {l : UInt8} (hp : p.letter? = some l) :
    ((renderArg [] l a).run h : Except (Halt NativeError) Bytes × Host) = (.ok p.written, h) := by
  have hint : a.rep.IsInteger → a.int = a.bits.toInt := fun hi => by
    unfold NativeArg.int
    rw [if_neg fun hc => by rcases hi.1 with hc' | hc' <;> rw [hc'] at hc <;> cases hc]
  cases p with
  | literal | percent => cases hp
  | number n =>
    obtain rfl := Option.some.inj hp
    obtain ⟨hcls, hi, hholds, hbits⟩ := hgiven
    have hnumber := hi.number_ofInt hholds
    unfold Rep.number at hnumber
    rw [if_pos hcls, ← hbits, ← hint hi] at hnumber
    rw [renderArg_number, hnumber]
    rfl
  | string s =>
    obtain rfl := Option.some.inj hp
    exact renderArg_string hgiven
  | letter n =>
    obtain rfl := Option.some.inj hp
    obtain ⟨hi, -, hbits⟩ := hgiven
    have hword : Word.ofInt a.int = Word.ofInt n := by
      rw [hint hi, Word.ofInt_toInt, hbits]
    have hbyte : (Word.ofInt n).toUInt8 = UInt8.ofNat (n % 256).toNat := by
      have hn := Word.toNat_ofInt n
      apply UInt8.toNat_inj.mp
      rw [UInt64.toNat_toUInt8, UInt8.toNat_ofNat']
      omega
    have hnarrow' : n % 256 < 128 := hnarrow
    have hlow : (Word.ofInt a.int).toUInt8.toNat < 128 := by
      rw [hword, hbyte, UInt8.toNat_ofNat']
      omega
    rw [renderArg_letter h hlow, hword, hbyte]
    rfl

theorem conversions_copied {p : Part} (hp : p.letter? = none) (parts : List Part) :
    conversions (p :: parts) = conversions parts :=
  List.filter_cons_of_neg (by rw [hp]; decide)

theorem conversions_conversion {p : Part} {l : UInt8} (hp : p.letter? = some l)
    (parts : List Part) : conversions (p :: parts) = p :: conversions parts :=
  List.filter_cons_of_pos (by rw [hp]; rfl)

theorem spelled_conversion {p : Part} {l : UInt8} (hp : p.letter? = some l) {parts : List Part}
    (hfuel : (spelled (p :: parts)).length ≤ fuel) :
    ∃ n, (spelled parts).length ≤ n ∧ renderWithin fuel (spelled (p :: parts)) =
      (do return (← convert { letter := some l }) ++ (← renderWithin n (spelled parts))) := by
  obtain ⟨hspelled, hl⟩ := Part.spelled_conversion hp
  have hall : spelled (p :: parts) = 37 :: l :: spelled parts := by
    unfold spelled
    rw [List.flatMap_cons, hspelled]
    rfl
  rw [hall, List.length_cons, List.length_cons] at hfuel
  obtain ⟨n, rfl⟩ : ∃ n, fuel = n + 1 := ⟨fuel - 1, by omega⟩
  exact ⟨n, by omega, by rw [hall, renderWithin_conversion hl]⟩

theorem comes_parts {parts : List Part} (hplain : ∀ p ∈ parts, p.Plain)
    (hnarrow : ∀ p ∈ parts, p.Narrow) {given : List NativeArg} (more : List NativeArg)
    (hgiven : List.Forall₂ (Part.Given h.memory) (conversions parts) given) (used : Nat)
    (hfuel : (spelled parts).length ≤ fuel) :
    Comes (renderWithin fuel (spelled parts)) { args := given ++ more, used } h
      (.ok (written parts, { args := more, used := used + given.length })) := by
  induction parts generalizing fuel given used with
  | nil =>
    cases hgiven
    cases fuel <;> exact .pure'
  | cons p parts ih =>
    have hplain' : ∀ q ∈ parts, q.Plain := fun q hq => hplain q (List.mem_cons_of_mem p hq)
    have hnarrow' : ∀ q ∈ parts, q.Narrow := fun q hq => hnarrow q (List.mem_cons_of_mem p hq)
    cases hp : p.letter? with
    | none =>
      rw [conversions_copied hp] at hgiven
      obtain ⟨fuel', hfuel', hcopied⟩ := comes_copied hp (hplain p List.mem_cons_self) hfuel
      exact hcopied _ (ih hplain' hnarrow' hgiven used hfuel')
    | some l =>
      rw [conversions_conversion hp] at hgiven
      cases hgiven with
      | @cons _ a _ given ha hgiven =>
        obtain ⟨n, hn, hstep⟩ := spelled_conversion hp hfuel
        have hconvert := comes_convert (Part.spelled_conversion hp).2 (given ++ more) used
          (ha.renderArg (hnarrow p List.mem_cons_self) hp)
        rw [hstep, List.length_cons, Nat.add_comm given.length 1, ← Nat.add_assoc]
        exact .bind' hconvert ((ih hplain' hnarrow' hgiven (used + 1) hn).prefixed _)

theorem comes_short {parts : List Part} (hplain : ∀ p ∈ parts, p.Plain) {args : List NativeArg}
    (hshort : args.length < (conversions parts).length) (used : Nat)
    (hfuel : (spelled parts).length ≤ fuel) :
    ∃ why, Comes (renderWithin fuel (spelled parts)) { args, used } h (.error (.failed why)) := by
  induction parts generalizing fuel args used with
  | nil => exact absurd hshort (Nat.not_lt_zero _)
  | cons p parts ih =>
    have hplain' : ∀ q ∈ parts, q.Plain := fun q hq => hplain q (List.mem_cons_of_mem p hq)
    cases hp : p.letter? with
    | none =>
      rw [conversions_copied hp] at hshort
      obtain ⟨fuel', hfuel', hcopied⟩ := comes_copied hp (hplain p List.mem_cons_self) hfuel
      obtain ⟨why, hwhy⟩ := ih hplain' hshort used hfuel'
      exact ⟨why, hcopied _ hwhy⟩
    | some l =>
      rw [conversions_conversion hp, List.length_cons] at hshort
      have hl := (Part.spelled_conversion hp).2
      obtain ⟨n, hn, hstep⟩ := spelled_conversion hp hfuel
      rw [hstep]
      cases args with
      | nil => exact ⟨_, .bind_error (comes_convert_none hl)⟩
      | cons a args =>
        obtain ⟨r, hr, hanswers⟩ := renderArg_answers hl a h
        have hconvert := comes_convert hl args used hr
        cases r with
        | error e =>
          obtain ⟨why, rfl⟩ := hanswers e rfl
          exact ⟨why, .bind_error hconvert⟩
        | ok text =>
          obtain ⟨why, hwhy⟩ := ih hplain' (Nat.lt_of_succ_lt_succ hshort) (used + 1) hn
          exact ⟨why, .bind' hconvert (hwhy.prefixed _)⟩

end Format

namespace Library

open Format

theorem run_printf {c : NativeCall} {host : Host} {fmt : NativeArg} {args : List NativeArg}
    {format : Bytes} (hargs : c.args = fmt :: args) (hfmt : host.memory.Spells fmt.bits format)
    {r : Except (Halt NativeError) (Bytes × Supply)}
    (hr : Comes (renderWithin format.length format) { args } host r) :
    ((printf c).run host : Except (Halt NativeError) Word × Host) =
      match r with
      | .ok (text, _) =>
        (.ok (c.returnInt text.length), { host with output := host.output ++ text.toArray })
      | .error e => (.error e, host) := by
  have hstring : (fmt.string.run host : Except (Halt NativeError) Bytes × Host) =
      (.ok format, host) := by
    unfold NativeArg.string
    rw [HostM.run_request, hfmt.run_readString]
  have hrender : ((render format args).run host : Except (Halt NativeError) Bytes × Host) =
      (r.map (·.1), host) := by
    unfold render
    unfold Comes at hr
    rw [run_bind, hr]
    cases r <;> rfl
  unfold printf
  rw [run_bind, HostM.run_arg (a := fmt) (by rw [hargs]; rfl)]
  dsimp only
  rw [run_bind, hstring]
  dsimp only
  rw [run_bind, hargs, List.drop_succ_cons, List.drop_zero, hrender]
  cases r <;> rfl

/-- A format of literal bytes, percent signs and conversions of numbers, strings and
letters whose byte is below 128: its parts are written one after the other, each
conversion with the next argument, further arguments do not matter, and the result is the
length, as a number of 32 bits. With fewer arguments than conversions the call fails and
nothing happens. -/
theorem printf_writes {parts : List Part} (hplain : ∀ p ∈ parts, p.Plain) {c : NativeCall}
    {host : Host} {fmt : NativeArg} {args : List NativeArg} (hargs : c.args = fmt :: args)
    (hfmt : host.memory.Spells fmt.bits (spelled parts))
    (hret : c.ret = { cls := .int, size := 4 }) :
    (∀ given more, args = given ++ more →
      List.Forall₂ (Part.Given host.memory) (conversions parts) given →
      (∀ p ∈ parts, p.Narrow) →
      ((printf c).run host : Except (Halt NativeError) Word × Host) =
        (.ok (c.returnInt (written parts).length),
          { host with output := host.output ++ (written parts).toArray })) ∧
    ((written parts).length < 2 ^ 31 →
      c.returnInt (written parts).length = Word.ofInt (written parts).length) ∧
    (args.length < (conversions parts).length →
      ∃ why, ((printf c).run host : Except (Halt NativeError) Word × Host) =
        (.error (.failed why), host)) := by
  refine ⟨fun given more hsplit hgiven hnarrow => ?_, fun hlength => ?_, fun hshort => ?_⟩
  · have hcomes := comes_parts hplain hnarrow more hgiven 0 (Nat.le_refl _)
    rw [← hsplit] at hcomes
    exact run_printf hargs hfmt hcomes
  · have hi : c.ret.IsInteger := by
      rw [hret]
      exact ⟨.inl rfl, .inr (.inr (.inl rfl))⟩
    have hholds : c.ret.Holds (written parts).length := by
      rw [hret]
      exact ⟨by show -2 ^ 31 ≤ _; omega, by show _ ≤ 2 ^ 31 - 1; omega⟩
    unfold NativeCall.returnInt
    rw [if_neg (by rw [hret]; decide), hi.normalize_ofInt, hi.wrap_eq hholds]
  · obtain ⟨why, hwhy⟩ := comes_short (h := host) hplain hshort 0 (Nat.le_refl _)
    exact ⟨why, run_printf hargs hfmt hwhy⟩

def hostWith (s : Bytes) : Host where
  memory := (Memory.forPointers 8).add (({ size := s.length + 1 } : Block).write 0 (s ++ [0]))

def printfCall (n : Int) : NativeCall where
  name := "printf"
  args := [⟨Builtin.voidPtr.rep .amd64, 0x100000000⟩, ⟨Builtin.int32.rep .amd64, Word.ofInt n⟩]
  ret := Builtin.int32.rep .amd64

def bracketed (n : Int) : List Part := [.literal [60], .number n, .literal [62]]

theorem printf_bracketed :
    ((printf (printfCall (-12))).run (hostWith (spelled (bracketed (-12)))) :
        Except (Halt NativeError) Word × Host) =
      (.ok 5, { hostWith (spelled (bracketed (-12))) with output := #[60, 45, 49, 50, 62] }) := by
  have hspells : (hostWith (spelled (bracketed (-12)))).memory.Spells 0x100000000
      (spelled (bracketed (-12))) :=
    ⟨_, [], ⟨by decide, 0, by decide +kernel, rfl⟩, by decide +kernel, by decide⟩
  have hplain : ∀ p ∈ bracketed (-12), p.Plain := by
    intro p hp
    simp only [bracketed, List.mem_cons, List.not_mem_nil, or_false] at hp
    rcases hp with rfl | rfl | rfl
    · exact (by decide : (37 : UInt8) ∉ [60])
    · trivial
    · exact (by decide : (37 : UInt8) ∉ [62])
  have hnarrow : ∀ p ∈ bracketed (-12), p.Narrow := by
    intro p hp
    simp only [bracketed, List.mem_cons, List.not_mem_nil, or_false] at hp
    rcases hp with rfl | rfl | rfl <;> trivial
  have hgiven : Part.Given (hostWith (spelled (bracketed (-12)))).memory (.number (-12))
      ⟨Builtin.int32.rep .amd64, Word.ofInt (-12)⟩ :=
    ⟨rfl, ⟨.inl rfl, by decide⟩, ⟨by decide, by decide⟩, rfl⟩
  have h := (printf_writes hplain (c := printfCall (-12)) rfl hspells rfl).1 _ [] rfl
    (.cons hgiven .nil) hnarrow
  have hwritten : written (bracketed (-12)) = [60, 45, 49, 50, 62] := by decide +kernel
  rw [hwritten] at h
  exact h

/-- The byte 200 is written as the two bytes of the character with that number. -/
theorem printf_widens :
    written [.letter 200] = [200] ∧
      (hostWith (spelled [.letter 200])).memory.Spells 0x100000000 (spelled [.letter 200]) ∧
      Part.Given (hostWith (spelled [.letter 200])).memory (.letter 200)
        ⟨Builtin.int32.rep .amd64, Word.ofInt 200⟩ ∧
      ((printf (printfCall 200)).run (hostWith (spelled [.letter 200])) :
        Except (Halt NativeError) Word × Host) =
      (.ok 2, { hostWith (spelled [.letter 200]) with output := #[195, 136] }) := by
  have hspells : (hostWith (spelled [.letter 200])).memory.Spells 0x100000000
      (spelled [.letter 200]) :=
    ⟨_, [], ⟨by decide, 0, by decide +kernel, rfl⟩, by decide +kernel, by decide⟩
  have htext : writeDirective ['c'] (.rune (Word.ofInt 200).toUInt8.toNat) = [195, 136] := by
    decide +kernel
  have hrender : ((renderArg [] 99 ⟨Builtin.int32.rep .amd64, Word.ofInt 200⟩).run
      (hostWith (spelled [.letter 200])) : Except (Halt NativeError) Bytes × Host) =
        (.ok [195, 136], hostWith (spelled [.letter 200])) := by
    rw [← htext]
    rfl
  have hconvert := comes_convert (by decide) [] 0 hrender
  have hcomes : Comes (renderWithin 2 (spelled [.letter 200]))
      { args := [⟨Builtin.int32.rep .amd64, Word.ofInt 200⟩] } (hostWith (spelled [.letter 200]))
      (.ok ([195, 136] ++ [], { args := [], used := 1 })) := .bind' hconvert (.bind' .pure' .pure')
  exact ⟨by decide +kernel, hspells, ⟨⟨.inl rfl, by decide⟩, ⟨by decide, by decide⟩, rfl⟩,
    run_printf (c := printfCall 200) rfl hspells hcomes⟩

end Library

end TypedIR
