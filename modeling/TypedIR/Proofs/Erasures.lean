import TypedIR.Build.Types
import TypedIR.Proofs.FoundedTables
import TypedIR.Proofs.Reps
import TypedIR.Proofs.TypeWalks

/-
  Types without their names.

  A client makes types by constructors, nested to any depth (`TypeTerm`). What is left
  of a type when names are dropped is its erasure, a tree in which the fields of a
  struct have their offsets and truth values are a kind of their own.

  1. The erasure settles the place that a type takes on a target
     (`Erasure.layout?`) and how its values are held (`Erasure.rep?`).
  2. In a table, types are found under any names. `Tables.Erased s E id` says that the
     type `id` is `E` when names are dropped. It is so for one `E` at most
     (`Erased.unique`), and stays so when the table grows (`Erased.onward`).
-/

namespace TypedIR

/-- A type without names. -/
inductive Erasure where
  | void
  | bool
  | int (width : UInt8)
  | uint (width : UInt8)
  | float (width : UInt8)
  | pointer (target : Erasure)
  | struct (offsets : List Int) (fields : List Erasure)
  | signature (abi : Abi) (params : List Erasure) (result : Erasure)

/-- What constructors make. -/
inductive TypeTerm where
  | builtin (b : Builtin)
  | pointer (target : TypeTerm)
  | struct (fields : List TypeTerm)
  | signature (params : List TypeTerm) (result : TypeTerm) (abi : Abi)
  | named (base : TypeTerm) (name : String)

namespace Layout

/-- The layout of a struct whose first fields are placed in `p`, from the layouts of the
others. -/
def placeAll : Partial → List (Option Layout) → Option Layout
  | p, [] => some p.finish
  | _, none :: _ => none
  | p, some l :: rest => if l.size = 0 then none else placeAll (p.place l) rest

theorem placed_eq_placeAll (ask : TypeId → Option Layout) (p : Partial) (fields : List TypeId) :
    placed ask p fields = placeAll p (fields.map ask) := by
  induction fields generalizing p with
  | nil => rfl
  | cons f rest ih =>
    rw [List.map_cons, placed]
    cases ask f with
    | none => rfl
    | some l =>
      dsimp only [placeAll]
      rw [ih]

end Layout

namespace Erasure

open Layout

@[induction_eliminator]
theorem induct {P : Erasure → Prop} (void : P .void) (bool : P .bool) (int : ∀ w, P (.int w))
    (uint : ∀ w, P (.uint w)) (float : ∀ w, P (.float w)) (pointer : ∀ E, P E → P (.pointer E))
    (struct : ∀ offsets fields, (∀ E ∈ fields, P E) → P (.struct offsets fields))
    (signature : ∀ abi params result, (∀ E ∈ params, P E) → P result →
      P (.signature abi params result)) (E : Erasure) : P E :=
  @Erasure.rec P (fun Es => ∀ E ∈ Es, P E) void bool int uint float pointer struct signature
    (List.forall_mem_nil _) (fun _ _ h hs => List.forall_mem_cons.mpr ⟨h, hs⟩) E

def kind : Erasure → TyKind
  | .void => .void
  | .bool => .bool
  | .int _ | .uint _ | .float _ => .primitive
  | .pointer _ => .pointer
  | .struct _ _ => .struct
  | .signature _ _ _ => .signature

def baseKind : Erasure → Kind
  | .void => .void
  | .bool | .int _ => .int
  | .uint _ => .uint
  | .float _ => .float
  | .pointer _ => .pointer
  | .struct _ _ => .struct
  | .signature _ _ _ => .signature

mutual

/-- The layout of what is left of a type without tags and names. -/
def layout? (target : Target) : Erasure → Option Layout
  | .void => some empty
  | .bool => (numberLayout 1 0).toOption
  | .int w | .uint w =>
    if w = 0 then some (pointerLayout target) else (numberLayout (w.toNat / 8) 0).toOption
  | .float w =>
    if w = 32 ∨ w = 64 then (numberLayout (w.toNat / 8) 0).toOption else none
  | .pointer _ | .signature _ _ _ => some (pointerLayout target)
  | .struct _ fields => placeAll {} (layouts? target fields)

def layouts? (target : Target) : List Erasure → List (Option Layout)
  | [] => []
  | E :: rest => layout? target E :: layouts? target rest

end

def cls : Erasure → Class
  | .void => .void
  | .bool | .int _ => .int
  | .uint _ => .uint
  | .float _ => .float
  | .pointer _ | .signature _ _ _ => .pointer
  | .struct _ _ => .struct

def rep? (target : Target) (E : Erasure) : Option Rep :=
  (E.layout? target).map fun l => { cls := E.cls, size := l.size }

theorem layouts?_eq (target : Target) (Es : List Erasure) :
    layouts? target Es = Es.map (layout? target) := by
  induction Es with
  | nil => rfl
  | cons E rest ih => rw [layouts?, ih, List.map_cons]

end Erasure

def Builtin.erase : Builtin → Erasure
  | .void => .void
  | .bool => .bool
  | .int8 => .int 8
  | .int16 => .int 16
  | .int32 => .int 32
  | .int64 => .int 64
  | .uint8 => .uint 8
  | .uint16 => .uint 16
  | .uint32 => .uint 32
  | .uint64 => .uint 64
  | .nint => .int 0
  | .nuint => .uint 0
  | .float32 => .float 32
  | .float64 => .float 64
  | .voidPtr => .pointer .void
  | .stringz => .pointer (.uint 8)

namespace TypeTerm

mutual

/-- What is left of a type when names are dropped; the offsets of fields depend on the
target. -/
def erase (target : Target) : TypeTerm → Erasure
  | .builtin b => b.erase
  | .pointer x => .pointer (erase target x)
  | .struct xs =>
    let fields := eraseAll target xs
    let placed := Layout.placeAll {} (fields.map (Erasure.layout? target))
    .struct ((placed.map (·.offsets)).getD []) fields
  | .signature params result abi => .signature abi (eraseAll target params) (erase target result)
  | .named x _ => erase target x

def eraseAll (target : Target) : List TypeTerm → List Erasure
  | [] => []
  | x :: rest => erase target x :: eraseAll target rest

end

theorem eraseAll_eq (target : Target) (xs : List TypeTerm) :
    eraseAll target xs = xs.map (erase target) := by
  induction xs with
  | nil => rfl
  | cons x rest ih => rw [eraseAll, ih, List.map_cons]

end TypeTerm

namespace Tables

/-- Below the names of `id` there is `d` of the kind, and it is no truth value. -/
structure Base (s : Tables) (k : Kind) (id : TypeId) (d : Descriptor) : Prop where
  plain : s.types.isBool id = false
  found : s.types.find? (s.types.underlying id) = some d
  kind : d.kind = k

mutual

/-- The type `id` is `E` when names are dropped. The layout of a struct was given out. -/
def Erased (s : Tables) : Erasure → TypeId → Prop
  | .void, id => ∃ d, s.Base .void id d
  | .bool, id => s.types.isBool id = true ∧ s.types.find? (s.types.underlying id) = some (.int 8)
  | .int w, id => ∃ d, s.Base .int id d ∧ d.width = w
  | .uint w, id => ∃ d, s.Base .uint id d ∧ d.width = w
  | .float w, id => ∃ d, s.Base .float id d ∧ d.width = w
  | .pointer E, id => ∃ d, s.Base .pointer id d ∧ Erased s E d.elem
  | .struct offsets fields, id => ∃ d, s.Base .struct id d ∧
    AllErased s fields (s.types.parts d) ∧
    ∃ l, s.layouts.lookup (s.types.underlying id) = some (.ok l) ∧ l.offsets = offsets
  | .signature abi params result, id => ∃ d, s.Base .signature id d ∧ ∃ g,
    s.types.signature? (s.types.underlying id) = some g ∧ g.abi = abi ∧
    AllErased s params g.params ∧ Erased s result g.result

def AllErased (s : Tables) : List Erasure → List TypeId → Prop
  | [], [] => True
  | E :: Es, id :: ids => Erased s E id ∧ AllErased s Es ids
  | _, _ => False

end

theorem allErased_iff (s : Tables) (Es : List Erasure) (ids : List TypeId) :
    s.AllErased Es ids ↔ List.Forall₂ s.Erased Es ids := by
  induction Es generalizing ids with
  | nil =>
    cases ids with
    | nil => exact ⟨fun _ => .nil, fun _ => trivial⟩
    | cons id ids => exact ⟨False.elim, nofun⟩
  | cons E Es ih =>
    cases ids with
    | nil => exact ⟨False.elim, nofun⟩
    | cons id ids =>
      rw [List.forall₂_cons, ← ih]
      exact Iff.rfl

variable {s s' : Tables} {E F : Erasure} {id : TypeId} {d d' : Descriptor}

/-! ### What is seen of a type -/

theorem Base.unique {k : Kind} (h : s.Base k id d) (h' : s.Base k id d') : d = d' :=
  Option.mem_unique h.found h'.found

theorem Erased.base (h : s.Erased E id) :
    ∃ d, s.types.find? (s.types.underlying id) = some d ∧ d.kind = E.baseKind ∧
      (s.types.isBool id = true ↔ E = .bool) := by
  have hbase : ∀ {k d}, s.Base k id d → k = E.baseKind → E ≠ .bool →
      ∃ d, s.types.find? (s.types.underlying id) = some d ∧ d.kind = E.baseKind ∧
        (s.types.isBool id = true ↔ E = .bool) :=
    fun hd hk hE => ⟨_, hd.found, hd.kind.trans hk, by simp [hd.plain, hE]⟩
  cases E with
  | bool => exact ⟨_, h.2, rfl, by simp [h.1]⟩
  | void =>
    obtain ⟨d, hd⟩ := h
    exact hbase hd rfl nofun
  | int | uint | float | pointer | struct | signature =>
    obtain ⟨d, hd, -⟩ := h
    exact hbase hd rfl nofun

theorem Erased.known (h : s.Erased E id) : ∃ d, s.types.find? id = some d := by
  obtain ⟨d, hd, -⟩ := h.base
  exact TypeTable.known_of_underlying hd

theorem Erased.tyKind (h : s.Erased E id) : s.types.tyKind? id = some E.kind := by
  obtain ⟨d, hd, hk, hbool⟩ := h.base
  have hkind : s.types.kindOf (s.types.underlying id) = E.baseKind := by
    unfold TypeTable.kindOf
    rw [hd]
    exact hk
  unfold TypeTable.tyKind?
  rw [hkind]
  cases E with
  | bool => rw [if_pos (hbool.mpr rfl)]; rfl
  | void | int | uint | float | pointer | struct | signature =>
    rw [if_neg fun hb => nomatch hbool.mp hb]
    rfl

theorem Erased.wrap (h : s.Erased E id) (rt : RuntimeId) :
    s.types.wrap? rt id = some { owner := some rt, id, kind := E.kind } := by
  unfold TypeTable.wrap?
  rw [h.tyKind, Option.map_some]

theorem allErased_unique {Es Fs : List Erasure} {ids : List TypeId}
    (h : ∀ E ∈ Es, ∀ F id, s.Erased E id → s.Erased F id → E = F)
    (hE : s.AllErased Es ids) (hF : s.AllErased Fs ids) : Es = Fs := by
  rw [allErased_iff] at hE hF
  induction hE generalizing Fs with
  | nil =>
    cases hF
    rfl
  | cons hE _ ih =>
    obtain ⟨hfirst, hrest⟩ := List.forall_mem_cons.mp h
    cases hF with
    | cons hF hFs => rw [hfirst _ _ hE hF, ih hrest hFs]

theorem Erased.sameKind (h : s.Erased E id) (h' : s.Erased F id) :
    E.baseKind = F.baseKind ∧ (E = .bool ↔ F = .bool) := by
  obtain ⟨d, hd, hk, hbool⟩ := h.base
  obtain ⟨d', hd', hk', hbool'⟩ := h'.base
  obtain rfl := Option.mem_unique hd hd'
  exact ⟨hk.symm.trans hk', hbool.symm.trans hbool'⟩

theorem Erased.unique (h : s.Erased E id) (h' : s.Erased F id) : E = F := by
  obtain ⟨hkinds, hbools⟩ := h.sameKind h'
  induction E generalizing F id with
  | void =>
    cases F with
    | void => rfl
    | _ => cases hkinds
  | bool => exact (hbools.mp rfl).symm
  | int w =>
    cases F with
    | int w' =>
      obtain ⟨d, hd, rfl⟩ := h
      obtain ⟨d', hd', rfl⟩ := h'
      rw [hd.unique hd']
    | bool => exact hbools.mpr rfl
    | _ => cases hkinds
  | uint w =>
    cases F with
    | uint w' =>
      obtain ⟨d, hd, rfl⟩ := h
      obtain ⟨d', hd', rfl⟩ := h'
      rw [hd.unique hd']
    | _ => cases hkinds
  | float w =>
    cases F with
    | float w' =>
      obtain ⟨d, hd, rfl⟩ := h
      obtain ⟨d', hd', rfl⟩ := h'
      rw [hd.unique hd']
    | _ => cases hkinds
  | pointer E ih =>
    cases F with
    | pointer F =>
      obtain ⟨d, hd, hE⟩ := h
      obtain ⟨d', hd', hF⟩ := h'
      obtain rfl := hd.unique hd'
      rw [ih hE hF (hE.sameKind hF).1 (hE.sameKind hF).2]
    | _ => cases hkinds
  | struct offsets fields ih =>
    cases F with
    | struct offsets' fields' =>
      obtain ⟨d, hd, hE, l, hl, rfl⟩ := h
      obtain ⟨d', hd', hF, l', hl', rfl⟩ := h'
      obtain rfl := hd.unique hd'
      obtain rfl := Except.ok.inj (Option.mem_unique hl hl')
      have heach : ∀ E ∈ fields, ∀ F id, s.Erased E id → s.Erased F id → E = F :=
        fun E hE F id h h' => ih E hE h h' (h.sameKind h').1 (h.sameKind h').2
      rw [allErased_unique heach hE hF]
    | _ => cases hkinds
  | signature abi params result ihp ihr =>
    cases F with
    | signature abi' params' result' =>
      obtain ⟨d, hd, g, hg, rfl, hpE, hrE⟩ := h
      obtain ⟨d', hd', g', hg', rfl, hpF, hrF⟩ := h'
      obtain rfl := Option.mem_unique hg hg'
      have heach : ∀ E ∈ params, ∀ F id, s.Erased E id → s.Erased F id → E = F :=
        fun E hE F id h h' => ihp E hE h h' (h.sameKind h').1 (h.sameKind h').2
      rw [allErased_unique heach hpE hpF, ihr hrE hrF (hrE.sameKind hrF).1 (hrE.sameKind hrF).2]
    | _ => cases hkinds

/-! ### Tables that grow -/

theorem Base.onward (hs : s.Founded) (h : s.Onward s') {k : Kind} (hd : s.Base k id d) :
    s'.Base k id d := by
  obtain ⟨d₀, hd₀⟩ := TypeTable.known_of_underlying hd.found
  have hid : id < s.types.types.size := (TypeTable.find?_lt hd₀).2
  refine ⟨?_, ?_, hd.kind⟩
  · rw [hs.ordered.isBool_grow h.types hid]
    exact hd.plain
  · rw [hs.ordered.underlying_eq h.types hid]
    exact h.types.find? hd.found

theorem Base.underlying_eq (hs : s.Founded) (h : s.Onward s') {k : Kind} (hd : s.Base k id d) :
    s'.types.underlying id = s.types.underlying id := by
  obtain ⟨d₀, hd₀⟩ := TypeTable.known_of_underlying hd.found
  exact hs.ordered.underlying_eq h.types (TypeTable.find?_lt hd₀).2

theorem AllErased.mono {Es : List Erasure} {ids : List TypeId}
    (h : ∀ E ∈ Es, ∀ id, s.Erased E id → s'.Erased E id) (hE : s.AllErased Es ids) :
    s'.AllErased Es ids := by
  rw [allErased_iff] at hE ⊢
  induction hE with
  | nil => exact .nil
  | cons hE _ ih =>
    obtain ⟨hfirst, hrest⟩ := List.forall_mem_cons.mp h
    exact .cons (hfirst _ hE) (ih hrest)

theorem Erased.onward (hs : s.Founded) (h : s.Onward s') (hE : s.Erased E id) :
    s'.Erased E id := by
  induction E generalizing id with
  | void =>
    obtain ⟨d, hd⟩ := hE
    exact ⟨d, hd.onward hs h⟩
  | bool =>
    obtain ⟨d, hd⟩ := hE.known
    have hid : id < s.types.types.size := (TypeTable.find?_lt hd).2
    refine ⟨?_, ?_⟩
    · rw [hs.ordered.isBool_grow h.types hid]
      exact hE.1
    · rw [hs.ordered.underlying_eq h.types hid]
      exact h.types.find? hE.2
  | int w =>
    obtain ⟨d, hd, hw⟩ := hE
    exact ⟨d, hd.onward hs h, hw⟩
  | uint w =>
    obtain ⟨d, hd, hw⟩ := hE
    exact ⟨d, hd.onward hs h, hw⟩
  | float w =>
    obtain ⟨d, hd, hw⟩ := hE
    exact ⟨d, hd.onward hs h, hw⟩
  | pointer E ih =>
    obtain ⟨d, hd, hE⟩ := hE
    exact ⟨d, hd.onward hs h, ih hE⟩
  | struct offsets fields ih =>
    obtain ⟨d, hd, hall, l, hl, hoffsets⟩ := hE
    refine ⟨d, hd.onward hs h, ?_, l, ?_, hoffsets⟩
    · rw [h.types.parts (hs.ordered.slots hd.found)]
      exact hall.mono fun E hE id => ih E hE
    · rw [hd.underlying_eq hs h]
      exact h.layouts _ _ hl
  | signature abi params result ihp ihr =>
    obtain ⟨d, hd, g, hg, habi, hall, hresult⟩ := hE
    refine ⟨d, hd.onward hs h, g, ?_, habi, hall.mono fun E hE id => ihp E hE, ihr hresult⟩
    rw [hd.underlying_eq hs h]
    exact h.types.signature? hg

/-! ### Layouts -/

theorem numberLayout_toOption (size : Nat) (id id' : TypeId) :
    (Layout.numberLayout size id).toOption = (Layout.numberLayout size id').toOption := by
  unfold Layout.numberLayout
  split <;> rfl

theorem AllErased.layouts {Es : List Erasure} {ids : List TypeId}
    (h : ∀ E ∈ Es, ∀ id, s.Erased E id →
      Layout.plainPart s.target s.types id = E.layout? s.target)
    (hE : s.AllErased Es ids) :
    ids.map (Layout.plainPart s.target s.types) = Erasure.layouts? s.target Es := by
  rw [allErased_iff] at hE
  induction hE with
  | nil => rfl
  | cons hE _ ih =>
    obtain ⟨hfirst, hrest⟩ := List.forall_mem_cons.mp h
    rw [List.map_cons, Erasure.layouts?, hfirst _ hE, ih hrest]

theorem Erased.layout (hs : s.Founded) (hE : s.Erased E id) :
    Layout.plainPart s.target s.types id = E.layout? s.target := by
  rw [← Layout.plainPart_underlying hs.ordered]
  unfold Layout.plainPart
  induction E generalizing id with
  | void =>
    obtain ⟨d, hd⟩ := hE
    simp only [Layout.plain, hd.found, hd.kind]
    rfl
  | bool =>
    simp only [Layout.plain, hE.2]
    exact numberLayout_toOption 1 (s.types.underlying id) 0
  | int w =>
    obtain ⟨d, hd, rfl⟩ := hE
    simp only [Layout.plain, hd.found, hd.kind, Erasure.layout?]
    rw [numberLayout_toOption _ _ 0]
  | uint w =>
    obtain ⟨d, hd, rfl⟩ := hE
    simp only [Layout.plain, hd.found, hd.kind, Erasure.layout?]
    rw [numberLayout_toOption _ _ 0]
  | float w =>
    obtain ⟨d, hd, rfl⟩ := hE
    simp only [Layout.plain, hd.found, hd.kind, Erasure.layout?]
    rw [numberLayout_toOption _ _ 0]
  | pointer E =>
    obtain ⟨d, hd, -⟩ := hE
    simp only [Layout.plain, hd.found, hd.kind]
    rfl
  | signature abi params result =>
    obtain ⟨d, hd, -⟩ := hE
    simp only [Layout.plain, hd.found, hd.kind]
    rfl
  | struct offsets fields ih =>
    obtain ⟨d, hd, hall, -⟩ := hE
    have hfields : ∀ E ∈ fields, ∀ id, s.Erased E id →
        Layout.plainPart s.target s.types id = E.layout? s.target := by
      intro E hE id h
      rw [← Layout.plainPart_underlying hs.ordered]
      exact ih E hE h
    have hparts := Layout.fieldTypes_eq_parts hs.ordered hd.found hd.kind
    have hplaced : Layout.placed (Layout.plain s.target s.types (s.types.underlying id)) {}
        (s.types.parts d) = Layout.placeAll {} (Erasure.layouts? s.target fields) := by
      rw [← hall.layouts hfields, ← Layout.placed_eq_placeAll]
      refine Layout.placed_congr (fun p hp => ?_) {}
      have hlt : p < s.types.underlying id := hs.ordered.older hd.found p hp
      have hknown := (TypeTable.find?_lt hd.found).2
      exact Layout.plain_eq hs.ordered (.refl _) _ _ (Nat.lt_trans hlt hknown) (Nat.lt_succ_self _) hlt
    simp only [Layout.plain, hd.found, hd.kind, hparts]
    split
    · next hnil =>
      -- a struct without fields takes no place
      rw [hnil] at hplaced
      exact hplaced
    · exact hplaced

theorem Erased.hasRep (hs : s.Founded) (hE : s.Erased E id) {r : Rep}
    (hr : E.rep? s.target = some r) : s.types.HasRep s.target id r := by
  obtain ⟨l, hl, rfl⟩ := Option.map_eq_some_iff.mp hr
  obtain ⟨d, hd, hk, -⟩ := hE.base
  refine ⟨l, ?_, ?_⟩
  · rw [Layout.plainPart_underlying hs.ordered, hE.layout hs, hl]
  · unfold TypeTable.repOf
    rw [hd]
    dsimp only
    rw [hk]
    cases E with
    | void =>
      obtain rfl := Option.some.inj hl
      rfl
    | bool | int | uint | float | pointer | struct | signature => rfl

end Tables

end TypedIR
