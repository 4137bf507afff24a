import TypedIR.Toml.Syntax

/-
  What the statements of a settings file mean together: a tree of tables.

  A table is there because a header names it, or because a key passes through
  it. The second kind may be named by a header later, once; what is there for
  good cannot be given again. Lists are the exception: giving one again
  replaces it. The keys that were given are kept in order.
-/

namespace TypedIR.Toml

/-- The value of a key. -/
inductive Value where
  | text (s : String)
  | int (n : Int)
  | float
  | bool (b : Bool)
  | time
  | list (xs : List Value)
  | table (entries : List (String × Value))
  | tables (rows : List (List (String × Value)))
  deriving Repr, Inhabited

abbrev Table := List (String × Value)

def Table.put (k : String) (v : Value) : Table → Table
  | [] => [(k, v)]
  | (n, x) :: rest => if n == k then (k, v) :: rest else (n, x) :: Table.put k v rest

def Value.current? : Value → Option Table
  | .table t => some t
  | .tables rows => rows.getLast?
  | _ => none

def Value.withCurrent (t : Table) : Value → Value
  | .tables rows => .tables (rows.dropLast ++ [t])
  | _ => .table t

def Table.follow? : Key → Table → Option Table
  | [], t => some t
  | k :: ks, t => do Table.follow? ks (← (← t.lookup k).current?)

def Table.alter (f : Table → Option Table) : Key → Table → Option Table
  | [], t => f t
  | k :: ks, t => do
    let v ← t.lookup k
    let u ← Table.alter f ks (← v.current?)
    return t.put k (v.withCurrent u)

/-- A document on its way: the tables, the keys that are there only because
others pass through them, the keys of lists, and the keys given so far. -/
structure Draft where
  root : Table := []
  implicit : List Key := []
  lists : List Key := []
  order : List Key := []
  deriving Inhabited

abbrev DraftM := StateT Draft Option

namespace DraftM

def addImplicit (k : Key) : DraftM Unit :=
  modify fun d => { d with implicit := k :: d.implicit }

def removeImplicit (k : Key) : DraftM Unit :=
  modify fun d => { d with implicit := d.implicit.filter (· != k) }

def setListed (k : Key) (isList : Bool) : DraftM Unit :=
  modify fun d =>
    let others := d.lists.filter (· != k)
    { d with lists := if isList then k :: others else others }

/-- The key under which the kind of a value is noted. An empty name notes it
for the table that the name is in, unless that is the whole document. -/
def kindKey (ctx : Key) (k : String) : Key :=
  if k = "" && !ctx.isEmpty then ctx else ctx ++ [k]

def note (k : Key) : DraftM Unit :=
  modify fun d => { d with order := d.order ++ [k] }

def change (k : Key) (f : Table → Option Table) : DraftM Unit := do
  let d ← get
  match d.root.alter f k with
  | some root => set { d with root }
  | none => failure

def tableAt (k : Key) : DraftM Table := do
  match (← get).root.follow? k with
  | some t => pure t
  | none => failure

def setValue (ctx : Key) (k : String) (v : Value) : DraftM Unit := do
  let t ← tableAt ctx
  let full := ctx ++ [k]
  let d ← get
  if (t.lookup k).isSome then
    if d.lists.contains full then
      removeImplicit full
      change ctx fun t => some (t.put k v)
    else if d.implicit.contains full then removeImplicit full
    else failure
  else change ctx fun t => some (t.put k v)

def passThrough (ctx : Key) (k : String) : DraftM Unit := do
  match (← tableAt ctx).lookup k with
  | none =>
    addImplicit (ctx ++ [k])
    change ctx fun t => some (t.put k (.table []))
  | some v => if v.current?.isNone then failure

def openTable (key : Key) (row : Bool) : DraftM Unit := do
  let ctx := key.dropLast
  for n in List.range ctx.length do
    passThrough (ctx.take n) ((ctx.drop n).headD "")
  match key.getLast? with
  | none => failure
  | some k =>
    if row then
      match (← tableAt ctx).lookup k with
      | none => change ctx fun t => some (t.put k (.tables [[]]))
      | some (.tables rows) => change ctx fun t => some (t.put k (.tables (rows ++ [[]])))
      | some _ => failure
    else setValue ctx k (.table [])

/-- Opens the tables that the key of a pair passes through, one after the
other from `ctx`; the context of its last name. -/
def openContext (ctx : Key) : Key → DraftM Key
  | [] => pure ctx
  | k :: ks => do
    addImplicit (ctx ++ [k])
    openTable (ctx ++ [k]) false
    openContext (ctx ++ [k]) ks

def putDeep (v : Value) : Key → Table → Option Table
  | [], t => some t
  | [k], t => some (t.put k v)
  | k :: ks, t =>
    match t.lookup k with
    | none => do return t.put k (.table (← putDeep v ks []))
    | some (.table u) => do return t.put k (.table (← putDeep v ks u))
    | some _ => none

mutual

/-- The value of a literal that is given to `k` in the table at `ctx`;
`inList` says that it stands in a list. -/
def value (ctx : Key) (k : String) (inList : Bool) : Literal → DraftM Value
  | .text s => pure (.text s)
  | .int n => pure (.int n)
  | .float => pure .float
  | .bool b => pure (.bool b)
  | .time => pure .time
  | .list xs => do
    setListed (kindKey ctx k) true
    return .list (← values ctx k xs)
  | .table ps => do
    let here := ctx ++ [k]
    addImplicit here
    openTable here inList
    return .table (← fields here [] ps)

def values (ctx : Key) (k : String) : List Literal → DraftM (List Value)
  | [] => pure []
  | x :: xs => do
    let v ← value ctx k true x
    return v :: (← values ctx k xs)

def fields (here : Key) (t : Table) : List (Key × Literal) → DraftM Table
  | [] => pure t
  | (key, x) :: ps => do
    let ctx ← openContext here key.dropLast
    let k := key.getLast?.getD ""
    note (ctx ++ [k])
    let v ← value ctx k false x
    setValue ctx k v
    setListed (kindKey ctx k) (v matches .list _)
    match putDeep v key t with
    | some t => fields here t ps
    | none => failure

end

def statement (ctx : Key) : Statement → DraftM Key
  | .table k => do
    openTable k false
    setListed k false
    note k
    pure k
  | .tables k => do
    openTable k true
    setListed k false
    note k
    pure k
  | .pair key x => do
    let inner ← openContext ctx key.dropLast
    let k := key.getLast?.getD ""
    note (inner ++ [k])
    let v ← value inner k false x
    setValue inner k v
    setListed (kindKey inner k) (v matches .list _)
    pure ctx

def statements : Key → List Statement → DraftM Unit
  | _, [] => pure ()
  | ctx, s :: rest => do statements (← statement ctx s) rest

end DraftM

/-- A document: its tables, and the keys it gives, in order. -/
structure Document where
  root : Table
  keys : List Key
  deriving Inhabited

def Document.ofBytes? (bs : Text.Bytes) : Option Document := do
  let ((), d) ← (DraftM.statements [] (← parse? bs)).run {}
  return { root := d.root, keys := d.order }

def quotedNameChar (c : Char) : String :=
  match c.toNat with
  | 8 => "\\b"
  | 9 => "\\t"
  | 10 => "\\n"
  | 12 => "\\f"
  | 13 => "\\r"
  | 34 => "\\\""
  | 92 => "\\\\"
  | n =>
    if n < 0x20 || n = 0x7F then "\\u" ++ Text.padLeft 4 '0' (Text.hexNat n)
    else String.singleton c

def nameText (s : String) : String :=
  if s ≠ "" && s.toList.all isBareChar then s
  else "\"" ++ String.join (s.toList.map quotedNameChar) ++ "\""

def keyText (k : Key) : String := ".".intercalate (k.map nameText)

end TypedIR.Toml
