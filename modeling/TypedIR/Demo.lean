import TypedIR.Build.Control

/-
  The demo functions: small programs that show what can be built.
-/

namespace TypedIR

open Text

/-- A demo: its name, what it shows, arguments to try, its signature, and how
its body is built. -/
structure Demo where
  name : String
  summary : String
  sample : List String
  params : List Builtin
  ret : Builtin
  body : RuntimeId → FnId → List Val → BuildM Unit

namespace Demo

open BuildM

def num (n : Int) : HostValue := .int .int n

def arith (op : Opcode) (v : Val) (x : HostValue) : BuildM Val :=
  BuildM.binary op.name op v x

def rel (op : Opcode) (v : Val) (x : HostValue) : BuildM Val :=
  BuildM.compare op.name op v x

def newLocal (f : FnId) (t : Ty) (x : HostValue) : BuildM Val := do
  BuildM.store (← declare f t) x

def assign (v : Val) (x : HostValue) : BuildM Unit := do
  let _ ← BuildM.store v x

def absBody (_ : RuntimeId) (f : FnId) (args : List Val) : BuildM Unit := do
  let n := args.headD {}
  check (← ifThenElse f (← rel .lt n (num 0))
    (do BuildM.ret f (.value (← BuildM.unary "neg" .neg n)))
    (BuildM.ret f (.value n)))

def factBody (_ : RuntimeId) (f : FnId) (args : List Val) : BuildM Unit := do
  let n := args.headD {}
  check (← ifThen f (← rel .le n (num 1)) (BuildM.ret f (num 1)))
  let m ← arith .sub n (num 1)
  let r ← callOther f (some f) [.value m]
  BuildM.ret f (.value (← arith .mul n (.value r)))

def sumBody (rt : RuntimeId) (f : FnId) (args : List Val) : BuildM Unit := do
  let n := args.headD {}
  let i ← newLocal f (Builtin.int32.ty rt) (num 1)
  let acc ← newLocal f (Builtin.int64.ty rt) (num 0)
  let ending ← whileLoop f (rel .le i (.value n)) do
    assign acc (.value (← arith .add acc (.value i)))
    assign i (.value (← arith .add i (num 1)))
  BuildM.ret f (.value acc)
  check ending

def gcdBody (rt : RuntimeId) (f : FnId) (args : List Val) : BuildM Unit := do
  let a ← newLocal f (Builtin.int64.ty rt) (.value (args.getD 0 {}))
  let b ← newLocal f (Builtin.int64.ty rt) (.value (args.getD 1 {}))
  let t ← declare f (Builtin.int64.ty rt)
  let ending ← untilLoop f (rel .eq b (num 0)) do
    assign t (.value b)
    assign b (.value (← arith .rem a (.value b)))
    assign a (.value t)
  BuildM.ret f (.value a)
  check ending

def collatzBody (rt : RuntimeId) (f : FnId) (args : List Val) : BuildM Unit := do
  let n ← newLocal f (Builtin.int64.ty rt) (.value (args.headD {}))
  let steps ← newLocal f (Builtin.int32.ty rt) (num 0)
  let ending ← whileLoop f (constBool f true) do
    let _ ← ifThen f (← rel .le n (num 1)) do
      let _ ← breakLoop f
    let half ← arith .rem n (num 2)
    let _ ← ifThenElse f (← rel .eq half (num 0))
      (do assign n (.value (← arith .div n (num 2))))
      (do
        let triple ← arith .mul n (num 3)
        assign n (.value (← arith .add triple (num 1))))
    assign steps (.value (← arith .add steps (num 1)))
  BuildM.ret f (.value steps)
  check ending

def helloBody (_ : RuntimeId) (f : FnId) (args : List Val) : BuildM Unit := do
  let n := HostValue.value (args.headD {})
  let _ ← callNative f "printf"
    [.str (bytesOf "hello from %s, n=%d (0x%04x)\n"), .str (bytesOf "jitkit"), n, n]
  let _ ← callNative f "puts" [.str (bytesOf "bye")]

def pointBody (rt : RuntimeId) (f : FnId) (args : List Val) : BuildM Unit := do
  let st ← structTy rt [Builtin.int8.ty rt, Builtin.uint16.ty rt]
  BuildM.setFieldNames st ["x", "y"]
  let p ← declare f st
  let _ ← setFieldNamed p "x" (.value (args.getD 0 {}))
  let _ ← setFieldNamed p "y" (.value (args.getD 1 {}))
  let x ← fieldNamed p "x"
  let y ← fieldNamed p "y"
  BuildM.ret f (.value (← arith .add x (.value y)))

def hypotBody (_ : RuntimeId) (f : FnId) (args : List Val) : BuildM Unit := do
  let a := args.getD 0 {}
  let b := args.getD 1 {}
  let aa ← arith .mul a (.value a)
  let bb ← arith .mul b (.value b)
  let s ← arith .add aa (.value bb)
  BuildM.ret f (.value (← BuildM.math f .sqrt [.value s]))

def squaresBody (rt : RuntimeId) (f : FnId) (args : List Val) : BuildM Unit := do
  let i32 := Builtin.int32.ty rt
  let n := args.headD {}
  let pointer ← pointerTy rt i32
  let size ← arith .mul n (num 4)
  let arr ← BuildM.cast (← BuildM.alloca f (.value size)) pointer
  let i ← newLocal f i32 (num 0)
  check (← whileLoop f (rel .lt i (.value n)) do
    let _ ← BuildM.storeElem arr (.value i) (.value (← arith .mul i (.value i)))
    assign i (.value (← arith .add i (num 1))))
  let sum ← newLocal f i32 (num 0)
  assign i (num 0)
  let ending ← whileLoop f (rel .lt i (.value n)) do
    let x ← BuildM.loadElem arr (.value i) none
    assign sum (.value (← arith .add sum (.value x)))
    assign i (.value (← arith .add i (num 1)))
  BuildM.ret f (.value sum)
  check ending

def all : List Demo :=
  [{ name := "abs", summary := "absolute value through if/else", sample := ["-17"],
     params := [.int32], ret := .int32, body := absBody },
   { name := "collatz", summary := "steps of the Collatz sequence down to 1, using break",
     sample := ["27"], params := [.int64], ret := .int32, body := collatzBody },
   { name := "fact", summary := "recursive factorial", sample := ["10"],
     params := [.int64], ret := .int64, body := factBody },
   { name := "gcd", summary := "Euclid's algorithm", sample := ["1071", "462"],
     params := [.int64, .int64], ret := .int64, body := gcdBody },
   { name := "hello", summary := "printf and puts through the native registry",
     sample := ["42"], params := [.int32], ret := .void, body := helloBody },
   { name := "hypot", summary := "sqrt(a*a + b*b) through the math intrinsics",
     sample := ["3", "4"], params := [.float64, .float64], ret := .float64, body := hypotBody },
   { name := "point", summary := "struct \x7bx int8; y uint16\x7d built field by field",
     sample := ["-5", "300"], params := [.int8, .uint16], ret := .int32, body := pointBody },
   { name := "squares", summary := "fills an alloca'd array with i*i and sums it",
     sample := ["10"], params := [.int32], ret := .int32, body := squaresBody },
   { name := "sum", summary := "1 + 2 + ... + n with a while loop", sample := ["100"],
     params := [.int32], ret := .int64, body := sumBody }]

def ofName? (name : String) : Option Demo :=
  all.find? fun d => d.name == name

def unknownMessage (name : String) : String :=
  "unknown demo " ++ quoted name ++ " (see `jitkit demos`)"

def signature (d : Demo) (rt : RuntimeId) : BuildM Ty :=
  signatureTy rt (d.params.map (·.ty rt)) (d.ret.ty rt) .cdecl

def build (d : Demo) (rt : RuntimeId) (uid : String) : BuildM FnId := do
  let sig ← d.signature rt
  let c ← newContext rt uid
  let body (b : BuildId) : BuildM FnId := do
    let f ← newFunction b d.name sig
    d.body rt f (← args f)
    check (← problemOf f)
    compile f
    pure f
  match ← attempt (withBuild c body) with
  | .ok f => pure f
  | .error p => throw (.problem (.within d.name p))

end Demo

end TypedIR
