import TypedIR.Engine.Failure

/-
  Problems of the builder: what it complains about, and how it words failures
  of the engine.

  A complaint names the operation it arose in. A failure of the engine while
  something is built becomes a problem of one of the builder's kinds; a failure
  of running code stays what it is and only gets the operation in front.
-/

namespace TypedIR

open Text

/-- The kinds of problems. -/
inductive ProblemKind where
  | buildLock
  | type
  | unsupportedType
  | instruction
  | argument
  | compile
  | other (code : UInt8)
  deriving DecidableEq, Repr, Inhabited

namespace ProblemKind

def all : List ProblemKind :=
  [.buildLock, .type, .unsupportedType, .instruction, .argument, .compile]

def ofCode (n : UInt8) : ProblemKind :=
  if n = 0 then .other 0 else (all[n.toNat - 1]?).getD (.other n)

def name : ProblemKind → String
  | .buildLock => "build lock"
  | .type => "type"
  | .unsupportedType => "unsupported type"
  | .instruction => "instruction"
  | .argument => "argument"
  | .compile => "compile"
  | .other n => "ErrorKind(" ++ decimalNat n.toNat ++ ")"

/-- Whether a problem of one kind counts as one of another: an unsupported
type is a type problem too. -/
def countsAs (k other : ProblemKind) : Bool :=
  k == other || (k == .unsupportedType && other == .type)

def ofEngineCode : Nat → ProblemKind
  | 1001 | 1002 => .buildLock
  | 1006 => .type
  | 1011 | 1012 => .unsupportedType
  | 1010 => .argument
  | 1004 | 1009 => .compile
  | _ => .instruction

end ProblemKind

/-- Why a host value cannot be an argument. -/
inductive Unfit where
  | asFloat (what : String)
  | asInteger (what : String)
  /-- Values of a class that nothing of the host stands for. -/
  | ofClass (c : Class)
  deriving DecidableEq, Repr, Inhabited

def Unfit.message : Unfit → String
  | .asFloat what => "cannot pass " ++ what ++ " as float"
  | .asInteger what => "cannot pass " ++ what ++ " as an integer"
  | .ofClass c => "call: " ++ c.name ++ " parameters cannot be passed from Go"

/-- What the builder complains about. Types, values and contexts are carried
as they were written when the complaint arose. -/
inductive Complaint where
  -- builds
  | contextDestroyed (context : String)
  | alreadyBuilding (context : String)
  | otherBuilding (context : String)
  | anotherBuilding
  | notBuilding (context : String)
  | buildEnded (context : String)
  | buildAlreadyEnded (context : String)
  -- functions
  | notSignature (type : String)
  | argIndex (index : Int) (count : Nat)
  | reachesEnd (function type : String)
  | notCompiled (function : String)
  | argumentCount (callee : String) (want got : Nat)
  | badArgument (index : Nat) (function : String) (why : Unfit)
  | foreignCallee
  | unknownNative (name : String)
  | noSignature (name : String)
  | namelessNative
  | noImplementation (name : String)
  -- making types
  | noWrapper (id : TypeId)
  | unknownTag (tag : Bytes)
  | unknownTagItem (item : String)
  | missingTag
  | pointerChain (item : String)
  | signatureShape
  | paramsNotList (typeName : String)
  | takesNoArguments (tag : String)
  | invalidTypeArgument
  | unknownTypeArgument (item : String)
  | unknownAbi (item : String)
  | pointerTarget
  | structField (index : Nat)
  | signatureReturn
  | signatureParam (index : Nat)
  | signatureParamVoid (index : Nat)
  | invalidType
  | invalidTargetType
  -- fields
  | notStruct (type : String)
  | fieldRange (index : Int) (count : Nat) (type : String)
  | nameCount (names fields : Nat)
  | noField (type name : String)
  -- constants
  | notIntegerType (type : String)
  | notFloatType (type : String)
  | outOfRange (number type : String)
  | outOfMachineRange (number type : String)
  | noConstant (type source : String)
  -- operands
  | invalidValue
  | invalidOperand
  | foreignOperand (value : String)
  | missingOperand
  | notPointer (type : String)
  | needsTarget (type : String)
  -- labels and structured statements
  | invalidLabel
  | labelPlaced (id : Nat)
  | foreignLabel (id : Nat)
  | elseWithoutBody
  | statementClosed
  | ifWithoutBody
  | invalidCondition
  | missingCondition
  | loopClosed
  | loopWithoutBody
  | breakOutside
  deriving DecidableEq, Repr, Inhabited

namespace Complaint

def kind : Complaint → ProblemKind
  | .contextDestroyed _ | .alreadyBuilding _ | .otherBuilding _ | .anotherBuilding
  | .notBuilding _ | .buildEnded _ | .buildAlreadyEnded _ => .buildLock
  | .notSignature _ | .noSignature _ | .invalidTypeArgument | .pointerTarget | .structField _
  | .signatureReturn | .signatureParam _ | .signatureParamVoid _ | .invalidType
  | .invalidTargetType | .notStruct _ | .notIntegerType _ | .notFloatType _ | .outOfRange _ _
  | .outOfMachineRange _ _ | .noConstant _ _ | .notPointer _ => .type
  | .noWrapper _ | .unknownTag _ | .unknownTagItem _ | .missingTag | .pointerChain _
  | .signatureShape | .paramsNotList _ | .takesNoArguments _ | .unknownTypeArgument _
  | .unknownAbi _ | .noField _ _ => .unsupportedType
  | .argumentCount _ _ _ | .badArgument _ _ _ => .argument
  | .reachesEnd _ _ | .notCompiled _ => .compile
  | _ => .instruction

def message : Complaint → String
  | .contextDestroyed c => c ++ " is destroyed"
  | .alreadyBuilding c => c ++ " is already building"
  | .otherBuilding c => c ++ " is building"
  | .anotherBuilding => "another context is building"
  | .notBuilding c => c ++ " is not building"
  | .buildEnded c => "build of " ++ c ++ " has ended"
  | .buildAlreadyEnded c => "build of " ++ c ++ " has already ended"
  | .notSignature t => t ++ " is not a signature"
  | .argIndex i n => "index " ++ decimal i ++ " out of range [0, " ++ decimalNat n ++ ")"
  | .reachesEnd f t => f ++ " can reach its end without returning " ++ t
  | .notCompiled f => f ++ " is not compiled"
  | .argumentCount f want got =>
    f ++ " expects " ++ decimalNat want ++ " arguments, got " ++ decimalNat got
  | .badArgument i f why => "argument " ++ decimalNat i ++ " of " ++ f ++ ": " ++ why.message
  | .foreignCallee => "callee belongs to another runtime"
  | .unknownNative n => "unknown native " ++ quoted n
  | .noSignature n => n ++ " has no signature"
  | .namelessNative => "native without a name"
  | .noImplementation n => "native " ++ n ++ " has no implementation"
  | .noWrapper id => "type#" ++ decimalNat id ++ " has no wrapper"
  | .unknownTag t => "unknown type tag " ++ quotedBytes t
  | .unknownTagItem s => "unknown type tag " ++ s
  | .missingTag => "missing type tag"
  | .pointerChain s => "pointer chain expects pointer tags, got " ++ s
  | .signatureShape => "signature takes params, return and an optional abi"
  | .paramsNotList t => "signature params must be a list, got " ++ t
  | .takesNoArguments t => t ++ " takes no arguments"
  | .invalidTypeArgument => "invalid type argument"
  | .unknownTypeArgument s => "unknown type argument " ++ s
  | .unknownAbi s => "unknown abi " ++ s
  | .pointerTarget => "pointer target has no type"
  | .structField i => "struct field " ++ decimalNat i ++ " has no type"
  | .signatureReturn => "signature needs a return type"
  | .signatureParam i => "signature parameter " ++ decimalNat i ++ " has no type"
  | .signatureParamVoid i => "signature parameter " ++ decimalNat i ++ " is void"
  | .invalidType => "invalid type"
  | .invalidTargetType => "invalid target type"
  | .notStruct t => t ++ " is not a struct"
  | .fieldRange i n t =>
    "field " ++ decimal i ++ " out of range [0, " ++ decimalNat n ++ ") of " ++ t
  | .nameCount n m => decimalNat n ++ " names for " ++ decimalNat m ++ " fields"
  | .noField t n => t ++ " has no field " ++ quoted n
  | .notIntegerType t => "cannot create an integer constant of type " ++ t
  | .notFloatType t => "cannot create a float constant of type " ++ t
  | .outOfRange n t => n ++ " is out of range for " ++ t
  | .outOfMachineRange n t => n ++ " is out of range for " ++ t ++ ": out of range"
  | .noConstant t s => "cannot create a " ++ t ++ " constant from " ++ s
  | .invalidValue => "invalid value"
  | .invalidOperand => "invalid operand"
  | .foreignOperand v => "operand " ++ v ++ " belongs to another function"
  | .missingOperand => "missing operand"
  | .notPointer t => t ++ " is not a pointer"
  | .needsTarget t => t ++ " needs a target type"
  | .invalidLabel => "invalid label"
  | .labelPlaced l => "label L" ++ decimalNat l ++ " is already placed"
  | .foreignLabel l => "label L" ++ decimalNat l ++ " belongs to another function"
  | .elseWithoutBody => "else without a body"
  | .statementClosed => "statement already closed"
  | .ifWithoutBody => "if without a body"
  | .invalidCondition => "invalid condition"
  | .missingCondition => "missing condition"
  | .loopClosed => "loop already closed"
  | .loopWithoutBody => "loop without a body"
  | .breakOutside => "break outside of a loop"

end Complaint

/-- A problem. -/
inductive Problem where
  /-- A complaint of the builder in an operation. -/
  | complaint (op : String) (c : Complaint)
  /-- A failure of the engine in an operation of the builder. -/
  | engine (op : String) (f : Failure)
  /-- A failure of the engine on its own. -/
  | failure (f : Failure)
  /-- A text of the host. -/
  | text (s : String)
  /-- A problem with something said in front. -/
  | within (place : String) (p : Problem)
  deriving DecidableEq, Repr, Inhabited

namespace Problem

def kind? : Problem → Option ProblemKind
  | .complaint _ c => some c.kind
  | .engine _ f => if f.cause.isRuntime then none else some (.ofEngineCode f.cause.code)
  | .failure _ => none
  | .text _ => none
  | .within _ p => p.kind?

def failure? : Problem → Option Failure
  | .complaint _ _ => none
  | .engine _ f => some f
  | .failure f => some f
  | .text _ => none
  | .within _ p => p.failure?

def message : Problem → String
  | .complaint op c => op ++ ": " ++ c.message
  | .engine op f =>
    if f.cause.isRuntime then op ++ ": " ++ f.message
    else op ++ ": " ++ (ProblemKind.ofEngineCode f.cause.code).name ++ " error: " ++ f.message
  | .failure f => f.message
  | .text s => s
  | .within place p => place ++ ": " ++ p.message

/-- The kind of what is behind a problem: a class that cannot be passed is a
type that is not supported. -/
def innerKind? : Problem → Option ProblemKind
  | .complaint _ (.badArgument _ _ (.ofClass _)) => some .unsupportedType
  | .within _ p => p.innerKind?
  | _ => none

def countsAs (p : Problem) (k : ProblemKind) : Bool :=
  [p.kind?, p.innerKind?].any fun own => own.any (·.countsAs k)

end Problem

end TypedIR
