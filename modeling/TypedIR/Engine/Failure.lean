import TypedIR.Opcode
import TypedIR.Rep
import TypedIR.Memory
import TypedIR.Layout

/-
  Failures of the engine: what went wrong, its code and its wording.

  A cause carries the facts its wording needs; types are carried as they were
  written when the failure arose. A failure is a cause together with the
  function it happened in, if it is known.
-/

namespace TypedIR

open Text

/-- What went wrong in the engine. -/
inductive Cause where
  -- contexts and builds
  | unknownContext (id : Nat)
  | destroyedContext (id : Nat)
  | busyContext (id : Nat)
  | idleContext (id : Nat)
  -- functions
  | unknownFunction (id : Nat)
  | orphanFunction
  | alreadyCompiled
  | notCompiled
  | notExportable
  -- values and operands
  | unknownValue (id : Nat)
  | imageValue (id : Nat)
  | imageParam (index : Nat) (value : Nat)
  | notSignature (type : String)
  | voidValue
  | constClass (want : Class) (type : String)
  | constWidth (bits : Nat) (type : String)
  | notConvertible (source target : String)
  | notNumeric (op : Opcode) (left right : String)
  | pointerAndFloat (op : Opcode)
  | operandNotNumeric (op : Opcode) (type : String)
  | notDefinedOn (op : Opcode) (type : String)
  | operandNotScalar (op : Opcode) (type : String)
  | conditionNotScalar (op : Opcode) (type : String)
  | notAnOffset (pointer type : String)
  | storeIntoConstant (id : Nat)
  | storeMismatch (source target : String)
  | notPointer (type : String)
  | loadVoid
  | loadVoidElement
  | missingReturn
  | voidReturn
  | fieldRange (index : Int) (count : Nat) (type : String)
  | notNameable (count : Nat) (type : String)
  -- labels
  | unknownLabel (id : Nat)
  | imageLabel (pc : Nat) (id : Nat)
  | labelPlaced (id : Nat)
  | unplacedLabel (pc : Nat) (id : Nat)
  -- counts
  | paramRange (index : Int) (count : Nat)
  | argCount (want got : Nat)
  | callArgCount (want got : Nat)
  | mathArgCount (op : MathOp) (got : Nat)
  | imageParamCount (got want : Nat)
  -- unsupported constructs
  | structReturn
  | paramType (index : Nat) (type : String)
  | constantNotAddressable (id : Nat)
  | addressOfConstant (id : Nat)
  | notBinary (op : Opcode)
  | notUnary (op : Opcode)
  | notComparison (op : Opcode)
  | needsConcrete (native : String)
  | noRepresentation (type : String)
  | noLayout (type : String)
  | layout (refusal : Layout.Refusal)
  | noImage
  | imageVersion (got : Int)
  | imageTarget (got want : String)
  | foreignCall (pc : Nat)
  | opOn (op : Opcode) (operands : String)
  | unimplemented (op : Opcode)
  -- types
  | unknownPrimitive (n : Nat)
  | unknownType (id : TypeId)
  | imageTypeRef (ref : Int)
  | imageSignatureRef (ref : Int)
  | imageTypeKind (index : Nat) (kind : Kind)
  -- running
  | divideByZero
  | memory (fault : Fault)
  | allocaSize (n : Word)
  | stepLimit (limit : Int)
  | depthLimit (limit : Int)
  | unknownNative (name : String)
  | native (name : String) (text : String)
  /-- A failure that a host function reports with a code of its own. -/
  | reported (code : Nat) (text : String)
  deriving DecidableEq, Repr, Inhabited

namespace Cause

/-- The number of the code of a cause; codes from 2000 on arise while compiled
code runs. -/
def code : Cause → Nat
  | .unknownContext _ | .destroyedContext _ => 1001
  | .busyContext _ | .idleContext _ => 1002
  | .unknownFunction _ | .orphanFunction => 1003
  | .alreadyCompiled => 1004
  | .unknownValue _ | .imageValue _ | .imageParam _ _ => 1005
  | .notSignature _ | .voidValue | .constClass _ _ | .constWidth _ _ | .notConvertible _ _
  | .notNumeric _ _ _ | .pointerAndFloat _ | .operandNotNumeric _ _ | .notDefinedOn _ _
  | .operandNotScalar _ _ | .conditionNotScalar _ _ | .notAnOffset _ _ | .storeIntoConstant _
  | .storeMismatch _ _ | .notPointer _ | .loadVoid | .loadVoidElement | .missingReturn
  | .voidReturn | .fieldRange _ _ _ | .notNameable _ _ => 1006
  | .unknownLabel _ | .imageLabel _ _ => 1007
  | .labelPlaced _ => 1008
  | .unplacedLabel _ _ => 1009
  | .paramRange _ _ | .argCount _ _ | .callArgCount _ _ | .mathArgCount _ _
  | .imageParamCount _ _ => 1010
  | .structReturn | .paramType _ _ | .constantNotAddressable _ | .addressOfConstant _
  | .notBinary _ | .notUnary _ | .notComparison _ | .needsConcrete _ | .noRepresentation _
  | .noLayout _ | .layout _ | .noImage | .imageVersion _ | .imageTarget _ _ | .foreignCall _
  | .opOn _ _ | .unimplemented _ => 1011
  | .unknownPrimitive _ | .unknownType _ | .imageTypeRef _ | .imageSignatureRef _
  | .imageTypeKind _ _ => 1012
  | .divideByZero => 2001
  | .memory _ | .allocaSize _ => 2002
  | .stepLimit _ => 2003
  | .depthLimit _ => 2004
  | .notCompiled | .notExportable => 2005
  | .unknownNative _ => 2006
  | .native _ _ => 2007
  | .reported n _ => n

def currentImageVersion : Int := 1

def message : Cause → String
  | .unknownContext id => "unknown context " ++ decimalNat id
  | .destroyedContext id => "context " ++ decimalNat id ++ " is destroyed"
  | .busyContext id => "context " ++ decimalNat id ++ " is already building"
  | .idleContext id => "context " ++ decimalNat id ++ " is not building"
  | .unknownFunction id => "unknown function " ++ decimalNat id
  | .orphanFunction => "function belongs to a destroyed context"
  | .alreadyCompiled => "function is already compiled"
  | .notCompiled => "function is not compiled"
  | .notExportable => "only compiled functions can be exported"
  | .unknownValue id => "unknown value v" ++ decimalNat id
  | .imageValue id => "image references unknown value v" ++ decimalNat id
  | .imageParam i v => "image parameter " ++ decimalNat i ++ " maps to v" ++ decimalNat v
  | .notSignature t => "type " ++ t ++ " is not a signature"
  | .voidValue => "cannot create a value of type void"
  | .constClass c t => "cannot create " ++ c.name ++ " constant of type " ++ t
  | .constWidth bits t =>
    "float" ++ decimalNat bits ++ " constant needs a " ++ decimalNat bits ++
      "-bit float type, got " ++ t
  | .notConvertible a b => "cannot convert " ++ a ++ " to " ++ b
  | .notNumeric op a b => op.name ++ ": operands " ++ a ++ " and " ++ b ++ " are not numeric"
  | .pointerAndFloat op => op.name ++ ": cannot mix pointer and float"
  | .operandNotNumeric op t => op.name ++ ": operand " ++ t ++ " is not numeric"
  | .notDefinedOn op t => op.name ++ ": not defined on " ++ t
  | .operandNotScalar op t => op.name ++ ": operand " ++ t ++ " is not scalar"
  | .conditionNotScalar op t => op.name ++ ": condition " ++ t ++ " is not scalar"
  | .notAnOffset p t => "cannot offset " ++ p ++ " by " ++ t
  | .storeIntoConstant id => "cannot store into constant v" ++ decimalNat id
  | .storeMismatch a b => "cannot store " ++ a ++ " into " ++ b
  | .notPointer t => "expected a pointer, got " ++ t
  | .loadVoid => "cannot load a void value"
  | .loadVoidElement => "cannot load a void element"
  | .missingReturn => "missing return value"
  | .voidReturn => "void function cannot return a value"
  | .fieldRange i n t =>
    "field " ++ decimal i ++ " out of range [0, " ++ decimalNat n ++ ") of " ++ t
  | .notNameable n t => "cannot name " ++ decimalNat n ++ " fields of " ++ t
  | .unknownLabel id => "unknown label L" ++ decimalNat id
  | .imageLabel pc id =>
    "instruction " ++ decimalNat pc ++ " references unknown label L" ++ decimalNat id
  | .labelPlaced id => "label L" ++ decimalNat id ++ " is already placed"
  | .unplacedLabel pc id =>
    "branch at " ++ decimalNat pc ++ " targets label L" ++ decimalNat id ++
      " that is never placed"
  | .paramRange i n =>
    "parameter " ++ decimal i ++ " out of range [0, " ++ decimalNat n ++ ")"
  | .argCount want got =>
    "expected " ++ decimalNat want ++ " arguments, got " ++ decimalNat got
  | .callArgCount want got =>
    "call expects " ++ decimalNat want ++ " arguments, got " ++ decimalNat got
  | .mathArgCount op got =>
    op.name ++ " expects " ++ decimalNat op.arity ++ " operands, got " ++ decimalNat got
  | .imageParamCount got want =>
    "image declares " ++ decimalNat got ++ " params, signature has " ++ decimalNat want
  | .structReturn => "struct return types are not supported"
  | .paramType i t => "parameter " ++ decimalNat i ++ " of type " ++ t ++ " is not supported"
  | .constantNotAddressable id => "constant v" ++ decimalNat id ++ " cannot be addressable"
  | .addressOfConstant id => "cannot take the address of constant v" ++ decimalNat id
  | .notBinary op => op.name ++ " is not a binary opcode"
  | .notUnary op => op.name ++ " is not a unary opcode"
  | .notComparison op => op.name ++ " is not a comparison"
  | .needsConcrete n => "call site of " ++ n ++ " needs a concrete signature"
  | .noRepresentation t => "type " ++ t ++ " has no runtime representation"
  | .noLayout t => "no layout for " ++ t
  | .layout r => r.message
  | .noImage => "nil image"
  | .imageVersion got =>
    "image version " ++ decimal got ++ ", want " ++ decimal currentImageVersion
  | .imageTarget got want => "image built for " ++ got ++ ", engine targets " ++ want
  | .foreignCall pc => "call to another function at " ++ decimalNat pc ++ " cannot be exported"
  | .opOn op what => op.name ++ " on " ++ what
  | .unimplemented op => "unimplemented opcode " ++ op.name
  | .unknownPrimitive n => "unknown primitive " ++ decimalNat n
  | .unknownType id => "unknown type#" ++ decimalNat id
  | .imageTypeRef r => "image type reference " ++ decimal r ++ " is invalid"
  | .imageSignatureRef r => "image signature reference " ++ decimal r ++ " is invalid"
  | .imageTypeKind i k => "image type " ++ decimalNat i ++ " has kind " ++ k.name
  | .divideByZero => "integer division by zero"
  | .memory f => f.message
  | .allocaSize n => "alloca of " ++ decimalNat n.toNat ++ " bytes"
  | .stepLimit n => "step budget of " ++ decimal n ++ " exhausted"
  | .depthLimit n => "call depth " ++ decimal n ++ " exceeded"
  | .unknownNative n => "native " ++ quoted n ++ " is not registered"
  | .native n t => n ++ ": " ++ t
  | .reported _ t => t

def isRuntime (c : Cause) : Bool := 2000 ≤ c.code

end Cause

def codeText (n : Int) : String := "ENG" ++ decimal n

/-- A failure of the engine: its cause and the function being built or run,
empty if it is not known. -/
structure Failure where
  cause : Cause
  function : String := ""
  deriving DecidableEq, Repr, Inhabited

namespace Failure

def message (f : Failure) : String :=
  if f.function = "" then codeText f.cause.code ++ ": " ++ f.cause.message
  else codeText f.cause.code ++ " in " ++ f.function ++ ": " ++ f.cause.message

def within (f : Failure) (name : String) : Failure :=
  if f.function = "" then { f with function := name } else f

end Failure

end TypedIR
