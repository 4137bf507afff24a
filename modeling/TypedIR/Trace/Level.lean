import TypedIR.Text.Blank
import TypedIR.Text.Quoted

/-
  The vocabulary of tracing: levels, scopes, kinds of events, where events are
  kept and how they are written.

  Each of them is a small number. Numbers without a name are kept, and all of
  them are called `unknown`.
-/

namespace TypedIR.Trace

open Text

/-- How much is traced. -/
inductive Level where
  | off
  | error
  | phase
  | detail
  | debug
  | other (code : UInt8)
  deriving DecidableEq, Repr, Inhabited

/-- What an event is about, from the widest to the most detailed. -/
inductive Scope where
  | none
  | runtime
  | context
  | function
  | insn
  | other (code : UInt8)
  deriving DecidableEq, Repr, Inhabited

namespace Scope

def ofCode (n : UInt8) : Scope :=
  match n.toNat with
  | 0 => .none
  | 1 => .runtime
  | 2 => .context
  | 3 => .function
  | 4 => .insn
  | _ => .other n

def code : Scope → UInt8
  | .none => 0
  | .runtime => 1
  | .context => 2
  | .function => 3
  | .insn => 4
  | .other n => n

def name : Scope → String
  | .runtime => "runtime"
  | .context => "context"
  | .function => "function"
  | .insn => "insn"
  | _ => "unknown"

end Scope

namespace Level

def ofCode (n : UInt8) : Level :=
  match n.toNat with
  | 0 => .off
  | 1 => .error
  | 2 => .phase
  | 3 => .detail
  | 4 => .debug
  | _ => .other n

def name : Level → String
  | .off => "off"
  | .error => "error"
  | .phase => "phase"
  | .detail => "detail"
  | .debug => "debug"
  | .other _ => "unknown"

def ofName? : String → Option Level
  | "off" | "OFF" | "" => some .off
  | "error" | "ERROR" => some .error
  | "phase" | "PHASE" => some .phase
  | "detail" | "DETAIL" => some .detail
  | "debug" | "DEBUG" => some .debug
  | _ => none

def invalidMessage (name : String) : String :=
  "invalid trace level: " ++ quoted name ++ " (expected: off|error|phase|detail|debug)"

def admits (l : Level) (s : Scope) : Bool :=
  match l with
  | .phase => s.code ≤ Scope.context.code
  | .detail => s.code ≤ Scope.function.code
  | .debug => true
  | _ => false

def enabled (l : Level) : Bool := l != .off

end Level

/-- The kinds of events. -/
inductive EventKind where
  | none
  | spanBegin
  | spanEnd
  | point
  | heartbeat
  | other (code : UInt8)
  deriving DecidableEq, Repr, Inhabited

namespace EventKind

def ofCode (n : UInt8) : EventKind :=
  match n.toNat with
  | 0 => .none
  | 1 => .spanBegin
  | 2 => .spanEnd
  | 3 => .point
  | 4 => .heartbeat
  | _ => .other n

def name : EventKind → String
  | .spanBegin => "begin"
  | .spanEnd => "end"
  | .point => "point"
  | .heartbeat => "heartbeat"
  | _ => "unknown"

def mark : EventKind → String
  | .spanBegin => "→ "
  | .spanEnd => "← "
  | .point => "• "
  | .heartbeat => "♡ "
  | _ => ""

end EventKind

/-- Where events go: written as they happen, kept in a ring, or both. -/
inductive Mode where
  | none
  | stream
  | ring
  | both
  | other (code : UInt8)
  deriving DecidableEq, Repr, Inhabited

namespace Mode

def ofCode (n : UInt8) : Mode :=
  match n.toNat with
  | 0 => .none
  | 1 => .stream
  | 2 => .ring
  | 3 => .both
  | _ => .other n

def name : Mode → String
  | .stream => "stream"
  | .ring => "ring"
  | .both => "both"
  | _ => "unknown"

def ofName? (s : String) : Option Mode :=
  match normalName s with
  | "stream" => some .stream
  | "ring" => some .ring
  | "both" => some .both
  | _ => Option.none

def invalidMessage (name : String) : String :=
  "invalid storage mode: " ++ quoted name ++ " (expected: stream|ring|both)"

end Mode

/-- How events are written. -/
inductive EventFormat where
  | auto
  | text
  | ndjson
  | other (code : UInt8)
  deriving DecidableEq, Repr, Inhabited

namespace EventFormat

def ofCode (n : UInt8) : EventFormat :=
  match n.toNat with
  | 0 => .auto
  | 1 => .text
  | 2 => .ndjson
  | _ => .other n

def name : EventFormat → String
  | .auto => "auto"
  | .text => "text"
  | .ndjson => "ndjson"
  | .other _ => "unknown"

def ofName? (s : String) : Option EventFormat :=
  match normalName s with
  | "" => some .auto
  | "auto" => some .auto
  | "text" => some .text
  | "ndjson" => some .ndjson
  | "json" => some .ndjson
  | _ => none

def invalidMessage (name : String) : String :=
  "trace format " ++ quoted name ++ ": want auto, text or ndjson"

end EventFormat

end TypedIR.Trace
