/-!
# Machine status

A machine is waiting, running, completed, or stopped by one of five kinds of
fault.
-/

namespace BytecodeMachine

/-- What a machine is doing, or why it stopped. -/
inductive Status where
  | uninitialised
  | initialised
  | running
  | completed
  | unimplementedOpcode
  | unknownHostCall
  | zeroDivide
  | cursorOutOfRange
  | stackOverflow
  deriving DecidableEq, Repr, Inhabited

namespace Status

/-- Every status, in the order of their numbers. -/
def all : List Status :=
  [uninitialised, initialised, running, completed, unimplementedOpcode, unknownHostCall,
    zeroDivide, cursorOutOfRange, stackOverflow]

/-- No further instruction runs in this status. -/
def isTerminal : Status → Bool
  | uninitialised | initialised | running => false
  | _ => true

/-- The machine stopped because of a fault. -/
def isFault (s : Status) : Bool := s.isTerminal && s != completed

/-- Stepping and running go on from this status. -/
def isActive : Status → Bool
  | initialised | running => true
  | _ => false

/-- The words shown to people. -/
def text : Status → String
  | uninitialised => "uninitialised"
  | initialised => "initialised"
  | running => "running"
  | completed => "completed"
  | unimplementedOpcode => "unimplemented opcode"
  | unknownHostCall => "unknown host call"
  | zeroDivide => "zero divide"
  | cursorOutOfRange => "cursor out of range"
  | stackOverflow => "stack overflow"

/-- The name used in snapshots. -/
def name : Status → String
  | uninitialised => "Uninitialised"
  | initialised => "Initialised"
  | running => "Running"
  | completed => "Completed"
  | unimplementedOpcode => "UnimplementedOpcode"
  | unknownHostCall => "UnknownHostCall"
  | zeroDivide => "ZeroDivide"
  | cursorOutOfRange => "CursorOutOfRange"
  | stackOverflow => "StackOverflow"

end Status

end BytecodeMachine
