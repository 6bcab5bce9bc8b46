import CallBackend.Lib.Json
import CallBackend.Lib.Exec
import CallBackend.Lib.Dict

/-!
# Identifiers, clocks, patterns and exceptions

What every part of the backend shares. Exceptions are the classes the code raises or catches by
name; a class matters only through the `except` clauses that name it. Clocks count nanoseconds, so
that the code's conversions to milliseconds are integer divisions.
-/

namespace CallBackend

abbrev SessionId : Type := String

abbrev RoomId : Type := String

abbrev ParticipantId : Type := String

/-- A physical connection: one Reticulum link. -/
abbrev ConnId : Type := Nat

abbrev Nanos : Type := Nat

def seconds (n : Nat) : Nanos := n * 1000000000

/-- `int(t * 1000)`. -/
def millis (t : Nanos) : Nat := t / 1000000

/-! ### Patterns -/

/-- `[class]{low,high}` matched against the whole text. -/
def fullmatch (allowed : Char → Bool) (low high : Nat) (text : String) : Bool :=
  text.toList.all allowed && decide (low ≤ text.toList.length) && decide (text.toList.length ≤ high)

def isLowerHex (c : Char) : Bool := ('a' ≤ c && c ≤ 'f') || c.isDigit

/-! ### Exceptions -/

inductive Exn where
  | valueError (message : String)
  | runtimeError (message : String)
  | protocolError (message : String)
  | backpressureError (message : String)
  | connectionClosedError (message : String)
  | timeoutError
  | osError
  | databaseError
  | queueFull
  | keyError
  | typeError
  deriving DecidableEq, Repr

/-- Caught by `except RuntimeError`. -/
def Exn.isRuntimeError : Exn → Bool
  | .runtimeError _ => true
  | _ => false

/-- Caught by `except OSError`; `TimeoutError` is a subclass. -/
def Exn.isOsError : Exn → Bool
  | .osError | .timeoutError => true
  | _ => false

end CallBackend
