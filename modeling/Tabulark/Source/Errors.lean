import Tabulark.Error

/-!
# Errors of sources

The errors of byte sources have codes of their own, for a source that cannot be
reached, has changed, or does not serve ranges. What a provider throws may be
anything: `Thrown` keeps what the handlers ask of it.
-/

namespace Tabulark.Source

/-- The codes of errors around sources. Others are only passed on by name. -/
inductive SourceErrorCode
  | invalidArgument
  | resourceLimit
  | cancelled
  | handleClosed
  | sourceUnavailable
  | sourceChanged
  | rangeUnsupported
  | other (name : String)
  deriving DecidableEq, Repr

/-- An error with a code of a source. -/
structure SourceError where
  code : SourceErrorCode
  message : String
  retryable : Bool := false
  details : List (String × Detail) := []
  deriving DecidableEq, Repr

/-- The largest addressable source. -/
def maxRangeSourceBytes : ℕ := 0xffffffff

def cancelledError : SourceError := { code := .cancelled, message := "The operation was cancelled" }

def closedError (resource : String) : SourceError :=
  { code := .handleClosed, message := s!"{resource} is closed" }

def invalidArgument (message : String) : SourceError := { code := .invalidArgument, message }

def sourceError (code : SourceErrorCode) (message : String) (retryable : Bool := false)
    (details : List (String × Detail) := []) : SourceError :=
  { code, message, retryable, details }

def resourceLimitError (requiredBytes availableBytes : ℕ) (resource : String) : SourceError where
  code := .resourceLimit
  message := "The source exceeds its configured limit"
  details := [("resource", .text resource), ("requiredBytes", .number requiredBytes),
    ("availableBytes", .number availableBytes)]

/-- What is thrown: an error with a code, an abort, the failure of a body that may be fetched
    again, or anything else. -/
inductive Thrown
  | error (error : SourceError)
  | abort
  | retryableBody
  | foreign
  deriving DecidableEq, Repr

/-- Whether something thrown says that a signal was aborted. -/
def Thrown.isAbortLike : Thrown → Bool
  | abort => true
  | _ => false

/-- What code elsewhere can throw: the failure of a body is known to its reader only. -/
abbrev HostThrown : Type := { thrown : Thrown // thrown ≠ .retryableBody }

end Tabulark.Source
