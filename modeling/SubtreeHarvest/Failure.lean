/-
Failures. A failure has a kind, a message, and the byte offset at which it came to light where
there is one. A failure ends the stream it comes from, except that a fragment which cannot be read
again concerns that fragment alone.
-/
import SubtreeHarvest.Text.Quoted

namespace SubtreeHarvest

open Text

/-- What went wrong. -/
inductive FailureKind
  /-- A path expression or a relative selector is malformed. -/
  | malformedExpression (expression : String)
  /-- The input ended inside an open element. -/
  | inputCutShort
  /-- The markup is malformed. -/
  | malformedMarkup
  /-- The device that holds the input failed. -/
  | device
  /-- More than `max` elements were open at once. -/
  | depthExceeded (max : Nat)
  /-- A fragment grew past `max` bytes. -/
  | sizeExceeded (max : Nat)
  /-- A fragment could not be read again as a document. -/
  | unreadableFragment
  deriving DecidableEq

def FailureKind.describe : FailureKind → String
  | .malformedExpression expression => s!"malformed selector: {quoted expression}"
  | .inputCutShort => "truncated input"
  | .malformedMarkup => "syntax error"
  | .device => "i/o error"
  | .depthExceeded max => s!"max depth exceeded: {max}"
  | .sizeExceeded max => s!"max fragment size exceeded: {max}"
  | .unreadableFragment => "fragment parse error"

structure Failure where
  kind : FailureKind
  position : Option Nat
  message : String
  deriving DecidableEq

namespace Failure

/-- A failure of a kind with a message of its own, nowhere in particular. -/
def saying (kind : FailureKind) (message : String) : Failure :=
  ⟨kind, none, message⟩

/-- A failure that says no more than its kind. -/
def ofKind (kind : FailureKind) : Failure :=
  saying kind kind.describe

/-- The failure of an expression that is malformed for the given reason. -/
def malformedExpression (expression reason : String) : Failure :=
  saying (.malformedExpression expression)
    s!"malformed selector {quoted expression}: {reason}"

/-- What stands in a message in place of a reason that is not told. -/
def unexplained : String :=
  "<detail>"

/-- The same failure at a byte offset, which takes the place of an earlier one. -/
def seenAt (failure : Failure) (position : Nat) : Failure :=
  { failure with position := some position }

/-- Whether the failure ends the stream it comes from. -/
def endsStream (failure : Failure) : Bool :=
  failure.kind != .unreadableFragment

def describe (failure : Failure) : String :=
  match failure.position with
  | some n => s!"error at byte {n}: {failure.message}"
  | none => s!"error: {failure.message}"

end Failure

end SubtreeHarvest
