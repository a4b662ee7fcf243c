import UsagePolicy.Text.Basic

/-!
# Trace identifiers

A span context names a trace and a span in it by two numbers. It is valid if neither is zero and
they fit into 128 and 64 bits; only then are they written, as hexadecimal digits of fixed number.
-/

namespace UsagePolicy

/-- The identifiers of a span. -/
structure SpanContext where
  trace : Nat
  span : Nat
deriving DecidableEq, Repr

namespace SpanContext

/-- The context outside all spans. -/
def none : SpanContext := ⟨0, 0⟩

/-- The identifiers can be used. -/
def isValid (c : SpanContext) : Bool :=
  c.trace != 0 && c.trace < Nat.pow 2 128 && c.span != 0 && c.span < Nat.pow 2 64

/-- The identifier of the trace as it is written. -/
def traceText? (c : SpanContext) : Option Text :=
  if c.isValid then some (Text.hex 32 c.trace) else Option.none

/-- The identifier of the span as it is written. -/
def spanText? (c : SpanContext) : Option Text :=
  if c.isValid then some (Text.hex 16 c.span) else Option.none

end SpanContext

end UsagePolicy
