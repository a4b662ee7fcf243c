/-!
# Metrics

Counters and histograms over the encodings of a process. A bucket of a histogram counts the observed
values up to its bound, so the counts of the buckets do not decrease, and the one without a bound
counts all values.
-/

namespace UsagePolicy

/-- A histogram of natural numbers. -/
structure Histogram where
  /-- The bounds of the buckets and their counts. -/
  buckets : List (Nat × Nat)
  /-- How many values were observed. -/
  count : Nat
  /-- The sum of the observed values. -/
  sum : Nat
deriving DecidableEq, Repr

namespace Histogram

/-- The histogram before anything is observed. -/
def ofBounds (bounds : List Nat) : Histogram := ⟨bounds.map fun b => (b, 0), 0, 0⟩

/-- The histogram after one more value. -/
def observe (h : Histogram) (v : Nat) : Histogram :=
  ⟨h.buckets.map fun b => if v ≤ b.1 then (b.1, b.2 + 1) else b, h.count + 1, h.sum + v⟩

end Histogram

/-- What is counted over all encodings that began. -/
structure Metrics where
  /-- The encodings that gave a document. -/
  successes : Nat
  /-- The encodings that failed. -/
  errors : Nat
  /-- How many durations were observed. -/
  durations : Nat
  /-- The numbers of rules of the policies encoded. -/
  rules : Histogram
  /-- The depths of the policies encoded. -/
  depths : Histogram
deriving DecidableEq, Repr

namespace Metrics

/-- The metrics of a new process. -/
def zero : Metrics :=
  ⟨0, 0, 0, .ofBounds [0, 1, 5, 10, 25, 50, 100, 250], .ofBounds [1, 2, 4, 8, 16, 32, 64]⟩

/-- The metrics after an encoding that gave a document. -/
def success (m : Metrics) (rules depth : Nat) : Metrics :=
  ⟨m.successes + 1, m.errors, m.durations + 1, m.rules.observe rules, m.depths.observe depth⟩

/-- The metrics after an encoding that failed. -/
def failure (m : Metrics) : Metrics :=
  ⟨m.successes, m.errors + 1, m.durations + 1, m.rules, m.depths⟩

end Metrics

end UsagePolicy
