import Ecash.Failure
import Ecash.Decimal.Double

/-!
# Metrics

Counts of what the wallet did. A sample has a name and one label; its value is
a double, as collectors keep it.
-/
namespace Ecash

/-- Something worth counting.
mirrors metrics/collector:83-109 -/
inductive Measurement where
  | selection (exact : Bool)
  | selectionTimeout (exact : Bool)
  | operation (name : String)
  | countersReserved (keyset : Json) (count : Int)
  deriving DecidableEq, Repr

def modeName (exact : Bool) : String := if exact then "exact" else "close"

namespace Measurement

/-- The sample that counts it. -/
def sample : Measurement → String
  | .selection _ => "ecash_selection_duration_seconds_count"
  | .selectionTimeout _ => "ecash_selection_timeouts_total"
  | .operation _ => "ecash_operation_duration_seconds_count"
  | .countersReserved .. => "ecash_counters_reserved_total"

/-- Name and value of the sample's label. -/
def label : Measurement → String × String
  | .selection exact | .selectionTimeout exact => ("mode", modeName exact)
  | .operation name => ("operation", name)
  | .countersReserved keyset _ => ("keyset_id", keyset.shown)

/-- By how much the sample grows. -/
def amount : Measurement → Int
  | .countersReserved _ count => count
  | _ => 1

end Measurement

/-- One counted value. -/
structure Sample where
  name : String
  label : String × String
  value : Float

/-- The samples, in order of first use. -/
abbrev Metrics := List Sample

namespace Metrics

/-- Adds to a sample, which starts at zero. -/
def add (name : String) (label : String × String) (x : Float) : Metrics → Metrics
  | [] => [⟨name, label, x⟩]
  | s :: rest =>
    if s.name = name ∧ s.label = label then { s with value := s.value + x } :: rest
    else s :: add name label x rest

/-- Counts a measurement. A negative amount is refused, but its sample exists
from then on. -/
def record (m : Measurement) (ms : Metrics) : Outcome Unit × Metrics :=
  if m.amount < 0 then (.error .unreadable, add m.sample m.label 0 ms)
  else
    match Decimal.ofInt? m.amount with
    | none => (.error .tooLarge, add m.sample m.label 0 ms)
    | some x => (.ok (), add m.sample m.label x ms)

end Metrics

end Ecash
