import Ecash.Counter
import Ecash.Payload

/-!
# Events

While an operation runs it announces the counters it has reserved and the
blanks it is about to send. Listeners are told in order; what they do with the
news, and whether they fail, does not concern the operation.
-/
namespace Ecash

/-- What an event is about. -/
inductive Topic where
  | countersReserved
  | changeOutputsCreated
  deriving DecidableEq, Repr

def Topic.name : Topic → String
  | .countersReserved => "counters_reserved"
  | .changeOutputsCreated => "change_outputs_created"

/-- The news of an event. -/
inductive Notice where
  | reserved (r : Reservation)
  | blanks (b : MeltBlanks)
  | value (v : Json)
  deriving DecidableEq, Repr

/-- A listener, by number: equal numbers are the same listener. -/
abbrev Listener := Nat

/-- A listener's place in the registry. -/
structure Subscription where
  topic : Topic
  listener : Listener
  deriving DecidableEq, Repr

/-- The subscribed listeners of each topic, in order of subscription. -/
structure Registry where
  reserved : List Listener
  blanks : List Listener
  deriving DecidableEq, Repr

namespace Registry

def empty : Registry := ⟨[], []⟩

/-- The listeners of a topic. -/
def of (r : Registry) : Topic → List Listener
  | .countersReserved => r.reserved
  | .changeOutputsCreated => r.blanks

/-- mirrors events:62-70 -/
def subscribe (r : Registry) (s : Subscription) : Registry :=
  match s.topic with
  | .countersReserved => { r with reserved := r.reserved ++ [s.listener] }
  | .changeOutputsCreated => { r with blanks := r.blanks ++ [s.listener] }

/-- Removes the first entry of the subscription's listener, if there is one.
mirrors events:92-95 -/
def unsubscribe (r : Registry) (s : Subscription) : Registry :=
  match s.topic with
  | .countersReserved => { r with reserved := r.reserved.erase s.listener }
  | .changeOutputsCreated => { r with blanks := r.blanks.erase s.listener }

end Registry

end Ecash
