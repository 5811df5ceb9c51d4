import Ecash.Failure
import Ecash.Json.Same

/-!
# Counters

Deterministic secrets are derived from a counter. A source hands out blocks of
counters of a keyset; a counter may be skipped, but one that was handed out is
never handed out again unless the cursor is set back by hand.
-/
namespace Ecash

/-- The counters `start … start + count - 1`. -/
structure CounterBlock where
  start : Int
  count : Int
  deriving DecidableEq, Repr

/-- First counter after the block. -/
def CounterBlock.next (b : CounterBlock) : Int := b.start + b.count

/-- A block reserved for an operation on a keyset. -/
structure Reservation where
  keyset : Json
  block : CounterBlock
  deriving DecidableEq, Repr

/-- The members that describe a block. -/
def CounterBlock.members (b : CounterBlock) : List (String × Json) :=
  [("start", .int b.start), ("count", .int b.count), ("next", .int b.next)]

def Reservation.toJson (r : Reservation) : Json := .obj (("keyset_id", r.keyset) :: r.block.members)

/-- The next counter of every keyset that has been used, in order of first use. -/
abbrev Cursors := List (Json × Int)

namespace Cursors

/-- The next counter of a keyset. -/
def next (cs : Cursors) (keyset : Json) : Int := (Json.find? keyset cs).getD 0

/-- Moves the cursor of a keyset. -/
def set (keyset : Json) (value : Int) : Cursors → Cursors
  | [] => [(keyset, value)]
  | (k, v) :: rest => if k.same keyset then (k, value) :: rest else (k, v) :: set keyset value rest

/-- Starting cursors; none may be negative. -/
def ofInitial (initial : Cursors) : Outcome Cursors :=
  if initial.any fun c => c.2 < 0 then refuse .negativeCounter else .ok initial

/-- Hands out the next `n` counters; none when `n` is zero.
mirrors engine/counters:130-145 -/
def reserve (keyset : Json) (n : Int) (cs : Cursors) : Outcome CounterBlock × Cursors :=
  if n < 0 then (refuse .negativeReservation, cs)
  else
    let start := cs.next keyset
    (.ok ⟨start, n⟩, if n = 0 then cs else cs.set keyset (start + n))

/-- Moves a cursor forward to `least`, never back.
mirrors engine/counters:147-152 -/
def advance (keyset : Json) (least : Int) (cs : Cursors) : Cursors :=
  if cs.next keyset < least then cs.set keyset least else cs

/-- Sets a cursor.
mirrors engine/counters:154-163 -/
def setNext (keyset : Json) (value : Int) (cs : Cursors) : Outcome Unit × Cursors :=
  if value < 0 then (refuse .negativeCounter, cs) else (.ok (), cs.set keyset value)

end Cursors

/-! ## Sources -/

/-- A source of counters with state `σ`. Every source reserves; moving cursors
and listing them are capabilities that it may lack.
mirrors engine/counters:74-94 -/
structure CounterSource (σ : Type) where
  reserve : Json → Int → σ → Outcome CounterBlock × σ
  advance? : Option (Json → Int → σ → Outcome Unit × σ)
  setNext? : Option (Json → Int → σ → Outcome Unit × σ)
  snapshot? : Option (σ → Cursors)

namespace CounterSource

/-- The source that keeps its cursors in memory. -/
def inMemory : CounterSource Cursors where
  reserve := Cursors.reserve
  advance? := some fun k least cs => (.ok (), cs.advance k least)
  setNext? := some Cursors.setNext
  snapshot? := some id

/-- A source that only reserves, and does not question what is asked of it. -/
def reserving : CounterSource Cursors where
  reserve keyset n cs := (.ok ⟨cs.next keyset, n⟩, cs.set keyset (cs.next keyset + n))
  advance? := none
  setNext? := none
  snapshot? := none

/-- The same with cursors that can be moved, but not listed. -/
def movable : CounterSource Cursors :=
  { reserving with
    advance? := some fun keyset least cs => (.ok (), cs.set keyset (max (cs.next keyset) least))
    setNext? := some fun keyset value cs => (.ok (), cs.set keyset value) }

variable {σ : Type} (src : CounterSource σ)

/-- Cursors can be moved. -/
def isMutable : Bool := src.advance?.isSome && src.setNext?.isSome

/-- Cursors can be listed. -/
def isInspectable : Bool := src.snapshot?.isSome

/-- The counter that would be handed out next. -/
def peek (keyset : Json) (s : σ) : Outcome Int × σ :=
  let (r, s) := src.reserve keyset 0 s
  (r.map CounterBlock.start, s)

def advance (keyset : Json) (least : Int) (s : σ) : Outcome Unit × σ :=
  match src.advance? with
  | some f => f keyset least s
  | none => (refuse .cannotAdvance, s)

def setNext (keyset : Json) (value : Int) (s : σ) : Outcome Unit × σ :=
  match src.setNext? with
  | some f => f keyset value s
  | none => (refuse .cannotSetNext, s)

def snapshot (s : σ) : Outcome Cursors :=
  match src.snapshot? with
  | some f => .ok (f s)
  | none => refuse .cannotSnapshot

end CounterSource

end Ecash
