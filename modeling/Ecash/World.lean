import Ecash.Derivation.Secret
import Ecash.Mint.Simulated
import Ecash.Program

/-!
# A reproducible world

A handler for programs in which nothing is left to chance: secrets, factors and
orders follow from their number, the clock advances by a fixed step a reading,
listeners only take notes, and the mint is in memory. What happens is recorded
beside it.
-/
namespace Ecash

-- Powers are core's own, whatever else is imported.
attribute [local instance (high)] instPowNat

/-! ## Orders -/

/-- Where the orders for going through things come from. -/
inductive Shuffler where
  | unchanged
  | reversed
  /-- A linear congruence on 64-bit states. -/
  | congruence (state : Nat)
  deriving DecidableEq, Repr

namespace Shuffler

/-- An order under construction. -/
abbrev Arrangement (n : Nat) := { a : Array Nat // a.toList.Perm (List.range n) }

/-- Exchanges two places, if there are such. -/
def exchange {n : Nat} (a : Arrangement n) (i j : Nat) : Arrangement n :=
  if h : i < a.1.size ∧ j < a.1.size then
    ⟨a.1.swap i j h.1 h.2, (Array.swap_perm h.1 h.2).toList.trans a.2⟩
  else a

/-- The state after `s`; its upper 31 bits are what is drawn. -/
def next (s : Nat) : Nat := (s * 6364136223846793005 + 1442695040888963407) % 2 ^ (64 : Nat)

/-- Exchanges each place with one drawn from the places not before it. -/
def draw {n : Nat} (p : Arrangement n × Nat) (i : Nat) : Arrangement n × Nat :=
  let s := next p.2
  (exchange p.1 i (i + s / 2 ^ (33 : Nat) % (n - i)), s)

/-- An order of `n` things. -/
def sample (n : Nat) : Shuffler → Shuffle n × Shuffler
  | unchanged => (⟨List.range n, .refl _⟩, unchanged)
  | reversed => (⟨(List.range n).reverse, List.reverse_perm _⟩, reversed)
  | congruence s =>
    let r := (List.range n).foldl draw (⟨Array.range n, by simp⟩, s)
    (⟨r.1.1.toList, r.1.2⟩, congruence r.2)

end Shuffler

/-! ## The world -/

/-- What a listener is called in the notes, and whether it fails after taking them. -/
structure Scribe where
  name : String
  fails : Bool
  deriving DecidableEq, Repr

/-- The state of the world, and the records of what happened. -/
structure World where
  secretsDrawn : Nat
  factorsDrawn : Nat
  shuffler : Shuffler
  clock : Float
  clockStep : Float
  seed : Option Bytes
  source : CounterSource Cursors
  cursors : Cursors
  metrics : Option Metrics
  registry : Registry
  scribes : List Scribe
  /-- How often each factory has been called. -/
  factories : List Nat
  mint : Mint.Simulated
  warnings : List Warning
  notes : List (String × Notice)
  calls : List MintCall

namespace World

/-- A world in which nothing has happened, with its counters in memory. -/
def fresh (seed : Option Bytes) (mint : Mint.Simulated) : World :=
  ⟨0, 0, .congruence 1, 0.0, 0.0, seed, .inMemory, [], none, .empty, [], [], mint, [], [], []⟩

variable (S : Suite)

/-- The hash of a label and a number. -/
def numbered (label : String) (i : Nat) : Bytes := S.sha256 (Bytes.ofText s!"{label}:{i}")

/-- Secret and blinding factor from the seed; only texts are ids. -/
def derive (w : World) (id : Json) (counter : Int) : Outcome (Bytes × Nat) :=
  match w.seed, id with
  | some seed, .str id => do
    return (← Derivation.secret S seed id counter, ← Derivation.blindingFactor S seed id counter)
  | _, _ => .error .wrongKind

/-- The `n`-th output of a factory. -/
def produced (n : Nat) (amount : Int) (k : Keyset) : Outcome Output :=
  Output.ofSecret S amount k.id (Bytes.ofText s!"factory-{n}-{amount}") (1000 + n)

/-- Answers a command. -/
def handle : (c : Command) → World → c.Answer × World
  | .shuffle n, w =>
    let (order, shuffler) := w.shuffler.sample n
    (order, { w with shuffler })
  | .now, w =>
    let t := w.clock + w.clockStep
    (t, { w with clock := t })
  | .freshSecret, w =>
    ((numbered S "token" w.secretsDrawn).hex, { w with secretsDrawn := w.secretsDrawn + 1 })
  | .freshFactor, w =>
    ((numbered S "scalar" w.factorsDrawn).toNat % (S.order - 1) + 1,
      { w with factorsDrawn := w.factorsDrawn + 1 })
  | .derive id counter _, w => (w.derive S id counter, w)
  | .produce f amount k, w =>
    let n := (w.factories[f]?).getD 0 + 1
    (produced S n amount k, { w with factories := w.factories.set f n })
  | .reserve id n, w =>
    let (r, cursors) := w.source.reserve id n w.cursors
    (r, { w with cursors })
  | .advance id least, w =>
    let (r, cursors) := w.source.advance id least w.cursors
    (r, { w with cursors })
  | .listeners t, w => (w.registry.of t, w)
  | .tell l _ notice, w =>
    let scribe := (w.scribes[l]?).getD ⟨"", false⟩
    (!scribe.fails, { w with notes := w.notes ++ [(scribe.name, notice)] })
  | .warn x, w => ((), { w with warnings := w.warnings ++ [x] })
  | .record m, w => ((), { w with metrics := w.metrics.map fun ms => (ms.record m).2 })
  | .call c, w =>
    let (r, mint) := w.mint.answer S c
    (r, { w with mint, calls := w.calls ++ [c] })

/-- Runs a program. -/
def run {α : Type} (p : Program α) (w : World) : Outcome α × World := p.run (handle S) w

/-- Adds a listener; its number is the length of the list before. -/
def enlist (w : World) (s : Scribe) : World × Listener :=
  ({ w with scribes := w.scribes ++ [s] }, w.scribes.length)

/-- Forgets what has been recorded. -/
def forget (w : World) : World := { w with warnings := [], notes := [], calls := [] }

end World

end Ecash
