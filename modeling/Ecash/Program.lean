import Ecash.Event
import Ecash.Metrics

/-!
# Programs

A wallet operation is a program: a tree that asks the world for one thing after
another and goes on with each answer. `run` walks the tree with a handler that
answers; everything the wallet decides by itself stays in the tree, everything
it depends on (chance, time, the seed, counters, listeners, the mint) is a
`Command`.
-/
namespace Ecash

/-- Something that happened, that the operation survives, and that its owner
should look into. -/
inductive Warning where
  | nothingToPlan (amount : Int)
  | negativeAmount (amount : Int)
  | selectionSlow
  | listenerFailed (topic : Topic)
  | signatureCount (signatures outputs : Nat)
  | changeCount (signatures blanks : Nat)
  | cannotAdvance (keyset : Json) (last : Int)
  deriving DecidableEq, Repr

/-- The wording of the warning. -/
def Warning.message : Warning → String
  | nothingToPlan amount => s!"Refusing to plan outputs for non-positive amount {amount}"
  | negativeAmount amount => s!"Amount was negative: {amount}"
  | selectionSlow => "Proof selection took too long, returning best selection so far"
  | listenerFailed topic => s!"Listener for {topic.name} failed"
  | signatureCount signatures outputs => s!"Mint returned {signatures} signatures, expected {outputs}"
  | changeCount signatures blanks => s!"Mint returned {signatures} change signatures for {blanks} blanks"
  | cannotAdvance keyset last =>
    "Counter source cannot advance; keyset " ++ keyset.shown ++ s!" must resume after counter {last}"

/-- An order in which to go through `n` things. -/
abbrev Shuffle (n : Nat) := { order : List Nat // order.Perm (List.range n) }

/-- What an index of the seed is derived for. -/
inductive IndexUse where
  /-- An output whose index came from the counter source. -/
  | reserved
  /-- An output whose index the caller chose. -/
  | pinned
  /-- Recovery of an earlier output. -/
  | recovery
  deriving DecidableEq, Repr

/-- What a program can ask the world for. -/
inductive Command where
  /-- A random order of `n` things. -/
  | shuffle (n : Nat)
  /-- Seconds on a clock that never goes back. -/
  | now
  /-- 32 random bytes in hexadecimal. -/
  | freshSecret
  /-- A random scalar, not zero. -/
  | freshFactor
  /-- Secret and blinding factor for an index of the seed. -/
  | derive (keyset : Json) (counter : Int) (use : IndexUse)
  /-- An output made by one of the caller's factories. -/
  | produce (factory : Nat) (amount : Int) (keyset : Keyset)
  /-- The next `n` counters of a keyset. -/
  | reserve (keyset : Json) (n : Int)
  /-- Moves the cursor of a keyset forward. -/
  | advance (keyset : Json) (least : Int)
  /-- The listeners subscribed to a topic. -/
  | listeners (topic : Topic)
  /-- Tells a listener; the answer is whether it took the news without failing. -/
  | tell (listener : Listener) (topic : Topic) (notice : Notice)
  | warn (warning : Warning)
  | record (measurement : Measurement)
  | call (c : MintCall)

/-- What a command is answered with. -/
def Command.Answer : Command → Type
  | .shuffle n => Shuffle n
  | .now => Float
  | .freshSecret => String
  | .freshFactor => Nat
  | .derive .. => Outcome (Bytes × Nat)
  | .produce .. => Outcome Output
  | .reserve .. => Outcome CounterBlock
  | .advance .. => Outcome Unit
  | .listeners _ => List Listener
  | .tell .. => Bool
  | .warn _ | .record _ => Unit
  | .call c => Outcome c.Reply

/-- A computation that asks the world. -/
inductive Program (α : Type) where
  | done (r : Outcome α)
  | ask (c : Command) (next : c.Answer → Program α)

namespace Program

variable {α β : Type}

/-- Goes on with the result, if there is one. -/
def andThen (p : Program α) (f : α → Program β) : Program β :=
  match p with
  | .done (.ok a) => f a
  | .done (.error e) => .done (.error e)
  | .ask c next => .ask c fun a => (next a).andThen f

instance : Monad Program where
  pure a := .done (.ok a)
  bind := andThen

/-- Goes on with the result or the failure. -/
def attempt (p : Program α) : Program (Outcome α) :=
  match p with
  | .done r => .done (.ok r)
  | .ask c next => .ask c fun a => (next a).attempt

/-- A computation that asks for nothing. -/
def ofOutcome (r : Outcome α) : Program α := .done r

instance : MonadLift (Except Failure) Program where
  monadLift := ofOutcome

def fail (e : WalletError) : Program α := .done (refuse e)

/-- Walks the program with a handler over states `σ`. -/
def run {σ : Type} (handle : (c : Command) → σ → c.Answer × σ) : Program α → σ → Outcome α × σ
  | .done r, s => (r, s)
  | .ask c next, s =>
    let (a, s) := handle c s
    (next a).run handle s

/-! ## Asking -/

/-- One command, its answer as it is. -/
def command (c : Command) : Program c.Answer := .ask c fun a => .done (.ok a)

def shuffle (n : Nat) : Program (Shuffle n) := command (.shuffle n)
def now : Program Float := command .now
def freshSecret : Program String := command .freshSecret
def freshFactor : Program Nat := command .freshFactor
def warn (w : Warning) : Program Unit := command (.warn w)
def record (m : Measurement) : Program Unit := command (.record m)
def listeners (t : Topic) : Program (List Listener) := command (.listeners t)

def derive (keyset : Json) (counter : Int) (use : IndexUse) : Program (Bytes × Nat) :=
  .ask (.derive keyset counter use) .done

def produce (factory : Nat) (amount : Int) (keyset : Keyset) : Program Output :=
  .ask (.produce factory amount keyset) .done

def reserve (keyset : Json) (n : Int) : Program CounterBlock := .ask (.reserve keyset n) .done

def advance (keyset : Json) (least : Int) : Program Unit := .ask (.advance keyset least) .done

def call (c : MintCall) : Program c.Reply := .ask (.call c) .done

/-- A call that is counted as an operation, whether it succeeds or not.
mirrors engine/client:626-632 -/
def counted (c : MintCall) : Program c.Reply := do
  let reply ← (call c).attempt
  record (.operation c.operation)
  ofOutcome reply

/-! ## Events -/

/-- Tells one listener; a failure is only worth a warning.
mirrors events:35-44 -/
def tell (topic : Topic) (notice : Notice) (listener : Listener) : Program Unit := do
  let took : Bool ← command (.tell listener topic notice)
  if took then return () else warn (.listenerFailed topic)

/-- Tells a listener of this call, then all that are subscribed, in order.
mirrors events:72-90 -/
def announce (topic : Topic) (notice : Notice) (own : Option Listener) : Program Unit := do
  own.toList.forM (tell topic notice)
  (← listeners topic).forM (tell topic notice)

end Program

end Ecash
