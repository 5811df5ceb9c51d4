import Ecash.Json.Shown

/-!
# Refusals

`WalletError` lists the reasons for which the wallet refuses an operation.
`kind` groups them by what a caller can do about them, `message` words them.
-/
namespace Ecash

/-- What a caller can tell apart. -/
inductive ErrorKind where
  | general
  | funds
  | configuration
  | timeout
  | capability
  | keyset
  | mint
  deriving DecidableEq, Repr

/-- Machine-readable name of the kind. -/
def ErrorKind.code : ErrorKind → String
  | .general => "wallet-error"
  | .funds => "insufficient-funds"
  | .configuration => "invalid-configuration"
  | .timeout => "selection-timeout"
  | .capability => "counter-capability-unsupported"
  | .keyset => "keyset-not-found"
  | .mint => "mint-error"

/-- A request that got no answer: the name of what went wrong, and its text. -/
structure TransportFault where
  name : String
  message : String
  deriving DecidableEq, Repr

/-- Why the wallet refuses an operation.
mirrors errors/definitions:1-59, errors/wallet_errors:6-61, errors/mint_errors:8-20 -/
inductive WalletError where
  -- funds
  | notEnoughFunds
  | notEnoughForSwap
  | feeExceedsToken (total : Int)
  -- selection
  | selectionTimeout
  -- amounts and outputs
  | splitExceedsTotal (split total : Int)
  | splitNotInKeyset (amounts : List Int)
  | notDivisible (rest : Int)
  | customTotalDiffers (total amount : Int)
  | customWithFees
  | customForChange
  | denominationsDiffer (total amount : Int)
  | seedMissing
  | lockKeyMissing
  | feeDiverges
  | counterMissing
  | mintAmountNotPositive
  -- counters
  | negativeReservation
  | negativeCounter
  | cannotAdvance
  | cannotSetNext
  | cannotSnapshot
  -- keysets
  | noActiveKeyset
  | noKeysets
  | unknownKeyset (id : Json)
  | noFee (id : Json) (looked : Bool)
  -- tokens
  | foreignMint
  | foreignUnit
  -- answers of the mint
  | noKeyFor (keyset : Json) (amount : Int)
  | signaturesForOutputs (signatures outputs : Nat)
  | signaturesForRestored (signatures outputs : Nat)
  | signatureCount
  | tooMuchChange
  | statesMissing (count : Nat)
  | notConnected
  | unanswered (operation : String) (fault : TransportFault)
  | refused (operation : String) (status : Int) (detail : Json) (code : Json)
  -- errors worded by others
  | general (message : String) (code retryable : Json)
  | worded (kind : ErrorKind) (message : String)
  | mint (message : String) (status code : Json)
  deriving DecidableEq, Repr

namespace WalletError

def kind : WalletError → ErrorKind
  | notEnoughFunds | notEnoughForSwap | feeExceedsToken _ => .funds
  | selectionTimeout => .timeout
  | splitExceedsTotal .. | splitNotInKeyset _ | notDivisible _ | customTotalDiffers .. | customWithFees
  | customForChange | denominationsDiffer .. | seedMissing | lockKeyMissing | feeDiverges
  | counterMissing | mintAmountNotPositive | negativeReservation | negativeCounter | foreignMint
  | foreignUnit => .configuration
  | cannotAdvance | cannotSetNext | cannotSnapshot => .capability
  | noActiveKeyset | noKeysets | unknownKeyset _ | noFee .. => .keyset
  | noKeyFor .. | signaturesForOutputs .. | signaturesForRestored .. | signatureCount | tooMuchChange
  | statesMissing _ | notConnected | unanswered .. | refused .. | mint .. => .mint
  | general .. => .general
  | worded k _ => k

/-- The wording of the error. -/
def message : WalletError → String
  | notEnoughFunds => "not enough funds available to send"
  | notEnoughForSwap => "not enough funds available for swap"
  | feeExceedsToken total => s!"Token amount {total} does not cover the swap fee"
  | selectionTimeout => "proof selection took too long, try again with a smaller proof set"
  | splitExceedsTotal split total => s!"Split is greater than total amount: {split} > {total}"
  | splitNotInKeyset amounts =>
    "Provided amount preferences do not match the amounts of the mint keyset: " ++ Json.shownInts amounts
  | notDivisible rest => s!"Cannot split remaining amount {rest} with keyset amounts"
  | customTotalDiffers total amount =>
    s!"Custom output data total ({total}) does not match amount ({amount})"
  | customWithFees => "custom outputs do not support automatic fee inclusion"
  | customForChange => "custom outputs are not supported for melt change"
  | denominationsDiffer total amount => s!"Custom denominations sum mismatch: {total} != {amount}"
  | seedMissing => "deterministic outputs require a wallet seed"
  | lockKeyMissing => "locked outputs require a public key"
  | feeDiverges => "fee augmentation did not converge"
  | counterMissing => "Deterministic outputs need a counter; call assign_counters() first"
  | mintAmountNotPositive => "mint amount must be positive"
  | negativeReservation => "reservation count must not be negative"
  | negativeCounter => "counter value must not be negative"
  | cannotAdvance => "counter source does not support advancing"
  | cannotSetNext => "counter source does not support set_next"
  | cannotSnapshot => "counter source does not support snapshot"
  | noActiveKeyset => "no active keyset found"
  | noKeysets => "key chain not initialized, call load() first"
  | unknownKeyset id => "No keyset found with id " ++ id.shown
  | noFee id _ => "Could not get fee. No keyset found for keyset id: " ++ id.shown
  | foreignMint => "token belongs to a different mint"
  | foreignUnit => "token is not in the wallet unit"
  | noKeyFor keyset amount => "Keyset " ++ keyset.shown ++ s!" has no key for amount {amount}"
  | signaturesForOutputs signatures outputs =>
    s!"Mint returned {signatures} signatures for {outputs} outputs"
  | signaturesForRestored signatures outputs =>
    s!"Mint returned {signatures} signatures for {outputs} restored outputs"
  | signatureCount => "mint returned an unexpected number of signatures"
  | tooMuchChange => "mint returned more change signatures than blanks provided"
  | statesMissing count => s!"Mint did not return a state for {count} proofs"
  | notConnected => "Mint client not connected. Call connect() first."
  | unanswered operation fault => s!"Mint {operation} failed: " ++ fault.message
  | refused operation status detail _ => s!"Mint {operation} failed ({status}): " ++ detail.shown
  | general text _ _ | worded _ text | mint text _ _ => text

/-- Machine-readable name of the error. -/
def code : WalletError → Json
  | general _ c _ => c
  | e => .str e.kind.code

/-- The same call may succeed later. -/
def retryable : WalletError → Json
  | general _ _ r => r
  | e => .bool (e.kind = .timeout)

/-- The status of the mint's answer; zero without one. -/
def status : WalletError → Json
  | refused _ s _ _ => .int s
  | mint _ s _ => s
  | _ => .int 0

/-- The code in the mint's answer, if any. -/
def detailCode : WalletError → Json
  | refused _ _ _ c | mint _ _ c => c
  | _ => .null

/-- The error behind this one. -/
def cause? : WalletError → Option (TransportFault ⊕ WalletError)
  | unanswered _ fault => some (.inl fault)
  | noFee id true => some (.inr (.unknownKeyset id))
  | _ => none

end WalletError

end Ecash
