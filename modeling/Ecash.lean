import Ecash.Json
import Ecash.Text.Numeral
import Ecash.Text.Lower
import Ecash.Text.Composed
import Ecash.Text.Quoted
import Ecash.Decimal.Printed
import Ecash.Bytes.Hex
import Ecash.Json.Reader
import Ecash.Json.Compact
import Ecash.Json.Shown
import Ecash.Hash.Hmac
import Ecash.Failure
import Ecash.Blinding
import Ecash.Derivation.Secret
import Ecash.Quote
import Ecash.Keyset
import Ecash.Amount.Split
import Ecash.Fee
import Ecash.Event
import Ecash.Lock
import Ecash.Metrics
import Ecash.Selection.Search
import Ecash.Settings.Wallet
import Ecash.Plan.Outputs
import Ecash.Swap
import Ecash.Wallet.Melt
import Ecash.Wallet.Restore
import Ecash.Wallet.States
import Ecash.Mint.Simulated
import Ecash.World
import Ecash.Mint.Client
import Ecash.Settings.Load
import Ecash.Proofs.Outcome
import Ecash.Proofs.Program.Run
import Ecash.Proofs.Fee
import Ecash.Proofs.Selection.Totals
import Ecash.Proofs.Selection.Division
import Ecash.Proofs.Selection.Trial
import Ecash.Proofs.Selection.Soundness
import Ecash.Proofs.Swap
import Ecash.Proofs.Json.Same
import Ecash.Proofs.Keyset
import Ecash.Proofs.Amount
import Ecash.Proofs.Plan
import Ecash.Proofs.Program.Passive
import Ecash.Proofs.Wallet.Send
import Ecash.Proofs.Wallet.Offline
import Ecash.Proofs.Counter
import Ecash.Proofs.Counter.Service
import Ecash.Proofs.Counter.Allocator
import Ecash.Proofs.Program.Frugal
import Ecash.Proofs.Plan.Slices
import Ecash.Proofs.Wallet.Operations
import Ecash.Proofs.Wallet.Interleaving
import Ecash.Proofs.Program.Ends
import Ecash.Proofs.Program.Alike
import Ecash.Proofs.Selection.Coverage
import Ecash.Proofs.Wallet.Restore
import Ecash.Proofs.Wallet.Scan
import Ecash.Proofs.Wallet.BatchRestore
import Ecash.Proofs.Wallet.Verification
import Ecash.Proofs.Wallet.Evidence
import Ecash.Proofs.Program.Careful
import Ecash.Proofs.Plan.Buildable
import Ecash.Proofs.Wallet.Refusal
import Ecash.Proofs.Plan.LeastFee
import Ecash.Proofs.Selection.Minimality
import Ecash.Proofs.Selection.Pruning
import Ecash.Proofs.Wallet.Credit
import Ecash.Proofs.Selection.Improvement
import Ecash.Proofs.Plan.Parts
import Ecash.Proofs.Program.Announcement
import Ecash.Proofs.Plan.OneBlock
import Ecash.Proofs.Amount.Binary
import Ecash.Proofs.Decimal.Logarithm
import Ecash.Proofs.Wallet.Change
import Ecash.Proofs.Amount.Fewest
import Ecash.Proofs.Amount.TopUp
import Ecash.Proofs.Plan.Signable
import Ecash.Proofs.Curve.Encoding
import Ecash.Proofs.Derivation.Inputs
import Ecash.Proofs.Wallet.Listeners
import Ecash.Proofs.Subscriptions
import Ecash.Proofs.Selection.Anytime
import Ecash.Proofs.Wire
import Ecash.Proofs.Selection.Bisection
import Ecash.Proofs.Selection.Order
import Ecash.Proofs.Derivation.Range
