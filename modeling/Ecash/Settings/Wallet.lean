import Ecash.Selection.Search
import Ecash.Settings.Check

/-!
# The settings of a wallet

One record a section. Each reader states the members of its section, how they
are read and what they are when left out.
-/
namespace Ecash.Settings

/-- How secrets are made when the caller does not say. -/
inductive SecretsPolicy where
  /-- From the seed if there is one, at random otherwise. -/
  | auto
  | random
  | deterministic
  deriving DecidableEq, Repr

def SecretsPolicy.name : SecretsPolicy → String
  | .auto => "auto"
  | .random => "random"
  | .deterministic => "deterministic"

def SecretsPolicy.read : Read SecretsPolicy := choice SecretsPolicy.name [.auto, .random, .deterministic]

/-- Where the mint is and how to talk to it. -/
structure Mint where
  url : String
  timeout : Float
  authToken : String
  deriving Repr

def Mint.names : List String := ["url", "timeout", "auth_token"]

/-- mirrors config/settings:41-51 -/
def Mint.read (ms : Members) : Checked Mint :=
  closed ms Mint.names <| Mint.mk <$> member ms "url" text "http://localhost:3338"
    <*> member ms "timeout" number 30.0 <*> member ms "auth_token" text ""

def Mint.toJson (s : Mint) : Json :=
  .obj [("url", .str s.url), ("timeout", .float s.timeout), ("auth_token", .str s.authToken)]

def selectionNames : List String :=
  ["max_trials", "max_time_ms", "max_swap_attempts", "max_overage_percent", "max_overage_amount"]

/-- Bounds on the selection of proofs.
mirrors config/settings:54-74 -/
def readSelection (ms : Members) : Checked Selection.Limits :=
  closed ms selectionNames <| Selection.Limits.mk <$> member ms "max_trials" (atLeast 1) 60
    <*> member ms "max_time_ms" (atLeast 0) 1000 <*> member ms "max_swap_attempts" (atLeast 0) 5000
    <*> member ms "max_overage_percent" notNegative 0.0 <*> member ms "max_overage_amount" (atLeast 0) 0

def selectionJson (l : Selection.Limits) : Json :=
  .obj [("max_trials", .int l.trials), ("max_time_ms", .int l.milliseconds),
    ("max_swap_attempts", .int l.exchanges), ("max_overage_percent", .float l.overagePercent),
    ("max_overage_amount", .int l.overageAmount)]

/-- How outputs are planned: the number of proofs to hold of each denomination,
and how often a fee is raised before giving up. -/
structure Output where
  denominationTarget : Nat
  maxFeeRounds : Nat
  deriving DecidableEq, Repr

def Output.standard : Output := ⟨3, 1000⟩

def Output.names : List String := ["denomination_target", "max_fee_iterations"]

/-- mirrors config/settings:77-86 -/
def Output.read (ms : Members) : Checked Output :=
  closed ms Output.names <| Output.mk <$> member ms "denomination_target" (atLeast 1) 3
    <*> member ms "max_fee_iterations" (atLeast 1) 1000

def Output.toJson (s : Output) : Json :=
  .obj [("denomination_target", .int s.denominationTarget), ("max_fee_iterations", .int s.maxFeeRounds)]

/-- How far a restore looks past the last recovered counter, and by what steps. -/
structure Restore where
  gapLimit : Nat
  batchSize : Nat
  deriving DecidableEq, Repr

def Restore.names : List String := ["gap_limit", "batch_size"]

/-- mirrors config/settings:89-98 -/
def Restore.read (ms : Members) : Checked Restore :=
  closed ms Restore.names <| Restore.mk <$> member ms "gap_limit" (atLeast 1) 300
    <*> member ms "batch_size" (atLeast 1) 100

def Restore.toJson (s : Restore) : Json :=
  .obj [("gap_limit", .int s.gapLimit), ("batch_size", .int s.batchSize)]

/-- Whether operations are counted. -/
structure Metrics where
  enabled : Bool
  deriving DecidableEq, Repr

def Metrics.names : List String := ["enabled"]

/-- mirrors config/settings:101-109 -/
def Metrics.read (ms : Members) : Checked Metrics :=
  closed ms Metrics.names <| Metrics.mk <$> member ms "enabled" bool true

def Metrics.toJson (s : Metrics) : Json := .obj [("enabled", .bool s.enabled)]

/-- All settings. An empty keyset id leaves the choice to the wallet. -/
structure Wallet where
  debug : Bool
  unit : String
  keysetId : String
  secretsPolicy : SecretsPolicy
  configPath : String
  mint : Mint
  selection : Selection.Limits
  output : Output
  restore : Restore
  metrics : Metrics
  deriving Repr

/-- Members that are values. -/
def Wallet.scalarNames : List String := ["debug", "unit", "keyset_id", "secrets_policy", "config_path"]

/-- A member that is a section: its name, the names of its own members, and its
settings as they could be given. -/
structure Wallet.Part where
  name : String
  names : List String
  read : Members → Checked Json

def Wallet.parts : List Wallet.Part :=
  [⟨"mint", Mint.names, fun ms => Mint.toJson <$> Mint.read ms⟩,
    ⟨"selection", selectionNames, fun ms => selectionJson <$> readSelection ms⟩,
    ⟨"output", Output.names, fun ms => Output.toJson <$> Output.read ms⟩,
    ⟨"restore", Restore.names, fun ms => Restore.toJson <$> Restore.read ms⟩,
    ⟨"metrics", Metrics.names, fun ms => Metrics.toJson <$> Metrics.read ms⟩]

def Wallet.names : List String := Wallet.scalarNames ++ Wallet.parts.map (·.name)

/-- Reads all settings; `others` tells what else there was besides the members.
mirrors config/settings:130-156 -/
def Wallet.read (others : Checked Unit) (ms : Members) : Checked Wallet :=
  closed ms Wallet.names <| Wallet.mk <$> member ms "debug" bool false <*> member ms "unit" text "sat"
    <*> member ms "keyset_id" text "" <*> member ms "secrets_policy" SecretsPolicy.read .auto
    <*> member ms "config_path" text "" <*> inner ms "mint" Mint.read
    <*> inner ms "selection" readSelection <*> inner ms "output" Output.read
    <*> inner ms "restore" Restore.read <*> inner ms "metrics" Metrics.read <* others

/-- The settings as they could be given, without the file that they came from. -/
def Wallet.toJson (s : Wallet) : Json :=
  .obj [("debug", .bool s.debug), ("unit", .str s.unit), ("keyset_id", .str s.keysetId),
    ("secrets_policy", .str s.secretsPolicy.name), ("mint", s.mint.toJson),
    ("selection", selectionJson s.selection), ("output", s.output.toJson),
    ("restore", s.restore.toJson), ("metrics", s.metrics.toJson)]

end Ecash.Settings
