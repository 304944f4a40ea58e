import Mathlib.Order.Basic
import Mathlib.Order.Lattice
import Mathlib.Data.Nat.Basic
import Mathlib.Order.Defs.LinearOrder
import Mathlib.Algebra.Order.Ring.Int
import Mathlib.Algebra.Order.Ring.WithTop
import Mathlib.Data.Int.ConditionallyCompleteOrder
import Mathlib.Order.ConditionallyCompleteLattice.Basic

/-!
# Identifiers

Task runs have an internal `RunId`; what the outside world calls a run is a `RunKey`.
Keys come in four strengths: a Controller name, a provider-native session, a provider
session file that has not been resolved to a session, and a provisional key made up
for a terminal.

`RunId` is a ULID in the source, that is a 128-bit number with its order; here it is a
natural number with its order. Nothing depends on its width.
-/

namespace HerdrTop

/-- The coding agents whose logs are read. -/
inductive Provider
  | claude
  | codex
  deriving DecidableEq, Repr

/-- The name the source prints with `{:?}`. -/
def Provider.debug : Provider → String
  | .claude => "Claude"
  | .codex => "Codex"

/-- The internal identity of a task run. -/
structure RunId where
  /-- The number behind the identity. -/
  ulid : ℕ
  deriving DecidableEq, Repr

instance : LinearOrder RunId :=
  LinearOrder.lift' RunId.ulid fun a b h => by cases a; cases b; cases h; rfl

/-- The digits of Crockford's base 32. -/
def crockfordDigits : List Char := "0123456789ABCDEFGHJKMNPQRSTVWXYZ".toList

/-- The identity as the source prints it: 26 digits in base 32. -/
def RunId.text (run : RunId) : String :=
  String.ofList ((List.range 26).map fun i =>
    crockfordDigits.getD (run.ulid / 32 ^ (25 - i) % 32) '0')

/-- The identity of a task run as evidence knows it. -/
inductive RunKey
  /-- A name chosen by a Controller. -/
  | controller (id : String)
  /-- A provider-native session. -/
  | native (provider : Provider) (sid : String)
  /-- A session file whose session is not known yet. -/
  | nativePath (provider : Provider) (path : String)
  /-- A made-up key for a terminal: the collector's start time and the run's ordinal. -/
  | provisional (terminalId : String) (startMs : ℤ) (seq : ℕ)
  deriving DecidableEq, Repr

/-- Whether the key is a Controller name. -/
def RunKey.isController : RunKey → Bool
  | .controller _ => true
  | _ => false

/-- Whether the key is a provider-native session. -/
def RunKey.isNative : RunKey → Bool
  | .native _ _ => true
  | _ => false

/-- Whether the key was made up for a terminal. -/
def RunKey.isProvisional : RunKey → Bool
  | .provisional _ _ _ => true
  | _ => false

/-- The strength of a key; a run never merges into a weaker one. -/
def keyPriority : RunKey → ℕ
  | .controller _ => 3
  | .native _ _ => 2
  | .nativePath _ _ => 1
  | .provisional _ _ _ => 0

/-- The text keys are sorted by. -/
def stableRunKeyIdentity : RunKey → String
  | .controller value => s!"controller:{value.utf8ByteSize}:{value}"
  | .native provider sid => s!"native:{provider.debug}:{sid.utf8ByteSize}:{sid}"
  | .nativePath provider path => s!"native-path:{provider.debug}:{path.utf8ByteSize}:{path}"
  | .provisional terminalId startMs seq =>
    s!"provisional:{terminalId.utf8ByteSize}:{terminalId}:{startMs}:{seq}"

/-- The number a row is displayed under. -/
abbrev DisplayOrdinal := ℤ

end HerdrTop
