import WalStore.Latency
import WalStore.Lock.Deadline
import WalStore.Text

/-!
# Settings

The settings of an environment and of a transaction. They are set directly or by name, and a
value that is not allowed is refused, never adjusted.

**By name.** A setting is a name and a text: `true` or `false`, a count in decimal digits, or a
duration, which is a count and a unit. A refused text leaves all settings as they were. A
timeout of zero is no timeout.
-/

namespace WalStore

/-- How much a transaction keeps to itself. A serializable one locks what it reads; one that reads
what is committed does not. -/
inductive Isolation where
  | serializable
  | readCommitted
  deriving DecidableEq, Inhabited

/-- The name by which a level of isolation is shown. -/
def Isolation.text : Isolation → String
  | serializable => "Serializable"
  | readCommitted => "ReadCommitted"

/-! ## Texts -/

namespace Setting

/-- Units of time by name; no name means microseconds. -/
def unit? : List Char → Option Duration
  | [] => some Duration.microsecond
  | ['n', 's'] => some 1
  | ['u', 's'] => some Duration.microsecond
  | ['m', 's'] => some Duration.millisecond
  | ['s'] => some Duration.second
  | ['m', 'i', 'n'] => some Duration.minute
  | _ => none

/-- Counts that do not fit in 64 bits are out of range. -/
def countLimit : Nat := UInt64.size

/-- A count and a unit of time. A number of minutes has to be in range in seconds too. -/
def duration? (value : String) : Except SettingFault Duration :=
  let trimmed := Text.trim value.toList
  let digits := trimmed.takeWhile Char.isDigit
  let unit := Text.trim (trimmed.dropWhile Char.isDigit)
  let amount := Text.decimal digits
  if digits.isEmpty then .error (.notADuration value)
  else if countLimit ≤ amount then .error (.outOfRange value)
  else
    match unit? unit with
    | none => .error (.unknownUnit (String.ofList unit))
    | some size =>
      if size = Duration.minute ∧ countLimit ≤ 60 * amount then .error .overflow
      else .ok (amount * size)

/-- `true` or `false`, and no other text. -/
def bool? (value : String) : Except SettingFault Bool :=
  let trimmed := Text.trim value.toList
  if trimmed = ['t', 'r', 'u', 'e'] then .ok true
  else if trimmed = ['f', 'a', 'l', 's', 'e'] then .ok false
  else .error (.notABoolean (String.ofList trimmed))

/-- Decimal digits, with or without a plus sign. -/
def count? (value : String) : Except SettingFault Nat :=
  let trimmed := Text.trim value.toList
  let digits := match trimmed with
    | '+' :: rest => rest
    | other => other
  if digits.isEmpty || !digits.all Char.isDigit || countLimit ≤ Text.decimal digits then
    .error (.notACount value)
  else .ok (Text.decimal digits)

/-- A count of at least one. -/
def positive? (value : String) : Except SettingFault Nat := do
  let n ← count? value
  if n = 0 then .error .notPositive else return n

/-- The longest timeout allowed. -/
def maxTimeout : Duration := 75 * Duration.minute

/-- A timeout up to the limit is allowed, and so is none. -/
def checkTimeout : Option Duration → Except SettingFault Unit
  | none => .ok ()
  | some t => if maxTimeout < t then .error (.tooLong t maxTimeout) else .ok ()

/-- A duration within the limit, zero for no timeout. -/
def timeout? (value : String) : Except SettingFault (Option Duration) := do
  let timeout := Timeout.bounded (some (← duration? value))
  checkTimeout timeout
  return timeout

/-! ## Names -/

/-- The lock timeout is set by this name, and refused under it. -/
def lockTimeoutName : String := "stow.lock.timeout"

/-- The timeout of transactions is set by this name, and refused under it. -/
def txnTimeoutName : String := "stow.txn.timeout"

/-- A setting that has a name. -/
inductive Parameter where
  | lockTimeout
  | txnTimeout
  | syncOnCommit
  | deadlockDetection
  | threshold
  | slow
  | maxDumps
  | capacity
  deriving DecidableEq

/-- The setting that a name stands for. -/
def Parameter.ofName? (name : String) : Option Parameter :=
  if name = lockTimeoutName then some .lockTimeout
  else if name = txnTimeoutName then some .txnTimeout
  else if name = "stow.log.sync_on_commit" then some .syncOnCommit
  else if name = "stow.lock.deadlock_detection" then some .deadlockDetection
  else if name = Latency.Settings.thresholdName then some .threshold
  else if name = "stow.tracker.min_duration" then some .slow
  else if name = "stow.tracker.max_dumps" then some .maxDumps
  else if name = Latency.Settings.capacityName then some .capacity
  else none

end Setting

/-! ## Environments -/

/-- The settings of an environment. -/
structure Config where
  lockTimeout : Option Duration
  txnTimeout : Option Duration
  /-- Whether a commit makes its record durable. -/
  syncOnCommit : Bool
  /-- Whether deadlocks are looked for. -/
  deadlockDetection : Bool
  tracker : Latency.Settings
  deriving DecidableEq

namespace Config

/-- Half a second for a lock and all the time for a transaction, durable commits, and a look out for
deadlocks. -/
def standard : Config := ⟨some (500 * Duration.millisecond), none, true, true, .standard⟩

instance : Inhabited Config := ⟨standard⟩

/-- Sets the timeout of locks. Zero is no timeout, as it is when the setting is given by name. -/
def withLockTimeout (c : Config) (t : Option Duration) : Config :=
  { c with lockTimeout := Timeout.bounded t }

/-- Sets the timeout of transactions, where zero is no timeout. -/
def withTxnTimeout (c : Config) (t : Option Duration) : Config :=
  { c with txnTimeout := Timeout.bounded t }

/-- Gives a named setting the value of a text. -/
def assign (c : Config) (value : String) : Setting.Parameter → Except SettingFault Config
  | .lockTimeout => do return { c with lockTimeout := ← Setting.timeout? value }
  | .txnTimeout => do return { c with txnTimeout := ← Setting.timeout? value }
  | .syncOnCommit => do return { c with syncOnCommit := ← Setting.bool? value }
  | .deadlockDetection => do return { c with deadlockDetection := ← Setting.bool? value }
  | .threshold => do return { c with tracker.threshold := ← Setting.positive? value }
  | .slow => do return { c with tracker.slow := ← Setting.duration? value }
  | .maxDumps => do return { c with tracker.maxDumps := ← Setting.count? value }
  | .capacity => do return { c with tracker.capacity := ← Setting.positive? value }

/-- Sets a setting by name. -/
def set (c : Config) (name value : String) : Except Error Config :=
  let result : Except SettingFault Config := match Setting.Parameter.ofName? name with
    | none => .error .unknownParameter
    | some parameter => c.assign value parameter
  result.mapError (.invalidSetting name)

/-- A call that sets a setting by name: the settings after it, and what it answers. -/
def call (c : Config) (name value : String) : Config × Except Error Unit :=
  match c.set name value with
  | .ok c' => (c', .ok ())
  | .error e => (c, .error e)

/-- Checks the two timeouts, under the names they have as settings. -/
def checkTimeouts (lock txn : Option Duration) : Except Error Unit := do
  (Setting.checkTimeout lock).mapError (.invalidSetting Setting.lockTimeoutName)
  (Setting.checkTimeout txn).mapError (.invalidSetting Setting.txnTimeoutName)

/-- Checks the timeouts and then the tracker, up to the first that is not allowed. -/
def validate (c : Config) : Except Error Unit := do
  checkTimeouts c.lockTimeout c.txnTimeout
  c.tracker.validate

/-- The settings as debugging output shows them. -/
def describe (c : Config) : String :=
  "EnvironmentConfig \x7b lock_timeout: " ++ Duration.optionText c.lockTimeout ++
    ", txn_timeout: " ++ Duration.optionText c.txnTimeout ++ ", sync_on_commit: " ++
    toString c.syncOnCommit ++ ", deadlock_detection: " ++ toString c.deadlockDetection ++
    ", tracker: " ++ c.tracker.describe ++ " \x7d"

end Config

/-! ## Transactions -/

/-- The settings of one transaction. Its timeouts are further limits next to those of the
environment. -/
structure TxnConfig where
  isolation : Isolation
  lockTimeout : Option Duration
  txnTimeout : Option Duration
  deriving DecidableEq

namespace TxnConfig

/-- Serializable, with no limits of its own. -/
def standard : TxnConfig := ⟨.serializable, none, none⟩

instance : Inhabited TxnConfig := ⟨standard⟩

/-- Limits how long each lock is waited for. Zero is no limit. -/
def withLockTimeout (c : TxnConfig) (t : Duration) : TxnConfig :=
  { c with lockTimeout := Timeout.bounded (some t) }

/-- Limits how long the transaction may last. Zero is no limit. -/
def withTxnTimeout (c : TxnConfig) (t : Duration) : TxnConfig :=
  { c with txnTimeout := Timeout.bounded (some t) }

/-- Its timeouts are held to the limit of those of an environment. -/
def validate (c : TxnConfig) : Except Error Unit := Config.checkTimeouts c.lockTimeout c.txnTimeout

end TxnConfig
end WalStore
