import WalStore.Record
import WalStore.TxnState
import WalStore.Duration
import WalStore.Text

/-!
# Errors

Each error is a cause. The wording of a cause stands in one place, `message`, and the two
questions callers ask about an error are `isCorruption` (the log could not be read) and
`isFatal` (the transaction that met it has to abort).
-/

namespace WalStore

/-! ## Stores -/

/-- Why a store refused a call. -/
inductive StoreError where
  | io (message : String)
  | readPastEnd (offset length size : Nat)
  | truncateBeyondEnd (requested size : Nat)
  deriving DecidableEq

/-- The wording of a failure of the store. -/
def StoreError.message : StoreError → String
  | io message => "I/O error: " ++ message
  | readPastEnd offset length size =>
    "read past end of store: offset " ++ toString offset ++ ", len " ++ toString length ++
      ", size " ++ toString size
  | truncateBeyondEnd requested size =>
    "cannot truncate store of " ++ toString size ++ " bytes to " ++ toString requested ++ " bytes"

/-- The name of the kind of error. -/
def StoreError.name : StoreError → String
  | io _ => "Io"
  | readPastEnd .. => "ReadPastEnd"
  | truncateBeyondEnd .. => "TruncateBeyondEnd"

/-! ## Causes -/

/-- What is wrong with a payload. -/
inductive PayloadFault where
  | endsEarly
  | badFlag (flag : UInt8)
  | trailing (used length : Nat)
  deriving DecidableEq

/-- What is wrong with the log. -/
inductive Damage where
  | badMagic (offset : Nat)
  | unsupportedVersion (version offset : Nat)
  | unknownKind (kind : UInt8) (offset : Nat)
  | outOfOrder (lsn : Lsn) (offset : Nat) (last : Lsn)
  | payload (kind : Kind) (fault : PayloadFault)
  | replayedAfter (lsn last : Lsn)
  | described (message : String)
  deriving DecidableEq

/-- The wording of a kind of damage. -/
def Damage.message : Damage → String
  | badMagic offset => "bad magic at offset " ++ toString offset
  | unsupportedVersion version offset =>
    "unsupported log version " ++ toString version ++ " at offset " ++ toString offset
  | unknownKind kind offset =>
    "unknown record kind " ++ toString kind.toNat ++ " at offset " ++ toString offset
  | outOfOrder lsn offset last =>
    lsn.text ++ " at offset " ++ toString offset ++ " does not follow " ++ last.text
  | payload kind .endsEarly => kind.text ++ " payload ends early"
  | payload kind (.badFlag flag) => kind.text ++ " payload has value flag " ++ toString flag.toNat
  | payload kind (.trailing used length) =>
    "trailing bytes in " ++ kind.text ++ " payload: used " ++ toString used ++ " of " ++
      toString length
  | replayedAfter lsn last => lsn.text ++ " replayed after " ++ last.text
  | described message => message

/-- Why a setting was refused. -/
inductive SettingFault where
  | unknownParameter
  | notPositive
  | tooLong (given limit : Duration)
  | notADuration (value : String)
  | outOfRange (value : String)
  | overflow
  | unknownUnit (unit : String)
  | notABoolean (value : String)
  | notACount (value : String)
  | described (message : String)
  deriving DecidableEq

/-- The wording of what is wrong with a setting. -/
def SettingFault.message : SettingFault → String
  | unknownParameter => "unknown parameter"
  | notPositive => "must be at least 1"
  | tooLong given limit => given.text ++ " exceeds the maximum of " ++ limit.text
  | notADuration value => Text.quote value ++ " is not a duration"
  | outOfRange value => Text.quote value ++ " is out of range"
  | overflow => "duration overflows"
  | unknownUnit unit => "unknown duration unit " ++ Text.quote unit
  | notABoolean value => Text.quote value ++ " is not true or false"
  | notACount value => Text.quote value ++ " is not a count"
  | described message => message

/-- Why an operation is not permitted. -/
inductive Refusal where
  | fieldTooLong
  | payloadTooLong
  | partialRecord
  | notActive (txn : TxnId) (state : TxnState)
  | closed
  | described (message : String)
  deriving DecidableEq

/-- The wording of a refusal. -/
def Refusal.message : Refusal → String
  | fieldTooLong => "key or value longer than 4 GiB"
  | payloadTooLong => "log record payload too large"
  | partialRecord =>
    "log holds a partial record that could not be removed; reopen to recover"
  | notActive txn state => txn.text ++ " is not active (state: " ++ state.text ++ ")"
  | closed => "environment is closed"
  | described message => message

/-! ## The engine's errors -/

/-- Why a call failed, with all that its message tells. -/
inductive Error where
  | storage (cause : StoreError)
  | io (message : String)
  | corruption (damage : Damage)
  | checksumMismatch (offset : Nat) (stored computed : UInt32)
  | lockTimeout (txn : TxnId) (resource : Resource) (waited : Duration)
  | txnTimeout (txn : TxnId) (limit : Duration)
  | deadlock (txn : TxnId) (cycle : List TxnId)
  | waitAbandoned (cause : String)
  | interrupted
  | invalidSetting (param : String) (fault : SettingFault)
  | mustAbort (txn : TxnId) (reason : String)
  | invalidOperation (refusal : Refusal)
  deriving DecidableEq

namespace Error

/-- Eight lower-case hexadecimal digits. -/
def hexWord (w : UInt32) : String :=
  let digits := Text.hex w.toNat
  String.ofList (List.replicate (8 - digits.length) '0' ++ digits)

/-- The transactions on a cycle, in the order in which they wait. -/
def cycleText (cycle : List TxnId) : String :=
  "[" ++ ", ".intercalate (cycle.map fun t => "TransactionId(" ++ toString t.toNat ++ ")") ++ "]"

/-- The wording of an error. -/
def message : Error → String
  | storage cause => "storage error: " ++ cause.message
  | io message => "I/O error: " ++ message
  | corruption damage => "log corruption: " ++ damage.message
  | checksumMismatch offset stored computed =>
    "checksum mismatch at offset " ++ toString offset ++ ": stored " ++ hexWord stored ++
      ", computed " ++ hexWord computed
  | lockTimeout txn resource waited =>
    txn.text ++ " timed out after " ++ waited.text ++ " waiting for lock on " ++ resource.text
  | txnTimeout txn limit => txn.text ++ " exceeded its transaction timeout of " ++ limit.text
  | deadlock txn cycle => txn.text ++ " chosen as deadlock victim in cycle " ++ cycleText cycle
  | waitAbandoned cause => "wait abandoned: " ++ cause
  | interrupted => "blocking call interrupted"
  | invalidSetting param fault => "invalid configuration for " ++ param ++ ": " ++ fault.message
  | mustAbort txn reason => txn.text ++ " must be aborted: " ++ reason
  | invalidOperation refusal => "invalid operation: " ++ refusal.message

/-- The name of the kind of error. -/
def name : Error → String
  | storage _ => "Storage"
  | io _ => "Io"
  | corruption _ => "Corruption"
  | checksumMismatch .. => "ChecksumMismatch"
  | lockTimeout .. => "LockTimeout"
  | txnTimeout .. => "TransactionTimeout"
  | deadlock .. => "Deadlock"
  | waitAbandoned _ => "WaitAbandoned"
  | interrupted => "Interrupted"
  | invalidSetting .. => "InvalidConfiguration"
  | mustAbort .. => "TransactionMustAbort"
  | invalidOperation _ => "InvalidOperation"

/-- Whether the log could not be interpreted. -/
def isCorruption : Error → Bool
  | corruption _ | checksumMismatch .. => true
  | _ => false

/-- Whether the transaction that met the error has to abort. -/
def isFatal : Error → Bool
  | txnTimeout .. | deadlock .. | mustAbort .. => true
  | _ => false

end Error
end WalStore
