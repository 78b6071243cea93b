import WalStore.Recovery

/-!
# Scenarios

A scenario is a small log written in texts, a position to stop at and the pairs that are live
then. It is replayed through a log, as an environment would, and checked against what it says.
-/

namespace WalStore

namespace Scenario

/-- A log entry whose keys and values are texts. -/
inductive Line where
  | put (key value : String)
  | delete (key : String) (value : Option String)
  | txnPut (txn : TxnId) (key value : String)
  | txnDelete (txn : TxnId) (key : String) (value : Option String)
  | commit (txn : TxnId)
  | abort (txn : TxnId)
  deriving DecidableEq

/-- The entry a line stands for. -/
def Line.toEntry : Line → Entry
  | put key value => .put (.ofText key) (.ofText value)
  | delete key value => .delete (.ofText key) (value.map .ofText)
  | txnPut txn key value => .txnPut txn (.ofText key) (.ofText value)
  | txnDelete txn key value => .txnDelete txn (.ofText key) (value.map .ofText)
  | commit txn => .commit txn
  | abort txn => .abort txn

end Scenario

open Scenario (Line)

/-- A log in plain texts, and what should be live after replaying it. -/
structure Scenario where
  name : String
  lines : List Line
  /-- Replay stops behind this position; without one it goes to the end. -/
  upTo : Option Lsn
  /-- The live pairs by key, the values of a key oldest first. -/
  expected : List (String × String)
  deriving DecidableEq

namespace Scenario

def entries (s : Scenario) : List Entry := s.lines.map Line.toEntry

/-- A scenario whose live pairs are others than it expects. -/
structure Mismatch where
  name : String
  expected : List (String × String)
  actual : List (String × String)
  deriving DecidableEq

/-! ## Replaying -/

/-- A log with the entries of the scenario. -/
def log (s : Scenario) : Except Error Log := do
  let empty ← (Log.openOn (.ofBytes [])).mapError (·.1)
  s.entries.foldlM
    (fun log entry => match log.append entry with
      | (log, .ok _) => .ok log
      | (_, .error e) => .error e)
    empty

/-- What is live after replaying the log. -/
def replay (s : Scenario) : Except Error LiveSet := do
  return (← (← s.log).recover s.upTo).state.live

/-- The text that bytes are. Keys and values of a scenario are all texts. -/
def textOf (bs : Bytes) : String := (Bytes.toText? bs).getD ""

/-- Replays the scenario and compares; `none` if it holds. -/
def verify (s : Scenario) : Except Error (Option Mismatch) := do
  let actual := (← s.replay).pairs.map fun (key, value) => (textOf key, textOf value)
  return if actual = s.expected then none else some ⟨s.name, s.expected, actual⟩

/-! ## Known scenarios -/

/-- Names a transaction by a number. -/
def txn (n : Nat) : TxnId := .ofNat n

/-- A write inside a transaction between two outside. -/
def mixed : List Line :=
  [.put "k1" "v1", .txnPut (txn 1) "k2" "v2", .put "k3" "v3", .commit (txn 1)]

/-- One scenario for each rule of replay. -/
def known : List Scenario :=
  [ ⟨"scenario_a_before_commit", mixed, some (.ofNat 3), [("k1", "v1"), ("k3", "v3")]⟩,
    ⟨"scenario_a_full", mixed, none, [("k1", "v1"), ("k2", "v2"), ("k3", "v3")]⟩,
    ⟨"abort_discards", [.txnPut (txn 1) "k" "v", .put "k" "w", .abort (txn 1)], none,
      [("k", "w")]⟩,
    ⟨"delete_before_insert_nets_to_absence",
      [.txnDelete (txn 1) "k" (some "v"), .txnPut (txn 1) "k" "v", .commit (txn 1)], none, []⟩,
    ⟨"key_only_delete_takes_first",
      [.put "k" "a", .put "k" "b", .put "k" "a", .delete "k" none, .delete "k" (some "a")], none,
      [("k", "b")]⟩,
    ⟨"unresolved_tail_is_aborted",
      [.put "a" "1", .txnPut (txn 1) "b" "2", .txnPut (txn 2) "c" "3", .commit (txn 2)], none,
      [("a", "1"), ("c", "3")]⟩,
    ⟨"unknown_resolution_is_ignored", [.commit (txn 9), .put "a" "1"], none, [("a", "1")]⟩ ]

end Scenario
end WalStore
