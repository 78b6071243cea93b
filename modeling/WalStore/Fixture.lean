import WalStore.Environment.Call

/-!
# Fixtures

A fixture is an environment to try things out with, one call at a time. It can be opened again
over the same log, as after a restart, and then the transactions left open are lost.
-/

namespace WalStore

/-- Commits are not made durable at once. -/
def Config.unsynced : Config := { Config.standard with syncOnCommit := false }

/-- A call made while no other is under way. There is no result if it has to wait. -/
def Environment.alone (env : Environment) (op : Environment.Op) :
    Environment × Option Environment.Result :=
  go (env.start 0 op) 4
where
  /-- At most so many further steps. -/
  go (env : Environment) : Nat → Environment × Option Environment.Result
    | 0 => (env, none)
    | steps + 1 =>
      match env.step 0 with
      | (env, none) => go env steps
      | answered => answered

/-- An environment together with what it takes to open it again. -/
structure Fixture where
  env : Environment
  config : Config
  /-- Whether the log is in a file. -/
  inFile : Bool
  /-- The transactions left open. -/
  opened : List TxnId

namespace Fixture

/-- A fixture over an empty log. -/
def ofConfig (config : Config) (inFile : Bool) : Except Error Fixture :=
  match Environment.openOn config .empty 0 with
  | .ok env => .ok ⟨env, config, inFile, []⟩
  | .error (e, _) => .error e

/-- A call outside any transaction. -/
def run (f : Fixture) (op : Environment.Op) : Fixture × Option Environment.Result :=
  let (env, result) := f.env.alone op
  ({ f with env }, result)

/-- Begins a transaction that puts a pair, and leaves it open. -/
def openPut (f : Fixture) (key value : Bytes) :
    Except Error (Fixture × Option Environment.Result) :=
  match f.env.begin .standard with
  | (_, .error e) => .error e
  | (env, .ok txn) =>
    .ok ({ f with env, opened := f.opened ++ [txn] }.run (.put txn key value))

/-- Puts a pair in a transaction of its own. The result is that of the put. -/
def commitPut (f : Fixture) (key value : Bytes) :
    Except Error (Fixture × Option Environment.Result) :=
  match f.env.begin .standard with
  | (_, .error e) => .error e
  | (env, .ok txn) =>
    let (f, result) := { f with env }.run (.put txn key value)
    .ok ((f.run (.commit txn)).1, result)

def close (f : Fixture) : Fixture × Except Error Unit :=
  let (env, result) := f.env.close
  ({ f with env }, result)

/-- Drops the transactions left open and opens the log again. A file is closed before that. -/
def reopen (f : Fixture) : Fixture × Except Error Unit :=
  let f := { f with env := f.opened.foldl Environment.drop f.env, opened := [] }
  let (f, closed) := if f.inFile then f.close else (f, .ok ())
  match closed with
  | .error e => (f, .error e)
  | .ok () =>
    match Environment.openOn f.config f.env.log.store f.env.now with
    | .ok env => ({ f with env }, .ok ())
    | .error (e, store) => ({ f with env.log.store := store }, .error e)

/-- How long the log is, if it is in memory. -/
def memorySize? (f : Fixture) : Option Nat := if f.inFile then none else some f.env.log.size

end Fixture
end WalStore
