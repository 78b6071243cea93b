import WalStore.Cancel.Session
import WalStore.Environment.Session
import WalStore.Latency.Session
import WalStore.Log.Sample
import WalStore.Proofs.Checksum
import WalStore.Proofs.Environment.Refusal
import WalStore.Proofs.Environment.Reopen
import WalStore.Proofs.Environment.Restart
import WalStore.Proofs.Environment.Serial
import WalStore.Proofs.Lock.Exclusive
import WalStore.Proofs.Lock.Victim
import WalStore.Proofs.Log.Canonical
import WalStore.Proofs.Log.Run
import WalStore.Proofs.Log.Torn
import WalStore.Proofs.Replay.Flat
import WalStore.Quorum
import WalStore.Scenario.Json
import WalStore.Stress.Gate
import WalStore.Stress.Locks
import WalStore.Stress.Transactions
import WalStore.Workload.Random
import WalStore.Proofs.Replay.Absence
import WalStore.Proofs.Replay.Interleaving
import WalStore.Proofs.Log.Damage
import WalStore.Proofs.Lock.Tidy
import WalStore.Proofs.Lock.Cascade
import WalStore.Proofs.Monitor.Tokens
import WalStore.Proofs.Lock.Wakeup
import WalStore.Proofs.Lock.Waits
import WalStore.Proofs.Lock.Overdue
import WalStore.Proofs.Lock.Turn
import WalStore.Proofs.Environment.Orderly
import WalStore.Proofs.Lock.Holding
import WalStore.Proofs.Environment.Covered
import WalStore.Proofs.Environment.Borrow
import WalStore.Proofs.Replay.WellFormed
import WalStore.Proofs.Environment.Resume
import WalStore.Proofs.Environment.Lifetime
import WalStore.Proofs.Environment.History
import WalStore.Proofs.Environment.Admission
import WalStore.Proofs.Environment.Accounted
import WalStore.Proofs.Environment.Leftover
import WalStore.Proofs.Environment.Closed
import WalStore.Proofs.Environment.Failure
import WalStore.Proofs.Environment.Retry
import WalStore.Proofs.Environment.Course
import WalStore.Proofs.Environment.Marks
import WalStore.Proofs.Environment.Doomed
import WalStore.Proofs.Environment.Barred
import WalStore.Proofs.Environment.Final
import WalStore.Proofs.Replay.Reach
import WalStore.Proofs.Gate.Threshold
import WalStore.Proofs.Gate.Abandoned
import WalStore.Proofs.Quorum
import WalStore.Proofs.Cancel.Heard
import WalStore.Proofs.Environment.Reading
import WalStore.Proofs.Environment.Alone
import WalStore.Proofs.Environment.Tally
import WalStore.Proofs.Lock.Layers
import WalStore.Proofs.Environment.Asleep
import WalStore.Proofs.Environment.Timeouts
import WalStore.Proofs.Log.Beyond
import WalStore.Proofs.Replay.Outcome
import WalStore.Proofs.Lock.Behind
import WalStore.Proofs.Environment.Waiting
import WalStore.Proofs.Environment.Direct
import WalStore.Proofs.Latency.Contention
import WalStore.Proofs.Environment.Copies
import WalStore.Proofs.Setting.Spelling
import WalStore.Proofs.Lock.Cycle
import WalStore.Proofs.Setting.Valid
import WalStore.Proofs.Workload.Build
import WalStore.Proofs.Scenario.Json
import WalStore.Proofs.LiveSet.History
import WalStore.Proofs.Record.Exact
