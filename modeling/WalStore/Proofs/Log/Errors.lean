import WalStore.Replay
import WalStore.Proofs.Log.Canonical

/-!
# Errors of the log

Reading a log, replaying it and adding to it fail for reasons of their own: the store, damage, or
what cannot be written (`Error.isOfLog`). No such failure is the end of a transaction, and none is
about a setting.
-/

namespace WalStore

/-- An error of a log: its store fails, it is damaged, or something cannot be written to it. -/
def Error.isOfLog : Error → Bool
  | .storage _ | .corruption _ | .checksumMismatch .. | .invalidOperation _ => true
  | _ => false

variable {e : Error}

theorem Error.isFatal_of_isOfLog (h : e.isOfLog = true) : e.isFatal = false := by
  cases e <;> first | rfl | cases h

theorem Error.name_ne_of_isOfLog (h : e.isOfLog = true) : e.name ≠ "InvalidConfiguration" := by
  cases e <;> simp_all [isOfLog, name]

theorem Error.isOfLog_of_isCorruption (h : e.isCorruption = true) : e.isOfLog = true := by
  cases e <;> first | rfl | cases h

/-! ## Writing -/

namespace Payload

theorem isOfLog_of_ofField {bs : Bytes} (h : ofField bs = .error e) : e.isOfLog = true := by
  unfold ofField at h
  split at h <;> cases h
  rfl

theorem isOfLog_of_ofOptional {bs : Option Bytes} (h : ofOptional bs = .error e) :
    e.isOfLog = true := by
  cases bs with
  | none => cases h
  | some bs =>
    cases hfield : ofField bs with
    | error e' =>
      rw [ofOptional, hfield] at h
      cases h
      exact isOfLog_of_ofField hfield
    | ok =>
      rw [ofOptional, hfield] at h
      cases h

theorem isOfLog_of_ofEntry {entry : Entry} (h : ofEntry entry = .error e) :
    e.isOfLog = true := by
  -- Two fields one after the other, the second of which may be missing.
  have hfields {front : Except Error Bytes} {key : Bytes} {join : Bytes → Bytes → Bytes}
      (hfront : ∀ e, front = .error e → e.isOfLog = true)
      (h : (do
        let k ← ofField key
        let v ← front
        return join k v) = .error e) : e.isOfLog = true := by
    cases hkey : ofField key with
    | error e' =>
      rw [hkey] at h
      cases h
      exact isOfLog_of_ofField hkey
    | ok k =>
      rw [hkey] at h
      cases hfront' : front with
      | error e' =>
        rw [hfront'] at h
        cases h
        exact hfront e hfront'
      | ok v =>
        rw [hfront'] at h
        cases h
  cases entry with
  | put | txnPut => exact hfields (fun e => isOfLog_of_ofField) h
  | delete | txnDelete => exact hfields (fun e => isOfLog_of_ofOptional) h
  | commit | abort => cases h

end Payload

theorem Frame.isOfLog_of_ofRecord {r : Record} (h : ofRecord r = .error e) : e.isOfLog = true := by
  unfold ofRecord at h
  cases hpayload : Payload.ofEntry r.entry with
  | error e' =>
    rw [hpayload] at h
    cases h
    exact Payload.isOfLog_of_ofEntry hpayload
  | ok payload =>
    rw [hpayload] at h
    dsimp only [bind, Except.bind] at h
    split at h <;> cases h
    rfl

namespace Log

variable {log log' : Log}

theorem isOfLog_of_append {entry : Entry} (h : log.append entry = (log', .error e)) :
    e.isOfLog = true := by
  unfold append at h
  split at h
  · cases h
    rfl
  split at h
  · next hframe =>
    cases h
    exact Frame.isOfLog_of_ofRecord hframe
  dsimp only at h
  split at h
  · cases h
  · split at h <;> cases h <;> rfl

theorem isOfLog_of_sync {α : Type} {f : Unit → α} (h : log.sync.2.map f = .error e) :
    e.isOfLog = true := by
  unfold sync at h
  generalize log.store.sync = synced at h
  obtain ⟨store, _ | _⟩ := synced <;> cases h
  rfl

end Log

/-! ## Reading -/

theorem Scan.isCorruption_of_go {offset : Nat} {last : Lsn} {bs : Bytes}
    (h : (go offset last bs).ending = .damaged e) : e.isCorruption = true := by
  induction offset, last, bs using go.induct with
  | case1 offset last bs hread =>
    rw [go_of_finished hread] at h
    cases h
  | case2 offset last bs hread =>
    rw [go_of_torn hread] at h
    cases h
  | case3 offset last bs e' hread =>
    rw [go_of_damaged hread] at h
    cases h
    exact Frame.isCorruption_of_read hread
  | case4 offset last bs r size hread ih =>
    rw [go_of_record hread] at h
    exact ih h

theorem Log.isOfLog_of_openOn {store left : Store} (h : openOn store = .error (e, left)) :
    e.isOfLog = true := by
  unfold openOn at h
  dsimp only at h
  split at h
  · next hending =>
    cases h
    exact Error.isOfLog_of_isCorruption (Scan.isCorruption_of_go hending)
  · cases h
  · split at h <;> cases h
    rfl

theorem Replay.State.isOfLog_of_apply {s : State} {r : Record} (h : s.apply r = .error e) :
    e.isOfLog = true := by
  unfold apply at h
  split at h <;> cases h
  rfl

end WalStore
