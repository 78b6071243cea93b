import Mathlib.Algebra.Group.Nat.Defs
import WalStore.Proofs.Environment.Run

/-!
# Crash and restart

An environment may stop at any moment, and of its store any number of bytes from the front may be
left. A new environment opens over what is left, and starts from the records whose frames lie
wholly in it (`exists_openOn_crash`).
-/

namespace WalStore.Environment

open Record (endLsn)

/-- **Crash and restart.** Whatever an environment has done, whichever calls of its store have
failed, and wherever its bytes are cut: a new environment opens over what is left and has the live
set of the records that lie wholly in front of the cut. Unless the cut lies in what was there at
the start, that is the live set there was right after the last of these records was logged. -/
theorem exists_openOn_crash {config : Config} {store : Store} {now : Instant} {env : Environment}
    (hopen : openOn config store now = .ok env) {events : List Event}
    (hlsn : env.state.lastLsn.toNat + events.length < 2 ^ 63) (k : Nat) {config' : Config}
    (hconfig : config'.validate = .ok ()) {store' : Store} (hplan : store'.plan = .none)
    (hbytes : store'.toList = (env.run events).log.store.toList.take k) (now' : Instant) :
    ∃ rs env', (env.run events).log.Holds rs ∧ openOn config' store' now' = .ok env' ∧
      Replay.live (Frame.wholeIn k rs) = .ok env'.live ∧
      (env.log.size ≤ k → ∃ n ≤ events.length,
        (env.run (events.take n)).log.Holds (Frame.wholeIn k rs) ∧
        (n = 0 ∨ ∃ earlier r, Frame.wholeIn k rs = earlier ++ [r] ∧
          (env.run (events.take (n - 1))).log.Holds earlier) ∧
        (env.run (events.take n)).live = env'.live) ∧
      ((env.run events).log.size ≤ k → env'.live = (env.run events).live) := by
  obtain ⟨rs₀, hopened⟩ := openOn_ok hopen
  have htracks₀ := hopened.tracks
  rw [htracks₀.lastLsn] at hlsn
  have hsize : UInt64.size = 2 ^ 64 := rfl
  have htxn : env.nextTxn.since env.nextTxn + events.length < UInt64.size := by
    rw [TxnId.since_self]
    omega
  obtain ⟨rs, htracks, hgrows, hend, hmoment⟩ := htracks₀.run events (by omega) htxn
  obtain ⟨kept, torn, hkept, hfollow, htorn, htake⟩ := htracks.holds.take k
  have hroom : (endLsn .zero (Frame.wholeIn k rs)).toNat + (Frame.wholeIn k rs).length <
      UInt64.size := by
    -- The records are no more than the positions they take.
    have hle := Record.endLsn_mono htracks.holds.follow (Frame.prefix_wholeIn k rs)
    have hlength := Record.length_le_endLsn hfollow
    rw [Lsn.toNat_zero] at hlength
    omega
  obtain ⟨env', hopen', hlive⟩ :=
    exists_openOn now' hconfig hplan hkept hfollow htorn (hbytes.trans htake) hroom
  refine ⟨rs, env', htracks.holds, hopen', hlive, fun hk => ?_, fun hk => ?_⟩
  · have hseen : rs₀ <+: Frame.wholeIn k rs := by
      obtain ⟨later, rfl⟩ := hgrows
      obtain ⟨frames, tail, hframes, -, hlist, -⟩ := htracks₀.holds.bytes
      rw [Frame.wholeIn_append hframes]
      · exact List.prefix_append ..
      · rw [Log.size, ← Store.length_toList, hlist, List.length_append] at hk
        omega
    obtain ⟨n, hn, hthen, hlast⟩ := hmoment _ hseen (Frame.prefix_wholeIn k rs)
    refine ⟨n, hn, hthen.holds, hlast.imp_right ?_, ?_⟩
    · rintro ⟨earlier, r, heq, hbefore⟩
      exact ⟨earlier, r, heq, hbefore.holds⟩
    · rw [hthen.live] at hlive
      exact Except.ok.inj hlive
  · rw [htracks.holds.wholeIn_size hk, htracks.live] at hlive
    exact (Except.ok.inj hlive).symm

/-- A transaction commits, and then only a part of a frame is written and cannot be cut off. -/
def breakingOff : List Event :=
  [.begin .standard, .start 0 (.put ⟨1⟩ [1] [2]), .step 0, .step 0, .step 0,
    .start 1 (.commit ⟨1⟩), .step 1, .step 1, .step 1, .plan ⟨some 90, false, true⟩,
    .start 2 (.putNow [3] [4]), .step 2, .step 2, .step 2, .step 2]

theorem exists_openOn_crash_breakingOff :
    openOn .standard .empty 0 = .ok blank ∧
      blank.state.lastLsn.toNat + breakingOff.length < 2 ^ 63 ∧
      Config.standard.validate = .ok () ∧
      (blank.run breakingOff).log.poisoned = true ∧
      ∃ rs env', (blank.run breakingOff).log.Holds rs ∧
        openOn .standard (.ofBytes ((blank.run breakingOff).log.store.toList.take 85)) 0 =
          .ok env' ∧
        Replay.live (Frame.wholeIn 85 rs) = .ok env'.live := by
  have hlsn : blank.state.lastLsn.toNat + breakingOff.length < 2 ^ 63 := by decide
  have hconfig : Config.standard.validate = .ok () := rfl
  refine ⟨openOn_empty, hlsn, hconfig, by decide +kernel, ?_⟩
  obtain ⟨rs, env', hholds, hopen, hlive, -⟩ :=
    exists_openOn_crash openOn_empty hlsn 85 hconfig rfl (Store.toList_ofBytes _) 0
  exact ⟨rs, env', hholds, hopen, hlive⟩

end WalStore.Environment
