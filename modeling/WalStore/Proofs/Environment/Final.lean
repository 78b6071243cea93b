import WalStore.Proofs.Environment.Barred

/-!
# A mark is final

**Theorem (`mustAbort_final`).** A transaction leaves its active state once, and then never changes,
whatever is asked of it is refused and leaves no trace. A mark comes from a transaction timeout,
from a deadlock, or from a call that finds the time of the transaction over. Then the transaction
can do nothing but abort: the mark stays, its calls fail, nothing but an abort is logged of it, and
what it has written is never live, whichever environments open over the store after this one and
however they end.

The records in the store are signed from the opening on, so that the writes of the transaction can
be told from those of another with the same id, which there can be once they are cut off.
-/

namespace WalStore

open Record (Reaches endLsn)

/-- A store that is found somewhere, with whatever is in it. -/
def Archive.found (store : Store) : Archive := ⟨store, [], 0⟩

namespace Environment

/-- Positions and ids last for so many events, with two positions for each of them, as what is
written may have to be aborted. -/
def Lasts (env : Environment) (events : Nat) : Prop :=
  env.state.lastLsn.toNat + 2 * events < UInt64.size ∧
    env.state.maxTxn.elim 0 (·.toNat) + events + 1 < UInt64.size

instance (env : Environment) (events : Nat) : Decidable (env.Lasts events) :=
  inferInstanceAs (Decidable (_ ∧ _))

theorem Lasts.mono {env : Environment} {events events' : Nat} (h : env.Lasts events)
    (hle : events' ≤ events) : env.Lasts events' := by
  obtain ⟨hlsn, hid⟩ := h
  exact ⟨by omega, by omega⟩

theorem steady_found {config : Config} {store : Store} {now : Instant} {env : Environment}
    (hopen : openOn config store now = .ok env) (hroom : env.Lasts 0) :
    ((Archive.found store).visit env).Steady env.state.lastLsn.toNat
      (env.state.maxTxn.elim 0 (·.toNat)) := by
  obtain ⟨rs, s, -, hstate, hrecovered⟩ := openOn_recovered hopen
  have hopened := hrecovered.toOpened
  have hnext := hrecovered.nextTxn_eq hstate
  have hunresolved := (hrecovered.reduces hstate).unresolved
  generalize rs ++ Record.aborts (endLsn .zero rs).next s.unresolved = rs₀ at hopened
  have hsigned : ((Archive.found store).visit env).signed = rs₀.map fun r => ⟨r, none⟩ := by
    refine Eq.trans (Signed.revise_of_append ?_) (List.nil_append _)
    exact hopened.holds.records_scan
  rw [← Signed.records_sign rs₀ fun _ => none, ← hsigned] at hopened
  refine hopened.steady hnext ⟨env.state, hopened.state, ?_⟩ (fun p hp txn htxn => ?_) hroom.2
  · rw [hunresolved, hopened.holds.lastLsn hopened.state]
    exact Nat.le_refl _
  · obtain ⟨m, hm, hle⟩ := (Replay.maxTxn_of_state hopened.state).1 p.record
      (List.mem_map_of_mem hp) txn htxn
    rw [hm]
    exact hle

theorem steady_run {config : Config} {store : Store} {now : Instant} {env : Environment}
    (hopen : openOn config store now = .ok env) {before : List Event} {v : Visit}
    (hv : ((Archive.found store).visit env).run before = v) (horderly : env.Orderly before)
    (hroom : env.Lasts before.length) :
    v.Steady env.state.lastLsn.toNat (env.state.maxTxn.elim 0 (·.toNat)) ∧
      v.clock = before.length ∧ v.env = env.run before := by
  have hclock₀ : ((Archive.found store).visit env).clock = 0 := rfl
  have hsteady := (steady_found hopen (hroom.mono (Nat.zero_le _))).run horderly
    (by rw [hclock₀, Nat.zero_add]; exact hroom.1) (by rw [hclock₀]; exact hroom.2)
  have hclock := Visit.clock_run ((Archive.found store).visit env) before
  have henv := Visit.env_run ((Archive.found store).visit env) before
  rw [hv] at hsteady hclock henv
  exact ⟨hsteady, hclock.trans (by rw [hclock₀, Nat.zero_add]), henv⟩

/-- Writes that are barred are never live, whoever opens the store later. -/
theorem ignores_later {env : Environment} {v : Visit} {txn : TxnId} {n : Nat}
    (hsteady : v.Steady env.state.lastLsn.toNat (env.state.maxTxn.elim 0 (·.toNat)))
    (hbars : v.Bars txn n) {episodes : List Episode} (horderly : v.leave.Orderly episodes)
    {config : Config} {plan : FaultPlan} {now : Instant} {env' : Environment}
    (hopen : openOn config ((v.leave.run episodes).store.under plan) now = .ok env')
    {events : List Event} (hevents : env'.Orderly events)
    (hroom : env.Lasts (v.clock + (episodes.flatMap (·.events)).length + events.length)) :
    (((v.leave.run episodes).visit env').run events).Ignores txn n := by
  obtain ⟨hlsn, hid⟩ := hroom
  have hclock : v.leave.clock = v.clock := rfl
  obtain ⟨hbars', hclock'⟩ :=
    (Archive.bars_leave hsteady hbars).run horderly (by omega) (by omega)
  obtain ⟨hsteady₁, hbars₁⟩ := (hbars'.opened (by omega) (by omega) config plan now).2 env' hopen
  have hclock₁ : ((v.leave.run episodes).visit env').clock = (v.leave.run episodes).clock := rfl
  exact (hsteady₁.run hevents (by omega) (by omega)).ignores
    (hbars₁.run hsteady₁ hevents (by omega) (by omega))

/-- **A mark is final.** -/
theorem mustAbort_final {config : Config} {store : Store} {now : Instant} {env : Environment}
    (hopen : openOn config store now = .ok env) {before later : List Event} {v : Visit}
    (hv : ((Archive.found store).visit env).run before = v)
    (horderly : env.Orderly (before ++ later)) (hroom : env.Lasts (before ++ later).length) :
    (∀ txn, (v.env.txns.get? txn).isSome = true → (v.env.txn txn).isActive = false →
      (v.env.run later).txns.get? txn = v.env.txns.get? txn ∧ v.env.drop txn = v.env ∧
      ∀ id call, v.env.calls.get? id = some call → call.stage.isEarly = true →
        call.op.txn? = some txn → ∃ tracker e,
          v.env.step id = ({ v.env with tracker, calls := v.env.calls.erase id },
            some (.error e))) ∧
    (∀ txn, (v.env.txn txn).mustAbort = none → ∀ e reason,
      ((v.env.after e).txn txn).mustAbort = some reason ↔ e.Marks v.env txn reason) ∧
    (∀ id e, (v.env.step id).2 = some (.error e) → e.isFatal = false → ∀ txn,
      ((v.env.step id).1.txn txn).mustAbort = (v.env.txn txn).mustAbort) ∧
    ∀ e rest, later = e :: rest → ∀ txn reason,
      ((v.env.after e).txn txn).mustAbort = some reason →
      ((v.env.run later).txn txn).mustAbort = some reason ∧
      (∀ id call, (v.env.run later).calls.get? id = some call → call.op.txn? = some txn →
        call.op ≠ .abort txn → ∃ error n, n ≤ (if call.op = .commit txn then 3 else 1) ∧
          Answers id (.error error) (v.env.run later) (.replicate n (.step id))) ∧
      (∃ rs new, v.env.log.Holds rs ∧ (v.env.run later).log.Holds (rs ++ new) ∧
        (Record.ofTxn txn new = [] ∨ ∃ lsn, Record.ofTxn txn new = [⟨lsn, .abort txn⟩])) ∧
      ∃ n, (v.run later).began.get? txn = some n ∧
        (∀ p ∈ (v.run later).signed, p.record.entry.work? = some txn → p.began = some n) ∧
        (v.run later).Ignores txn n ∧
        ∀ episodes, (v.run later).leave.Orderly episodes → ∀ config' plan now' env',
          openOn config' (((v.run later).leave.run episodes).store.under plan) now' = .ok env' →
          ∀ events, env'.Orderly events →
          env.Lasts ((before ++ later).length + (episodes.flatMap (·.events)).length +
            events.length) →
          ((((v.run later).leave.run episodes).visit env').run events).Ignores txn n := by
  obtain ⟨hbefore, hlater⟩ := orderly_append.1 horderly
  rw [List.length_append] at hroom
  obtain ⟨hsteady, hclock, henv⟩ :=
    steady_run hopen hv hbefore (hroom.mono (Nat.le_add_right ..))
  rw [← henv] at hlater
  have hfirm := hsteady.firm
  have hnext := hsteady.next
  have hend := hsteady.reaches.endLsn_le
  have hself : TxnId.since ⟨0⟩ v.env.nextTxn = v.env.nextTxn.toNat := TxnId.since_zero _
  obtain ⟨hlsn, hid⟩ := id hroom
  refine ⟨fun txn hsome hover =>
      ⟨?_, v.env.drop_of_over hover, fun id call hcall hstage htxn => ?_⟩,
    fun txn hnone e reason => hfirm.marks_iff e hnone,
    fun id e hresult he txn => hfirm.mustAbort_of_spared hresult he txn,
    fun e rest heq txn reason hmark => ?_⟩
  · exact hfirm.get?_txns_run hlater (by omega) hsome hover
  · exact step_of_over hcall hstage htxn hover
  · subst heq
    rw [List.length_cons] at hlsn hid hroom
    have hmark' : ((v.env.run (e :: rest)).txn txn).mustAbort = some reason :=
      (hfirm.after hlater.1 (by omega)).mustAbort_run hlater.2 (by
        have := (since_nextTxn_after hfirm.acc.covered.numbered (by omega) e).2
        omega) hmark
    have hrun := hsteady.run hlater (by rw [List.length_cons]; omega)
      (by rw [List.length_cons]; omega)
    have henv' : (v.run (e :: rest)).env = v.env.run (e :: rest) := Visit.env_run ..
    have hclock' : (v.run (e :: rest)).clock = v.clock + (e :: rest).length := Visit.clock_run ..
    have hsome := isSome_of_mustAbort hmark'
    rw [← henv'] at hmark' hsome ⊢
    obtain ⟨n, hbegan, hown⟩ := hrun.began txn hsome
    have hbars := hrun.bars hmark' hbegan hsome
    refine ⟨hmark', fun id call hcall htxn hop => hrun.firm.fails hcall htxn hop hmark', ?_,
      n, hbegan, fun p hp => hown p hp, hrun.ignores hbars,
      fun episodes hepisodes config' plan now' env' hopen' events hevents hroom' => ?_⟩
    · obtain ⟨new, hholds, hnew⟩ := hfirm.exists_records_run hsteady.tracks hlater
        (by rw [List.length_cons]; omega) (by rw [List.length_cons]; omega) hmark
      exact ⟨_, new, hsteady.tracks.holds, henv' ▸ hholds, hnew⟩
    · refine ignores_later hrun hbars hepisodes hopen' hevents ?_
      rw [hclock', hclock, ← List.length_append]
      exact hroom'

/-- A transaction has put a record, and its time is over when it reads. -/
def expiring : List Event :=
  [.begin ⟨.serializable, none, some 10⟩, .start 0 (.put ⟨1⟩ [1] [2]), .step 0, .step 0, .step 0,
    .tick 10, .start 1 (.get ⟨1⟩ [1])]

/-- It finds that out, and is to be committed. -/
def expired : List Event := [.step 1, .start 2 (.commit ⟨1⟩)]

/-- The store is cut down to nothing then, and the id is given out anew. -/
theorem mustAbort_final_expired : blank.Orderly (expiring ++ expired) ∧
    blank.Lasts (expiring ++ expired).length ∧
    ∃ v, ((Archive.found .empty).visit blank).run expiring = v ∧
      ((v.env.run expired).txn ⟨1⟩).mustAbort = some (Error.txnTimeout ⟨1⟩ 10).message ∧
      (∃ error n, n ≤ 3 ∧
        Answers 2 (.error error) (v.env.run expired) (.replicate n (.step 2))) ∧
      ∃ n env', openOn .standard (((v.run expired).leave.run [.cut 10]).store.under .none) 11 =
          .ok env' ∧ env'.nextTxn = ⟨1⟩ ∧
        ((((v.run expired).leave.run [.cut 10]).visit env').run
          [.begin .standard]).Ignores ⟨1⟩ n := by
  have horderly : blank.Orderly (expiring ++ expired) := by decide +kernel
  have hroom : blank.Lasts (expiring ++ expired).length := by decide +kernel
  obtain ⟨v, hv⟩ : ∃ v, ((Archive.found .empty).visit blank).run expiring = v := ⟨_, rfl⟩
  have henv : v.env = blank.run expiring := by
    rw [← hv, Visit.env_run]
    rfl
  obtain ⟨-, -, -, hfinal⟩ := mustAbort_final openOn_empty hv horderly hroom
  have hmark : ((v.env.after (.step 1)).txn ⟨1⟩).mustAbort =
      some (Error.txnTimeout ⟨1⟩ 10).message := by
    rw [henv]
    decide +kernel
  obtain ⟨hmark', hfails, -, n, -, -, -, hignores⟩ := hfinal _ _ rfl ⟨1⟩ _ hmark
  have hcommits : ∃ timer,
      (v.env.run expired).calls.get? 2 = some ⟨.commit ⟨1⟩, timer, .entered⟩ := by
    rw [henv]
    exact ⟨_, (SortedMap.get?_insert ..).trans (if_pos rfl)⟩
  obtain ⟨timer, hcall⟩ := hcommits
  obtain ⟨frame, hframe, hshort, htake⟩ : ∃ frame,
      Frame.ofRecord ⟨⟨1⟩, .txnPut ⟨1⟩ [1] [2]⟩ = .ok frame ∧ 10 < frame.length ∧
        (blank.run (expiring ++ expired)).log.store.toList.take 10 = frame.take 10 :=
    ⟨_, rfl, by decide +kernel, by decide +kernel⟩
  have hall : (Scan.ofBytes (((v.run expired).leave.run [.cut 10]).store.under .none).toList).all =
      .ok [] := by
    have henv' : (v.run expired).env = blank.run (expiring ++ expired) := by
      rw [Visit.env_run, henv, ← run_append]
    have hnothing : Frame.ofRecords [] = .ok [] := rfl
    refine Scan.all_of_frames hnothing trivial (.inr ⟨_, frame, 10, hframe, hshort, rfl⟩) ?_
    show ((v.run expired).env.log.store.cut 10).toList = frame.take 10
    rw [henv', Store.toList_cut, htake]
  have hconfig : Config.standard.validate = .ok () := rfl
  obtain ⟨env', hopen, hrecovered⟩ := exists_openOn_of_all 11 hconfig rfl hall rfl (by decide)
  refine ⟨horderly, hroom, v, hv, hmark', hfails 2 _ hcall rfl nofun, n, env', hopen,
    hrecovered.nextTxn, ?_⟩
  exact hignores [.cut 10] ⟨trivial, trivial⟩ .standard .none 11 env' hopen [.begin .standard]
    ⟨trivial, trivial⟩ (by decide +kernel)

end Environment
end WalStore
