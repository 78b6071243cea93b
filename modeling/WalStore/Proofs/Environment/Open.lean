import WalStore.Environment
import WalStore.Proofs.Log.Read
import WalStore.Proofs.Replay.Unresolved

/-!
# Opening an environment

Opening logs an abort for each transaction that the log leaves unresolved, in ascending order, and
nothing else. An environment that opens has the state that replaying its log gives, and no
transaction is left unresolved there (`openOn_recovered`). A store without damage can be opened if
none of its calls fails (`exists_openOn_of_all`).
-/

namespace WalStore

open Record (Follow endLsn aborts)

/-- A log that is replayed ends where its state stands. -/
theorem Log.Holds.lastLsn {log : Log} {rs : List Record} (h : log.Holds rs) {state : Replay.State}
    (hstate : Replay.state rs = .ok state) : state.lastLsn = endLsn .zero rs := by
  obtain ⟨state', hstate', hlast, -⟩ := Replay.exists_state_of_follow h.follow
  rw [hstate] at hstate'
  cases hstate'
  exact hlast

namespace Environment

/-! ## The aborts that opening logs -/

section Aborts

variable {log log' : Log} {s s' : Replay.State} {rs : List Record} {txns : List TxnId} {e : Error}
  {left : Store}

/-- One abort and then the others. -/
theorem append_aborts_cons (h : log.Holds rs) (txn : TxnId) (txns : List TxnId) :
    rs ++ aborts (endLsn .zero rs).next (txn :: txns) = rs ++ [⟨log.nextLsn, .abort txn⟩] ++
      aborts (endLsn .zero (rs ++ [⟨log.nextLsn, .abort txn⟩])).next txns := by
  rw [Record.endLsn_append, h.next, List.append_assoc]
  rfl

theorem abortEach_ok (h : log.Holds rs) (hstate : Replay.state rs = .ok s)
    (hrun : abortEach log s txns = .ok (log', s')) :
    log'.Holds (rs ++ aborts (endLsn .zero rs).next txns) ∧
      Replay.state (rs ++ aborts (endLsn .zero rs).next txns) = .ok s' ∧
      log'.poisoned = log.poisoned := by
  induction txns generalizing log s rs with
  | nil =>
    cases hrun
    rw [aborts, List.append_nil]
    exact ⟨h, hstate, rfl⟩
  | cons txn txns ih =>
    unfold abortEach at hrun
    split at hrun
    · cases hrun
    next log₁ lsn happend =>
    split at hrun
    · cases hrun
    next s₁ happly =>
    obtain ⟨hlt, -⟩ := Replay.State.views_apply happly
    rw [h.lastLsn hstate] at hlt
    obtain ⟨rfl, hholds⟩ := h.append_ok happend
    have hstate₁ : Replay.state (rs ++ [⟨log.nextLsn, .abort txn⟩]) = .ok s₁ := by
      rw [Replay.state_append_singleton, hstate]
      exact happly
    obtain ⟨hholds', hstate', hpoisoned⟩ := ih (hholds hlt) hstate₁ hrun
    rw [append_aborts_cons h]
    exact ⟨hholds', hstate', hpoisoned.trans (Log.poisoned_of_append_ok happend)⟩

/-- As long as positions last, only the store can keep an abort from being logged and applied. -/
theorem exists_apply_abort (h : log.Holds rs) (hstate : Replay.state rs = .ok s) (txn : TxnId)
    (hroom : (endLsn .zero rs).toNat + 1 < UInt64.size) :
    endLsn .zero rs < log.nextLsn ∧ ∃ s₁, s.apply ⟨log.nextLsn, .abort txn⟩ = .ok s₁ ∧
      Replay.state (rs ++ [⟨log.nextLsn, .abort txn⟩]) = .ok s₁ ∧
      (endLsn .zero (rs ++ [⟨log.nextLsn, .abort txn⟩])).toNat = (endLsn .zero rs).toNat + 1 := by
  have hnext : endLsn .zero rs < log.nextLsn := by
    rw [h.next]
    exact Lsn.lt_next hroom
  obtain ⟨s₁, happly⟩ := Replay.State.exists_apply (s := s) (r := ⟨log.nextLsn, .abort txn⟩)
    (by rw [h.lastLsn hstate]; exact hnext)
  refine ⟨hnext, s₁, happly, ?_, ?_⟩
  · rw [Replay.state_append_singleton, hstate]
    exact happly
  · rw [Record.endLsn_append, endLsn, endLsn, h.next, Lsn.toNat_next hroom]

theorem exists_abortEach (h : log.Holds rs) (hstate : Replay.state rs = .ok s)
    (hplan : log.store.plan = .none) (hpoisoned : log.poisoned = false)
    (hroom : (endLsn .zero rs).toNat + txns.length < UInt64.size) :
    ∃ log' s', abortEach log s txns = .ok (log', s') ∧ log'.store.plan = .none := by
  induction txns generalizing log s rs with
  | nil => exact ⟨log, s, rfl, hplan⟩
  | cons txn txns ih =>
    rw [List.length_cons] at hroom
    obtain ⟨log₁, happend, hplan₁, hpoisoned₁⟩ := Log.append_abort hplan hpoisoned txn
    obtain ⟨hnext, s₁, happly, hstate₁, hend⟩ := exists_apply_abort h hstate txn (by omega)
    have hholds := (h.append_ok happend).2 hnext
    unfold abortEach
    rw [happend]
    dsimp only
    rw [happly]
    exact ih hholds hstate₁ hplan₁ hpoisoned₁ (by omega)

/-- If the store fails, some of the aborts have been logged. -/
theorem abortEach_error (h : log.Holds rs) (hstate : Replay.state rs = .ok s)
    (hroom : (endLsn .zero rs).toNat + txns.length < UInt64.size)
    (hrun : abortEach log s txns = .error (e, left)) :
    ∃ (logged later : List TxnId) (log' : Log), txns = logged ++ later ∧
      log'.Holds (rs ++ aborts (endLsn .zero rs).next logged) ∧ left = log'.store := by
  induction txns generalizing log s rs with
  | nil => cases hrun
  | cons txn txns ih =>
    rw [List.length_cons] at hroom
    unfold abortEach at hrun
    rcases happend : log.append (.abort txn) with ⟨log₁, e₁ | lsn⟩
    · rw [happend] at hrun
      cases hrun
      refine ⟨[], _, log₁, rfl, ?_, rfl⟩
      rw [aborts, List.append_nil]
      exact h.append_error happend
    · obtain ⟨rfl, hholds⟩ := h.append_ok happend
      obtain ⟨hnext, s₁, happly, hstate₁, hend⟩ := exists_apply_abort h hstate txn (by omega)
      rw [happend] at hrun
      dsimp only at hrun
      rw [happly] at hrun
      obtain ⟨logged, later, log', rfl, hholds', hleft⟩ := ih (hholds hnext) hstate₁ (by omega) hrun
      refine ⟨txn :: logged, later, log', rfl, ?_, hleft⟩
      rw [append_aborts_cons h]
      exact hholds'

theorem syncAborts_ok (h : syncAborts log txns = .ok log') (hholds : log.Holds rs) :
    log'.Holds rs ∧ log'.poisoned = log.poisoned := by
  unfold syncAborts at h
  split at h
  · cases h
    exact ⟨hholds, rfl⟩
  · split at h
    · next log₁ hsync =>
      cases h
      rw [show log' = log.sync.1 by rw [hsync]]
      exact ⟨hholds.synced (.inr rfl), rfl⟩
    · cases h

theorem syncAborts_error (h : syncAborts log txns = .error (e, left)) :
    left.toList = log.store.toList := by
  unfold syncAborts at h
  split at h
  · cases h
  · split at h
    · cases h
    · next log₁ e₁ hsync =>
      cases h
      rw [show log₁ = log.sync.1 by rw [hsync]]
      exact log.store.toList_sync

theorem exists_syncAborts (txns : List TxnId) (hplan : log.store.plan = .none) :
    ∃ log', syncAborts log txns = .ok log' := by
  unfold syncAborts
  split
  · exact ⟨log, rfl⟩
  · rw [Log.sync, Store.sync_of_no_plan hplan]
    exact ⟨_, rfl⟩

end Aborts

/-! ## Opening -/

/-- An environment as it is when it has just been opened and its log holds the records `rs`. -/
structure Opened (config : Config) (env : Environment) (rs : List Record) : Prop where
  holds : env.log.Holds rs
  state : Replay.state rs = .ok env.state
  pending : ∀ t, env.state.pending.get? t = none
  locks : env.locks = .ofState (LockState.fresh config.deadlockDetection)
  txns : env.txns = ∅
  calls : env.calls = ∅

/-- An environment as it is when it has just been opened over the records `rs`, which replay to
`s`. -/
structure Recovered (config : Config) (env : Environment) (rs : List Record)
    (s : Replay.State) : Prop extends
    env.Opened config (rs ++ aborts (endLsn .zero rs).next s.unresolved) where
  sound : env.log.poisoned = false
  nextTxn : env.nextTxn = Recovery.nextTxn ⟨s⟩
  aborted : env.counters.recoveredAborts = s.unresolved.length

variable {config : Config} {store left : Store} {now : Instant} {env : Environment}
  {rs : List Record} {s : Replay.State} {e : Error}

/-- What recovers from a log that holds records. -/
theorem recover_of_state {log : Log} (h : log.Holds rs) (hstate : Replay.state rs = .ok s) :
    log.recover none = .ok ⟨s⟩ := by
  rw [h.recover, Record.upTo_none, hstate]
  rfl

/-- The aborts that are logged resolve what is unresolved, and change nothing else. -/
theorem Recovered.reduces (h : env.Recovered config rs s) (hstate : Replay.state rs = .ok s) :
    s.Reduces env.state [] :=
  Replay.reduces_of_state_aborts h.holds.follow hstate h.state

theorem eq_ok_of_mapError {ε ε' α : Type} {x : Except ε α} {f : ε → ε'} {a : α}
    (h : x.mapError f = .ok a) : x = .ok a := by
  cases x with
  | error => cases h
  | ok => cases h; rfl

/-- An environment opens if every part of that goes well. -/
theorem openOn_eq_ok_iff : openOn config store now = .ok env ↔
    config.validate = .ok () ∧ ∃ log recovery log₁ state log₂, Log.openOn store = .ok log ∧
      log.recover none = .ok recovery ∧
      abortEach log recovery.state recovery.unresolved = .ok (log₁, state) ∧
      syncAborts log₁ recovery.unresolved = .ok log₂ ∧
      env = {
        config, log := log₂, state
        isOpen := true
        nextTxn := recovery.nextTxn
        locks := .ofState (LockState.fresh config.deadlockDetection)
        tracker := .fresh config.tracker
        counters := { Counters.zero with
          replayed := recovery.counters.records
          unknownResolutions := recovery.counters.unknownResolutions
          recoveredAborts := recovery.unresolved.length }
        txns := ∅
        calls := ∅
        now } := by
  constructor
  · intro h
    obtain ⟨_, hvalid, h⟩ := Except.exists_of_bind_eq_ok h
    obtain ⟨log, hlog, h⟩ := Except.exists_of_bind_eq_ok h
    obtain ⟨recovery, hrecover, h⟩ := Except.exists_of_bind_eq_ok h
    obtain ⟨⟨log₁, state⟩, habort, h⟩ := Except.exists_of_bind_eq_ok h
    obtain ⟨log₂, hsync, h⟩ := Except.exists_of_bind_eq_ok h
    cases h
    exact ⟨eq_ok_of_mapError hvalid, log, recovery, log₁, state, log₂, hlog,
      eq_ok_of_mapError hrecover, habort, hsync, rfl⟩
  · rintro ⟨hvalid, log, recovery, log₁, state, log₂, hlog, hrecover, habort, hsync, rfl⟩
    unfold openOn
    simp only [hvalid, hlog, hrecover, habort, hsync, Except.mapError, bind, Except.bind, pure,
      Except.pure]

theorem openOn_recovered (h : openOn config store now = .ok env) :
    ∃ rs s, (Scan.ofBytes store.toList).all = .ok rs ∧ Replay.state rs = .ok s ∧
      env.Recovered config rs s := by
  obtain ⟨-, log, recovery, log₁, s₁, log₂, hlog, hrecover, habort, hsync, rfl⟩ :=
    openOn_eq_ok_iff.1 h
  obtain ⟨rs, hall, hholds, hsound⟩ := Log.all_of_openOn hlog
  obtain ⟨s, hstate, -⟩ := Replay.exists_state_of_follow hholds.follow
  rw [recover_of_state hholds hstate] at hrecover
  cases hrecover
  obtain ⟨hholds₁, hstate₁, hsound₁⟩ := abortEach_ok hholds hstate habort
  obtain ⟨hholds₂, hsound₂⟩ := syncAborts_ok hsync hholds₁
  have hreduces := Replay.reduces_of_state_aborts hholds₁.follow hstate hstate₁
  refine ⟨rs, s, hall, hstate, ⟨hholds₂, hstate₁, fun t => ?_, rfl, rfl, rfl⟩,
    hsound₂.trans (hsound₁.trans hsound), rfl, rfl⟩
  -- Whoever has work is unresolved.
  show s₁.pending.get? t = none
  rw [← Option.not_isSome_iff_eq_none, ← SortedMap.mem_keys_iff]
  show t ∉ s₁.unresolved
  rw [hreduces.unresolved]
  exact List.not_mem_nil

theorem openOn_ok (h : openOn config store now = .ok env) : ∃ rs, env.Opened config rs := by
  obtain ⟨rs, s, -, -, hrecovered⟩ := openOn_recovered h
  exact ⟨_, hrecovered.toOpened⟩

theorem recovered_of_all (hall : (Scan.ofBytes store.toList).all = .ok rs)
    (hstate : Replay.state rs = .ok s) (h : openOn config store now = .ok env) :
    env.Recovered config rs s := by
  obtain ⟨rs', s', hall', hstate', hrecovered⟩ := openOn_recovered h
  rw [hall] at hall'
  cases hall'
  rw [hstate] at hstate'
  cases hstate'
  exact hrecovered

/-- A store without damage can be opened, unless its calls fail. -/
theorem exists_openOn_of_all (now : Instant) (hconfig : config.validate = .ok ())
    (hplan : store.plan = .none) (hall : (Scan.ofBytes store.toList).all = .ok rs)
    (hstate : Replay.state rs = .ok s)
    (hroom : (endLsn .zero rs).toNat + s.unresolved.length < UInt64.size) :
    ∃ env, openOn config store now = .ok env ∧ env.Recovered config rs s := by
  obtain ⟨log, hlog, hholds, hpoisoned, hplan'⟩ :=
    Log.exists_openOn_of_all (by rw [hplan]; rfl) hall
  obtain ⟨log₁, s₁, habort, hplan₁⟩ :=
    exists_abortEach hholds hstate (hplan'.trans hplan) hpoisoned hroom
  obtain ⟨log₂, hsync⟩ := exists_syncAborts s.unresolved hplan₁
  have hopen : ∃ env, openOn config store now = .ok env := by
    unfold openOn
    simp only [hconfig, hlog, recover_of_state hholds hstate, Except.mapError, bind, Except.bind,
      Recovery.unresolved, habort, hsync, pure, Except.pure]
    exact ⟨_, rfl⟩
  obtain ⟨env, henv⟩ := hopen
  exact ⟨env, henv, recovered_of_all hall hstate henv⟩

theorem exists_openOn {config : Config} {store : Store} (now : Instant) {rs : List Record}
    {frames torn : Bytes} (hconfig : config.validate = .ok ()) (hplan : store.plan = .none)
    (hframes : Frame.ofRecords rs = .ok frames) (hfollow : Follow .zero rs)
    (htorn : Frame.Partial torn) (hbytes : store.toList = frames ++ torn)
    (hroom : (endLsn .zero rs).toNat + rs.length < UInt64.size) :
    ∃ env, openOn config store now = .ok env ∧ Replay.live rs = .ok env.live := by
  obtain ⟨s, hstate, -, hsize⟩ := Replay.exists_state_of_follow hfollow
  have hlength : s.unresolved.length = s.pending.size := List.length_map ..
  obtain ⟨env, henv, hrecovered⟩ := exists_openOn_of_all now hconfig hplan
    (Scan.all_of_frames hframes hfollow htorn hbytes) hstate (by omega)
  refine ⟨env, henv, ?_⟩
  rw [Replay.live, hstate, live, (hrecovered.reduces hstate).live]
  rfl

/-- The environment that opens over an empty store. -/
def blank : Environment where
  config := .standard
  log := ⟨.empty, .ofNat 1, false⟩
  state := .empty
  isOpen := true
  nextTxn := .ofNat 1
  locks := .ofState (LockState.fresh true)
  tracker := .fresh .standard
  counters := .zero
  txns := ∅
  calls := ∅
  now := 0

theorem openOn_empty : openOn .standard .empty 0 = .ok blank := by
  have hscan : Scan.ofBytes Store.empty.toList = ⟨[], .clean, 0, .zero⟩ := by
    rw [Store.empty, Store.toList_ofBytes]
    exact Scan.go_of_partial .nil 0 .zero
  have hlog : Log.openOn .empty = .ok blank.log := by
    unfold Log.openOn
    rw [hscan]
    rfl
  have hrecover : blank.log.recover none = .ok ⟨.empty⟩ := by
    unfold Log.recover Log.readUpTo Log.scan
    rw [show blank.log.store = .empty from rfl, hscan]
    rfl
  unfold openOn
  rw [hlog]
  simp only [bind, Except.bind, hrecover]
  rfl

end Environment
end WalStore
