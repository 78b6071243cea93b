import Mathlib.Logic.Relation
import WalStore.Proofs.Environment.Open

/-!
# Opening again

**Theorem (`exists_openOn_again`).** An environment that is opened over what an opening has left
finds nothing to do: it changes no byte, aborts nothing, and has the same live set and the same next
id. The same live set and the same next id are found in the end if openings fail before one
succeeds, wherever they fail and however often.

What carries the proof is what an opening that fails can leave (`Underway`): the records that were
there, and aborts of the first few of the transactions that these leave unresolved. The others are
still unresolved then, and the next opening goes on with them (`Replay.state_aborts`).
-/

namespace WalStore

open Record (Follow endLsn aborts)
open Replay (unfinished)

namespace Environment

variable {config : Config} {store left : Store} {now : Instant} {env : Environment}
  {rs : List Record} {s : Replay.State} {e : Error}

/-! ## Over just frames -/

/-- Once the torn tail is cut, opening the log again does nothing, whatever would fail now. -/
theorem openOn_log_again {log : Log} (hlog : Log.openOn store = .ok log) (plan : FaultPlan) :
    Log.openOn { log.store with plan } = .ok { log with store.plan := plan } := by
  obtain ⟨rs, -, hholds, hsound⟩ := Log.all_of_openOn hlog
  have hframes : Frame.ofRecords rs = .ok { log.store with plan }.toList :=
    hholds.bytes_of_sound hsound
  rw [Log.openOn_of_frames hframes hholds.follow, ← hholds.next, ← hsound]

/-- So opening an environment goes on as over a store that never had a torn tail. -/
theorem openOn_of_cut {log : Log} (hconfig : config.validate = .ok ())
    (hlog : Log.openOn store = .ok log) (now : Instant) :
    openOn config store now = openOn config log.store now := by
  have hagain : Log.openOn log.store = .ok log := openOn_log_again hlog log.store.plan
  unfold openOn
  rw [hconfig, hlog, hagain]
  rfl

/-- Where nothing is unresolved, opening leaves the store alone, so that it does not matter which
calls of it would fail. -/
theorem exists_openOn_of_resolved (now : Instant) (hconfig : config.validate = .ok ())
    (hframes : Frame.ofRecords rs = .ok store.toList) (hfollow : Follow .zero rs)
    (hstate : Replay.state rs = .ok s) (hresolved : s.unresolved = []) :
    ∃ env, openOn config store now = .ok env ∧ env.log.store = store ∧
      env.counters.recoveredAborts = 0 ∧ env.live = s.live ∧
      env.nextTxn = Recovery.nextTxn ⟨s⟩ := by
  have hholds := Log.holds_of_frames hframes hfollow
  unfold openOn
  simp only [hconfig, Log.openOn_of_frames hframes hfollow, recover_of_state hholds hstate,
    Recovery.unresolved, hresolved, abortEach, syncAborts, Except.mapError, bind, Except.bind]
  exact ⟨_, rfl, rfl, rfl, rfl, rfl⟩

/-! ## Openings that fail -/

/-- The bytes hold the records `rs`, which replay to `s`, and aborts of some of the transactions
that are unresolved there, in order. -/
def Underway (rs : List Record) (s : Replay.State) (bs : Bytes) : Prop :=
  ∃ logged later, s.unresolved = logged ++ later ∧
    (Scan.ofBytes bs).all = .ok (rs ++ aborts (endLsn .zero rs).next logged)

theorem underway_of_all {bs : Bytes} (h : (Scan.ofBytes bs).all = .ok rs) (s : Replay.State) :
    Underway rs s bs := by
  refine ⟨[], s.unresolved, rfl, ?_⟩
  rw [aborts, List.append_nil]
  exact h

/-- An opening that fails changes no byte, or leaves a log with the first few of the aborts. -/
theorem left_of_openOn_error (hall : (Scan.ofBytes store.toList).all = .ok rs)
    (hstate : Replay.state rs = .ok s)
    (hroom : (endLsn .zero rs).toNat + s.unresolved.length < UInt64.size)
    (h : openOn config store now = .error (e, left)) : left.toList = store.toList ∨
      ∃ (logged later : List TxnId) (log : Log), s.unresolved = logged ++ later ∧
        log.Holds (rs ++ aborts (endLsn .zero rs).next logged) ∧
        left.toList = log.store.toList := by
  cases hconfig : config.validate with
  | error e₁ =>
    unfold openOn at h
    rw [hconfig] at h
    cases h
    exact .inl rfl
  | ok =>
  cases hlog : Log.openOn store with
  | error failure =>
    unfold openOn at h
    rw [hconfig, hlog] at h
    cases h
    exact .inl (Log.toList_of_openOn_error hlog)
  | ok log =>
  obtain ⟨hholds, -⟩ := Log.holds_of_all hall hlog
  unfold openOn at h
  simp only [hconfig, hlog, recover_of_state hholds hstate, Recovery.unresolved, Except.mapError,
    bind, Except.bind] at h
  right
  cases habort : abortEach log s s.unresolved with
  | error failure =>
    rw [habort] at h
    cases h
    obtain ⟨logged, later, log', hsplit, hholds', hleft⟩ :=
      abortEach_error hholds hstate hroom habort
    exact ⟨logged, later, log', hsplit, hholds', congrArg Store.toList hleft⟩
  | ok result =>
  obtain ⟨log₁, s₁⟩ := result
  obtain ⟨hholds₁, -⟩ := abortEach_ok hholds hstate habort
  rw [habort] at h
  dsimp only at h
  cases hsync : syncAborts log₁ s.unresolved with
  | error failure =>
    rw [hsync] at h
    cases h
    exact ⟨s.unresolved, [], log₁, (List.append_nil _).symm, hholds₁, syncAborts_error hsync⟩
  | ok log₂ =>
    rw [hsync] at h
    cases h

theorem underway_of_openOn_error (hall : (Scan.ofBytes store.toList).all = .ok rs)
    (hstate : Replay.state rs = .ok s)
    (hroom : (endLsn .zero rs).toNat + s.unresolved.length < UInt64.size)
    (h : openOn config store now = .error (e, left)) : Underway rs s left.toList := by
  rcases left_of_openOn_error hall hstate hroom h with
    hleft | ⟨logged, later, log, hsplit, hholds, hleft⟩
  · rw [hleft]
    exact underway_of_all hall s
  · rw [hleft]
    exact ⟨logged, later, hsplit, hholds.all_scan⟩

/-- What is left of the bytes by an opening that fails, early or late. Once the torn tail is cut,
opening goes on as over a store without one (`openOn_of_cut`). From then on other calls may be told
to fail, as the log that has been opened is the same whichever do (`openOn_log_again`). -/
inductive Interrupted : Bytes → Bytes → Prop
  | early {config : Config} {store left : Store} {now : Instant} {e : Error}
      (h : openOn config store now = .error (e, left)) : Interrupted store.toList left.toList
  | late {config : Config} {store left : Store} {now : Instant} {e : Error} {log : Log}
      (hlog : Log.openOn store = .ok log) (plan : FaultPlan)
      (h : openOn config { log.store with plan } now = .error (e, left)) :
      Interrupted store.toList left.toList

/-- The records that are there, whatever is still to be done with them. -/
theorem Underway.exists_state {bs : Bytes} (h : Underway rs s bs)
    (hstate : Replay.state rs = .ok s)
    (hroom : (endLsn .zero rs).toNat + s.unresolved.length < UInt64.size) :
    ∃ logged later rs₁ s₁, s.unresolved = logged ++ later ∧
      rs₁ = rs ++ aborts (endLsn .zero rs).next logged ∧ (Scan.ofBytes bs).all = .ok rs₁ ∧
      Replay.state rs₁ = .ok s₁ ∧ s.Reduces s₁ later ∧
      (endLsn .zero rs₁).toNat + s₁.unresolved.length < UInt64.size := by
  obtain ⟨logged, later, hsplit, hall⟩ := h
  obtain ⟨s₁, hstate₁, hreduces⟩ := Replay.state_aborts (Scan.follow_of_all hall) hstate hsplit
  refine ⟨logged, later, _, s₁, hsplit, rfl, hall, hstate₁, hreduces, ?_⟩
  rw [hsplit, List.length_append] at hroom
  rw [Record.endLsn_append, Record.toNat_endLsn_aborts (by omega), hreduces.unresolved]
  omega

/-- One more opening that fails. -/
theorem Underway.interrupted {bs bs' : Bytes} (h : Underway rs s bs)
    (hstate : Replay.state rs = .ok s)
    (hroom : (endLsn .zero rs).toNat + s.unresolved.length < UInt64.size)
    (hstep : Interrupted bs bs') : Underway rs s bs' := by
  obtain ⟨logged, later, rs₁, s₁, hsplit, hrs₁, hall, hstate₁, hreduces, hroom₁⟩ :=
    h.exists_state hstate hroom
  have hunderway : Underway rs₁ s₁ bs' := by
    cases hstep with
    | early hfailed => exact underway_of_openOn_error hall hstate₁ hroom₁ hfailed
    | @late _ _ _ _ _ log hlog plan hfailed =>
      obtain ⟨hholds, -⟩ := Log.holds_of_all hall hlog
      have hall₁ : (Scan.ofBytes { log.store with plan }.toList).all = .ok rs₁ := hholds.all_scan
      exact underway_of_openOn_error hall₁ hstate₁ hroom₁ hfailed
  obtain ⟨logged', later', hsplit', hall'⟩ := hunderway
  rw [hreduces.unresolved] at hsplit'
  refine ⟨logged ++ logged', later', ?_, ?_⟩
  · rw [hsplit, hsplit', List.append_assoc]
  · rw [hall', Record.append_aborts_append, hrs₁]

theorem Underway.of_interruptions {bs bs' : Bytes} (h : Underway rs s bs)
    (hstate : Replay.state rs = .ok s)
    (hroom : (endLsn .zero rs).toNat + s.unresolved.length < UInt64.size)
    (hsteps : Relation.ReflTransGen Interrupted bs bs') : Underway rs s bs' := by
  induction hsteps with
  | refl => exact h
  | tail _ hstep ih => exact ih.interrupted hstate hroom hstep

/-! ## Opening again -/

/-- **Opening again.** Over what an opening has left, which has succeeded, any valid environment
opens, whichever calls of the store would fail now: it changes no byte, aborts nothing, and has the
same live set and the same next id. And over what is left of the same bytes by openings that have
failed, in a row and in whatever way, an environment opens with that live set and that next id, if
it meets no failure itself. -/
theorem exists_openOn_again (hopen : openOn config store now = .ok env) :
    (∀ config' store' now', config'.validate = .ok () → store'.toList = env.log.store.toList →
      ∃ env', openOn config' store' now' = .ok env' ∧ env'.log.store = store' ∧
        env'.counters.recoveredAborts = 0 ∧ env'.live = env.live ∧ env'.nextTxn = env.nextTxn) ∧
    ∀ bs, Relation.ReflTransGen Interrupted store.toList bs →
      ∀ config' store' now', store'.toList = bs →
        (config'.validate = .ok () → store'.plan = .none →
          ∃ env', openOn config' store' now' = .ok env') ∧
        ∀ env', openOn config' store' now' = .ok env' →
          env'.live = env.live ∧ env'.nextTxn = env.nextTxn := by
  obtain ⟨rs, s, hall, hstate, hrecovered⟩ := openOn_recovered hopen
  have hreduces := hrecovered.reduces hstate
  constructor
  · intro config' store' now' hconfig hbytes
    have hframes := hrecovered.holds.bytes_of_sound hrecovered.sound
    rw [← hbytes] at hframes
    obtain ⟨env', henv', hstore, haborted, hlive, hnext⟩ := exists_openOn_of_resolved now' hconfig
      hframes hrecovered.holds.follow hrecovered.state hreduces.unresolved
    refine ⟨env', henv', hstore, haborted, hlive, ?_⟩
    rw [hnext, hrecovered.nextTxn, Recovery.nextTxn_congr hreduces.maxTxn]
  · intro bs hsteps config' store' now' hbytes
    have hroom := hrecovered.holds.follow.room_of_aborts
    obtain ⟨logged, later, rs₁, s₁, -, -, hall₁, hstate₁, hreduces₁, hroom₁⟩ :=
      ((underway_of_all hall s).of_interruptions hstate hroom hsteps).exists_state hstate hroom
    rw [← hbytes] at hall₁
    constructor
    · intro hconfig hplan
      obtain ⟨env', henv', -⟩ := exists_openOn_of_all now' hconfig hplan hall₁ hstate₁ hroom₁
      exact ⟨env', henv'⟩
    · intro env' henv'
      have hrecovered' := recovered_of_all hall₁ hstate₁ henv'
      have hreduces' := hrecovered'.reduces hstate₁
      constructor
      · rw [live, live, hreduces'.live, hreduces₁.live, hreduces.live]
      · rw [hrecovered'.nextTxn, hrecovered.nextTxn, Recovery.nextTxn_congr hreduces₁.maxTxn]

/-- A store that fails while the second abort is written, and cannot be cut then. -/
def breaking (frames : Bytes) : Store := (Store.ofBytes frames).rearmed ⟨some 45, false, true⟩

theorem exists_openOn_again_unfinished :
    ∃ frames env e left, Frame.ofRecords unfinished = .ok frames ∧
      openOn .standard (.ofBytes frames) 0 = .ok env ∧ env.counters.recoveredAborts = 2 ∧
      openOn .standard (breaking frames) 0 = .error (e, left) ∧ left.size = frames.length + 45 ∧
      (∃ env', openOn .standard env.log.store 1 = .ok env' ∧ env'.counters.recoveredAborts = 0) ∧
      ∃ env', openOn .standard (.ofBytes left.toList) 1 = .ok env' ∧ env'.live = env.live ∧
        env'.nextTxn = env.nextTxn := by
  have hconfig : Config.standard.validate = .ok () := rfl
  have hfollow : Follow .zero unfinished := by decide
  obtain ⟨frames, s, e, left, hframes, hstate, hunresolved, habort, hsize⟩ : ∃ frames s e left,
      Frame.ofRecords unfinished = .ok frames ∧ Replay.state unfinished = .ok s ∧
      s.unresolved = [⟨5⟩, ⟨7⟩] ∧
      abortEach ⟨breaking frames, ⟨5⟩, false⟩ s [⟨5⟩, ⟨7⟩] = .error (e, left) ∧
      left.size = frames.length + 45 :=
    ⟨_, _, _, _, rfl, rfl, by decide +kernel, rfl, by decide +kernel⟩
  have hbytes : (breaking frames).toList = frames := Store.toList_ofBytes frames
  have hall : (Scan.ofBytes (Store.ofBytes frames).toList).all = .ok unfinished :=
    Scan.all_of_frames hframes hfollow .nil (hbytes.trans (List.append_nil _).symm)
  obtain ⟨env, hopen, hrecovered⟩ := exists_openOn_of_all 0 hconfig rfl hall hstate
    (by rw [hunresolved]; decide)
  have hfailed : openOn .standard (breaking frames) 0 = .error (e, left) := by
    have hframes' : Frame.ofRecords unfinished = .ok (breaking frames).toList := by
      rw [hframes, hbytes]
    have hlog : Log.openOn (breaking frames) = .ok ⟨breaking frames, ⟨5⟩, false⟩ :=
      Log.openOn_of_frames hframes' hfollow
    have hholds : Log.Holds ⟨breaking frames, ⟨5⟩, false⟩ unfinished :=
      Log.holds_of_frames hframes' hfollow
    unfold openOn
    simp only [hconfig, hlog, recover_of_state hholds hstate, Recovery.unresolved, hunresolved,
      habort, Except.mapError, bind, Except.bind]
  have hstep : Interrupted (breaking frames).toList left.toList := .early hfailed
  obtain ⟨hagain, hlater⟩ := exists_openOn_again hopen
  obtain ⟨env', hopen', -, haborted, -⟩ := hagain .standard env.log.store 1 hconfig rfl
  obtain ⟨hexists, hsame⟩ := hlater left.toList (.single hstep) .standard (.ofBytes left.toList) 1
    (Store.toList_ofBytes _)
  obtain ⟨env₂, hopen₂⟩ := hexists hconfig rfl
  refine ⟨frames, env, e, left, hframes, hopen, ?_, hfailed, hsize, ⟨env', hopen', haborted⟩, env₂,
    hopen₂, hsame env₂ hopen₂⟩
  rw [hrecovered.aborted, hunresolved]
  rfl

end Environment
end WalStore
