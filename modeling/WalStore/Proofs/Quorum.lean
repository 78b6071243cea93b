import WalStore.Proofs.Gate
import WalStore.Proofs.Ident
import WalStore.Quorum

/-!
# Rounds do not mix

**Theorem (`unmixed_run`).** Unless a round is just being started, every acknowledgement there is
has been recorded in the current round, and reaches its target. So a wait that is answered with true
at such a moment has found as many replicas that have acknowledged the current target, and the
target at its start too if no later round has a lower one.

**Steps.** The target has a lock of its own. Starting a round and recording an acknowledgement both
hold it for two steps (`Turn`), and calls that wait on the gate may look in between, as may shutting
down and resetting come in between. A step for which it is not the time does nothing. The rounds are
counted, and with each acknowledgement that is recorded the number of its round is kept.
-/

namespace WalStore.Quorum

open Monitor

/-! ## Steps -/

/-- What the lock on the target is held for. -/
inductive Turn where
  | free
  /-- The target is set, and the acknowledgements of the round before are not forgotten yet. -/
  | starting
  /-- This acknowledgement has been found not to be older than the target. -/
  | recording (replica : ReplicaId) (lsn : Lsn)
  deriving DecidableEq

/-- A quorum and what has happened to it. -/
structure Rounds where
  quorum : Quorum
  turn : Turn
  /-- How many rounds have been started. -/
  started : Nat
  /-- All acknowledgements recorded so far, each with the number of its round. -/
  recorded : List (Nat × ReplicaId × Lsn)

namespace Rounds

def empty : Rounds := ⟨.empty, .free, 0, []⟩

def change {β : Type} (s : Rounds) (c : Change Quorum β) : Change Rounds Unit :=
  ⟨{ s with quorum := c.state }, (), c.notify⟩

def look (s : Rounds) (l : Look Quorum SizeWaiting (Except Error Bool)) :
    Look Rounds SizeWaiting (Except Error Bool) :=
  ⟨{ s with quorum := l.state }, l.fate, l.notify⟩

end Rounds

/-- A step of an operation on the quorum. -/
inductive Action where
  /-- Takes the lock and sets the target. -/
  | start (target : Lsn)
  /-- Forgets the acknowledgements of the round before and gives the lock back. -/
  | forget
  /-- Takes the lock and compares with the target. One that is too old is ignored. -/
  | check (replica : ReplicaId) (lsn : Lsn)
  /-- Stores the acknowledgement and gives the lock back. -/
  | store
  | shutDown (cause : String)
  | reset
  deriving DecidableEq

def Action.perform (action : Action) (s : Rounds) : Change Rounds Unit :=
  match action, s.turn with
  | start target, .free =>
    { s with turn := .starting, started := s.started + 1 }.change (setTarget target s.quorum)
  | forget, .starting => { s with turn := .free }.change (forgetAcks s.quorum)
  | check replica lsn, .free =>
    ⟨if lsn < s.quorum.target then s else { s with turn := .recording replica lsn }, (), false⟩
  | store, .recording replica lsn =>
    { s with turn := .free, recorded := (s.started, replica, lsn) :: s.recorded }.change
      (onAcks (Gate.put replica lsn) s.quorum)
  | shutDown cause, _ => s.change (Quorum.shutDown cause s.quorum)
  | reset, _ => s.change (Quorum.reset s.quorum)
  | start _, _ | forget, _ | check .., _ | store, _ => ⟨s, (), false⟩

/-- The calls that wait for a quorum, between the steps. -/
def setting : Setting Rounds SizeWait SizeWaiting (Except Error Bool) Action where
  discipline :=
    { arrive := fun sight request s => s.look (discipline.arrive sight request s.quorum)
      again := fun sight memory s => s.look (discipline.again sight memory s.quorum) }
  perform := Action.perform
  due? := (·.deadline)

abbrev World := Monitor.World Rounds SizeWaiting

abbrev Move := Monitor.Move SizeWait Action

variable {s : Rounds}

/-- Both steps of starting a round in a row. -/
theorem startRound_eq_steps (hfree : s.turn = .free) (target : Lsn) :
    let first := (Action.start target).perform s
    let second := Action.forget.perform first.state
    second.state.quorum = (startRound target s.quorum).state ∧ second.state.turn = .free ∧
      first.notify = false ∧ second.notify = (startRound target s.quorum).notify := by
  cases s
  cases hfree
  exact ⟨rfl, rfl, rfl, rfl⟩

/-- Both steps of recording an acknowledgement in a row. -/
theorem record_eq_steps (hfree : s.turn = .free) (replica : ReplicaId) (lsn : Lsn) :
    let first := (Action.check replica lsn).perform s
    let second := Action.store.perform first.state
    second.state.quorum = (record replica lsn s.quorum).state ∧ second.state.turn = .free ∧
      first.notify = false ∧ second.notify = (record replica lsn s.quorum).notify := by
  by_cases hold : lsn < s.quorum.target
  · simp [Action.perform, hfree, record, hold]
  · simp [Action.perform, hfree, record, hold, Rounds.change]

/-! ## The current round -/

/-- The acknowledgements there are belong to the current round. -/
structure Current (s : Rounds) : Prop where
  acks : s.turn ≠ .starting → ∀ replica lsn, s.quorum.acks.entries.get? replica = some lsn →
    s.quorum.target ≤ lsn ∧ (s.started, replica, lsn) ∈ s.recorded
  recording : ∀ replica lsn, s.turn = .recording replica lsn → s.quorum.target ≤ lsn

theorem current_empty : Current .empty where
  acks _ _ _ h := nomatch h
  recording _ _ h := nomatch h

/-- Shutting down, resetting and looks concern neither the target nor the acknowledgements. -/
theorem Current.of_same (h : Current s) {q : Quorum} (htarget : q.target = s.quorum.target)
    (hentries : q.acks.entries = s.quorum.acks.entries) : Current { s with quorum := q } where
  acks hturn replica lsn hget := by
    dsimp only at hget ⊢
    rw [htarget]
    exact h.acks hturn replica lsn (hentries ▸ hget)
  recording replica lsn hturn := by
    dsimp only
    rw [htarget]
    exact h.recording replica lsn hturn

theorem Current.perform (h : Current s) (action : Action) : Current (action.perform s).state := by
  cases action with
  | start target =>
    cases hturn : s.turn with
    | free =>
      simp only [Action.perform, hturn]
      exact ⟨fun hne => absurd rfl hne, nofun⟩
    | _ => simpa only [Action.perform, hturn] using h
  | forget =>
    cases hturn : s.turn with
    | starting =>
      simp only [Action.perform, hturn]
      exact ⟨fun _ _ _ => nofun, nofun⟩
    | _ => simpa only [Action.perform, hturn] using h
  | check replica lsn =>
    cases hturn : s.turn with
    | free =>
      simp only [Action.perform, hturn]
      split
      · exact h
      · next hnew =>
        refine ⟨fun _ => h.acks (by rw [hturn]; nofun), fun _ _ heq => ?_⟩
        cases heq
        exact Lsn.not_lt.1 hnew
    | _ => simpa only [Action.perform, hturn] using h
  | store =>
    cases hturn : s.turn with
    | recording replica lsn =>
      simp only [Action.perform, hturn]
      refine ⟨fun _ replica' lsn' hget => ?_, nofun⟩
      change (s.quorum.acks.entries.insert replica lsn).get? replica' = some lsn' at hget
      rw [SortedMap.get?_insert] at hget
      split at hget
      · next hself =>
        cases hget
        exact ⟨h.recording _ _ hturn, hself ▸ List.mem_cons_self⟩
      · obtain ⟨hreaches, hrecorded⟩ := h.acks (by rw [hturn]; nofun) replica' lsn' hget
        exact ⟨hreaches, List.mem_cons_of_mem _ hrecorded⟩
    | _ => simpa only [Action.perform, hturn] using h
  | shutDown cause => exact h.of_same rfl rfl
  | reset => exact h.of_same rfl rfl

theorem Current.run {w : World} (h : Current w.monitor.shared) (moves : List Move) :
    Current (w.run setting moves).monitor.shared := by
  refine w.shared_run (P := Current) (fun sight request s h => ?_) (fun sight memory s h => ?_)
    (fun action s h => h.perform action) moves h
  · exact h.of_same rfl (Gate.arrive_spec ..).spares.like.entries
  · exact h.of_same rfl (Gate.again_spec ..).spares.like.entries

/-! ## Waits -/

theorem remembers_setting : setting.Remembers :=
  fun hfate => ((Gate.again_spec _ _ _).sleeps hfate).1

theorem need_le_acked {w : World} {before moves : List Move} {request : SizeWait} {move : Move}
    (hlooks : w.Looks setting before request moves move)
    (houtcome : (w.run setting moves).outcome? setting move = some (.ok true)) :
    request.need ≤ (w.run setting moves).monitor.shared.quorum.acked := by
  obtain ⟨token, ⟨rfl, hreturns⟩ | ⟨memory, hsleeps, hreturns⟩⟩ :=
    hlooks.result remembers_setting houtcome
  · exact (Gate.arrive_spec ..).need_le hreturns
  · obtain ⟨rfl, -⟩ := (Gate.arrive_spec ..).sleeps hsleeps
    exact (Gate.again_spec ..).need_le hreturns

/-- No round that starts in the moves has a lower target than the one before. -/
def NeverLowers (w : World) : List Move → Prop
  | [] => True
  | move :: moves =>
    w.monitor.shared.quorum.target ≤ (w.step setting move).monitor.shared.quorum.target ∧
      NeverLowers (w.step setting move) moves

instance decidableNeverLowers (w : World) : (moves : List Move) → Decidable (NeverLowers w moves)
  | [] => .isTrue trivial
  | move :: moves =>
    have := decidableNeverLowers (w.step setting move) moves
    inferInstanceAs (Decidable (_ ∧ _))

theorem NeverLowers.target_le {w : World} {moves : List Move} (h : NeverLowers w moves) :
    w.monitor.shared.quorum.target ≤ (w.run setting moves).monitor.shared.quorum.target := by
  induction moves generalizing w with
  | nil => exact Lsn.le_refl _
  | cons move moves ih => exact Lsn.le_trans h.1 (ih h.2)

/-- **Rounds do not mix**, whatever comes between the steps. -/
theorem unmixed_run (start : Instant) (before since : List Move) :
    let fresh : World := .fresh .empty start
    let w := fresh.run setting before
    let v := w.run setting since
    v.monitor.shared.turn ≠ .starting →
      (∀ replica lsn, v.monitor.shared.quorum.acks.entries.get? replica = some lsn →
        v.monitor.shared.quorum.target ≤ lsn ∧
          (v.monitor.shared.started, replica, lsn) ∈ v.monitor.shared.recorded) ∧
      ∀ request move, fresh.Looks setting before request (before ++ since) move →
        v.outcome? setting move = some (.ok true) →
        ∃ replicas : List ReplicaId, replicas.Nodup ∧ request.need ≤ replicas.length ∧
          ∀ replica ∈ replicas, ∃ lsn,
            (v.monitor.shared.started, replica, lsn) ∈ v.monitor.shared.recorded ∧
              v.monitor.shared.quorum.target ≤ lsn ∧
                (NeverLowers w since → w.monitor.shared.quorum.target ≤ lsn) := by
  intro fresh w v hturn
  have hcurrent : Current v.monitor.shared := Current.run (Current.run current_empty before) since
  refine ⟨hcurrent.acks hturn, fun request move hlooks houtcome =>
    ⟨v.monitor.shared.quorum.acks.entries.keys, SortedMap.nodup_keys _, ?_, fun replica hkey => ?_⟩⟩
  · rw [SortedMap.keys, List.length_map]
    have hneed := need_le_acked hlooks (by rwa [World.run_append])
    rwa [World.run_append] at hneed
  · obtain ⟨lsn, hget⟩ := Option.isSome_iff_exists.1 (SortedMap.mem_keys_iff.1 hkey)
    obtain ⟨hreaches, hrecorded⟩ := hcurrent.acks hturn replica lsn hget
    exact ⟨lsn, hrecorded, hreaches, fun hlowers => Lsn.le_trans hlowers.target_le hreaches⟩

/-- A call waits for two replicas in the round for position 5; both of them acknowledge in time. -/
theorem unmixed_run_two :
    let v : World := World.run setting (.fresh .empty 0)
      [.act (.start ⟨5⟩), .act .forget, .enter (some ⟨3⟩) ⟨2, none⟩, .act (.check ⟨1⟩ ⟨5⟩),
        .act .store, .act (.check ⟨2⟩ ⟨4⟩), .act (.check ⟨2⟩ ⟨9⟩), .act .store]
    v.outcome? setting (.recheck 0) = some (.ok true) ∧
      ∃ replicas : List ReplicaId, replicas.Nodup ∧ 2 ≤ replicas.length ∧
        ∀ replica ∈ replicas, ∃ lsn, (1, replica, lsn) ∈ v.monitor.shared.recorded ∧ ⟨5⟩ ≤ lsn := by
  intro v
  have houtcome : v.outcome? setting (.recheck 0) = some (.ok true) := rfl
  obtain ⟨-, hanswered⟩ := unmixed_run 0 [.act (.start ⟨5⟩), .act .forget]
    [.enter (some ⟨3⟩) ⟨2, none⟩, .act (.check ⟨1⟩ ⟨5⟩), .act .store, .act (.check ⟨2⟩ ⟨4⟩),
      .act (.check ⟨2⟩ ⟨9⟩), .act .store] (by decide +kernel)
  obtain ⟨replicas, hnodup, hneed, hreplicas⟩ := hanswered ⟨2, none⟩ (.recheck 0)
    (.again (some ⟨3⟩) _) houtcome
  refine ⟨houtcome, replicas, hnodup, hneed, fun replica hmem => ?_⟩
  obtain ⟨lsn, hrecorded, -, htarget⟩ := hreplicas replica hmem
  exact ⟨lsn, hrecorded, htarget (by decide +kernel)⟩

end WalStore.Quorum
