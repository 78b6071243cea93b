import Mathlib.Data.List.DropRight
import WalStore.Proofs.Replay.Flat
import WalStore.Proofs.Replay.Unresolved

/-!
# What recovery comes to

A state keeps little of the records that it has replayed: the work that is not resolved, the last
position, the largest id, and counts. All of it is said here of the records themselves.

**Theorem (`describes_of_stream`).** Replaying a list succeeds exactly if its positions ascend from
above zero. Replaying any list one by one comes to what those of its records come to that stand
beyond all in front of them (`Record.advancing`), and it refuses just the others. What has been
replayed is told by its records (`Describes`): which transactions they leave open, and with which
work, where ids and positions go on, and how many records there are of which kind.

The one thing in a state that looks back further than it remembers is the count of resolutions
without work. Whether one has work is up to the records in front of it alone, so this is a count
over all cuts through the list (`Record.unfounded`).
-/

namespace WalStore

open Record (Follow endLsn LeftOpen)

namespace Record

/-! ## Records and those in front of them -/

/-- The records that are in relation `p` with what is in front of them, of which `before` is the
beginning. -/
def keepFrom (p : List Record → Record → Prop) [DecidableRel p] (before : List Record) :
    List Record → List Record
  | [] => []
  | r :: rs =>
    if p before r then r :: keepFrom p (before ++ [r]) rs else keepFrom p (before ++ [r]) rs

theorem keepFrom_append_singleton (p : List Record → Record → Prop) [DecidableRel p]
    (before rs : List Record) (r : Record) : keepFrom p before (rs ++ [r]) =
      keepFrom p before rs ++ if p (before ++ rs) r then [r] else [] := by
  induction rs generalizing before with
  | nil => simp [keepFrom]
  | cons x rs ih =>
    rw [List.cons_append, keepFrom, keepFrom, ih, List.append_assoc, List.singleton_append]
    split <;> rfl

theorem mem_of_mem_keepFrom {p : List Record → Record → Prop} [DecidableRel p]
    {before rs : List Record} {r : Record} (h : r ∈ keepFrom p before rs) : r ∈ rs := by
  induction rs generalizing before with
  | nil => exact h
  | cons x rs ih =>
    rw [keepFrom] at h
    split at h
    · rcases List.mem_cons.1 h with rfl | h
      · exact List.mem_cons_self
      · exact List.mem_cons_of_mem x (ih h)
    · exact List.mem_cons_of_mem x (ih h)

/-- The record stands beyond zero and beyond all that are in front of it. -/
def Advances (before : List Record) (r : Record) : Prop :=
  .zero < r.lsn ∧ ∀ x ∈ before, x.lsn < r.lsn

instance : DecidableRel Advances :=
  fun before r => inferInstanceAs (Decidable (.zero < r.lsn ∧ ∀ x ∈ before, x.lsn < r.lsn))

/-- The records that stand beyond zero and beyond all that are in front of them. -/
def advancing (rs : List Record) : List Record := keepFrom Advances [] rs

theorem advancing_append_singleton (rs : List Record) (r : Record) :
    advancing (rs ++ [r]) = advancing rs ++ if Advances rs r then [r] else [] :=
  keepFrom_append_singleton Advances [] rs r

/-! ## Work behind all that resolves it -/

/-- The work of the transaction behind the last record that resolves it. -/
def standing (rs : List Record) (txn : TxnId) : List Entry :=
  ((rs.rtakeWhile fun r => r.entry.resolved? ≠ some txn).map (·.entry)).filter
    (·.work? = some txn)

variable {rs : List Record} {txn : TxnId}

open Replay.Flat (opsAfter)

theorem standing_append_singleton (rs : List Record) (r : Record) (txn : TxnId) :
    standing (rs ++ [r]) txn =
      if r.entry.txn? = some txn then opsAfter (standing rs txn) r.entry
      else standing rs txn := by
  rw [standing, List.rtakeWhile_concat]
  by_cases htxn : r.entry.txn? = some txn
  · rw [if_pos htxn]
    cases hentry : r.entry with
    | put | delete =>
      rw [hentry] at htxn
      cases htxn
    | txnPut | txnDelete =>
      rw [hentry] at htxn
      cases htxn
      simp [standing, hentry, opsAfter, Entry.resolved?, Entry.work?]
    | commit | abort =>
      rw [hentry] at htxn
      cases htxn
      simp [opsAfter, Entry.resolved?]
  · have hresolved : r.entry.resolved? ≠ some txn := fun h => htxn (Entry.txn?_of_resolved? h)
    have hwork : r.entry.work? ≠ some txn := fun h => htxn (Entry.txn?_of_work? h)
    rw [if_neg htxn, if_pos (by simpa using hresolved)]
    simp [standing, hwork]

theorem work?_of_mem_standing {e : Entry} (h : e ∈ standing rs txn) : e.work? = some txn := by
  simpa using (List.mem_filter.1 h).2

theorem leftOpen_iff (rs : List Record) (txn : TxnId) : LeftOpen rs txn ↔ standing rs txn ≠ [] := by
  induction rs using List.reverseRecOn with
  | nil => simp [not_leftOpen_nil, standing]
  | append_singleton rs r ih =>
    rw [leftOpen_append_singleton, standing_append_singleton, ih]
    split
    · next htxn => cases hentry : r.entry <;> simp_all [opsAfter, Entry.resolved?, Entry.txn?]
    · rfl

instance (rs : List Record) (txn : TxnId) : Decidable (LeftOpen rs txn) :=
  decidable_of_iff _ (leftOpen_iff rs txn).symm

/-- The record resolves a transaction that those in front of it do not leave open. -/
def Unfounded (before : List Record) (r : Record) : Prop :=
  ∃ txn ∈ r.entry.resolved?, ¬LeftOpen before txn

instance : DecidableRel Unfounded :=
  fun before r => inferInstanceAs (Decidable (∃ txn ∈ r.entry.resolved?, ¬LeftOpen before txn))

/-- The records that resolve a transaction without work since it was last resolved. -/
def unfounded (rs : List Record) : List Record := keepFrom Unfounded [] rs

theorem unfounded_append_singleton (rs : List Record) (r : Record) :
    unfounded (rs ++ [r]) = unfounded rs ++ if Unfounded rs r then [r] else [] :=
  keepFrom_append_singleton Unfounded [] rs r

end Record

namespace Replay

open Record (Advances advancing standing Unfounded unfounded)
open Flat (workOf)

variable {rs : List Record} {s : State}

/-! ## Which records are replayed -/

theorem follow_of_state (hstate : state rs = .ok s) :
    Follow .zero rs ∧ s.lastLsn = endLsn .zero rs := by
  induction rs using List.reverseRecOn generalizing s with
  | nil =>
    cases hstate
    exact ⟨trivial, rfl⟩
  | append_singleton rs r ih =>
    obtain ⟨s₀, hstate₀, happly⟩ := exists_state_of_append hstate
    obtain ⟨hfollow, hlast⟩ := ih hstate₀
    obtain ⟨hlt, hlsn, -⟩ := State.views_apply happly
    refine ⟨Record.follow_append.2 ⟨hfollow, hlast ▸ hlt, trivial⟩, ?_⟩
    rw [hlsn, Record.endLsn_append]
    rfl

/-- Positions follow one another if they ascend strictly, the first of them from what is before. -/
theorem follow_iff_pairwise (last : Lsn) (rs : List Record) :
    Follow last rs ↔ (last.toNat :: rs.map (·.lsn.toNat)).Pairwise (· < ·) := by
  induction rs generalizing last with
  | nil => simp [Follow]
  | cons r rs ih =>
    rw [Follow, ih, List.map_cons, List.pairwise_cons (a := last.toNat), Lsn.lt_iff]
    refine and_congr_left fun hrest => ⟨fun hlt x hx => ?_, fun h => h _ List.mem_cons_self⟩
    rcases List.mem_cons.1 hx with rfl | hx
    · exact hlt
    · exact Nat.lt_trans hlt (List.rel_of_pairwise_cons hrest hx)

theorem exists_state_iff (rs : List Record) :
    (∃ s, state rs = .ok s) ↔ (0 :: rs.map (·.lsn.toNat)).Pairwise (· < ·) := by
  rw [← Lsn.toNat_zero, ← follow_iff_pairwise]
  constructor
  · rintro ⟨s, hstate⟩
    exact (follow_of_state hstate).1
  · intro hfollow
    obtain ⟨s, hstate, -⟩ := exists_state_of_follow hfollow
    exact ⟨s, hstate⟩

theorem State.stream_append_singleton (s : State) (rs : List Record) (r : Record) :
    s.stream (rs ++ [r]) = ((s.stream rs).apply r).toOption.getD (s.stream rs) := by
  simp [stream]

theorem State.stream_of_apply {s s' : State} {r : Record} (h : (s.stream rs).apply r = .ok s') :
    s.stream (rs ++ [r]) = s' := by
  rw [stream_append_singleton, h]
  rfl

theorem State.apply_of_le {s : State} {r : Record} (h : r.lsn ≤ s.lastLsn) :
    s.apply r = .error (.corruption (.replayedAfter r.lsn s.lastLsn)) := by
  rw [apply, if_pos h]

theorem State.stream_of_le {s : State} {r : Record} (h : r.lsn ≤ (s.stream rs).lastLsn) :
    s.stream (rs ++ [r]) = s.stream rs := by
  rw [stream_append_singleton, apply_of_le h]
  rfl

/-- The last position is the largest so far, that of refused records included, as none of them is
beyond it. -/
theorem lastLsn_stream_lt_iff (rs : List Record) (r : Record) :
    (State.empty.stream rs).lastLsn < r.lsn ↔ Advances rs r := by
  induction rs using List.reverseRecOn generalizing r with
  | nil => exact ⟨fun hlt => ⟨hlt, nofun⟩, And.left⟩
  | append_singleton rs x ih =>
    by_cases hx : (State.empty.stream rs).lastLsn < x.lsn
    · obtain ⟨s', happly⟩ := State.exists_apply hx
      obtain ⟨hzero, hfront⟩ := (ih x).1 hx
      rw [State.stream_of_apply happly, (State.views_apply happly).2.1]
      refine ⟨fun hlt => ⟨Lsn.lt_trans hzero hlt, fun y hy => ?_⟩, fun h => h.2 x (by simp)⟩
      rcases List.mem_append.1 hy with hy | hy
      · exact Lsn.lt_trans (hfront y hy) hlt
      · obtain rfl := List.mem_singleton.1 hy
        exact hlt
    · have hle := Lsn.not_lt.1 hx
      rw [State.stream_of_le hle, ih]
      refine ⟨fun h => ⟨h.1, fun y hy => ?_⟩, fun h => ⟨h.1, fun y hy => h.2 y (by simp [hy])⟩⟩
      rcases List.mem_append.1 hy with hy | hy
      · exact h.2 y hy
      · obtain rfl := List.mem_singleton.1 hy
        exact Lsn.lt_of_le_of_lt hle ((ih r).2 h)

/-- Whether the next record is replayed or refused. -/
theorem stream_next (before : List Record) (r : Record) :
    (Advances before r → (State.empty.stream before).apply r =
        .ok (State.empty.stream (before ++ [r]))) ∧
      (¬Advances before r →
        (∃ e, (State.empty.stream before).apply r = .error e) ∧
          State.empty.stream (before ++ [r]) = State.empty.stream before) := by
  rw [← lastLsn_stream_lt_iff, Lsn.not_lt]
  refine ⟨fun hlt => ?_, fun hle => ⟨⟨_, State.apply_of_le hle⟩, State.stream_of_le hle⟩⟩
  obtain ⟨s', happly⟩ := State.exists_apply hlt
  rw [happly, State.stream_of_apply happly]

theorem state_advancing (rs : List Record) :
    state (advancing rs) = .ok (State.empty.stream rs) := by
  induction rs using List.reverseRecOn with
  | nil => rfl
  | append_singleton rs r ih =>
    obtain ⟨hreplayed, hrefused⟩ := stream_next rs r
    rw [Record.advancing_append_singleton]
    by_cases hr : Advances rs r
    · rw [if_pos hr, state_append_singleton, ih]
      exact hreplayed hr
    · rw [if_neg hr, List.append_nil, ih, (hrefused hr).2]

/-! ## What their state is -/

/-- What is pending of a transaction is the work behind all that resolves it. -/
theorem get?_pending_of_state (hstate : state rs = .ok s) (txn : TxnId) :
    s.pending.get? txn =
      if standing rs txn = [] then none else some (workOf (standing rs txn)) := by
  induction rs using List.reverseRecOn generalizing s with
  | nil =>
    cases hstate
    rfl
  | append_singleton rs r ih =>
    obtain ⟨s₀, hstate₀, happly⟩ := exists_state_of_append hstate
    obtain ⟨-, -, -, hpending⟩ := State.views_apply happly
    rw [hpending, State.get?_pending_perform, Record.standing_append_singleton]
    split
    swap
    · exact ih hstate₀
    have hbefore : s₀.workOf txn = workOf (standing rs txn) := by
      rw [State.workOf, SortedMap.getD, ih hstate₀]
      split
      · next hnil =>
        rw [hnil]
        rfl
      · rfl
    rw [hbefore]
    cases r.entry with
    | txnPut t key value =>
      simp [Flat.opsAfter, Entry.workAfter, Flat.workOf_concat_put]
    | txnDelete t key value =>
      simp [Flat.opsAfter, Entry.workAfter, Flat.workOf_concat_delete]
    | _ => rfl

theorem mem_inserts_workOf {ops : List Entry} {txn : TxnId} (h : ∀ e ∈ ops, e.work? = some txn)
    (key value : Bytes) : (key, value) ∈ (workOf ops).inserts ↔ .txnPut txn key value ∈ ops := by
  rw [workOf, SortedSet.mem_ofList, List.mem_filterMap]
  constructor
  · rintro ⟨e, he, hinsert⟩
    have htxn := h e he
    cases e <;> cases hinsert
    cases htxn
    exact he
  · exact fun he => ⟨_, he, rfl⟩

theorem mem_deletes_workOf {ops : List Entry} {txn : TxnId} (h : ∀ e ∈ ops, e.work? = some txn)
    (key : Bytes) (value : Option Bytes) :
    (key, value) ∈ (workOf ops).deletes ↔ .txnDelete txn key value ∈ ops := by
  rw [workOf, SortedSet.mem_ofList, List.mem_filterMap]
  constructor
  · rintro ⟨e, he, hdelete⟩
    have htxn := h e he
    cases e <;> cases hdelete
    cases htxn
    exact he
  · exact fun he => ⟨_, he, rfl⟩

/-- A transaction without pending work is not left open. -/
theorem get?_pending_eq_none_iff (hstate : state rs = .ok s) (txn : TxnId) :
    s.pending.get? txn = none ↔ ¬LeftOpen rs txn := by
  rw [get?_pending_of_state hstate, Record.leftOpen_iff, not_not]
  split <;> simp_all

/-- What an entry adds to the counters. -/
theorem State.counters_perform (s : State) (e : Entry) :
    (s.perform e).counters.directWrites =
        s.counters.directWrites + (if e.txn? = none then 1 else 0) ∧
      (s.perform e).counters.txnWrites =
        s.counters.txnWrites + (if e.work?.isSome then 1 else 0) ∧
      (s.perform e).counters.committed =
        s.counters.committed + (if e.kind = .commit then 1 else 0) ∧
      (s.perform e).counters.aborted =
        s.counters.aborted + (if e.kind = .abort then 1 else 0) ∧
      (s.perform e).counters.unknownResolutions = s.counters.unknownResolutions +
        if ∃ txn ∈ e.resolved?, s.pending.get? txn = none then 1 else 0 := by
  cases e with
  | put | delete | txnPut | txnDelete =>
    simp [perform, Entry.txn?, Entry.work?, Entry.kind, Entry.resolved?]
  | commit txn | abort txn =>
    cases hwork : s.pending.get? txn <;>
      simp [perform, hwork, countUnknown, discard, Entry.txn?, Entry.work?, Entry.kind,
        Entry.resolved?]

/-- The counters count the records of their kinds. -/
structure Counted (c : Counters) (rs : List Record) : Prop where
  records : c.records = rs.length
  directWrites : c.directWrites = rs.countP (·.entry.txn? = none)
  txnWrites : c.txnWrites = rs.countP (·.entry.work?.isSome)
  committed : c.committed = rs.countP (·.entry.kind = .commit)
  aborted : c.aborted = rs.countP (·.entry.kind = .abort)
  unknownResolutions : c.unknownResolutions = (unfounded rs).length

theorem counted_of_state (hstate : state rs = .ok s) : Counted s.counters rs := by
  induction rs using List.reverseRecOn generalizing s with
  | nil =>
    cases hstate
    exact ⟨rfl, rfl, rfl, rfl, rfl, rfl⟩
  | append_singleton rs r ih =>
    obtain ⟨s₀, hstate₀, happly⟩ := exists_state_of_append hstate
    obtain ⟨-, rfl⟩ := State.apply_eq_ok_iff.1 happly
    obtain ⟨hdirect, htxn, hcommitted, haborted, hunknown⟩ := s₀.counters_perform r.entry
    have h := ih hstate₀
    have hunfounded : (∃ txn ∈ r.entry.resolved?, s₀.pending.get? txn = none) ↔
        Unfounded rs r := by
      simp only [Unfounded, get?_pending_eq_none_iff hstate₀]
    refine ⟨?_, ?_, ?_, ?_, ?_, ?_⟩ <;> dsimp only
    · rw [h.records, List.length_append, List.length_singleton]
    · rw [hdirect, h.directWrites, List.countP_append, List.countP_singleton]
      simp
    · rw [htxn, h.txnWrites, List.countP_append, List.countP_singleton]
    · rw [hcommitted, h.committed, List.countP_append, List.countP_singleton]
      simp
    · rw [haborted, h.aborted, List.countP_append, List.countP_singleton]
      simp
    · rw [hunknown, h.unknownResolutions, Record.unfounded_append_singleton, List.length_append]
      simp only [hunfounded]
      split <;> rfl

/-- Each record is of one kind. -/
theorem Counted.records_eq {c : Counters} (h : Counted c rs) :
    c.records = c.directWrites + c.txnWrites + c.committed + c.aborted := by
  have hone (e : Entry) : (if e.txn? = none then 1 else 0) + (if e.work?.isSome then 1 else 0) +
      (if e.kind = .commit then 1 else 0) + (if e.kind = .abort then 1 else 0) = 1 := by
    cases e <;> rfl
  rw [h.records, h.directWrites, h.txnWrites, h.committed, h.aborted]
  clear h
  induction rs with
  | nil => rfl
  | cons r rs ih =>
    have hr := hone r.entry
    simp only [List.length_cons, List.countP_cons, decide_eq_true_eq]
    omega

end Replay

/-! ## Recovery -/

namespace Recovery

open Record (Advances advancing standing unfounded)

variable {rs : List Record} {s : Replay.State}

/-- What there is to know after recovering from `rs`, told by these records. -/
structure Describes (r : Recovery) (rs : List Record) : Prop where
  ascending : r.unresolved.Pairwise (· < ·)
  /-- There is work of just these transactions behind all that resolves them. -/
  unresolved : ∀ txn, txn ∈ r.unresolved ↔ LeftOpen rs txn
  pending : ∀ txn, r.state.pending.get? txn = none ↔ ¬LeftOpen rs txn
  /-- What is pending of a transaction is the set of this work. -/
  work : ∀ txn work, r.state.pending.get? txn = some work →
    (∀ key value, (key, value) ∈ work.inserts ↔ .txnPut txn key value ∈ standing rs txn) ∧
      ∀ key value, (key, value) ∈ work.deletes ↔ .txnDelete txn key value ∈ standing rs txn
  nextTxn : ∀ x ∈ rs, ∀ txn, x.entry.txn? = some txn → txn.toNat < r.nextTxn.toNat
  nextTxn_of_none : (∀ x ∈ rs, x.entry.txn? = none) → r.nextTxn.toNat = 1
  /-- The position is the next after the last, or after zero. -/
  nextLsn : r.nextLsn = Lsn.next ((rs.getLast?.map (·.lsn)).getD .zero)
  counted : Replay.Counted r.counters rs
  records : r.counters.records = r.counters.directWrites + r.counters.txnWrites +
    r.counters.committed + r.counters.aborted

theorem describes_of_state (hstate : Replay.state rs = .ok s)
    (hids : ∀ x ∈ rs, ∀ txn, x.entry.txn? = some txn → txn.toNat + 1 < UInt64.size) :
    Describes ⟨s⟩ rs where
  ascending := s.pairwise_unresolved
  unresolved _ := Replay.mem_unresolved_iff hstate
  pending := Replay.get?_pending_eq_none_iff hstate
  work txn work hwork := by
    rw [Replay.get?_pending_of_state hstate] at hwork
    split at hwork
    · cases hwork
    · cases hwork
      exact ⟨Replay.mem_inserts_workOf fun e he => Record.work?_of_mem_standing he,
        Replay.mem_deletes_workOf fun e he => Record.work?_of_mem_standing he⟩
  nextTxn := by
    refine (nextTxn_spec hstate (n := UInt64.size - 2) (by decide) fun x hx txn htxn => ?_).1
    have := hids x hx txn htxn
    omega
  nextTxn_of_none hnone := by
    have hmax : s.maxTxn = none := by
      cases hmax : s.maxTxn with
      | none => rfl
      | some m =>
        obtain ⟨x, hx, htxn⟩ := (Replay.maxTxn_of_state hstate).2 m hmax
        rw [hnone x hx] at htxn
        cases htxn
    unfold Recovery.nextTxn
    rw [hmax]
    rfl
  nextLsn := by
    rw [← Record.endLsn_eq_getLast?, ← (Replay.follow_of_state hstate).2]
    rfl
  counted := Replay.counted_of_state hstate
  records := (Replay.counted_of_state hstate).records_eq

theorem ofRecords_eq_ok_iff {r : Recovery} :
    ofRecords rs = .ok r ↔ Replay.state rs = .ok r.state := by
  obtain ⟨s⟩ := r
  unfold ofRecords
  cases Replay.state rs <;> simp [Except.map]

/-- **What recovery comes to.** Replaying at once succeeds for just the lists whose positions ascend
strictly from above zero, and what it comes to is told by the list. Replaying one by one replays
just the records that stand beyond zero and beyond all in front of them, refuses each other one and
is left as it was by it, and what it comes to is told by those it replays. -/
theorem describes_of_stream (rs : List Record)
    (hids : ∀ x ∈ rs, ∀ txn, x.entry.txn? = some txn → txn.toNat + 1 < UInt64.size) :
    ((∃ live, Replay.live rs = .ok live) ↔ (0 :: rs.map (·.lsn.toNat)).Pairwise (· < ·)) ∧
    ((∃ r, ofRecords rs = .ok r) ↔ (0 :: rs.map (·.lsn.toNat)).Pairwise (· < ·)) ∧
    (∀ r, ofRecords rs = .ok r → r.Describes rs) ∧
    ofRecords (advancing rs) = .ok ⟨Replay.State.empty.stream rs⟩ ∧
    Describes ⟨Replay.State.empty.stream rs⟩ (advancing rs) ∧
    ∀ before r after, rs = before ++ r :: after →
      (Advances before r → (Replay.State.empty.stream before).apply r =
        .ok (Replay.State.empty.stream (before ++ [r]))) ∧
      (¬Advances before r → (∃ e, (Replay.State.empty.stream before).apply r = .error e) ∧
        Replay.State.empty.stream (before ++ [r]) = Replay.State.empty.stream before) := by
  have hkept : Replay.state (advancing rs) = .ok (Replay.State.empty.stream rs) :=
    Replay.state_advancing rs
  refine ⟨?_, ?_, fun r hr => ?_, ofRecords_eq_ok_iff.2 hkept, ?_, fun before r _ _ => ?_⟩
  · rw [← Replay.exists_state_iff, Replay.live]
    cases Replay.state rs <;> simp [Except.map]
  · rw [← Replay.exists_state_iff]
    constructor
    · rintro ⟨r, hr⟩
      exact ⟨r.state, ofRecords_eq_ok_iff.1 hr⟩
    · rintro ⟨s, hs⟩
      exact ⟨⟨s⟩, ofRecords_eq_ok_iff.2 hs⟩
  · exact describes_of_state (ofRecords_eq_ok_iff.1 hr) hids
  · exact describes_of_state hkept fun x hx => hids x (Record.mem_of_mem_keepFrom hx)
  · exact Replay.stream_next before r

/-- Positions that stay behind, a commit that is repeated, an abort of a transaction that there is
no work of, and an id that is used again after its commit. -/
def rambling : List Record :=
  [⟨⟨0⟩, .put [1] [1]⟩, ⟨⟨1⟩, .txnPut ⟨7⟩ [1] [2]⟩, ⟨⟨4⟩, .commit ⟨7⟩⟩, ⟨⟨3⟩, .txnPut ⟨7⟩ [1] [3]⟩,
    ⟨⟨5⟩, .commit ⟨7⟩⟩, ⟨⟨5⟩, .commit ⟨7⟩⟩, ⟨⟨6⟩, .abort ⟨9⟩⟩, ⟨⟨8⟩, .txnDelete ⟨7⟩ [1] none⟩,
    ⟨⟨9⟩, .txnPut ⟨5⟩ [3] [4]⟩]

theorem describes_of_stream_rambling :
    (∀ x ∈ rambling, ∀ txn, x.entry.txn? = some txn → txn.toNat + 1 < UInt64.size) ∧
      (¬∃ r, ofRecords rambling = .ok r) ∧ ∃ r, ofRecords (advancing rambling) = .ok r ∧
        r.unresolved = [⟨5⟩, ⟨7⟩] ∧ r.counters.records = 6 ∧ r.counters.unknownResolutions = 2 ∧
        r.nextLsn = ⟨10⟩ ∧ 9 < r.nextTxn.toNat := by
  have hids : ∀ x ∈ rambling, ∀ txn, x.entry.txn? = some txn → txn.toNat + 1 < UInt64.size := by
    intro x hx txn htxn
    have hsmall : ∀ x ∈ rambling, x.entry.txn?.all (·.toNat + 1 < UInt64.size) := by decide
    simpa [htxn] using hsmall x hx
  obtain ⟨-, hbatch, -, hkept, hdescribes, -⟩ := describes_of_stream rambling hids
  refine ⟨hids, fun h => absurd (hbatch.1 h) (by decide), _, hkept, by decide +kernel, ?_, ?_, ?_,
    ?_⟩
  · exact hdescribes.counted.records.trans (by decide)
  · exact hdescribes.counted.unknownResolutions.trans (by decide)
  · exact hdescribes.nextLsn.trans (by decide)
  · exact hdescribes.nextTxn ⟨⟨6⟩, .abort ⟨9⟩⟩ (by decide) ⟨9⟩ rfl

end Recovery
end WalStore
