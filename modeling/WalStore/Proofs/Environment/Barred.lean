import WalStore.Proofs.Environment.Doomed
import WalStore.Proofs.Environment.History
import WalStore.Proofs.Environment.Reopen
import WalStore.Proofs.Replay.Absence
import WalStore.Proofs.Replay.Reach

/-!
# Writes that are barred

The writes of a transaction are barred from the live set if there is no commit under its id wherever
one of them stands (`Signed.Barred`). Then it makes no difference to the live set that they are
there (`Barred.live`).

**Invariant** (`Visit.Bars`). A store may be cut and opened anew any number of times, and the id may
be given to another transaction, but not as long as one of the writes is there: an environment gives
out ids behind the largest in the log. So a transaction that is known under the id and can be mixed
up with these writes is the one that has logged them, and it is marked.

What an environment needs for that is that positions and ids last (`Visit.Steady`). A store has what
it takes whatever has been in it before, and keeps it (`Archive.Bars.run`).
-/

namespace WalStore

open Record (Follow Reaches endLsn)

/-- Records that are left out do not harm the order. -/
theorem Record.Follow.sublist {last : Lsn} {rs rs' : List Record} (h : Follow last rs)
    (hsub : rs'.Sublist rs) : Follow last rs' := by
  have hweaken {last last' : Lsn} {rs : List Record} (hlt : last < last') (h : Follow last' rs) :
      Follow last rs := by
    cases rs with
    | nil => trivial
    | cons r rs =>
      exact ⟨Lsn.lt_iff.2 (Nat.lt_trans (Lsn.lt_iff.1 hlt) (Lsn.lt_iff.1 h.1)), h.2⟩
  induction hsub generalizing last with
  | slnil => trivial
  | cons r _ ih => exact hweaken h.1 (ih h.2)
  | cons_cons r _ ih => exact ⟨h.1, ih h.2⟩

namespace Signed

variable {signed : List Signed} {txn : TxnId} {n : Nat}

/-- The record is a write of the transaction `txn` that began at the moment `n`. -/
def IsWrite (p : Signed) (txn : TxnId) (n : Nat) : Prop :=
  p.record.entry.work? = some txn ∧ p.began = some n

instance (p : Signed) (txn : TxnId) (n : Nat) : Decidable (p.IsWrite txn n) :=
  inferInstanceAs (Decidable (_ ∧ _))

/-- The records but for the writes of the transaction. -/
def without (txn : TxnId) (n : Nat) (signed : List Signed) : List Record :=
  records (signed.filter fun p => ¬p.IsWrite txn n)

/-- Where there is a write of the transaction there is no commit under its id. -/
def Barred (txn : TxnId) (n : Nat) (signed : List Signed) : Prop :=
  ∀ p ∈ signed, p.IsWrite txn n → ∀ r ∈ records signed, r.entry ≠ .commit txn

theorem Barred.of_sublist (h : Barred txn n signed) {kept : List Signed}
    (hsub : kept.Sublist signed) : Barred txn n kept := by
  intro p hp hwrite r hr
  exact h p (hsub.subset hp) hwrite r ((hsub.map _).subset hr)

/-- Writes that are not committed in a log can be left out. -/
theorem alike_without (h : ∀ r ∈ records signed, r.entry ≠ .commit txn) (n : Nat)
    {s s' : Replay.State} (halike : s.Alike txn s') :
    (((without txn n signed).map (·.entry)).foldl Replay.State.enter s).Alike txn
      (((records signed).map (·.entry)).foldl Replay.State.enter s') := by
  induction signed generalizing s s' with
  | nil => exact halike
  | cons p signed ih =>
    have hp := h p.record (List.mem_cons_self ..)
    have hlater : ∀ r ∈ records signed, r.entry ≠ .commit txn :=
      fun r hr => h r (List.mem_cons_of_mem _ hr)
    by_cases hwrite : p.IsWrite txn n
    · rw [without, List.filter_cons_of_neg (by simpa using hwrite)]
      refine ih hlater (halike.trans ?_)
      exact (s'.alike_enter (Entry.txn?_of_work? hwrite.1) hp).symm
    · rw [without, List.filter_cons_of_pos (by simpa using hwrite)]
      exact ih hlater (halike.enter hp)

/-- Writes that are barred make no difference. -/
theorem Barred.live (h : Barred txn n signed) (hfollow : Follow .zero (records signed)) :
    Replay.live (without txn n signed) = Replay.live (records signed) := by
  by_cases hsome : ∃ p ∈ signed, p.IsWrite txn n
  · obtain ⟨p, hp, hwrite⟩ := hsome
    have hfollow' : Follow .zero (without txn n signed) :=
      hfollow.sublist (List.filter_sublist.map _)
    have halike := alike_without (h p hp hwrite) n (.refl txn .empty)
    rw [Replay.live, Replay.live, Replay.state_of_follow hfollow, Replay.state_of_follow hfollow']
    exact congrArg Except.ok halike.live
  · have hall : signed.filter (fun p => ¬p.IsWrite txn n) = signed := by
      rw [List.filter_eq_self]
      intro p hp
      simpa using fun hwrite => hsome ⟨p, hp, hwrite⟩
    rw [without, hall]

end Signed

/-! ## Visits -/

namespace Visit

open Environment (Event)

variable {v : Visit} {last first : Nat} {e : Event} {events : List Event} {txn : TxnId} {n : Nat}

/-- What positions and ids there are is up to the number of events. Where the log has a commit, it
is of a transaction that is committed, if that is one of this environment. -/
structure Steady (v : Visit) (last first : Nat) : Prop where
  firm : v.env.Firm ⟨0⟩
  tracks : v.env.Tracks ⟨0⟩ (Signed.records v.signed)
  reaches : Reaches (Signed.records v.signed) (last + 2 * v.clock)
  ids : ∀ p ∈ v.signed, ∀ txn, p.record.entry.txn? = some txn → txn.toNat < v.env.nextTxn.toNat
  next : v.env.nextTxn.toNat ≤ first + v.clock + 1
  early : ∀ txn n, v.began.get? txn = some n → n < v.clock
  /-- The work under the id of a transaction is its own. -/
  began : ∀ txn, (v.env.txns.get? txn).isSome = true → ∃ n, v.began.get? txn = some n ∧
    ∀ p ∈ v.signed, p.record.entry.work? = some txn → p.began = some n
  commits : ∀ txn, (v.env.txns.get? txn).isSome = true → (v.env.txn txn).state ≠ .committed →
    ∀ r ∈ Signed.records v.signed, r.entry ≠ .commit txn

theorem Steady.exists_adds (h : v.Steady last first)
    (hlsn : last + 2 * (v.clock + 1) < UInt64.size) (hid : first + v.clock + 2 < UInt64.size)
    (e : Event) : ∃ new, v.Adds e new := by
  have hend := h.reaches.endLsn_le
  have hnext := h.next
  exact Visit.exists_adds h.tracks (by omega) (by omega) e

theorem Steady.known (h : v.Steady last first) {new : List Record} (hadds : v.Adds e new)
    {r : Record} (hr : r ∈ new) (htxn : r.entry.txn? = some txn) :
    (v.env.txns.get? txn).isSome = true ∧ txn.toNat < v.env.nextTxn.toNat :=
  hadds.known h.tracks.numbered h.firm.acc.checked hr htxn

/-- Only a commit of a transaction that is committed after it is logged. -/
theorem Steady.committed (h : v.Steady last first) {new : List Record} (hadds : v.Adds e new)
    (hlsn : last + 2 * (v.clock + 1) < UInt64.size) {r : Record} (hr : r ∈ new)
    (hentry : r.entry = .commit txn) : ((v.env.after e).txn txn).state = .committed := by
  have hend := h.reaches.endLsn_le
  rcases hadds.reason with rfl | ⟨x, rfl, -, -⟩
  · cases hr
  · obtain rfl := List.mem_singleton.1 hr
    exact Environment.committed_of_logs h.tracks.numbered.named h.tracks.holds h.tracks.lastLsn
      (by omega) hadds.tracks.holds hentry

theorem Steady.after (h : v.Steady last first) (hlsn : last + 2 * (v.clock + 1) < UInt64.size)
    (hid : first + v.clock + 2 < UInt64.size) (he : e.Orderly v.env) :
    (v.after e).Steady last first := by
  have hnumbered := h.tracks.numbered
  obtain ⟨new, hadds⟩ := h.exists_adds hlsn hid e
  have hroom : TxnId.since ⟨0⟩ v.env.nextTxn + 1 < UInt64.size := by
    have := h.next
    rw [TxnId.since_zero]
    omega
  have hnext := Environment.since_nextTxn_after hnumbered hroom e
  rw [TxnId.since_zero, TxnId.since_zero] at hnext
  refine ⟨h.firm.after he hroom, hadds.records ▸ hadds.tracks, ?_, fun p hp txn htxn => ?_,
    Nat.le_trans hnext.2 (Nat.succ_le_succ h.next), fun txn n => lt_of_beganBy h.early,
    fun txn hsome => hadds.own hnumbered h.firm.acc.checked (fun p hp => h.ids p hp txn)
      (h.began txn) hsome,
    fun txn hsome hstate r hr hentry => ?_⟩
  · rw [hadds.records]
    rcases hadds.reason with rfl | ⟨r, rfl, hlsn, -⟩
    · rw [List.append_nil]
      exact h.reaches.mono (Nat.add_le_add_left (Nat.mul_le_mul_left 2 (Nat.le_succ _)) _)
    · exact h.reaches.append hlsn hadds.tracks.holds.follow
  · rcases hadds.mem hp with hp | ⟨hr, -⟩
    · exact Nat.lt_of_lt_of_le (h.ids p hp txn htxn) hnext.1
    · exact Nat.lt_of_lt_of_le (h.known hadds hr htxn).2 hnext.1
  · rw [hadds.records] at hr
    rcases List.mem_append.1 hr with hr | hr
    · rcases beganBy_cases hnumbered hsome with ⟨hbefore, -⟩ | ⟨rfl, -⟩
      · refine h.commits txn hbefore (fun hcommitted => hstate ?_) r hr hentry
        have hover : (v.env.txn txn).isActive = false := by
          rw [Transaction.isActive, hcommitted]
          rfl
        show ((v.env.after e).txn txn).state = .committed
        rw [Environment.txn_congr (h.firm.get?_txns_after e hbefore hover), hcommitted]
      · obtain ⟨p, hp, rfl⟩ := List.mem_map.1 hr
        exact Nat.lt_irrefl _ (h.ids p hp _ (by rw [hentry, Entry.txn?]))
    · exact hstate (h.committed hadds hlsn hr hentry)

theorem Steady.run (h : v.Steady last first) (horderly : v.env.Orderly events)
    (hlsn : last + 2 * (v.clock + events.length) < UInt64.size)
    (hid : first + v.clock + events.length + 1 < UInt64.size) :
    (v.run events).Steady last first := by
  induction events generalizing v with
  | nil => exact h
  | cons e events ih =>
    rw [List.length_cons] at hlsn hid
    have hclock : (v.after e).clock = v.clock + 1 := rfl
    exact ih (h.after (by omega) (by omega) horderly.1) horderly.2 (by omega) (by omega)

/-- The writes of the transaction `txn` that began at the moment `n` are barred, and will be. -/
structure Bars (v : Visit) (txn : TxnId) (n : Nat) : Prop where
  early : n < v.clock
  /-- If it is known it is marked. -/
  marked : (v.began.get? txn = some n ∨ ∃ p ∈ v.signed, p.IsWrite txn n) →
    (v.env.txns.get? txn).isSome = true → ∃ reason, (v.env.txn txn).mustAbort = some reason
  barred : Signed.Barred txn n v.signed

/-- A transaction that is marked and not committed. -/
theorem Steady.bars (h : v.Steady last first) {reason : String}
    (hmark : (v.env.txn txn).mustAbort = some reason) (hbegan : v.began.get? txn = some n)
    (hsome : (v.env.txns.get? txn).isSome = true) : v.Bars txn n := by
  refine ⟨h.early txn n hbegan, fun _ _ => ⟨reason, hmark⟩,
    fun _ _ _ => h.commits txn hsome fun hcommitted => ?_⟩
  rw [h.firm.committed txn hcommitted] at hmark
  cases hmark

/-- Of a marked transaction an event adds nothing but an abort. -/
theorem Steady.entry_eq_abort (h : v.Steady last first) {new : List Record} (hadds : v.Adds e new)
    (hlsn : last + 2 * (v.clock + 1) < UInt64.size) (he : e.Orderly v.env) {reason : String}
    (hmark : (v.env.txn txn).mustAbort = some reason) {r : Record} (hr : r ∈ new)
    (htxn : r.entry.txn? = some txn) : r.entry = .abort txn := by
  have hend := h.reaches.endLsn_le
  rcases hadds.reason with rfl | ⟨x, rfl, -, hcause⟩
  · cases hr
  · obtain rfl := List.mem_singleton.1 hr
    exact h.firm.entry_eq_abort h.tracks he (by omega) hadds.tracks.holds hcause htxn
      (h.firm.mustAbort_after e hmark)

theorem Bars.after (hbars : v.Bars txn n) (h : v.Steady last first)
    (hlsn : last + 2 * (v.clock + 1) < UInt64.size) (hid : first + v.clock + 2 < UInt64.size)
    (he : e.Orderly v.env) : (v.after e).Bars txn n := by
  obtain ⟨new, hadds⟩ := h.exists_adds hlsn hid e
  -- No write of the transaction is added.
  have hold (p : Signed) (hp : p ∈ (v.after e).signed) (hwrite : p.IsWrite txn n) :
      p ∈ v.signed := by
    refine (hadds.mem hp).resolve_right fun ⟨hr, hsign⟩ => ?_
    have htxn := Entry.txn?_of_work? hwrite.1
    have hsome := (h.known hadds hr htxn).1
    have hbegan : v.began.get? txn = some n := by
      rw [← hadds.signs h.tracks.numbered h.firm.acc.checked hr hwrite.1, ← hsign, hwrite.2]
    obtain ⟨reason, hmark⟩ := hbars.marked (.inl hbegan) hsome
    have habort := h.entry_eq_abort hadds hlsn he hmark hr htxn
    have hwork := hwrite.1
    rw [habort] at hwork
    cases hwork
  refine ⟨Nat.lt_succ_of_lt hbars.early, fun hown hsome => ?_, fun p hp hwrite r hr hentry => ?_⟩
  · rcases beganBy_cases h.tracks.numbered hsome with ⟨hbefore, hsame⟩ | ⟨rfl, hnow⟩
    · have hown' : v.began.get? txn = some n ∨ ∃ p ∈ v.signed, p.IsWrite txn n :=
        hown.imp (fun hbegan => hsame.symm.trans hbegan)
          fun ⟨p, hp, hwrite⟩ => ⟨p, hold p hp hwrite, hwrite⟩
      obtain ⟨reason, hmark⟩ := hbars.marked hown' hbefore
      exact ⟨reason, h.firm.mustAbort_after e hmark⟩
    · -- It has just begun, and its id is behind those in the log.
      rcases hown with hbegan | ⟨p, hp, hwrite⟩
      · have hclock := hbars.early
        rw [show (v.after e).began = v.beganBy e from rfl, hnow] at hbegan
        cases hbegan
        exact (Nat.lt_irrefl _ hclock).elim
      · have hlt := h.ids p (hold p hp hwrite) _ (Entry.txn?_of_work? hwrite.1)
        exact (Nat.lt_irrefl _ hlt).elim
  · have hp' := hold p hp hwrite
    rw [hadds.records] at hr
    rcases List.mem_append.1 hr with hr | hr
    · exact hbars.barred p hp' hwrite r hr hentry
    · have htxn : r.entry.txn? = some txn := by rw [hentry, Entry.txn?]
      obtain ⟨reason, hmark⟩ :=
        hbars.marked (.inr ⟨p, hp', hwrite⟩) (h.known hadds hr htxn).1
      have habort := h.entry_eq_abort hadds hlsn he hmark hr htxn
      rw [hentry] at habort
      cases habort

theorem Bars.run (hbars : v.Bars txn n) (h : v.Steady last first)
    (horderly : v.env.Orderly events)
    (hlsn : last + 2 * (v.clock + events.length) < UInt64.size)
    (hid : first + v.clock + events.length + 1 < UInt64.size) : (v.run events).Bars txn n := by
  induction events generalizing v with
  | nil => exact hbars
  | cons e events ih =>
    rw [List.length_cons] at hlsn hid
    have hclock : (v.after e).clock = v.clock + 1 := rfl
    exact ih (hbars.after h (by omega) (by omega) horderly.1)
      (h.after (by omega) (by omega) horderly.1) horderly.2 (by omega) (by omega)

/-- The live set is what the log comes to without the writes of the transaction. -/
def Ignores (v : Visit) (txn : TxnId) (n : Nat) : Prop :=
  v.env.log.Holds (Signed.records v.signed) ∧
    Replay.live (Signed.without txn n v.signed) = .ok v.env.live

theorem Steady.ignores (h : v.Steady last first) (hbars : v.Bars txn n) : v.Ignores txn n :=
  ⟨h.tracks.holds, (hbars.barred.live h.tracks.holds.follow).trans h.tracks.live⟩

end Visit

/-! ## Archives -/

/-- The archive that a visit leaves behind. -/
def Visit.leave (v : Visit) : Archive := ⟨v.env.log.store, v.signed, v.clock⟩

/-- What positions and ids there are is up to the number of events, and the writes of the
transaction `txn` that began at the moment `n` are barred. -/
structure Signed.Fits (signed : List Signed) (last first clock : Nat) (txn : TxnId) (n : Nat) :
    Prop where
  reaches : Reaches (records signed) (last + 2 * clock)
  ids : ∀ p ∈ signed, ∀ txn, p.record.entry.txn? = some txn → txn.toNat ≤ first + clock
  early : n < clock
  barred : Barred txn n signed

namespace Signed

variable {signed : List Signed} {last first clock : Nat} {txn : TxnId} {n : Nat}

theorem Fits.take (h : Fits signed last first clock txn n) (hfollow : Follow .zero (records signed))
    (k : Nat) : Fits (signed.take k) last first clock txn n where
  reaches := h.reaches.of_prefix hfollow ((List.take_prefix k signed).map _)
  ids p hp := h.ids p (List.mem_of_mem_take hp)
  early := h.early
  barred := h.barred.of_sublist (List.take_sublist k signed)

/-- The aborts of an opening need no signatures, also if there are more to come. -/
theorem Fits.resume (h : Fits signed last first clock txn n) {s : Replay.State}
    (hstate : Replay.state (records signed) = .ok s) {logged later : List TxnId}
    (hsplit : s.unresolved = logged ++ later) {aborts : List Record}
    (haborts : aborts = Record.aborts (endLsn .zero (records signed)).next logged)
    (hfollow : Follow .zero (records signed ++ aborts)) :
    Fits (signed ++ aborts.map fun r => ⟨r, none⟩) last first clock txn n := by
  have hrecords : records (signed ++ aborts.map fun r => ⟨r, none⟩) = records signed ++ aborts := by
    rw [records_append, records_sign aborts fun _ => none]
  have habort (r : Record) (hr : r ∈ aborts) : ∃ t ∈ s.unresolved, r.entry = .abort t := by
    obtain ⟨t, ht, hentry⟩ := Record.exists_of_mem_aborts (haborts ▸ hr)
    exact ⟨t, hsplit ▸ List.mem_append_left _ ht, hentry⟩
  refine ⟨?_, fun p hp t htxn => ?_, h.early, fun p hp hwrite r hr hentry => ?_⟩
  · rw [hrecords, haborts]
    exact h.reaches.aborts hstate hsplit (haborts ▸ hfollow)
  · rcases List.mem_append.1 hp with hp | hp
    · exact h.ids p hp t htxn
    · obtain ⟨r, hr, rfl⟩ := List.mem_map.1 hp
      obtain ⟨t', ht', hentry⟩ := habort r hr
      rw [hentry, Entry.txn?, Option.some.injEq] at htxn
      subst htxn
      obtain ⟨w, hw, htxn⟩ := ((Replay.mem_unresolved_iff hstate).1 ht').exists_txn
      obtain ⟨q, hq, rfl⟩ := List.mem_map.1 hw
      exact h.ids q hq t' htxn
  · rcases List.mem_append.1 hp with hp | hp
    · rw [hrecords] at hr
      rcases List.mem_append.1 hr with hr | hr
      · exact h.barred p hp hwrite r hr hentry
      · obtain ⟨t, -, habort⟩ := habort r hr
        rw [hentry] at habort
        cases habort
    · obtain ⟨r', -, rfl⟩ := List.mem_map.1 hp
      cases hwrite.2

end Signed

/-- An environment that has just opened. -/
theorem Environment.Opened.steady {config : Config} {env : Environment} {signed : List Signed}
    {last first clock : Nat} (h : env.Opened config (Signed.records signed))
    (hnext : env.nextTxn = Recovery.nextTxn ⟨env.state⟩)
    (hreaches : Reaches (Signed.records signed) (last + 2 * clock))
    (hids : ∀ p ∈ signed, ∀ txn, p.record.entry.txn? = some txn → txn.toNat ≤ first + clock)
    (hroom : first + clock + 1 < UInt64.size) :
    Visit.Steady ⟨env, ∅, signed, clock⟩ last first := by
  obtain ⟨hbehind, hle⟩ := Recovery.nextTxn_spec h.state hroom fun r hr txn htxn => by
    obtain ⟨p, hp, rfl⟩ := List.mem_map.1 hr
    exact hids p hp txn htxn
  rw [← hnext] at hbehind hle
  have hnone (txn : TxnId) (hsome : (env.txns.get? txn).isSome = true) : False := by
    rw [h.txns] at hsome
    cases hsome
  exact ⟨h.firm ⟨0⟩, h.tracks_from ⟨0⟩, hreaches,
    fun p hp => hbehind p.record (List.mem_map_of_mem hp), hle,
    nofun, fun txn hsome => (hnone txn hsome).elim, fun txn hsome => (hnone txn hsome).elim⟩

theorem Environment.Recovered.nextTxn_eq {config : Config} {env : Environment} {rs : List Record}
    {s : Replay.State} (h : env.Recovered config rs s) (hstate : Replay.state rs = .ok s) :
    env.nextTxn = Recovery.nextTxn ⟨env.state⟩ :=
  h.nextTxn.trans (Recovery.nextTxn_congr (h.reduces hstate).maxTxn).symm

namespace Archive

open Environment (Event openOn)

variable {a : Archive} {last first : Nat} {txn : TxnId} {n : Nat}

structure Bars (a : Archive) (last first : Nat) (txn : TxnId) (n : Nat) : Prop where
  holds : (Site.closed a.store).Holds (Signed.records a.signed)
  fits : Signed.Fits a.signed last first a.clock txn n

theorem bars_keep {store : Store} {signed : List Signed}
    (hholds : (Site.closed store).Holds (Signed.records signed))
    (hsigned : Signed.revise a.signed store (fun _ => none) = signed)
    (hfits : Signed.Fits signed last first a.clock txn n) :
    (a.keep store).Bars last first txn n := by
  subst hsigned
  exact ⟨hholds, hfits⟩

/-- An opening, and what it leaves if it fails. -/
theorem Bars.opened (h : a.Bars last first txn n) (hlsn : last + 2 * a.clock < UInt64.size)
    (hid : first + a.clock + 1 < UInt64.size) (config : Config) (plan : FaultPlan) (now : Instant) :
    (∀ e store, openOn config (a.store.under plan) now = .error (e, store) →
      (a.keep store).Bars last first txn n) ∧
    ∀ env, openOn config (a.store.under plan) now = .ok env →
      (a.visit env).Steady last first ∧ (a.visit env).Bars txn n := by
  obtain ⟨frames, torn, hframes, htorn, hbytes⟩ := h.holds.bytes
  have hall : (Scan.ofBytes (a.store.under plan).toList).all = .ok (Signed.records a.signed) :=
    Scan.all_of_frames hframes h.holds.follow htorn hbytes
  obtain ⟨s, hstate, hend⟩ := h.fits.reaches
  have hrecords (aborts : List Record) :
      Signed.records (a.signed ++ aborts.map fun r => ⟨r, none⟩) =
        Signed.records a.signed ++ aborts := by
    rw [Signed.records_append, Signed.records_sign aborts fun _ => none]
  refine ⟨fun e store hfailed => ?_, fun env hopen => ?_⟩
  · rcases Environment.left_of_openOn_error hall hstate (by omega) hfailed with
      hleft | ⟨logged, later, log, hsplit, hholds, hleft⟩
    · have hholds : (Site.closed store).Holds (Signed.records a.signed) :=
        ⟨h.holds.follow, frames, torn, hframes, htorn, hleft.trans hbytes⟩
      have hsame : Signed.records a.signed = Signed.records a.signed ++ [] :=
        (List.append_nil _).symm
      refine bars_keep hholds
        ((Signed.revise_of_append (hholds.records.trans hsame)).trans ?_) h.fits
      exact List.append_nil _
    · have hholds' : (Site.closed store).Holds (Signed.records a.signed ++
          Record.aborts (endLsn .zero (Signed.records a.signed)).next logged) := by
        obtain ⟨hfollow, frames', torn', hframes', htorn', hbytes'⟩ := hholds.closed
        exact ⟨hfollow, frames', torn', hframes', htorn', hleft.trans hbytes'⟩
      refine bars_keep (hrecords _ ▸ hholds') (Signed.revise_of_append hholds'.records) ?_
      exact h.fits.resume hstate hsplit rfl hholds.follow
  · have hrecovered := Environment.recovered_of_all hall hstate hopen
    have hfits := h.fits.resume hstate (List.append_nil s.unresolved).symm rfl
      hrecovered.holds.follow
    have hopened := hrecovered.toOpened
    rw [← hrecords] at hopened
    rw [visit, Signed.revise_of_append hrecovered.holds.records_scan]
    have hsteady := hopened.steady (hrecovered.nextTxn_eq hstate) hfits.reaches hfits.ids hid
    refine ⟨hsteady, hfits.early, fun _ hsome => ?_, hfits.barred⟩
    rw [hopened.txns] at hsome
    cases hsome

/-- Environments come and go. -/
theorem bars_leave {v : Visit} (h : v.Steady last first) (hbars : v.Bars txn n) :
    v.leave.Bars last first txn n where
  holds := h.tracks.holds.closed
  fits := ⟨h.reaches, fun p hp t htxn => Nat.le_of_lt_succ (Nat.lt_of_lt_of_le (h.ids p hp t htxn)
    h.next), hbars.early, hbars.barred⟩

theorem Bars.after (h : a.Bars last first txn n) {e : Episode} (he : e.Orderly a)
    (hlsn : last + 2 * (a.clock + e.events.length) < UInt64.size)
    (hid : first + a.clock + e.events.length + 1 < UInt64.size) :
    (a.after e).Bars last first txn n ∧ (a.after e).clock ≤ a.clock + e.events.length := by
  cases e with
  | cut size =>
    obtain ⟨k, hsigned, hholds⟩ := exists_cut h.holds size
    exact ⟨bars_keep hholds hsigned (h.fits.take h.holds.follow k), Nat.le_refl _⟩
  | visit config plan now events =>
    rw [Episode.events] at hlsn hid
    obtain ⟨hfailed, hopened⟩ := h.opened (by omega) (by omega) config plan now
    rw [Archive.after]
    cases hopen : openOn config (a.store.under plan) now with
    | error failure => exact ⟨hfailed _ _ hopen, Nat.le_add_right ..⟩
    | ok env =>
      obtain ⟨hsteady, hbars⟩ := hopened env hopen
      have hleave := bars_leave (hsteady.run (he env hopen) hlsn hid)
        (hbars.run hsteady (he env hopen) hlsn hid)
      rw [Visit.leave, Visit.env_run] at hleave
      exact ⟨hleave, Nat.le_of_eq (Visit.clock_run _ events)⟩

theorem Bars.run (h : a.Bars last first txn n) {episodes : List Episode}
    (horderly : a.Orderly episodes)
    (hlsn : last + 2 * (a.clock + (episodes.flatMap (·.events)).length) < UInt64.size)
    (hid : first + a.clock + (episodes.flatMap (·.events)).length + 1 < UInt64.size) :
    (a.run episodes).Bars last first txn n ∧
      (a.run episodes).clock ≤ a.clock + (episodes.flatMap (·.events)).length := by
  induction episodes generalizing a with
  | nil => exact ⟨h, Nat.le_add_right ..⟩
  | cons e episodes ih =>
    rw [List.flatMap_cons, List.length_append] at hlsn hid ⊢
    obtain ⟨hbars, hclock⟩ := h.after horderly.1 (by omega) (by omega)
    obtain ⟨hend, hclock'⟩ := ih hbars horderly.2 (by omega) (by omega)
    exact ⟨hend, by rw [show a.run (e :: episodes) = (a.after e).run episodes from rfl]; omega⟩

end Archive
end WalStore
