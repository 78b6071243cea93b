import Mathlib.Algebra.Group.Nat.Defs
import WalStore.Proofs.Ident
import WalStore.Proofs.Log.Read
import WalStore.Proofs.Replay

/-!
# Runs of a log manager

**Theorem (`answers_run`).** However a log manager is used, and whichever calls of its store fail,
it is a list of records: its answers and its bytes are those of the list that its earlier answers
tell of.

**The list** (`Ledger`). A position that an append answers is that of one more record. A truncation
that succeeds keeps the records up to its target. Nothing else changes the list, a failure least of
all, and nor does opening the log again.

**Sites.** An opening that fails leaves the store without a manager, and with all that was in it.
Other calls can only be made after an opening that succeeds.
-/

namespace WalStore

open Record (Follow endLsn upTo)

/-- A store with the manager that owns it, or alone since an opening that failed. -/
inductive Site where
  | opened (log : Log)
  | closed (store : Store)

namespace Site

/-- What is asked of a log manager, and what happens to its store in between. -/
inductive Event where
  | append (entry : Entry)
  | truncateAfter (target : Lsn)
  | readUpTo (target : Option Lsn)
  | recover (target : Option Lsn)
  | iterate
  | flush
  | sync
  | reopen
  /-- From now on other calls of the store fail. -/
  | plan (plan : FaultPlan)

inductive Answer where
  | position (result : Except Error Lsn)
  | done (result : Except Error Unit)
  | records (result : Except Error (List Record))
  | recovery (result : Except Error Recovery)
  | scan (scan : Scan)
  | nothing

def store : Site → Store
  | .opened log => log.store
  | .closed store => store

/-- Opens a store. -/
def ofStore (store : Store) : Site × Answer :=
  match Log.openOn store with
  | .ok log => (.opened log, .done (.ok ()))
  | .error (e, store) => (.closed store, .done (.error e))

/-- An event while there is a manager. -/
def ask (log : Log) : Event → Site × Answer
  | .append entry => (.opened (log.append entry).1, .position (log.append entry).2)
  | .truncateAfter target =>
    (.opened (log.truncateAfter target).1, .done (log.truncateAfter target).2)
  | .readUpTo target => (.opened log, .records (log.readUpTo target))
  | .recover target => (.opened log, .recovery (log.recover target))
  | .iterate => (.opened log, .scan log.scan)
  | .flush => (.opened log.flush.1, .done log.flush.2)
  | .sync => (.opened log.sync.1, .done log.sync.2)
  | .reopen => ofStore log.store
  | .plan plan => (.opened { log with store.plan := plan }, .nothing)

def step : Site → Event → Site × Answer
  | .opened log, e => ask log e
  | .closed store, .reopen => ofStore store
  | .closed store, .plan plan => (.closed { store with plan }, .nothing)
  | .closed store, _ => (.closed store, .nothing)

/-! ## What a site holds -/

/-- The store holds `rs`, and the manager knows where to go on if there is one. -/
def Holds : Site → List Record → Prop
  | .opened log, rs => log.Holds rs
  | .closed store, rs => Follow .zero rs ∧ ∃ frames torn, Frame.ofRecords rs = .ok frames ∧
      Frame.Partial torn ∧ store.toList = frames ++ torn

variable {site : Site} {rs : List Record}

theorem Holds.follow (h : site.Holds rs) : Follow .zero rs := by
  cases site with
  | opened log => exact Log.Holds.follow h
  | closed store => exact h.1

theorem Holds.bytes (h : site.Holds rs) : ∃ frames torn, Frame.ofRecords rs = .ok frames ∧
    Frame.Partial torn ∧ site.store.toList = frames ++ torn := by
  cases site with
  | opened log =>
    obtain ⟨frames, torn, hframes, htorn, hbytes, -⟩ := Log.Holds.bytes h
    exact ⟨frames, torn, hframes, htorn, hbytes⟩
  | closed store => exact h.2

/-- A scan of the store finds what it holds. -/
theorem Holds.records (h : site.Holds rs) : (Scan.ofBytes site.store.toList).records = rs := by
  obtain ⟨frames, torn, hframes, htorn, hbytes⟩ := h.bytes
  rw [Scan.ofBytes, hbytes, Scan.go_ofRecords hframes h.follow htorn, Scan.records,
    Frame.map_snd_place]

/-- What is there when the store is opened again. -/
theorem Holds.ofStore (h : site.Holds rs) : (ofStore site.store).1.Holds rs := by
  unfold Site.ofStore
  cases hopen : Log.openOn site.store with
  | ok log =>
    have hholds := (Log.holds_openOn hopen).1
    rwa [h.records] at hholds
  | error failure =>
    obtain ⟨e, store⟩ := failure
    obtain ⟨frames, torn, hframes, htorn, hbytes⟩ := h.bytes
    exact ⟨h.follow, frames, torn, hframes, htorn, (Log.toList_of_openOn_error hopen).trans hbytes⟩

end Site

/-! ## Ledgers -/

/-- A site, and the records in it as far as its answers tell. -/
structure Ledger where
  site : Site
  records : List Record

namespace Ledger

open Site (Event Answer)

/-- The records after an event and its answer. -/
def told (rs : List Record) : Event → Answer → List Record
  | .append entry, .position (.ok lsn) => rs ++ [⟨lsn, entry⟩]
  | .truncateAfter target, .done (.ok ()) => upTo (some target) rs
  | _, _ => rs

def step (l : Ledger) (e : Event) : Ledger :=
  ⟨(l.site.step e).1, told l.records e (l.site.step e).2⟩

def run (l : Ledger) (events : List Event) : Ledger := events.foldl step l

/-- A log that has just been opened, with what is in it. -/
def ofLog (log : Log) : Ledger := ⟨.opened log, log.scan.records⟩

def Sound (l : Ledger) : Prop := l.site.Holds l.records

theorem sound_ofLog {store : Store} {log : Log} (h : Log.openOn store = .ok log) :
    (ofLog log).Sound := by
  have hholds := (Log.holds_openOn h).1
  rwa [← hholds.records_scan] at hholds

variable {l : Ledger}

/-- One event. Only an append needs a position that is not in use. -/
theorem Sound.step (h : l.Sound) (hroom : (endLsn .zero l.records).toNat + 1 < UInt64.size)
    (e : Event) : (l.step e).Sound := by
  obtain ⟨site, rs⟩ := l
  cases site with
  | closed store =>
    cases e with
    | reopen => exact Site.Holds.ofStore h
    | _ => exact h
  | opened log =>
    have h : log.Holds rs := h
    cases e with
    | append entry =>
      show Site.Holds (.opened (log.append entry).1) (told rs _ (.position (log.append entry).2))
      rcases happend : log.append entry with ⟨log', e | lsn⟩
      · exact h.append_error happend
      · obtain ⟨rfl, hholds⟩ := h.append_ok happend
        refine hholds ?_
        rw [h.next]
        exact Lsn.lt_next hroom
    | truncateAfter target =>
      show Site.Holds (.opened (log.truncateAfter target).1)
        (told rs _ (.done (log.truncateAfter target).2))
      rcases h.truncateAfter target with ⟨log', hcut, hholds⟩ | ⟨log', e, hcut, hholds⟩
      · rw [hcut]
        exact hholds
      · rw [hcut]
        exact hholds
    | readUpTo | recover | iterate => exact h
    | flush => exact h.congr (Store.toList_flush log.store) rfl rfl
    | sync => exact h.congr (Store.toList_sync log.store) rfl rfl
    | reopen =>
      have hsite : (Site.opened log).Holds rs := h
      exact hsite.ofStore
    | plan plan => exact h.congr rfl rfl rfl

theorem Sound.run (h : l.Sound) {events : List Event}
    (hroom : ∀ n, (endLsn .zero (l.run (events.take n)).records).toNat + 1 < UInt64.size) :
    (l.run events).Sound := by
  induction events generalizing l with
  | nil => exact h
  | cons e es ih => exact ih (h.step (hroom 0) e) fun n => hroom (n + 1)

/-! ## The list of records -/

/-- The bytes of the store and the next position, for records `rs`. -/
structure Exact (site : Site) (rs : List Record) : Prop where
  follow : Follow .zero rs
  /-- A beginning of a frame is left behind only where no more records are taken. -/
  bytes : ∃ frames torn, Frame.ofRecords rs = .ok frames ∧ Frame.Partial torn ∧
    site.store.toList = frames ++ torn ∧ (torn = [] ∨ ∀ log, site = .opened log →
      ∀ entry, log.append entry = (log, .error (.invalidOperation .partialRecord)))
  next : ∀ log, site = .opened log → log.nextLsn.toNat = (endLsn .zero rs).toNat + 1

/-- What a list of records answers. -/
def Fits (rs : List Record) : Event → Answer → Prop
  | .append _, .position result => ∀ lsn, result = .ok lsn → lsn.toNat = (endLsn .zero rs).toNat + 1
  | .truncateAfter _, .done _ => True
  | .readUpTo target, .records result => result = .ok (upTo target rs)
  | .recover target, .recovery result => ∃ recovery, result = .ok recovery ∧
      Replay.live (upTo target rs) = .ok recovery.state.live
  | .iterate, .scan scan => scan.items = Frame.place 0 rs ∧ scan.error? = none
  | .flush, .done _ => True
  | .sync, .done _ => True
  | .reopen, .done _ => True
  | .plan _, .nothing => True
  | _, _ => False

theorem Sound.next (h : l.Sound) (hroom : (endLsn .zero l.records).toNat + 1 < UInt64.size)
    {log : Log} (hsite : l.site = .opened log) :
    log.nextLsn.toNat = (endLsn .zero l.records).toNat + 1 := by
  rw [Sound, hsite] at h
  rw [Log.Holds.next h]
  exact Lsn.toNat_next hroom

theorem Sound.exact (h : l.Sound) (hroom : (endLsn .zero l.records).toNat + 1 < UInt64.size) :
    Exact l.site l.records := by
  refine ⟨Site.Holds.follow h, ?_, fun log => h.next hroom⟩
  obtain ⟨site, rs⟩ := l
  cases site with
  | closed store =>
    obtain ⟨frames, torn, hframes, htorn, hbytes⟩ := h.2
    exact ⟨frames, torn, hframes, htorn, hbytes, .inr nofun⟩
  | opened log =>
    obtain ⟨frames, torn, hframes, htorn, hbytes, hrest⟩ := Log.Holds.bytes h
    refine ⟨frames, torn, hframes, htorn, hbytes, hrest.imp_right fun hpoisoned => ?_⟩
    rintro log' ⟨⟩ entry
    rw [Log.append, if_pos hpoisoned]

theorem Sound.fits (h : l.Sound) (hroom : (endLsn .zero l.records).toNat + 1 < UInt64.size)
    {log : Log} (hsite : l.site = .opened log) (e : Event) :
    Fits l.records e (l.site.step e).2 := by
  have hnext := h.next hroom hsite
  rw [Sound, hsite] at h
  rw [hsite]
  have h : log.Holds l.records := h
  cases e with
  | append entry =>
    rintro lsn hlsn
    rw [← hnext, (h.append_ok (Prod.ext rfl hlsn)).1]
  | readUpTo target => exact h.readUpTo target
  | recover target =>
    obtain ⟨state, hstate, -⟩ := Replay.exists_state_of_follow
      (h.follow.shorten (h.follow.prefix_upTo target))
    refine ⟨⟨state⟩, ?_, by rw [Replay.live, hstate]; rfl⟩
    show log.recover target = _
    rw [h.recover, hstate]
    rfl
  | iterate => exact ⟨h.items_scan, h.error?_scan⟩
  | reopen =>
    show Fits _ _ (Site.ofStore log.store).2
    unfold Site.ofStore
    split <;> trivial
  | truncateAfter | flush | sync | plan => trivial

/-- A store that can be cut can be opened again, with nothing left over of failed appends. -/
theorem Sound.reopen (h : l.Sound) (hplan : l.site.store.plan.failTruncate = false) :
    ∃ log, l.site.step .reopen = (.opened log, .done (.ok ())) ∧
      Frame.ofRecords l.records = .ok log.store.toList ∧ log.poisoned = false := by
  obtain ⟨frames, torn, hframes, htorn, hbytes⟩ := Site.Holds.bytes h
  obtain ⟨log, hopen, hholds, hpoisoned, -⟩ :=
    Log.exists_openOn hplan hframes (Site.Holds.follow h) htorn hbytes
  refine ⟨log, ?_, hholds.bytes_of_sound hpoisoned, hpoisoned⟩
  have hstep : l.site.step .reopen = Site.ofStore l.site.store := by
    cases l.site <;> rfl
  rw [hstep, Site.ofStore, hopen]

/-- **A log manager is a list of records.** After any events its bytes are the frames of the list,
with a beginning of one more at most while it takes no records; its answers are those of the list;
and as soon as the store can be cut it can be opened again with the same list. -/
theorem answers_run {store : Store} {log : Log} (hopen : Log.openOn store = .ok log)
    {events : List Event} (hroom : ∀ n, ∀ r ∈ ((ofLog log).run (events.take n)).records,
      r.lsn.toNat < 2 ^ 64 - 1) :
    let l := (ofLog log).run events
    Exact l.site l.records ∧
      (∀ log', l.site = .opened log' → ∀ e, Fits l.records e (l.site.step e).2) ∧
      (l.site.store.plan.failTruncate = false →
        ∃ log', l.site.step .reopen = (.opened log', .done (.ok ())) ∧
          Frame.ofRecords l.records = .ok log'.store.toList ∧ log'.poisoned = false) := by
  have hend (n : Nat) :
      (endLsn .zero ((ofLog log).run (events.take n)).records).toNat + 1 < UInt64.size := by
    have hlt : (endLsn .zero ((ofLog log).run (events.take n)).records).toNat < 2 ^ 64 - 1 :=
      Record.endLsn_lt (by decide) (hroom n)
    have hsize : UInt64.size = 2 ^ 64 := rfl
    omega
  have hsound := (sound_ofLog hopen).run hend
  have hlast := hend events.length
  rw [List.take_length] at hlast
  exact ⟨hsound.exact hlast, fun log' hsite => hsound.fits hlast hsite, hsound.reopen⟩

/-- The third record is written in part, and its part cannot be cut off. The log refuses the next,
cannot be cut and cannot be opened again, until the store is sound. -/
def mishaps : List Event :=
  [.append (.put [1] [2]), .append (.txnPut ⟨1⟩ [3] [4]), .plan ⟨some 90, false, true⟩,
    .append (.commit ⟨1⟩), .append (.abort ⟨1⟩), .truncateAfter ⟨1⟩, .reopen, .plan .none, .reopen,
    .truncateAfter ⟨1⟩, .append (.delete [1] none)]

theorem answers_run_mishaps :
    let log : Log := ⟨.empty, .ofNat 1, false⟩
    Log.openOn .empty = .ok log ∧
      ((ofLog log).run mishaps).records = [⟨⟨1⟩, .put [1] [2]⟩, ⟨⟨2⟩, .delete [1] none⟩] ∧
      Exact ((ofLog log).run mishaps).site [⟨⟨1⟩, .put [1] [2]⟩, ⟨⟨2⟩, .delete [1] none⟩] := by
  have hopen : Log.openOn .empty = .ok ⟨.empty, .ofNat 1, false⟩ := by decide +kernel
  have hroom : ∀ n, ∀ r ∈ ((ofLog ⟨.empty, .ofNat 1, false⟩).run (mishaps.take n)).records,
      r.lsn.toNat < 2 ^ 64 - 1 := by
    have hshort : ∀ n ≤ mishaps.length,
        ∀ r ∈ ((ofLog ⟨.empty, .ofNat 1, false⟩).run (mishaps.take n)).records,
          r.lsn.toNat < 2 ^ 64 - 1 := by decide +kernel
    intro n
    rcases Nat.le_total n mishaps.length with hn | hn
    · exact hshort n hn
    · rw [List.take_of_length_le hn, ← List.take_length (l := mishaps)]
      exact hshort _ (Nat.le_refl _)
  have hrecords : ((ofLog ⟨.empty, .ofNat 1, false⟩).run mishaps).records =
      [⟨⟨1⟩, .put [1] [2]⟩, ⟨⟨2⟩, .delete [1] none⟩] := by decide +kernel
  have hexact := (answers_run hopen hroom).1
  rw [hrecords] at hexact
  exact ⟨hopen, hrecords, hexact⟩

end Ledger
end WalStore
