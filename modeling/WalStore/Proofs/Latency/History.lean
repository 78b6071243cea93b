import WalStore.Proofs.Latency
import WalStore.Proofs.Latency.Samples

/-!
# Histories of a tracker

Clients tell a tracker when operations start and end. What is to be said about such a history can be
said without a tracker: which operations have started (`operations`), which have ended when
(`ends`), which are under way (`underWay`), and how long those of a kind took (`durations`). After
any history the tracker has just that in its books (`Matches`).

**Theorem (`stats_of_durations`).** Whatever operations of other kinds do meanwhile, the statistics
of a kind are those of the durations of its own operations.
-/

namespace WalStore

namespace Latency

/-- What clients tell a tracker. Operations are numbered in the order in which they start. -/
inductive Event where
  | start (now : Instant) (kind : OpKind)
  | finish (now : Instant) (n : Nat)

def Event.now : Event → Instant
  | start now _ | finish now _ => now

/-! ## Histories -/

def enroll (ops : List Ticket) : Event → List Ticket
  | .start now kind => ops ++ [⟨ops.length, kind, now⟩]
  | .finish .. => ops

/-- The operations that have started, in their order. -/
def operations (history : List Event) : List Ticket := history.foldl enroll []

/-- The end of an operation. -/
structure End where
  /-- What has happened before. -/
  before : List Event
  op : Ticket
  now : Instant

namespace End

def duration (e : End) : Duration := e.now - e.op.started

/-- What has happened up to this end and with it. -/
def through (e : End) : List Event := e.before ++ [.finish e.now e.op.id]

end End

/-- The end that an event is, if there is an operation with its number. -/
def end? (before : List Event) : Event → Option End
  | .start .. => none
  | .finish now n => (operations before)[n]?.map (⟨before, ·, now⟩)

/-- The ends of operations among the events that come after `past`. -/
def ends (past : List Event) : List Event → List End
  | [] => []
  | e :: later => (end? past e).toList ++ ends (past ++ [e]) later

/-- The numbers of the operations that have ended. -/
def ended (history : List Event) : List Nat := (ends [] history).map (·.op.id)

/-- The operations that have started and not ended. -/
def underWay (history : List Event) : List Ticket :=
  (operations history).filter (·.id ∉ ended history)

/-- How long the operations of a kind took, in the order of their ends. -/
def durations (kind : OpKind) (history : List Event) : List Duration :=
  ((ends [] history).filter (·.op.kind = kind)).map (·.duration)

section Histories

variable {history : List Event} {e : End} {now : Instant} {n : Nat}

theorem operations_concat (history : List Event) (e : Event) :
    operations (history ++ [e]) = enroll (operations history) e := List.foldl_append ..

theorem ends_concat (past history : List Event) (e : Event) :
    ends past (history ++ [e]) = ends past history ++ (end? (past ++ history) e).toList := by
  induction history generalizing past with
  | nil => simp [ends]
  | cons e' history ih => simp [ends, ih]

theorem id_of_getElem? {op : Ticket} (h : (operations history)[n]? = some op) : op.id = n := by
  induction history using List.reverseRecOn with
  | nil => cases h
  | append_singleton history e ih =>
    rw [operations_concat] at h
    cases e with
    | start now kind =>
      rw [enroll, List.getElem?_append] at h
      split at h
      · exact ih h
      · next hle =>
        obtain ⟨hlt, rfl⟩ := List.getElem?_eq_some_iff.1 h
        rw [List.getElem_singleton]
        rw [List.length_singleton] at hlt
        dsimp only
        omega
    | finish => exact ih h

theorem operations_isPrefix {later : List Event} (h : history <+: later) :
    operations history <+: operations later := by
  obtain ⟨rest, rfl⟩ := h
  induction rest using List.reverseRecOn with
  | nil => simp
  | append_singleton rest e ih =>
    rw [← List.append_assoc, operations_concat]
    cases e with
    | start => exact ih.trans (List.prefix_append ..)
    | finish => exact ih

theorem end?_finish (before : List Event) (now : Instant) (n : Nat) : end? before (.finish now n) =
    (operations before)[n]?.map (⟨before, ·, now⟩) := rfl

/-- What has ended had started and stood under its number. -/
theorem of_mem_ends (h : e ∈ ends [] history) :
    (operations e.before)[e.op.id]? = some e.op ∧ e.through <+: history := by
  induction history using List.reverseRecOn with
  | nil => cases h
  | append_singleton history event ih =>
    rw [ends_concat, List.nil_append, List.mem_append, Option.mem_toList] at h
    rcases h with h | h
    · obtain ⟨hop, hbefore⟩ := ih h
      exact ⟨hop, hbefore.trans (List.prefix_append ..)⟩
    · cases event with
      | start => cases h
      | finish now n =>
        obtain ⟨op, hop, rfl⟩ := Option.map_eq_some_iff.1 h
        obtain rfl := id_of_getElem? hop
        exact ⟨hop, List.prefix_refl _⟩

theorem op_mem_of_mem_ends (h : e ∈ ends [] history) : e.op ∈ operations history := by
  obtain ⟨hop, hbefore⟩ := of_mem_ends h
  exact (operations_isPrefix ((List.prefix_append ..).trans hbefore)).subset
    (List.mem_of_getElem? hop)

theorem id_lt_of_mem {op : Ticket} (h : op ∈ operations history) :
    op.id < (operations history).length := by
  obtain ⟨n, hn⟩ := List.getElem?_of_mem h
  rw [id_of_getElem? hn]
  exact (List.getElem?_eq_some_iff.1 hn).1

theorem ended_concat (history : List Event) (e : Event) :
    ended (history ++ [e]) = ended history ++ ((end? history e).map (·.op.id)).toList := by
  rw [ended, ends_concat, List.map_append, ended, List.nil_append]
  cases end? history e <;> rfl

theorem underWay_start (history : List Event) (now : Instant) (kind : OpKind) :
    underWay (history ++ [.start now kind]) =
      underWay history ++ [⟨(operations history).length, kind, now⟩] := by
  have hnew : (operations history).length ∉ ended history := fun hmem => by
    obtain ⟨e, he, hid⟩ := List.mem_map.1 hmem
    exact (id_lt_of_mem (op_mem_of_mem_ends he)).ne hid
  rw [underWay, ended_concat, operations_concat, end?, Option.map_none, Option.toList_none,
    List.append_nil, enroll, List.filter_append, List.filter_singleton, decide_eq_true hnew]
  rfl

theorem underWay_finish {op : Ticket} (hop : (operations history)[n]? = some op) (now : Instant) :
    underWay (history ++ [.finish now n]) = (underWay history).filter (·.id ≠ op.id) := by
  rw [underWay, ended_concat, operations_concat, end?_finish, hop, underWay, List.filter_filter]
  refine List.filter_congr fun x _ => ?_
  simp only [Option.map_some, Option.toList_some, List.mem_append, List.mem_singleton, not_or,
    Bool.decide_and, Bool.and_comm]

/-- An end of nothing is no event. -/
theorem ends_concat_of_none {e : Event} (h : end? history e = none) :
    ends [] (history ++ [e]) = ends [] history := by
  rw [ends_concat, List.nil_append, h]
  exact List.append_nil _

theorem durations_concat (kind : OpKind) (history : List Event) (e : Event) :
    durations kind (history ++ [e]) =
      durations kind history ++
        (((end? history e).toList.filter (·.op.kind = kind)).map (·.duration)) := by
  rw [durations, ends_concat, List.filter_append, List.map_append, List.nil_append, durations]

end Histories

/-! ## A tracker that is told a history -/

/-- A tracker with the tickets that clients have been handed, in their order. -/
structure Course where
  tracker : Tracker
  tickets : List Ticket

namespace Course

def after (c : Course) : Event → Course
  | .start now kind =>
    let (tracker, ticket) := c.tracker.start now kind
    ⟨tracker, c.tickets ++ [ticket]⟩
  | .finish now n =>
    match c.tickets[n]? with
    | none => c
    | some ticket => { c with tracker := (c.tracker.finish now ticket).1 }

end Course

namespace Tracker

def course (t : Tracker) (history : List Event) : Course := history.foldl Course.after ⟨t, []⟩

def run (t : Tracker) (history : List Event) : Tracker := (t.course history).tracker

theorem course_concat (t : Tracker) (history : List Event) (e : Event) :
    t.course (history ++ [e]) = (t.course history).after e := List.foldl_append ..

/-- The operation is over and its duration recorded. -/
def record (t : Tracker) (now : Instant) (ticket : Ticket) : Tracker :=
  { t with
    inFlight := t.inFlight.erase ticket.id
    samples := t.samples.insert ticket.kind
      ((t.samples.getD ticket.kind .empty).add t.settings.capacity (now - ticket.started)) }

/-- The end of an operation is recorded, and a dump taken if it was slow, there is room, and enough
others are slow. -/
theorem finish_eq (t : Tracker) (now : Instant) (ticket : Ticket) :
    (t.finish now ticket).1 = { t.record now ticket with
      dumps := t.dumps ++
        if t.settings.slow ≤ now - ticket.started ∧ t.dumps.length < t.settings.maxDumps ∧
            t.settings.threshold ≤ ((t.record now ticket).slowOverlaps now).length then
          [⟨ticket.kind, now - ticket.started, (t.record now ticket).slowOverlaps now,
            (t.record now ticket).allStats⟩]
        else [] } := by
  unfold finish
  dsimp only
  split
  · next h =>
    simp only [Bool.or_eq_true, decide_eq_true_eq] at h
    rw [if_neg, List.append_nil]
    · rfl
    · rintro ⟨hslow, hroom, henough⟩
      rcases h with (h | h) | h
      · exact Nat.not_le_of_lt h hslow
      · exact Nat.not_le_of_lt hroom h
      · exact Nat.not_le_of_lt h henough
  · next h =>
    simp only [Bool.or_eq_true, decide_eq_true_eq, not_or, Nat.not_lt, Nat.not_le] at h
    rw [if_pos ⟨h.1.1, h.1.2, h.2⟩]
    rfl

end Tracker

/-- What is kept of operations of one kind, if there have been any. -/
def kept? (capacity : Nat) (ds : List Duration) : Option Samples :=
  if ds = [] then none else some (.ofDurations capacity ds)

theorem getD_kept? (capacity : Nat) (ds : List Duration) :
    (kept? capacity ds).getD .empty = .ofDurations capacity ds := by
  unfold kept?
  split
  · next h => rw [h]; rfl
  · rfl

theorem kept?_concat (capacity : Nat) (ds : List Duration) (d : Duration) :
    kept? capacity (ds ++ [d]) = some ((Samples.ofDurations capacity ds).add capacity d) := by
  rw [kept?, if_neg (by simp), Samples.ofDurations_concat]

/-- The books of the tracker are those of the history. -/
structure Matches (c : Course) (settings : Settings) (history : List Event) : Prop where
  tickets : c.tickets = operations history
  under : c.tracker.settings = settings
  nextTicket : c.tracker.nextTicket = (operations history).length
  inFlight : c.tracker.inFlight.entries = (underWay history).map fun x => (x.id, x)
  samples : ∀ kind,
    c.tracker.samples.get? kind = kept? settings.capacity (durations kind history)

section Matches

variable {c : Course} {settings : Settings} {history : List Event}

theorem matches_fresh (settings : Settings) : Matches ⟨.fresh settings, []⟩ settings [] :=
  ⟨rfl, rfl, rfl, rfl, fun _ => rfl⟩

theorem Matches.start (h : Matches c settings history) (now : Instant) (kind : OpKind) :
    Matches (c.after (.start now kind)) settings (history ++ [.start now kind]) where
  tickets := by
    rw [operations_concat, enroll, ← h.nextTicket, ← h.tickets]
    rfl
  under := h.under
  nextTicket := by
    rw [operations_concat, enroll, List.length_append, List.length_singleton, ← h.nextTicket]
    rfl
  inFlight := by
    rw [underWay_start, List.map_append, ← h.inFlight, ← h.nextTicket]
    refine SortedMap.entries_insert_of_forall_lt fun e he => ?_
    rw [h.inFlight] at he
    obtain ⟨x, hx, rfl⟩ := List.mem_map.1 he
    refine Nat.compare_eq_lt.2 ?_
    rw [h.nextTicket]
    exact id_lt_of_mem (List.mem_filter.1 hx).1
  samples k := by
    rw [durations_concat]
    exact (h.samples k).trans (congrArg _ (List.append_nil _).symm)

/-- What the tracker has left in flight when an operation ends. -/
theorem Matches.inFlight_erase (h : Matches c settings history) {n : Nat} {op : Ticket}
    (hop : (operations history)[n]? = some op) (now : Instant) :
    (c.tracker.inFlight.erase op.id).entries =
      (underWay (history ++ [.finish now n])).map fun x => (x.id, x) := by
  show c.tracker.inFlight.entries.filter (fun e => compare op.id e.1 ≠ .eq) = _
  rw [underWay_finish hop, h.inFlight, List.filter_map]
  refine congrArg _ (List.filter_congr fun x _ => ?_)
  simp only [Function.comp_apply, ne_eq, Nat.compare_eq_eq, decide_eq_decide, not_iff_not]
  exact eq_comm

theorem Matches.samples_record (h : Matches c settings history) {n : Nat} {op : Ticket}
    (hop : (operations history)[n]? = some op) (now : Instant) (kind : OpKind) :
    (c.tracker.record now op).samples.get? kind =
      kept? settings.capacity (durations kind (history ++ [.finish now n])) := by
  rw [durations_concat, end?_finish, hop]
  refine (SortedMap.get?_insert ..).trans ?_
  split
  · next hkind =>
    rw [SortedMap.getD, h.samples, getD_kept?, h.under, hkind, Option.map_some,
      Option.toList_some, List.filter_singleton, decide_eq_true rfl]
    exact (kept?_concat ..).symm
  · next hkind =>
    rw [h.samples, Option.map_some, Option.toList_some, List.filter_singleton,
      decide_eq_false (Ne.symm hkind)]
    exact congrArg _ (List.append_nil _).symm

theorem Matches.finish (h : Matches c settings history) (now : Instant) (n : Nat) :
    Matches (c.after (.finish now n)) settings (history ++ [.finish now n]) := by
  have hops : operations (history ++ [.finish now n]) = operations history :=
    operations_concat ..
  unfold Course.after
  dsimp only
  cases hop : c.tickets[n]? with
  | none =>
    rw [h.tickets] at hop
    have hnone : end? history (.finish now n) = none := by rw [end?_finish, hop]; rfl
    exact ⟨h.tickets.trans hops.symm, h.under, hops ▸ h.nextTicket,
      by rw [underWay, ended, ends_concat_of_none hnone, hops]; exact h.inFlight,
      fun kind => by rw [durations, ends_concat_of_none hnone]; exact h.samples kind⟩
  | some op =>
    rw [h.tickets] at hop
    dsimp only
    rw [Tracker.finish_eq]
    exact ⟨h.tickets.trans hops.symm, h.under, hops ▸ h.nextTicket,
      h.inFlight_erase hop now, h.samples_record hop now⟩

theorem matches_course (settings : Settings) (history : List Event) :
    Matches ((Tracker.fresh settings).course history) settings history := by
  induction history using List.reverseRecOn with
  | nil => exact matches_fresh settings
  | append_singleton history e ih =>
    rw [Tracker.course_concat]
    cases e with
    | start now kind => exact ih.start now kind
    | finish now n => exact ih.finish now n

/-- As many operations are in flight as have started and not ended. -/
theorem size_inFlight_run (settings : Settings) (history : List Event) :
    ((Tracker.fresh settings).run history).inFlight.size = (underWay history).length := by
  rw [SortedMap.size, Tracker.run, (matches_course settings history).inFlight, List.length_map]

end Matches

/-- **The statistics of a kind.** Operations of all kinds may start and end in any order. What the
tracker tells of one kind is what there is to tell of the durations of its operations, of which
there has to be one at least. -/
theorem stats_of_durations {settings : Settings} (hcapacity : 0 < settings.capacity)
    {history : List Event} {kind : OpKind} {ds : List Duration} (hds : durations kind history = ds)
    (hne : ds ≠ []) (hsum : ds.sum < 2 ^ 64) :
    ∃ samples, ((Tracker.fresh settings).run history).samples.get? kind = some samples ∧
      ((Tracker.fresh settings).run history).stats? kind = some samples.stats ∧
      samples.Summarizes settings.capacity ds := by
  subst hds
  have hsamples := (matches_course settings history).samples kind
  rw [kept?, if_neg hne] at hsamples
  refine ⟨_, hsamples, ?_, Samples.summarizes_ofDurations hcapacity hne hsum⟩
  rw [Tracker.stats?, Tracker.run, hsamples, Option.map_some]

/-- Four reads, of which the window keeps three, while a write is under way all the time. -/
def sliding : List Event :=
  [.start 0 .put, .start 0 .get, .finish 50 1, .start 50 .get, .finish 51 2, .start 51 .get,
    .finish 53 3, .start 53 .get, .finish 56 4]

theorem stats_of_durations_sliding :
    0 < (⟨8, 100, 5, 3⟩ : Settings).capacity ∧ durations .get sliding = [50, 1, 2, 3] ∧
      [50, 1, 2, 3] ≠ ([] : List Duration) ∧ ([50, 1, 2, 3] : List Duration).sum < 2 ^ 64 ∧
      ∃ samples : Samples,
        ((Tracker.fresh ⟨8, 100, 5, 3⟩).run sliding).stats? .get = some samples.stats ∧
        samples.Summarizes 3 [50, 1, 2, 3] ∧ samples.window = [1, 2, 3] := by
  have hcapacity : 0 < (⟨8, 100, 5, 3⟩ : Settings).capacity := by decide
  have hds : durations .get sliding = [50, 1, 2, 3] := by decide
  have hne : [50, 1, 2, 3] ≠ ([] : List Duration) := by decide
  have hsum : ([50, 1, 2, 3] : List Duration).sum < 2 ^ 64 := by decide
  obtain ⟨samples, hsamples, hstats, htold⟩ := stats_of_durations hcapacity hds hne hsum
  refine ⟨hcapacity, hds, hne, hsum, samples, hstats, htold, ?_⟩
  have hkept : ((Tracker.fresh ⟨8, 100, 5, 3⟩).run sliding).samples.get? .get =
      some (Samples.ofDurations 3 [50, 1, 2, 3]) := by decide
  rw [Option.some.inj (hsamples.symm.trans hkept)]
  decide

end Latency
end WalStore
