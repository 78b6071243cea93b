import Mathlib.Data.List.Forall2
import WalStore.Proofs.Latency.History

/-!
# Dumps and the history

In a history in which time does not run backwards, an operation that ends was in contention if it
was slow and enough others were under way that had been slow already (`End.Contended`).

**Theorem (`dumps_of_history`).** The dumps of a tracker tell, one by one, of the first such ends
that there is room for. Each lists just those others, longest first, and the statistics of all kinds
with this end in them.

The tracker compares how long operations have taken, the history when they started. The two agree
since nothing that has started starts in the future (`started_le`).
-/

namespace WalStore.Latency

/-! ## Contention in a history -/

/-- No event is earlier than one before it. -/
def Ordered (history : List Event) : Prop := history.Pairwise fun e e' => e.now ≤ e'.now

namespace End

/-- The other operations that have not ended when this one does and have been slow already. -/
def overlapping (settings : Settings) (e : End) : List Ticket :=
  (underWay e.before).filter fun op => op.id ≠ e.op.id ∧ op.started + settings.slow ≤ e.now

/-- The operation was slow, and enough others overlap it. -/
def Contended (settings : Settings) (e : End) : Prop :=
  e.op.started + settings.slow ≤ e.now ∧ settings.threshold ≤ (e.overlapping settings).length

instance (settings : Settings) (e : End) : Decidable (e.Contended settings) :=
  inferInstanceAs (Decidable (_ ∧ _))

end End

/-- The ends of operations in contention, in their order. -/
def contentions (settings : Settings) (history : List Event) : List End :=
  (ends [] history).filter (·.Contended settings)

/-- The dump tells of this end. -/
structure Describes (settings : Settings) (e : End) (d : Dump) : Prop where
  trigger : d.trigger = e.op.kind
  duration : e.op.started + d.duration = e.now
  overlapping : d.overlapping.Perm
    ((e.overlapping settings).map fun op => ⟨op.kind, e.now - op.started⟩)
  longest_first : d.overlapping.Pairwise fun a b => b.elapsed ≤ a.elapsed
  /-- The kinds of which operations have ended, with their statistics. -/
  stats : ∀ kind s, (kind, s) ∈ d.stats ↔ durations kind e.through ≠ [] ∧
    s = (Samples.ofDurations settings.capacity (durations kind e.through)).stats
  kinds : d.stats.Pairwise fun a b => a.1.rank < b.1.rank
  /-- This end is in the statistics. -/
  included : ∃ earlier, durations e.op.kind e.through = earlier ++ [d.duration]

section History

variable {settings : Settings} {history : List Event} {now : Instant} {n : Nat} {op : Ticket}

theorem start_mem_of_mem (h : op ∈ operations history) :
    Event.start op.started op.kind ∈ history := by
  induction history using List.reverseRecOn with
  | nil => cases h
  | append_singleton history e ih =>
    rw [operations_concat] at h
    cases e with
    | start now kind =>
      rcases List.mem_append.1 h with h | h
      · exact List.mem_append_left _ (ih h)
      · rw [List.mem_singleton.1 h]
        exact List.mem_append_right _ List.mem_cons_self
    | finish => exact List.mem_append_left _ (ih h)

/-- What has started did so before anything that happens next. -/
theorem started_le {e : Event} (hordered : Ordered (history ++ [e]))
    (hop : op ∈ operations history) : op.started ≤ e.now :=
  (List.pairwise_append.1 hordered).2.2 _ (start_mem_of_mem hop) e List.mem_cons_self

theorem contentions_concat (settings : Settings) (history : List Event) (e : Event) :
    contentions settings (history ++ [e]) =
      contentions settings history ++
        (end? history e).toList.filter (·.Contended settings) := by
  rw [contentions, ends_concat, List.filter_append, List.nil_append, contentions]

/-- The end of an operation in a history is the last in the durations of its kind. -/
theorem durations_finish (hop : (operations history)[n]? = some op) (now : Instant) :
    durations op.kind (history ++ [.finish now n]) =
      durations op.kind history ++ [now - op.started] := by
  rw [durations_concat, end?_finish, hop, Option.map_some, Option.toList_some,
    List.filter_singleton, decide_eq_true rfl]
  rfl

end History

/-! ## What the tracker finds -/

/-- The order in which a dump lists what overlaps. -/
def Overlap.le (a b : Overlap) : Bool :=
  b.elapsed < a.elapsed || (a.elapsed = b.elapsed && a.kind.rank ≤ b.kind.rank)

theorem Overlap.le_iff {a b : Overlap} : a.le b = true ↔
    b.elapsed < a.elapsed ∨ a.elapsed = b.elapsed ∧ a.kind.rank ≤ b.kind.rank := by
  simp only [le, Bool.or_eq_true, Bool.and_eq_true, decide_eq_true_eq]

theorem Overlap.pairwise_mergeSort (l : List Overlap) :
    (l.mergeSort Overlap.le).Pairwise fun a b => b.elapsed ≤ a.elapsed := by
  have htrans (a b c : Overlap) (hab : a.le b = true) (hbc : b.le c = true) : a.le c = true := by
    rw [le_iff] at hab hbc ⊢
    rcases hab with hab | ⟨hab, hrank⟩ <;> rcases hbc with hbc | ⟨hbc, hrank'⟩
    · exact .inl (hbc.trans hab)
    · exact .inl (hbc ▸ hab)
    · exact .inl (hab ▸ hbc)
    · exact .inr ⟨hab.trans hbc, hrank.trans hrank'⟩
  have htotal (a b : Overlap) : (a.le b || b.le a) = true := by
    rw [Bool.or_eq_true, le_iff, le_iff]
    rcases Nat.lt_trichotomy a.elapsed b.elapsed with hlt | heq | hlt
    · exact .inr (.inl hlt)
    · exact (Nat.le_total a.kind.rank b.kind.rank).imp (.inr ⟨heq, ·⟩) (.inr ⟨heq.symm, ·⟩)
    · exact .inl (.inl hlt)
  refine (List.pairwise_mergeSort htrans htotal l).imp fun {a b} hab => ?_
  exact (le_iff.1 hab).elim Nat.le_of_lt fun h => Nat.le_of_eq h.1.symm

section Tracker

variable {c : Course} {settings : Settings} {history : List Event} {now : Instant} {n : Nat}
  {op : Ticket}

/-- When an operation has ended, the tracker finds what overlaps it. -/
theorem Matches.slowOverlaps (h : Matches c settings history)
    (hop : (operations history)[n]? = some op)
    (hordered : Ordered (history ++ [.finish now n])) :
    ((c.tracker.record now op).slowOverlaps now).Perm
        (((End.mk history op now).overlapping settings).map fun x => ⟨x.kind, now - x.started⟩) ∧
      ((c.tracker.record now op).slowOverlaps now).Pairwise fun a b => b.elapsed ≤ a.elapsed := by
  refine ⟨(List.mergeSort_perm ..).trans (List.Perm.of_eq ?_), Overlap.pairwise_mergeSort _⟩
  have hvalues : (c.tracker.record now op).inFlight.values =
      (underWay history).filter (·.id ≠ op.id) := by
    rw [SortedMap.values, Tracker.record, h.inFlight_erase hop now, underWay_finish hop,
      List.map_map]
    exact List.map_id _
  rw [hvalues, List.filter_map, List.filter_filter, End.overlapping]
  refine congrArg _ (List.filter_congr fun x hx => ?_)
  have hstarted := started_le hordered (List.mem_filter.1 hx).1
  rw [Function.comp_apply, ← Bool.decide_and, decide_eq_decide, and_comm]
  have hunder : (c.tracker.record now op).settings = settings := h.under
  rw [hunder]
  exact and_congr_right fun _ => Nat.le_sub_iff_add_le' hstarted

/-- The statistics that are told when an operation has ended. -/
theorem Matches.mem_allStats (h : Matches c settings history)
    (hop : (operations history)[n]? = some op) (now : Instant) (kind : OpKind) (s : Stats) :
    (kind, s) ∈ (c.tracker.record now op).allStats ↔
      durations kind (history ++ [.finish now n]) ≠ [] ∧
        s = (Samples.ofDurations settings.capacity
          (durations kind (history ++ [.finish now n]))).stats := by
  have hmem (samples : Samples) : (kind, samples) ∈ (c.tracker.record now op).samples.entries ↔
      kept? settings.capacity (durations kind (history ++ [.finish now n])) = some samples := by
    rw [← SortedMap.get?_eq_some_iff, h.samples_record hop now kind]
  rw [Tracker.allStats, List.mem_map]
  constructor
  · rintro ⟨⟨kind', samples⟩, hin, heq⟩
    obtain ⟨rfl, rfl⟩ := Prod.mk.inj heq
    have hkept := (hmem samples).1 hin
    unfold kept? at hkept
    split at hkept
    · cases hkept
    · next hne => exact ⟨hne, by rw [← Option.some.inj hkept]⟩
  · rintro ⟨hne, rfl⟩
    exact ⟨(kind, _), (hmem _).2 (if_neg hne), rfl⟩

theorem Tracker.pairwise_allStats (t : Tracker) :
    t.allStats.Pairwise fun a b => a.1.rank < b.1.rank :=
  List.pairwise_map.2 (t.samples.sorted.imp fun hlt => Nat.compare_eq_lt.1 hlt)

/-- What the tracker writes down when an operation has ended describes this end. -/
theorem Matches.describes (h : Matches c settings history)
    (hop : (operations history)[n]? = some op)
    (hordered : Ordered (history ++ [.finish now n])) :
    Describes settings ⟨history, op, now⟩
      ⟨op.kind, now - op.started, (c.tracker.record now op).slowOverlaps now,
        (c.tracker.record now op).allStats⟩ := by
  obtain ⟨hperm, hlongest⟩ := h.slowOverlaps hop hordered
  have hthrough : (End.mk history op now).through = history ++ [.finish now n] := by
    rw [End.through, id_of_getElem? hop]
  exact {
    trigger := rfl
    duration := Nat.add_sub_cancel' (started_le hordered (List.mem_of_getElem? hop))
    overlapping := hperm
    longest_first := hlongest
    stats := by
      rw [hthrough]
      exact h.mem_allStats hop now
    kinds := Tracker.pairwise_allStats _
    included := ⟨_, hthrough ▸ durations_finish hop now⟩ }

/-- The end of an operation in contention leaves a dump if there is room for one, and no other end
does. -/
theorem Matches.dumps_finish (h : Matches c settings history)
    (hop : (operations history)[n]? = some op)
    (hordered : Ordered (history ++ [.finish now n])) :
    (c.tracker.finish now op).1.dumps = c.tracker.dumps ++
      if (End.mk history op now).Contended settings ∧
          c.tracker.dumps.length < settings.maxDumps then
        [⟨op.kind, now - op.started, (c.tracker.record now op).slowOverlaps now,
          (c.tracker.record now op).allStats⟩]
      else [] := by
  have hstarted : op.started ≤ now := started_le hordered (List.mem_of_getElem? hop)
  rw [Tracker.finish_eq]
  refine congrArg _ (if_congr ?_ rfl rfl)
  rw [(h.slowOverlaps hop hordered).1.length_eq, List.length_map, h.under, End.Contended,
    Nat.le_sub_iff_add_le' hstarted, and_assoc, and_comm (a := _ < settings.maxDumps)]

end Tracker

/-! ## Dumps that there is room for -/

section Take

variable {α β : Type} {R : α → β → Prop} {l : List α} {ds : List β} {cap : Nat}

/-- One more is taken in as long as there is room. -/
theorem forall₂_take_concat (h : List.Forall₂ R (l.take cap) ds) {a : α} {b : β} (hab : R a b) :
    List.Forall₂ R ((l ++ [a]).take cap) (ds ++ if ds.length < cap then [b] else []) := by
  have hlength := h.length_eq
  rw [List.length_take] at hlength
  split
  · next hroom =>
    rw [List.take_of_length_le (by omega)] at h
    rw [List.take_of_length_le (by rw [List.length_append, List.length_singleton]; omega)]
    exact List.rel_append h (.cons hab .nil)
  · next hfull =>
    rw [List.take_append_of_le_length (by omega), List.append_nil]
    exact h

end Take

/-- One event more keeps the dumps in step with the history. -/
theorem Matches.dumps_after {c : Course} {settings : Settings} {history : List Event} {e : Event}
    (h : Matches c settings history) (hordered : Ordered (history ++ [e]))
    (hdumps : List.Forall₂ (Describes settings)
      ((contentions settings history).take settings.maxDumps) c.tracker.dumps) :
    List.Forall₂ (Describes settings)
      ((contentions settings (history ++ [e])).take settings.maxDumps)
      (c.after e).tracker.dumps := by
  rw [contentions_concat]
  -- What ends no operation neither is contention nor changes the dumps.
  have hquiet : List.Forall₂ (Describes settings)
      ((contentions settings history ++ []).take settings.maxDumps) c.tracker.dumps :=
    (List.append_nil _).symm ▸ hdumps
  cases e with
  | start now kind => exact hquiet
  | finish now n =>
    unfold Course.after
    dsimp only
    rw [h.tickets, end?_finish]
    cases hop : (operations history)[n]? with
    | none => exact hquiet
    | some op =>
      rw [Option.map_some, Option.toList_some, List.filter_singleton]
      dsimp only
      rw [h.dumps_finish hop hordered]
      by_cases hends : (End.mk history op now).Contended settings
      · rw [decide_eq_true hends, if_congr (and_iff_right hends) rfl rfl]
        exact forall₂_take_concat hdumps (h.describes hop hordered)
      · rw [decide_eq_false hends, if_neg fun h => hends h.1, List.append_nil]
        exact hquiet

theorem forall₂_describes_dumps (settings : Settings) {history : List Event}
    (hordered : Ordered history) :
    List.Forall₂ (Describes settings) ((contentions settings history).take settings.maxDumps)
      ((Tracker.fresh settings).run history).dumps := by
  induction history using List.reverseRecOn with
  | nil =>
    rw [contentions, ends, List.filter_nil, List.take_nil]
    exact .nil
  | append_singleton history e ih =>
    rw [Tracker.run, Tracker.course_concat]
    exact (matches_course settings history).dumps_after hordered
      (ih (List.pairwise_append.1 hordered).1)

/-- **Dumps match the history.** A tracker under valid settings is told of operations that start and
end, in any order, as time goes on. Its dumps tell of the first ends in contention, as many as the
settings allow, and as many operations are in flight as have started and not ended. -/
theorem dumps_of_history {settings : Settings} (hvalid : settings.validate = .ok ()) :
    ∃ t, Tracker.ofSettings settings = .ok t ∧ ∀ history, Ordered history →
      List.Forall₂ (Describes settings) ((contentions settings history).take settings.maxDumps)
        (t.run history).dumps ∧
      (t.run history).inFlight.size = (underWay history).length := by
  refine ⟨.fresh settings, ?_, fun history hordered =>
    ⟨forall₂_describes_dumps settings hordered, size_inFlight_run settings history⟩⟩
  rw [Tracker.ofSettings, hvalid]
  rfl

/-- Two operations end in contention with a wait that is still under way, the second of them at a
time when there is room for no other dump. -/
def crowded : List Event :=
  [.start 0 .lockWait, .start 5 .get, .start 14 .put, .finish 20 1, .finish 25 2, .finish 30 0]

theorem dumps_of_history_crowded :
    (⟨1, 10, 1, 4⟩ : Settings).validate = .ok () ∧ Ordered crowded ∧
      (contentions ⟨1, 10, 1, 4⟩ crowded).map (·.op) = [⟨1, .get, 5⟩, ⟨2, .put, 14⟩] ∧
      ∃ t, Tracker.ofSettings ⟨1, 10, 1, 4⟩ = .ok t ∧
        (∃ d, (t.run crowded).dumps = [d] ∧
          Describes ⟨1, 10, 1, 4⟩ ⟨crowded.take 3, ⟨1, .get, 5⟩, 20⟩ d ∧
          d.overlapping.Perm [⟨.lockWait, 20⟩]) ∧
        (t.run crowded).inFlight.size = 0 := by
  have hvalid : (⟨1, 10, 1, 4⟩ : Settings).validate = .ok () := rfl
  have hordered : Ordered crowded := by
    unfold Ordered
    decide
  refine ⟨hvalid, hordered, by decide, ?_⟩
  obtain ⟨t, ht, hhistory⟩ := dumps_of_history hvalid
  obtain ⟨hdumps, hsize⟩ := hhistory crowded hordered
  refine ⟨t, ht, ?_, hsize⟩
  have hfirst : (contentions ⟨1, 10, 1, 4⟩ crowded).take 1 =
      [⟨crowded.take 3, ⟨1, .get, 5⟩, 20⟩] := rfl
  rw [hfirst] at hdumps
  generalize (t.run crowded).dumps = dumps at hdumps
  cases hdumps with
  | cons hdescribes hrest =>
    cases hrest
    exact ⟨_, rfl, hdescribes, hdescribes.overlapping⟩

end WalStore.Latency
