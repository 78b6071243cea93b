import Mathlib.Algebra.Order.BigOperators.Group.List
import Mathlib.Algebra.Order.Ring.Nat
import Mathlib.Data.List.Induction
import Mathlib.Data.List.Sort
import WalStore.Latency

/-!
# What the samples of one kind tell

**Theorem (`summarizes_ofDurations`).** The samples that a sequence of durations leaves tell its
length and sum, its extremes, the exact mean, and percentiles of the latest durations. All of these
lie between the extremes, and the percentiles ascend.

Count, sum and extremes are kept for the whole sequence, the percentiles are taken from a window. So
what the samples hold is first said for the whole sequence, one duration more at a time; that the
window is a part of the sequence then puts the percentiles between the extremes.
-/

namespace WalStore.Latency.Samples

/-- What is kept of operations that have taken so long, the oldest first. -/
def ofDurations (capacity : Nat) (ds : List Duration) : Samples :=
  ds.foldl (·.add capacity ·) .empty

variable {capacity : Nat} {ds : List Duration}

theorem ofDurations_concat (capacity : Nat) (ds : List Duration) (d : Duration) :
    ofDurations capacity (ds ++ [d]) = (ofDurations capacity ds).add capacity d :=
  List.foldl_append ..

/-! ## The whole sequence -/

theorem count_ofDurations (capacity : Nat) (ds : List Duration) :
    (ofDurations capacity ds).count = ds.length := by
  induction ds using List.reverseRecOn with
  | nil => rfl
  | append_singleton ds d ih =>
    rw [ofDurations_concat, add, ih, List.length_append, List.length_singleton]

theorem total_ofDurations (capacity : Nat) (ds : List Duration) :
    (ofDurations capacity ds).total = ds.sum := by
  induction ds using List.reverseRecOn with
  | nil => rfl
  | append_singleton ds d ih =>
    rw [ofDurations_concat, add, ih, List.sum_append, List.sum_singleton]

theorem greatest_ofDurations (capacity : Nat) (hne : ds ≠ []) :
    (ofDurations capacity ds).greatest ∈ ds ∧
      ∀ d ∈ ds, d ≤ (ofDurations capacity ds).greatest := by
  induction ds using List.reverseRecOn with
  | nil => exact absurd rfl hne
  | append_singleton ds d ih =>
    rw [ofDurations_concat, add]
    dsimp only
    rcases eq_or_ne ds [] with rfl | hds
    · simp [ofDurations, empty]
    · obtain ⟨hmem, hle⟩ := ih hds
      refine ⟨?_, fun e he => ?_⟩
      · rcases max_choice (ofDurations capacity ds).greatest d with h | h <;> simp [h, hmem]
      · rcases List.mem_append.1 he with he | he
        · exact (hle e he).trans (Nat.le_max_left ..)
        · exact (List.mem_singleton.1 he).le.trans (Nat.le_max_right ..)

theorem least_ofDurations (capacity : Nat) (hne : ds ≠ []) :
    (ofDurations capacity ds).least ∈ ds ∧ ∀ d ∈ ds, (ofDurations capacity ds).least ≤ d := by
  induction ds using List.reverseRecOn with
  | nil => exact absurd rfl hne
  | append_singleton ds d ih =>
    rw [ofDurations_concat, add, count_ofDurations]
    dsimp only
    -- The first duration is the least so far, whatever stands there before.
    rcases eq_or_ne ds [] with rfl | hds
    · simp
    · rw [if_neg fun h => hds (List.length_eq_zero_iff.1 h)]
      obtain ⟨hmem, hle⟩ := ih hds
      refine ⟨?_, fun e he => ?_⟩
      · rcases min_choice (ofDurations capacity ds).least d with h | h <;> simp [h, hmem]
      · rcases List.mem_append.1 he with he | he
        · exact (Nat.min_le_left ..).trans (hle e he)
        · exact (Nat.min_le_right ..).trans (List.mem_singleton.1 he).ge

/-- The mean of durations lies between their bounds. -/
theorem div_length_mem_bounds {lo hi : Duration} (hne : ds ≠ []) (hlo : ∀ d ∈ ds, lo ≤ d)
    (hhi : ∀ d ∈ ds, d ≤ hi) : lo ≤ ds.sum / ds.length ∧ ds.sum / ds.length ≤ hi := by
  have hpos : 0 < ds.length := List.length_pos_iff.2 hne
  have hleast : ds.length * lo ≤ ds.sum := List.card_nsmul_le_sum ds lo hlo
  have hmost : ds.sum ≤ ds.length * hi := List.sum_le_card_nsmul ds hi hhi
  refine ⟨?_, Nat.div_le_of_le_mul hmost⟩
  rw [Nat.le_div_iff_mul_le hpos, Nat.mul_comm]
  exact hleast

/-! ## The window -/

theorem latest_suffix (capacity : Nat) (ds : List Duration) : latest capacity ds <:+ ds :=
  List.drop_suffix ..

theorem length_latest (capacity : Nat) (ds : List Duration) :
    (latest capacity ds).length = min ds.length capacity := by
  rw [latest, List.length_drop]
  omega

/-- Of a window and one duration more, the latest are those of all durations. -/
theorem latest_concat (capacity : Nat) (ds : List Duration) (d : Duration) :
    latest capacity (latest capacity ds ++ [d]) = latest capacity (ds ++ [d]) := by
  simp only [latest, List.length_append, List.length_drop, List.length_singleton,
    List.drop_append, List.drop_drop]
  congr 2 <;> omega

theorem window_ofDurations (capacity : Nat) (ds : List Duration) :
    (ofDurations capacity ds).window = latest capacity ds := by
  induction ds using List.reverseRecOn with
  | nil => exact List.drop_nil.symm
  | append_singleton ds d ih => rw [ofDurations_concat, add, ih, latest_concat]

/-! ## Percentiles -/

/-- The share of a list that is not empty is a place in it. -/
theorem share_lt_length {sorted : List Duration} {share : Nat} (hne : sorted ≠ [])
    (hshare : share < 1000) : sorted.length * share / 1000 < sorted.length := by
  have hpos : 0 < sorted.length := List.length_pos_iff.2 hne
  rw [Nat.div_lt_iff_lt_mul (by decide)]
  exact Nat.mul_lt_mul_of_pos_left hshare hpos

theorem getElem?_eq_perMille {sorted : List Duration} {share : Nat} (hne : sorted ≠ [])
    (hshare : share < 1000) :
    sorted[sorted.length * share / 1000]? = some (perMille sorted share) := by
  have hlt := share_lt_length hne hshare
  rw [perMille, Nat.min_eq_left (Nat.le_sub_one_of_lt hlt), List.getD_eq_getElem?_getD,
    List.getElem?_eq_getElem hlt, Option.getD_some]

theorem perMille_mem {sorted : List Duration} {share : Nat} (hne : sorted ≠ [])
    (hshare : share < 1000) : perMille sorted share ∈ sorted :=
  List.mem_of_getElem? (getElem?_eq_perMille hne hshare)

theorem perMille_le_perMille {sorted : List Duration} (hsorted : sorted.Pairwise (· ≤ ·))
    {share share' : Nat} (hle : share ≤ share') (hne : sorted ≠ []) (hshare : share' < 1000) :
    perMille sorted share ≤ perMille sorted share' := by
  have hfirst := getElem?_eq_perMille hne (hle.trans_lt hshare)
  have hsecond := getElem?_eq_perMille hne hshare
  rw [List.getElem?_eq_some_iff] at hfirst hsecond
  obtain ⟨hlt, hfirst⟩ := hfirst
  obtain ⟨hlt', hsecond⟩ := hsecond
  have hplaces : sorted.length * share / 1000 ≤ sorted.length * share' / 1000 :=
    Nat.div_le_div_right (Nat.mul_le_mul_left _ hle)
  rw [← hfirst, ← hsecond]
  rcases hplaces.eq_or_lt with heq | hlt''
  · simp only [heq, le_refl]
  · exact List.pairwise_iff_getElem.1 hsorted _ _ hlt hlt' hlt''

/-! ## All figures -/

/-- The samples tell what there is to tell of the durations `ds`, oldest first. -/
structure Summarizes (capacity : Nat) (ds : List Duration) (s : Samples) : Prop where
  count : s.stats.count = ds.length
  total : s.stats.total = ds.sum
  least : s.stats.least ∈ ds ∧ ∀ d ∈ ds, s.stats.least ≤ d
  greatest : s.stats.greatest ∈ ds ∧ ∀ d ∈ ds, d ≤ s.stats.greatest
  mean : s.stats.mean = ds.sum / ds.length
  /-- The window has the latest durations, and as many as there is room for. -/
  window : s.window <:+ ds ∧ s.window.length = min ds.length capacity
  /-- Each percentile is the element of the sorted window that its share stands in front of. -/
  percentiles : ∃ sorted : List Duration, sorted.Perm s.window ∧ sorted.Pairwise (· ≤ ·) ∧
    sorted[s.window.length * 500 / 1000]? = some s.stats.p50 ∧
    sorted[s.window.length * 950 / 1000]? = some s.stats.p95 ∧
    sorted[s.window.length * 990 / 1000]? = some s.stats.p99
  mean_between : s.stats.least ≤ s.stats.mean ∧ s.stats.mean ≤ s.stats.greatest
  ascending : s.stats.least ≤ s.stats.p50 ∧ s.stats.p50 ≤ s.stats.p95 ∧
    s.stats.p95 ≤ s.stats.p99 ∧ s.stats.p99 ≤ s.stats.greatest

theorem mean_ofDurations (capacity : Nat) (hne : ds ≠ []) (hsum : ds.sum < UInt64.size) :
    (ofDurations capacity ds).stats.mean = ds.sum / ds.length := by
  have hpos : 0 < ds.length := List.length_pos_iff.2 hne
  rw [stats, count_ofDurations, total_ofDurations, Nat.max_eq_left hpos]
  exact Nat.mod_eq_of_lt ((Nat.div_le_self ..).trans_lt hsum)

theorem summarizes_ofDurations (hcapacity : 0 < capacity) (hne : ds ≠ [])
    (hsum : ds.sum < UInt64.size) : Summarizes capacity ds (ofDurations capacity ds) := by
  have hleast := least_ofDurations capacity hne
  have hgreatest := greatest_ofDurations capacity hne
  have hmean := mean_ofDurations capacity hne hsum
  have hwindow := window_ofDurations capacity ds
  have hlength : (ofDurations capacity ds).window.length = min ds.length capacity :=
    hwindow ▸ length_latest capacity ds
  have hperm := List.mergeSort_perm (ofDurations capacity ds).window (· ≤ ·)
  have hsorted : (ofDurations capacity ds).window.mergeSort.Pairwise (· ≤ ·) :=
    List.pairwise_mergeSort' (· ≤ ·) _
  have hsize := hperm.length_eq
  have hnonempty : (ofDurations capacity ds).window.mergeSort ≠ [] := by
    rw [← List.length_pos_iff, hsize, hlength]
    exact Nat.lt_min.2 ⟨List.length_pos_iff.2 hne, hcapacity⟩
  -- Whatever stands in the sorted window is one of the durations.
  have hmem (share : Nat) (hshare : share < 1000) :
      perMille (ofDurations capacity ds).window.mergeSort share ∈ ds := by
    exact (hwindow ▸ latest_suffix capacity ds).mem
      (hperm.mem_iff.1 (perMille_mem hnonempty hshare))
  exact {
    count := count_ofDurations capacity ds
    total := total_ofDurations capacity ds
    least := hleast
    greatest := hgreatest
    mean := hmean
    window := ⟨hwindow ▸ latest_suffix capacity ds, hlength⟩
    percentiles := by
      refine ⟨_, hperm, hsorted, ?_, ?_, ?_⟩ <;> rw [← hsize]
      · exact getElem?_eq_perMille hnonempty (by decide)
      · exact getElem?_eq_perMille hnonempty (by decide)
      · exact getElem?_eq_perMille hnonempty (by decide)
    mean_between := hmean ▸ div_length_mem_bounds hne hleast.2 hgreatest.2
    ascending := ⟨hleast.2 _ (hmem 500 (by decide)),
      perMille_le_perMille hsorted (by decide) hnonempty (by decide),
      perMille_le_perMille hsorted (by decide) hnonempty (by decide),
      hgreatest.2 _ (hmem 990 (by decide))⟩ }

end WalStore.Latency.Samples
