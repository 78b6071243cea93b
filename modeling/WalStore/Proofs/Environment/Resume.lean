import WalStore.Proofs.Environment.Open
import WalStore.Proofs.Log.Run
import WalStore.Proofs.Replay.WellFormed

/-!
# Opening over a well-formed log

An environment that opens over a well-formed log adds the aborts of the transactions that the log
leaves open, or some of these if it fails on the way. The log is well formed after that too
(`Resumes`), and no record of it was a resolution without work (`openOn_resumes`).
-/

namespace WalStore

open Record (WellFormed Open Allows others endLsn)

/-- What is left of a store by a call that hands it back when it fails. -/
def Site.ofExcept {α : Type} (log : α → Log) : Except (Error × Store) α → Site
  | .ok a => .opened (log a)
  | .error (_, store) => .closed store

/-- A log leaves its store with what it holds. -/
theorem Log.Holds.closed {log : Log} {rs : List Record} (h : log.Holds rs) :
    (Site.closed log.store).Holds rs :=
  have hsite : (Site.opened log).Holds rs := h
  ⟨h.follow, hsite.bytes⟩

namespace Record

variable {rs rs' : List Record} {r : Record} {txn : TxnId}

theorem Open.allows_abort (h : Open rs txn) : Allows rs (.abort txn) := by
  intro t ht
  cases ht
  exact ⟨h.2, fun _ => h.1⟩

/-- `rs'` are the records `rs` with aborts of transactions that `rs` leaves open. -/
structure Resumes (rs rs' : List Record) : Prop where
  wellFormed : WellFormed rs'
  /-- No position is left out. -/
  dense : (endLsn .zero rs').toNat ≤ rs'.length
  aborts : ∃ aborts, rs' = rs ++ aborts ∧ ∀ r ∈ aborts, ∃ txn, r.entry = .abort txn ∧ Open rs txn

theorem Resumes.refl (hwell : WellFormed rs) (hdense : (endLsn .zero rs).toNat ≤ rs.length) :
    Resumes rs rs := ⟨hwell, hdense, [], by simp, nofun⟩

/-- One abort before the others. -/
theorem Resumes.cons (hallows : Allows rs (.abort txn)) (hopen : Open rs txn)
    (hentry : r.entry = .abort txn) (h : Resumes (rs ++ [r]) rs') : Resumes rs rs' := by
  obtain ⟨aborts, rfl, haborts⟩ := h.aborts
  refine ⟨h.wellFormed, h.dense, r :: aborts, by simp, fun x hx => ?_⟩
  rcases List.mem_cons.1 hx with rfl | hx
  · exact ⟨txn, hentry, hopen⟩
  · obtain ⟨t, ht, hopen'⟩ := haborts x hx
    rw [open_append_singleton (hentry ▸ hallows), hentry] at hopen'
    split at hopen'
    · cases hopen'
    · exact ⟨t, ht, hopen'⟩

/-- The aborts are of transactions that the log knows. -/
theorem Resumes.exists_txn (h : Resumes rs rs') (hr : r ∈ rs') (htxn : r.entry.txn? = some txn) :
    ∃ w ∈ rs, w.entry.txn? = some txn := by
  obtain ⟨aborts, rfl, haborts⟩ := h.aborts
  rcases List.mem_append.1 hr with hr | hr
  · exact ⟨r, hr, htxn⟩
  · obtain ⟨t, ht, ⟨w, hw, hwork⟩, -⟩ := haborts r hr
    rw [ht] at htxn
    cases htxn
    exact ⟨w, hw, Entry.txn?_of_work? hwork⟩

theorem dense_append_singleton (hdense : (endLsn .zero rs).toNat ≤ rs.length)
    (hlsn : r.lsn = (endLsn .zero rs).next) :
    (endLsn .zero (rs ++ [r])).toNat ≤ (rs ++ [r]).length := by
  rw [endLsn_append, endLsn, endLsn, hlsn, List.length_append, List.length_singleton]
  exact Nat.le_trans (Lsn.toNat_next_le _) (Nat.succ_le_succ hdense)

end Record

namespace Environment

open Record (Resumes)

theorem abortEach_resumes {log : Log} {state : Replay.State} {rs : List Record}
    {txns : List TxnId} (h : log.Holds rs) (hstate : Replay.state rs = .ok state)
    (hwell : WellFormed rs) (hdense : (endLsn .zero rs).toNat ≤ rs.length)
    (hopen : ∀ txn ∈ txns, Open rs txn) (hnodup : txns.Nodup)
    (hroom : (endLsn .zero rs).toNat + txns.length < UInt64.size) :
    ∃ rs', Resumes rs rs' ∧ (Site.ofExcept Prod.fst (abortEach log state txns)).Holds rs' := by
  induction txns generalizing log state rs with
  | nil => exact ⟨rs, .refl hwell hdense, h⟩
  | cons txn txns ih =>
    rw [List.length_cons] at hroom
    obtain ⟨htxn, hnodup⟩ := List.nodup_cons.1 hnodup
    have hopen₀ := hopen txn List.mem_cons_self
    unfold abortEach
    rcases happend : log.append (.abort txn) with ⟨log₁, e | lsn⟩
    · exact ⟨rs, .refl hwell hdense, (h.append_error happend).closed⟩
    obtain ⟨rfl, hholds⟩ := h.append_ok happend
    obtain ⟨hnext, state₁, happly, hstate₁, hend⟩ := exists_apply_abort h hstate txn (by omega)
    have hallows := hopen₀.allows_abort
    have hwell₁ : WellFormed (rs ++ [⟨log.nextLsn, .abort txn⟩]) :=
      Record.wellFormed_append_singleton.2 ⟨hwell, hallows⟩
    have hdense₁ := Record.dense_append_singleton (r := ⟨log.nextLsn, .abort txn⟩) hdense h.next
    obtain ⟨rs', hresumes, hholds'⟩ := ih (hholds hnext) hstate₁ hwell₁ hdense₁ (fun t ht => by
      rw [Record.open_append_singleton hallows, if_neg]
      · exact hopen t (List.mem_cons_of_mem txn ht)
      · rintro ⟨⟩
        exact htxn ht) hnodup (by omega)
    refine ⟨rs', hresumes.cons hallows hopen₀ rfl, ?_⟩
    dsimp only
    rw [happly]
    exact hholds'

theorem syncAborts_holds {log : Log} {rs : List Record} (h : log.Holds rs)
    (unresolved : List TxnId) : (Site.ofExcept id (syncAborts log unresolved)).Holds rs := by
  unfold syncAborts
  split
  · exact h
  · have hsynced : log.sync.1.Holds rs := h.synced (.inr rfl)
    split
    · next hsync =>
      rw [hsync] at hsynced
      exact hsynced
    · next hsync =>
      rw [hsync] at hsynced
      exact hsynced.closed

/-- Opening over a well-formed log, whatever comes of it. -/
theorem openOn_resumes (config : Config) {store : Store} (now : Instant) {rs : List Record}
    (h : (Site.closed store).Holds rs) (hwell : WellFormed rs)
    (hdense : (endLsn .zero rs).toNat ≤ rs.length)
    (hroom : 2 * (others rs).length < UInt64.size) :
    ∃ rs', Resumes rs rs' ∧ (Site.ofExcept Environment.log (openOn config store now)).Holds rs' ∧
      ∀ env, openOn config store now = .ok env → env.counters.unknownResolutions = 0 ∧
        ∃ s, Replay.state rs = .ok s ∧ env.nextTxn = Recovery.nextTxn ⟨s⟩ := by
  have hrefl := Resumes.refl hwell hdense
  unfold openOn
  cases config.validate with
  | error e =>
    simp only [Except.mapError, bind, Except.bind]
    exact ⟨rs, hrefl, h, by rintro env ⟨⟩⟩
  | ok =>
  simp only [Except.mapError, bind, Except.bind]
  have hlog := Site.Holds.ofStore h
  unfold Site.ofStore at hlog
  cases hopen : Log.openOn store with
  | error failure =>
    rw [show (Site.closed store).store = store from rfl, hopen] at hlog
    exact ⟨rs, hrefl, hlog, by rintro env ⟨⟩⟩
  | ok log =>
  rw [show (Site.closed store).store = store from rfl, hopen] at hlog
  have hholds : log.Holds rs := hlog
  obtain ⟨s, hstate, -⟩ := Replay.exists_state_of_follow hholds.follow
  have hreplayed := Replay.WellFormed.replayed hwell hstate
  have hrecover := recover_of_state hholds hstate
  have hlength : s.unresolved.length = s.pending.size := List.length_map ..
  have hroom' : (endLsn .zero rs).toNat + s.unresolved.length < UInt64.size := by
    have := hreplayed.size
    omega
  have hopen : ∀ txn ∈ s.unresolved, Open rs txn :=
    fun txn htxn => (hreplayed.pending txn).1 (SortedMap.mem_keys_iff.1 htxn)
  obtain ⟨rs', hresumes, hholds'⟩ := abortEach_resumes hholds hstate hwell hdense hopen
    (SortedMap.nodup_keys _) hroom'
  refine ⟨rs', hresumes, ?_⟩
  simp only [hrecover, Recovery.unresolved]
  cases haborts : abortEach log s s.unresolved with
  | error failure =>
    rw [haborts] at hholds'
    exact ⟨hholds', by rintro env ⟨⟩⟩
  | ok result =>
    rw [haborts] at hholds'
    have hsynced := syncAborts_holds hholds' s.unresolved
    dsimp only at hsynced ⊢
    cases hsync : syncAborts result.1 s.unresolved with
    | error failure =>
      rw [hsync] at hsynced
      exact ⟨hsynced, by rintro env ⟨⟩⟩
    | ok log' =>
      rw [hsync] at hsynced
      refine ⟨hsynced, fun env henv => ?_⟩
      cases henv
      exact ⟨hreplayed.unknown, s, hstate, rfl⟩

end Environment
end WalStore
