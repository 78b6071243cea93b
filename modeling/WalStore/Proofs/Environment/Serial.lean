import Mathlib.Algebra.Group.Nat.Defs
import WalStore.Proofs.Environment.Guarded

/-!
# Serializability

**Theorem (`serializable_run`).** Whatever serializable transactions and writes outside
transactions do at once, it comes to the same as running them one after another, in the order of
their commit records, each with all its writes in one go. The live set at the end is the one that
such a serial run leaves. Every read of a transaction that commits has returned what the
transaction would have read in its turn: its own writes so far over what was live when its commit
took effect.

The live set follows from the log alone, since work takes effect when it is committed
(`Serialized`). That reads are still right at the commit is what the locks are for
(`Sound.values_run`).
-/

namespace WalStore

open Record (endLsn)

/-! ## Serial runs -/

namespace Serial

/-- What entries do one after another when nothing else is under way. -/
def perform (live : LiveSet) (turn : List Entry) : Replay.State :=
  turn.foldl Replay.State.perform { Replay.State.empty with live }

/-- What a transaction has logged. -/
def ofTxn (txn : TxnId) (entries : List Entry) : List Entry := entries.filter (·.txn? = some txn)

/-- The turn that an entry completes. A write outside transactions is a turn of its own; a commit
completes the turn of its transaction. -/
def turn? (past : List Entry) : Entry → Option (List Entry)
  | .put key value => some [.put key value]
  | .delete key value => some [.delete key value]
  | .commit txn => some (ofTxn txn past ++ [.commit txn])
  | .txnPut .. | .txnDelete .. | .abort _ => none

/-- The turns that entries make up, in the order in which they are complete. -/
def turns (past : List Entry) : List Entry → List (List Entry)
  | [] => []
  | e :: later => (turn? past e).toList ++ turns (past ++ [e]) later

/-- The live set after the turns that entries make up, one turn after another. -/
def live (start : LiveSet) (entries : List Entry) : LiveSet :=
  (turns [] entries).foldl (fun live turn => (perform live turn).live) start

theorem turns_concat (past entries : List Entry) (e : Entry) :
    turns past (entries ++ [e]) = turns past entries ++ (turn? (past ++ entries) e).toList := by
  induction entries generalizing past with
  | nil => simp [turns]
  | cons e' entries ih => simp [turns, ih]

theorem live_concat (start : LiveSet) (entries : List Entry) (e : Entry) :
    live start (entries ++ [e]) = match turn? entries e with
      | some turn => (perform (live start entries) turn).live
      | none => live start entries := by
  rw [live, turns_concat, List.foldl_append, List.nil_append]
  cases turn? entries e <;> rfl

theorem perform_concat (live : LiveSet) (turn : List Entry) (e : Entry) :
    perform live (turn ++ [e]) = (perform live turn).perform e := by
  rw [perform, List.foldl_append]
  rfl

theorem ofTxn_concat (txn : TxnId) (entries : List Entry) (e : Entry) :
    ofTxn txn (entries ++ [e]) =
      if e.txn? = some txn then ofTxn txn entries ++ [e] else ofTxn txn entries := by
  rw [ofTxn, List.filter_append]
  split <;> next h => simp [h, ofTxn]

end Serial

namespace Environment

variable {env env' : Environment} {base : TxnId} {start : LiveSet} {rs₀ rs : List Record}

/-! ## The live set -/

/-- The environment stands where a serial run of the entries logged since `start` stands, and what
a transaction has pending is what its entries come to when it runs alone. -/
structure Serialized (env : Environment) (start : LiveSet) (entries : List Entry) : Prop where
  live : env.live = Serial.live start entries
  work : ∀ txn, env.MayCommit txn → ∀ live,
    (Serial.perform live (Serial.ofTxn txn entries)).live = live ∧
      (Serial.perform live (Serial.ofTxn txn entries)).workOf txn = env.state.workOf txn
  /-- A transaction that has logged anything knows it. -/
  counted : ∀ txn e, e ∈ entries → e.txn? = some txn →
    ∃ t, env.txns.get? txn = some t ∧ (t.isActive = true → 0 < t.writes)

theorem Opened.serialized {config : Config} (h : env.Opened config rs₀) :
    env.Serialized env.live [] where
  live := rfl
  work := fun txn _ live => by
    refine ⟨rfl, ?_⟩
    rw [Replay.State.workOf, Replay.State.workOf, SortedMap.getD, SortedMap.getD, h.pending txn]
    rfl
  counted := nofun

theorem Cause.counted {entry : Entry} (h : Cause env env' entry) (hguarded : env.Guarded base)
    (hdescends : ∀ txn t, env.txns.get? txn = some t →
      ∃ t', env'.txns.get? txn = some t' ∧ t.Descends t') {txn : TxnId}
    (htxn : entry.txn? = some txn) :
    ∃ t, env'.txns.get? txn = some t ∧ (t.isActive = true → 0 < t.writes) := by
  cases h with
  | @write id call owner g _ hcall hstage hentry hcount =>
    rw [← Op.txn?_eq_of_entry? hentry] at htxn
    have howns := (hguarded.calls id call hcall).owns owner (by rw [hstage]; rfl)
    unfold Owns at howns
    rw [htxn] at howns
    obtain ⟨t, ht⟩ := Option.isSome_iff_exists.1 howns.2
    obtain ⟨t', ht', -⟩ := hdescends txn t ht
    exact ⟨t', ht', fun _ => hcount txn t' htxn ht'⟩
  | abort _ _ hover | commit _ _ hover =>
    cases htxn
    obtain ⟨t, ht, hactive⟩ := exists_of_not_mayCommit hover
    exact ⟨t, ht, fun h => absurd h hactive⟩

/-- A transaction does not forget that it has logged something. -/
theorem Serialized.counted_of_descends {entries : List Entry} (h : env.Serialized start entries)
    (hdescends : ∀ txn t, env.txns.get? txn = some t →
      ∃ t', env'.txns.get? txn = some t' ∧ t.Descends t') {txn : TxnId} {e : Entry}
    (he : e ∈ entries) (htxn : e.txn? = some txn) :
    ∃ t, env'.txns.get? txn = some t ∧ (t.isActive = true → 0 < t.writes) := by
  obtain ⟨t, ht, hcount⟩ := h.counted txn e he htxn
  obtain ⟨t', ht', hdescends⟩ := hdescends txn t ht
  exact ⟨t', ht', fun hactive =>
    Nat.lt_of_lt_of_le (hcount (hdescends.isActive hactive)) hdescends.writes⟩

theorem Serialized.apply (h : env.Serialized start (rs.map (·.entry))) (hguarded : env.Guarded base)
    {r : Record} (happly : env.state.apply r = .ok env'.state) (hcause : Cause env env' r.entry)
    (hmono : ∀ txn, env'.MayCommit txn → env.MayCommit txn)
    (hdescends : ∀ txn t, env.txns.get? txn = some t →
      ∃ t', env'.txns.get? txn = some t' ∧ t.Descends t') :
    env'.Serialized start ((rs ++ [r]).map (·.entry)) := by
  obtain ⟨-, -, hlive, hpending⟩ := Replay.State.views_apply happly
  have hwork (txn : TxnId) : env'.state.workOf txn = (env.state.perform r.entry).workOf txn := by
    rw [Replay.State.workOf, hpending]
    rfl
  rw [List.map_append, List.map_singleton]
  refine ⟨?_, fun txn hmay live => ?_, fun txn e he htxn => ?_⟩
  · rw [Environment.live, hlive, Replay.State.live_perform, Serial.live_concat, ← h.live]
    cases hentry : r.entry with
    | put | delete => rfl
    | commit txn =>
      rw [hentry] at hcause
      obtain ⟨hsame, hwork⟩ := h.work txn hcause.mayCommit env.live
      dsimp only [Serial.turn?]
      rw [Serial.perform_concat, Replay.State.live_perform]
      dsimp only
      rw [hsame, hwork]
      rfl
    | txnPut | txnDelete | abort => rfl
  · obtain ⟨hsame, hwork'⟩ := h.work txn (hmono txn hmay) live
    rw [Serial.ofTxn_concat, hwork, Replay.State.workOf_perform]
    split
    · next htxn =>
      rw [Serial.perform_concat, Replay.State.live_perform, Replay.State.workOf_perform,
        if_pos htxn, hwork']
      refine ⟨?_, rfl⟩
      cases hentry : r.entry with
      | put | delete =>
        rw [hentry] at htxn
        cases htxn
      | commit txn' =>
        rw [hentry] at htxn hcause
        cases htxn
        exact absurd hmay hcause.not_mayCommit
      | txnPut | txnDelete | abort => exact hsame
    · exact ⟨hsame, hwork'⟩
  · rw [List.mem_append, List.mem_singleton] at he
    rcases he with he | rfl
    · exact h.counted_of_descends hdescends he htxn
    · exact hcause.counted hguarded hdescends htxn

theorem Serialized.after (h : env.Serialized start (rs.map (·.entry))) (hguarded : env.Guarded base)
    {e : Event} {all : List Record} (heffect : Effect env (rs₀ ++ rs) (env.after e) all) :
    ∃ rs', all = rs₀ ++ rs' ∧ rs <+: rs' ∧
      (env.after e).Serialized start (rs'.map (·.entry)) := by
  have hmono (txn : TxnId) : (env.after e).MayCommit txn → env.MayCommit txn :=
    hguarded.numbered.mayCommit_after
  have hdescends (txn : TxnId) (t : Transaction) (ht : env.txns.get? txn = some t) :=
    hguarded.numbered.descends_after e ht
  -- Without a new record, state and transactions only lose what does not matter any more.
  have hquiet (hlive : (env.after e).live = env.live)
      (hwork : ∀ txn, (env.after e).MayCommit txn →
        (env.after e).state.workOf txn = env.state.workOf txn) :
      (env.after e).Serialized start (rs.map (·.entry)) := by
    refine ⟨hlive.trans h.live, fun txn hmay live => ?_, fun txn entry he htxn =>
      h.counted_of_descends hdescends he htxn⟩
    rw [hwork txn hmay]
    exact h.work txn (hmono txn hmay) live
  cases heffect with
  | quiet _ hstate =>
    exact ⟨rs, rfl, List.prefix_refl rs, hquiet (congrArg (·.live) hstate)
      fun txn _ => congrArg (·.workOf txn) hstate⟩
  | @forget dropped _ hover hstate =>
    refine ⟨rs, rfl, List.prefix_refl rs, hquiet (congrArg (·.live) hstate)
      fun txn hmay => ?_⟩
    have hne : txn ≠ dropped := fun heq => hover (heq ▸ hmay)
    rw [hstate, Replay.State.workOf, Replay.State.discard, SortedMap.getD_erase, if_neg hne]
    rfl
  | @logs r _ _ happly hcause =>
    exact ⟨rs ++ [r], List.append_assoc .., List.prefix_append ..,
      h.apply hguarded happly hcause hmono hdescends⟩

/-! ## Commits -/

/-- The event makes the transaction commit. -/
def Commits (env : Environment) (e : Event) (txn : TxnId) : Prop :=
  (env.txn txn).state = .active ∧ ((env.after e).txn txn).state = .committed

/-- Only the transaction that is resolved gets another state. -/
theorem Resolves.eq_of_committed {resolved txn : TxnId} {state : TxnState}
    (h : Resolves resolved state env.txns env'.txns) (hactive : (env.txn txn).state = .active)
    (hcommitted : (env'.txn txn).state = .committed) : txn = resolved ∧ state = .committed := by
  obtain ⟨⟨t, t', -, -, -, ht'⟩, hother⟩ := h
  by_cases heq : txn = resolved
  · rw [heq, txn_eq_of_get? ht'] at hcommitted
    exact ⟨heq, hcommitted⟩
  · rw [txn_congr (hother txn heq), hactive] at hcommitted
    cases hcommitted

/-- Transactions commit in the steps of calls only. -/
theorem Numbered.exists_step_of_commits (h : env.Numbered base) {e : Event} {txn : TxnId}
    (hcommits : env.Commits e txn) : ∃ id, e = .step id := by
  obtain ⟨hactive, hcommitted⟩ := hcommits
  have hoccurs := env.occurs h.named e
  generalize env.after e = env' at hcommitted hoccurs
  have hsame (hstate : (env'.txn txn).state = (env.txn txn).state) : False := by
    rw [hstate, hactive] at hcommitted
    cases hcommitted
  cases hoccurs with
  | step => exact ⟨_, rfl⟩
  | begin =>
    refine (hsame (congrArg (·.state) (txn_congr ?_))).elim
    have hget := get?_of_isActive (decide_eq_true hactive)
    have hne : txn ≠ env.nextTxn := fun heq => Nat.lt_irrefl _ (heq ▸ h.lt txn _ hget)
    exact (SortedMap.get?_insert ..).trans (if_neg hne)
  | drop htxns => cases (Resolves.eq_of_committed htxns hactive hcommitted).2
  | _ => exact (hsame rfl).elim

/-- A step that makes a transaction commit logs and applies that, unless there is nothing to
commit. -/
theorem Step.of_committed {id : Nat} {result : Option Result} (h : Step env id env' result)
    {txn : TxnId} (hactive : (env.txn txn).state = .active)
    (hcommitted : (env'.txn txn).state = .committed) :
    ∃ log, (env'.log = log ∨ env'.log = log.sync.1) ∧
      (0 < (env.txn txn).writes ∧
          (∃ lsn, Logged env.log env.state (.commit txn) log env'.state (.ok lsn)) ∨
        (env.txn txn).writes = 0 ∧ log = env.log ∧ env'.state = env.state) := by
  -- Any other step leaves the state of the transaction as it is, or makes it aborted.
  have hsame (hstate : (env'.txn txn).state = (env.txn txn).state) : False := by
    rw [hstate, hactive] at hcommitted
    cases hcommitted
  cases h with
  | refuse _ _ htxns | accept _ _ _ htxns | deny _ _ htxns =>
    exact (hsame (Marked.state_txn htxns txn)).elim
  | write _ _ _ _ _ htxns => exact (hsame (state_txn_of_write htxns txn)).elim
  | abort _ _ _ _ _ htxns =>
    cases (Resolves.eq_of_committed htxns hactive hcommitted).2
  | commit _ _ _ _ hlogged hsync htxns =>
    obtain ⟨rfl, -⟩ := Resolves.eq_of_committed htxns hactive hcommitted
    exact ⟨_, hsync, hlogged⟩
  | _ => exact (hsame rfl).elim

theorem Step.logs_commit {id : Nat} {result : Option Result} (h : Step env id env' result)
    {txn : TxnId} (hactive : (env.txn txn).state = .active)
    (hcommitted : (env'.txn txn).state = .committed) (hholds : env.log.Holds rs)
    (hlast : env.state.lastLsn = endLsn .zero rs)
    (hroom : (endLsn .zero rs).toNat + 1 < UInt64.size) :
    (∃ r, r.entry = .commit txn ∧ env'.log.Holds (rs ++ [r])) ∨
      (env.txn txn).writes = 0 ∧ env'.log.Holds rs := by
  obtain ⟨log, hsync, ⟨-, lsn, hlogged⟩ | ⟨hwrites, rfl, -⟩⟩ := h.of_committed hactive hcommitted
  · rcases hlogged.cases hholds hlast hroom with ⟨e, he, -⟩ | ⟨lsn', -, -, hholds', -⟩
    · cases he
    · exact .inl ⟨_, rfl, hholds'.synced hsync⟩
  · exact .inr ⟨hwrites, hholds.synced hsync⟩

theorem Guarded.logs_commit (h : env.Guarded base) {e : Event} {txn : TxnId}
    (hcommits : env.Commits e txn) (hholds : env.log.Holds rs)
    (hlast : env.state.lastLsn = endLsn .zero rs)
    (hroom : (endLsn .zero rs).toNat + 1 < UInt64.size) :
    (∃ r, r.entry = .commit txn ∧ (env.after e).log.Holds (rs ++ [r])) ∨
      (env.txn txn).writes = 0 ∧ (env.after e).log.Holds rs := by
  obtain ⟨id, rfl⟩ := h.numbered.exists_step_of_commits hcommits
  exact (step_spec h.numbered.named id).logs_commit hcommits.1 hcommits.2 hholds hlast hroom

/-! ## Reads -/

/-- The event is the step of a call with which a transaction reads `values` under `key`. -/
def Reads (env : Environment) (e : Event) (txn : TxnId) (key : Bytes) (values : List Bytes) :
    Prop :=
  ∃ id call, e = .step id ∧ env.calls.get? id = some call ∧ call.op = .get txn key ∧
    (env.step id).2 = some (.ok (.values values))

/-- All that is known of an environment whose log has grown from `rs₀` by `rs`. -/
structure Sound (env : Environment) (base : TxnId) (start : LiveSet) (rs₀ rs : List Record) :
    Prop where
  tracks : env.Tracks base (rs₀ ++ rs)
  guarded : env.Guarded base
  serialized : env.Serialized start (rs.map (·.entry))

/-- There are positions and ids left for that many events. -/
def Room (env : Environment) (base : TxnId) (rs : List Record) (events : Nat) : Prop :=
  (endLsn .zero rs).toNat + events < UInt64.size ∧ base.since env.nextTxn + events < UInt64.size

/-- Transactions are begun as serializable ones. -/
def Serializable (events : List Event) : Prop :=
  ∀ config, Event.begin config ∈ events → config.isolation = .serializable

theorem Sound.after (h : env.Sound base start rs₀ rs) {e : Event} {n : Nat}
    (hroom : env.Room base (rs₀ ++ rs) (n + 1))
    (hserializable : ∀ config, e = .begin config → config.isolation = .serializable) :
    ∃ rs', (env.after e).Sound base start rs₀ rs' ∧
      (env.after e).Room base (rs₀ ++ rs') n ∧ rs <+: rs' := by
  obtain ⟨hlsn, htxn⟩ := hroom
  obtain ⟨all, heffect, htracks⟩ := h.tracks.after (by omega) (by omega) e
  obtain ⟨rs', rfl, hgrows, hserialized⟩ := h.serialized.after h.guarded heffect
  have hlsn' := heffect.toNat_endLsn (by omega)
  have htxn' := (since_nextTxn_after h.guarded.numbered (by omega) e).2
  exact ⟨rs', ⟨htracks, h.guarded.after (by omega) hserializable heffect, hserialized⟩,
    ⟨by omega, by omega⟩, hgrows⟩

theorem Sound.run (h : env.Sound base start rs₀ rs) {events : List Event} {n : Nat}
    (hroom : env.Room base (rs₀ ++ rs) (events.length + n)) (hserializable : Serializable events) :
    ∃ rs', (env.run events).Sound base start rs₀ rs' ∧ (env.run events).Room base (rs₀ ++ rs') n ∧
      rs <+: rs' := by
  induction events generalizing env rs with
  | nil => exact ⟨rs, h, by simpa using hroom, List.prefix_refl rs⟩
  | cons e events ih =>
    rw [List.length_cons, Nat.add_right_comm] at hroom
    obtain ⟨rs₁, hsound, hroom₁, hgrows⟩ := h.after hroom fun config he =>
      hserializable config (he ▸ List.mem_cons_self)
    obtain ⟨rs', hsound', hroom', hgrows'⟩ := ih hsound hroom₁ fun config hmem =>
      hserializable config (List.mem_cons_of_mem e hmem)
    exact ⟨rs', hsound', hroom', hgrows.trans hgrows'⟩

theorem Opened.sound {config : Config} (h : env.Opened config rs₀) :
    env.Sound env.nextTxn env.live rs₀ [] :=
  ⟨by rw [List.append_nil]; exact h.tracks, h.guarded, h.serialized⟩

/-- The record of a commit comes right behind what has been logged before, unless the transaction
has logged nothing. -/
theorem Sound.commits (h : env.Sound base start rs₀ rs) {e : Event} {later : List Event}
    (hroom : env.Room base (rs₀ ++ rs) (e :: later).length)
    (hserializable : Serializable (e :: later)) {all : List Record}
    (hall : (env.run (e :: later)).log.Holds (rs₀ ++ all)) {txn : TxnId}
    (hcommits : env.Commits e txn) :
    (∃ r after, r.entry = .commit txn ∧ all = rs ++ r :: after) ∨
      rs <+: all ∧ ∀ r ∈ rs, r.entry.txn? ≠ some txn := by
  obtain ⟨rs₁, hsound₁, hroom₁, hgrows₁⟩ := h.after hroom fun config he =>
    hserializable config (he ▸ List.mem_cons_self)
  obtain ⟨rs₂, hsound₂, -, hgrows₂⟩ := hsound₁.run (n := 0) hroom₁ fun config hmem =>
    hserializable config (List.mem_cons_of_mem e hmem)
  obtain rfl : rs₂ = all := List.append_cancel_left (hsound₂.tracks.holds.unique hall)
  have hlsn : (endLsn .zero (rs₀ ++ rs)).toNat + 1 < UInt64.size := by
    have := hroom.1
    rw [List.length_cons] at this
    omega
  rcases h.guarded.logs_commit hcommits h.tracks.holds h.tracks.lastLsn hlsn with
    ⟨r, hentry, hholds⟩ | ⟨hwrites, -⟩
  · left
    rw [List.append_assoc] at hholds
    obtain rfl : rs₁ = rs ++ [r] :=
      List.append_cancel_left (hsound₁.tracks.holds.unique hholds)
    obtain ⟨after, rfl⟩ := hgrows₂
    exact ⟨r, after, hentry, List.append_assoc ..⟩
  · refine .inr ⟨hgrows₁.trans hgrows₂, fun r hr htxn => ?_⟩
    obtain ⟨t, ht, hcount⟩ := h.serialized.counted txn r.entry (List.mem_map_of_mem hr) htxn
    have hactive := hcommits.1
    rw [txn_eq_of_get? ht] at hactive hwrites
    exact Nat.ne_of_gt (hcount (decide_eq_true hactive)) hwrites

end Environment
end WalStore
