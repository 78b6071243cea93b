import WalStore.Proofs.Environment.Reading

/-!
# How many copies a put makes

A key may hold a value several times. A write outside transactions adds a copy each time, but what a
transaction has put is a set: its commit adds one copy of a pair, however often it was put.

**Invariant (`Collects`).** The pending work of a transaction that may commit consists of the pairs
it has put and the deletes it has made, each at most once. Every event does one of three things to
it (`Alters`).

**Theorem (`copies_of_puts`).** A transaction that has deleted nothing adds, when it commits, one
copy of each pair it has put. As long as all writes are puts outside transactions, there are as many
new copies of a pair as there were puts of it.
-/

namespace WalStore

open Record (endLsn)

/-! ## One commit -/

namespace Pending

variable {p : Pending}

/-- Work without deletes adds one copy of each of its pairs. -/
theorem count_values_commitInto (hnone : ∀ d, d ∉ p.deletes) (live : LiveSet)
    (key value : Bytes) : ((p.commitInto live).live.values key).count value =
      (live.values key).count value + if (key, value) ∈ p.inserts then 1 else 0 := by
  have htargets : p.targets key = [] :=
    List.eq_nil_iff_forall_not_mem.2 fun v hv => hnone _ (mem_targets.1 hv).1
  have hkept : p.kept key (live.values key) = live.values key := by
    rw [kept, htargets, List.diff_nil, if_neg fun h => hnone _ h.1]
  have hnodup : (p.survivors key).Nodup :=
    (p.pairwise_survivors key).imp fun hlt heq => by simp [heq] at hlt
  have hmem : value ∈ p.survivors key ↔ (key, value) ∈ p.inserts :=
    mem_survivors.trans (and_iff_left (hnone _))
  rw [values_commitInto_eq, hkept, added, if_neg (hnone _), List.count_append,
    hnodup.count]
  exact congrArg _ (if_congr hmem rfl rfl)

end Pending

namespace Environment

variable {env env' : Environment} {base : TxnId} {id : Nat} {result : Option Result}

/-- How often a value is live under a key. -/
def copies (env : Environment) (key value : Bytes) : Nat := (env.live.values key).count value

/-! ## Writes -/

/-- The result of a call that is done but for its locks. -/
def Stage.result? : Stage → Option Result
  | releasing _ result => some result
  | entered | admitted _ | waiting .. | granted .. => none

/-- What a call that has its lock logs in a step. The answer to such a write is that it has been
logged, and is given at once or when the lock has been given back. -/
def Call.write? (call : Call) (result : Option Result) (later : Option Call) : Option Entry :=
  match call.stage with
  | .granted .. =>
    match result.or (later.bind (·.stage.result?)) with
    | some (.ok (.logged _)) => call.op.entry?
    | _ => none
  | .entered | .admitted _ | .waiting .. | .releasing .. => none

/-- The write that an event makes. -/
def write? (env : Environment) : Event → Option Entry
  | .step id => (env.calls.get? id).bind fun call =>
      call.write? (env.step id).2 ((env.step id).1.calls.get? id)
  | _ => none

/-- The writes that a run makes, in their order. -/
def written (env : Environment) : List Event → List Entry
  | [] => []
  | e :: events => (env.write? e).toList ++ (env.after e).written events

theorem written_append (env : Environment) (events later : List Event) :
    env.written (events ++ later) = env.written events ++ (env.run events).written later := by
  induction events generalizing env with
  | nil => rfl
  | cons e events ih => rw [List.cons_append, written, ih, written, List.append_assoc, run_cons]

theorem written_concat (env : Environment) (events : List Event) (e : Event) :
    env.written (events ++ [e]) = env.written events ++ ((env.run events).write? e).toList := by
  rw [written_append, written, written, List.append_nil]

/-! ## What an event does to the live records and the work -/

/-- What becomes of the live records, and of the work of transactions that may still commit, in an
event that makes this write or none. -/
inductive Alters (env env' : Environment) : Option Entry → Prop
  | quiet (hlive : env'.live = env.live)
      (hwork : ∀ txn, env'.MayCommit txn → env'.state.workOf txn = env.state.workOf txn) :
      Alters env env' none
  | commit {txn : TxnId} (hactive : (env.txn txn).state = .active)
      (hcommitted : (env'.txn txn).state = .committed)
      (hwork : ∀ txn, env'.MayCommit txn → env'.state.workOf txn = env.state.workOf txn) :
      Alters env env' none
  | write {entry : Entry} (hentry : entry.resolved? = none)
      (hlive : env'.live = (env.state.perform entry).live)
      (hwork : ∀ txn, env'.state.workOf txn = (env.state.perform entry).workOf txn) :
      Alters env env' (some entry)

theorem Call.write?_eq_none {call : Call} (h : ∀ owner g, call.stage ≠ .granted owner g)
    (result : Option Result) (later : Option Call) : call.write? result later = none := by
  unfold write?
  cases hstage : call.stage with
  | granted owner g => exact absurd hstage (h owner g)
  | _ => rfl

theorem Call.write?_of_granted {call : Call} {owner : TxnId} {g : Grant}
    (hstage : call.stage = .granted owner g) (result : Option Result) (later : Option Call) :
    call.write? result later = match result.or (later.bind (·.stage.result?)) with
      | some (.ok (.logged _)) => call.op.entry?
      | _ => none := by
  rw [write?, hstage]

theorem Asks.not_granted {call : Call} {owner nextTxn : TxnId} {locks : LockManager}
    {outcome : Option LockState.Outcome} (h : Asks env id call owner nextTxn locks outcome) :
    ∀ owner g, call.stage ≠ .granted owner g := by
  cases h with
  | direct hstage | inTxn hstage | again hstage => exact fun _ _ h => nomatch hstage.symm.trans h

theorem Logged.workOf_eq {log log' : Log} {state state' : Replay.State} {entry : Entry} {lsn : Lsn}
    (h : Logged log state entry log' state' (.ok lsn)) (txn : TxnId) :
    state'.workOf txn = (state.perform entry).workOf txn := by
  cases h with
  | applied _ happly =>
    obtain ⟨-, -, -, hpending⟩ := Replay.State.views_apply happly
    rw [Replay.State.workOf, hpending]
    rfl

/-- The resolution of a transaction leaves the work of the others. -/
theorem Resolves.workOf_perform {txns : SortedMap TxnId Transaction} {txn : TxnId}
    {state : TxnState} (h : Resolves txn state txns env'.txns) (hstate : state ≠ .active)
    {entry : Entry} (htxn : entry.txn? = some txn) (s : Replay.State) {t : TxnId}
    (hmay : env'.MayCommit t) : (s.perform entry).workOf t = s.workOf t := by
  rw [Replay.State.workOf_perform, htxn, if_neg]
  intro heq
  exact h.not_mayCommit hstate (Option.some.inj heq ▸ hmay)

theorem Step.alters (h : Step env id env' result) : Alters env env'
    ((env.calls.get? id).bind (·.write? result (env'.calls.get? id))) := by
  have hquiet {call : Call} (hcall : env.calls.get? id = some call)
      (hnone : call.write? result (env'.calls.get? id) = none) (hstate : env'.state = env.state) :
      Alters env env' ((env.calls.get? id).bind (·.write? result (env'.calls.get? id))) := by
    rw [hcall, Option.bind_some, hnone]
    exact .quiet (congrArg (·.live) hstate) fun txn _ => congrArg (·.workOf txn) hstate
  have hadmitted {call : Call} {cause : Option Error} (hstage : call.stage = .admitted cause)
      (owner : TxnId) (g : Grant) : call.stage ≠ .granted owner g := by
    rw [hstage]
    nofun
  cases h with
  | idle hcall =>
    rw [hcall]
    exact .quiet rfl fun _ _ => rfl
  | refuse hcall hstage =>
    refine hquiet hcall (Call.write?_eq_none (fun owner g hgranted => ?_) _ _) rfl
    rw [hgranted] at hstage
    cases hstage
  | accept hcall hstage =>
    refine hquiet hcall (Call.write?_eq_none (fun owner g hgranted => ?_) _ _) rfl
    rw [hgranted] at hstage
    cases hstage
  | wait hcall hasks | deny hcall hasks | lock hcall _ hasks | take hcall _ hasks =>
    exact hquiet hcall (Call.write?_eq_none hasks.not_granted _ _) rfl
  | abort hcall hstage _ _ hlogged htxns =>
    rw [hcall, Option.bind_some, Call.write?_eq_none (hadmitted hstage)]
    rcases hlogged with ⟨-, logged, hlogged⟩ | ⟨-, -, rfl⟩
    · cases logged with
      | error e =>
        obtain rfl := hlogged.state_eq
        exact .quiet rfl fun _ _ => rfl
      | ok lsn =>
        -- the work that is dropped is of a transaction that will not commit
        refine .quiet (hlogged.live_eq.trans (Replay.State.live_perform ..)) fun t hmay => ?_
        exact (hlogged.workOf_eq t).trans (htxns.workOf_perform (by decide) rfl _ hmay)
    · exact .quiet rfl fun _ _ => rfl
  | commitFail hcall hstage _ _ _ hlogged =>
    exact hquiet hcall (Call.write?_eq_none (hadmitted hstage) _ _) hlogged.state_eq
  | commit hcall hstage _ hactive hlogged _ htxns =>
    rw [hcall, Option.bind_some, Call.write?_eq_none (hadmitted hstage)]
    refine .commit (of_decide_eq_true hactive) (Resolves.state_eq htxns) fun t hmay => ?_
    rcases hlogged with ⟨-, lsn, hlogged⟩ | ⟨-, -, rfl⟩
    · exact (hlogged.workOf_eq t).trans (htxns.workOf_perform (by decide) rfl _ hmay)
    · rfl
  | @writeNow call owner g entry log state logged counters hcall hstage hentry htxn hlogged =>
    -- the answer is kept until the lock has been given back
    have hlater : (env.calls.insert id
        { call with stage := .releasing owner (logged.map .logged) }).get? id = some _ :=
      (SortedMap.get?_insert ..).trans (if_pos rfl)
    cases logged with
    | error e =>
      refine hquiet hcall ?_ hlogged.state_eq
      rw [Call.write?_of_granted hstage, hlater]
      rfl
    | ok lsn =>
      rw [hcall, Option.bind_some, Call.write?_of_granted hstage, hlater]
      change Alters env _ call.op.entry?
      rw [hentry]
      exact .write (Op.resolved?_of_entry? hentry) hlogged.live_eq hlogged.workOf_eq
  | writeFail hcall hstage _ _ hlogged =>
    refine hquiet hcall ?_ hlogged.state_eq
    rw [Call.write?_of_granted hstage]
    rfl
  | write hcall hstage hentry _ hlogged =>
    rw [hcall, Option.bind_some, Call.write?_of_granted hstage]
    change Alters env _ (Op.entry? _)
    rw [hentry]
    exact .write (Op.resolved?_of_entry? hentry) hlogged.live_eq hlogged.workOf_eq
  | read hcall hstage =>
    refine hquiet hcall ?_ rfl
    rw [Call.write?_of_granted hstage]
    rfl
  | readOnce hcall hstage =>
    refine hquiet hcall ?_ rfl
    rw [Call.write?_of_granted hstage, SortedMap.get?_insert, if_pos rfl]
    rfl
  | giveBack hcall hstage | leave hcall hstage =>
    refine hquiet hcall (Call.write?_eq_none ?_ _ _) rfl
    rw [hstage]
    nofun

theorem alters (hnamed : env.Named) (e : Event) : Alters env (env.after e) (env.write? e) := by
  have hoccurs := env.occurs hnamed e
  generalize hafter : env.after e = env' at hoccurs ⊢
  cases hoccurs with
  | step => exact hafter ▸ (step_spec hnamed _).alters
  | drop htxns =>
    refine .quiet rfl fun t hmay => (Replay.State.workOf_discard ..).trans (if_neg ?_)
    rintro rfl
    exact htxns.not_mayCommit (by decide) hmay
  | _ => exact .quiet rfl fun _ _ => rfl

/-! ## The work of a transaction -/

/-- The work of the transactions that may still commit is what they have written. -/
structure Collects (env : Environment) (written : List Entry) : Prop where
  inserts : ∀ txn, env.MayCommit txn → ∀ key value,
    (key, value) ∈ (env.state.workOf txn).inserts ↔ .txnPut txn key value ∈ written
  deletes : ∀ txn, env.MayCommit txn → ∀ key value?,
    (key, value?) ∈ (env.state.workOf txn).deletes ↔ .txnDelete txn key value? ∈ written

/-- A write adds its pair to the inserts of its own transaction. -/
theorem mem_inserts_perform {s : Replay.State} {entry : Entry} (hentry : entry.resolved? = none)
    {txn : TxnId} {key value : Bytes} : (key, value) ∈ ((s.perform entry).workOf txn).inserts ↔
      (key, value) ∈ (s.workOf txn).inserts ∨ .txnPut txn key value = entry := by
  rw [Replay.State.workOf_perform]
  cases entry with
  | put | delete => simp [Entry.txn?]
  | txnPut t k v =>
    by_cases h : t = txn
    · subst h
      simp [Entry.txn?, Entry.workAfter, Pending.insert, SortedSet.mem_insert, or_comm]
    · simp [Entry.txn?, h, Ne.symm h]
  | txnDelete t k v =>
    by_cases h : t = txn <;> simp [Entry.txn?, Entry.workAfter, Pending.delete, h]
  | commit | abort => cases hentry

theorem mem_deletes_perform {s : Replay.State} {entry : Entry} (hentry : entry.resolved? = none)
    {txn : TxnId} {key : Bytes} {value? : Option Bytes} :
    (key, value?) ∈ ((s.perform entry).workOf txn).deletes ↔
      (key, value?) ∈ (s.workOf txn).deletes ∨ .txnDelete txn key value? = entry := by
  rw [Replay.State.workOf_perform]
  cases entry with
  | put | delete => simp [Entry.txn?]
  | txnPut t k v =>
    by_cases h : t = txn <;> simp [Entry.txn?, Entry.workAfter, Pending.insert, h]
  | txnDelete t k v =>
    by_cases h : t = txn
    · subst h
      simp [Entry.txn?, Entry.workAfter, Pending.delete, SortedSet.mem_insert, or_comm]
    · simp [Entry.txn?, h, Ne.symm h]
  | commit | abort => cases hentry

theorem Opened.collects {config : Config} {rs : List Record} (h : env.Opened config rs) :
    env.Collects [] := by
  have hwork (txn : TxnId) : env.state.workOf txn = ∅ := by
    rw [Replay.State.workOf, SortedMap.getD, h.pending txn]
    rfl
  refine ⟨fun txn _ key value => ?_, fun txn _ key value? => ?_⟩ <;> rw [hwork]
  · exact iff_of_false SortedSet.not_mem_empty List.not_mem_nil
  · exact iff_of_false SortedSet.not_mem_empty List.not_mem_nil

theorem Collects.alter {written : List Entry} (h : env.Collects written) {new : Option Entry}
    (halters : Alters env env' new) (hmono : ∀ txn, env'.MayCommit txn → env.MayCommit txn) :
    env'.Collects (written ++ new.toList) := by
  cases halters with
  | quiet _ hwork | commit _ _ hwork =>
    rw [Option.toList_none, List.append_nil]
    exact ⟨fun txn hmay => hwork txn hmay ▸ h.inserts txn (hmono txn hmay),
      fun txn hmay => hwork txn hmay ▸ h.deletes txn (hmono txn hmay)⟩
  | write hentry _ hwork =>
    rw [Option.toList_some]
    refine ⟨fun txn hmay key value => ?_, fun txn hmay key value? => ?_⟩
    · rw [hwork, mem_inserts_perform hentry, h.inserts txn (hmono txn hmay), List.mem_append,
        List.mem_singleton]
    · rw [hwork, mem_deletes_perform hentry, h.deletes txn (hmono txn hmay), List.mem_append,
        List.mem_singleton]

theorem Collects.after {written : List Entry} (h : env.Collects written)
    (hnumbered : env.Numbered base) (e : Event) :
    (env.after e).Collects (written ++ (env.write? e).toList) :=
  h.alter (alters hnumbered.named e) fun _ => hnumbered.mayCommit_after

theorem Collects.run {written : List Entry} (h : env.Collects written)
    (hnumbered : env.Numbered base) (events : List Event)
    (hroom : base.since env.nextTxn + events.length < UInt64.size) :
    (env.run events).Collects (written ++ env.written events) := by
  induction events generalizing env written with
  | nil => exact (List.append_nil written).symm ▸ h
  | cons e events ih =>
    rw [List.length_cons] at hroom
    have hnext := (since_nextTxn_after hnumbered (by omega) e).2
    rw [Environment.written, ← List.append_assoc]
    exact ih (h.after hnumbered e) (hnumbered.after (by omega) e) (by omega)

/-! ## Copies -/

/-- A commit adds one copy of each pair that its transaction has put. -/
theorem Collects.copies_of_commits {written : List Entry} (h : env.Collects written)
    (hnumbered : env.Numbered base) {lost : TxnId → Prop} (hretains : env.Retains lost) {e : Event}
    {txn : TxnId} (hcommits : env.Commits e txn)
    (hnone : ∀ key value?, .txnDelete txn key value? ∉ written) (key value : Bytes) :
    (env.after e).copies key value =
      env.copies key value + if .txnPut txn key value ∈ written then 1 else 0 := by
  obtain ⟨id, rfl⟩ := hnumbered.exists_step_of_commits hcommits
  have hactive : (env.txn txn).isActive = true := decide_eq_true hcommits.1
  have hmay := mayCommit_of_isActive hactive
  have hvalues := (step_spec hnumbered.named id).values_of_committed
    (hretains.writes_pos hactive) hcommits.1 hcommits.2 key
  have hdeletes (d : Bytes × Option Bytes) : d ∉ (env.state.workOf txn).deletes := fun hd =>
    hnone d.1 d.2 ((h.deletes txn hmay d.1 d.2).1 hd)
  rw [copies, Environment.after, hvalues, ifCommitted, Replay.State.live_perform]
  dsimp only
  rw [Pending.count_values_commitInto hdeletes]
  exact congrArg _ (if_congr (h.inserts txn hmay key value) rfl rfl)

theorem Opened.copies_of_commits {config : Config} {rs : List Record} (h : env.Opened config rs)
    {events : List Event} (horderly : env.Orderly events)
    (hroom : (endLsn .zero rs).toNat + events.length < UInt64.size) {e : Event} {txn : TxnId}
    (hcommits : (env.run events).Commits e txn)
    (hnone : ∀ key value?, .txnDelete txn key value? ∉ env.written events) (key value : Bytes) :
    ((env.run events).after e).copies key value = (env.run events).copies key value +
      if .txnPut txn key value ∈ env.written events then 1 else 0 := by
  have hself : env.nextTxn.since env.nextTxn = 0 := TxnId.since_self _
  have hcollects := h.collects.run h.tracks.numbered events (by omega)
  have hretains := h.retains.run h.tracks h.accounted horderly hroom (by omega)
  exact hcollects.copies_of_commits (h.tracks.numbered.run events (by omega)).1 hretains hcommits
    hnone key value

/-- A put outside transactions adds a copy. -/
theorem copies_of_put {key value : Bytes}
    (hlive : env'.live = (env.state.perform (.put key value)).live) (key' value' : Bytes) :
    env'.copies key' value' =
      env.copies key' value' + [Entry.put key value].count (.put key' value') := by
  rw [copies, hlive, Replay.State.live_perform]
  dsimp only
  rw [LiveSet.values_insert, List.count_singleton]
  by_cases hkey : key' = key
  · subst hkey
    rw [if_pos rfl, List.count_append, List.count_singleton]
    simp only [beq_iff_eq, Entry.put.injEq, true_and]
    rfl
  · have hne : Entry.put key value ≠ .put key' value' := fun h => hkey (Entry.put.inj h).1.symm
    rw [if_neg hkey, if_neg (by simpa using hne)]
    rfl

/-- As long as all writes are puts outside transactions, each adds a copy. -/
theorem Opened.copies_run {config : Config} {rs : List Record} (h : env.Opened config rs)
    {events : List Event} (horderly : env.Orderly events)
    (hroom : (endLsn .zero rs).toNat + events.length < UInt64.size)
    (hputs : ∀ entry ∈ env.written events, ∃ key value, entry = .put key value)
    (key value : Bytes) : (env.run events).copies key value =
      env.copies key value + (env.written events).count (.put key value) := by
  induction events using List.reverseRecOn with
  | nil => rfl
  | append_singleton events e ih =>
    rw [List.length_append, List.length_singleton] at hroom
    rw [written_concat] at hputs ⊢
    have hself : env.nextTxn.since env.nextTxn = 0 := TxnId.since_self _
    have hbefore := (orderly_append.1 horderly).1
    have hearlier := fun entry hmem => hputs entry (List.mem_append_left _ hmem)
    have hnumbered := (h.tracks.numbered.run events (by omega)).1
    rw [run_append, run_cons, run_nil, List.count_append, ← Nat.add_assoc,
      ← ih hbefore (by omega) hearlier]
    have halters := alters hnumbered.named e
    generalize (env.run events).write? e = new at halters hputs ⊢
    cases halters with
    | quiet hlive => rw [copies, hlive, copies, Option.toList_none, List.count_nil, Nat.add_zero]
    | @commit txn hactive hcommitted =>
      -- without puts of its own the commit adds nothing
      have hother (entry : Entry) (hof : entry.txn? = some txn) : entry ∉ env.written events := by
        intro hmem
        obtain ⟨k, v, rfl⟩ := hearlier entry hmem
        cases hof
      rw [h.copies_of_commits hbefore (by omega) ⟨hactive, hcommitted⟩
        (fun _ _ => hother _ rfl), if_neg (hother _ rfl)]
      rfl
    | @write entry _ hlive =>
      obtain ⟨k, v, rfl⟩ := hputs entry (List.mem_append_right _ (by simp))
      exact copies_of_put hlive key value

/-- **One copy for a commit, one for each put outside transactions.** A transaction that has deleted
nothing adds, when it commits, one copy of each pair it has put, however often it has put it. When
all writes are puts outside transactions, each of them adds a copy. -/
theorem copies_of_puts {config : Config} {store : Store} {now : Instant} {env : Environment}
    (hopen : openOn config store now = .ok env) {events : List Event}
    (horderly : env.Orderly events)
    (hroom : env.state.lastLsn.toNat + events.length < UInt64.size) :
    (∀ earlier e later txn, events = earlier ++ e :: later → (env.run earlier).Commits e txn →
      (∀ key value?, .txnDelete txn key value? ∉ env.written earlier) → ∀ key value,
        (env.run (earlier ++ [e])).copies key value = (env.run earlier).copies key value +
          if .txnPut txn key value ∈ env.written earlier then 1 else 0) ∧
      ((∀ entry ∈ env.written events, ∃ key value, entry = .put key value) → ∀ key value,
        (env.run events).copies key value =
          env.copies key value + (env.written events).count (.put key value)) := by
  obtain ⟨rs, hopened⟩ := openOn_ok hopen
  rw [hopened.tracks.lastLsn] at hroom
  refine ⟨?_, hopened.copies_run horderly hroom⟩
  rintro earlier e later txn rfl hcommits hnone key value
  rw [List.length_append] at hroom
  rw [run_append, run_cons, run_nil]
  exact hopened.copies_of_commits (orderly_append.1 horderly).1 (by omega) hcommits hnone key value

/-- A pair is put twice outside transactions. -/
def doublingNow : List Event :=
  [.start 0 (.putNow [1] [7]), .step 0, .step 0, .step 0, .step 0,
    .start 1 (.putNow [1] [7]), .step 1, .step 1, .step 1, .step 1]

/-- A transaction puts a pair twice and is about to commit. -/
def doubling : List Event :=
  [.begin .standard, .start 0 (.put ⟨1⟩ [1] [7]), .step 0, .step 0, .step 0,
    .start 1 (.put ⟨1⟩ [1] [7]), .step 1, .step 1, .step 1, .start 2 (.commit ⟨1⟩), .step 2]

theorem copies_of_puts_doubling :
    openOn .standard .empty 0 = .ok blank ∧ blank.Orderly (doubling ++ [.step 2]) ∧
      blank.Orderly doublingNow ∧ (blank.run doubling).Commits (.step 2) ⟨1⟩ ∧
      blank.written doubling = [.txnPut ⟨1⟩ [1] [7], .txnPut ⟨1⟩ [1] [7]] ∧
      (blank.run (doubling ++ [.step 2])).copies [1] [7] = 1 ∧
      blank.written doublingNow = [.put [1] [7], .put [1] [7]] ∧
      (blank.run doublingNow).copies [1] [7] = 2 := by
  have horderly : blank.Orderly (doubling ++ [.step 2]) := by decide +kernel
  have horderlyNow : blank.Orderly doublingNow := by decide +kernel
  have hcommits : (blank.run doubling).Commits (.step 2) ⟨1⟩ := by
    constructor <;> decide +kernel
  have hwritten : blank.written doubling = [.txnPut ⟨1⟩ [1] [7], .txnPut ⟨1⟩ [1] [7]] := rfl
  have hwrittenNow : blank.written doublingNow = [.put [1] [7], .put [1] [7]] := rfl
  refine ⟨openOn_empty, horderly, horderlyNow, hcommits, hwritten, ?_, hwrittenNow, ?_⟩
  · refine ((copies_of_puts openOn_empty horderly (by decide)).1 doubling (.step 2) [] ⟨1⟩ rfl
      hcommits (by simp [hwritten]) [1] [7]).trans ?_
    rw [hwritten]
    rfl
  · refine ((copies_of_puts openOn_empty horderlyNow (by decide)).2 (by simp [hwrittenNow])
      [1] [7]).trans ?_
    rw [hwrittenNow]
    rfl

/-- A transaction has put a pair more often than there are new copies of it. -/
theorem exists_copies_ne_count : ∃ env events id txn key value,
    openOn .standard .empty 0 = .ok env ∧ env.Orderly (events ++ [.step id]) ∧
      (env.run events).Commits (.step id) txn ∧
      (∀ key value?, .txnDelete txn key value? ∉ env.written events) ∧
      (env.run (events ++ [.step id])).copies key value ≠
        (env.run events).copies key value +
          (env.written events).count (.txnPut txn key value) := by
  have hwritten : blank.written doubling = [.txnPut ⟨1⟩ [1] [7], .txnPut ⟨1⟩ [1] [7]] := rfl
  refine ⟨blank, doubling, 2, ⟨1⟩, [1], [7], openOn_empty, by decide +kernel, ?_,
    by simp [hwritten], by decide +kernel⟩
  constructor <;> decide +kernel

end Environment
end WalStore
