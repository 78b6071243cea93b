import WalStore.Proofs.Environment.Asleep
import WalStore.Proofs.Environment.Open
import WalStore.Proofs.Lock.Layers

/-!
# Timeouts of an environment

**Theorem (`layered_timeouts`).** Each deadline of a wait is the end of the smallest positive
timeout that any layer sets for it, and a layer that gets shorter moves no deadline to a later
instant. When a deadline has passed, which one is reported, and for how long a timeout, follows from
these two deadlines alone, and stays so. The waits of an environment have these deadlines: those of
its settings, of the settings that their transaction began with, and of the operation, counted from
the beginning of the wait and of the transaction.
-/

namespace WalStore.Environment

variable {env : Environment} {base txn : TxnId}

theorem config_of_openOn {config : Config} {store : Store} {now : Instant}
    (h : openOn config store now = .ok env) : env.config = config := by
  obtain ⟨-, _, _, _, _, _, -, -, -, -, rfl⟩ := openOn_eq_ok_iff.1 h
  rfl

theorem config_run (hnumbered : env.Numbered base) (events : List Event)
    (hroom : base.since env.nextTxn + events.length < UInt64.size) :
    (env.run events).config = env.config := by
  induction events generalizing env with
  | nil => rfl
  | cons e events ih =>
    rw [List.length_cons] at hroom
    have hnext := (since_nextTxn_after hnumbered (by omega) e).2
    rw [run_cons, ih (hnumbered.after (by omega) e) (by omega), config_after hnumbered.named]

theorem Numbered.persists_run (hnumbered : env.Numbered base) (events : List Event)
    (hroom : base.since env.nextTxn + events.length < UInt64.size) :
    Persists env.txns (env.run events).txns := by
  induction events generalizing env with
  | nil => exact .refl _
  | cons e events ih =>
    rw [List.length_cons] at hroom
    have hnext := (since_nextTxn_after hnumbered (by omega) e).2
    intro id t ht
    obtain ⟨t₁, ht₁, hpersists₁⟩ := hnumbered.persists_after e id t ht
    obtain ⟨t₂, ht₂, hpersists₂⟩ := ih (hnumbered.after (by omega) e) (by omega) id t₁ ht₁
    exact ⟨t₂, ht₂, hpersists₂.timeouts.trans hpersists₁.timeouts,
      hpersists₂.started.trans hpersists₁.started⟩

/-- The timeouts that a transaction begun with `config` and a request in it are under. -/
def layersOf (settings : Config) (config : TxnConfig) (request : Option Duration) : Layers :=
  ⟨⟨settings.lockTimeout, settings.txnTimeout⟩, ⟨config.lockTimeout, config.txnTimeout⟩, request⟩

/-- The deadlines of a transaction that has just begun. -/
theorem deadlines_of_begin {config : TxnConfig} (h : (env.begin config).2 = .ok txn) :
    ∃ t, (env.begin config).1.txns.get? txn = some t ∧ ∀ start request,
      t.deadlines start request = (layersOf env.config config request).deadlines env.now start := by
  unfold begin at h ⊢
  split at h
  · cases h
  · cases h
  · cases h
    exact ⟨_, (SortedMap.get?_insert ..).trans (if_pos rfl), fun _ _ => rfl⟩

/-- The deadlines of a call asleep in a transaction that was begun in the run. -/
theorem Attentive.deadlines_of_begun {env₀ : Environment} (h : env₀.Attentive base)
    {before later : List Event} {config : TxnConfig}
    (horderly : env₀.Orderly (before ++ .begin config :: later))
    (hroom : base.since env₀.nextTxn + (before ++ .begin config :: later).length < UInt64.size)
    (hbegin : ((env₀.run before).begin config).2 = .ok txn) {id : Nat} {call : Call}
    {s : Monitor.Sleeper Waiting}
    (hcall : (env₀.run (before ++ .begin config :: later)).calls.get? id = some call)
    (htxn : call.op.txn? = some txn)
    (hs : (env₀.run (before ++ .begin config :: later)).locks.sleepers.get? id = some s) :
    s.memory.request.deadlines = (layersOf env₀.config config call.op.timeout).deadlines
      (env₀.run before).now s.memory.since := by
  rw [((h.run horderly hroom).asleep id call s hcall hs).deadlines, deadlinesOf, htxn]
  dsimp only
  rw [List.length_append, List.length_cons] at hroom
  have hnumbered₀ := h.acc.covered.numbered
  obtain ⟨hnumbered, hnext⟩ := hnumbered₀.run before (by omega)
  have hnext' := (since_nextTxn_after hnumbered (by omega) (.begin config)).2
  obtain ⟨t, ht, hdeadlines⟩ := deadlines_of_begin hbegin
  obtain ⟨t', ht', hpersists⟩ := (hnumbered.after (by omega) (.begin config)).persists_run later
    (by omega) txn t ht
  rw [run_append, run_cons, txn_eq_of_get? ht', hpersists.deadlines, hdeadlines,
    config_run hnumbered₀ before (by omega)]

/-- **Layered timeouts.** Each deadline of a wait is the end of the smallest positive timeout set
for it, and shortening a layer moves none to a later instant. A deadline has passed when the instant
to wake up at has come; the lock timeout is reported if its deadline is the earlier one, with the
smallest timeout as its length, and what is reported once is reported ever after. The calls asleep
in an environment wait under these deadlines. -/
theorem layered_timeouts :
    (∀ (l : Layers) (started start : Instant), let d := l.deadlines started start
      (EndsAt start l.lockTimeouts d.lock ∧ EndsAt started l.txnTimeouts d.txn) ∧
      (∀ l', l.Tightens l' → NoLater d.lock (l'.deadlines started start).lock ∧
        NoLater d.txn (l'.deadlines started start).txn) ∧
      ∀ now,
        ((d.expired? now).isSome = true ↔ ∃ due, d.next? = some due ∧ due ≤ now) ∧
        (∀ limit, d.expired? now = some (.lock limit) ↔
          Timeout.smallest? l.lockTimeouts = some limit ∧ start + limit < Instant.horizon ∧
            start + limit ≤ now ∧ ∀ t, d.txn = some t → start + limit < t.due) ∧
        (∀ limit, d.expired? now = some (.txn limit) ↔
          Timeout.smallest? l.txnTimeouts = some limit ∧ started + limit < Instant.horizon ∧
            started + limit ≤ now ∧ ∀ x, d.lock = some x → started + limit ≤ x.due) ∧
        ∀ later e, now ≤ later → d.expired? now = some e → d.expired? later = some e) ∧
    ∀ {settings : Config} {store : Store} {opened : Instant} {env : Environment},
      openOn settings store opened = .ok env → ∀ {events : List Event}, env.Orderly events →
      events.length < UInt64.size →
      ∀ {before later : List Event} {config : TxnConfig} {txn : TxnId},
      events = before ++ .begin config :: later → ((env.run before).begin config).2 = .ok txn →
      ∀ {id : Nat} {call : Call} {s : Monitor.Sleeper Waiting},
      (env.run events).calls.get? id = some call → call.op.txn? = some txn →
      (env.run events).locks.sleepers.get? id = some s →
      s.memory.request.deadlines = (layersOf settings config call.op.timeout).deadlines
        (env.run before).now s.memory.since := by
  refine ⟨fun l started start => ?_, ?_⟩
  · exact ⟨⟨l.endsAt_lock started start, l.endsAt_txn started start⟩,
      fun l' h => h.noLater started start, fun now => ⟨Deadlines.isSome_expired?_iff,
        l.expired?_eq_lock_iff started start now, l.expired?_eq_txn_iff started start now,
        fun later e => Deadlines.expired?_of_le⟩⟩
  intro settings store opened env hopen events horderly hroom before later config txn heq hbegin
    id call s hcall htxn hs
  obtain ⟨rs, hopened⟩ := openOn_ok hopen
  have hself : env.nextTxn.since env.nextTxn = 0 := TxnId.since_self _
  subst heq
  rw [← config_of_openOn hopen]
  exact hopened.attentive.deadlines_of_begun horderly (by omega) hbegin hcall htxn hs

/-- Settings with a lock timeout of zero, which is none, and a timeout for the transaction. -/
def hasty : TxnConfig := ⟨.serializable, some 0, some 600⟩

/-- A hasty transaction waits for another. Its request has a lock timeout shorter than that of the
environment. -/
def hurried : List Event :=
  [.begin .standard, .start 0 (.lock ⟨1⟩ [1] .write none), .step 0, .step 0, .tick 20,
    .begin hasty, .tick 50, .start 1 (.lock ⟨2⟩ [1] .read (some 400)), .step 1, .step 1, .tick 70]

theorem layered_timeouts_hurried :
    let l := layersOf .standard hasty none
    let l' := layersOf .standard hasty (some 400)
    (openOn .standard .empty 0 = .ok blank ∧ blank.Orderly hurried ∧
      hurried.length < UInt64.size ∧ ((blank.run (hurried.take 5)).begin hasty).2 = .ok ⟨2⟩) ∧
    (l.Tightens l' ∧ NoLater (l.deadlines 20 50).lock (l'.deadlines 20 50).lock) ∧
    (l'.deadlines 20 50 = ⟨some ⟨450, 400⟩, some ⟨620, 600⟩⟩ ∧
      (l'.deadlines 20 50).expired? 450 = some (.lock 400) ∧
      (l'.deadlines 20 50).expired? 1000 = some (.lock 400)) ∧
    ∃ s, (blank.run hurried).locks.sleepers.get? 1 = some s ∧
      s.memory.request.deadlines = l'.deadlines 20 50 := by
  intro l l'
  have horderly : blank.Orderly hurried := by decide +kernel
  have hbegin : ((blank.run (hurried.take 5)).begin hasty).2 = .ok ⟨2⟩ := rfl
  have htightens : l.Tightens l' :=
    ⟨.inl rfl, .inl rfl, .inl rfl, .inl rfl, .inr ⟨400, rfl, by decide, nofun⟩⟩
  have hexpired : (l'.deadlines 20 50).expired? 450 = some (.lock 400) := by decide +kernel
  have hcall : ((blank.run hurried).calls.get? 1).map (·.op) =
      some (.lock ⟨2⟩ [1] .read (some 400)) := by decide +kernel
  have hasleep : ((blank.run hurried).locks.sleepers.get? 1).map (·.memory.since) = some 50 := by
    decide +kernel
  obtain ⟨call, hcall, hop⟩ := Option.map_eq_some_iff.1 hcall
  obtain ⟨s, hs, hsince⟩ := Option.map_eq_some_iff.1 hasleep
  refine ⟨⟨openOn_empty, horderly, by decide, hbegin⟩, ⟨htightens, ?_⟩,
    ⟨by decide +kernel, hexpired, ?_⟩, s, hs, ?_⟩
  · exact ((layered_timeouts.1 l 20 50).2.1 l' htightens).1
  · exact ((layered_timeouts.1 l' 20 50).2.2 450).2.2.2 1000 _ (by decide) hexpired
  · have hdeadlines := layered_timeouts.2 openOn_empty horderly (by decide) rfl hbegin hcall
      (by rw [hop]; rfl) hs
    rw [hop, hsince] at hdeadlines
    exact hdeadlines

end WalStore.Environment
