import WalStore.Proofs.Environment.Covered

/-!
# Locks that reads borrow

**Theorem (`covered_run`).** In an orderly run every active transaction holds a write lock on each
key that its pending work touches, so no two active transactions have work on one key. A read of a
transaction that is read committed leaves the locks of its transaction as they were.

The read has a lock that is new from the step that gets it to the step that gives it back, and in
between its transaction holds that and what it held before (`Borrows`). A request that waits holds
nothing, a request that fails leaves nothing, and a lock that is not new is not given back.
-/

namespace WalStore

namespace Environment

variable {env env' : Environment} {base : TxnId} {id : Nat} {result : Option Result}

/-! ## Borrowing -/

/-- The call with number `id` reads `key` for `txn`, which is read committed and held `held` when
the call was made. Now it holds a lock on the key too if the call has got one that is new. -/
structure Borrows (env : Environment) (id : Nat) (txn : TxnId) (key : Bytes)
    (held : Resource → Option Mode) : Prop where
  isolation : (env.txn txn).isolation = .readCommitted
  call : ∃ call, env.calls.get? id = some call ∧ call.op = .get txn key ∧
    (call.stage.hasNew = true → held ⟨key⟩ = none) ∧
    ∀ res, env.locks.shared.table.holding txn res =
      if call.stage.hasNew = true ∧ res = ⟨key⟩ then some .read else held res

/-- A transaction that is read committed is one of the environment. -/
theorem isSome_of_readCommitted {txn : TxnId} (h : (env.txn txn).isolation = .readCommitted) :
    (env.txns.get? txn).isSome = true := by
  unfold Environment.txn SortedMap.getD at h
  cases hget : env.txns.get? txn with
  | none =>
    rw [hget] at h
    cases h
  | some t => rfl

theorem Numbered.isolation_after (h : env.Numbered base) (e : Event) {txn : TxnId}
    (hsome : (env.txns.get? txn).isSome = true) :
    ((env.after e).txn txn).isolation = (env.txn txn).isolation := by
  obtain ⟨t, ht⟩ := Option.isSome_iff_exists.1 hsome
  obtain ⟨t', ht', hdescends⟩ := h.descends_after e ht
  rw [txn_eq_of_get? ht, txn_eq_of_get? ht']
  exact hdescends.isolation

/-- A call that asks for its lock has none yet. -/
theorem Asks.hasNew {call : Call} {owner nextTxn : TxnId} {locks : LockManager}
    {outcome : Option LockState.Outcome} (h : Asks env id call owner nextTxn locks outcome) :
    call.stage.hasNew = false := by
  cases h with
  | direct hstage | inTxn hstage | again hstage =>
    rw [hstage]
    rfl

/-- A read that has got nothing new has borrowed nothing. -/
theorem borrows_of_hasNew {txn : TxnId} {key : Bytes} {held : Resource → Option Mode} {call : Call}
    (hisolation : (env.txn txn).isolation = .readCommitted)
    (hcall : env.calls.get? id = some call) (hop : call.op = .get txn key)
    (hnew : call.stage.hasNew = false)
    (hheld : ∀ res, env.locks.shared.table.holding txn res = held res) :
    env.Borrows id txn key held := by
  refine ⟨hisolation, call, hcall, hop, fun h => ?_, fun res => ?_⟩
  · rw [hnew] at h
    cases h
  · rw [hheld, hnew]
    exact (if_neg fun h => Bool.false_ne_true h.1).symm

/-- After a step of the read, its transaction holds what the stage of the call says, or the read is
over and its transaction holds what it held before. -/
theorem Step.borrows (h : Step env id env' result) (hcovered : env.Covered base) {txn : TxnId}
    {key : Bytes} {held : Resource → Option Mode} (hborrows : env.Borrows id txn key held)
    (hisolation : (env'.txn txn).isolation = .readCommitted) :
    (result = none → env'.Borrows id txn key held) ∧
      ∀ r, result = some r → ∀ res, env'.locks.shared.table.holding txn res = held res := by
  obtain ⟨call, hcall, hop, hfree, hholding⟩ := hborrows.call
  have hguarded := hcovered.calls id call hcall
  have howner {owner : TxnId} (howner : call.stage.owner? = some owner) : owner = txn := by
    have howns := hguarded.owns owner howner
    unfold Owns at howns
    rw [hop] at howns
    exact howns.1
  have hinsert (call' : Call) : (env.calls.insert id call').get? id = some call' :=
    (SortedMap.get?_insert ..).trans (if_pos rfl)
  -- As long as the read has nothing new its transaction holds what it held.
  have hheld (hnew : call.stage.hasNew = false) (res : Resource) :
      env.locks.shared.table.holding txn res = held res := by
    rw [hholding, hnew]
    exact if_neg fun h => Bool.false_ne_true h.1
  cases h with
  | idle hnone =>
    rw [hcall] at hnone
    cases hnone
  | refuse hcall' hstage =>
    obtain rfl := Option.some.inj (hcall.symm.trans hcall')
    exact ⟨by rintro ⟨⟩, fun _ _ => hheld (Stage.hasNew_of_isEarly hstage)⟩
  | accept hcall' hstage =>
    obtain rfl := Option.some.inj (hcall.symm.trans hcall')
    exact ⟨fun _ => borrows_of_hasNew hisolation (hinsert _) hop rfl
      (hheld (by rw [hstage]; rfl)), by rintro _ ⟨⟩⟩
  | wait hcall' hasks =>
    obtain rfl := Option.some.inj (hcall.symm.trans hcall')
    refine ⟨fun _ => borrows_of_hasNew hisolation (hinsert _) hop rfl fun res => ?_,
      by rintro _ ⟨⟩⟩
    cases hasks.lends hguarded hop with
    | same _ _ hsame => exact (hsame res).trans (hheld hasks.hasNew res)
  | deny hcall' hasks =>
    obtain rfl := Option.some.inj (hcall.symm.trans hcall')
    refine ⟨by rintro ⟨⟩, fun _ _ res => ?_⟩
    cases hasks.lends hguarded hop with
    | same _ _ hsame => exact (hsame res).trans (hheld hasks.hasNew res)
  | lock hcall' hlock =>
    obtain rfl := Option.some.inj (hcall.symm.trans hcall')
    rw [hop] at hlock
    cases hlock
  | take hcall' _ hasks =>
    obtain rfl := Option.some.inj (hcall.symm.trans hcall')
    have hold := hheld hasks.hasNew
    refine ⟨fun _ => ?_, by rintro _ ⟨⟩⟩
    cases hasks.lends hguarded hop with
    | same hnew _ hsame =>
      exact borrows_of_hasNew hisolation (hinsert _) hop (hnew _ rfl)
        fun res => (hsame res).trans (hold res)
    | more hnew hnone hmore =>
      refine ⟨hisolation, _, hinsert _, hop, fun _ => (hold _).symm.trans hnone, fun res => ?_⟩
      rw [hmore, hold, Stage.hasNew, hnew]
      simp
  | abort hcall' _ hop' =>
    obtain rfl := Option.some.inj (hcall.symm.trans hcall')
    rw [hop] at hop'
    rcases hop' with hop' | ⟨hop', -⟩ <;> cases hop'
  | commitFail hcall' _ hop' | commit hcall' _ hop' =>
    obtain rfl := Option.some.inj (hcall.symm.trans hcall')
    rw [hop] at hop'
    cases hop'
  | writeNow hcall' _ hentry | writeFail hcall' _ hentry | write hcall' _ hentry =>
    obtain rfl := Option.some.inj (hcall.symm.trans hcall')
    rw [hop] at hentry
    cases hentry
  | read hcall' hstage _ hkeeps =>
    obtain rfl := Option.some.inj (hcall.symm.trans hcall')
    obtain rfl := howner (by rw [hstage]; rfl)
    exact ⟨by rintro ⟨⟩, fun _ _ => hheld (by rw [hstage]; exact hkeeps hisolation)⟩
  | readOnce hcall' hstage _ _ hnew =>
    obtain rfl := Option.some.inj (hcall.symm.trans hcall')
    rw [hstage, Stage.hasNew, hnew] at hfree hholding
    exact ⟨fun _ => ⟨hisolation, _, hinsert _, hop, hfree, hholding⟩, by rintro _ ⟨⟩⟩
  | giveBack hcall' hstage hop' =>
    obtain rfl := Option.some.inj (hcall.symm.trans hcall')
    obtain rfl := howner (by rw [hstage]; rfl)
    cases hop.symm.trans hop'
    rw [hstage, Stage.hasNew] at hfree hholding
    refine ⟨by rintro ⟨⟩, fun _ _ res => (env.locks.holding_release ..).trans ?_⟩
    rw [hholding]
    by_cases hres : res = ⟨key⟩
    · rw [if_pos ⟨hres, rfl⟩, hres, hfree rfl]
    · rw [if_neg fun h => hres h.1, if_neg fun h => hres h.2]
  | leave hcall' _ hget =>
    obtain rfl := Option.some.inj (hcall.symm.trans hcall')
    exact absurd hop (hget txn key)

/-- An event leaves a read with what it has borrowed, unless the read is over by it. -/
theorem Borrows.after {txn : TxnId} {key : Bytes} {held : Resource → Option Mode}
    (h : env.Borrows id txn key held) (hcovered : env.Covered base) {e : Event}
    (he : e.Orderly env) : (env.resultOf? id e = none → (env.after e).Borrows id txn key held) ∧
      ∀ r, env.resultOf? id e = some r → ∀ res,
        (env.after e).locks.shared.table.holding txn res = held res := by
  have hsome := isSome_of_readCommitted h.isolation
  have hisolation := (hcovered.numbered.isolation_after e hsome).trans h.isolation
  by_cases hstep : e = .step id
  · subst hstep
    rw [resultOf?, if_pos rfl]
    exact (step_spec hcovered.numbered.named id).borrows hcovered h hisolation
  refine ⟨fun _ => ⟨hisolation, ?_⟩, fun r hr => absurd (eq_step_of_resultOf? hr).1 hstep⟩
  obtain ⟨call, hcall, hop, hfree, hholding⟩ := h.call
  have hstart (op : Op) : e ≠ .start id op := by
    rintro rfl
    rw [Event.Orderly, hcall] at he
    cases he.1
  have htxn : call.op.txn? = some txn := by rw [hop]; rfl
  have hother := hcovered.single.not_concerns he hstep hcall htxn
  exact ⟨call, (get?_calls_after hcovered.numbered.named hstep hstart).trans hcall, hop, hfree,
    fun res => (hcovered.holding_after hsome hother res).trans (hholding res)⟩

theorem Borrows.answered {txn : TxnId} {key : Bytes} {held : Resource → Option Mode}
    {events : List Event} {r : Result} (hanswers : Answers id r env events)
    (h : env.Borrows id txn key held) (hcovered : env.Covered base)
    (horderly : env.Orderly events)
    (hroom : base.since env.nextTxn + events.length < UInt64.size) (res : Resource) :
    (env.run events).locks.shared.table.holding txn res = held res := by
  induction hanswers with
  | last hresult => exact (h.after hcovered horderly.1).2 _ hresult res
  | @later env e events hresult _ ih =>
    rw [List.length_cons] at hroom
    have hnext := (since_nextTxn_after hcovered.numbered (by omega) e).2
    exact ih ((h.after hcovered horderly.1).1 hresult)
      (hcovered.after horderly.1 (by omega)) horderly.2 (by omega)

/-- A read that has just been made has borrowed nothing. -/
theorem Numbered.borrows_start (h : env.Numbered base) {txn : TxnId} (key : Bytes)
    (hisolation : (env.txn txn).isolation = .readCommitted) (id : Nat) :
    (env.after (.start id (.get txn key))).Borrows id txn key
      (env.locks.shared.table.holding txn) := by
  obtain ⟨tracker, timer, heq⟩ := env.start_eq id (.get txn key)
  have hafter := (h.isolation_after (.start id (.get txn key))
    (isSome_of_readCommitted hisolation)).trans hisolation
  rw [Environment.after, heq] at hafter ⊢
  exact borrows_of_hasNew hafter ((SortedMap.get?_insert ..).trans (if_pos rfl)) rfl rfl
    fun _ => rfl

/-! ## The theorem -/

/-- In an orderly run active transactions hold write locks on all they have work on, no two of them
have work on the same key, and reads of transactions that are read committed leave the locks of
their transactions as they were. -/
theorem covered_run {config : Config} {store : Store} {now : Instant} {env : Environment}
    (hopen : openOn config store now = .ok env) {events : List Event}
    (horderly : env.Orderly events) (hroom : events.length < UInt64.size) :
    (∀ txn key, ((env.run events).txn txn).isActive = true →
      ((env.run events).state.workOf txn).Touches key →
      (env.run events).locks.shared.table.holding txn ⟨key⟩ = some .write) ∧
    (∀ txn txn' key, ((env.run events).txn txn).isActive = true →
      ((env.run events).txn txn').isActive = true →
      ((env.run events).state.workOf txn).Touches key →
      ((env.run events).state.workOf txn').Touches key → txn = txn') ∧
    ∀ before id txn key later r, events = before ++ .start id (.get txn key) :: later →
      Answers id r (env.run before) (.start id (.get txn key) :: later) →
      ((env.run before).txn txn).isolation = .readCommitted → ∀ res,
      (env.run events).locks.shared.table.holding txn res =
        (env.run before).locks.shared.table.holding txn res := by
  obtain ⟨rs, hopened⟩ := openOn_ok hopen
  have hcovered := hopened.covered
  have hroom' : env.nextTxn.since env.nextTxn + events.length < UInt64.size := by
    rwa [TxnId.since_self, Nat.zero_add]
  have hend := (hcovered.run horderly hroom').1
  refine ⟨fun txn key hactive htouches => ?_,
    fun txn txn' key hactive hactive' htouches htouches' => ?_,
    fun before id txn key later r hevents hanswers hisolation res => ?_⟩
  · exact locks_write_iff.1 (hend.work txn key (mayCommit_of_isActive hactive) htouches).2
  · have hlocks := (hend.work txn key (mayCommit_of_isActive hactive) htouches).2
    have hlocks' := (hend.work txn' key (mayCommit_of_isActive hactive') htouches').2
    exact hend.exclusive.eq_of_holds hlocks' hlocks
  · subst hevents
    rw [List.length_append, List.length_cons] at hroom'
    obtain ⟨hbefore, hlater⟩ := orderly_append.1 horderly
    obtain ⟨hmid, hnext⟩ := hcovered.run hbefore (by omega)
    have hborrows := hmid.numbered.borrows_start key hisolation id
    have hnext' := (since_nextTxn_after hmid.numbered (by omega) (.start id (.get txn key))).2
    rw [run_append]
    cases hanswers with
    | last hresult => cases hresult
    | later _ hanswers =>
      exact hborrows.answered hanswers (hmid.after hlater.1 (by omega)) hlater.2 (by omega) res

/-- A transaction that is read committed writes one key and reads another, which a second
transaction has read too and then waits to write. -/
def borrowing : List Event :=
  [.begin ⟨.readCommitted, none, none⟩, .begin .standard, .start 0 (.put ⟨1⟩ [1] [7]), .step 0,
    .step 0, .step 0, .start 1 (.get ⟨2⟩ [2]), .step 1, .step 1, .step 1,
    .start 2 (.get ⟨1⟩ [2]), .step 2, .step 2, .step 2, .start 3 (.put ⟨2⟩ [2] [5]), .step 3,
    .step 3, .step 2]

theorem covered_run_borrowing :
    openOn .standard .empty 0 = .ok blank ∧ blank.Orderly borrowing ∧
      borrowing.length < UInt64.size ∧
      (((blank.run borrowing).txn ⟨1⟩).isActive = true ∧
        ((blank.run borrowing).state.workOf ⟨1⟩).Touches [1] ∧
        (blank.run borrowing).locks.shared.table.holding ⟨1⟩ ⟨[1]⟩ = some .write) ∧
      (Answers 2 (.ok (.values [])) (blank.run (borrowing.take 10)) (borrowing.drop 10) ∧
        ((blank.run (borrowing.take 10)).txn ⟨1⟩).isolation = .readCommitted ∧
        (blank.run (borrowing.take 15)).locks.shared.table.holding ⟨1⟩ ⟨[2]⟩ = some .read ∧
        ∀ res, (blank.run borrowing).locks.shared.table.holding ⟨1⟩ res =
          (blank.run (borrowing.take 10)).locks.shared.table.holding ⟨1⟩ res) := by
  have horderly : blank.Orderly borrowing := by decide +kernel
  have hroom : borrowing.length < UInt64.size := by decide
  have hactive : ((blank.run borrowing).txn ⟨1⟩).isActive = true := by decide +kernel
  have htouches : ((blank.run borrowing).state.workOf ⟨1⟩).Touches [1] :=
    .inl ⟨[7], by decide +kernel⟩
  have hanswers : Answers 2 (.ok (.values [])) (blank.run (borrowing.take 10))
      (borrowing.drop 10) := by
    refine .later rfl (.later ?_ (.later ?_ (.later ?_ (.later rfl (.later rfl (.later rfl
      (.last ?_))))))) <;> decide +kernel
  have hisolation : ((blank.run (borrowing.take 10)).txn ⟨1⟩).isolation = .readCommitted := by
    decide +kernel
  obtain ⟨hwrite, -, hreads⟩ := covered_run openOn_empty horderly hroom
  refine ⟨openOn_empty, horderly, hroom, ⟨hactive, htouches, hwrite _ _ hactive htouches⟩,
    hanswers, hisolation, by decide +kernel, ?_⟩
  exact hreads (borrowing.take 10) 2 ⟨1⟩ [2] (borrowing.drop 11) _ rfl hanswers hisolation

end Environment
end WalStore
