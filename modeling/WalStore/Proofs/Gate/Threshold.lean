import WalStore.Proofs.Gate.Recheck

/-!
# Waits end when their threshold is reached

**Theorem (`released_run`).** A gate is never abandoned. Then a wait is answered with true only when
there are keys enough, and with false only when there are not and its time is up; the gate counts
the calls asleep; and when no cancellation is under way and all woken calls have looked again, the
calls still asleep are those that lack keys, have time left and a token that is not cancelled. So
each new key releases the calls whose threshold it reaches, and no others (`Fills`).
-/

namespace WalStore.Gate

open Monitor

variable {κ ν : Type} [Ord κ] {w v : World κ ν}

/-! ## Calls by their requests -/

/-- The call has no reason to return. -/
structure Blocked (w : World κ ν) (token : Option TokenId) (request : SizeWait) (began : Instant) :
    Prop where
  short : w.monitor.shared.size < request.need
  uncancelled : w.monitor.isCancelled token = false
  timed : ∀ due, request.timeout.bind (Instant.after? began) = some due → w.now < due

theorem SeesSame.blocked_iff (h : SeesSame w v) {token : Option TokenId} {request : SizeWait}
    {began : Instant} :
    Blocked v token request began ↔ Blocked w token request began := by
  have hsize : v.monitor.shared.size = w.monitor.shared.size :=
    congrArg SortedMap.size h.like.entries
  have hflag := h.isCancelled token
  have hnow := h.unmoved.now
  constructor
  · rintro ⟨hshort, hdown, htime⟩
    exact ⟨hsize ▸ hshort, hflag ▸ hdown, hnow ▸ htime⟩
  · rintro ⟨hshort, hdown, htime⟩
    exact ⟨hsize ▸ hshort, hflag ▸ hdown, hnow ▸ htime⟩

variable [Std.TransOrd κ] [Std.LawfulEqOrd κ]
variable {moves : List (Move κ ν)} {call : Nat} {token : Option TokenId} {request : SizeWait}
  {began : Instant}

/-- What is known of a call that is asleep, if nothing has been abandoned. -/
theorem memory_of_started (hmoves : causes moves = [])
    (hstarted : w.Started (setting κ ν) moves call token request began)
    {s : Sleeper SizeWaiting} (hget : (w.run (setting κ ν) moves).asleep? call = some s) :
    s.token.map (·.1) = token ∧ s.memory = ⟨request.need,
      request.timeout.bind (Instant.after? began),
      (w.run (setting κ ν) moves).monitor.shared.generation⟩ := by
  obtain ⟨htoken, before, after, rfl, hfate⟩ := hstarted.arrive remembers_setting hget
  obtain ⟨hmemory, -⟩ := (arrive_spec ..).sleeps hfate
  rw [causes_append] at hmoves
  have hbefore : causes before = [] := (List.append_eq_nil_iff.1 hmoves).1
  refine ⟨htoken, hmemory.trans ?_⟩
  rw [(generation_run w _).1, causes_append, hmoves, waiting, (generation_run w before).1, hbefore]

theorem verdict?_eq_none_iff (hmoves : causes moves = [])
    (hstarted : w.Started (setting κ ν) moves call token request began)
    {s : Sleeper SizeWaiting} (hget : (w.run (setting κ ν) moves).asleep? call = some s) :
    verdict? (w.run (setting κ ν) moves) s = none ↔
      Blocked (w.run (setting κ ν) moves) token request began := by
  obtain ⟨htoken, hmemory⟩ := memory_of_started hmoves hstarted hget
  rw [verdict?, answer?_eq_none_iff, htoken, hmemory]
  constructor
  · rintro ⟨-, hneed, hflag, htime⟩
    exact ⟨hneed, hflag, htime⟩
  · rintro ⟨hneed, hflag, htime⟩
    exact ⟨rfl, hneed, hflag, htime⟩

/-- A call that rests has not missed anything, once the cancellations are over. -/
theorem Sound.verdict? (h : Sound w) (hraised : w.raised = []) (hwakers : w.wakers = 0)
    {s : Sleeper SizeWaiting} (hget : w.asleep? call = some s) (hrests : s.woken = false) :
    verdict? w s = none := by
  obtain ⟨hgeneration, hneed⟩ := h.kept.resting call s hget hrests
  have hpatient := h.attended.calm call s hget hrests
  exact answer?_eq_none_iff.2
    ⟨hgeneration, hneed, hpatient.uncancelled hraised hwakers, hpatient.timed⟩

/-- **The calls that stay asleep** are those that have no reason to return. -/
theorem still_asleep_iff (h : Sound (w.run (setting κ ν) moves)) (hmoves : causes moves = [])
    (hraised : (w.run (setting κ ν) moves).raised = [])
    (hwakers : (w.run (setting κ ν) moves).wakers = 0) {calls : List Nat}
    (hquiet : ((w.run (setting κ ν) moves).rechecked (setting κ ν) calls).monitor.isQuiet = true)
    (hstarted : w.Started (setting κ ν) moves call token request began) :
    (((w.run (setting κ ν) moves).rechecked (setting κ ν) calls).asleep? call).isSome = true ↔
      ((w.run (setting κ ν) moves).asleep? call).isSome = true ∧
        Blocked ((w.run (setting κ ν) moves).rechecked (setting κ ν) calls) token request
          began := by
  rw [asleep_of_quiet hquiet, (sees_rechecks _ calls).blocked_iff]
  cases hget : (w.run (setting κ ν) moves).asleep? call with
  | none => simp
  | some s =>
    have hblocked := verdict?_eq_none_iff hmoves hstarted hget
    rw [Option.bind_some, isSome_relook, hblocked, Option.isSome_some, eq_self, true_and]
    exact or_iff_right_of_imp fun hrests => hblocked.1 (h.verdict? hraised hwakers hget hrests)

/-! ## Keys one after another -/

/-- A key is put. -/
abbrev afterPut (w : World κ ν) (key : κ) (value : ν) : World κ ν :=
  w.step (setting κ ν) (.act (.put key value))

/-- New keys are put one after another, and each time all calls that this wakes look again. The
results of these looks are listed key by key. -/
inductive Fills : World κ ν → List (List (Nat × Except Error Bool)) → World κ ν → Prop
  | done (w : World κ ν) : Fills w [] w
  | put {w v : World κ ν} (key : κ) (value : ν) (calls : List Nat)
      {releases : List (List (Nat × Except Error Bool))}
      (hnew : w.monitor.shared.entries.get? key = none)
      (hquiet : ((afterPut w key value).rechecked (setting κ ν) calls).monitor.isQuiet = true)
      (hlater : Fills ((afterPut w key value).rechecked (setting κ ν) calls) releases v) :
      Fills w ((afterPut w key value).recheckResults (setting κ ν) calls :: releases) v

/-- A new key makes one more, and wakes all calls asleep. -/
theorem put_new (h : Sound w) {key : κ} (value : ν)
    (hnew : w.monitor.shared.entries.get? key = none) :
    (afterPut w key value).monitor.shared.size = w.monitor.shared.size + 1 ∧
      ∀ c, (afterPut w key value).asleep? c = (w.asleep? c).map (·.nudged true) := by
  classical
  refine ⟨?_, fun c => ?_⟩
  · rw [shared_step_act]
    exact SortedMap.size_insert_of_none hnew value
  · cases w.step_effect (E := setting κ ν) (.act (.put key value)) with
    | act _ hnudged =>
      rw [hnudged.sleepers]
      cases hget : w.asleep? c with
      | none => rfl
      | some s =>
        have hpos : 0 < w.monitor.shared.waiters := by
          have := size_erase_of_asleep hget
          rw [h.kept.waiters]
          omega
        have hnotify : ((Action.put key value).perform w.monitor.shared).notify = true := by
          change ((w.monitor.shared.entries.get? key).isNone && decide _) = true
          simp [hnew, hpos]
        exact congrArg (fun notify => some (s.nudged notify)) hnotify
    | wake _ hmove => exact absurd rfl (hmove _)

/-- What a call asleep is answered after a new key, if nothing was under way before. -/
theorem verdict?_put (h : Sound w) (hquiescent : w.Quiescent) {key : κ} (value : ν)
    (hnew : w.monitor.shared.entries.get? key = none) {s : Sleeper SizeWaiting}
    (hget : w.asleep? call = some s) :
    verdict? (afterPut w key value) (s.nudged true) =
      if s.memory.need = w.monitor.shared.size + 1 then some (.ok true) else none := by
  obtain ⟨hrests, hflag, htime⟩ := h.attended.of_quiescent hquiescent hget
  obtain ⟨hgeneration, hneed⟩ := h.kept.resting call s hget hrests
  have hsize := (put_new h value hnew).1
  have hkept : (afterPut w key value).monitor.shared.generation = s.memory.generation :=
    (generation_step w _).1.trans hgeneration
  have hmove (t : TokenId) : (.act (.put key value) : Move κ ν) ≠ .raise t := nofun
  split
  · next hreached =>
    exact answer?_eq_true_iff.2 ⟨hkept, Nat.le_of_eq (hreached.trans hsize.symm)⟩
  · refine answer?_eq_none_iff.2 ⟨hkept, ?_, (w.isCancelled_step hmove _).trans hflag, htime⟩
    change _ < s.memory.need
    omega

/-- The calls that need as many keys as there are now return, the others rest again. -/
theorem put_spec (h : Sound w) (hquiescent : w.Quiescent) {key : κ} {value : ν}
    (hnew : w.monitor.shared.entries.get? key = none) {calls : List Nat}
    (hquiet : ((afterPut w key value).rechecked (setting κ ν) calls).monitor.isQuiet = true)
    (c : Nat) :
    (∀ result, (c, result) ∈ (afterPut w key value).recheckResults (setting κ ν) calls ↔
      result = .ok true ∧
        ∃ s, w.asleep? c = some s ∧ s.memory.need = w.monitor.shared.size + 1) ∧
    ((afterPut w key value).rechecked (setting κ ν) calls).asleep? c =
      (w.asleep? c).filter fun s => s.memory.need ≠ w.monitor.shared.size + 1 := by
  have hasleep := (put_new h value hnew).2 c
  have hresults := mem_results_of_quiet hquiet c
  rw [asleep_of_quiet hquiet, hasleep]
  rw [hasleep] at hresults
  cases hget : w.asleep? c with
  | none => simp [hresults, hget]
  | some s =>
    obtain ⟨hrests, -⟩ := h.attended.of_quiescent hquiescent hget
    have hverdict := verdict?_put h hquiescent value hnew hget
    rw [hget, Option.map_some] at hresults
    refine ⟨fun result => ?_, ?_⟩
    · have hnudged : (∃ s', some (s.nudged true) = some s' ∧ s'.woken = true ∧
          verdict? (afterPut w key value) s' = some result) ↔
          verdict? (afterPut w key value) (s.nudged true) = some result := by
        simp
      rw [hresults, hnudged, hverdict]
      simp only [Option.ite_none_right_eq_some, Option.some.injEq, exists_eq_left']
      exact and_comm.trans (and_congr_left' eq_comm)
    · rw [Option.map_some, Option.bind_some, relook, if_pos (by simp), hverdict]
      by_cases hreached : s.memory.need = w.monitor.shared.size + 1
      · simp [Option.filter, hreached]
      · have hsame : ({ s.nudged true with woken := false } : Sleeper SizeWaiting) = s := by
          rw [← hrests]
          rfl
        rw [if_neg hreached]
        simp [Option.filter, hreached, hsame]

/-- **Each new key releases the calls whose threshold it reaches.** -/
theorem Fills.mem_iff {releases : List (List (Nat × Except Error Bool))}
    (hfills : Fills w releases v) (h : Sound w) (hquiescent : w.Quiescent) (i c : Nat)
    (result : Except Error Bool) :
    (∃ released, releases[i]? = some released ∧ (c, result) ∈ released) ↔
      i < releases.length ∧ result = .ok true ∧
        ∃ s, w.asleep? c = some s ∧ s.memory.need = w.monitor.shared.size + i + 1 := by
  induction hfills generalizing i with
  | done w => simp
  | @put w v key value calls releases hnew hquiet hlater ih =>
    obtain ⟨hresults, hasleep⟩ := put_spec h hquiescent hnew hquiet c
    cases i with
    | zero => simpa using hresults result
    | succ i =>
      have hsound : Sound ((afterPut w key value).rechecked (setting κ ν) calls) :=
        Sound.run (h.run [.act (.put key value)]) _
      have hsame := sees_rechecks (afterPut w key value) calls
      have hsize : ((afterPut w key value).rechecked (setting κ ν) calls).monitor.shared.size =
          w.monitor.shared.size + 1 := by
        rw [size, hsame.like.entries]
        exact (put_new h value hnew).1
      have hrest := ih hsound ⟨hquiet, hsame.unmoved.raised.trans hquiescent.raised,
        hsame.unmoved.wakers.trans hquiescent.wakers⟩ i
      rw [hsize, hasleep] at hrest
      rw [List.getElem?_cons_succ, hrest, List.length_cons, Nat.succ_lt_succ_iff]
      refine and_congr_right fun _ => and_congr_right fun _ => exists_congr fun s => ?_
      rw [Option.filter_eq_some_iff, and_assoc, decide_eq_true_eq]
      exact and_congr_right fun _ => ⟨fun h => by omega, fun h => ⟨by omega, by omega⟩⟩

/-! ## Results -/

theorem need_of_true {before : List (Move κ ν)} {move : Move κ ν}
    (hlooks : w.Looks (setting κ ν) before request moves move)
    (houtcome : (w.run (setting κ ν) moves).outcome? (setting κ ν) move = some (.ok true)) :
    request.need ≤ (w.run (setting κ ν) moves).monitor.shared.size := by
  obtain ⟨token, ⟨rfl, hreturns⟩ | ⟨memory, hsleeps, hreturns⟩⟩ :=
    hlooks.result remembers_setting houtcome
  · exact (arrive_spec ..).need_le hreturns
  · obtain ⟨rfl, -⟩ := (arrive_spec ..).sleeps hsleeps
    exact (again_spec ..).need_le hreturns

theorem late_of_false {before : List (Move κ ν)} {move : Move κ ν}
    (hlooks : w.Looks (setting κ ν) before request moves move)
    (houtcome : (w.run (setting κ ν) moves).outcome? (setting κ ν) move = some (.ok false)) :
    (w.run (setting κ ν) moves).monitor.shared.size < request.need ∧
      ∃ due, request.timeout.bind (Instant.after? (w.run (setting κ ν) before).now) = some due ∧
        due ≤ (w.run (setting κ ν) moves).now := by
  obtain ⟨token, ⟨rfl, hreturns⟩ | ⟨memory, hsleeps, hreturns⟩⟩ :=
    hlooks.result remembers_setting houtcome
  · rcases (arrive_spec ..).returns hreturns with ⟨cause, -, heq⟩ | ⟨-, hanswer⟩
    · cases heq
    · obtain ⟨-, hneed, -, hlate⟩ := answer?_eq_false_iff.1 hanswer
      exact ⟨hneed, hlate⟩
  · obtain ⟨rfl, -⟩ := (arrive_spec ..).sleeps hsleeps
    obtain ⟨-, hneed, -, hlate⟩ :=
      answer?_eq_false_iff.1 ((again_spec ..).returns_iff.1 hreturns)
    exact ⟨hneed, hlate⟩

/-! ## Runs -/

/-- After the rechecks that end in `v` the calls asleep are the blocked ones, and new keys release
those that need them. -/
structure Settled (start : World κ ν) (moves : List (Move κ ν)) (v : World κ ν) : Prop where
  started : ∀ call, (v.asleep? call).isSome →
    ∃ token request began, start.Started (setting κ ν) moves call token request began
  blocked : ∀ call token request began,
    start.Started (setting κ ν) moves call token request began →
      ((v.asleep? call).isSome ↔ ((start.run (setting κ ν) moves).asleep? call).isSome ∧
        Blocked v token request began)
  released : ∀ call token request began,
    start.Started (setting κ ν) moves call token request began →
      ∀ releases v', Fills v releases v' → ∀ i result,
        (∃ released, releases[i]? = some released ∧ (call, result) ∈ released) ↔
          i < releases.length ∧ result = .ok true ∧ (v.asleep? call).isSome ∧
            request.need = v.monitor.shared.size + i + 1

theorem Sound.settled (h : Sound (w.run (setting κ ν) moves)) (hmoves : causes moves = [])
    (hfresh : ∀ c, w.asleep? c = none) {calls : List Nat}
    (hquiescent : ((w.run (setting κ ν) moves).rechecked (setting κ ν) calls).Quiescent) :
    Settled w moves ((w.run (setting κ ν) moves).rechecked (setting κ ν) calls) := by
  have hasleep := asleep_of_quiet hquiescent.quiet
  have hunmoved := (sees_rechecks (w.run (setting κ ν) moves) calls).unmoved
  refine ⟨fun call hstill => ?_, fun call token request began hstarted =>
    still_asleep_iff h hmoves (hunmoved.raised.symm.trans hquiescent.raised)
      (hunmoved.wakers.symm.trans hquiescent.wakers) hquiescent.quiet hstarted,
    fun call token request began hstarted releases v' hfills i result => ?_⟩
  · obtain ⟨s', hs'⟩ := Option.isSome_iff_exists.1 hstill
    obtain ⟨s, hs, -⟩ := Option.bind_eq_some_iff.1 ((hasleep call).symm.trans hs')
    rcases World.asleep_run hs with ⟨_, hbefore⟩ | hstarted
    · rw [hfresh] at hbefore
      cases hbefore
    · exact hstarted
  · rw [hfills.mem_iff (h.run _) hquiescent, hasleep]
    refine and_congr_right fun _ => and_congr_right fun _ => ?_
    cases hget : ((w.run (setting κ ν) moves).asleep? call).bind
        (relook (w.run (setting κ ν) moves)) with
    | none => simp
    | some s' =>
      obtain ⟨s, hs, hrelook⟩ := Option.bind_eq_some_iff.1 hget
      have hneed : s'.memory.need = request.need := by
        rw [(woken_relook hrelook).2.1, (memory_of_started hmoves hstarted hs).2]
      simp [hneed]

/-- **Waits end when their threshold is reached**, as long as the gate is not abandoned. -/
theorem released_run {g : Gate κ ν} (hidle : g.waiters = 0) (start : Instant)
    (moves : List (Move κ ν)) (hmoves : causes moves = []) :
    let fresh : World κ ν := .fresh g start
    let w := fresh.run (setting κ ν) moves
    w.monitor.shared.waiters = w.monitor.sleepers.size ∧
    (∀ before request move, fresh.Looks (setting κ ν) before request moves move →
      (w.outcome? (setting κ ν) move = some (.ok true) → request.need ≤ w.monitor.shared.size) ∧
      (w.outcome? (setting κ ν) move = some (.ok false) →
        w.monitor.shared.size < request.need ∧
          ∃ due, request.timeout.bind
            (Instant.after? (fresh.run (setting κ ν) before).now) = some due ∧ due ≤ w.now)) ∧
    (w.raised = [] → w.wakers = 0 →
      ∃ calls : List Nat, (w.rechecked (setting κ ν) calls).Quiescent) ∧
    ∀ calls : List Nat, (w.rechecked (setting κ ν) calls).Quiescent →
      Settled fresh moves (w.rechecked (setting κ ν) calls) := by
  intro fresh w
  have hsound : Sound w := (sound_fresh hidle start).run moves
  refine ⟨hsound.kept.waiters, fun before request move hlooks =>
    ⟨need_of_true hlooks, late_of_false hlooks⟩, fun hraised hwakers => ?_,
    fun calls hquiescent => hsound.settled hmoves (fun _ => rfl) hquiescent⟩
  obtain ⟨calls, hquiet⟩ := exists_quiet w
  have hunmoved := (sees_rechecks w calls).unmoved
  exact ⟨calls, hquiet, hunmoved.raised.trans hraised, hunmoved.wakers.trans hwakers⟩

/-- Three calls wait for one, two and three keys. The second key releases the second call alone. -/
theorem released_run_thresholds :
    let w : World Nat Unit := World.run (setting Nat Unit) (.fresh .empty 0)
      [.enter none ⟨1, none⟩, .enter none ⟨2, none⟩, .enter none ⟨3, none⟩]
    w.monitor.shared.waiters = w.monitor.sleepers.size ∧
      ∃ first second v, Fills w [first, second] v ∧
        (1, .ok true) ∈ second ∧ (1, .ok true) ∉ first ∧ (2, .ok true) ∉ second := by
  intro w
  obtain ⟨hcount, -, -, hsettled⟩ := released_run (rfl : (.empty : Gate Nat Unit).waiters = 0) 0
    [.enter none ⟨1, none⟩, .enter none ⟨2, none⟩, .enter none ⟨3, none⟩] rfl
  have hreleased := (hsettled [] ⟨by decide +kernel, rfl, rfl⟩).released
  have hone := hreleased 1 none ⟨2, none⟩ 0
    ⟨[.enter none ⟨1, none⟩], [.enter none ⟨3, none⟩], rfl, by decide +kernel, rfl⟩
  have htwo := hreleased 2 none ⟨3, none⟩ 0
    ⟨[.enter none ⟨1, none⟩, .enter none ⟨2, none⟩], [], rfl, by decide +kernel, rfl⟩
  have hfills : Fills w _ _ :=
    .put 10 () [2, 1, 0] (by decide +kernel) (by decide +kernel)
      (.put 20 () [1, 2] (by decide +kernel) (by decide +kernel) (.done _))
  refine ⟨hcount, _, _, _, hfills, ?_, fun hmem => ?_, fun hmem => ?_⟩
  · obtain ⟨_, hget, hmem⟩ := (hone _ _ hfills 1 (.ok true)).2
      ⟨Nat.lt_succ_self 1, rfl, by decide +kernel, by decide +kernel⟩
    rwa [← Option.some.inj hget] at hmem
  · obtain ⟨-, -, -, hneed⟩ := (hone _ _ hfills 0 (.ok true)).1 ⟨_, rfl, hmem⟩
    exact absurd hneed (by decide +kernel)
  · obtain ⟨-, -, -, hneed⟩ := (htwo _ _ hfills 1 (.ok true)).1 ⟨_, rfl, hmem⟩
    exact absurd hneed (by decide +kernel)

end WalStore.Gate
