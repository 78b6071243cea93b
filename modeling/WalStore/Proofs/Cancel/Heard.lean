import WalStore.Proofs.Cancel.Calls
import WalStore.Proofs.Gate
import WalStore.Proofs.Lock.Wakeup

/-!
# No cancellation is lost

**Theorem (`heard_of_reachable`).** When a cancellation has returned and whoever it woke has looked
again, no call that uses the token is asleep, and none falls asleep any more. A call that returns
leaves no waker, and cancelling once more leaves everything as it is.

A call is unaware of a cancellation if it has seen the flag down and has not been woken since
(`Phase.unaware`). It has been registered before it read the flag, so every cancellation of its
token still has to note the wakers, and will find it, or has noted it and not run its waker yet
(`Heard`).
The waker does not run while the call has the mutex, that is, between its reading the flag and its
falling asleep (`Exclusive`).
-/

namespace WalStore.Cancel

open Monitor

/-! ## Looks -/

/-- Nobody falls asleep who has seen the flag up. -/
theorem Intent.heeds {p : Primitive} (intent : Intent p) {now : Instant} {cancelled : Bool}
    {s : p.State} {memory : p.Memory}
    (hfate : (intent.look ⟨now, cancelled⟩ s).fate = .sleeps memory) :
    cancelled = false := by
  cases p with
  | locks =>
    cases intent with
    | first request => exact ((LockState.arrive_spec _ request s).in_time hfate).1
    | again waiting => exact ((LockState.attempt_spec true _ waiting s).in_time hfate).1
  | gate κ ν =>
    cases intent with
    | first request =>
      obtain ⟨-, -, hanswer⟩ := (Gate.arrive_spec s _ request).sleeps hfate
      exact (Gate.answer?_eq_none_iff.1 hanswer).2.2.1
    | again waiting =>
      obtain ⟨-, hanswer⟩ := (Gate.again_spec s _ waiting).sleeps hfate
      exact (Gate.answer?_eq_none_iff.1 hanswer).2.2.1

/-! ## Phases -/

namespace Phase

variable {p : Primitive}

/-- It has seen the flag down, and nobody has woken it since. -/
def unaware : Phase p → Bool
  | asleep _ woken => !woken
  | informed _ cancelled => !cancelled
  | arriving _ | inside _ | leaving _ => false

theorem unaware_of_nudged {notify : Bool} {phase : Phase p}
    (h : (phase.nudged notify).unaware = true) :
    phase.unaware = true ∧ (notify = true → phase.hasMutex = true) := by
  cases phase with
  | asleep memory woken => cases woken <;> cases notify <;> simp_all [nudged, unaware]
  | informed intent cancelled => exact ⟨h, fun _ => rfl⟩
  | _ => cases h

theorem unaware_ofFate (fate : Fate p.Memory p.Result) :
    (ofFate fate).unaware = (ofFate fate).isAsleep := by
  cases fate <;> rfl

end Phase

variable {ι : Type} {P : ι → Primitive} {w w' : World P} {c k : Nat} {t : TokenId}

/-! ## Reaching calls -/

theorem isCancelled_eq_false {call : Call P} (h : w.isCancelled call = false)
    (htoken : call.token? = some t) : (w.token t).cancelled = false := by
  rwa [World.isCancelled, htoken] at h

/-- Whoever is registered is among the wakers. -/
theorem Registered.mem_wakers (h : Registered w) {call : Call P} (hget : w.calls.get? c = some call)
    (htoken : call.token? = some t) : call.place ∈ (w.token t).wakers := by
  obtain ⟨⟨t', id⟩, hregistration, rfl⟩ := Option.map_eq_some_iff.1 htoken
  have hlisted := (h.listed t' id call.place).2 ⟨c, by rw [identity?_of_get? hget, hregistration]⟩
  exact List.mem_map_of_mem (SortedMap.get?_eq_some_iff.1 hlisted)

/-- A waker will still run at a place. -/
def Stage.reaches (place : ι) : Stage ι → Prop
  | raised => True
  | running wakers => place ∈ wakers

/-- Each cancellation has raised the flag, and will still reach all calls that are unaware of it. -/
structure Heard (w : World P) : Prop where
  flag : ∀ k x, w.cancellations.get? k = some x → (w.token x.token).cancelled = true
  pending : ∀ c call, w.calls.get? c = some call → call.phase.unaware = true →
    ∀ k x, w.cancellations.get? k = some x → call.token? = some x.token →
      x.stage.reaches call.place

theorem heard_fresh (shared : (place : ι) → (P place).State) : Heard (.fresh shared) where
  flag _ _ h := nomatch h
  pending _ _ h := nomatch h

/-- The call has been there, and has been unaware, too. -/
def WasUnaware (w : World P) (c : Nat) (call' : Call P) : Prop :=
  ∃ call, w.calls.get? c = some call ∧ call.phase.unaware = true ∧ call'.place = call.place ∧
    call'.token? = call.token?

/-- An unaware call was unaware before, or it has read its token's flag. -/
theorem Origin.unaware {call' : Call P} (h : Origin w c call')
    (hunaware : call'.phase.unaware = true) :
    w.isCancelled call' = false ∨ WasUnaware w c call' := by
  cases h with
  | started => cases hunaware
  | @stayed call notify hget =>
    exact .inr ⟨call, hget, (Phase.unaware_of_nudged hunaware).1, rfl, rfl⟩
  | entered => cases hunaware
  | informed => exact .inl ((Bool.not_eq_true' _).mp hunaware)
  | @looked call intent cancelled now hget hphase =>
    rw [Phase.unaware_ofFate] at hunaware
    obtain ⟨memory, hfate⟩ := Phase.sleeps_of_isAsleep hunaware
    obtain rfl := intent.heeds hfate
    exact .inr ⟨call, hget, by rw [hphase]; rfl, rfl, rfl⟩

theorem Heard.of_same (h : Heard w)
    (hflags : ∀ t, (w.token t).cancelled = true → (w'.token t).cancelled = true)
    (hsame : w'.cancellations = w.cancellations)
    (hcalls : ∀ c call', w'.calls.get? c = some call' → call'.phase.unaware = true →
      w.isCancelled call' = false ∨ WasUnaware w c call') : Heard w' := by
  refine ⟨fun k x hx => hflags _ (h.flag k x (hsame ▸ hx)),
    fun c call' hget' hunaware k x hx htoken => ?_⟩
  rw [hsame] at hx
  rcases hcalls c call' hget' hunaware with hdown | ⟨call, hget, hbefore, hplace, htoken'⟩
  · have hup := h.flag k x hx
    rw [isCancelled_eq_false hdown htoken] at hup
    cases hup
  · exact hplace ▸ h.pending c call hget hbefore k x hx (htoken'.symm.trans htoken)

/-- A cancellation goes on. -/
theorem Heard.insert (h : Heard w)
    (hflags : ∀ t, (w.token t).cancelled = true → (w'.token t).cancelled = true)
    (hup : (w'.token t).cancelled = true) {stage : Stage ι}
    (hcancellations : w'.cancellations = w.cancellations.insert k ⟨t, stage⟩)
    (hcalls : ∀ c call', w'.calls.get? c = some call' → call'.phase.unaware = true →
      WasUnaware w c call' ∧ (call'.token? = some t → stage.reaches call'.place)) : Heard w' := by
  refine ⟨fun j x hx => ?_, fun c call' hget' hunaware j x hx htoken => ?_⟩
  · rw [hcancellations, SortedMap.get?_insert] at hx
    split at hx
    · cases hx
      exact hup
    · exact hflags _ (h.flag j x hx)
  · obtain ⟨⟨call, hget, hbefore, hplace, htoken'⟩, hreaches⟩ := hcalls c call' hget' hunaware
    rw [hcancellations, SortedMap.get?_insert] at hx
    split at hx
    · cases hx
      exact hreaches htoken
    · exact hplace ▸ h.pending c call hget hbefore j x hx (htoken'.symm.trans htoken)

section Steps

variable [DecidableEq ι]

/-! ## Flags -/

/-- A flag stays up. -/
theorem cancelled_step (hstep : Step w w') (hflag : (w.token t).cancelled = true) :
    (w'.token t).cancelled = true := by
  cases hstep with
  | start place token request =>
    change ((w.register place token).1.getD t .fresh).cancelled = true
    rw [World.token_register]
    split
    · exact hflag
    · exact hflag
  | call hstep =>
    cases hstep with
    | @leave call result hget hphase =>
      change ((w.deregister call.registration).getD t .fresh).cancelled = true
      rw [World.token_deregister]
      cases call.registration with
      | none => exact hflag
      | some r =>
        rw [Option.elim_some]
        split
        · exact hflag
        · exact hflag
    | _ => exact hflag
  | @cancel k t' _ hstep =>
    cases hstep with
    | raise =>
      change ((w.tokens.insert t' _).getD t .fresh).cancelled = true
      rw [SortedMap.getD_insert]
      split
      · rfl
      · exact hflag
    | _ => exact hflag
  | act => exact hflag

theorem Heard.cancelStep (h : Heard w) (hregistered : Registered w) (hexclusive : Exclusive w)
    (hstep : CancelStep w k t w') : Heard w' := by
  have hflags (t' : TokenId) := cancelled_step (t := t') (.cancel hstep)
  cases hstep with
  | raise =>
    refine h.insert hflags ?_ rfl fun c call hget hunaware =>
      ⟨⟨call, hget, hunaware, rfl, rfl⟩, fun _ => trivial⟩
    change ((w.tokens.insert t _).getD t .fresh).cancelled = true
    rw [SortedMap.getD_insert, if_pos rfl]
    rfl
  | collect hx =>
    exact h.insert hflags (h.flag k _ hx) rfl fun c call hget hunaware =>
      ⟨⟨call, hget, hunaware, rfl, rfl⟩, hregistered.mem_wakers hget⟩
  | seize =>
    exact h.of_same hflags rfl fun c call hget hunaware => .inr ⟨call, hget, hunaware, rfl, rfl⟩
  | notify place hx hmutex =>
    refine h.insert hflags (h.flag k _ hx) rfl fun c call' hget' hunaware => ?_
    obtain ⟨call, hget, rfl⟩ := mem_callsAfter hget'
    obtain ⟨hbefore, hinside⟩ := Phase.unaware_of_nudged hunaware
    refine ⟨⟨call, hget, hbefore, rfl, rfl⟩, fun htoken => ?_⟩
    -- a call that is inside has the mutex itself
    have hplace : call.place ≠ place := fun heq => by
      have hmine := hexclusive c call hget (hinside (by simp [heq]))
      rw [heq, hmutex] at hmine
      cases hmine
    exact (List.mem_erase_of_ne hplace).2 (h.pending c call hget hbefore k _ hx htoken)

theorem Heard.step (h : Heard w) (hregistered : Registered w) (hexclusive : Exclusive w)
    (hstep : Step w w') : Heard w' := by
  have hflags (t : TokenId) := cancelled_step (t := t) hstep
  have hcalls (c : Nat) (call' : Call P) (hget' : w'.calls.get? c = some call') :=
    (hstep.origin hget').unaware
  cases hstep with
  | start => exact h.of_same hflags rfl hcalls
  | call hstep =>
    refine h.of_same hflags ?_ hcalls
    cases hstep <;> rfl
  | cancel hstep => exact h.cancelStep hregistered hexclusive hstep
  | act => exact h.of_same hflags rfl hcalls

/-! ## Worlds that are reached -/

theorem Reachable.invariants (h : Reachable w) : Registered w ∧ Exclusive w ∧ Heard w := by
  induction h with
  | fresh shared => exact ⟨registered_fresh shared, nofun, heard_fresh shared⟩
  | step _ hstep ih =>
    obtain ⟨hregistered, hexclusive, hheard⟩ := ih
    exact ⟨hregistered.step hstep.census, hexclusive.step hstep,
      hheard.step hregistered hexclusive hstep⟩

end Steps

/-- The cancellation has run all wakers that it noted. -/
def Returned (w : World P) (k : Nat) (t : TokenId) : Prop :=
  w.cancellations.get? k = some ⟨t, .running []⟩

/-- Whoever has been woken has looked again. -/
def Settled (w : World P) : Prop :=
  ∀ c call memory, w.calls.get? c = some call → call.phase ≠ .asleep memory true

theorem Heard.aware (h : Heard w) (hreturned : Returned w k t) {call : Call P}
    (hget : w.calls.get? c = some call) (htoken : call.token? = some t) :
    call.phase.unaware = false := by
  refine Bool.eq_false_iff.2 fun hunaware => ?_
  cases h.pending c call hget hunaware k _ hreturned htoken

theorem Phase.nudged_of_aware {p : Primitive} {phase : Phase p} (h : phase.unaware = false)
    (notify : Bool) : phase.nudged notify = phase := by
  cases phase with
  | asleep memory woken =>
    cases woken with
    | false => cases h
    | true => rfl
  | _ => rfl

/-- When a cancellation has returned and whoever was woken has looked again, nobody is asleep. -/
theorem Heard.awake (h : Heard w) (hreturned : Returned w k t) (hsettled : Settled w)
    {call : Call P} (hget : w.calls.get? c = some call) (htoken : call.token? = some t) :
    call.phase.isAsleep = false := by
  have haware := h.aware hreturned hget htoken
  cases hphase : call.phase with
  | asleep memory woken =>
    cases woken with
    | false =>
      rw [hphase] at haware
      cases haware
    | true => exact absurd hphase (hsettled c call memory hget)
  | _ => rfl

variable [DecidableEq ι]

/-- After a cancellation has returned, nobody falls asleep any more. -/
theorem Heard.asleep_before (h : Heard w) (hreturned : Returned w k t) (hstep : Step w w')
    {call' : Call P} (hget' : w'.calls.get? c = some call') (htoken : call'.token? = some t)
    (hasleep : call'.phase.isAsleep = true) :
    ∃ call, w.calls.get? c = some call ∧ call.phase.isAsleep = true := by
  cases hstep.origin hget' with
  | started => cases hasleep
  | @stayed call notify hget =>
    rw [Phase.isAsleep_nudged] at hasleep
    exact ⟨call, hget, hasleep⟩
  | entered => cases hasleep
  | informed => cases hasleep
  | @looked call intent cancelled now hget hphase =>
    -- it would have seen the flag down
    obtain ⟨memory, hfate⟩ := Phase.sleeps_of_isAsleep hasleep
    obtain rfl := intent.heeds hfate
    have haware := h.aware hreturned hget htoken
    rw [hphase] at haware
    cases haware

/-! ## Cancelling again -/

/-- What was there is as before, but for calls that do not use the token and are woken at most. -/
structure Untouched (w : World P) (t : TokenId) (w' : World P) : Prop where
  shared : w'.shared = w.shared
  tokens : ∀ t', w'.token t' = w.token t'
  users : ∀ c call, w.calls.get? c = some call → call.token? = some t →
    w'.calls.get? c = some call
  others : ∀ c, ∃ notify, w'.calls.get? c = (w.calls.get? c).map fun call =>
    { call with phase := call.phase.nudged notify }

omit [DecidableEq ι] in
theorem raise_of_cancelled (hflag : (w.token t).cancelled = true) :
    w.tokens.insert t (w.token t).raise = w.tokens := by
  have hsame : (w.token t).raise = w.token t := by
    rw [CancelToken.raise, ← hflag]
  have hget : w.tokens.get? t = some (w.token t) := by
    cases hget : w.tokens.get? t with
    | none =>
      rw [World.token, SortedMap.getD, hget] at hflag
      cases hflag
    | some token => rw [World.token, SortedMap.getD, hget, Option.getD_some]
  rw [hsame, SortedMap.insert_of_some hget]

theorem Heard.untouched (h : Heard w) (hreturned : Returned w k t) {k' : Nat}
    (hstep : CancelStep w k' t w') : Untouched w t w' := by
  have hrefl : Untouched w t w :=
    ⟨rfl, fun _ => rfl, fun _ _ hget _ => hget, fun c => ⟨false, by simp⟩⟩
  cases hstep with
  | raise =>
    refine ⟨rfl, fun t' => ?_, hrefl.users, hrefl.others⟩
    rw [World.token, World.raise, raise_of_cancelled (h.flag k _ hreturned)]
    rfl
  | collect => exact ⟨rfl, fun _ => rfl, hrefl.users, hrefl.others⟩
  | seize => exact ⟨rfl, fun _ => rfl, hrefl.users, hrefl.others⟩
  | notify place =>
    refine ⟨rfl, fun _ => rfl, fun c call hget htoken => ?_, fun c => ?_⟩
    · dsimp only
      rw [World.get?_callsAfter, hget, Option.map_some,
        Phase.nudged_of_aware (h.aware hreturned hget htoken)]
    · dsimp only
      rw [World.get?_callsAfter]
      cases w.calls.get? c with
      | none => exact ⟨false, rfl⟩
      | some call => exact ⟨true && call.place = place, rfl⟩

omit [DecidableEq ι] in
/-- Without calls that use the token there is no waker to run. -/
theorem Registered.no_wakers (h : Registered w)
    (hnone : ∀ c call, w.calls.get? c = some call → call.token? ≠ some t) :
    (w.token t).wakers = [] := by
  refine List.eq_nil_iff_forall_not_mem.2 fun place hmem => ?_
  obtain ⟨⟨id, place'⟩, he, rfl⟩ := List.mem_map.1 hmem
  obtain ⟨c, hc⟩ := (h.listed t id place').1 (SortedMap.get?_eq_some_iff.2 he)
  obtain ⟨call, hget, hcall⟩ := Option.map_eq_some_iff.1 hc
  refine hnone c call hget ?_
  rw [Call.token?, (Prod.mk.inj hcall).2]
  rfl

omit [DecidableEq ι] in
theorem Registered.cancel_again (h : Registered w) (hflag : (w.token t).cancelled = true)
    (hnone : ∀ c call, w.calls.get? c = some call → call.token? ≠ some t) :
    (w.raise k t).collect k t = { w with
      cancellations := w.cancellations.insert k ⟨t, .running []⟩
      nextCancellation := k + 1 } := by
  have hwakers : ((w.raise k t).token t).wakers = [] := by
    rw [World.token, World.raise, raise_of_cancelled hflag]
    exact h.no_wakers hnone
  rw [World.collect, hwakers, World.raise, raise_of_cancelled hflag, SortedMap.insert_insert]

/-! ## Runs -/

/-- A call that returns leaves no waker. -/
theorem get?_registered_of_left (hstep : Step w w') {call : Call P}
    (hget : w.calls.get? c = some call) (hleft : w'.calls.get? c = none) {id : Nat}
    (hregistration : call.registration = some (t, id)) :
    (w'.token t).registered.get? id = none := by
  have hbefore := identity?_of_get? hget
  have hafter : identity? w'.calls c = none := by rw [identity?, hleft]; rfl
  cases hstep.census with
  | start place token _ hidentity =>
    rw [hidentity] at hafter
    split at hafter
    · cases hafter
    · rw [hbefore] at hafter
      cases hafter
  | @leave d other hother htokens hidentity =>
    rw [hidentity] at hafter
    split at hafter
    · next hself =>
      rw [hself, hother] at hget
      cases hget
      rw [World.token, htokens, World.token_deregister, hregistration, Option.elim_some, if_pos rfl,
        CancelToken.deregister, SortedMap.get?_erase, if_pos rfl]
    · rw [hbefore] at hafter
      cases hafter
  | same _ hidentity =>
    rw [hidentity, hbefore] at hafter
    cases hafter

/-- **No cancellation is lost**, whatever order the steps come in. -/
theorem heard_of_reachable (h : Reachable w) :
    (∀ k t, Returned w k t →
      (Settled w → ∀ c call, w.calls.get? c = some call → call.token? = some t →
        call.phase.isAsleep = false) ∧
      (∀ w', Step w w' → ∀ c call', w'.calls.get? c = some call' → call'.token? = some t →
        call'.phase.isAsleep = true →
          ∃ call, w.calls.get? c = some call ∧ call.phase.isAsleep = true) ∧
      (∀ k' w', CancelStep w k' t w' → Untouched w t w') ∧
      ((∀ c call, w.calls.get? c = some call → call.token? ≠ some t) → ∀ k',
        (w.raise k' t).collect k' t = { w with
          cancellations := w.cancellations.insert k' ⟨t, .running []⟩
          nextCancellation := k' + 1 })) ∧
    (∀ t id place, (w.token t).registered.get? id = some place ↔
      ∃ c call, w.calls.get? c = some call ∧ call.place = place ∧
        call.registration = some (t, id)) ∧
    (∀ w' c call t id, Step w w' → w.calls.get? c = some call → w'.calls.get? c = none →
      call.registration = some (t, id) → (w'.token t).registered.get? id = none) := by
  obtain ⟨hregistered, -, hheard⟩ := h.invariants
  refine ⟨fun k t hreturned =>
      ⟨fun hsettled c call hget htoken => hheard.awake hreturned hsettled hget htoken,
        fun w' hstep c call' hget' htoken hasleep =>
          hheard.asleep_before hreturned hstep hget' htoken hasleep,
        fun k' w' hstep => hheard.untouched hreturned hstep,
        fun hnone k' => hregistered.cancel_again (hheard.flag k _ hreturned) hnone⟩,
    fun t id place => ?_,
    fun w' c call t id hstep hget hleft hregistration =>
      get?_registered_of_left hstep hget hleft hregistration⟩
  rw [hregistered.listed]
  refine exists_congr fun c => ?_
  rw [identity?, Option.map_eq_some_iff]
  simp only [Prod.mk.injEq]

/-- A wait that is cancelled while it sleeps. It has looked again and not returned yet. -/
theorem heard_of_reachable_interrupted :
    ∃ w : World fun _ : Unit => .gate Nat Unit, Reachable w ∧ Returned w 0 ⟨7⟩ ∧
      (w.token ⟨7⟩).registered.get? 0 = some () ∧
      ∃ call, w.calls.get? 0 = some call ∧ call.token? = some ⟨7⟩ ∧
        call.phase.isAsleep = false := by
  have hasleep := (Reachable.fresh (P := fun _ : Unit => .gate Nat Unit)
      fun _ => (.empty : Gate Nat Unit))
    |>.step (.start (P := fun _ : Unit => .gate Nat Unit) () (some ⟨7⟩) (⟨1, none⟩ : SizeWait))
    |>.step (.call (c := 0) (.enter rfl rfl rfl))
    |>.step (.call (c := 0) (.read rfl rfl))
    |>.step (.call (c := 0) (.look 0 rfl rfl rfl))
  have hreturned := hasleep
    |>.step (.cancel (k := 0) (t := ⟨7⟩) (.raise rfl))
    |>.step (.cancel (k := 0) (t := ⟨7⟩) (.collect rfl))
    |>.step (.cancel (k := 0) (t := ⟨7⟩) (.seize () rfl (.head _) rfl))
    |>.step (.cancel (k := 0) (t := ⟨7⟩) (.notify () rfl rfl))
  have hlooked := hreturned
    |>.step (.call (c := 0) (.enter rfl rfl rfl))
    |>.step (.call (c := 0) (.read rfl rfl))
    |>.step (.call (c := 0) (.look 0 rfl rfl rfl))
  obtain ⟨hcancelled, hlisted, -⟩ := heard_of_reachable hlooked
  obtain ⟨hawake, -⟩ := hcancelled 0 ⟨7⟩ rfl
  have hsettled := hawake fun c call memory hget hphase => by
    cases List.mem_singleton.1 (SortedMap.get?_eq_some_iff.1 hget)
    cases hphase
  exact ⟨_, hlooked, rfl, (hlisted ⟨7⟩ 0 ()).2 ⟨0, _, rfl, rfl, rfl⟩, _, rfl, rfl,
    hsettled 0 _ rfl rfl⟩

end WalStore.Cancel
