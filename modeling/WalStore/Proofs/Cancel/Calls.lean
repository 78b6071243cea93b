import WalStore.Proofs.Cancel.Registered

/-!
# Calls and their steps

A call under way changes by its own steps alone, but for being woken (`Origin`). The mutexes keep
the steps of a look together: whoever is inside has the mutex of its place (`Exclusive`).
-/

namespace WalStore.Cancel

open Monitor

namespace Phase

variable {p : Primitive}

@[simp] theorem hasMutex_nudged (notify : Bool) (phase : Phase p) :
    (phase.nudged notify).hasMutex = phase.hasMutex := by
  cases phase <;> rfl

@[simp] theorem isAsleep_nudged (notify : Bool) (phase : Phase p) :
    (phase.nudged notify).isAsleep = phase.isAsleep := by
  cases phase <;> rfl

@[simp] theorem nudged_false (phase : Phase p) : phase.nudged false = phase := by
  cases phase <;> simp [nudged]

theorem hasMutex_ofFate (fate : Fate p.Memory p.Result) : (ofFate fate).hasMutex = false := by
  cases fate <;> rfl

theorem sleeps_of_isAsleep {fate : Fate p.Memory p.Result} (h : (ofFate fate).isAsleep = true) :
    ∃ memory, fate = .sleeps memory := by
  cases fate with
  | returns result => cases h
  | sleeps memory => exact ⟨memory, rfl⟩

end Phase

variable {ι : Type} {P : ι → Primitive} {w w' : World P} {c k : Nat} {t : TokenId}

/-! ## Where calls come from -/

theorem mem_callsAfter [DecidableEq ι] {place : ι} {notify : Bool} {call' : Call P}
    (hget : (w.callsAfter place notify).get? c = some call') :
    ∃ call, w.calls.get? c = some call ∧
      call' = { call with phase := call.phase.nudged (notify && call.place = place) } := by
  rw [World.get?_callsAfter] at hget
  obtain ⟨call, hcall, rfl⟩ := Option.map_eq_some_iff.1 hget
  exact ⟨call, hcall, rfl⟩

/-- Where a call under way after a step comes from: it has just started, it was there before and
has been woken at most, or the step was its own. -/
inductive Origin (w : World P) (c : Nat) : Call P → Prop
  | started (place : ι) (registration : Option (TokenId × Nat)) (request : (P place).Request) :
      Origin w c ⟨place, registration, .arriving request⟩
  | stayed {call : Call P} (notify : Bool) (hget : w.calls.get? c = some call) :
      Origin w c { call with phase := call.phase.nudged notify }
  | entered {call : Call P} (intent : Intent (P call.place)) (hget : w.calls.get? c = some call) :
      Origin w c { call with phase := .inside intent }
  | informed {call : Call P} (intent : Intent (P call.place))
      (hget : w.calls.get? c = some call) :
      Origin w c { call with phase := .informed intent (w.isCancelled call) }
  | looked {call : Call P} {intent : Intent (P call.place)} {cancelled : Bool} (now : Instant)
      (hget : w.calls.get? c = some call) (hphase : call.phase = .informed intent cancelled) :
      Origin w c { call with
        phase := .ofFate (intent.look ⟨now, cancelled⟩ (w.shared call.place)).fate }

theorem Origin.of_get? {call : Call P} (hget : w.calls.get? c = some call) : Origin w c call := by
  have h := Origin.stayed false hget
  rwa [Phase.nudged_false] at h

theorem Origin.of_callsAfter [DecidableEq ι] {place : ι} {notify : Bool} {call' : Call P}
    (hget' : (w.callsAfter place notify).get? c = some call') : Origin w c call' := by
  obtain ⟨call, hget, rfl⟩ := mem_callsAfter hget'
  exact .stayed _ hget

/-- One call has made a step. -/
theorem Origin.insert {calls : SortedMap Nat (Call P)} {call call' : Call P} {d : Nat}
    (hcall : Origin w c call)
    (hothers : ∀ call', calls.get? d = some call' → Origin w d call')
    (hget' : (calls.insert c call).get? d = some call') : Origin w d call' := by
  rw [SortedMap.get?_insert] at hget'
  split at hget'
  · next hself =>
    cases hget'
    exact hself ▸ hcall
  · exact hothers call' hget'

theorem CallStep.origin [DecidableEq ι] (hstep : CallStep w c w') {d : Nat} {call' : Call P}
    (hget' : w'.calls.get? d = some call') : Origin w d call' := by
  cases hstep with
  | enter hget => exact .insert (.entered _ hget) (fun _ => .of_get?) hget'
  | read hget => exact .insert (.informed _ hget) (fun _ => .of_get?) hget'
  | look now hget hphase hlook =>
    subst hlook
    exact .insert (.looked now hget hphase) (fun _ => .of_callsAfter) hget'
  | leave =>
    rw [SortedMap.get?_erase] at hget'
    split at hget'
    · cases hget'
    · exact .of_get? hget'
  | wake hget hphase =>
    have hwoken := Origin.stayed true hget
    rw [hphase, Phase.nudged, Bool.or_true] at hwoken
    exact .insert hwoken (fun _ => .of_get?) hget'

theorem Step.origin [DecidableEq ι] (hstep : Step w w') {call' : Call P}
    (hget' : w'.calls.get? c = some call') : Origin w c call' := by
  cases hstep with
  | start place token request =>
    exact .insert (.started place _ request) (fun _ => .of_get?) hget'
  | call hstep => exact hstep.origin hget'
  | cancel hstep =>
    cases hstep with
    | notify => exact .of_callsAfter hget'
    | _ => exact .of_get? hget'
  | act => exact .of_callsAfter hget'

/-! ## Mutexes -/

/-- Whoever is inside has the mutex. -/
def Exclusive (w : World P) : Prop :=
  ∀ c call, w.calls.get? c = some call → call.phase.hasMutex = true →
    w.mutex call.place = some (.call c)

variable [DecidableEq ι]

/-- Nobody is inside where the mutex is free or somebody else's. -/
theorem Exclusive.update (h : Exclusive w) {place : ι} {holder : Option Holder}
    (hother : ∀ c, w.mutex place ≠ some (.call c)) {call : Call P}
    (hget : w.calls.get? c = some call)
    (hinside : call.phase.hasMutex = true) :
    Function.update w.mutex place holder call.place = some (.call c) := by
  have hmine := h c call hget hinside
  rw [Function.update_of_ne, hmine]
  exact fun hplace => hother c (hplace ▸ hmine)

theorem Exclusive.callStep (h : Exclusive w) (hstep : CallStep w c w') : Exclusive w' := by
  intro d call' hget' hinside
  cases hstep with
  | @enter call intent hget hphase hfree =>
    rw [SortedMap.get?_insert] at hget'
    split at hget'
    · next hself =>
      cases hget'
      exact hself ▸ Function.update_self ..
    · exact h.update (by rw [hfree]; nofun) hget' hinside
  | @read call intent hget hphase =>
    rw [SortedMap.get?_insert] at hget'
    split at hget'
    · next hself =>
      cases hget'
      exact hself ▸ h c call hget (by rw [hphase]; rfl)
    · exact h d call' hget' hinside
  | @look call intent cancelled now look hget hphase hlook =>
    rw [SortedMap.get?_insert] at hget'
    split at hget'
    · cases hget'
      rw [Phase.hasMutex_ofFate] at hinside
      cases hinside
    · next hother =>
      obtain ⟨call₀, hget₀, rfl⟩ := mem_callsAfter hget'
      rw [Phase.hasMutex_nudged] at hinside
      have hmine := h d call₀ hget₀ hinside
      have hmutex := h c call hget (by rw [hphase]; rfl)
      dsimp only
      rw [Function.update_of_ne, hmine]
      intro hplace
      rw [hplace, hmutex] at hmine
      cases hmine
      exact hother rfl
  | leave hget hphase =>
    rw [SortedMap.get?_erase] at hget'
    split at hget'
    · cases hget'
    · exact h d call' hget' hinside
  | wake hget hphase =>
    rw [SortedMap.get?_insert] at hget'
    split at hget'
    · cases hget'
      cases hinside
    · exact h d call' hget' hinside

theorem Exclusive.cancelStep (h : Exclusive w) (hstep : CancelStep w k t w') : Exclusive w' := by
  intro d call' hget' hinside
  cases hstep with
  | raise => exact h d call' hget' hinside
  | collect => exact h d call' hget' hinside
  | seize place _ _ hfree => exact h.update (by rw [hfree]; nofun) hget' hinside
  | notify place _ hmutex =>
    obtain ⟨call, hget, rfl⟩ := mem_callsAfter hget'
    rw [Phase.hasMutex_nudged] at hinside
    dsimp only
    exact h.update (by rw [hmutex]; nofun) hget hinside

theorem Exclusive.step (h : Exclusive w) (hstep : Step w w') : Exclusive w' := by
  cases hstep with
  | start place token request =>
    intro d call' hget' hinside
    rw [SortedMap.get?_insert] at hget'
    split at hget'
    · cases hget'
      cases hinside
    · exact h d call' hget' hinside
  | call hstep => exact h.callStep hstep
  | cancel hstep => exact h.cancelStep hstep
  | act place state notify hfree =>
    intro d call' hget' hinside
    obtain ⟨call, hget, rfl⟩ := mem_callsAfter hget'
    rw [Phase.hasMutex_nudged] at hinside
    exact h d call hget hinside

end WalStore.Cancel
