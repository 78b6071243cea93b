import WalStore.Monitor
import WalStore.Proofs.SortedMap

/-!
# Steps of a monitor

What a step of a monitor does to the shared state and to the calls asleep, whatever the
discipline. A notification marks every call that sleeps at the time (`Sleeper.nudged`); only the
call that looks changes in any other way.
-/

namespace WalStore.Monitor

variable {σ κ ω ρ β : Type}

/-- The call asleep after a step that may have notified. -/
def Sleeper.nudged (s : Sleeper ω) (notify : Bool) : Sleeper ω :=
  { s with woken := s.woken || notify }

@[simp] theorem Sleeper.nudged_false (s : Sleeper ω) : s.nudged false = s := by
  simp [nudged]

@[simp] theorem Sleeper.woken_nudged (s : Sleeper ω) (notify : Bool) :
    (s.nudged notify).woken = (s.woken || notify) := rfl

/-! ## Notifications -/

@[simp] theorem shared_wakeIf (m : Monitor σ ω) (notify : Bool) :
    (m.wakeIf notify).shared = m.shared := by
  cases notify <;> rfl

theorem get?_wakeIf (m : Monitor σ ω) (notify : Bool) (call : Nat) :
    (m.wakeIf notify).sleepers.get? call = (m.sleepers.get? call).map (·.nudged notify) := by
  cases notify with
  | false =>
    change m.sleepers.get? call = _
    simp
  | true =>
    change (m.sleepers.mapValues _).get? call = _
    rw [SortedMap.get?_mapValues]
    congr 1
    funext s
    simp [Sleeper.nudged]

@[simp] theorem shared_wake (m : Monitor σ ω) (call : Nat) : (m.wake call).shared = m.shared := by
  unfold wake
  split <;> rfl

theorem get?_wake (m : Monitor σ ω) (call call' : Nat) :
    (m.wake call).sleepers.get? call' =
      (m.sleepers.get? call').map (·.nudged (call' = call)) := by
  unfold wake
  by_cases h : call' = call
  · subst h
    cases hget : m.sleepers.get? call' with
    | none => simp [hget]
    | some s => simp [SortedMap.get?_insert, Sleeper.nudged]
  · cases hget : m.sleepers.get? call with
    | none => simp [h]
    | some s => simp [SortedMap.get?_insert, h]

@[simp] theorem shared_deregister (m : Monitor σ ω) (token : Option (TokenId × Nat)) :
    (m.deregister token).shared = m.shared := by
  cases token <;> rfl

@[simp] theorem sleepers_deregister (m : Monitor σ ω) (token : Option (TokenId × Nat)) :
    (m.deregister token).sleepers = m.sleepers := by
  cases token <;> rfl

@[simp] theorem shared_register (m : Monitor σ ω) (token : Option TokenId) :
    (m.register token).1.shared = m.shared := by
  cases token <;> rfl

@[simp] theorem sleepers_register (m : Monitor σ ω) (token : Option TokenId) :
    (m.register token).1.sleepers = m.sleepers := by
  cases token <;> rfl

/-! ## Looks -/

/-- The call asleep after its own look. -/
def Fate.sleeper? (token : Option (TokenId × Nat)) : Fate ω ρ → Option (Sleeper ω)
  | .returns _ => none
  | .sleeps memory => some ⟨memory, token, false⟩

/-- The result of a call that has looked. -/
def Fate.result? : Fate ω ρ → Option ρ
  | .returns result => some result
  | .sleeps _ => none

variable (m : Monitor σ ω) (call call' : Nat) (token : Option (TokenId × Nat)) (look : Look σ ω ρ)

@[simp] theorem shared_afterLook : (m.afterLook call token look).1.shared = look.state := by
  unfold afterLook
  cases look.fate <;> simp

@[simp] theorem result_afterLook : (m.afterLook call token look).2 = look.fate.result? := by
  unfold afterLook
  cases look.fate <;> rfl

theorem get?_afterLook :
    (m.afterLook call token look).1.sleepers.get? call' =
      if call' = call then look.fate.sleeper? token
      else (m.sleepers.get? call').map (·.nudged look.notify) := by
  have hothers : (({ m with
      shared := look.state, sleepers := m.sleepers.erase call }).wakeIf look.notify).sleepers.get?
        call' = if call' = call then none
          else (m.sleepers.get? call').map (·.nudged look.notify) := by
    rw [get?_wakeIf]
    simp only [SortedMap.get?_erase]
    split <;> rfl
  unfold afterLook
  cases look.fate with
  | returns result =>
    simp only [sleepers_deregister]
    exact hothers
  | sleeps memory =>
    simp only [SortedMap.get?_insert, hothers]
    by_cases h : call' = call
    · simp [h, Fate.sleeper?]
    · simp [h]

/-! ## Calls -/

/-- What a call sees that looks now. -/
def sight (now : Instant) (token : Option TokenId) : Sight := ⟨now, m.isCancelled token⟩

theorem enter_eq (d : Discipline σ κ ω ρ) (now : Instant) (token : Option TokenId) (request : κ) :
    m.enter d now call token request =
      (m.register token).1.afterLook call (m.register token).2
        (d.arrive ((m.register token).1.sight now token) request m.shared) := by
  rw [← shared_register m token]
  rfl

variable {m call} in
theorem recheck_of_woken (d : Discipline σ κ ω ρ) (now : Instant) {s : Sleeper ω}
    (hget : m.sleepers.get? call = some s) (hwoken : s.woken = true) :
    m.recheck d now call = m.afterLook call s.token
      (d.again (m.sight now (s.token.map (·.1))) s.memory m.shared) := by
  unfold recheck
  rw [hget]
  exact if_pos hwoken

/-- A recheck does nothing, or it is the look of a call that has been woken. -/
theorem recheck_cases (d : Discipline σ κ ω ρ) (now : Instant) :
    m.recheck d now call = (m, none) ∨
      ∃ s, m.sleepers.get? call = some s ∧ s.woken = true ∧
        m.recheck d now call =
          m.afterLook call s.token
            (d.again (m.sight now (s.token.map (·.1))) s.memory m.shared) := by
  cases hget : m.sleepers.get? call with
  | none =>
    left
    unfold recheck
    rw [hget]
  | some s =>
    by_cases hwoken : s.woken = true
    · exact .inr ⟨s, rfl, hwoken, recheck_of_woken d now hget hwoken⟩
    · left
      unfold recheck
      rw [hget]
      exact if_neg hwoken

theorem shared_act (change : σ → Change σ β) : (m.act change).1.shared = (change m.shared).state :=
  shared_wakeIf _ _

theorem get?_act (change : σ → Change σ β) :
    (m.act change).1.sleepers.get? call =
      (m.sleepers.get? call).map (·.nudged (change m.shared).notify) :=
  get?_wakeIf _ _ call

/-! ## Quiet -/

theorem isQuiet_iff {m : Monitor σ ω} :
    m.isQuiet = true ↔ ∀ c s, m.sleepers.get? c = some s → s.woken = false := by
  rw [isQuiet, firstWoken?, Option.isNone_iff_eq_none, Option.map_eq_none_iff,
    List.find?_eq_none]
  constructor
  · exact fun h c s hget => Bool.eq_false_iff.2 (h (c, s) (SortedMap.get?_eq_some_iff.1 hget))
  · exact fun h e he =>
      Bool.eq_false_iff.1 (h e.1 e.2 (SortedMap.get?_eq_some_iff.2 he))

/-! ## Cancellation -/

@[simp] theorem shared_cancel (t : TokenId) : (m.cancel t).shared = m.shared := by
  have h (wakers : List Unit) (m : Monitor σ ω) :
      (wakers.foldl (fun m _ => m.wakeAll) m).shared = m.shared := by
    induction wakers generalizing m with
    | nil => rfl
    | cons _ rest ih => exact ih m.wakeAll
  exact h _ (m.raise t)

theorem get?_cancel (t : TokenId) : ∃ notify,
    (m.cancel t).sleepers.get? call = (m.sleepers.get? call).map (·.nudged notify) := by
  have h (wakers : List Unit) (m : Monitor σ ω) : ∃ notify,
      (wakers.foldl (fun m _ => m.wakeAll) m).sleepers.get? call =
        (m.sleepers.get? call).map (·.nudged notify) := by
    induction wakers generalizing m with
    | nil => exact ⟨false, by simp⟩
    | cons _ rest ih =>
      obtain ⟨notify, hnotify⟩ := ih m.wakeAll
      refine ⟨true, ?_⟩
      rw [List.foldl_cons, hnotify, show m.wakeAll = m.wakeIf true from rfl, get?_wakeIf,
        Option.map_map]
      congr 1
      funext s
      simp [Sleeper.nudged]
  exact h _ (m.raise t)

end WalStore.Monitor
