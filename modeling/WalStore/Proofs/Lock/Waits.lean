import WalStore.Proofs.Lock.Held
import WalStore.Proofs.Lock.Queue

/-!
# Calls from their start to their result

A call that falls asleep waits from the event that starts it (`Waits`) until a look of its own gives
it a result. While it waits it keeps the request that it started with, whatever others do
(`Waits.asleep`), and each request asleep is that of a call that waits (`exists_waits`).
-/

namespace WalStore.LockManager

open Monitor

/-- The call with number `call` has started with the request `r` in event number `i` and has been
asleep since. Nobody else has taken its number. -/
structure Waits (m : LockManager) (events : List Event) (i call : Nat) (r : LockRequest) :
    Prop where
  start : ∃ now token, events[i]? = some (.acquire now call token r)
  alone : ∀ j, i < j → ∀ now token r', events[j]? ≠ some (.acquire now call token r')
  asleep : ∀ n, i < n → n ≤ events.length →
    ((m.run (events.take n)).sleepers.get? call).isSome = true

/-- The call with number `call`, which has started with the request `r` in event number `i`, looks
at the instant `now` in the event `e` that comes after `events`. -/
inductive LooksNext (m : LockManager) (events : List Event) (call : Nat) (r : LockRequest) :
    Nat → Event → Instant → Prop
  /-- It starts. -/
  | first {now : Instant} {token : Option TokenId} :
      LooksNext m events call r events.length (.acquire now call token r) now
  /-- It has been woken. -/
  | again {i : Nat} {now : Instant} {s : Sleeper Waiting} (hwaits : m.Waits events i call r)
      (hget : (m.run events).sleepers.get? call = some s) (hwoken : s.woken = true) :
      LooksNext m events call r i (.recheck now call) now

variable {m : LockManager} {events later : List Event} {e : Event} {i call : Nat} {r : LockRequest}

theorem Waits.lt_length (h : m.Waits events i call r) : i < events.length := by
  obtain ⟨now, token, hstart⟩ := h.start
  exact (List.getElem?_eq_some_iff.1 hstart).1

theorem Waits.isSome (h : m.Waits events i call r) :
    ((m.run events).sleepers.get? call).isSome = true := by
  have hsome := h.asleep events.length h.lt_length le_rfl
  rwa [List.take_length] at hsome

/-- A call that waits has waited all the time since it started. -/
theorem Waits.of_append (h : m.Waits (events ++ later) i call r) (hi : i < events.length) :
    m.Waits events i call r := by
  refine ⟨?_, fun j hj now token r' hget => ?_, fun n hn hlength => ?_⟩
  · obtain ⟨now, token, hstart⟩ := h.start
    exact ⟨now, token, by rwa [List.getElem?_append_left hi] at hstart⟩
  · have hlt := (List.getElem?_eq_some_iff.1 hget).1
    exact h.alone j hj now token r' (by rwa [List.getElem?_append_left hlt])
  · have hsome := h.asleep n hn (by rw [List.length_append]; omega)
    rwa [List.take_append_of_le_length hlength] at hsome

/-- The last event is the start of a call that waits, or the call has waited before. -/
theorem Waits.last (h : m.Waits (events ++ [e]) i call r) :
    (i = events.length ∧ ∃ now token, e = .acquire now call token r) ∨
      m.Waits events i call r ∧ ∀ now token r', e ≠ .acquire now call token r' := by
  have hlast : (events ++ [e])[events.length]? = some e := List.getElem?_concat_length
  have hlt : i < events.length + 1 := by simpa using h.lt_length
  rcases Nat.lt_succ_iff_lt_or_eq.1 hlt with hi | rfl
  · refine .inr ⟨h.of_append hi, fun now token r' he => ?_⟩
    exact h.alone events.length hi now token r' (by rw [hlast, he])
  · obtain ⟨now, token, hstart⟩ := h.start
    rw [hlast, Option.some.injEq] at hstart
    exact .inl ⟨rfl, now, token, hstart⟩

theorem waits_start {now : Instant} {token : Option TokenId}
    (hsome : ((m.run (events ++ [.acquire now call token r])).sleepers.get? call).isSome = true) :
    m.Waits (events ++ [.acquire now call token r]) events.length call r := by
  refine ⟨⟨now, token, List.getElem?_concat_length⟩, fun j hj _ _ _ hget => ?_,
    fun n hn hlength => ?_⟩
  · have hlt := (List.getElem?_eq_some_iff.1 hget).1
    simp only [List.length_append, List.length_singleton] at hlt
    omega
  · rwa [List.take_of_length_le (by simpa [Nat.succ_le_iff] using hn)]

theorem Waits.still (h : m.Waits events i call r)
    (hnew : ∀ now token r', e ≠ .acquire now call token r')
    (hsome : ((m.run (events ++ [e])).sleepers.get? call).isSome = true) :
    m.Waits (events ++ [e]) i call r := by
  have hi := h.lt_length
  refine ⟨?_, fun j hj now token r' hget => ?_, fun n hn hlength => ?_⟩
  · obtain ⟨now, token, hstart⟩ := h.start
    exact ⟨now, token, by rwa [List.getElem?_append_left hi]⟩
  · rcases Nat.lt_or_ge j events.length with hj' | hj'
    · exact h.alone j hj now token r' (by rwa [List.getElem?_append_left hj'] at hget)
    · rw [List.getElem?_append_right hj'] at hget
      have he := List.mem_singleton.1 (List.mem_of_getElem? hget)
      exact hnew now token r' he.symm
  · rcases Nat.lt_or_ge events.length n with hn' | hn'
    · rwa [List.take_of_length_le (by simpa [Nat.succ_le_iff] using hn')]
    · rw [List.take_append_of_le_length hn']
      exact h.asleep n hn hn'

/-- A call asleep keeps what it remembers, unless another call takes its number. -/
theorem memory_step (m : LockManager) {e : Event}
    (hnew : ∀ now token r, e ≠ .acquire now call token r) {s' : Sleeper Waiting}
    (hget : (m.step e).sleepers.get? call = some s') :
    ∃ s, m.sleepers.get? call = some s ∧ s'.memory = s.memory := by
  have hnudged {nudge : Nat → Bool} (hsleepers : ∀ c, (m.step e).sleepers.get? c =
      (m.sleepers.get? c).map (·.nudged (nudge c))) :
      ∃ s, m.sleepers.get? call = some s ∧ s'.memory = s.memory := by
    rw [hsleepers] at hget
    obtain ⟨s, hs, rfl⟩ := Option.map_eq_some_iff.1 hget
    exact ⟨s, hs, rfl⟩
  cases m.step_effect e with
  | @arrive now call' token r _ look _ _ hlooked =>
    rcases sleeper_looked hlooked hget with ⟨rfl, -⟩ | ⟨-, s, hs, rfl⟩
    · exact absurd rfl (hnew now token r)
    · exact ⟨s, hs, rfl⟩
  | again _ hs _ hattempt hlooked =>
    rcases sleeper_looked hlooked hget with ⟨rfl, hfate, -⟩ | ⟨-, s, hs', rfl⟩
    · exact ⟨_, hs, (hattempt.sleeps hfate).1⟩
    · exact ⟨s, hs', rfl⟩
  | release _ hsleepers => exact hnudged hsleepers
  | releaseAll _ hsleepers => exact hnudged hsleepers
  | wake _ _ hsleepers => exact hnudged hsleepers

/-- **A call that waits still asks for what it asked for at its start.** -/
theorem Waits.exists_sleeper (h : m.Waits events i call r) :
    ∃ s, (m.run events).sleepers.get? call = some s ∧ s.memory.request = r := by
  induction events using List.reverseRecOn with
  | nil => exact absurd h.lt_length (Nat.not_lt_zero i)
  | append_singleton events e ih =>
    obtain ⟨s', hs'⟩ := Option.isSome_iff_exists.1 h.isSome
    rw [run_append_singleton] at hs'
    rw [run_append_singleton]
    refine ⟨s', hs', ?_⟩
    rcases h.last with ⟨-, now, token, rfl⟩ | ⟨hbefore, hnew⟩
    · exact ((m.run events).enter_keeps now call token r).2.1 s' hs'
    · obtain ⟨s, hs, hmemory⟩ := memory_step _ hnew hs'
      obtain ⟨s₀, hs₀, hr⟩ := ih hbefore
      rw [hs, Option.some.injEq] at hs₀
      rw [hmemory, hs₀, hr]

/-- The next look of a call is that of a request that arrives or that of one in the queue. -/
theorem LooksNext.exists_look {now : Instant} (h : LooksNext m events call r i e now) :
    ∃ cancelled look, (m.run events).outcome? e = look.fate.result? ∧
      (LockState.Arrival ⟨now, cancelled⟩ r (m.run events).shared look ∨
        ∃ w, w.request = r ∧
          LockState.Attempt true ⟨now, cancelled⟩ w (m.run events).shared look) := by
  cases h with
  | @first now token =>
    obtain ⟨cancelled, look, harrival, -, hresult⟩ := (m.run events).enter_spec now call token r
    exact ⟨cancelled, look, hresult, .inl harrival⟩
  | @again _ now s hwaits hget hwoken =>
    obtain ⟨s', hget', rfl⟩ := hwaits.exists_sleeper
    rw [hget, Option.some.injEq] at hget'
    subst hget'
    refine ⟨_, _, ?_, .inr ⟨s.memory, rfl, LockState.attempt_spec true
      (sight (m.run events) now (s.token.map (·.1))) s.memory _⟩⟩
    rw [outcome?, recheck_of_woken LockState.discipline now hget hwoken, result_afterLook]
    rfl

/-- Each call asleep has been waiting since it started. -/
theorem exists_waits (detection : Bool) {events : List Event} {call : Nat} {s : Sleeper Waiting}
    (hget : ((fresh detection).run events).sleepers.get? call = some s) :
    ∃ i, (fresh detection).Waits events i call s.memory.request := by
  induction events using List.reverseRecOn generalizing s with
  | nil => exact nomatch hget
  | append_singleton events e ih =>
    have hsome := Option.isSome_iff_exists.2 ⟨s, hget⟩
    rw [run_append_singleton] at hget
    by_cases hstart : ∃ now token r, e = .acquire now call token r
    · obtain ⟨now, token, r, rfl⟩ := hstart
      rw [(enter_keeps _ now call token r).2.1 s hget]
      exact ⟨events.length, waits_start hsome⟩
    · have hnew : ∀ now token r, e ≠ .acquire now call token r :=
        fun now token r he => hstart ⟨now, token, r, he⟩
      obtain ⟨s₀, hs₀, hmemory⟩ := memory_step _ hnew hget
      obtain ⟨i, hwaits⟩ := ih hs₀
      rw [hmemory]
      exact ⟨i, hwaits.still hnew hsome⟩

end WalStore.LockManager
