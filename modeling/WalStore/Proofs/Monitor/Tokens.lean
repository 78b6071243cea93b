import WalStore.Proofs.Monitor

/-!
# The tokens of a monitor

A call that is asleep is registered with its token, under a number that no other call asleep has
there (`Registered`). So whoever cancels the token finds a waker for it.

Only a token that is raised changes its flag; registering and deregistering leave all flags as they
are.
-/

namespace WalStore.Monitor

variable {σ κ ω ρ β : Type}

/-! ## Views -/

section Views

variable (m : Monitor σ ω) (t t' : TokenId)

theorem token_insert (tokens : SortedMap TokenId (CancelToken Unit)) (token : CancelToken Unit) :
    ({ m with tokens := tokens.insert t token } : Monitor σ ω).token t' =
      if t' = t then token else ({ m with tokens } : Monitor σ ω).token t' :=
  SortedMap.getD_insert tokens t t' token .fresh

theorem token_register : (m.register (some t)).1.token t' =
    if t' = t then ((m.token t).register ()).1 else m.token t' := m.token_insert t t' m.tokens _

theorem token_deregister (id : Nat) : (m.deregister (some (t, id))).token t' =
    if t' = t then (m.token t).deregister id else m.token t' := m.token_insert t t' m.tokens _

theorem token_raise : (m.raise t).token t' = if t' = t then (m.token t).raise else m.token t' :=
  m.token_insert t t' m.tokens _

@[simp] theorem token_wakeIf (notify : Bool) : (m.wakeIf notify).token t = m.token t := by
  cases notify <;> rfl

@[simp] theorem token_wake (call : Nat) : (m.wake call).token t = m.token t := by
  unfold wake
  split <;> rfl

theorem token_act (change : σ → Change σ β) : (m.act change).1.token t = m.token t :=
  token_wakeIf _ t _

theorem token_afterLook (call : Nat) (registration : Option (TokenId × Nat)) (look : Look σ ω ρ) :
    (m.afterLook call registration look).1.token t =
      if look.fate.result?.isSome then (m.deregister registration).token t else m.token t := by
  have hwake (notify : Bool) : (({ m with
      shared := look.state, sleepers := m.sleepers.erase call }).wakeIf notify).tokens =
        m.tokens := by
    cases notify <;> rfl
  unfold afterLook
  cases look.fate with
  | returns result =>
    cases registration with
    | none => simp [deregister, token, hwake, Fate.result?]
    | some r => simp [deregister, token, hwake, Fate.result?]
  | sleeps memory => simp [token, hwake, Fate.result?]

/-! ### Flags -/

theorem cancelled_register (token : Option TokenId) :
    ((m.register token).1.token t).cancelled = (m.token t).cancelled := by
  cases token with
  | none => rfl
  | some t' =>
    rw [token_register]
    split
    · next h => rw [h]; rfl
    · rfl

theorem cancelled_deregister (registration : Option (TokenId × Nat)) :
    ((m.deregister registration).token t).cancelled = (m.token t).cancelled := by
  cases registration with
  | none => rfl
  | some r =>
    rw [token_deregister]
    split
    · next h => rw [h]; rfl
    · rfl

theorem cancelled_afterLook (call : Nat) (registration : Option (TokenId × Nat))
    (look : Look σ ω ρ) :
    ((m.afterLook call registration look).1.token t).cancelled = (m.token t).cancelled := by
  rw [token_afterLook]
  split
  · exact m.cancelled_deregister t registration
  · rfl

end Views

/-! ## Registrations -/

/-- The registration is there, and the next one gets another number. -/
def Knows (m : Monitor σ ω) (registration : Option (TokenId × Nat)) : Prop :=
  ∀ t id, registration = some (t, id) →
    (m.token t).registered.get? id = some () ∧ id < (m.token t).nextId

/-- Every call asleep is registered on its own. -/
structure Registered (m : Monitor σ ω) : Prop where
  known : ∀ c s, m.sleepers.get? c = some s → m.Knows s.token
  distinct : ∀ c₁ s₁ c₂ s₂ r, m.sleepers.get? c₁ = some s₁ → m.sleepers.get? c₂ = some s₂ →
    s₁.token = some r → s₂.token = some r → c₁ = c₂

theorem registered_ofState (shared : σ) : (ofState shared : Monitor σ ω).Registered where
  known _ _ h := nomatch h
  distinct _ _ _ _ _ h := nomatch h

variable {m : Monitor σ ω}

theorem Knows.register {registration : Option (TokenId × Nat)} (h : m.Knows registration)
    (token : Option TokenId) : (m.register token).1.Knows registration := by
  cases token with
  | none => exact h
  | some t =>
    intro t' id hr
    obtain ⟨hget, hlt⟩ := h t' id hr
    rw [token_register]
    by_cases ht : t' = t
    · subst ht
      rw [if_pos rfl]
      refine ⟨?_, Nat.lt_succ_of_lt hlt⟩
      rw [CancelToken.register, SortedMap.get?_insert, if_neg (Nat.ne_of_lt hlt)]
      exact hget
    · rw [if_neg ht]
      exact ⟨hget, hlt⟩

/-- A new registration is there, and it is nobody's. -/
theorem knows_register (token : Option TokenId) :
    (m.register token).1.Knows (m.register token).2 := by
  cases token with
  | none => exact fun t id h => nomatch h
  | some t =>
    intro t' id hr
    cases hr
    rw [token_register, if_pos rfl]
    refine ⟨?_, Nat.lt_succ_self _⟩
    rw [CancelToken.register, SortedMap.get?_insert, if_pos rfl]

theorem Knows.ne_register {r : TokenId × Nat} (h : m.Knows (some r)) (token : Option TokenId) :
    (m.register token).2 ≠ some r := by
  intro heq
  cases token with
  | none => cases heq
  | some t =>
    cases heq
    exact Nat.lt_irrefl _ (h t _ rfl).2

/-- Other registrations stay. -/
theorem Knows.deregister {registration : Option (TokenId × Nat)} (h : m.Knows registration)
    {other : Option (TokenId × Nat)} (hne : ∀ r, registration = some r → other ≠ some r) :
    (m.deregister other).Knows registration := by
  cases other with
  | none => exact h
  | some r =>
    obtain ⟨t, id⟩ := r
    intro t' id' hr
    obtain ⟨hget, hlt⟩ := h t' id' hr
    rw [token_deregister]
    by_cases ht : t' = t
    · subst ht
      have hid : id' ≠ id := by
        rintro rfl
        exact hne _ hr rfl
      rw [if_pos rfl]
      refine ⟨?_, hlt⟩
      rw [CancelToken.deregister, SortedMap.get?_erase, if_neg hid]
      exact hget
    · rw [if_neg ht]
      exact ⟨hget, hlt⟩

/-- Steps after which the calls asleep are registered as before. -/
theorem Registered.mono (h : m.Registered) {m' : Monitor σ ω}
    (hsleepers : ∀ c s', m'.sleepers.get? c = some s' →
      ∃ s, m.sleepers.get? c = some s ∧ s'.token = s.token)
    (hknows : ∀ r, m.Knows r → m'.Knows r) : m'.Registered := by
  refine ⟨fun c s' hget => ?_, fun c₁ s₁ c₂ s₂ r h₁ h₂ hr₁ hr₂ => ?_⟩
  · obtain ⟨s, hs, htoken⟩ := hsleepers c s' hget
    rw [htoken]
    exact hknows _ (h.known c s hs)
  · obtain ⟨t₁, ht₁, htoken₁⟩ := hsleepers c₁ s₁ h₁
    obtain ⟨t₂, ht₂, htoken₂⟩ := hsleepers c₂ s₂ h₂
    exact h.distinct c₁ t₁ c₂ t₂ r ht₁ ht₂ (htoken₁.symm.trans hr₁) (htoken₂.symm.trans hr₂)

/-- A call looks that has a registration of its own. -/
theorem Registered.afterLook (h : m.Registered) {call : Nat}
    {registration : Option (TokenId × Nat)} (hknows : m.Knows registration)
    (hown : ∀ c s r, m.sleepers.get? c = some s → s.token = some r → registration = some r →
      c = call) (look : Look σ ω ρ) : (m.afterLook call registration look).1.Registered := by
  have hget {c : Nat} {s' : Sleeper ω}
      (hs' : (m.afterLook call registration look).1.sleepers.get? c = some s') :
      (c = call ∧ look.fate.result?.isSome = false ∧ s'.token = registration) ∨
        c ≠ call ∧ ∃ s, m.sleepers.get? c = some s ∧ s'.token = s.token := by
    rw [get?_afterLook] at hs'
    split at hs'
    · next hc =>
      cases hfate : look.fate with
      | returns result =>
        rw [hfate] at hs'
        cases hs'
      | sleeps memory =>
        rw [hfate] at hs'
        cases hs'
        exact .inl ⟨hc, rfl, rfl⟩
    · next hc =>
      obtain ⟨s, hs, rfl⟩ := Option.map_eq_some_iff.1 hs'
      exact .inr ⟨hc, s, hs, rfl⟩
  refine ⟨fun c s' hs' => ?_, fun c₁ s₁ c₂ s₂ r h₁ h₂ hr₁ hr₂ => ?_⟩
  · rcases hget hs' with ⟨-, hfate, htoken⟩ | ⟨hc, s, hs, htoken⟩
    · intro t id
      rw [token_afterLook, hfate, htoken]
      exact hknows t id
    · have hstays : (m.deregister registration).Knows s.token :=
        (h.known c s hs).deregister fun r hr hreg => hc (hown c s r hs hr hreg)
      intro t id
      rw [token_afterLook, htoken]
      split
      · exact hstays t id
      · exact h.known c s hs t id
  · rcases hget h₁ with ⟨hc₁, -, htoken₁⟩ | ⟨hc₁, t₁, ht₁, htoken₁⟩ <;>
      rcases hget h₂ with ⟨hc₂, -, htoken₂⟩ | ⟨hc₂, t₂, ht₂, htoken₂⟩
    · exact hc₁.trans hc₂.symm
    · exact absurd (hown c₂ t₂ r ht₂ (htoken₂.symm.trans hr₂) (htoken₁.symm.trans hr₁)) hc₂
    · exact absurd (hown c₁ t₁ r ht₁ (htoken₁.symm.trans hr₁) (htoken₂.symm.trans hr₂)) hc₁
    · exact h.distinct c₁ t₁ c₂ t₂ r ht₁ ht₂ (htoken₁.symm.trans hr₁) (htoken₂.symm.trans hr₂)

/-! ## Steps -/

theorem Registered.enter (h : m.Registered) (d : Discipline σ κ ω ρ) (now : Instant) (call : Nat)
    (token : Option TokenId) (request : κ) : (m.enter d now call token request).1.Registered := by
  have hregister : (m.register token).1.Registered := by
    refine h.mono (fun c s hs => ⟨s, ?_, rfl⟩) fun r hr => hr.register token
    rwa [sleepers_register] at hs
  rw [enter_eq]
  refine hregister.afterLook (knows_register token) (fun c s r hs hr hnew => ?_) _
  rw [sleepers_register] at hs
  exact absurd hnew (Knows.ne_register (hr ▸ h.known c s hs) token)

theorem Registered.recheck (h : m.Registered) (d : Discipline σ κ ω ρ) (now : Instant)
    (call : Nat) : (m.recheck d now call).1.Registered := by
  rcases m.recheck_cases call d now with hrest | ⟨s, hget, -, heq⟩
  · rw [hrest]
    exact h
  · rw [heq]
    exact h.afterLook (h.known call s hget)
      (fun c s' r hs' hr' hr => h.distinct c s' call s r hs' hget hr' hr) _

/-- Steps that wake calls at most. -/
theorem Registered.nudged (h : m.Registered) {m' : Monitor σ ω} {nudge : Nat → Bool}
    (hsleepers : ∀ c, m'.sleepers.get? c = (m.sleepers.get? c).map (·.nudged (nudge c)))
    (htokens : ∀ t, (m'.token t).registered = (m.token t).registered ∧
      (m'.token t).nextId = (m.token t).nextId) : m'.Registered := by
  refine h.mono (fun c s' hs' => ?_) fun r hr t id heq => ?_
  · rw [hsleepers] at hs'
    obtain ⟨s, hs, rfl⟩ := Option.map_eq_some_iff.1 hs'
    exact ⟨s, hs, rfl⟩
  · rw [(htokens t).1, (htokens t).2]
    exact hr t id heq

/-- Whoever cancels a token that a call asleep is registered with finds a waker. -/
theorem Registered.wakers_ne_nil (h : m.Registered) {c : Nat} {s : Sleeper ω} {t : TokenId}
    {id : Nat} (hget : m.sleepers.get? c = some s) (htoken : s.token = some (t, id)) :
    (m.token t).wakers ≠ [] := by
  have hknown := (h.known c s hget t id htoken).1
  exact List.ne_nil_of_mem (List.mem_map_of_mem (SortedMap.get?_eq_some_iff.1 hknown))

end WalStore.Monitor
