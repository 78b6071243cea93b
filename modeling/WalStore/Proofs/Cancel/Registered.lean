import WalStore.Proofs.Cancel.World

/-!
# Registrations

The registrations of a token are those of the calls under way that use it, one for each
(`Registered`). Only starting and leaving changes anything about them (`Census`).
-/

namespace WalStore.Cancel

open Monitor

variable {ι : Type} {P : ι → Primitive}

/-! ## Views -/

/-- Where a call blocks, and under which registration. -/
def identity? (calls : SortedMap Nat (Call P)) (c : Nat) : Option (ι × Option (TokenId × Nat)) :=
  (calls.get? c).map fun call => (call.place, call.registration)

theorem identity?_of_get? {calls : SortedMap Nat (Call P)} {c : Nat} {call : Call P}
    (hget : calls.get? c = some call) :
    identity? calls c = some (call.place, call.registration) := by
  rw [identity?, hget]
  rfl

theorem identity?_insert (calls : SortedMap Nat (Call P)) (c d : Nat) (call : Call P) :
    identity? (calls.insert c call) d =
      if d = c then some (call.place, call.registration) else identity? calls d := by
  rw [identity?, SortedMap.get?_insert]
  split <;> rfl

/-- A call stays who it is. -/
theorem identity?_insert_of_get? {calls : SortedMap Nat (Call P)} {c : Nat} {call : Call P}
    (hget : calls.get? c = some call) (phase : Phase (P call.place)) (d : Nat) :
    identity? (calls.insert c { call with phase }) d = identity? calls d := by
  rw [identity?_insert]
  split
  · next hself => exact hself ▸ (identity?_of_get? hget).symm
  · rfl

theorem identity?_erase (calls : SortedMap Nat (Call P)) (c d : Nat) :
    identity? (calls.erase c) d = if d = c then none else identity? calls d := by
  rw [identity?, SortedMap.get?_erase]
  split <;> rfl

namespace World

theorem token_register (w : World P) (place : ι) (token : Option TokenId) (t : TokenId) :
    (w.register place token).1.getD t .fresh =
      if token = some t then ((w.token t).register place).1 else w.token t := by
  cases token with
  | none => rfl
  | some t' =>
    change (w.tokens.insert t' _).getD t .fresh = _
    rw [SortedMap.getD_insert]
    by_cases h : t = t'
    · rw [if_pos h, if_pos (congrArg some h.symm), h]
      rfl
    · rw [if_neg h, if_neg fun heq => h (Option.some.inj heq).symm]
      rfl

theorem token_deregister (w : World P) (registration : Option (TokenId × Nat)) (t : TokenId) :
    (w.deregister registration).getD t .fresh =
      registration.elim (w.token t) fun r =>
        if t = r.1 then (w.token t).deregister r.2 else w.token t := by
  cases registration with
  | none => rfl
  | some r =>
    change (w.tokens.insert r.1 _).getD t .fresh = _
    rw [SortedMap.getD_insert]
    by_cases h : t = r.1
    · simp [h]
    · simp [h, World.token]

variable [DecidableEq ι]

theorem get?_callsAfter (w : World P) (place : ι) (notify : Bool) (c : Nat) :
    (w.callsAfter place notify).get? c = (w.calls.get? c).map fun call =>
      { call with phase := call.phase.nudged (notify && call.place = place) } :=
  SortedMap.get?_mapValues ..

theorem identity?_callsAfter (w : World P) (place : ι) (notify : Bool) (c : Nat) :
    identity? (w.callsAfter place notify) c = identity? w.calls c := by
  rw [identity?, get?_callsAfter, Option.map_map]
  rfl

end World

/-! ## Who is there -/

/-- What a step does to the calls under way and to their registrations. -/
inductive Census (w w' : World P) : Prop
  | start (place : ι) (token : Option TokenId) (htokens : w'.tokens = (w.register place token).1)
      (hidentity : ∀ c, identity? w'.calls c =
        if c = w.nextCall then some (place, (w.register place token).2) else identity? w.calls c)
      (hnext : w'.nextCall = w.nextCall + 1)
  | leave {c : Nat} {call : Call P} (hget : w.calls.get? c = some call)
      (htokens : w'.tokens = w.deregister call.registration)
      (hidentity : ∀ d, identity? w'.calls d = if d = c then none else identity? w.calls d)
      (hnext : w'.nextCall = w.nextCall)
  | same (htokens : ∀ t, (w'.token t).registered = (w.token t).registered ∧
        (w'.token t).nextId = (w.token t).nextId)
      (hidentity : ∀ c, identity? w'.calls c = identity? w.calls c)
      (hnext : w'.nextCall = w.nextCall)

section Steps

variable [DecidableEq ι] {w w' : World P}

theorem CallStep.census {c : Nat} (h : CallStep w c w') : Census w w' := by
  cases h with
  | enter hget => exact .same (fun _ => ⟨rfl, rfl⟩) (identity?_insert_of_get? hget _) rfl
  | read hget => exact .same (fun _ => ⟨rfl, rfl⟩) (identity?_insert_of_get? hget _) rfl
  | look now hget =>
    refine .same (fun _ => ⟨rfl, rfl⟩) (fun d => ?_) rfl
    dsimp only
    rw [identity?_insert, World.identity?_callsAfter]
    split
    · next hself => exact hself ▸ (identity?_of_get? hget).symm
    · rfl
  | leave hget => exact .leave hget rfl (identity?_erase _ _) rfl
  | wake hget => exact .same (fun _ => ⟨rfl, rfl⟩) (identity?_insert_of_get? hget _) rfl

theorem CancelStep.census {k : Nat} {t : TokenId} (h : CancelStep w k t w') : Census w w' := by
  cases h with
  | raise =>
    refine .same (fun t' => ?_) (fun _ => rfl) rfl
    change ((w.tokens.insert t _).getD t' .fresh).registered = _ ∧
      ((w.tokens.insert t _).getD t' .fresh).nextId = _
    rw [SortedMap.getD_insert]
    split
    · next hself => exact hself ▸ ⟨rfl, rfl⟩
    · exact ⟨rfl, rfl⟩
  | collect => exact .same (fun _ => ⟨rfl, rfl⟩) (fun _ => rfl) rfl
  | seize => exact .same (fun _ => ⟨rfl, rfl⟩) (fun _ => rfl) rfl
  | notify => exact .same (fun _ => ⟨rfl, rfl⟩) (w.identity?_callsAfter _ _) rfl

theorem Step.census (h : Step w w') : Census w w' := by
  cases h with
  | start place token => exact .start place token rfl (identity?_insert _ _ · _) rfl
  | call h => exact h.census
  | cancel h => exact h.census
  | act place => exact .same (fun _ => ⟨rfl, rfl⟩) (w.identity?_callsAfter _ _) rfl

end Steps

/-! ## Registrations -/

/-- The registrations of a token are those of the calls under way, one for each. -/
structure Registered (w : World P) : Prop where
  numbered : ∀ c x, identity? w.calls c = some x → c < w.nextCall
  listed : ∀ t id place, (w.token t).registered.get? id = some place ↔
    ∃ c, identity? w.calls c = some (place, some (t, id))
  distinct : ∀ c d place place' r, identity? w.calls c = some (place, some r) →
    identity? w.calls d = some (place', some r) → c = d
  below : ∀ t id place, (w.token t).registered.get? id = some place → id < (w.token t).nextId

theorem registered_fresh (shared : (place : ι) → (P place).State) : Registered (.fresh shared) where
  numbered _ _ h := nomatch h
  listed _ _ _ := ⟨nofun, nofun⟩
  distinct _ _ _ _ _ h := nomatch h
  below _ _ _ h := nomatch h

variable {w w' : World P}

/-- A new registration is added to those there are. -/
theorem Registered.get?_register (h : Registered w) (place : ι) (token : Option TokenId)
    (t : TokenId) (id : Nat) (place' : ι) :
    ((w.register place token).1.getD t .fresh).registered.get? id = some place' ↔
      (w.register place token).2 = some (t, id) ∧ place = place' ∨
        (w.token t).registered.get? id = some place' := by
  rw [World.token_register]
  cases token with
  | none => simp [World.register]
  | some t₀ =>
    by_cases ht : t₀ = t
    · subst ht
      rw [if_pos rfl, CancelToken.register, SortedMap.get?_insert]
      have hold := h.below t₀ id place'
      by_cases hid : id = (w.token t₀).nextId
      · have hnone : (w.token t₀).registered.get? id ≠ some place' := fun hget => by
          have := hold hget
          omega
        simp [World.register, CancelToken.register, hid, hid ▸ hnone]
      · simp [World.register, CancelToken.register, hid, Ne.symm hid]
    · rw [if_neg fun heq => ht (Option.some.inj heq)]
      simp [World.register, ht]

theorem number_register {w : World P} {place : ι} {token : Option TokenId} {t : TokenId} {id : Nat}
    (hnew : (w.register place token).2 = some (t, id)) :
    token = some t ∧ id = (w.token t).nextId := by
  cases token with
  | none => cases hnew
  | some t₀ =>
    cases hnew
    exact ⟨rfl, rfl⟩

/-- A new registration is nobody else's. -/
theorem Registered.ne_register (h : Registered w) {c : Nat} {place' : ι} {t : TokenId} {id : Nat}
    (hother : identity? w.calls c = some (place', some (t, id))) (place : ι)
    (token : Option TokenId) : (w.register place token).2 ≠ some (t, id) := by
  intro hnew
  have hlt := h.below t id place' ((h.listed t id place').2 ⟨c, hother⟩)
  exact absurd (number_register hnew).2 (Nat.ne_of_lt hlt)

theorem Registered.start (h : Registered w) (place : ι) (token : Option TokenId)
    (htokens : w'.tokens = (w.register place token).1)
    (hidentity : ∀ c, identity? w'.calls c =
      if c = w.nextCall then some (place, (w.register place token).2) else identity? w.calls c)
    (hnext : w'.nextCall = w.nextCall + 1) : Registered w' := by
  have htoken (t : TokenId) : w'.token t = (w.register place token).1.getD t .fresh :=
    congrArg (·.getD t .fresh) htokens
  have hlisted (t : TokenId) (id : Nat) (place' : ι) :
      (w'.token t).registered.get? id = some place' ↔
        (w.register place token).2 = some (t, id) ∧ place = place' ∨
          (w.token t).registered.get? id = some place' := by
    rw [htoken, h.get?_register]
  refine ⟨fun c x hx => ?_, fun t id place' => ?_, fun c d place₁ place₂ r hc hd => ?_,
    fun t id place' hget => ?_⟩
  · rw [hidentity] at hx
    rw [hnext]
    split at hx
    · next hself => exact hself ▸ Nat.lt_succ_self _
    · exact Nat.lt_succ_of_lt (h.numbered c x hx)
  · rw [hlisted, h.listed]
    constructor
    · rintro (⟨hnew, rfl⟩ | ⟨c, hc⟩)
      · exact ⟨w.nextCall, by rw [hidentity, if_pos rfl, hnew]⟩
      · have hne : c ≠ w.nextCall := Nat.ne_of_lt (h.numbered c _ hc)
        exact ⟨c, by rw [hidentity, if_neg hne, hc]⟩
    · rintro ⟨c, hc⟩
      rw [hidentity] at hc
      split at hc
      · rw [Option.some.injEq, Prod.mk.injEq] at hc
        exact .inl hc.symm
      · exact .inr ⟨c, hc⟩
  · obtain ⟨t, id⟩ := r
    rw [hidentity] at hc hd
    by_cases hcnew : c = w.nextCall <;> by_cases hdnew : d = w.nextCall
    · exact hcnew.trans hdnew.symm
    · rw [if_pos hcnew, Option.some.injEq, Prod.mk.injEq] at hc
      rw [if_neg hdnew] at hd
      exact absurd hc.2 (h.ne_register hd place token)
    · rw [if_neg hcnew] at hc
      rw [if_pos hdnew, Option.some.injEq, Prod.mk.injEq] at hd
      exact absurd hd.2 (h.ne_register hc place token)
    · rw [if_neg hcnew] at hc
      rw [if_neg hdnew] at hd
      exact h.distinct c d place₁ place₂ _ hc hd
  · rw [htoken, World.token_register]
    rcases (hlisted t id place').1 hget with ⟨hnew, -⟩ | hold
    · obtain ⟨rfl, rfl⟩ := number_register hnew
      rw [if_pos rfl]
      exact Nat.lt_succ_self _
    · have hlt := h.below t id place' hold
      split
      · exact Nat.lt_succ_of_lt hlt
      · exact hlt

theorem Registered.leave (h : Registered w) {c : Nat} {call : Call P}
    (hget : w.calls.get? c = some call) (htokens : w'.tokens = w.deregister call.registration)
    (hidentity : ∀ d, identity? w'.calls d = if d = c then none else identity? w.calls d)
    (hnext : w'.nextCall = w.nextCall) : Registered w' := by
  have hself := identity?_of_get? hget
  have htoken (t : TokenId) : w'.token t = (w.deregister call.registration).getD t .fresh :=
    congrArg (·.getD t .fresh) htokens
  have hlisted (t : TokenId) (id : Nat) (place : ι) :
      (w'.token t).registered.get? id = some place ↔
        (w.token t).registered.get? id = some place ∧ call.registration ≠ some (t, id) := by
    rw [htoken, World.token_deregister]
    cases call.registration with
    | none => simp
    | some r =>
      obtain ⟨t₀, id₀⟩ := r
      by_cases ht : t = t₀
      · subst ht
        simp only [Option.elim_some, if_true, CancelToken.deregister, SortedMap.get?_erase]
        by_cases hid : id = id₀ <;> simp [hid, Ne.symm]
      · simp [ht, Ne.symm ht]
  have hsome {d : Nat} {x : ι × Option (TokenId × Nat)} :
      identity? w'.calls d = some x ↔ d ≠ c ∧ identity? w.calls d = some x := by
    rw [hidentity]
    split
    · next hd => simp [hd]
    · next hd => simp [hd]
  refine ⟨fun d x hd => ?_, fun t id place => ?_, fun d₁ d₂ place₁ place₂ r h₁ h₂ => ?_,
    fun t id place hget => ?_⟩
  · exact hnext ▸ h.numbered d x (hsome.1 hd).2
  · rw [hlisted, h.listed]
    simp only [hsome]
    constructor
    · rintro ⟨⟨d, hd⟩, hother⟩
      refine ⟨d, fun hdc => hother ?_, hd⟩
      rw [hdc, hself, Option.some.injEq, Prod.mk.injEq] at hd
      exact hd.2
    · rintro ⟨d, hne, hd⟩
      exact ⟨⟨d, hd⟩, fun hmine => hne (h.distinct d c _ _ _ hd (hmine ▸ hself))⟩
  · exact h.distinct d₁ d₂ _ _ _ (hsome.1 h₁).2 (hsome.1 h₂).2
  · have hlt := h.below t id place ((hlisted t id place).1 hget).1
    rw [htoken, World.token_deregister]
    cases call.registration with
    | none => exact hlt
    | some r =>
      rw [Option.elim_some]
      split
      · exact hlt
      · exact hlt

theorem Registered.step (h : Registered w) (hcensus : Census w w') : Registered w' := by
  cases hcensus with
  | start place token htokens hidentity hnext => exact h.start place token htokens hidentity hnext
  | leave hget htokens hidentity hnext => exact h.leave hget htokens hidentity hnext
  | same htokens hidentity hnext =>
    refine ⟨fun c x => ?_, fun t id place => ?_, fun c d place place' r => ?_, fun t id place => ?_⟩
    · rw [hidentity, hnext]
      exact h.numbered c x
    · rw [(htokens t).1]
      simp only [hidentity]
      exact h.listed t id place
    · rw [hidentity, hidentity]
      exact h.distinct c d place place' r
    · rw [(htokens t).1, (htokens t).2]
      exact h.below t id place

end WalStore.Cancel
