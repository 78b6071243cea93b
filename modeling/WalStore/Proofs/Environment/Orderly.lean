import WalStore.Proofs.Environment.Run

/-!
# Orderly runs of an environment

A transaction is in one hand at a time: whoever makes a call has the transaction for itself until
the call has its result, and neither makes another call of it nor drops it before (`Orderly`). So
the calls in progress belong to different transactions (`Single`), and what happens to a transaction
while a call of it is in progress is what that call does.
-/

namespace WalStore.Environment

/-! ## Calls in progress -/

/-- A call of this transaction is in progress. -/
def Busy (env : Environment) (txn : TxnId) : Prop :=
  ∃ id call, env.calls.get? id = some call ∧ call.op.txn? = some txn

theorem busy_iff {env : Environment} {txn : TxnId} :
    env.Busy txn ↔ ∃ e ∈ env.calls.entries, e.2.op.txn? = some txn := by
  simp only [Busy, SortedMap.get?_eq_some_iff, Prod.exists]

instance (env : Environment) (txn : TxnId) : Decidable (env.Busy txn) :=
  decidable_of_iff _ busy_iff.symm

/-- An event that respects that a transaction is in one hand at a time. -/
def Event.Orderly (env : Environment) : Event → Prop
  | .start id op => (env.calls.get? id).isNone = true ∧ ∀ txn ∈ op.txn?, ¬env.Busy txn
  | .drop txn => ¬env.Busy txn
  | .begin _ | .step _ | .close | .cancel _ | .tick _ | .wake _ | .plan _ => True

instance (env : Environment) : (e : Event) → Decidable (e.Orderly env)
  | .start id op => inferInstanceAs
      (Decidable ((env.calls.get? id).isNone = true ∧ ∀ txn ∈ op.txn?, ¬env.Busy txn))
  | .drop txn => inferInstanceAs (Decidable ¬env.Busy txn)
  | .begin _ | .step _ | .close | .cancel _ | .tick _ | .wake _ | .plan _ =>
    inferInstanceAs (Decidable True)

/-- A run in which every transaction is in one hand at a time. -/
def Orderly (env : Environment) : List Event → Prop
  | [] => True
  | e :: events => e.Orderly env ∧ Orderly (env.after e) events

instance decidableOrderly :
    (env : Environment) → (events : List Event) → Decidable (env.Orderly events)
  | _, [] => inferInstanceAs (Decidable True)
  | env, e :: events =>
    have := decidableOrderly (env.after e) events
    inferInstanceAs (Decidable (e.Orderly env ∧ Orderly (env.after e) events))

theorem orderly_append {env : Environment} {events later : List Event} :
    env.Orderly (events ++ later) ↔ env.Orderly events ∧ (env.run events).Orderly later := by
  induction events generalizing env with
  | nil => exact (true_and _).symm.to_iff
  | cons e events ih => exact (and_congr_right fun _ => ih).trans and_assoc.symm

variable {env env' : Environment} {id : Nat} {result : Option Result}

/-- What every event of an orderly run keeps, its end has. -/
theorem Numbered.run_induction {base : TxnId} (hnumbered : env.Numbered base)
    (P : Environment → Prop) {events : List Event} (horderly : env.Orderly events)
    (hroom : base.since env.nextTxn + events.length < UInt64.size)
    (hstep : ∀ {cur : Environment} {e : Event}, cur.Numbered base → e.Orderly cur →
      base.since cur.nextTxn + 1 < UInt64.size → P cur → P (cur.after e)) (h : P env) :
    P (env.run events) := by
  induction events generalizing env with
  | nil => exact h
  | cons e events ih =>
    rw [List.length_cons] at hroom
    have hnext := (since_nextTxn_after hnumbered (by omega) e).2
    exact ih (hnumbered.after (by omega) e) horderly.2 (by omega)
      (hstep hnumbered horderly.1 (by omega) h)

/-! ## One call for a transaction -/

/-- Calls in progress belong to different transactions. -/
def Single (env : Environment) : Prop :=
  ∀ id id' call call' txn, env.calls.get? id = some call → env.calls.get? id' = some call' →
    call.op.txn? = some txn → call'.op.txn? = some txn → id = id'

/-- A call that goes on still is the call of the same operation. -/
theorem Step.op_eq (h : Step env id env' result) {call' : Call}
    (hcall' : env'.calls.get? id = some call') :
    ∃ call, env.calls.get? id = some call ∧ call'.op = call.op := by
  cases h with
  | idle hcall => exact ⟨call', hcall', rfl⟩
  | accept hcall | wait hcall | take hcall | abort hcall | commit hcall | writeNow hcall
  | readOnce hcall =>
    rw [SortedMap.get?_insert, if_pos rfl] at hcall'
    cases hcall'
    exact ⟨_, hcall, rfl⟩
  | _ =>
    rw [SortedMap.get?_erase, if_pos rfl] at hcall'
    cases hcall'

/-- A call stays where it is until it takes a step or a call of its number is started. -/
theorem get?_calls_after (hnamed : env.Named) {e : Event} (hstep : e ≠ .step id)
    (hstart : ∀ op, e ≠ .start id op) : (env.after e).calls.get? id = env.calls.get? id := by
  have h := env.occurs hnamed e
  generalize env.after e = env' at h ⊢
  cases h with
  | start =>
    refine (SortedMap.get?_insert ..).trans (if_neg ?_)
    rintro rfl
    exact hstart _ rfl
  | step h =>
    refine h.get?_calls_of_ne ?_
    rintro rfl
    exact hstep rfl
  | _ => rfl

/-- A call in progress has just been started, or has taken a step, or is as it was. -/
theorem call_cases (hnamed : env.Named) {e : Event} {call' : Call}
    (hcall' : (env.after e).calls.get? id = some call') :
    (∃ op timer, e = .start id op ∧ call' = ⟨op, timer, .entered⟩) ∨ e = .step id ∨
      e ≠ .step id ∧ env.calls.get? id = some call' := by
  by_cases hstart : ∃ op, e = .start id op
  · obtain ⟨op, rfl⟩ := hstart
    obtain ⟨tracker, timer, h⟩ := env.start_eq id op
    rw [after, h, SortedMap.get?_insert, if_pos rfl] at hcall'
    cases hcall'
    exact .inl ⟨op, timer, rfl, rfl⟩
  by_cases hstep : e = .step id
  · exact .inr (.inl hstep)
  · rw [get?_calls_after hnamed hstep fun op he => hstart ⟨op, he⟩] at hcall'
    exact .inr (.inr ⟨hstep, hcall'⟩)

/-- A call in progress has been so before, unless it has just been started. -/
theorem call_after (hnamed : env.Named) {e : Event} {call' : Call}
    (hcall' : (env.after e).calls.get? id = some call') :
    (∃ op, e = .start id op ∧ call'.op = op) ∨
      ∃ call, env.calls.get? id = some call ∧ call'.op = call.op := by
  rcases call_cases hnamed hcall' with ⟨op, timer, he, rfl⟩ | rfl | ⟨-, hcall⟩
  · exact .inl ⟨op, he, rfl⟩
  · exact .inr ((step_spec hnamed id).op_eq hcall')
  · exact .inr ⟨call', hcall, rfl⟩

theorem Single.after (h : env.Single) (hnamed : env.Named) {e : Event} (he : e.Orderly env) :
    (env.after e).Single := by
  intro id id' call call' txn hcall hcall' htxn htxn'
  rcases call_after hnamed hcall with ⟨op, rfl, hop⟩ | ⟨before, hbefore, hop⟩ <;>
    rcases call_after hnamed hcall' with ⟨op', he', hop'⟩ | ⟨before', hbefore', hop'⟩ <;>
    rw [hop] at htxn <;> rw [hop'] at htxn'
  · cases he'
    rfl
  · exact absurd ⟨id', before', hbefore', htxn'⟩ (he.2 txn htxn)
  · subst he'
    exact absurd ⟨id, before, hbefore, htxn⟩ (he.2 txn htxn')
  · exact h id id' before before' txn hbefore hbefore' htxn htxn'

/-! ## Who is concerned -/

/-- The event goes on with a call of this transaction, or drops the transaction. -/
def Event.Concerns (env : Environment) (txn : TxnId) : Event → Prop
  | .step id => ∃ call, env.calls.get? id = some call ∧ call.op.txn? = some txn
  | .drop t => t = txn
  | .begin _ | .start .. | .close | .cancel _ | .tick _ | .wake _ | .plan _ => False

/-- In an orderly run an event that does not go on with a call does not concern its transaction. -/
theorem Single.not_concerns (h : env.Single) {e : Event} (he : e.Orderly env)
    (hstep : e ≠ .step id) {call : Call} (hcall : env.calls.get? id = some call) {txn : TxnId}
    (htxn : call.op.txn? = some txn) : ¬e.Concerns env txn := by
  intro hconcerns
  cases e with
  | step id' =>
    obtain ⟨call', hcall', htxn'⟩ := hconcerns
    rw [h id' id call' call txn hcall' hcall htxn' htxn] at hstep
    exact hstep rfl
  | drop t =>
    obtain rfl : t = txn := hconcerns
    exact he ⟨id, call, hcall, htxn⟩
  | _ => exact hconcerns.elim

/-! ## Results -/

/-- The result that the call with number `id` gets by an event, if it gets one. -/
def resultOf? (env : Environment) (id : Nat) : Event → Option Result
  | .step id' => if id' = id then (env.step id').2 else none
  | _ => none

/-- The call with number `id` gets this result by the last of the events. -/
inductive Answers (id : Nat) (result : Result) : Environment → List Event → Prop
  | last {env : Environment} {e : Event} (h : env.resultOf? id e = some result) :
      Answers id result env [e]
  | later {env : Environment} {e : Event} {events : List Event} (h : env.resultOf? id e = none)
      (hlater : Answers id result (env.after e) events) : Answers id result env (e :: events)

theorem Answers.step {result : Result} (h : (env.step id).2 = some result) :
    Answers id result env [.step id] :=
  .last (by rw [resultOf?, if_pos rfl, h])

theorem Answers.later_step {result : Result} {events : List Event} (h : (env.step id).2 = none)
    (hlater : Answers id result (env.step id).1 events) :
    Answers id result env (.step id :: events) :=
  .later (by rw [resultOf?, if_pos rfl, h]) hlater

theorem eq_step_of_resultOf? {e : Event} {result : Result} (h : env.resultOf? id e = some result) :
    e = .step id ∧ (env.step id).2 = some result := by
  cases e with
  | step id' =>
    by_cases hid : id' = id
    · rw [resultOf?, if_pos hid, hid] at h
      exact ⟨by rw [hid], h⟩
    · rw [resultOf?, if_neg hid] at h
      cases h
  | _ => cases h

end WalStore.Environment
