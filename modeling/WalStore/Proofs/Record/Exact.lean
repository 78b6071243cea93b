import WalStore.Proofs.Record.Payload

/-!
# Payloads are read exactly

**Theorem (`decode_exact`).** Every entry whose key and value are short enough has a payload, and
for each kind, reading takes the payloads of its entries back to them, and nothing else to
anything: what is read is the entry whose payload it is, and every other byte string is damage. A
payload that is cut short ends early. One that goes on has trailing bytes, and the fault says where
they begin.

**Why no payload begins another.** A field says how long it is before it begins. So a reader with
only the front of what its writer wrote finds that more should come (`EndsEarly`), and with all of
it stops at its end, whatever follows (`entry_ofEntry`).
-/

namespace WalStore

/-- The byte strings of an entry: its key, and its value if it has one. -/
def Entry.fields : Entry → List Bytes
  | .put key value | .txnPut _ key value => [key, value]
  | .delete key value | .txnDelete _ key value => key :: value.toList
  | .commit _ | .abort _ => []

namespace Payload

/-! ## Entries with a payload -/

theorem exists_ofField_iff {bs : Bytes} :
    (∃ raw, ofField bs = .ok raw) ↔ bs.length < limit := by
  unfold ofField
  split <;> simp [*]

theorem exists_ofOptional_iff {value : Option Bytes} :
    (∃ raw, ofOptional value = .ok raw) ↔ ∀ bs ∈ value.toList, bs.length < limit := by
  cases value with
  | none => simp [ofOptional]
  | some bs =>
    rw [Option.toList_some, List.forall_mem_singleton, ← exists_ofField_iff, ofOptional]
    cases ofField bs <;> simp [bind, Except.bind, pure, Except.pure]

/-- Of two parts, one after the other, both have to be there. -/
theorem exists_both_iff {x y : Except Error Bytes} (join : Bytes → Bytes → Bytes) :
    (∃ payload, (do let k ← x; let v ← y; return join k v) = .ok payload) ↔
      (∃ k, x = .ok k) ∧ ∃ v, y = .ok v := by
  cases x <;> cases y <;> simp [bind, Except.bind, pure, Except.pure]

theorem exists_ofEntry_iff {e : Entry} :
    (∃ payload, ofEntry e = .ok payload) ↔ ∀ bs ∈ e.fields, bs.length < limit := by
  cases e with
  | put key value =>
    rw [ofEntry, exists_both_iff, exists_ofField_iff, exists_ofField_iff]
    simp [Entry.fields]
  | delete key value =>
    rw [ofEntry, exists_both_iff, exists_ofField_iff, exists_ofOptional_iff, Entry.fields,
      List.forall_mem_cons]
  | txnPut txn key value =>
    rw [ofEntry, exists_both_iff fun k v => ofId txn ++ k ++ v, exists_ofField_iff,
      exists_ofField_iff]
    simp [Entry.fields]
  | txnDelete txn key value =>
    rw [ofEntry, exists_both_iff fun k v => ofId txn ++ k ++ v, exists_ofField_iff,
      exists_ofOptional_iff, Entry.fields, List.forall_mem_cons]
  | commit | abort => simp [ofEntry, Entry.fields]

/-! ## Payloads cut short -/

section Cut

variable {α β : Type} {r : Reader α} {raw raw' : Bytes} {a : α}

/-- With any less of `raw`, the reader finds that its input ends early. -/
def EndsEarly (r : Reader α) (raw : Bytes) : Prop :=
  ∀ n, n < raw.length → r (raw.take n) = .error .endsEarly

/-- Of two readers one after the other, the first ends early, or it has all of its part and the
second does. -/
theorem EndsEarly.bind {g : α × Bytes → Except PayloadFault (β × Bytes)} (h : EndsEarly r raw)
    (hread : ∀ rest, r (raw ++ rest) = .ok (a, rest)) (h' : EndsEarly (fun bs => g (a, bs)) raw') :
    EndsEarly (fun bs => r bs >>= g) (raw ++ raw') := by
  intro n hn
  rw [List.length_append] at hn
  show r ((raw ++ raw').take n) >>= g = _
  by_cases hcut : n < raw.length
  · rw [List.take_append_of_le_length (Nat.le_of_lt hcut), h n hcut]
    rfl
  · have hwhole : raw.take n = raw := List.take_of_length_le (Nat.le_of_not_lt hcut)
    rw [List.take_append, hwhole, hread]
    exact h' (n - raw.length) (by omega)

theorem EndsEarly.before (h : EndsEarly r raw) (g : α × Bytes → Except PayloadFault (β × Bytes)) :
    EndsEarly (fun bs => r bs >>= g) raw := by
  intro n hn
  show r (raw.take n) >>= g = _
  rw [h n hn]
  rfl

theorem endsEarly_take {n : Nat} (h : raw.length = n) : EndsEarly (take n) raw := by
  intro cut hcut
  have hshort : ((raw.take cut).take n).length ≠ n := by
    rw [List.length_take, List.length_take]
    omega
  rw [take]
  exact if_neg hshort

theorem endsEarly_id? (t : TxnId) : EndsEarly id? (ofId t) :=
  (endsEarly_take (Bytes.length_ofNatLE ..)).before _

theorem endsEarly_field {bs : Bytes} (h : ofField bs = .ok raw) : EndsEarly field raw := by
  unfold ofField at h
  split at h
  · next hlt =>
    cases h
    have hlen : Bytes.toNatLE (.ofNatLE 4 bs.length) = bs.length := toNatLE_ofNatLE_of_lt hlt
    exact (endsEarly_take (Bytes.length_ofNatLE ..)).bind
      (fun rest => take_append (Bytes.length_ofNatLE ..)) (endsEarly_take hlen.symm)
  · cases h

theorem endsEarly_optional {value : Option Bytes} (h : ofOptional value = .ok raw) :
    EndsEarly optional raw := by
  cases value with
  | none =>
    cases h
    intro n hn
    cases Nat.lt_one_iff.1 hn
    rfl
  | some bs =>
    obtain ⟨raw₁, hraw₁, h⟩ := Except.exists_of_bind_eq_ok h
    cases h
    intro n hn
    cases n with
    | zero => rfl
    | succ n =>
      show (field (raw₁.take n) >>= fun p => .ok (some p.1, p.2)) = _
      rw [endsEarly_field hraw₁ n (Nat.lt_of_succ_lt_succ hn)]
      rfl

theorem endsEarly_entry {e : Entry} {payload : Bytes} (h : ofEntry e = .ok payload) :
    EndsEarly (entry e.kind) payload := by
  cases e with
  | put key value =>
    obtain ⟨k, hk, h⟩ := Except.exists_of_bind_eq_ok h
    obtain ⟨v, hv, h⟩ := Except.exists_of_bind_eq_ok h
    cases h
    exact (endsEarly_field hk).bind (field_ofField hk) ((endsEarly_field hv).before _)
  | delete key value =>
    obtain ⟨k, hk, h⟩ := Except.exists_of_bind_eq_ok h
    obtain ⟨v, hv, h⟩ := Except.exists_of_bind_eq_ok h
    cases h
    exact (endsEarly_field hk).bind (field_ofField hk) ((endsEarly_optional hv).before _)
  | txnPut txn key value =>
    obtain ⟨k, hk, h⟩ := Except.exists_of_bind_eq_ok h
    obtain ⟨v, hv, h⟩ := Except.exists_of_bind_eq_ok h
    cases h
    rw [List.append_assoc]
    exact (endsEarly_id? txn).bind (id?_ofId txn)
      ((endsEarly_field hk).bind (field_ofField hk) ((endsEarly_field hv).before _))
  | txnDelete txn key value =>
    obtain ⟨k, hk, h⟩ := Except.exists_of_bind_eq_ok h
    obtain ⟨v, hv, h⟩ := Except.exists_of_bind_eq_ok h
    cases h
    rw [List.append_assoc]
    exact (endsEarly_id? txn).bind (id?_ofId txn)
      ((endsEarly_field hk).bind (field_ofField hk) ((endsEarly_optional hv).before _))
  | commit txn | abort txn =>
    cases h
    exact (endsEarly_id? txn).before _

end Cut

/-! ## Whole payloads -/

variable {e : Entry} {payload : Bytes}

theorem decode_take (h : ofEntry e = .ok payload) {n : Nat} (hn : n < payload.length) :
    decode e.kind (payload.take n) = .error (.corruption (.payload e.kind .endsEarly)) := by
  rw [decode, toEntry, endsEarly_entry h n hn]
  rfl

theorem decode_append (h : ofEntry e = .ok payload) {more : Bytes} (hmore : more ≠ []) :
    decode e.kind (payload ++ more) = .error (.corruption
      (.payload e.kind (.trailing payload.length (payload ++ more).length))) := by
  obtain ⟨b, more, rfl⟩ := List.exists_cons_of_ne_nil hmore
  have hused : (payload ++ b :: more).length - (b :: more).length = payload.length := by
    rw [List.length_append, Nat.add_sub_cancel]
  rw [decode, toEntry, entry_ofEntry h, ← hused]
  rfl

/-- What can be read for a kind are the payloads of its entries. -/
theorem decode_eq_ok_iff {kind : Kind} {bs : Bytes} :
    decode kind bs = .ok e ↔ e.kind = kind ∧ ofEntry e = .ok bs := by
  refine ⟨ofEntry_of_decode, ?_⟩
  rintro ⟨rfl, h⟩
  exact decode_ofEntry h

theorem decode_ok_or_damaged (kind : Kind) (bs : Bytes) :
    (∃ e, decode kind bs = .ok e) ∨
      ∃ fault, decode kind bs = .error (.corruption (.payload kind fault)) := by
  unfold decode
  cases toEntry kind bs with
  | ok e => exact .inl ⟨e, rfl⟩
  | error fault => exact .inr ⟨fault, rfl⟩

/-- **Payloads are read exactly.** An entry with short enough fields has a payload, which is read
back as the entry; cut short it ends early, and what stands behind it is refused as trailing. A byte
string that can be read is the payload of the entry it is read as, and this is of the kind asked
for. Any byte string that is no payload of this kind is damage. -/
theorem decode_exact (kind : Kind) :
    (∀ e : Entry, e.kind = kind → (∀ bs ∈ e.fields, bs.length < UInt32.size) →
      ∃ payload, ofEntry e = .ok payload ∧ decode kind payload = .ok e ∧
        (∀ n, n < payload.length →
          decode kind (payload.take n) = .error (.corruption (.payload kind .endsEarly))) ∧
        ∀ more, more ≠ [] → decode kind (payload ++ more) = .error (.corruption
          (.payload kind (.trailing payload.length (payload ++ more).length)))) ∧
    (∀ bs e, decode kind bs = .ok e →
      e.kind = kind ∧ ofEntry e = .ok bs ∧ ∀ field ∈ e.fields, field.length < UInt32.size) ∧
    ∀ bs, (∀ e : Entry, e.kind = kind → ofEntry e ≠ .ok bs) →
      ∃ fault, decode kind bs = .error (.corruption (.payload kind fault)) := by
  refine ⟨?_, fun bs e h => ?_, fun bs hother => ?_⟩
  · rintro e rfl hshort
    obtain ⟨payload, h⟩ := exists_ofEntry_iff.2 hshort
    exact ⟨payload, h, decode_ofEntry h, fun n => decode_take h, fun more => decode_append h⟩
  · obtain ⟨hkind, hpayload⟩ := decode_eq_ok_iff.1 h
    exact ⟨hkind, hpayload, exists_ofEntry_iff.1 ⟨bs, hpayload⟩⟩
  · refine (decode_ok_or_damaged kind bs).resolve_left ?_
    rintro ⟨e, h⟩
    obtain ⟨hkind, hpayload⟩ := decode_eq_ok_iff.1 h
    exact hother e hkind hpayload

/-- A delete that names the empty value, under the empty key. -/
def emptyValue : Entry := .txnDelete ⟨7⟩ [] (some [])

/-- It is not the delete that names no value, and with a flag of neither it is nothing. -/
theorem decode_exact_emptyValue :
    (∀ bs ∈ emptyValue.fields, bs.length < UInt32.size) ∧
    decode .txnDelete [7, 0, 0, 0, 0, 0, 0, 0, 0, 0, 0, 0, 1, 0, 0, 0, 0] = .ok emptyValue ∧
    decode .txnDelete [7, 0, 0, 0, 0, 0, 0, 0, 0, 0, 0, 0, 1] =
      .error (.corruption (.payload .txnDelete .endsEarly)) ∧
    decode .txnDelete [7, 0, 0, 0, 0, 0, 0, 0, 0, 0, 0, 0, 1, 0, 0, 0, 0, 9] =
      .error (.corruption (.payload .txnDelete (.trailing 17 18))) ∧
    ofEntry (.txnDelete ⟨7⟩ [] none) = .ok [7, 0, 0, 0, 0, 0, 0, 0, 0, 0, 0, 0, 0] ∧
    ∃ fault, decode .txnDelete [7, 0, 0, 0, 0, 0, 0, 0, 0, 0, 0, 0, 2] =
      .error (.corruption (.payload .txnDelete fault)) := by
  have hshort : ∀ bs ∈ emptyValue.fields, bs.length < UInt32.size := by decide
  have hother (e : Entry) (hkind : e.kind = .txnDelete) :
      ofEntry e ≠ .ok [7, 0, 0, 0, 0, 0, 0, 0, 0, 0, 0, 0, 2] := by
    intro h
    cases decode_eq_ok_iff.2 ⟨hkind, h⟩
  obtain ⟨hwritten, hread, hdamaged⟩ := decode_exact .txnDelete
  obtain ⟨payload, hpayload, hdecode, hcut, hmore⟩ := hwritten emptyValue rfl hshort
  cases hpayload
  exact ⟨hshort, hdecode, hcut 13 (by decide), hmore [9] (by decide),
    (hread _ (.txnDelete ⟨7⟩ [] none) rfl).2.1, hdamaged _ hother⟩

end Payload
end WalStore
