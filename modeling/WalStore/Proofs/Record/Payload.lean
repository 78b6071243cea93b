import WalStore.Record.Payload

/-!
# Reading back payloads

Each reader takes off the front exactly what its writer put there. That is said twice for each of
them: what was written is read back whatever follows (`entry_ofEntry`), and what can be read is
what would have been written (`ofEntry_of_entry`). From the second it follows that no entry has two
payloads.
-/

namespace WalStore

/-- A computation that answers has answered at its first step. -/
theorem Except.exists_of_bind_eq_ok {ε α β : Type} {x : Except ε α} {f : α → Except ε β} {b : β}
    (h : x >>= f = .ok b) : ∃ a, x = .ok a ∧ f a = .ok b := by
  cases x with
  | error => cases h
  | ok a => exact ⟨a, rfl, h⟩

namespace Payload

/-! ## Fields -/

theorem take_append {n : Nat} {bs rest : Bytes} (h : bs.length = n) :
    take n (bs ++ rest) = .ok (bs, rest) := by
  subst h
  simp [take]

theorem eq_append_of_take {n : Nat} {bs taken rest : Bytes} (h : take n bs = .ok (taken, rest)) :
    bs = taken ++ rest ∧ taken.length = n := by
  unfold take at h
  dsimp only at h
  split at h
  · next hlen =>
    cases h
    exact ⟨(List.take_append_drop n bs).symm, hlen⟩
  · cases h

theorem toNatLE_ofNatLE_of_lt {width n : Nat} (h : n < Bytes.capacity width) :
    Bytes.toNatLE (.ofNatLE width n) = n := by
  rw [Bytes.toNatLE_ofNatLE, Nat.mod_eq_of_lt h]

theorem id?_ofId (t : TxnId) (rest : Bytes) : id? (ofId t ++ rest) = .ok (t, rest) := by
  have ht : Bytes.toNatLE (ofId t) = t.toNat :=
    toNatLE_ofNatLE_of_lt (show t.val.toNat < Bytes.capacity 8 from t.val.toNat_lt)
  rw [id?, take_append (show (ofId t).length = 8 from Bytes.length_ofNatLE ..)]
  show Except.ok (TxnId.ofNat (Bytes.toNatLE (ofId t)), rest) = _
  rw [ht, TxnId.ofNat, TxnId.toNat, UInt64.ofNat_toNat]

theorem eq_append_of_id? {bs rest : Bytes} {t : TxnId} (h : id? bs = .ok (t, rest)) :
    bs = ofId t ++ rest := by
  obtain ⟨⟨raw, rest'⟩, htake, hraw⟩ := Except.exists_of_bind_eq_ok h
  obtain ⟨rfl, hlen⟩ := eq_append_of_take htake
  cases hraw
  have hlt : Bytes.toNatLE raw < UInt64.size := by
    have := Bytes.toNatLE_lt raw
    rwa [hlen] at this
  have hraw : ofId (.ofNat (Bytes.toNatLE raw)) = raw := by
    rw [ofId, TxnId.toNat, TxnId.ofNat, UInt64.toNat_ofNat_of_lt' hlt, ← hlen,
      Bytes.ofNatLE_toNatLE]
  rw [hraw]

theorem field_ofField {bs raw : Bytes} (h : ofField bs = .ok raw) (rest : Bytes) :
    field (raw ++ rest) = .ok (bs, rest) := by
  unfold ofField at h
  split at h
  · next hlt =>
    cases h
    have hlen : Bytes.toNatLE (.ofNatLE 4 bs.length) = bs.length := toNatLE_ofNatLE_of_lt hlt
    rw [field, List.append_assoc, take_append (Bytes.length_ofNatLE ..)]
    simp only [bind, Except.bind]
    rw [hlen, take_append rfl]
  · cases h

theorem eq_append_of_field {bs value rest : Bytes} (h : field bs = .ok (value, rest)) :
    ∃ raw, ofField value = .ok raw ∧ bs = raw ++ rest := by
  obtain ⟨⟨raw, rest'⟩, htake, hfield⟩ := Except.exists_of_bind_eq_ok h
  obtain ⟨rfl, hlen⟩ := eq_append_of_take htake
  obtain ⟨rfl, hvalue⟩ := eq_append_of_take hfield
  have hlt : value.length < limit := by
    have := Bytes.toNatLE_lt raw
    rwa [hlen, ← hvalue] at this
  refine ⟨raw ++ value, ?_, (List.append_assoc ..).symm⟩
  rw [ofField, if_pos hlt, hvalue, ← hlen, Bytes.ofNatLE_toNatLE]

theorem optional_ofOptional {value : Option Bytes} {raw : Bytes} (h : ofOptional value = .ok raw)
    (rest : Bytes) : optional (raw ++ rest) = .ok (value, rest) := by
  cases value with
  | none =>
    cases h
    rfl
  | some bs =>
    obtain ⟨bs', hbs, h⟩ := Except.exists_of_bind_eq_ok h
    cases h
    show (field (bs' ++ rest) >>= fun p => .ok (some p.1, p.2)) = _
    rw [field_ofField hbs]
    rfl

theorem eq_append_of_optional {bs rest : Bytes} {value : Option Bytes}
    (h : optional bs = .ok (value, rest)) :
    ∃ raw, ofOptional value = .ok raw ∧ bs = raw ++ rest := by
  obtain ⟨⟨flag, rest'⟩, htake, hvalue⟩ := Except.exists_of_bind_eq_ok h
  obtain ⟨rfl, hlen⟩ := eq_append_of_take htake
  dsimp only at hvalue
  split at hvalue
  · cases hvalue
    exact ⟨[0], rfl, rfl⟩
  · obtain ⟨⟨value', rest''⟩, hfield, hsome⟩ := Except.exists_of_bind_eq_ok hvalue
    cases hsome
    obtain ⟨raw, hraw, rfl⟩ := eq_append_of_field hfield
    exact ⟨1 :: raw, by rw [ofOptional, hraw]; rfl, rfl⟩
  · cases hvalue
  · cases hvalue

/-! ## Entries -/

/-- What was written is read back, whatever follows. -/
theorem entry_ofEntry {e : Entry} {payload : Bytes} (h : ofEntry e = .ok payload) (rest : Bytes) :
    entry e.kind (payload ++ rest) = .ok (e, rest) := by
  cases e with
  | put key value =>
    obtain ⟨k, hk, h⟩ := Except.exists_of_bind_eq_ok h
    obtain ⟨v, hv, h⟩ := Except.exists_of_bind_eq_ok h
    cases h
    simp only [Entry.kind, entry, List.append_assoc, field_ofField hk, field_ofField hv, bind,
      Except.bind, pure, Except.pure]
  | delete key value =>
    obtain ⟨k, hk, h⟩ := Except.exists_of_bind_eq_ok h
    obtain ⟨v, hv, h⟩ := Except.exists_of_bind_eq_ok h
    cases h
    simp only [Entry.kind, entry, List.append_assoc, field_ofField hk, optional_ofOptional hv, bind,
      Except.bind, pure, Except.pure]
  | txnPut txn key value =>
    obtain ⟨k, hk, h⟩ := Except.exists_of_bind_eq_ok h
    obtain ⟨v, hv, h⟩ := Except.exists_of_bind_eq_ok h
    cases h
    simp only [Entry.kind, entry, List.append_assoc, id?_ofId, field_ofField hk, field_ofField hv,
      bind, Except.bind, pure, Except.pure]
  | txnDelete txn key value =>
    obtain ⟨k, hk, h⟩ := Except.exists_of_bind_eq_ok h
    obtain ⟨v, hv, h⟩ := Except.exists_of_bind_eq_ok h
    cases h
    simp only [Entry.kind, entry, List.append_assoc, id?_ofId, field_ofField hk,
      optional_ofOptional hv, bind, Except.bind, pure, Except.pure]
  | commit txn =>
    cases h
    simp only [Entry.kind, entry, id?_ofId, bind, Except.bind, pure, Except.pure]
  | abort txn =>
    cases h
    simp only [Entry.kind, entry, id?_ofId, bind, Except.bind, pure, Except.pure]

/-- What can be read is what would have been written, and something behind it. -/
theorem ofEntry_of_entry {kind : Kind} {bs rest : Bytes} {e : Entry}
    (h : entry kind bs = .ok (e, rest)) :
    e.kind = kind ∧ ∃ payload, ofEntry e = .ok payload ∧ bs = payload ++ rest := by
  cases kind with
  | put =>
    obtain ⟨⟨key, bs₁⟩, hkey, h⟩ := Except.exists_of_bind_eq_ok h
    obtain ⟨⟨value, bs₂⟩, hvalue, h⟩ := Except.exists_of_bind_eq_ok h
    cases h
    obtain ⟨v, hv, rfl⟩ := eq_append_of_field hvalue
    obtain ⟨k, hk, rfl⟩ := eq_append_of_field hkey
    exact ⟨rfl, k ++ v, by rw [ofEntry, hk, hv]; rfl, (List.append_assoc ..).symm⟩
  | delete =>
    obtain ⟨⟨key, bs₁⟩, hkey, h⟩ := Except.exists_of_bind_eq_ok h
    obtain ⟨⟨value, bs₂⟩, hvalue, h⟩ := Except.exists_of_bind_eq_ok h
    cases h
    obtain ⟨v, hv, rfl⟩ := eq_append_of_optional hvalue
    obtain ⟨k, hk, rfl⟩ := eq_append_of_field hkey
    exact ⟨rfl, k ++ v, by rw [ofEntry, hk, hv]; rfl, (List.append_assoc ..).symm⟩
  | txnPut =>
    obtain ⟨⟨txn, bs₀⟩, htxn, h⟩ := Except.exists_of_bind_eq_ok h
    obtain ⟨⟨key, bs₁⟩, hkey, h⟩ := Except.exists_of_bind_eq_ok h
    obtain ⟨⟨value, bs₂⟩, hvalue, h⟩ := Except.exists_of_bind_eq_ok h
    cases h
    obtain ⟨v, hv, rfl⟩ := eq_append_of_field hvalue
    obtain ⟨k, hk, rfl⟩ := eq_append_of_field hkey
    cases eq_append_of_id? htxn
    exact ⟨rfl, ofId txn ++ k ++ v, by rw [ofEntry, hk, hv]; rfl, by simp only [List.append_assoc]⟩
  | txnDelete =>
    obtain ⟨⟨txn, bs₀⟩, htxn, h⟩ := Except.exists_of_bind_eq_ok h
    obtain ⟨⟨key, bs₁⟩, hkey, h⟩ := Except.exists_of_bind_eq_ok h
    obtain ⟨⟨value, bs₂⟩, hvalue, h⟩ := Except.exists_of_bind_eq_ok h
    cases h
    obtain ⟨v, hv, rfl⟩ := eq_append_of_optional hvalue
    obtain ⟨k, hk, rfl⟩ := eq_append_of_field hkey
    cases eq_append_of_id? htxn
    exact ⟨rfl, ofId txn ++ k ++ v, by rw [ofEntry, hk, hv]; rfl, by simp only [List.append_assoc]⟩
  | commit =>
    obtain ⟨⟨txn, bs₀⟩, htxn, h⟩ := Except.exists_of_bind_eq_ok h
    cases h
    exact ⟨rfl, ofId txn, rfl, eq_append_of_id? htxn⟩
  | abort =>
    obtain ⟨⟨txn, bs₀⟩, htxn, h⟩ := Except.exists_of_bind_eq_ok h
    cases h
    exact ⟨rfl, ofId txn, rfl, eq_append_of_id? htxn⟩

/-! ## Whole payloads -/

theorem toEntry_ofEntry {e : Entry} {payload : Bytes} (h : ofEntry e = .ok payload) :
    toEntry e.kind payload = .ok e := by
  have hentry := entry_ofEntry h []
  rw [List.append_nil] at hentry
  rw [toEntry, hentry]
  rfl

theorem ofEntry_of_toEntry {kind : Kind} {payload : Bytes} {e : Entry}
    (h : toEntry kind payload = .ok e) : e.kind = kind ∧ ofEntry e = .ok payload := by
  obtain ⟨⟨e', rest⟩, hentry, hwhole⟩ := Except.exists_of_bind_eq_ok h
  split at hwhole
  · next heq =>
    cases hwhole
    cases heq
    obtain ⟨hkind, payload', hpayload, heq⟩ := ofEntry_of_entry hentry
    rw [List.append_nil] at heq
    exact ⟨hkind, heq ▸ hpayload⟩
  · cases hwhole

/-- The log reads back the entry that it wrote. -/
theorem decode_ofEntry {e : Entry} {payload : Bytes} (h : ofEntry e = .ok payload) :
    decode e.kind payload = .ok e := by
  rw [decode, toEntry_ofEntry h]
  rfl

/-- A payload that can be read is the only one of its entry. -/
theorem ofEntry_of_decode {kind : Kind} {payload : Bytes} {e : Entry}
    (h : decode kind payload = .ok e) : e.kind = kind ∧ ofEntry e = .ok payload := by
  unfold decode at h
  cases hentry : toEntry kind payload with
  | error => rw [hentry] at h; cases h
  | ok e' =>
    rw [hentry] at h
    cases h
    exact ofEntry_of_toEntry hentry

end Payload
end WalStore
