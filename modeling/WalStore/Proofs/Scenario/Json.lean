import WalStore.Proofs.Json.Value
import WalStore.Scenario.Json

/-!
# Scenarios are read as written

**Theorem (`ofText?_text`).** The text of a scenario in JSON is read as that scenario: whatever
characters its names, keys and values hold, however many lines and pairs it has, with every
transaction and position of 64 bits, and with what is optional given or not.

The text is that of a value, which is read as written; what is left is that the fields of an object
are found again (`field?_members`) and that each is of its type.
-/

namespace WalStore.Scenario

open Json (Value)

/-! ## Fields -/

/-- The members of an object with these fields. -/
def members (fields : List (String × Value)) : List (Option String × Value) :=
  fields.map fun (name, v) => (some name, v)

theorem filter_members (fields : List (String × Value)) (name : String) :
    (members fields).filter (·.1 = some name) = members (fields.filter (·.1 = name)) := by
  simp [members, List.filter_map, Function.comp_def]

theorem field?_members {fields : List (String × Value)} (hnodup : (fields.map (·.1)).Nodup)
    {name : String} {v : Value} (h : (name, v) ∈ fields) :
    field? (members fields) name = some (some v) := by
  have hfilter : fields.filter (·.1 = name) = [(name, v)] := by
    obtain ⟨before, behind, rfl⟩ := List.append_of_mem h
    rw [List.map_append, List.map_cons, List.nodup_append, List.nodup_cons] at hnodup
    obtain ⟨-, ⟨hbehind, -⟩, hbefore⟩ := hnodup
    have hnone {l : List (String × Value)} (hl : ∀ f ∈ l, f.1 ≠ name) :
        l.filter (·.1 = name) = [] := by
      simpa using hl
    rw [List.filter_append, List.filter_cons_of_pos (by simp),
      hnone fun f hf => hbefore _ (List.mem_map_of_mem hf) _ List.mem_cons_self,
      hnone fun f hf heq => hbehind (List.mem_map.2 ⟨f, hf, heq⟩)]
    rfl
  rw [field?, filter_members, hfilter]
  rfl

theorem isWritten_members {fields : List (String × Value)} (h : ∀ f ∈ fields, f.2.IsWritten) :
    (Value.object (members fields)).IsWritten :=
  Value.isWritten_object fun _ hm => by
    obtain ⟨f, hf, rfl⟩ := List.mem_map.1 hm
    exact h f hf

/-- All fields of an object are found. -/
theorem mapM_field? {fields : List (String × Value)} (hnodup : (fields.map (·.1)).Nodup)
    {names : List String} {vs : List Value} (hlength : names.length = vs.length)
    (h : ∀ f ∈ names.zip vs, f ∈ fields) :
    names.mapM (field? (members fields)) = some (vs.map some) := by
  induction names generalizing vs with
  | nil =>
    rw [List.length_eq_zero_iff.1 hlength.symm]
    rfl
  | cons name names ih =>
    cases vs with
    | nil => cases hlength
    | cons v vs =>
      rw [List.zip_cons_cons, List.forall_mem_cons] at h
      rw [List.mapM_cons, field?_members hnodup h.1, ih (Nat.succ.inj hlength) h.2]
      rfl

theorem mapM_map_of_inverse {α β : Type} {f : α → β} {g : β → Option α} {l : List α}
    (h : ∀ a ∈ l, g (f a) = some a) : (l.map f).mapM g = some l := by
  induction l with
  | nil => rfl
  | cons a l ih =>
    rw [List.forall_mem_cons] at h
    rw [List.map_cons, List.mapM_cons, h.1, ih h.2]
    rfl

theorem word?_ofNat (w : UInt64) : word? (.ofNat w.toNat) = some w := by
  simp [word?, Value.ofNat, Value.toNat?, Json.Number.toNat?, Json.Number.ofNat, w.toNat_lt_size]

@[simp] theorem toString?_ofString (s : String) : (Value.ofString s).toString? = some s := rfl

theorem txn?_txnValue (t : TxnId) : txn? (Line.txnValue t) = some t := by
  rw [txn?, Line.txnValue, TxnId.toNat, word?_ofNat]
  rfl

theorem optional?_ofOption_text (o : Option String) :
    optional? Value.toString? (some (.ofOption .ofString o)) = some o := by
  cases o <;> rfl

theorem optional?_ofOption_lsn (o : Option Lsn) :
    optional? lsn? (some (.ofOption (.ofNat ∘ Lsn.toNat) o)) = some o := by
  cases o with
  | none => rfl
  | some lsn =>
    have hread : lsn? (.ofNat lsn.toNat) = some lsn := by
      rw [lsn?, Lsn.toNat, word?_ofNat]
      rfl
    exact congrArg (Option.map some) hread

/-! ## Lines -/

namespace Line

theorem kind?_kindName (k : Kind) : kind? (.ofString (kindName k)) = some k := by
  cases k <;> decide

theorem ofValues?_values (l : Line) : ofValues? l.kind (l.values.map some) = some l := by
  cases l with
  | put key value => rfl
  | delete key value => simp [ofValues?, kind, values, optional?_ofOption_text]
  | txnPut txn key value => simp [ofValues?, kind, values, txn?_txnValue]
  | txnDelete txn key value =>
    simp [ofValues?, kind, values, txn?_txnValue, optional?_ofOption_text]
  | commit txn => simp [ofValues?, kind, values, txn?_txnValue]
  | abort txn => simp [ofValues?, kind, values, txn?_txnValue]

theorem length_values (l : Line) : (fieldsOf l.kind).length = l.values.length := by
  cases l <;> rfl

/-- The fields of the object that a line is written as. -/
def fields (l : Line) : List (String × Value) :=
  ("kind", .ofString (kindName l.kind)) :: (fieldsOf l.kind).zip l.values

theorem nodup_fields (l : Line) : (l.fields.map (·.1)).Nodup := by
  have hnames : l.fields.map (·.1) = "kind" :: fieldsOf l.kind := by
    rw [fields, List.map_cons, List.map_fst_zip (Nat.le_of_eq l.length_values)]
  rw [hnames]
  cases l.kind <;> decide

theorem toJson_eq (l : Line) : l.toJson = .object (members l.fields) := rfl

/-- A line nests no deeper than its own object, and its number is one of 64 bits. -/
theorem isSound_toJson (l : Line) : l.toJson.isSound maxDepth = true := by
  have htxn (txn : TxnId) (depth : Nat) : (txnValue txn).isSound depth = true :=
    Json.Number.isFinite_ofNat txn.val.toNat_lt_size
  have htext (s : String) (depth : Nat) : (Value.ofString s).isSound depth = true := rfl
  have hoption (o : Option String) (depth : Nat) :
      (Value.ofOption .ofString o).isSound depth = true := by
    cases o <;> rfl
  cases l <;>
    simp [toJson, values, kind, fieldsOf, Value.isSound, Value.membersSound, maxDepth, htxn, htext,
      hoption]

theorem ofJson?_toJson (l : Line) : ofJson? l.toJson = some l := by
  have hkind : field? (members l.fields) "kind" = some (some (.ofString (kindName l.kind))) :=
    field?_members l.nodup_fields List.mem_cons_self
  have hvalues : (fieldsOf l.kind).mapM (field? (members l.fields)) = some (l.values.map some) :=
    mapM_field? l.nodup_fields l.length_values fun _ => List.mem_cons_of_mem _
  have hsound := l.isSound_toJson
  rw [toJson_eq] at hsound ⊢
  simp [ofJson?, hsound, hkind, kind?_kindName, hvalues, ofValues?_values]

theorem isWritten_toJson (l : Line) : l.toJson.IsWritten := by
  have hvalues : ∀ v ∈ l.values, v.IsWritten := by
    have htext := Value.isWritten_ofString
    have hoption := Value.isWritten_ofOption htext
    have htxn (txn : TxnId) : (txnValue txn).IsWritten := Value.isWritten_ofNat _
    cases l <;> simp [values, htext, hoption, htxn]
  refine isWritten_members (List.forall_mem_cons.2 ⟨Value.isWritten_ofString _, fun f hf => ?_⟩)
  exact hvalues _ (List.of_mem_zip hf).2

end Line

/-! ## Scenarios -/

/-- The fields of the object that a scenario is written as. -/
def fields (s : Scenario) : List (String × Value) := fieldNames.zip s.values

/-- The value of a pair that is live. -/
def pairValue (p : String × String) : Value := .array [.ofString p.1, .ofString p.2]

theorem toJson_eq (s : Scenario) : s.toJson = .object (members s.fields) := rfl

theorem values_eq (s : Scenario) :
    s.values = [.ofString s.name, .array (s.lines.map Line.toJson),
      .ofOption (.ofNat ∘ Lsn.toNat) s.upTo, .array (s.expected.map pairValue)] := rfl

theorem nodup_fields (s : Scenario) : (s.fields.map (·.1)).Nodup := by
  have hnames : s.fields.map (·.1) = fieldNames := List.map_fst_zip (Nat.le_refl 4)
  rw [hnames]
  decide

theorem ofValues?_values (s : Scenario) : ofValues? (s.values.map some) = some s := by
  have hlines : (s.lines.map Line.toJson).mapM Line.ofJson? = some s.lines :=
    mapM_map_of_inverse fun l _ => l.ofJson?_toJson
  have hexpected : (s.expected.map pairValue).mapM pair? = some s.expected :=
    mapM_map_of_inverse fun _ _ => rfl
  simp [ofValues?, values_eq, Value.items?, hlines, hexpected, optional?_ofOption_lsn]

theorem ofJson?_toJson (s : Scenario) : ofJson? s.toJson = some s := by
  have hvalues : fieldNames.mapM (field? (members s.fields)) = some (s.values.map some) :=
    mapM_field? s.nodup_fields rfl fun _ => id
  have hnamed : (members s.fields).all (·.1.isSome) = true := by
    simp [members]
  rw [toJson_eq, ofJson?, if_pos hnamed, hvalues]
  exact s.ofValues?_values

theorem isWritten_toJson (s : Scenario) : s.toJson.IsWritten := by
  have hlines : (Value.array (s.lines.map Line.toJson)).IsWritten :=
    Value.isWritten_array (List.forall_mem_map.2 fun l _ => l.isWritten_toJson)
  have hexpected : (Value.array (s.expected.map pairValue)).IsWritten := by
    refine Value.isWritten_array (List.forall_mem_map.2 fun _ _ => Value.isWritten_array ?_)
    simp [Value.isWritten_ofString]
  have hvalues : ∀ v ∈ s.values, v.IsWritten := by
    have hupTo := Value.isWritten_ofOption (f := Value.ofNat ∘ Lsn.toNat)
      (fun _ => Value.isWritten_ofNat _) s.upTo
    simpa [values_eq, Value.isWritten_ofString] using ⟨hlines, hupTo, hexpected⟩
  exact isWritten_members fun f hf => hvalues _ (List.of_mem_zip hf).2

/-- A scenario is read as it is written. -/
theorem ofText?_text (s : Scenario) : ofText? s.text = some s := by
  rw [ofText?, text, Value.ofText?_pretty s.isWritten_toJson]
  exact ofJson?_toJson s

end WalStore.Scenario
