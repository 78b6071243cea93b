import WalStore.Proofs.Environment.Lifetime
import WalStore.Proofs.Environment.Signed

/-!
# The history of a store

A store that was empty at first is opened by one environment after another, and between them it may
be cut anywhere. Its records are signed with the moments at which their transactions began, counted
in events over the whole history.

**Theorem (`wellFormed_run`).** At every moment the log is well formed, all work under an id is of
the one transaction that began at some moment, and an environment that opens finds no resolution
without work.

**Invariant** (`Visit.Sound`). The log resolves no active transaction, and it has work of every
transaction that counts a write. Its ids are smaller than the next one, so a transaction that begins
finds nothing of another under its id. An environment that opens goes on behind the largest id in
the log; what was cut off does not matter then.
-/

namespace WalStore

open Record (WellFormed Allows Resumes endLsn)

/-! ## Visits -/

/-- An environment over a store with signed records. -/
structure Visit where
  env : Environment
  /-- When each transaction of the environment began. -/
  began : SortedMap TxnId Nat
  signed : List Signed
  /-- How many events there have been in the whole history. -/
  clock : Nat

namespace Visit

open Environment (Event)

/-- When each transaction began, after an event. -/
def beganBy (v : Visit) : Event → SortedMap TxnId Nat
  | .begin config =>
    match (v.env.begin config).2 with
    | .ok txn => v.began.insert txn v.clock
    | .error _ => v.began
  | _ => v.began

/-- One event. What it logs is signed with the beginning of the transaction. -/
def after (v : Visit) (e : Event) : Visit :=
  let env := v.env.after e
  let began := v.beganBy e
  ⟨env, began, Signed.revise v.signed env.log.store fun r => r.entry.txn?.bind began.get?,
    v.clock + 1⟩

def run (v : Visit) (events : List Event) : Visit := events.foldl after v

theorem env_run (v : Visit) (events : List Event) : (v.run events).env = v.env.run events := by
  induction events generalizing v with
  | nil => rfl
  | cons e events ih => exact ih (v.after e)

theorem clock_run (v : Visit) (events : List Event) :
    (v.run events).clock = v.clock + events.length := by
  induction events generalizing v with
  | nil => rfl
  | cons e events ih =>
    rw [List.length_cons, ← Nat.succ_add_eq_add_succ]
    exact ih (v.after e)

structure Sound (v : Visit) : Prop where
  tracks : v.env.Tracks ⟨0⟩ (Signed.records v.signed)
  single : v.env.Single
  checked : v.env.Checked
  filed : Signed.Filed v.signed v.clock
  ids : ∀ p ∈ v.signed, ∀ txn, p.record.entry.txn? = some txn → txn.toNat < v.env.nextTxn.toNat
  next : v.env.nextTxn.toNat ≤ v.clock + 1
  unresolved : ∀ txn, (v.env.txn txn).isActive = true →
    ∀ r ∈ Signed.records v.signed, r.entry.resolved? ≠ some txn
  written : ∀ txn, 0 < (v.env.txn txn).writes →
    ∃ r ∈ Signed.records v.signed, r.entry.work? = some txn
  /-- The work under the id of a transaction is its own. -/
  began : ∀ txn, (v.env.txns.get? txn).isSome = true → ∃ n, v.began.get? txn = some n ∧
    ∀ p ∈ v.signed, p.record.entry.work? = some txn → p.began = some n

variable {v : Visit}

/-- A transaction of the environment after an event is an old one, or has just begun. -/
theorem beganBy_cases (hnumbered : v.env.Numbered ⟨0⟩) {e : Event} {txn : TxnId}
    (hsome : ((v.env.after e).txns.get? txn).isSome = true) :
    ((v.env.txns.get? txn).isSome = true ∧ (v.beganBy e).get? txn = v.began.get? txn) ∨
      txn = v.env.nextTxn ∧ (v.beganBy e).get? txn = some v.clock := by
  obtain ⟨t', ht'⟩ := Option.isSome_iff_exists.1 hsome
  by_cases hbegin : ∃ config, e = .begin config
  · obtain ⟨config, rfl⟩ := hbegin
    rcases v.env.begin_cases config with ⟨err, h⟩ | ⟨timeouts, counters, h⟩
    · rw [Environment.after, h] at hsome
      rw [beganBy, h]
      exact .inl ⟨hsome, rfl⟩
    · rw [Environment.after, h, SortedMap.get?_insert] at hsome
      rw [beganBy, h]
      dsimp only
      rw [SortedMap.get?_insert]
      by_cases htxn : txn = v.env.nextTxn
      · exact .inr ⟨htxn, if_pos htxn⟩
      · rw [if_neg htxn] at hsome ⊢
        exact .inl ⟨hsome, rfl⟩
  · have hsame : v.beganBy e = v.began := by
      cases e with
      | begin config => exact absurd ⟨config, rfl⟩ hbegin
      | _ => rfl
    rcases Environment.txns_after hnumbered.named e with ⟨-, htxns⟩ | ⟨config, -, he, -⟩
    · obtain ⟨t, ht, -⟩ := htxns.exists_of_get? ht'
      exact .inl ⟨by rw [ht]; rfl, by rw [hsame]⟩
    · exact absurd ⟨config, he⟩ hbegin

/-- Nothing begins later than now. -/
theorem lt_of_beganBy {e : Event} (hbegan : ∀ txn n, v.began.get? txn = some n → n < v.clock)
    {txn : TxnId} {n : Nat} (h : (v.beganBy e).get? txn = some n) : n < v.clock + 1 := by
  have hold (h : v.began.get? txn = some n) : n < v.clock + 1 := Nat.lt_succ_of_lt (hbegan txn n h)
  cases e with
  | begin config =>
    rw [beganBy] at h
    split at h
    · rw [SortedMap.get?_insert] at h
      split at h
      · cases h
        exact Nat.lt_succ_self _
      · exact hold h
    · exact hold h
  | _ => exact hold h

theorem get?_beganBy (hnumbered : v.env.Numbered ⟨0⟩) (e : Event) {txn : TxnId}
    (hsome : (v.env.txns.get? txn).isSome = true) :
    (v.beganBy e).get? txn = v.began.get? txn := by
  obtain ⟨t, ht⟩ := Option.isSome_iff_exists.1 hsome
  obtain ⟨t', ht', -⟩ := hnumbered.descends_after e ht
  have hsome' : ((v.env.after e).txns.get? txn).isSome = true := by rw [ht']; rfl
  rcases beganBy_cases hnumbered hsome' with ⟨-, hsame⟩ | ⟨rfl, -⟩
  · exact hsame
  · rw [hnumbered.get?_nextTxn] at ht
    cases ht

/-- An event adds `new` to the store, one record at most and for a reason. -/
structure Adds (v : Visit) (e : Event) (new : List Record) : Prop where
  tracks : (v.env.after e).Tracks ⟨0⟩ (Signed.records v.signed ++ new)
  signed : (v.after e).signed =
    v.signed ++ new.map (fun r => ⟨r, r.entry.txn?.bind (v.beganBy e).get?⟩)
  reason : new = [] ∨ ∃ r, new = [r] ∧ r.lsn = (endLsn .zero (Signed.records v.signed)).next ∧
    Environment.Cause v.env (v.env.after e) r.entry

theorem exists_adds (htracks : v.env.Tracks ⟨0⟩ (Signed.records v.signed))
    (hlsn : (endLsn .zero (Signed.records v.signed)).toNat + 1 < UInt64.size)
    (hid : v.env.nextTxn.toNat + 1 < UInt64.size) (e : Event) : ∃ new, v.Adds e new := by
  obtain ⟨rs', heffect, htracks'⟩ := htracks.after hlsn (by rwa [TxnId.since_zero]) e
  have hsigned {new : List Record} (hnew : rs' = Signed.records v.signed ++ new) :
      (v.after e).signed =
        v.signed ++ new.map (fun r => ⟨r, r.entry.txn?.bind (v.beganBy e).get?⟩) :=
    Signed.revise_of_append (htracks'.holds.records_scan.trans hnew)
  cases heffect with
  | quiet | forget =>
    have hnil := (List.append_nil (Signed.records v.signed)).symm
    exact ⟨[], hnil ▸ htracks', hsigned hnil, .inl rfl⟩
  | @logs r hlsn _ _ hcause => exact ⟨[r], htracks', hsigned rfl, .inr ⟨r, rfl, hlsn, hcause⟩⟩

theorem Sound.exists_adds (h : v.Sound) (hroom : 2 * (v.clock + 1) < UInt64.size) (e : Event) :
    ∃ new, v.Adds e new := by
  have hlength := h.filed.length_le h.tracks.holds.follow
  have hdense := h.filed.dense
  have hnext := h.next
  exact Visit.exists_adds h.tracks (by omega) (by omega) e

section Adds

variable {e : Event} {new : List Record} {r : Record} {txn : TxnId}

theorem Adds.records (h : v.Adds e new) :
    Signed.records (v.after e).signed = Signed.records v.signed ++ new := by
  rw [h.signed, Signed.records_append, Signed.records_sign]

theorem Adds.mem (h : v.Adds e new) {p : Signed} (hp : p ∈ (v.after e).signed) :
    p ∈ v.signed ∨
      p.record ∈ new ∧ p.began = p.record.entry.txn?.bind (v.beganBy e).get? := by
  rw [h.signed] at hp
  rcases List.mem_append.1 hp with hp | hp
  · exact .inl hp
  · obtain ⟨r, hr, rfl⟩ := List.mem_map.1 hp
    exact .inr ⟨hr, rfl⟩

theorem Adds.cause (h : v.Adds e new) (hr : r ∈ new) :
    Environment.Cause v.env (v.env.after e) r.entry := by
  rcases h.reason with rfl | ⟨x, rfl, -, hcause⟩
  · cases hr
  · obtain rfl := List.mem_singleton.1 hr
    exact hcause

/-- Only of transactions of the environment something is logged. -/
theorem Adds.known (hadds : v.Adds e new) (hnumbered : v.env.Numbered ⟨0⟩)
    (hchecked : v.env.Checked) (hr : r ∈ new) (htxn : r.entry.txn? = some txn) :
    (v.env.txns.get? txn).isSome = true ∧ txn.toNat < v.env.nextTxn.toNat := by
  have hget := Environment.get?_of_isActive ((hadds.cause hr).isActive hchecked htxn)
  have hlt := hnumbered.lt txn _ hget
  rw [TxnId.since_zero, TxnId.since_zero] at hlt
  exact ⟨by rw [hget]; rfl, hlt⟩

/-- Work is signed with the beginning of its transaction. -/
theorem Adds.signs (hadds : v.Adds e new) (hnumbered : v.env.Numbered ⟨0⟩)
    (hchecked : v.env.Checked) (hr : r ∈ new) (hwork : r.entry.work? = some txn) :
    r.entry.txn?.bind (v.beganBy e).get? = v.began.get? txn := by
  have htxn := Entry.txn?_of_work? hwork
  have hknown := hadds.known hnumbered hchecked hr htxn
  rw [htxn, Option.bind_some, get?_beganBy hnumbered e hknown.1]

theorem Adds.filed (hadds : v.Adds e new) (h : v.Sound) :
    Signed.Filed (v.after e).signed (v.clock + 1) := by
  rcases hadds.reason with rfl | ⟨r, rfl, hlsn, hcause⟩
  · rw [hadds.signed, List.map_nil, List.append_nil]
    exact h.filed.mono (Nat.le_succ _)
  · have hr := List.mem_singleton_self r
    rw [hadds.signed]
    refine h.filed.append (hcause.allows h.checked h.unresolved h.written) hlsn
      (fun txn htxn => ?_) fun txn hwork => ?_
    · have := (hadds.known h.tracks.numbered h.checked hr htxn).2
      have := h.next
      omega
    · have hknown := hadds.known h.tracks.numbered h.checked hr (Entry.txn?_of_work? hwork)
      obtain ⟨n, hn, hsame⟩ := h.began txn hknown.1
      exact ⟨n, (hadds.signs h.tracks.numbered h.checked hr hwork).trans hn, hsame⟩

theorem Adds.unresolved (hadds : v.Adds e new) (h : v.Sound)
    (hactive : ((v.env.after e).txn txn).isActive = true)
    (hr : r ∈ Signed.records (v.after e).signed) : r.entry.resolved? ≠ some txn := by
  intro hresolved
  rw [hadds.records] at hr
  rcases List.mem_append.1 hr with hr | hr
  · rcases Environment.active_before h.tracks.numbered hactive with hbefore | rfl
    · exact h.unresolved txn hbefore r hr hresolved
    · obtain ⟨p, hp, rfl⟩ := List.mem_map.1 hr
      exact Nat.lt_irrefl _ (h.ids p hp _ (Entry.txn?_of_resolved? hresolved))
  · exact ((hadds.cause hr).resolves hresolved).2 (Environment.mayCommit_of_isActive hactive)

/-- A transaction that has just begun finds no work under its id, and an old one only its own. -/
theorem Adds.own (hadds : v.Adds e new) (hnumbered : v.env.Numbered ⟨0⟩)
    (hchecked : v.env.Checked)
    (hids : ∀ p ∈ v.signed, p.record.entry.txn? = some txn → txn.toNat < v.env.nextTxn.toNat)
    (hbegan : (v.env.txns.get? txn).isSome = true → ∃ n, v.began.get? txn = some n ∧
      ∀ p ∈ v.signed, p.record.entry.work? = some txn → p.began = some n)
    (hsome : ((v.env.after e).txns.get? txn).isSome = true) :
    ∃ n, (v.beganBy e).get? txn = some n ∧
      ∀ p ∈ (v.after e).signed, p.record.entry.work? = some txn → p.began = some n := by
  rcases beganBy_cases hnumbered hsome with ⟨hbefore, hsame⟩ | ⟨rfl, hnow⟩
  · obtain ⟨n, hn, hwork⟩ := hbegan hbefore
    refine ⟨n, hsame.trans hn, fun p hp hp' => ?_⟩
    rcases hadds.mem hp with hp | ⟨hr, hsign⟩
    · exact hwork p hp hp'
    · exact hsign.trans ((hadds.signs hnumbered hchecked hr hp').trans hn)
  · refine ⟨v.clock, hnow, fun p hp hp' => ?_⟩
    have htxn := Entry.txn?_of_work? hp'
    rcases hadds.mem hp with hp | ⟨hr, -⟩
    · exact absurd (hids p hp htxn) (Nat.lt_irrefl _)
    · exact absurd (hadds.known hnumbered hchecked hr htxn).2 (Nat.lt_irrefl _)

end Adds

theorem Sound.after (h : v.Sound) (hroom : 2 * (v.clock + 1) < UInt64.size) {e : Event}
    (he : e.Orderly v.env) : (v.after e).Sound := by
  have hnumbered := h.tracks.numbered
  have hlength := h.filed.length_le h.tracks.holds.follow
  have hdense := h.filed.dense
  have hnext := h.next
  obtain ⟨new, hadds⟩ := h.exists_adds hroom e
  have hnext' := Environment.since_nextTxn_after hnumbered
    (by rw [TxnId.since_zero]; omega) e
  rw [TxnId.since_zero, TxnId.since_zero] at hnext'
  refine ⟨hadds.records ▸ hadds.tracks, h.single.after hnumbered.named he,
    h.checked.after hnumbered h.single he, hadds.filed h, fun p hp txn htxn => ?_,
    Nat.le_trans hnext'.2 (Nat.succ_le_succ hnext),
    fun txn hactive r hr => hadds.unresolved h hactive hr, fun txn hwrites => ?_,
    fun txn hsome => hadds.own h.tracks.numbered h.checked (fun p hp => h.ids p hp txn)
      (h.began txn) hsome⟩
  · rcases hadds.mem hp with hp | ⟨hr, -⟩
    · exact Nat.lt_of_lt_of_le (h.ids p hp txn htxn) hnext'.1
    · exact Nat.lt_of_lt_of_le (hadds.known h.tracks.numbered h.checked hr htxn).2 hnext'.1
  · rcases Environment.written_after hnumbered.named h.tracks.holds h.tracks.lastLsn (by omega)
      hadds.tracks.holds hwrites with hbefore | hwork
    · obtain ⟨r, hr, hwork⟩ := h.written txn hbefore
      exact ⟨r, hadds.records ▸ List.mem_append_left _ hr, hwork⟩
    · rwa [hadds.records]

theorem Sound.run (h : v.Sound) {events : List Event} (horderly : v.env.Orderly events)
    (hroom : 2 * (v.clock + events.length) < UInt64.size) : (v.run events).Sound := by
  induction events generalizing v with
  | nil => exact h
  | cons e events ih =>
    rw [List.length_cons] at hroom
    refine ih (h.after (by omega) horderly.1) horderly.2 ?_
    rw [show (v.after e).clock = v.clock + 1 from rfl]
    omega

end Visit

/-! ## Histories -/

/-- So many bytes are left of the store. -/
def Store.cut (s : Store) (size : Nat) : Store := { s with bytes := s.bytes.take size }

/-- From now on these calls of the store fail. -/
def Store.under (s : Store) (plan : FaultPlan) : Store := { s with plan }

theorem Store.toList_cut (s : Store) (size : Nat) : (s.cut size).toList = s.toList.take size := by
  simp [cut, toList]

/-- A store with signed records that nobody has open. -/
structure Archive where
  store : Store
  signed : List Signed
  clock : Nat

/-- What happens to a store. -/
inductive Episode where
  /-- So many bytes are left of it. -/
  | cut (size : Nat)
  /-- An environment opens over it under a plan, goes through the events, and is gone. -/
  | visit (config : Config) (plan : FaultPlan) (now : Instant) (events : List Environment.Event)

namespace Archive

open Environment (openOn)

def blank : Archive := ⟨.empty, [], 0⟩

/-- The store is another now, and nothing that is new in it is work. -/
def keep (a : Archive) (store : Store) : Archive :=
  { a with store, signed := Signed.revise a.signed store fun _ => none }

/-- An environment that has just opened over the store. -/
def visit (a : Archive) (env : Environment) : Visit :=
  ⟨env, ∅, Signed.revise a.signed env.log.store fun _ => none, a.clock⟩

def after (a : Archive) : Episode → Archive
  | .cut size => a.keep (a.store.cut size)
  | .visit config plan now events =>
    match openOn config (a.store.under plan) now with
    | .error (_, store) => a.keep store
    | .ok env =>
      let v := (a.visit env).run events
      ⟨(env.run events).log.store, v.signed, v.clock⟩

def run (a : Archive) (episodes : List Episode) : Archive := episodes.foldl after a

end Archive

/-- In the episode every transaction is in one hand at a time. -/
def Episode.Orderly (a : Archive) : Episode → Prop
  | .cut _ => True
  | .visit config plan now events =>
    ∀ env, Environment.openOn config (a.store.under plan) now = .ok env → env.Orderly events

/-- The events of an environment in the episode. -/
def Episode.events : Episode → List Environment.Event
  | .cut _ => []
  | .visit _ _ _ events => events

namespace Archive

open Environment (openOn)

def Orderly (a : Archive) : List Episode → Prop
  | [] => True
  | e :: episodes => e.Orderly a ∧ Orderly (a.after e) episodes

structure Sound (a : Archive) : Prop where
  holds : (Site.closed a.store).Holds (Signed.records a.signed)
  filed : Signed.Filed a.signed a.clock

variable {a : Archive}

theorem sound_blank : blank.Sound :=
  ⟨⟨trivial, [], [], rfl, .nil, rfl⟩, Signed.filed_nil⟩

theorem sound_keep {store : Store} {signed : List Signed}
    (hholds : (Site.closed store).Holds (Signed.records signed))
    (hsigned : Signed.revise a.signed store (fun _ => none) = signed)
    (hfiled : Signed.Filed signed a.clock) : (a.keep store).Sound := by
  subst hsigned
  exact ⟨hholds, hfiled⟩

/-- What a cut leaves of the signed records. -/
theorem exists_cut (hholds : (Site.closed a.store).Holds (Signed.records a.signed)) (size : Nat) :
    ∃ n, Signed.revise a.signed (a.store.cut size) (fun _ => none) = a.signed.take n ∧
      (Site.closed (a.store.cut size)).Holds (Signed.records (a.signed.take n)) := by
  obtain ⟨frames, torn, hframes, htorn, hbytes⟩ := hholds.bytes
  obtain ⟨kept, rest, hkept, hrest, htake⟩ := Frame.take_ofRecords hframes htorn size
  have hwhole := Frame.prefix_wholeIn size (Signed.records a.signed)
  have hcut : (Site.closed (a.store.cut size)).Holds
      (Frame.wholeIn size (Signed.records a.signed)) := by
    refine ⟨hholds.follow.shorten hwhole, kept, rest, hkept, hrest, ?_⟩
    rw [Store.toList_cut, show a.store.toList = frames ++ torn from hbytes, htake]
  have htaken : Frame.wholeIn size (Signed.records a.signed) = Signed.records
      (a.signed.take (Frame.wholeIn size (Signed.records a.signed)).length) := by
    conv_lhs => rw [List.prefix_iff_eq_take.1 hwhole]
    exact List.map_take.symm
  rw [htaken] at hcut
  exact ⟨_, Signed.revise_of_take hcut.records, hcut⟩

theorem Sound.cut (h : a.Sound) (size : Nat) : (a.keep (a.store.cut size)).Sound := by
  obtain ⟨n, hsigned, hholds⟩ := exists_cut h.holds size
  exact sound_keep hholds hsigned (h.filed.take h.holds.follow n)

/-- An opening, and what it leaves if it fails. -/
theorem Sound.opened (h : a.Sound) (hroom : 2 * a.clock < UInt64.size) (config : Config)
    (plan : FaultPlan) (now : Instant) :
    (∀ e store, openOn config (a.store.under plan) now = .error (e, store) →
      (a.keep store).Sound) ∧
    ∀ env, openOn config (a.store.under plan) now = .ok env →
      (a.visit env).Sound ∧ env.counters.unknownResolutions = 0 := by
  have hholds : (Site.closed (a.store.under plan)).Holds (Signed.records a.signed) := h.holds
  obtain ⟨rs', hresumes, hleft, hopened⟩ := Environment.openOn_resumes config now hholds
    h.filed.wellFormed h.filed.dense (by have := h.filed.count; omega)
  obtain ⟨aborts, rfl, hfiled⟩ := h.filed.resume hresumes
  have hrecords : Signed.records (a.signed ++ aborts.map fun r => ⟨r, none⟩) =
      Signed.records a.signed ++ aborts := by
    rw [Signed.records_append, Signed.records_sign aborts fun _ => none]
  refine ⟨fun e store herror => ?_, fun env hok => ?_⟩
  · rw [herror] at hleft
    have hleft : (Site.closed store).Holds (Signed.records a.signed ++ aborts) := hleft
    exact sound_keep (hrecords ▸ hleft) (Signed.revise_of_append hleft.records) hfiled
  · obtain ⟨hunknown, s, hstate, hnext⟩ := hopened env hok
    refine ⟨?_, hunknown⟩
    rw [hok] at hleft
    have hleft : env.log.Holds (Signed.records a.signed ++ aborts) := hleft
    obtain ⟨rs, henv⟩ := Environment.openOn_ok hok
    obtain rfl := henv.holds.unique hleft
    have htxn (txn : TxnId) : env.txn txn = .unknown txn :=
      Environment.txn_eq_of_get?_none (by rw [henv.txns]; rfl)
    have hsize : UInt64.size = 2 ^ 64 := rfl
    obtain ⟨hids, hle⟩ := Recovery.nextTxn_spec hstate (n := a.clock) (by omega)
      fun r hr txn htxn => by
        obtain ⟨p, hp, rfl⟩ := List.mem_map.1 hr
        exact h.filed.ids p hp txn htxn
    rw [← hnext] at hids hle
    rw [visit, Signed.revise_of_append hleft.records_scan]
    refine ⟨hrecords ▸ henv.tracks_from ⟨0⟩, fun id id' call call' txn hcall => ?_,
      fun id call txn hcall => ?_, hfiled, fun p hp txn htxn => ?_, hle, fun txn hactive => ?_,
      fun txn hwrites => ?_, fun txn hsome => ?_⟩
    · rw [henv.calls] at hcall
      cases hcall
    · rw [henv.calls] at hcall
      cases hcall
    · obtain ⟨w, hw, htxn⟩ :=
        hresumes.exists_txn (hrecords ▸ List.mem_map_of_mem (f := (·.record)) hp) htxn
      exact hids w hw txn htxn
    · rw [htxn] at hactive
      cases hactive
    · rw [htxn] at hwrites
      cases hwrites
    · rw [henv.txns] at hsome
      cases hsome

theorem Sound.after (h : a.Sound) {e : Episode} (he : e.Orderly a)
    (hroom : 2 * (a.clock + e.events.length) < UInt64.size) :
    (a.after e).Sound ∧ (a.after e).clock ≤ a.clock + e.events.length := by
  cases e with
  | cut size => exact ⟨h.cut size, Nat.le_refl _⟩
  | visit config plan now events =>
    rw [Episode.events] at hroom
    obtain ⟨hfailed, hopened⟩ := h.opened (by omega) config plan now
    rw [Archive.after]
    cases hopen : openOn config (a.store.under plan) now with
    | error failure => exact ⟨hfailed _ _ hopen, Nat.le_add_right ..⟩
    | ok env =>
      have hvisit := (hopened env hopen).1.run (he env hopen) hroom
      have hholds := hvisit.tracks.holds
      rw [Visit.env_run] at hholds
      exact ⟨⟨hholds.closed, hvisit.filed⟩, Nat.le_of_eq (Visit.clock_run _ events)⟩

theorem Sound.run (h : a.Sound) {episodes : List Episode} (horderly : a.Orderly episodes)
    (hroom : 2 * (a.clock + (episodes.flatMap (·.events)).length) < UInt64.size) :
    (a.run episodes).Sound ∧
      (a.run episodes).clock ≤ a.clock + (episodes.flatMap (·.events)).length := by
  induction episodes generalizing a with
  | nil => exact ⟨h, Nat.le_add_right ..⟩
  | cons e episodes ih =>
    rw [List.flatMap_cons, List.length_append] at hroom ⊢
    obtain ⟨hsound, hclock⟩ := h.after horderly.1 (by omega)
    obtain ⟨hend, hclock'⟩ := ih hsound horderly.2 (by omega)
    exact ⟨hend, by rw [show a.run (e :: episodes) = (a.after e).run episodes from rfl]; omega⟩

/-- **Well-formed logs.** Whatever has happened to a store that was empty at first, its log is well
formed, all work under an id is of the transaction that began at some one moment, and an environment
that opens over it, under any plan, finds no resolution without work. -/
theorem wellFormed_run {episodes : List Episode} (horderly : blank.Orderly episodes)
    (hroom : 2 * (episodes.flatMap (·.events)).length < UInt64.size) :
    Signed.records (blank.run episodes).signed =
        (Scan.ofBytes (blank.run episodes).store.toList).records ∧
      WellFormed (Scan.ofBytes (blank.run episodes).store.toList).records ∧
      (∀ txn, ∃ n, ∀ p ∈ (blank.run episodes).signed, p.record.entry.work? = some txn →
        p.began = some n) ∧
      ∀ config plan now env, openOn config ((blank.run episodes).store.under plan) now = .ok env →
        env.counters.unknownResolutions = 0 := by
  have hclock₀ : blank.clock = 0 := rfl
  obtain ⟨hsound, hclock⟩ := sound_blank.run horderly (by omega)
  have hrecords : (Scan.ofBytes (blank.run episodes).store.toList).records =
      Signed.records (blank.run episodes).signed := hsound.holds.records
  refine ⟨hrecords.symm, hrecords ▸ hsound.filed.wellFormed, hsound.filed.began,
    fun config plan now env hopen => ?_⟩
  exact ((hsound.opened (by omega) config plan now).2 env hopen).2

/-- Two transactions write, the first commits, and the abort of the second cannot be logged. -/
def failing : List Environment.Event :=
  [.begin .standard, .begin .standard, .start 0 (.put ⟨1⟩ [1] [2]), .step 0, .step 0, .step 0,
    .start 1 (.put ⟨2⟩ [3] [4]), .step 1, .step 1, .step 1, .start 2 (.commit ⟨1⟩), .step 2,
    .step 2, .step 2, .plan ⟨some 150, false, true⟩, .start 3 (.abort ⟨2⟩), .step 3, .step 3,
    .step 3]

/-- The commit is lost, and an environment opens and is gone before another opens. -/
def failures : List Episode :=
  [.visit .standard .none 0 failing, .cut 120, .visit .standard .none 1 [.begin .standard],
    .visit .standard ⟨some 0, true, true⟩ 2 []]

theorem wellFormed_run_failures :
    blank.Orderly failures ∧ 2 * (failures.flatMap (·.events)).length < UInt64.size ∧
      (((Environment.blank.run failing).txn ⟨2⟩).isActive = false ∧
        (Environment.blank.run failing).log.poisoned = true ∧
        (Environment.blank.run failing).log.size = 150) ∧
      WellFormed (Scan.ofBytes (blank.run failures).store.toList).records ∧
      ∀ config plan now env, openOn config ((blank.run failures).store.under plan) now = .ok env →
        env.counters.unknownResolutions = 0 := by
  have horderly : blank.Orderly failures := by
    refine ⟨fun env hopen => ?_, trivial, fun env _ => ⟨trivial, trivial⟩, fun env _ => trivial,
      trivial⟩
    have hempty : openOn .standard (blank.store.under .none) 0 = .ok Environment.blank :=
      Environment.openOn_empty
    rw [hempty] at hopen
    cases hopen
    decide +kernel
  have hroom : 2 * (failures.flatMap (·.events)).length < UInt64.size := by decide
  obtain ⟨-, hwell, -, hknown⟩ := wellFormed_run horderly hroom
  refine ⟨horderly, hroom, by decide +kernel, hwell, hknown⟩

end Archive

end WalStore
