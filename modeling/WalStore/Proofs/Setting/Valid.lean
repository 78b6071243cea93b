import WalStore.Proofs.Environment.Open
import WalStore.Proofs.Log.Errors
import WalStore.Proofs.Setting.Spelling

/-!
# Settings stay valid

**Theorem (`valid_run`).** Whatever is set by name, by whatever texts, a configuration that is valid
stays so, and no environment is refused because of its settings. A call that fails changes nothing,
and one that succeeds changes one setting at most, the one it names.

**Why the two checks agree.** A configuration is valid if each setting holds what it may
(`validate_eq_ok_iff`), and this is asked of one setting at a time (`Parameter.Allows`). What is
read from a text is allowed for the setting it is read for (`allows_of_read?`), and the other
settings stay as they are.
-/

namespace WalStore

namespace Setting.Parameter

/-! ## Names and contents -/

def name : Parameter → String
  | lockTimeout => "stow.lock.timeout"
  | txnTimeout => "stow.txn.timeout"
  | syncOnCommit => "stow.log.sync_on_commit"
  | deadlockDetection => "stow.lock.deadlock_detection"
  | threshold => "stow.tracker.concurrency_threshold"
  | slow => "stow.tracker.min_duration"
  | maxDumps => "stow.tracker.max_dumps"
  | capacity => "stow.tracker.sample_capacity"

theorem ofName?_eq_some_iff {s : String} {p : Parameter} : ofName? s = some p ↔ s = p.name := by
  constructor
  · intro h
    unfold ofName? at h
    split_ifs at h <;> cases h <;> assumption
  · rintro rfl
    cases p <;> rfl

/-- What a setting holds. -/
abbrev Content : Parameter → Type
  | lockTimeout | txnTimeout => Option Duration
  | syncOnCommit | deadlockDetection => Bool
  | slow => Duration
  | threshold | maxDumps | capacity => Nat

/-- What a setting may hold. -/
def Allows : (p : Parameter) → p.Content → Prop
  | lockTimeout, limit | txnTimeout, limit => ∀ d ∈ limit, d ≤ 75 * Duration.minute
  | threshold, n | capacity, n => 1 ≤ n
  | syncOnCommit, _ | deadlockDetection, _ | slow, _ | maxDumps, _ => True

/-- What a text says for a setting. -/
def read? (value : String) : (p : Parameter) → Except SettingFault p.Content
  | lockTimeout | txnTimeout => timeout? value
  | syncOnCommit | deadlockDetection => bool? value
  | slow => duration? value
  | maxDumps => count? value
  | threshold | capacity => positive? value

theorem allows_of_read? {value : String} {p : Parameter} {x : p.Content}
    (h : p.read? value = .ok x) : p.Allows x := by
  have htimeout {limit : Option Duration} (h : timeout? value = .ok limit) :
      ∀ d ∈ limit, d ≤ 75 * Duration.minute := by
    obtain ⟨d, -, hle, rfl⟩ := timeout?_eq_ok_iff.1 h
    intro d' hd'
    split_ifs at hd' <;> cases hd'
    exact hle
  have hpositive {n : Nat} (h : positive? value = .ok n) : 1 ≤ n := by
    unfold positive? at h
    obtain ⟨n', -, h⟩ := Except.exists_of_bind_eq_ok h
    split_ifs at h with hzero
    cases h
    exact Nat.one_le_iff_ne_zero.2 hzero
  cases p with
  | lockTimeout | txnTimeout => exact htimeout h
  | threshold | capacity => exact hpositive h
  | syncOnCommit | deadlockDetection | slow | maxDumps => trivial

end Setting.Parameter

open Setting (Parameter checkTimeout)

namespace Config

variable {c c' : Config} {p q : Parameter} {value : String}

/-- What a setting holds in a configuration. -/
def content (c : Config) : (p : Parameter) → p.Content
  | .lockTimeout => c.lockTimeout
  | .txnTimeout => c.txnTimeout
  | .syncOnCommit => c.syncOnCommit
  | .deadlockDetection => c.deadlockDetection
  | .threshold => c.tracker.threshold
  | .slow => c.tracker.slow
  | .maxDumps => c.tracker.maxDumps
  | .capacity => c.tracker.capacity

/-- Gives one setting what it is to hold. -/
def put (c : Config) : (p : Parameter) → p.Content → Config
  | .lockTimeout, limit => { c with lockTimeout := limit }
  | .txnTimeout, limit => { c with txnTimeout := limit }
  | .syncOnCommit, on => { c with syncOnCommit := on }
  | .deadlockDetection, on => { c with deadlockDetection := on }
  | .threshold, n => { c with tracker.threshold := n }
  | .slow, d => { c with tracker.slow := d }
  | .maxDumps, n => { c with tracker.maxDumps := n }
  | .capacity, n => { c with tracker.capacity := n }

theorem content_put (c : Config) (p : Parameter) (x : p.Content) : (c.put p x).content p = x := by
  cases p <;> rfl

theorem content_put_of_ne (c : Config) (x : p.Content) (h : q ≠ p) :
    (c.put p x).content q = c.content q := by
  cases p <;> cases q <;> first | rfl | exact absurd rfl h

theorem assign_eq (c : Config) (value : String) (p : Parameter) :
    c.assign value p = (p.read? value).map (c.put p) := by
  cases p <;> rfl

/-! ## Checking -/

theorem checkTimeout_eq_ok_iff {limit : Option Duration} :
    checkTimeout limit = .ok () ↔ ∀ d ∈ limit, d ≤ 75 * Duration.minute := by
  cases limit with
  | none => simp [checkTimeout]
  | some d =>
    rw [checkTimeout, Setting.maxTimeout]
    split_ifs with hlong
    · exact iff_of_false (by simp) fun h => not_le.2 hlong (h d rfl)
    · exact iff_of_true rfl fun d' hd' => Option.some.inj hd' ▸ not_lt.1 hlong

/-- **A configuration is valid if each setting holds what it may.** -/
theorem validate_eq_ok_iff : c.validate = .ok () ↔ ∀ p : Parameter, p.Allows (c.content p) := by
  have hparts : c.validate = .ok () ↔ checkTimeout c.lockTimeout = .ok () ∧
      checkTimeout c.txnTimeout = .ok () ∧ c.tracker.validate = .ok () := by
    unfold validate checkTimeouts
    cases checkTimeout c.lockTimeout <;> cases checkTimeout c.txnTimeout <;>
      simp [Except.mapError, bind, Except.bind]
  have htracker :
      c.tracker.validate = .ok () ↔ 1 ≤ c.tracker.threshold ∧ 1 ≤ c.tracker.capacity := by
    unfold Latency.Settings.validate
    split_ifs <;> simp <;> omega
  rw [hparts, htracker, checkTimeout_eq_ok_iff, checkTimeout_eq_ok_iff]
  constructor
  · rintro ⟨hlock, htxn, hthreshold, hcapacity⟩ p
    cases p with
    | lockTimeout => exact hlock
    | txnTimeout => exact htxn
    | threshold => exact hthreshold
    | capacity => exact hcapacity
    | syncOnCommit | deadlockDetection | slow | maxDumps => trivial
  · exact fun h => ⟨h .lockTimeout, h .txnTimeout, h .threshold, h .capacity⟩

theorem validate_put {x : p.Content} (hvalid : c.validate = .ok ()) (hx : p.Allows x) :
    (c.put p x).validate = .ok () := by
  rw [validate_eq_ok_iff] at hvalid ⊢
  intro q
  by_cases h : q = p
  · subst h
    rwa [content_put]
  · rw [content_put_of_ne c x h]
    exact hvalid q

/-! ## Calls -/

/-- A call fails and changes nothing, or gives the setting it names what its text says. -/
theorem call_cases (c : Config) (name value : String) :
    (∃ fault, c.call name value = (c, .error (.invalidSetting name fault))) ∨
      ∃ (p : Parameter) (x : p.Content), name = p.name ∧ p.read? value = .ok x ∧
        c.call name value = (c.put p x, .ok ()) := by
  unfold call set
  cases hname : Parameter.ofName? name with
  | none => exact .inl ⟨_, rfl⟩
  | some p =>
    dsimp only
    rw [assign_eq]
    cases hread : p.read? value with
    | error fault => exact .inl ⟨fault, rfl⟩
    | ok x => exact .inr ⟨p, x, Parameter.ofName?_eq_some_iff.1 hname, hread, rfl⟩

/-- The configuration after calls with names and texts. -/
def run (c : Config) (calls : List (String × String)) : Config :=
  calls.foldl (fun c settings => (c.call settings.1 settings.2).1) c

theorem validate_call (hvalid : c.validate = .ok ()) (name value : String) :
    (c.call name value).1.validate = .ok () := by
  rcases c.call_cases name value with ⟨fault, h⟩ | ⟨p, x, -, hread, h⟩
  · rw [h]
    exact hvalid
  · rw [h]
    exact validate_put hvalid (Parameter.allows_of_read? hread)

theorem validate_run (hvalid : c.validate = .ok ()) (calls : List (String × String)) :
    (c.run calls).validate = .ok () := by
  induction calls generalizing c with
  | nil => exact hvalid
  | cons call calls ih => exact ih (validate_call hvalid call.1 call.2)

end Config

/-! ## Opening -/

namespace Environment

variable {config : Config} {store left : Store} {now : Instant} {e : Error}

theorem isOfLog_of_abortEach {log : Log} {state : Replay.State} {txns : List TxnId}
    (h : abortEach log state txns = .error (e, left)) : e.isOfLog = true := by
  induction txns generalizing log state with
  | nil => cases h
  | cons txn txns ih =>
    unfold abortEach at h
    split at h
    · next happend =>
      cases h
      exact Log.isOfLog_of_append happend
    · split at h
      · next happly =>
        cases h
        exact Replay.State.isOfLog_of_apply happly
      · exact ih h

theorem isOfLog_of_syncAborts {log : Log} {txns : List TxnId}
    (h : syncAborts log txns = .error (e, left)) : e.isOfLog = true := by
  unfold syncAborts at h
  split at h
  · cases h
  · split at h
    · cases h
    · next hsync =>
      cases h
      exact Log.isOfLog_of_sync (f := id) (by rw [hsync]; rfl)

/-- What keeps an environment with valid settings from opening is its log. -/
theorem isOfLog_of_openOn (hvalid : config.validate = .ok ())
    (h : openOn config store now = .error (e, left)) : e.isOfLog = true := by
  unfold openOn at h
  rw [hvalid] at h
  cases hlog : Log.openOn store with
  | error failure =>
    rw [hlog] at h
    cases h
    exact Log.isOfLog_of_openOn hlog
  | ok log =>
    obtain ⟨rs, -, hholds, -⟩ := Log.all_of_openOn hlog
    obtain ⟨s, hstate, -⟩ := Replay.exists_state_of_follow hholds.follow
    simp only [hlog, recover_of_state hholds hstate, Except.mapError, bind, Except.bind] at h
    split at h
    · next habort =>
      cases h
      exact isOfLog_of_abortEach habort
    · split at h
      · next hsync =>
        cases h
        exact isOfLog_of_syncAborts hsync
      · cases h

end Environment

namespace Config

/-- **Settings stay valid.** A valid configuration is valid after any calls that set settings by
name. The next one either fails, for what is said for the setting it names, and changes nothing, or
it gives a setting what its text says, and no other setting changes. No environment is refused for
the settings. -/
theorem valid_run {c : Config} (hvalid : c.validate = .ok ()) (calls : List (String × String))
    (name value : String) :
    (c.run calls).validate = .ok () ∧
    (∀ c' e, (c.run calls).call name value = (c', .error e) →
      c' = c.run calls ∧ ∃ fault, e = .invalidSetting name fault) ∧
    (∀ c', (c.run calls).call name value = (c', .ok ()) →
      ∃ (p : Parameter) (x : p.Content), name = p.name ∧ p.read? value = .ok x ∧
        c' = (c.run calls).put p x ∧
        ∀ q, q ≠ p → c'.content q = (c.run calls).content q) ∧
    ∀ store now e left, Environment.openOn (c.run calls) store now = .error (e, left) →
      e.name ≠ "InvalidConfiguration" := by
  have hrun := validate_run hvalid calls
  generalize c.run calls = c₁ at hrun
  refine ⟨hrun, fun c' e hcall => ?_, fun c' hcall => ?_, fun store now e left hopen => ?_⟩
  · rcases c₁.call_cases name value with ⟨fault, h⟩ | ⟨p, x, -, -, h⟩
    · rw [h] at hcall
      cases hcall
      exact ⟨rfl, fault, rfl⟩
    · rw [h] at hcall
      cases hcall
  · rcases c₁.call_cases name value with ⟨fault, h⟩ | ⟨p, x, hname, hread, h⟩
    · rw [h] at hcall
      cases hcall
    · rw [h] at hcall
      cases hcall
      exact ⟨p, x, hname, hread, rfl, fun q hq => content_put_of_ne c₁ x hq⟩
  · exact Error.name_ne_of_isOfLog (Environment.isOfLog_of_openOn hrun hopen)

/-- Limits that are just allowed and limits that are not, zeros where they are and are not allowed,
and a name that no setting has. -/
def attempts : List (String × String) :=
  [("stow.lock.timeout", "75 min"), ("stow.lock.timeout", "76min"), ("stow.txn.timeout", "0 s"),
    ("stow.tracker.sample_capacity", "+1"), ("stow.tracker.sample_capacity", "0"),
    ("stow.tracker.window", "1")]

theorem valid_run_attempts :
    standard.run attempts =
      { standard with lockTimeout := some (75 * Duration.minute), tracker.capacity := 1 } ∧
    (standard.run attempts).validate = .ok () ∧
    (standard.run attempts).call "stow.tracker.concurrency_threshold" "0" = (standard.run attempts,
      .error (.invalidSetting "stow.tracker.concurrency_threshold" .notPositive)) ∧
    ∀ now e left, Environment.openOn (standard.run attempts) (.ofBytes [1, 2, 3]) now =
      .error (e, left) → e.name ≠ "InvalidConfiguration" := by
  have hfails : ((standard.run attempts).call "stow.tracker.concurrency_threshold" "0").2 =
      .error (.invalidSetting "stow.tracker.concurrency_threshold" .notPositive) := by
    decide +kernel
  have hreaches : standard.run attempts =
      { standard with lockTimeout := some (75 * Duration.minute), tracker.capacity := 1 } := by
    decide +kernel
  obtain ⟨hvalid, hfailed, -, hopen⟩ :=
    valid_run (c := standard) rfl attempts "stow.tracker.concurrency_threshold" "0"
  rcases hcall : (standard.run attempts).call "stow.tracker.concurrency_threshold" "0" with
    ⟨c', answer⟩
  rw [hcall] at hfails
  obtain rfl : answer = _ := hfails
  obtain ⟨rfl, -⟩ := hfailed c' _ hcall
  exact ⟨hreaches, hvalid, rfl, fun _ _ _ => hopen _ _ _ _⟩

end Config
end WalStore
