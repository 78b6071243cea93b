import Mathlib.Data.List.DropRight
import Mathlib.Data.Nat.Digits.Defs
import WalStore.Config
import WalStore.Proofs.Text.Decimal

/-!
# How durations are spelled

**The grammar** (`Spelling`). Blanks, one or more digits, blanks, the name of a unit - which may be
empty - and blanks. The number is the one the digits are the decimal expansion of.

**Theorem (`duration?_eq_ok_iff`).** The durations that are read are the spelled ones in range.

The reader trims twice and never looks for the blanks between the digits and the unit. That it finds
the parts of a spelling rests on two facts about its boundaries: digits are not blank, so the outer
trim stops at them, and no unit begins with a digit or contains a blank, so the digits end where the
reader stops and the inner trim leaves the name.
-/

namespace WalStore

/-! ## Trimming -/

namespace Text

variable {cs before after word : List Char}

def AllBlank (cs : List Char) : Prop := ∀ c ∈ cs, isBlank c = true

def NoBlank (cs : List Char) : Prop := ∀ c ∈ cs, isBlank c = false

theorem AllBlank.append {ds : List Char} (hc : AllBlank cs) (hd : AllBlank ds) :
    AllBlank (cs ++ ds) :=
  fun _ h => (List.mem_append.1 h).elim (hc _) (hd _)

theorem trim_eq_rdropWhile (cs : List Char) :
    trim cs = (cs.dropWhile isBlank).rdropWhile isBlank := rfl

/-- Only blanks are trimmed. -/
theorem exists_append_trim (cs : List Char) :
    ∃ before after, AllBlank before ∧ AllBlank after ∧ cs = before ++ (trim cs ++ after) := by
  refine ⟨cs.takeWhile isBlank, (cs.dropWhile isBlank).rtakeWhile isBlank,
    fun _ => List.mem_takeWhile_imp, fun _ => List.mem_rtakeWhile_imp, ?_⟩
  rw [trim_eq_rdropWhile, List.rdropWhile_append_rtakeWhile, List.takeWhile_append_dropWhile]

theorem rdropWhile_append_blank (h : AllBlank after) :
    (cs ++ after).rdropWhile isBlank = cs.rdropWhile isBlank := by
  rw [List.rdropWhile, List.reverse_append,
    List.dropWhile_append_of_pos fun c hc => h c (List.mem_reverse.1 hc), List.rdropWhile]

theorem trim_blank_append (h : AllBlank before) : trim (before ++ cs) = trim cs := by
  rw [trim_eq_rdropWhile, List.dropWhile_append_of_pos h, trim_eq_rdropWhile]

theorem trim_append_blank (h : AllBlank after) : trim (cs ++ after) = trim cs := by
  have hnil : after.dropWhile isBlank = [] := List.dropWhile_eq_nil_iff.2 h
  rw [trim_eq_rdropWhile, trim_eq_rdropWhile, List.dropWhile_append]
  split
  · next he => rw [hnil, List.isEmpty_iff.1 he]
  · rw [rdropWhile_append_blank h]

theorem trim_rdropWhile (cs : List Char) : trim (cs.rdropWhile isBlank) = trim cs := by
  conv_rhs => rw [← List.rdropWhile_append_rtakeWhile (l := cs) (p := isBlank)]
  exact (trim_append_blank fun _ => List.mem_rtakeWhile_imp).symm

theorem dropWhile_word (hw : NoBlank word) : word.dropWhile isBlank = word := by
  cases word with
  | nil => rfl
  | cons c rest => exact List.dropWhile_cons_of_neg (by simp [hw c (List.mem_cons_self ..)])

/-- Behind a word that begins a text only the end is trimmed. -/
theorem trim_word_append (hne : word ≠ []) (hw : NoBlank word) :
    trim (word ++ cs) = word ++ cs.rdropWhile isBlank := by
  have hstart : (word ++ cs).dropWhile isBlank = word ++ cs := by
    rw [List.dropWhile_append, dropWhile_word hw, if_neg (by simpa using hne)]
  -- the trim from the other end meets the word last, and stops there as well
  have hrev : word.reverse.dropWhile isBlank = word.reverse :=
    dropWhile_word fun c hc => hw c (List.mem_reverse.1 hc)
  rw [trim_eq_rdropWhile, hstart, List.rdropWhile, List.reverse_append, List.dropWhile_append, hrev]
  split
  · next he => simp [List.rdropWhile, List.isEmpty_iff.1 he]
  · rw [List.reverse_append, List.reverse_reverse, List.rdropWhile]

theorem trim_word (hw : NoBlank word) : trim word = word := by
  rcases eq_or_ne word [] with rfl | hne
  · rfl
  · rw [← List.append_nil word, trim_word_append hne hw, List.rdropWhile_nil]

end Text

/-! ## Units -/

namespace Setting

open Text

/-- The units of time. Microseconds also go without a name. -/
inductive TimeUnit where
  | unnamed
  | nanoseconds
  | microseconds
  | milliseconds
  | seconds
  | minutes
  deriving DecidableEq

namespace TimeUnit

def name : TimeUnit → List Char
  | unnamed => []
  | nanoseconds => ['n', 's']
  | microseconds => ['u', 's']
  | milliseconds => ['m', 's']
  | seconds => ['s']
  | minutes => ['m', 'i', 'n']

/-- In nanoseconds. -/
def length : TimeUnit → Duration
  | unnamed => 1000
  | nanoseconds => 1
  | microseconds => 1000
  | milliseconds => 1000000
  | seconds => 1000000000
  | minutes => 60000000000

theorem noBlank_name (u : TimeUnit) : NoBlank u.name := by
  have hall : u.name.all (!isBlank ·) = true := by cases u <;> rfl
  intro c hc
  simpa using List.all_eq_true.1 hall c hc

/-- No unit begins with a digit. -/
theorem head?_name (u : TimeUnit) : ∀ c ∈ u.name.head?, c.isDigit = false := by
  cases u <;> simp [name]

theorem length_eq_minute_iff {u : TimeUnit} : u.length = Duration.minute ↔ u = minutes := by
  cases u <;> decide

end TimeUnit

theorem unit?_eq_some_iff {cs : List Char} {size : Duration} :
    unit? cs = some size ↔ ∃ u : TimeUnit, u.name = cs ∧ u.length = size := by
  constructor
  · intro h
    unfold unit? at h
    split at h
    · exact ⟨.unnamed, rfl, Option.some.inj h⟩
    · exact ⟨.nanoseconds, rfl, Option.some.inj h⟩
    · exact ⟨.microseconds, rfl, Option.some.inj h⟩
    · exact ⟨.milliseconds, rfl, Option.some.inj h⟩
    · exact ⟨.seconds, rfl, Option.some.inj h⟩
    · exact ⟨.minutes, rfl, Option.some.inj h⟩
    · cases h
  · rintro ⟨u, rfl, rfl⟩
    cases u <;> rfl

/-! ## Spellings -/

/-- A text taken apart as a number of units. -/
structure Spelling (value : String) (u : TimeUnit) where
  before : List Char
  digits : List Char
  between : List Char
  after : List Char
  text : value.toList = before ++ digits ++ between ++ u.name ++ after
  blank_before : AllBlank before
  digits_ne_nil : digits ≠ []
  isDigit : ∀ c ∈ digits, c.isDigit = true
  blank_between : AllBlank between
  blank_after : AllBlank after

namespace Spelling

variable {value : String} {u : TimeUnit}

/-- What the digits are the decimal expansion of. -/
def number (s : Spelling value u) : Nat := Nat.ofDigits 10 (s.digits.reverse.map digitValue)

/-- The number fits in 64 bits, and so does that of the seconds in minutes. -/
def InRange (s : Spelling value u) : Prop :=
  s.number < 2 ^ 64 ∧ (u = .minutes → 60 * s.number < 2 ^ 64)

def duration (s : Spelling value u) : Duration := s.number * u.length

end Spelling

theorem isBlank_of_isDigit {c : Char} (h : c.isDigit = true) : isBlank c = false := by
  simp only [Char.isDigit, Bool.and_eq_true, decide_eq_true_eq] at h
  have hlow : 48 ≤ c.toNat := UInt32.le_iff_toNat_le.1 h.1
  have hhigh : c.toNat ≤ 57 := UInt32.le_iff_toNat_le.1 h.2
  simp only [isBlank, inRanges, blankRanges, List.any_cons, List.any_nil, Bool.or_false,
    Bool.or_eq_false_iff, Bool.and_eq_false_iff, decide_eq_false_iff_not]
  omega

theorem decimal_eq_ofDigits (digits : List Char) :
    decimal digits = Nat.ofDigits 10 (digits.reverse.map digitValue) := by
  rw [decimal, List.foldl_eq_foldr_reverse, Nat.ofDigits_eq_foldr, List.foldr_map]
  congr 1
  funext c n
  simp [Nat.add_comm]

/-! ## Reading a spelling -/

namespace Spelling

variable {value : String} {u : TimeUnit}

theorem noBlank_digits (s : Spelling value u) : NoBlank s.digits :=
  fun c hc => isBlank_of_isDigit (s.isDigit c hc)

/-- What is behind the digits when the outer blanks are gone. -/
def rest (s : Spelling value u) : List Char := (s.between ++ u.name).rdropWhile isBlank

theorem trim_value (s : Spelling value u) : trim value.toList = s.digits ++ s.rest := by
  rw [s.text, trim_append_blank s.blank_after, List.append_assoc, List.append_assoc,
    trim_blank_append s.blank_before, trim_word_append s.digits_ne_nil s.noBlank_digits, rest]

theorem trim_rest (s : Spelling value u) : trim s.rest = u.name := by
  rw [rest, trim_rdropWhile, trim_blank_append s.blank_between, trim_word u.noBlank_name]

theorem stops_rest (s : Spelling value u) : Stops Char.isDigit s.rest := by
  intro c hc
  obtain ⟨cut, hcut⟩ : s.rest <+: s.between ++ u.name := List.rdropWhile_prefix ..
  have hfirst : (s.between ++ u.name).head? = some c := by
    rw [← hcut, List.head?_append, Option.mem_def.1 hc, Option.some_or]
  rw [List.head?_append, Option.or_eq_some_iff] at hfirst
  rcases hfirst with h | ⟨-, h⟩
  · have hblank : isBlank c = true := s.blank_between c (List.mem_of_head? h)
    by_contra hdigit
    simp [isBlank_of_isDigit (Bool.of_not_eq_false hdigit)] at hblank
  · exact u.head?_name c h

theorem takeWhile_trim (s : Spelling value u) :
    (trim value.toList).takeWhile Char.isDigit = s.digits := by
  rw [s.trim_value]
  exact takeWhile_run s.isDigit s.stops_rest

theorem dropWhile_trim (s : Spelling value u) :
    (trim value.toList).dropWhile Char.isDigit = s.rest := by
  rw [s.trim_value]
  exact dropWhile_run s.isDigit s.stops_rest

end Spelling

/-- A text with digits in front and the name of a unit behind them is a spelling. -/
theorem nonempty_spelling {value : String} {u : TimeUnit}
    (hdigits : (trim value.toList).takeWhile Char.isDigit ≠ [])
    (hunit : trim ((trim value.toList).dropWhile Char.isDigit) = u.name) :
    Nonempty (Spelling value u) := by
  obtain ⟨before, after, hbefore, hafter, htext⟩ := exists_append_trim value.toList
  obtain ⟨between, behind, hbetween, hbehind, hrest⟩ :=
    exists_append_trim ((trim value.toList).dropWhile Char.isDigit)
  refine ⟨⟨before, (trim value.toList).takeWhile Char.isDigit, between, behind ++ after, ?_,
    hbefore, hdigits, fun _ => List.mem_takeWhile_imp, hbetween, hbehind.append hafter⟩⟩
  calc value.toList = before ++ (trim value.toList ++ after) := htext
    _ = before ++ ((trim value.toList).takeWhile Char.isDigit ++
          (trim value.toList).dropWhile Char.isDigit ++ after) := by
        rw [List.takeWhile_append_dropWhile]
    _ = before ++ ((trim value.toList).takeWhile Char.isDigit ++
          (between ++ (u.name ++ behind)) ++ after) := by rw [← hunit, ← hrest]
    _ = _ := by simp only [List.append_assoc]

/-! ## Durations -/

/-- `value` spells a duration in range. -/
def Spells (value : String) (d : Duration) : Prop :=
  ∃ (u : TimeUnit) (s : Spelling value u), s.InRange ∧ d = s.duration

theorem Spelling.decimal_digits {value : String} {u : TimeUnit} (s : Spelling value u) :
    decimal ((trim value.toList).takeWhile Char.isDigit) = s.number := by
  rw [s.takeWhile_trim, decimal_eq_ofDigits, number]

/-- **The durations that are read are the spelled ones in range.** -/
theorem duration?_eq_ok_iff {value : String} {d : Duration} :
    duration? value = .ok d ↔ Spells value d := by
  constructor
  · intro h
    simp only [duration?] at h
    split_ifs at h with hempty hlimit
    cases hunit : unit? (trim ((trim value.toList).dropWhile Char.isDigit)) with
    | none => simp [hunit] at h
    | some size =>
      obtain ⟨u, hname, rfl⟩ := unit?_eq_some_iff.1 hunit
      obtain ⟨s⟩ := nonempty_spelling (by simpa using hempty) hname.symm
      simp only [hunit, s.decimal_digits] at h hlimit
      split_ifs at h with hminutes
      refine ⟨u, s, ⟨not_le.1 hlimit, fun hu => ?_⟩, (Except.ok.inj h).symm⟩
      exact not_le.1 fun hle => hminutes ⟨TimeUnit.length_eq_minute_iff.2 hu, hle⟩
  · rintro ⟨u, s, ⟨hnumber, hminutes⟩, rfl⟩
    have hunit : unit? (trim ((trim value.toList).dropWhile Char.isDigit)) = some u.length := by
      rw [s.dropWhile_trim, s.trim_rest]
      exact unit?_eq_some_iff.2 ⟨u, rfl, rfl⟩
    have hdigits : ((trim value.toList).takeWhile Char.isDigit).isEmpty = false := by
      rw [s.takeWhile_trim]
      simpa using s.digits_ne_nil
    have hlimit : ¬countLimit ≤ s.number := not_le.2 hnumber
    have hseconds : ¬(u.length = Duration.minute ∧ countLimit ≤ 60 * s.number) := by
      rintro ⟨hu, hle⟩
      exact absurd (hminutes (TimeUnit.length_eq_minute_iff.1 hu)) (not_lt.2 hle)
    simp only [duration?, s.decimal_digits, hdigits, hunit]
    rw [if_neg Bool.false_ne_true, if_neg hlimit, if_neg hseconds, Spelling.duration]

example : duration? " 090\u00a0min\n" = .ok (90 * Duration.minute) := by rfl

/-! ## Timeouts -/

theorem bounded_some (d : Duration) :
    Timeout.bounded (some d) = if d = 0 then none else some d := by
  by_cases h : d = 0 <;> simp [Timeout.bounded, h]

theorem checkTimeout_bounded {d : Duration} :
    checkTimeout (Timeout.bounded (some d)) = .ok () ↔ d ≤ maxTimeout := by
  rcases eq_or_ne d 0 with rfl | h
  · simp [bounded_some, checkTimeout]
  · rw [bounded_some, if_neg h, checkTimeout]
    split_ifs with hlong <;> simp [← not_lt, hlong]

theorem timeout?_eq_ok_iff {value : String} {t : Option Duration} :
    timeout? value = .ok t ↔
      ∃ d, Spells value d ∧ d ≤ maxTimeout ∧ t = if d = 0 then none else some d := by
  simp only [← duration?_eq_ok_iff, ← checkTimeout_bounded, ← bounded_some]
  rw [timeout?]
  cases duration? value with
  | error e => simp [bind, Except.bind]
  | ok d =>
    cases hcheck : checkTimeout (Timeout.bounded (some d)) with
    | error e => simp [bind, Except.bind, hcheck]
    | ok u => simp [bind, Except.bind, pure, Except.pure, hcheck, eq_comm]

/-- A timeout that is read is a spelled duration within the limit, or none for a zero. -/
theorem exists_timeout?_iff {value : String} {p : Option Duration → Prop} :
    (∃ t, timeout? value = .ok t ∧ p t) ↔
      ∃ d, Spells value d ∧ d ≤ maxTimeout ∧ p (if d = 0 then none else some d) := by
  simp only [timeout?_eq_ok_iff]
  constructor
  · rintro ⟨_, ⟨d, hd, hle, rfl⟩, hp⟩
    exact ⟨d, hd, hle, hp⟩
  · rintro ⟨d, hd, hle, hp⟩
    exact ⟨_, ⟨d, hd, hle, rfl⟩, hp⟩

end Setting

namespace Config

open Setting

theorem set_eq_ok_iff {c c' : Config} {name value : String} {parameter : Parameter}
    (hname : Parameter.ofName? name = some parameter) :
    c.set name value = .ok c' ↔ c.assign value parameter = .ok c' := by
  rw [set, hname]
  dsimp only
  cases c.assign value parameter <;> simp [Except.mapError]

theorem assign_lockTimeout_eq_ok_iff {c c' : Config} {value : String} :
    c.assign value .lockTimeout = .ok c' ↔
      ∃ t, timeout? value = .ok t ∧ c' = { c with lockTimeout := t } := by
  rw [assign]
  cases timeout? value <;> simp [bind, Except.bind, pure, Except.pure, eq_comm]

theorem assign_txnTimeout_eq_ok_iff {c c' : Config} {value : String} :
    c.assign value .txnTimeout = .ok c' ↔
      ∃ t, timeout? value = .ok t ∧ c' = { c with txnTimeout := t } := by
  rw [assign]
  cases timeout? value <;> simp [bind, Except.bind, pure, Except.pure, eq_comm]

/-- **Durations are read by their grammar and no other way; a timeout is set to one of at most 75
minutes, and to none exactly by a zero.** -/
theorem durations_of_spellings :
    (∀ (value : String) (d : Duration), duration? value = .ok d ↔ Spells value d) ∧
      ∀ (c c' : Config) (value : String),
        (c.set "stow.lock.timeout" value = .ok c' ↔
          ∃ d, Spells value d ∧ d ≤ 75 * Duration.minute ∧
            c' = { c with lockTimeout := if d = 0 then none else some d }) ∧
        (c.set "stow.txn.timeout" value = .ok c' ↔
          ∃ d, Spells value d ∧ d ≤ 75 * Duration.minute ∧
            c' = { c with txnTimeout := if d = 0 then none else some d }) := by
  refine ⟨fun _ _ => duration?_eq_ok_iff, fun c c' value => ⟨?_, ?_⟩⟩
  · rw [set_eq_ok_iff rfl, assign_lockTimeout_eq_ok_iff, exists_timeout?_iff, maxTimeout]
  · rw [set_eq_ok_iff rfl, assign_txnTimeout_eq_ok_iff, exists_timeout?_iff, maxTimeout]

end Config
end WalStore
