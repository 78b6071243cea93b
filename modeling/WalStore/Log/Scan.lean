import WalStore.Record.Frame

/-!
# Scanning a log

A scan reads frame after frame from the front of a byte string and stops at the first that is
not a whole, sound record. What it gives is the records with the offsets of their frames, how
the scan ended, and where the last whole record ended.

**Readers.** Everything that is read back from a log is a function of its scan: all records
(`all`), those up to a position (`upTo`), and where to cut the log behind a position (`cutAfter`).
Damage matters only to a reader that gets that far.
-/

namespace WalStore

/-- How a scan ended. -/
inductive ScanEnd where
  /-- With the last frame. -/
  | clean
  /-- At a frame that is not all there. -/
  | torn
  | damaged (error : Error)
  deriving DecidableEq

/-- What reading a store to the end gives. -/
structure Scan where
  /-- The records, each behind the offset of its frame. -/
  items : List (Nat × Record)
  ending : ScanEnd
  /-- Where the last record's frame ends. -/
  validEnd : Nat
  /-- The last record's position, or zero. -/
  lastLsn : Lsn
  deriving DecidableEq

namespace Scan

/-- Scans `bs`, which starts at `offset` and follows a record at `last`. -/
def go (offset : Nat) (last : Lsn) (bs : Bytes) : Scan :=
  match _h : Frame.read offset last bs with
  | .finished => ⟨[], .clean, offset, last⟩
  | .torn => ⟨[], .torn, offset, last⟩
  | .damaged e => ⟨[], .damaged e, offset, last⟩
  | .record r size =>
    let later := go (offset + size) r.lsn (bs.drop size)
    { later with items := (offset, r) :: later.items }
  termination_by bs.length
  decreasing_by
    have := Frame.size_le_of_read _h
    simp only [Frame.headerSize, Frame.checksumSize] at this
    simp only [List.length_drop]
    omega

/-- Scans a whole log. -/
def ofBytes (bs : Bytes) : Scan := go 0 .zero bs

/-- The records, without where they stand. -/
def records (s : Scan) : List Record := s.items.map (·.2)

/-- The error of a scan that met one. -/
def error? (s : Scan) : Option Error :=
  match s.ending with
  | .damaged e => some e
  | .clean | .torn => none

/-- Whether the last frame is not all there. -/
def isTorn (s : Scan) : Bool := s.ending = .torn

/-- The items at positions up to `target`, and whether the scan went past it. -/
def itemsUpTo (s : Scan) (target : Lsn) : List (Nat × Record) :=
  s.items.takeWhile fun item => item.2.lsn ≤ target

/-- The first item at a position after `target`. -/
def firstAfter? (s : Scan) (target : Lsn) : Option (Nat × Record) :=
  s.items.find? fun item => target < item.2.lsn

/-- Every record, unless the scan met an error. -/
def all (s : Scan) : Except Error (List Record) :=
  match s.error? with
  | some e => .error e
  | none => .ok s.records

/-- The records up to `target`. An error in front of the first record after it is reported. -/
def upTo (s : Scan) (target : Lsn) : Except Error (List Record) :=
  match s.firstAfter? target, s.error? with
  | none, some e => .error e
  | _, _ => .ok ((s.itemsUpTo target).map (·.2))

/-- The records up to `target`, or all of them. -/
def read (s : Scan) : Option Lsn → Except Error (List Record)
  | none => s.all
  | some target => s.upTo target

/-- Where to cut a log to lose what stands after `target`. -/
structure Cut where
  /-- Offset of the first frame to go, if one has to. -/
  offset? : Option Nat
  /-- Position of the last record that stays, or zero. -/
  kept : Lsn

/-- Where to cut so that nothing behind a position stays. With such a record the place is in front
of it, whatever comes later; without one everything has to be read. -/
def cutAfter (s : Scan) (target : Lsn) : Except Error Cut :=
  let kept := ((s.itemsUpTo target).getLast?.map (·.2.lsn)).getD .zero
  match s.firstAfter? target, s.error? with
  | some item, _ => .ok ⟨some item.1, kept⟩
  | none, some e => .error e
  | none, none => .ok ⟨none, kept⟩

end Scan
end WalStore
