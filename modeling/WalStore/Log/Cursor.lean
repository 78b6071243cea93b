import WalStore.Log.Scan
import WalStore.Store

/-!
# Reading a log record by record

A cursor stands in a store behind the last record that it has read, and reads no more of the store
than the next frame at a time. It stops for good at the end of the store, at a frame that the end
cuts short, and at damage, which it reports once.

Going on until it stops finds what a scan of the whole store finds.
-/

namespace WalStore

/-- A place in a store from where records are read one by one. -/
structure Cursor where
  store : Store
  /-- Where the last record read ends. -/
  offset : Nat
  /-- The position of the last record read, or zero. -/
  last : Lsn
  /-- Whether it has stopped at a frame that is not all there. -/
  torn : Bool
  /-- Whether it has stopped. -/
  finished : Bool

namespace Cursor

open WalStore.Frame (headerSize checksumSize)

/-- A record and the offset of its frame, or why there is none. -/
abbrev Answer := Option (Except Error (Nat × Record))

/-- In front of the first record. -/
def ofStore (store : Store) : Cursor := ⟨store, 0, .zero, false, false⟩

/-- What stands at the cursor: the header is read first, and the rest of the frame if the store
goes on that far. -/
def front (c : Cursor) : Frame.Front :=
  let remaining := c.store.size - c.offset
  if remaining = 0 then .finished
  else if remaining < headerSize then .torn
  else
    match c.store.readAt c.offset headerSize with
    | .error e => .damaged (.storage e)
    | .ok head =>
      match Frame.header c.offset head with
      | .error e => .damaged e
      | .ok h =>
        let size := h.length + checksumSize
        if remaining - headerSize < size then .torn
        else
          match c.store.readAt (c.offset + headerSize) size with
          | .error e => .damaged (.storage e)
          | .ok tail =>
            match Frame.body c.offset c.last h head tail with
            | .error e => .damaged e
            | .ok r => .record r (headerSize + size)

/-- The next record, unless the cursor has stopped or stops here. -/
def next (c : Cursor) : Cursor × Answer :=
  if c.finished then (c, none)
  else
    match c.front with
    | .finished => ({ c with finished := true }, none)
    | .torn => ({ c with torn := true, finished := true }, none)
    | .damaged e => ({ c with finished := true }, some (.error e))
    | .record r size =>
      ({ c with offset := c.offset + size, last := r.lsn }, some (.ok (c.offset, r)))

/-- So many steps, and what they answer. -/
def steps (c : Cursor) : Nat → Cursor × List Answer
  | 0 => (c, [])
  | n + 1 =>
    let (c, answer) := c.next
    let (c, answers) := c.steps n
    (c, answer :: answers)

end Cursor
end WalStore
