import Mathlib.Data.List.Induction
import WalStore.Log.Scan
import WalStore.Proofs.Record.Frame

/-!
# What a scan finds

**Theorems.** A scan of frames whose positions ascend finds their records, each at the offset of its
frame, and a beginning of a frame behind them ends it as torn (`go_ofRecords`). Whatever a scan
finds stands in the bytes as the frames of its records (`frames_of_go`).

**Cuts.** Cutting a log anywhere leaves the frames that lie wholly in front of the cut, and a
beginning of the one that it goes through (`take_ofRecords`).
-/

namespace WalStore

/-! ## Positions -/

/-- The positions of the records ascend, and start behind `last`. -/
def Record.Follow (last : Lsn) : List Record → Prop
  | [] => True
  | r :: rs => last < r.lsn ∧ Follow r.lsn rs

/-- The position of the last record, or `last` if there is none. -/
def Record.endLsn (last : Lsn) : List Record → Lsn
  | [] => last
  | r :: rs => endLsn r.lsn rs

namespace Record

instance decidableFollow : (last : Lsn) → (rs : List Record) → Decidable (Follow last rs)
  | _, [] => isTrue trivial
  | last, r :: rs =>
    have := decidableFollow r.lsn rs
    inferInstanceAs (Decidable (last < r.lsn ∧ Follow r.lsn rs))

variable {last : Lsn} {rs : List Record}

theorem endLsn_append (last : Lsn) (rs rs' : List Record) :
    endLsn last (rs ++ rs') = endLsn (endLsn last rs) rs' := by
  induction rs generalizing last with
  | nil => rfl
  | cons r rs ih => exact ih r.lsn

theorem follow_append {rs' : List Record} :
    Follow last (rs ++ rs') ↔ Follow last rs ∧ Follow (endLsn last rs) rs' := by
  induction rs generalizing last with
  | nil => exact (true_and _).symm.to_iff
  | cons r rs ih => exact (and_congr_right fun _ => ih).trans and_assoc.symm

/-- Each record takes at least one position. -/
theorem length_le_endLsn (h : Follow last rs) :
    last.toNat + rs.length ≤ (endLsn last rs).toNat := by
  induction rs generalizing last with
  | nil => exact Nat.le_refl _
  | cons r rs ih =>
    have hlast := Lsn.lt_iff.1 h.1
    have := ih h.2
    rw [List.length_cons, endLsn]
    omega

theorem Follow.shorten {rs' : List Record} (h : Follow last rs) (hgrows : rs' <+: rs) :
    Follow last rs' := by
  obtain ⟨later, rfl⟩ := hgrows
  exact (follow_append.1 h).1

theorem endLsn_mono {rs' : List Record} (h : Follow last rs) (hgrows : rs' <+: rs) :
    (endLsn last rs').toNat ≤ (endLsn last rs).toNat := by
  obtain ⟨later, rfl⟩ := hgrows
  rw [endLsn_append]
  have := length_le_endLsn (follow_append.1 h).2
  omega

theorem Follow.lt_of_mem (h : Follow last rs) {r : Record} (hr : r ∈ rs) : last < r.lsn := by
  induction rs generalizing last with
  | nil => cases hr
  | cons r' rs ih =>
    rcases List.mem_cons.1 hr with rfl | hr
    · exact h.1
    · exact Lsn.lt_iff.2 (Nat.lt_trans (Lsn.lt_iff.1 h.1) (Lsn.lt_iff.1 (ih h.2 hr)))

theorem endLsn_eq_getLast? (last : Lsn) (rs : List Record) :
    endLsn last rs = (rs.getLast?.map (·.lsn)).getD last := by
  induction rs using List.reverseRecOn with
  | nil => rfl
  | append_singleton rs r => simp [endLsn_append, endLsn]

theorem endLsn_lt {n : Nat} (hlast : last.toNat < n) (h : ∀ r ∈ rs, r.lsn.toNat < n) :
    (endLsn last rs).toNat < n := by
  induction rs generalizing last with
  | nil => exact hlast
  | cons r rs ih =>
    exact ih (h r List.mem_cons_self) fun r' hr' => h r' (List.mem_cons_of_mem r hr')

/-! ### Records up to a position -/

/-- The records at positions up to `target`, or all of them. -/
def upTo (target : Option Lsn) (rs : List Record) : List Record :=
  rs.filter fun r => target.all fun target => r.lsn ≤ target

@[simp] theorem upTo_none (rs : List Record) : upTo none rs = rs := by
  simp [upTo]

/-- As positions ascend, all records after one at `target` stand behind all up to it. -/
theorem Follow.exists_later (h : Follow last rs) (target : Lsn) :
    ∃ later, rs = upTo (some target) rs ++ later ∧ ∀ r ∈ later, target < r.lsn := by
  induction rs generalizing last with
  | nil => exact ⟨[], rfl, nofun⟩
  | cons r rs ih =>
    by_cases hr : r.lsn ≤ target
    · obtain ⟨later, hrs, hlater⟩ := ih h.2
      refine ⟨later, ?_, hlater⟩
      simpa [upTo, hr] using hrs
    · have hafter : ∀ r' ∈ r :: rs, target < r'.lsn := by
        intro r' hr'
        have hlt := Lsn.lt_iff.1 (Lsn.not_le.1 hr)
        rcases List.mem_cons.1 hr' with rfl | hr'
        · exact Lsn.lt_iff.2 hlt
        · exact Lsn.lt_iff.2 (Nat.lt_trans hlt (Lsn.lt_iff.1 (h.2.lt_of_mem hr')))
      refine ⟨r :: rs, ?_, hafter⟩
      have hnone : upTo (some target) (r :: rs) = [] := by
        simpa [upTo, Lsn.not_le] using hafter
      rw [hnone, List.nil_append]

theorem Follow.prefix_upTo (h : Follow last rs) (target : Option Lsn) : upTo target rs <+: rs := by
  cases target with
  | none => exact ⟨[], by rw [upTo_none, List.append_nil]⟩
  | some target =>
    obtain ⟨later, hrs, -⟩ := h.exists_later target
    exact ⟨later, hrs.symm⟩

theorem Follow.upTo_eq_takeWhile (h : Follow last rs) (target : Lsn) :
    upTo (some target) rs = rs.takeWhile fun r => r.lsn ≤ target := by
  obtain ⟨later, hrs, hlater⟩ := h.exists_later target
  have hfront : ∀ r ∈ upTo (some target) rs, decide (r.lsn ≤ target) = true := by
    simp [upTo]
  conv_rhs => rw [hrs, List.takeWhile_append_of_pos hfront]
  have hback : later.takeWhile (fun r => r.lsn ≤ target) = [] := by
    cases later with
    | nil => rfl
    | cons r later =>
      have hr := Lsn.not_le.2 (hlater r List.mem_cons_self)
      simp [hr]
  rw [hback, List.append_nil]

end Record

/-! ## Frames in a row -/

namespace Frame

/-- The frames of records one after another. -/
def ofRecords : List Record → Except Error Bytes
  | [] => .ok []
  | r :: rs => do
    let frame ← ofRecord r
    let frames ← ofRecords rs
    return frame ++ frames

theorem ofRecords_cons_eq_ok_iff {r : Record} {rs : List Record} {bs : Bytes} :
    ofRecords (r :: rs) = .ok bs ↔
      ∃ frame frames, ofRecord r = .ok frame ∧ ofRecords rs = .ok frames ∧
        bs = frame ++ frames := by
  rw [ofRecords]
  cases ofRecord r with
  | error => simp [bind, Except.bind]
  | ok frame => cases ofRecords rs <;> simp [bind, Except.bind, pure, Except.pure, eq_comm]

theorem ofRecords_append {rs rs' : List Record} {bs bs' : Bytes} (h : ofRecords rs = .ok bs)
    (h' : ofRecords rs' = .ok bs') : ofRecords (rs ++ rs') = .ok (bs ++ bs') := by
  induction rs generalizing bs with
  | nil =>
    cases h
    exact h'
  | cons r rs ih =>
    obtain ⟨frame, frames, hframe, hframes, rfl⟩ := ofRecords_cons_eq_ok_iff.1 h
    exact ofRecords_cons_eq_ok_iff.2
      ⟨frame, frames ++ bs', hframe, ih hframes, List.append_assoc ..⟩

theorem exists_of_ofRecords_append {rs rs' : List Record} {bs : Bytes}
    (h : ofRecords (rs ++ rs') = .ok bs) :
    ∃ front back, ofRecords rs = .ok front ∧ ofRecords rs' = .ok back ∧ bs = front ++ back := by
  induction rs generalizing bs with
  | nil => exact ⟨[], bs, rfl, h, rfl⟩
  | cons r rs ih =>
    obtain ⟨frame, frames, hframe, hframes, rfl⟩ := ofRecords_cons_eq_ok_iff.1 h
    obtain ⟨front, back, hfront, hback, rfl⟩ := ih hframes
    exact ⟨frame ++ front, back, ofRecords_cons_eq_ok_iff.2 ⟨frame, front, hframe, hfront, rfl⟩,
      hback, (List.append_assoc ..).symm⟩

/-- How many bytes the frame of a record takes. A record that has no frame takes none. -/
def size (r : Record) : Nat :=
  match ofRecord r with
  | .ok frame => frame.length
  | .error _ => 0

theorem size_of_ofRecord {r : Record} {frame : Bytes} (h : ofRecord r = .ok frame) :
    size r = frame.length := by
  rw [size, h]

/-- The records with the offsets of their frames, which stand in a row from `offset` on. -/
def place (offset : Nat) : List Record → List (Nat × Record)
  | [] => []
  | r :: rs => (offset, r) :: place (offset + size r) rs

theorem map_snd_place (offset : Nat) (rs : List Record) : (place offset rs).map (·.2) = rs := by
  induction rs generalizing offset with
  | nil => rfl
  | cons r rs ih => exact congrArg (r :: ·) (ih _)

theorem place_append {rs : List Record} {bs : Bytes} (h : ofRecords rs = .ok bs) (offset : Nat)
    (rs' : List Record) :
    place offset (rs ++ rs') = place offset rs ++ place (offset + bs.length) rs' := by
  induction rs generalizing offset bs with
  | nil =>
    cases h
    rfl
  | cons r rs ih =>
    obtain ⟨frame, frames, hframe, hframes, rfl⟩ := ofRecords_cons_eq_ok_iff.1 h
    rw [List.cons_append, place, place, ih hframes, size_of_ofRecord hframe, List.length_append,
      Nat.add_assoc, List.cons_append]

/-- A beginning of a frame that is not the whole of it, or nothing. -/
def Partial (bs : Bytes) : Prop :=
  bs = [] ∨ ∃ r frame k, ofRecord r = .ok frame ∧ k < frame.length ∧ bs = frame.take k

theorem Partial.nil : Partial [] := .inl rfl

theorem Partial.take {bs : Bytes} (h : Partial bs) (k : Nat) : Partial (bs.take k) := by
  rcases h with rfl | ⟨r, frame, k', hframe, hk, rfl⟩
  · exact .inl List.take_nil
  · rw [List.take_take]
    exact .inr ⟨r, frame, min k k', hframe, by omega, rfl⟩

theorem Partial.read {bs : Bytes} (h : Partial bs) (offset : Nat) (last : Lsn) :
    Frame.read offset last bs = if bs = [] then .finished else .torn := by
  split
  · next hnil => rw [hnil, read_nil]
  · next hne =>
    rcases h with hnil | ⟨r, frame, k, hframe, hk, rfl⟩
    · exact absurd hnil hne
    · have hpos : 0 < k := Nat.pos_of_ne_zero fun h0 => hne (by rw [h0, List.take_zero])
      exact read_take hframe hpos hk offset last

/-- The records whose frames lie wholly in the first `k` bytes of their frames in a row. -/
def wholeIn : Nat → List Record → List Record
  | _, [] => []
  | k, r :: rs =>
    match ofRecord r with
    | .ok frame => if frame.length ≤ k then r :: wholeIn (k - frame.length) rs else []
    | .error _ => []

theorem prefix_wholeIn (k : Nat) (rs : List Record) : wholeIn k rs <+: rs := by
  induction rs generalizing k with
  | nil => exact List.prefix_refl _
  | cons r rs ih =>
    rw [wholeIn]
    split
    · split
      · exact (List.prefix_cons_inj r).2 (ih _)
      · exact List.nil_prefix
    · exact List.nil_prefix

theorem wholeIn_of_le {rs : List Record} {bs : Bytes} (h : ofRecords rs = .ok bs) {k : Nat}
    (hk : bs.length ≤ k) : wholeIn k rs = rs := by
  induction rs generalizing bs k with
  | nil => rfl
  | cons r rs ih =>
    obtain ⟨frame, frames, hframe, hframes, rfl⟩ := ofRecords_cons_eq_ok_iff.1 h
    rw [List.length_append] at hk
    rw [wholeIn, hframe]
    dsimp only
    rw [if_pos (by omega), ih hframes (by omega)]

/-- Records whose frames all lie in front of the cut stay, whatever comes behind them. -/
theorem wholeIn_append {rs : List Record} {bs : Bytes} (h : ofRecords rs = .ok bs) {k : Nat}
    (hk : bs.length ≤ k) (later : List Record) :
    wholeIn k (rs ++ later) = rs ++ wholeIn (k - bs.length) later := by
  induction rs generalizing bs k with
  | nil =>
    cases h
    rfl
  | cons r rs ih =>
    obtain ⟨frame, frames, hframe, hframes, rfl⟩ := ofRecords_cons_eq_ok_iff.1 h
    rw [List.length_append] at hk ⊢
    rw [List.cons_append, wholeIn, hframe]
    dsimp only
    rw [if_pos (by omega), ih hframes (by omega), List.cons_append, Nat.sub_sub]

/-- A log that is cut keeps the frames in front of the cut and a beginning of the next. -/
theorem take_ofRecords {rs : List Record} {bs tail : Bytes} (h : ofRecords rs = .ok bs)
    (htail : Partial tail) (k : Nat) : ∃ kept torn, ofRecords (wholeIn k rs) = .ok kept ∧
      Partial torn ∧ (bs ++ tail).take k = kept ++ torn := by
  induction rs generalizing bs k with
  | nil =>
    cases h
    exact ⟨[], tail.take k, rfl, htail.take k, rfl⟩
  | cons r rs ih =>
    obtain ⟨frame, frames, hframe, hframes, rfl⟩ := ofRecords_cons_eq_ok_iff.1 h
    rw [wholeIn, hframe]
    dsimp only
    by_cases hk : frame.length ≤ k
    · obtain ⟨kept, torn, hkept, htorn, htake⟩ := ih hframes (k - frame.length)
      refine ⟨frame ++ kept, torn, ?_, htorn, ?_⟩
      · rw [if_pos hk]
        exact ofRecords_cons_eq_ok_iff.2 ⟨frame, kept, hframe, hkept, rfl⟩
      · rw [List.append_assoc, List.take_append, List.take_of_length_le hk, htake,
          List.append_assoc]
    · refine ⟨[], frame.take k, by rw [if_neg hk]; rfl, ?_, ?_⟩
      · exact .inr ⟨r, frame, k, hframe, by omega, rfl⟩
      · rw [List.append_assoc, List.take_append_of_le_length (by omega), List.nil_append]

end Frame

/-! ## Scans -/

namespace Scan

variable {offset : Nat} {last : Lsn} {bs : Bytes}

theorem go_of_finished (h : Frame.read offset last bs = .finished) :
    go offset last bs = ⟨[], .clean, offset, last⟩ := by
  rw [go]
  split <;> simp_all

theorem go_of_torn (h : Frame.read offset last bs = .torn) :
    go offset last bs = ⟨[], .torn, offset, last⟩ := by
  rw [go]
  split <;> simp_all

theorem go_of_damaged {e : Error} (h : Frame.read offset last bs = .damaged e) :
    go offset last bs = ⟨[], .damaged e, offset, last⟩ := by
  rw [go]
  split <;> simp_all

theorem go_of_record {size : Nat} {r : Record} (h : Frame.read offset last bs = .record r size) :
    go offset last bs =
      { go (offset + size) r.lsn (bs.drop size) with
        items := (offset, r) :: (go (offset + size) r.lsn (bs.drop size)).items } := by
  rw [go]
  split <;> simp_all

theorem go_of_partial (h : Frame.Partial bs) (offset : Nat) (last : Lsn) :
    go offset last bs = ⟨[], if bs = [] then .clean else .torn, offset, last⟩ := by
  have hread := h.read offset last
  by_cases hnil : bs = []
  · rw [if_pos hnil] at hread ⊢
    exact go_of_finished hread
  · rw [if_neg hnil] at hread ⊢
    exact go_of_torn hread

/-- A scan goes over the frames of records and then on behind them. -/
theorem go_append {rs : List Record} (h : Frame.ofRecords rs = .ok bs)
    (hfollow : Record.Follow last rs) (offset : Nat) (rest : Bytes) :
    go offset last (bs ++ rest) =
      { go (offset + bs.length) (Record.endLsn last rs) rest with
        items := Frame.place offset rs ++
          (go (offset + bs.length) (Record.endLsn last rs) rest).items } := by
  induction rs generalizing bs last offset with
  | nil =>
    cases h
    rfl
  | cons r rs ih =>
    obtain ⟨frame, frames, hframe, hframes, rfl⟩ := Frame.ofRecords_cons_eq_ok_iff.1 h
    rw [List.append_assoc, go_of_record (Frame.read_ofRecord hframe hfollow.1 offset _),
      List.drop_left, ih hframes hfollow.2, Frame.place, Frame.size_of_ofRecord hframe,
      List.length_append, ← Nat.add_assoc, Record.endLsn, List.cons_append]

/-- A scan finds the records whose frames it goes over. -/
theorem go_ofRecords {rs : List Record} {tail : Bytes} (h : Frame.ofRecords rs = .ok bs)
    (hfollow : Record.Follow last rs) (htail : Frame.Partial tail) (offset : Nat) :
    go offset last (bs ++ tail) = ⟨Frame.place offset rs, if tail = [] then .clean else .torn,
      offset + bs.length, Record.endLsn last rs⟩ := by
  rw [go_append h hfollow, go_of_partial htail, List.append_nil]

/-- What a scan finds stands in the bytes, frame by frame. -/
theorem frames_of_go (offset : Nat) (last : Lsn) (bs : Bytes) :
    ∃ frames tail, bs = frames ++ tail ∧ Frame.ofRecords (go offset last bs).records = .ok frames ∧
      Record.Follow last (go offset last bs).records ∧
      (go offset last bs).validEnd = offset + frames.length ∧
      (go offset last bs).lastLsn = Record.endLsn last (go offset last bs).records ∧
      ((go offset last bs).ending = .clean → tail = []) := by
  have hstop {offset : Nat} {last : Lsn} {bs : Bytes} {ending : ScanEnd}
      (hgo : go offset last bs = ⟨[], ending, offset, last⟩) (hclean : ending = .clean → bs = []) :
      ∃ frames tail, bs = frames ++ tail ∧
        Frame.ofRecords (go offset last bs).records = .ok frames ∧
        Record.Follow last (go offset last bs).records ∧
        (go offset last bs).validEnd = offset + frames.length ∧
        (go offset last bs).lastLsn = Record.endLsn last (go offset last bs).records ∧
        ((go offset last bs).ending = .clean → tail = []) := by
    rw [hgo]
    exact ⟨[], bs, rfl, rfl, trivial, rfl, rfl, hclean⟩
  induction offset, last, bs using go.induct with
  | case1 offset last bs hread =>
    exact hstop (go_of_finished hread) fun _ => Frame.eq_nil_of_read hread
  | case2 offset last bs hread => exact hstop (go_of_torn hread) nofun
  | case3 offset last bs e hread => exact hstop (go_of_damaged hread) nofun
  | case4 offset last bs r size hread ih =>
    obtain ⟨hlast, frame, hframe, rfl, hsplit⟩ := Frame.ofRecord_of_read hread
    obtain ⟨frames, tail, hbs, hframes, hfollow, hend, hlsn, hclean⟩ := ih
    rw [go_of_record hread]
    refine ⟨frame ++ frames, tail, ?_, ?_, ⟨hlast, hfollow⟩, ?_, hlsn, hclean⟩
    · rw [List.append_assoc, ← hbs]
      exact hsplit
    · exact Frame.ofRecords_cons_eq_ok_iff.2 ⟨frame, frames, hframe, hframes, rfl⟩
    · rw [List.length_append, ← Nat.add_assoc]
      exact hend

end Scan
end WalStore
