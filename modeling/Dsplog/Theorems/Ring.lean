import Dsplog.Lib.Cyclic
import Dsplog.Read

/-! The ring buffer as a queue of records. The pointers of a ring stay on record boundaries, the unread
    records are those of the slots from `read_ptr` to `write_ptr`, and the full test holds exactly when
    all slots but one are unread. -/

namespace Dsplog
open Bytes Cyclic

theorem dsplogEntrySize_eq : dsplogEntrySize = 32 := rfl

/-- A segment of whole records is the sequence of these records. -/
theorem read_records {m : Mem} {a n : Nat} :
    m.read a (dsplogEntrySize * n) =
      ((List.range n).map fun k => m.read (a + dsplogEntrySize * k) dsplogEntrySize).flatten := by
  induction n with
  | zero => rfl
  | succ n ih =>
    rw [Nat.mul_succ, Mem.read_append, ih, List.range_succ, List.map_append, List.flatten_append]
    simp

namespace RingBuf
variable {p : Platform} {rb : RingBuf} {record : List UInt8} {i ptr w r : Nat}

/-- A pointer to a record of the ring. -/
def Boundary (rb : RingBuf) (ptr : Nat) : Prop :=
  rb.start ≤ ptr ∧ ptr < rb.end_ ∧ (ptr - rb.start) % dsplogEntrySize = 0

def slotAddr (rb : RingBuf) (i : Nat) : Nat := rb.start + dsplogEntrySize * i

def slot (rb : RingBuf) (ptr : Nat) : Nat := (ptr - rb.start) / dsplogEntrySize

/-- The record in slot `i`. -/
def entry (rb : RingBuf) (i : Nat) : List UInt8 := rb.mem.read (rb.slotAddr i) dsplogEntrySize

/-- The number of records from pointer `r` to pointer `w`. -/
def span (p : Platform) (rb : RingBuf) (r w : Nat) : Nat := distance p.printkBufEntries (rb.slot r) (rb.slot w)

/-- The records from pointer `r` to pointer `w`. -/
def between (p : Platform) (rb : RingBuf) (r w : Nat) : List (List UInt8) :=
  slice rb.entry p.printkBufEntries (rb.slot r) (rb.span p r w)

def count (p : Platform) (rb : RingBuf) : Nat := rb.span p rb.readPtr rb.writePtr

/-- The unread records, oldest first. -/
def queued (p : Platform) (rb : RingBuf) : List (List UInt8) := rb.between p rb.readPtr rb.writePtr

/-- The pointers of a ring are where they belong. -/
structure Layout (p : Platform) (rb : RingBuf) : Prop where
  end_eq : rb.end_ = rb.start + p.printkBufSize
  read : rb.Boundary rb.readPtr
  write : rb.Boundary rb.writePtr

/-- The representation invariant between two operations: the full flag tells the truth. -/
structure Wf (p : Platform) (rb : RingBuf) : Prop extends Layout p rb where
  full_iff : rb.full = true ↔ rb.count p = p.printkBufEntries - 1

/-! ### Pointers and slots -/

theorem Boundary.addr (h : rb.Boundary ptr) : ptr = rb.slotAddr (rb.slot ptr) := by
  obtain ⟨h1, h2, h3⟩ := h
  simp only [slotAddr, slot, dsplogEntrySize_eq] at *
  omega

theorem Boundary.slot_lt (he : rb.end_ = rb.start + p.printkBufSize) (h : rb.Boundary ptr) :
    rb.slot ptr < p.printkBufEntries := by
  obtain ⟨h1, h2, h3⟩ := h
  simp only [slot, Platform.printkBufSize, dsplogEntrySize_eq] at *
  omega

theorem boundary_slotAddr (he : rb.end_ = rb.start + p.printkBufSize) (hi : i < p.printkBufEntries) :
    rb.Boundary (rb.slotAddr i) := by
  simp only [Boundary, slotAddr, Platform.printkBufSize, dsplogEntrySize_eq] at *
  omega

@[simp] theorem slot_slotAddr : rb.slot (rb.slotAddr i) = i := by
  simp only [slot, slotAddr, dsplogEntrySize_eq]
  omega

theorem slotAddr_lt {j : Nat} : rb.slotAddr i < rb.slotAddr j ↔ i < j := by
  simp only [slotAddr, dsplogEntrySize_eq]
  omega

namespace Layout

theorem slot_lt (h : rb.Layout p) : rb.slot rb.readPtr < p.printkBufEntries ∧ rb.slot rb.writePtr < p.printkBufEntries :=
  ⟨h.read.slot_lt h.end_eq, h.write.slot_lt h.end_eq⟩

theorem count_lt (h : rb.Layout p) : rb.count p < p.printkBufEntries := distance_lt h.slot_lt.1 h.slot_lt.2

theorem queued_length : (rb.queued p).length = rb.count p := slice_length

/-- The unread bytes, as the pointers tell, are those of the unread records. -/
theorem curLogSize_eq (h : rb.Layout p) : rb.curLogSize p = (dsplogEntrySize * rb.count p : Nat) := by
  have hr := h.read.addr
  have hw := h.write.addr
  obtain ⟨hr', hw'⟩ := h.slot_lt
  simp only [curLogSize, count, span, distance, Platform.printkBufSize, slotAddr, dsplogEntrySize_eq] at *
  split <;> split <;> omega

/-! ### The full test -/

/-- The full test holds exactly when all slots but one are unread. -/
theorem slow_iff (h : rb.Layout p) : rb.slow = true ↔ rb.count p = p.printkBufEntries - 1 := by
  obtain ⟨hr', hw'⟩ := h.slot_lt
  have hr := h.read.addr
  have hw := h.write.addr
  have h2 := p.two_le_printkBufEntries
  rw [count, span, ← next_eq_iff hr' hw']
  simp only [slow, next, h.end_eq, Platform.printkBufSize, slotAddr, dsplogEntrySize_eq, Bool.or_eq_true,
    Bool.and_eq_true, beq_iff_eq] at *
  split <;> omega

/-! ### Pushing a record -/

theorem push_slot (h : rb.Layout p) :
    (rb.push record).writePtr = rb.slotAddr (next p.printkBufEntries (rb.slot rb.writePtr)) := by
  have hw := h.write.addr
  obtain ⟨-, hw'⟩ := h.slot_lt
  simp only [push, next, h.end_eq, Platform.printkBufSize, slotAddr, dsplogEntrySize_eq] at *
  split <;> split <;> omega

theorem push (h : rb.Layout p) : (rb.push record).Layout p where
  end_eq := h.end_eq
  read := h.read
  write := by
    rw [push_slot h]
    exact boundary_slotAddr h.end_eq (next_lt (by have := h.slot_lt; omega))

theorem push_entry (h : rb.Layout p) (hrec : record.length = dsplogEntrySize) :
    (rb.push record).entry i = if i = rb.slot rb.writePtr then record else rb.entry i := by
  have hw := h.write.addr
  have hmem : (rb.push record).entry i = (rb.mem.write rb.writePtr record).read (rb.slotAddr i) dsplogEntrySize := rfl
  rw [hmem]
  split
  · rename_i hi
    rw [hi, ← hw, ← hrec, Mem.read_write_self]
  · rename_i hi
    refine Mem.read_write_of_disjoint ?_
    simp only [slotAddr, dsplogEntrySize_eq] at *
    omega

theorem push_mem (h : rb.Layout p) (hrec : record.length = dsplogEntrySize) (hi : i ≠ rb.slot rb.writePtr) {x : Nat}
    (hx : rb.slotAddr i ≤ x) (hx' : x < rb.slotAddr i + dsplogEntrySize) : (rb.push record).mem x = rb.mem x := by
  have hw := h.write.addr
  show rb.mem.write rb.writePtr record x = rb.mem x
  simp only [slotAddr, dsplogEntrySize_eq] at *
  rcases Nat.lt_or_gt_of_ne hi with hlt | hlt
  · exact Mem.write_of_lt (by omega)
  · exact Mem.write_of_ge (by omega)

theorem push_count (h : rb.Layout p) (hc : rb.count p < p.printkBufEntries - 1) :
    (rb.push record).count p = rb.count p + 1 := by
  obtain ⟨hr', hw'⟩ := h.slot_lt
  have hw : (rb.push record).slot (rb.push record).writePtr = next p.printkBufEntries (rb.slot rb.writePtr) := by
    rw [push_slot h]
    exact slot_slotAddr
  simp only [count, span, hw]
  exact distance_next hr' hw' hc

/-- No unread record is in the slot of `write_ptr`. -/
theorem unread_ne (h : rb.Layout p) {k : Nat} (hk : k < rb.count p) :
    (rb.slot rb.readPtr + k) % p.printkBufEntries ≠ rb.slot rb.writePtr := by
  intro heq
  have hlt := h.count_lt
  have h₁ := distance_add_mod (n := k) h.slot_lt.1 (by omega)
  rw [heq] at h₁
  simp only [count, span] at hk
  omega

theorem push_slice (h : rb.Layout p) (hrec : record.length = dsplogEntrySize) {n : Nat} (hn : n ≤ rb.count p) :
    slice (rb.push record).entry p.printkBufEntries (rb.slot rb.readPtr) n =
      slice rb.entry p.printkBufEntries (rb.slot rb.readPtr) n := by
  refine slice_congr fun k hk => ?_
  rw [push_entry h hrec, if_neg (h.unread_ne (by omega))]

theorem push_queued (h : rb.Layout p) (hrec : record.length = dsplogEntrySize)
    (hc : rb.count p < p.printkBufEntries - 1) : (rb.push record).queued p = rb.queued p ++ [record] := by
  obtain ⟨hr', hw'⟩ := h.slot_lt
  have hslice := push_slice h hrec (Nat.le_refl (rb.count p))
  have hlast : (rb.slot rb.readPtr + rb.count p) % p.printkBufEntries = rb.slot rb.writePtr := add_distance_mod hr' hw'
  show slice (rb.push record).entry p.printkBufEntries (rb.slot rb.readPtr) ((rb.push record).count p) = _
  rw [push_count h hc, slice_succ, hslice, hlast, push_entry h hrec, if_pos rfl]
  rfl

end Layout

/-! ### Storing a record -/

section Store

theorem store_of_full (h : rb.full = true) : rb.store record = rb := by simp [store, h]

theorem store_of_not_full (h : rb.full = false) :
    rb.store record = { rb.push record with full := (rb.push record).slow } := by
  have hpush : (rb.push record).full = false := h
  simp only [store, h, Bool.false_eq_true, if_false]
  cases hs : (rb.push record).slow
  · simp only [Bool.false_eq_true, if_false]
    rw [← hpush]
  · simp

/-- While no full ring lacks its flag, a record is appended exactly when there is room for it. -/
theorem Layout.store (h : rb.Layout p) : (rb.store record).Layout p := by
  cases hf : rb.full
  · rw [store_of_not_full hf]
    have h' : (rb.push record).Layout p := h.push
    exact ⟨h'.end_eq, h'.read, h'.write⟩
  · rw [store_of_full hf]
    exact h

theorem Layout.store_queued (h : rb.Layout p) (hrec : record.length = dsplogEntrySize)
    (hfull : rb.count p = p.printkBufEntries - 1 → rb.full = true) :
    (rb.store record).queued p = if rb.full then rb.queued p else rb.queued p ++ [record] := by
  cases hf : rb.full
  · have hlt := h.count_lt
    have hc : rb.count p < p.printkBufEntries - 1 := by
      have : rb.count p ≠ p.printkBufEntries - 1 := fun hc => by simp [hfull hc] at hf
      omega
    rw [store_of_not_full hf]
    exact h.push_queued hrec hc
  · rw [store_of_full hf]
    rfl

theorem Wf.store (h : rb.Wf p) (record : List UInt8) : (rb.store record).Wf p := by
  refine ⟨h.toLayout.store, ?_⟩
  cases hf : rb.full
  · rw [store_of_not_full hf]
    exact h.push.slow_iff
  · rw [store_of_full hf]
    exact h.full_iff

theorem Wf.store_queued (h : rb.Wf p) (hrec : record.length = dsplogEntrySize) :
    (rb.store record).queued p =
      if (rb.queued p).length < p.printkBufEntries - 1 then rb.queued p ++ [record] else rb.queued p := by
  have hlt := h.count_lt
  rw [h.toLayout.store_queued hrec h.full_iff.mpr, Layout.queued_length]
  by_cases hf : rb.full = true
  · rw [if_pos hf, if_neg (by have := h.full_iff.mp hf; omega)]
  · have hne : rb.count p ≠ p.printkBufEntries - 1 := fun hc => hf (h.full_iff.mpr hc)
    rw [if_neg hf, if_pos (by omega)]

end Store

/-! ### Signalling a reader -/

theorem release_eq : rb.release =
    { rb with
      numReader := rb.numReader - 1
      fillCompl := if rb.numReader - 1 = 0 then rb.fillCompl + 1 else rb.fillCompl } := by
  unfold release
  simp only
  split <;> rfl

/-- A push signals nobody, or it takes one reader off the count and gives a token for the last. -/
theorem signal_cases (p : Platform) (rb : RingBuf) :
    (rb.numReader = 0 ∨ rb.due p = false) ∧ rb.signal p = rb ∨
      (rb.numReader ≠ 0 ∧ rb.due p = true) ∧ rb.signal p = { rb with
        numReader := rb.numReader - 1
        fillCompl := if rb.numReader - 1 = 0 then rb.fillCompl + 1 else rb.fillCompl } := by
  unfold signal
  split
  · rename_i h
    exact Or.inl ⟨Or.inl h, rfl⟩
  · rename_i h
    split
    · rename_i hdue
      exact Or.inr ⟨⟨h, hdue⟩, release_eq⟩
    · rename_i hdue
      exact Or.inl ⟨Or.inr (eq_false_of_ne_true hdue), rfl⟩

theorem signal_eq (p : Platform) (rb : RingBuf) : ∃ n c, rb.signal p = { rb with numReader := n, fillCompl := c } := by
  rcases rb.signal_cases p with ⟨-, h⟩ | ⟨-, h⟩
  · exact ⟨rb.numReader, rb.fillCompl, h⟩
  · exact ⟨_, _, h⟩

theorem Layout.due_iff (h : rb.Layout p) :
    rb.due p = true ↔ rb.full = true ∨ p.dumpThresholdSize < dsplogEntrySize * rb.count p := by
  rw [due, Bool.or_eq_true, decide_eq_true_eq, h.curLogSize_eq, Int.ofNat_lt]

theorem Wf.signal (h : rb.Wf p) : (rb.signal p).Wf p := by
  obtain ⟨n, c, hs⟩ := signal_eq p rb
  rw [hs]
  exact ⟨⟨h.end_eq, h.read, h.write⟩, h.full_iff⟩

@[simp] theorem signal_queued : (rb.signal p).queued p = rb.queued p := by
  obtain ⟨n, c, hs⟩ := signal_eq p rb
  rw [hs]
  rfl

/-! ### Copying to the user -/

/-- A copy that does not fault returns the bytes of its segments. -/
theorem copyOut_segments : rb.copyOut w r ⟨true, true⟩ =
    .ok ((rb.segments w r).map fun seg => rb.mem.read seg.1 seg.2).flatten := by
  unfold copyOut segments
  split
  · simp
  · split <;> simp

theorem copyOut_cases (rb : RingBuf) (w r : Nat) (copy : Copy) : rb.copyOut w r copy = rb.copyOut w r ⟨true, true⟩ ∨
    rb.copyOut w r copy = .error .efault := by
  unfold copyOut
  rcases copy with ⟨first, second⟩
  split
  · cases first <;> cases second <;> simp
  · split
    · cases first <;> simp
    · simp

/-- Every byte of the segments between two record boundaries belongs to a record between them. -/
theorem segments_cover (he : rb.end_ = rb.start + p.printkBufSize) (hr : rb.Boundary r) (hw : rb.Boundary w)
    {seg : Nat × Nat} (hseg : seg ∈ rb.segments w r) {x : Nat} (hx : seg.1 ≤ x) (hx' : x < seg.1 + seg.2) :
    ∃ k, k < rb.span p r w ∧ rb.slotAddr ((rb.slot r + k) % p.printkBufEntries) ≤ x ∧
      x < rb.slotAddr ((rb.slot r + k) % p.printkBufEntries) + dsplogEntrySize := by
  have hr' := hr.slot_lt he
  have hw' := hw.slot_lt he
  have hra := hr.addr
  have hwa := hw.addr
  have hsize : p.printkBufSize = 32 * p.printkBufEntries := rfl
  unfold segments at hseg
  simp only [slotAddr, dsplogEntrySize_eq, span, distance] at *
  split at hseg
  · rcases List.mem_cons.mp hseg with rfl | hseg
    · refine ⟨(x - rb.start) / 32 - rb.slot r, ?_, ?_⟩
      · split <;> simp only at hx' <;> omega
      · simp only at hx hx'
        rw [Nat.mod_eq_of_lt (by omega)]
        omega
    · rw [List.mem_singleton.mp hseg] at hx hx'
      simp only at hx hx'
      refine ⟨p.printkBufEntries - rb.slot r + (x - rb.start) / 32, ?_, ?_⟩
      · split <;> omega
      · rw [show rb.slot r + (p.printkBufEntries - rb.slot r + (x - rb.start) / 32) =
          (x - rb.start) / 32 + p.printkBufEntries by omega, Nat.add_mod_right, Nat.mod_eq_of_lt (by omega)]
        omega
  · split at hseg
    · rw [List.mem_singleton.mp hseg] at hx hx'
      simp only at hx hx'
      refine ⟨(x - rb.start) / 32 - rb.slot r, ?_, ?_⟩
      · split <;> omega
      · rw [Nat.mod_eq_of_lt (by omega)]
        omega
    · cases hseg

/-- The segments between two record boundaries hold the records between them. -/
theorem segments_between (he : rb.end_ = rb.start + p.printkBufSize) (hr : rb.Boundary r) (hw : rb.Boundary w) :
    ((rb.segments w r).map fun seg => rb.mem.read seg.1 seg.2).flatten = (rb.between p r w).flatten := by
  have hr' := hr.slot_lt he
  have hw' := hw.slot_lt he
  have hra := hr.addr
  have hwa := hw.addr
  have hseg : ∀ {i n : Nat}, i + n ≤ p.printkBufEntries →
      rb.mem.read (rb.slotAddr i) (dsplogEntrySize * n) = (slice rb.entry p.printkBufEntries i n).flatten := by
    intro i n hn
    rw [read_records, slice_of_le hn]
    simp only [entry, slotAddr, Nat.mul_add, Nat.add_assoc]
  unfold segments between span
  split
  · rename_i hlt
    rw [hra, hwa, slotAddr_lt] at hlt
    have hdist : distance p.printkBufEntries (rb.slot r) (rb.slot w) =
        (p.printkBufEntries - rb.slot r) + rb.slot w := by
      unfold distance
      split <;> omega
    rw [hdist, slice_of_ge hr' (by omega), Nat.add_sub_cancel_left, List.flatten_append, ← hseg (by omega),
      ← hseg (by omega)]
    have h1 : rb.end_ - r = dsplogEntrySize * (p.printkBufEntries - rb.slot r) := by
      simp only [he, Platform.printkBufSize, slotAddr, dsplogEntrySize_eq] at *
      omega
    have h2 : w - rb.start = dsplogEntrySize * rb.slot w := by
      simp only [slotAddr, dsplogEntrySize_eq] at *
      omega
    have h3 : rb.slotAddr 0 = rb.start := by simp [slotAddr]
    rw [← hra, h3, ← h1, ← h2]
    simp
  · split
    · rename_i hlt
      rw [hra, hwa, slotAddr_lt] at hlt
      have hdist : distance p.printkBufEntries (rb.slot r) (rb.slot w) = rb.slot w - rb.slot r := by
        unfold distance
        split <;> omega
      rw [hdist, ← hseg (by omega), ← hra]
      have h1 : w - r = dsplogEntrySize * (rb.slot w - rb.slot r) := by
        simp only [slotAddr, dsplogEntrySize_eq] at *
        omega
      rw [← h1]
      simp
    · have hrw : r = w := by omega
      subst hrw
      simp

/-- The records up to the write pointer are those up to a pointer on the way and those behind it. -/
theorem between_append (he : rb.end_ = rb.start + p.printkBufSize) (hr : rb.Boundary r) (hw : rb.Boundary w)
    (hp : rb.Boundary ptr) (hle : rb.span p r ptr ≤ rb.span p r w) :
    rb.between p r w = rb.between p r ptr ++ rb.between p ptr w ∧ rb.span p r w = rb.span p r ptr + rb.span p ptr w := by
  have hr' := hr.slot_lt he
  have hw' := hw.slot_lt he
  have hp' := hp.slot_lt he
  have hmod : (rb.slot r + rb.span p r ptr) % p.printkBufEntries = rb.slot ptr := add_distance_mod hr' hp'
  have hsplit := distance_split hr' hw' hle
  rw [hmod] at hsplit
  have hsum : rb.span p r w = rb.span p r ptr + rb.span p ptr w := by
    simp only [span] at *
    omega
  refine ⟨?_, hsum⟩
  unfold between
  rw [hsum, slice_add, hmod]

theorem flatten_queued_length : (rb.queued p).flatten.length = dsplogEntrySize * rb.count p := by
  have hall : ∀ n ∈ (rb.queued p).map List.length, n = dsplogEntrySize := by
    intro n hn
    obtain ⟨x, hx, rfl⟩ := List.mem_map.mp hn
    obtain ⟨k, -, rfl⟩ := List.mem_map.mp hx
    exact Mem.read_length
  rw [List.length_flatten, List.eq_replicate_iff.mpr ⟨rfl, hall⟩, List.sum_replicate_nat, List.length_map,
    Layout.queued_length, Nat.mul_comm]

end RingBuf

/-- The instance after a read has taken all records. -/
def CapInfo.emptied (c : CapInfo) : CapInfo :=
  { c with
    ringbuf := (c.ringbuf.commit c.ringbuf.writePtr).clearFull
    dsplogReadFinish := c.dsplogReadFinish || !c.dsplogState }

/-- The second part of a read whose copies succeed returns all records and leaves none. -/
theorem CapInfo.readOut_all {p : Platform} {c : CapInfo} (h : c.ringbuf.Layout p) :
    c.readOut ⟨true, true⟩ = (c.emptied, .ok (c.ringbuf.queued p).flatten) := by
  have hcopy : c.ringbuf.copyOut c.ringbuf.writePtr c.ringbuf.readPtr ⟨true, true⟩ =
      .ok (c.ringbuf.queued p).flatten := by
    rw [RingBuf.copyOut_segments, RingBuf.segments_between h.end_eq h.read h.write]
    rfl
  simp only [readOut, hcopy, emptied]

theorem CapInfo.readOut_cases {p : Platform} {c : CapInfo} (h : c.ringbuf.Layout p) (copy : Copy) :
    c.readOut copy = (c.emptied, .ok (c.ringbuf.queued p).flatten) ∨ c.readOut copy = (c, .error .efault) := by
  rcases c.ringbuf.copyOut_cases c.ringbuf.writePtr c.ringbuf.readPtr copy with hc | hc
  · left
    rw [← readOut_all h]
    simp only [readOut, hc]
  · right
    simp only [readOut, hc]

end Dsplog
