import Dsplog.Theorems.Capture
import Dsplog.Theorems.Delivery
import Dsplog.Theorems.Overlap

/-! The whole way of a record: the DSP writes it into the window, the timer hands it to the ring, and a read that may
    overlap the timer returns it. The DSP is restarted on the way, by a reset after a hang or by a suspend with its
    resume, and then numbers its records anew from the start of a cleared window. Its numbers are consecutive and below
    0xFFFFFFFF, a record with number 0 has a format, and the window holds whole records (`Numbered`, `Fresh`): behind the
    wrap of the numbers, or with a last slot that is cut off, records may come twice. -/

namespace Dsplog
open Bytes Cyclic Machines

/-- A capture over restarts of the DSP: what has happened since the last one, the number from which the DSP counts
    since then, and what was written and what was handed over before. -/
structure Pipeline where
  live : Capture
  first : Nat
  past : List IdspPrintf
  pastHanded : List (List UInt8)

inductive PipelineEvent where
  | live (e : CaptureEvent)
  | reset (first : Nat)
  | suspend
  | resume (first : Nat)
  deriving DecidableEq, Repr

namespace Capture

/-- The capture without the mark of a suspended instance. -/
def woken (s : Capture) : Capture := { s with cap := { s.cap with dspSuspended := false } }

end Capture

namespace Pipeline

/-- The DSP starts again with a cleared window. -/
def restart (s : Pipeline) (cap : CapInfo) (mem : Mem) (first : Nat) : Pipeline where
  live := { s.live with cap := cap, mem := mem, written := [], handed := [] }
  first := first
  past := s.past ++ s.live.written
  pastHanded := s.pastHanded ++ s.live.handed

/-- One step. A suspended DSP writes nothing. Suspend and resume give an instance the whole log region, so they take
    place here only when that is its window, as it is on a platform with one core. -/
def step (p : Platform) (N : Nat) (s : Pipeline) : PipelineEvent → Option Pipeline
  | .live (.dspWrite r) =>
    if s.live.cap.dspSuspended then none
    else (s.live.step p N s.first (.dspWrite r)).map fun live => { s with live := live }
  | .live e => (s.live.step p N s.first e).map fun live => { s with live := live }
  | .reset first =>
    some (s.restart s.live.cap.reset (clearLog s.live.mem s.live.cap.dsppfBase s.live.cap.dsplogBufSize) first)
  | .suspend =>
    if s.live.cap.dsppfBase = p.logBase ∧ s.live.cap.dsplogBufSize = p.logSize then
      some (s.restart (s.live.cap.suspend p) (clearLog s.live.mem p.logBase p.logSize) s.first)
    else none
  | .resume first =>
    if s.live.cap.dspSuspended then
      some { s with live := { s.live with cap := s.live.cap.resume p }, first := first }
    else none

/-- A fresh instance in a mapped window, just started. -/
structure Initial (p : Platform) (N : Nat) (s : Pipeline) : Prop where
  fresh : Fresh N s.live.cap s.live.mem
  mapped : s.live.cap.dsppfBase ≠ 0
  ring : ∃ rb : RingBuf, rb.Layout p ∧ s.live.cap.ringbuf = rb.restart
  phase : s.live.phase = .idle
  written : s.live.written = []
  handed : s.live.handed = []
  returned : s.live.returned = []
  past : s.past = []
  pastHanded : s.pastHanded = []

end Pipeline

def pipeline (p : Platform) (N : Nat) : Machine Pipeline PipelineEvent where
  Init := Pipeline.Initial p N
  step := Pipeline.step p N

/-! ### What a visit hands over -/

theorem IdspPrintf.exists_bytes {record : List UInt8} (h : record.length = dsplogEntrySize) :
    ∃ r : IdspPrintf, r.bytes = record := by
  refine ⟨load (Mem.write (fun _ => 0) 0 record) 0, ?_⟩
  rw [bytes_load, ← h]
  exact Mem.read_write_self

theorem IdspPrintf.length_flatten_bytes (l : List IdspPrintf) :
    (l.map IdspPrintf.bytes).flatten.length = dsplogEntrySize * l.length := by
  induction l with
  | nil => rfl
  | cons r l ih => rw [List.map_cons, List.flatten_cons, List.length_append, ih, r.bytes_length, List.length_cons,
      Nat.mul_succ, Nat.add_comm]

theorem CapInfo.visit_hands (c : CapInfo) (p : Platform) (m : Mem) :
    (c.visit p m).handed = none ∧ (c.visit p m).cap.ringbuf = c.ringbuf ∨
      ∃ r : IdspPrintf, (c.visit p m).handed = some r.bytes ∧
        (c.visit p m).cap.ringbuf = c.ringbuf.dspLogAddToRingBuffer p r.bytes := by
  rcases c.visit_ring p m with h | ⟨record, hrec, hhanded, hring⟩
  · exact Or.inl h
  · obtain ⟨r, rfl⟩ := IdspPrintf.exists_bytes hrec
    exact Or.inr ⟨r, hhanded, hring⟩

namespace Capture
variable {p : Platform} {N s0 e : Nat} {s t : Capture}

theorem Follows.log (h : Follows N s0 s e) : Log N s0 s.mem s.written s.cap := by
  refine ⟨h.two_le, h.size, h.awake, h.window, fun j r hj => ?_⟩
  obtain ⟨hnum, hbound, -⟩ := h.numbered j r hj
  omega

/-- No record has been lost on the way: those handed over are all up to the last one, and the others are still in the
    window. -/
structure Gapless (N s0 : Nat) (s : Capture) : Prop extends Follows N s0 s s.handed.length where
  near : s.written.length ≤ s.handed.length + N
  whole : s.handed = (s.written.take s.handed.length).map IdspPrintf.bytes
  number : s.cap.currSeqNum.toNat = 0 ∧ s.handed.length < N ∨
    0 < s.handed.length ∧ s.cap.currSeqNum.toNat = s0 + s.handed.length - 1

namespace Gapless

theorem init (h : Initial N s) : Gapless N s0 s := by
  obtain ⟨hfresh, hwritten, hhanded⟩ := id h
  have hN := hfresh.two_le
  have hnone : s.handed.length = 0 := by simp [hhanded]
  refine ⟨hnone ▸ Follows.init h, ?_, ?_, Or.inl ⟨?_, ?_⟩⟩
  · simp [hwritten]
  · simp [hhanded]
  · rw [hfresh.seq]
    rfl
  · omega

theorem dspWrite (h : Gapless N s0 s) {r : IdspPrintf} (hr : Numbered s0 s.written.length r)
    (hroom : s.written.length < s.handed.length + N) : Gapless N s0 { s with
      mem := s.mem.write (s.cap.dsppfBase + dsplogEntrySize * (s.written.length % N)) r.bytes
      written := s.written ++ [r] } := by
  refine ⟨h.toFollows.dspWrite hr, ?_, ?_, h.number⟩
  · show (s.written ++ [r]).length ≤ s.handed.length + N
    rw [List.length_append, List.length_singleton]
    omega
  · show s.handed = ((s.written ++ [r]).take s.handed.length).map IdspPrintf.bytes
    rw [List.take_append_of_le_length h.le]
    exact h.whole

/-- A visit hands over the first record that is still in the window. -/
theorem visit_pending (h : Gapless N s0 s) (hlt : s.handed.length < s.written.length) :
    ∃ r, s.written[s.handed.length]? = some r ∧ (s.cap.visit p s.mem).handed = some r.bytes ∧
      Gapless N s0 { s with cap := (s.cap.visit p s.mem).cap, handed := s.handed ++ [r.bytes] } := by
  obtain ⟨r, hr, hread⟩ := h.log.read_slot hlt h.near
  rw [← h.current] at hread
  obtain ⟨hnum, hbound, hzero⟩ := h.numbered _ r hr
  have hpass : s.cap.Passes r := by
    have hnumber := h.number
    refine ⟨CapInfo.older_eq_false ?_, CapInfo.olderWrapped_eq_false ?_, fun hblank => hzero hblank.1 hblank.2.2⟩
    · omega
    · omega
  obtain ⟨hhanded, rb, hcap⟩ := CapInfo.visit_of_passes (p := p) h.awake (IdspPrintf.load_of_read hread) hpass
  rw [hread] at hhanded
  refine ⟨r, hr, hhanded, ?_⟩
  rw [hcap]
  have hlen : (s.handed ++ [r.bytes]).length = s.handed.length + 1 := by simp
  have hfollows := h.toFollows.hand rb hr rfl (Nat.le_refl _)
  rw [← hlen] at hfollows
  refine ⟨hfollows, ?_, ?_, ?_⟩
  · have hnear := h.near
    show s.written.length ≤ (s.handed ++ [r.bytes]).length + N
    omega
  · show s.handed ++ [r.bytes] = (s.written.take (s.handed ++ [r.bytes]).length).map IdspPrintf.bytes
    rw [hlen, List.take_add_one, hr, List.map_append, ← h.whole]
    rfl
  · refine Or.inr ⟨by simp, ?_⟩
    show r.seqNum.toNat = s0 + (s.handed ++ [r.bytes]).length - 1
    omega

/-- A visit finds nothing once all records are handed over. -/
theorem visit_done (h : Gapless N s0 s) (heq : s.handed.length = s.written.length) :
    (s.cap.visit p s.mem).handed = none ∧ Gapless N s0 { s with cap := (s.cap.visit p s.mem).cap } := by
  have hN := h.two_le
  have hnumber := h.number
  have hN27 := h.N_lt
  obtain ⟨r, hload, -, hslot⟩ := h.window.next_slot (by omega) h.le
  rw [← h.current] at hload
  rcases hslot with ⟨rfl, heN, -⟩ | ⟨j, hj, -, -, ⟨hround, -⟩ | hle⟩
  · -- The next slot was never written: the instance may forget its number, but then in the first round.
    rcases s.cap.visit_cases p s.mem h.awake hload with ⟨-, hhanded, hcap⟩ | ⟨-, hold', -⟩ | ⟨-, -, -, hhanded, hcap⟩ |
      ⟨-, -, hwritten, -⟩
    · rw [hcap]
      exact ⟨hhanded, h⟩
    · exact absurd (CapInfo.olderWrapped_iff.mp hold').2.1 (Nat.not_lt_zero _)
    · rw [hcap]
      exact ⟨hhanded, h.toFollows.reset heN, h.near, h.whole, Or.inl ⟨rfl, heN⟩⟩
    · exact absurd ⟨rfl, h.follow_unwrapped 0, rfl⟩ hwritten
  · obtain ⟨hhanded, hcap⟩ := CapInfo.visit_of_older (p := p) h.awake hload (h.older_of_old hj hround heq)
    rw [hcap]
    exact ⟨hhanded, h⟩
  · have hlt := (List.getElem?_eq_some_iff.mp hj).1
    omega

/-- What is not yet handed over is still in the window. -/
theorem waiting (h : Gapless N s0 s) {j : Nat} {r : IdspPrintf} (hle : s.handed.length ≤ j) (hr : s.written[j]? = some r) :
    s.mem.read (s.cap.dsppfBase + dsplogEntrySize * (j % N)) dsplogEntrySize = r.bytes := by
  have hlt := (List.getElem?_eq_some_iff.mp hr).1
  have hnear := h.near
  obtain ⟨r', hr', hread⟩ := h.log.read_slot hlt (by omega)
  obtain rfl : r' = r := Option.some.inj (hr'.symm.trans hr)
  exact hread

/-- A DSP that laps the instance writes over the first record that is not yet handed over. -/
theorem overwrites (h : Gapless N s0 s) {r : IdspPrintf} (hnum : Numbered s0 s.written.length r)
    (hroom : ¬s.written.length < s.handed.length + N) : ∃ r', s.written[s.handed.length]? = some r' ∧
      (s.mem.write (s.cap.dsppfBase + dsplogEntrySize * (s.written.length % N)) r.bytes).read
        (s.cap.dsppfBase + dsplogEntrySize * (s.handed.length % N)) dsplogEntrySize ≠ r'.bytes := by
  have hnear := h.near
  have hN := h.two_le
  have hround : s.written.length = s.handed.length + N := by omega
  have hold : s.handed.length < s.written.length := by omega
  refine ⟨_, List.getElem?_eq_getElem hold, fun hread => ?_⟩
  rw [hround, Nat.add_mod_right, ← r.bytes_length, Mem.read_write_self] at hread
  obtain ⟨hnum', -⟩ := h.numbered _ _ (List.getElem?_eq_getElem hold)
  rw [← IdspPrintf.bytes_injective hread] at hnum'
  have hnum := hnum.1
  omega

end Gapless
end Capture

namespace Pipeline
variable {p : Platform} {N : Nat} {s t : Pipeline} {e : PipelineEvent} {stored : List (List UInt8)}

/-! ### The ring -/

/-- The ring with its reader, when `stored` is what was stored in it. -/
def ringView (s : Pipeline) (stored : List (List UInt8)) : Overlap :=
  ⟨s.live.cap.ringbuf, s.live.phase, stored, s.live.returned⟩

/-- The state after a visit. -/
def visited (p : Platform) (s : Pipeline) : Pipeline := { s with live := { s.live with
  cap := (s.live.cap.visit p s.live.mem).cap
  handed := s.live.handed ++ (s.live.cap.visit p s.live.mem).handed.toList } }

theorem ring_visit (h : Overlap.Inv p (s.ringView stored)) :
    (s.live.cap.visit p s.live.mem).handed = none ∧ Overlap.Inv p ((s.visited p).ringView stored) ∨
      ∃ r : IdspPrintf, (s.live.cap.visit p s.live.mem).handed = some r.bytes ∧
        Overlap.Inv p ((s.visited p).ringView (if s.live.cap.ringbuf.full then stored else stored ++ [r.bytes])) := by
  unfold ringView visited
  rcases s.live.cap.visit_hands p s.live.mem with ⟨hnone, hring⟩ | ⟨r, hsome, hring⟩ <;> simp only [hring]
  · exact Or.inl ⟨hnone, h⟩
  · exact Or.inr ⟨r, hsome, h.push r⟩

/-! ### Restarts -/

/-- The window of the instance is mapped, and while the DSP is suspended the instance waits at the start of a cleared
    window. -/
structure Mapped (p : Platform) (N : Nat) (s : Pipeline) : Prop where
  mapped : s.live.cap.dsppfBase ≠ 0
  parked : s.live.cap.dspSuspended = true → Fresh N s.live.woken.cap s.live.mem ∧ s.live.written = [] ∧
    s.live.handed = [] ∧ s.live.cap.dsppfBase = p.logBase ∧ s.live.cap.dsplogBufSize = p.logSize

theorem fresh_reset {c : CapInfo} {m : Mem} (hN : 2 ≤ N) (hsize : c.dsplogBufSize.toNat = dsplogEntrySize * N)
    (hbase : c.dsppfBase ≠ 0) :
    Fresh N { c.reset with dspSuspended := false } (clearLog m c.dsppfBase c.dsplogBufSize) := by
  have hfresh := Capture.fresh_reset (c := { c with dspSuspended := false }) (m := m) hN hsize hbase rfl
  exact hfresh

theorem fresh_suspend {c : CapInfo} {m : Mem} (hN : 2 ≤ N) (hsize : p.logSize.toNat = dsplogEntrySize * N)
    (hbase : p.logBase ≠ 0) : Fresh N { c.suspend p with dspSuspended := false } (clearLog m p.logBase p.logSize) := by
  refine ⟨hN, hsize, fun x hx hx' => ?_, rfl, rfl, rfl, rfl⟩
  rw [clearLog, if_neg hbase, hsize]
  exact Mem.clear_of_mem hx hx'

theorem resume_eq {c : CapInfo} (hbase : c.dsppfBase = p.logBase) (hsize : c.dsplogBufSize = p.logSize) :
    c.resume p = { c with dspSuspended := false } := by
  rw [CapInfo.resume, ← hbase, ← hsize]

theorem woken_of_awake {c : Capture} (h : c.cap.dspSuspended = false) : c.woken = c := by
  obtain ⟨cap, mem, phase, written, handed, returned⟩ := c
  cases cap
  cases h
  rfl

/-- The state after a step of a read. -/
def afterRead (s : Pipeline) (ring : RingBuf) (phase : ReadPhase) (out : List UInt8) : Pipeline := { s with live := { s.live with
  cap := { s.live.cap with ringbuf := ring }
  phase := phase
  returned := s.live.returned ++ out } }

/-- The state after the DSP has written a record. -/
def dspWritten (N : Nat) (s : Pipeline) (r : IdspPrintf) : Pipeline := { s with live := { s.live with
  mem := s.live.mem.write (s.live.cap.dsppfBase + dsplogEntrySize * (s.live.written.length % N)) r.bytes
  written := s.live.written ++ [r] } }

def resetDone (s : Pipeline) (first : Nat) : Pipeline :=
  s.restart s.live.cap.reset (clearLog s.live.mem s.live.cap.dsppfBase s.live.cap.dsplogBufSize) first

def suspended (p : Platform) (s : Pipeline) : Pipeline :=
  s.restart (s.live.cap.suspend p) (clearLog s.live.mem p.logBase p.logSize) s.first

def resumed (p : Platform) (s : Pipeline) (first : Nat) : Pipeline :=
  { s with live := { s.live with cap := s.live.cap.resume p }, first := first }

theorem step_cases (hs : s.step p N e = some t) :
    (∃ r, e = .live (.dspWrite r) ∧ s.live.cap.dspSuspended = false ∧ Numbered s.first s.live.written.length r ∧
      t = s.dspWritten N r) ∨
    (e = .live .visit ∧ t = s.visited p) ∨
    (∃ ev ring phase out, e = .live (.read ev) ∧ s.live.cap.ringbuf.readStep s.live.phase ev = some (ring, phase, out) ∧
      t = s.afterRead ring phase out) ∨
    (∃ first, e = .reset first ∧ t = s.resetDone first) ∨
    (e = .suspend ∧ s.live.cap.dsppfBase = p.logBase ∧ s.live.cap.dsplogBufSize = p.logSize ∧ t = s.suspended p) ∨
    ∃ first, e = .resume first ∧ s.live.cap.dspSuspended = true ∧ t = s.resumed p first := by
  cases e with
  | live ev =>
    cases ev with
    | dspWrite r =>
      simp only [step, Capture.step] at hs
      split at hs
      · cases hs
      · rename_i hawake
        split at hs <;> cases hs
        rename_i hnum
        exact Or.inl ⟨r, rfl, eq_false_of_ne_true hawake, hnum, rfl⟩
    | visit =>
      cases hs
      exact Or.inr (Or.inl ⟨rfl, rfl⟩)
    | read ev =>
      simp only [step, Capture.step, Option.map_map] at hs
      obtain ⟨⟨ring, phase, out⟩, hread, rfl⟩ := Option.map_eq_some_iff.mp hs
      exact Or.inr (Or.inr (Or.inl ⟨ev, ring, phase, out, rfl, hread, rfl⟩))
  | reset first =>
    cases hs
    exact Or.inr (Or.inr (Or.inr (Or.inl ⟨first, rfl, rfl⟩)))
  | suspend =>
    simp only [step] at hs
    split at hs <;> cases hs
    rename_i hregion
    exact Or.inr (Or.inr (Or.inr (Or.inr (Or.inl ⟨rfl, hregion.1, hregion.2, rfl⟩))))
  | resume first =>
    simp only [step] at hs
    split at hs <;> cases hs
    rename_i hsuspended
    exact Or.inr (Or.inr (Or.inr (Or.inr (Or.inr ⟨first, rfl, hsuspended, rfl⟩))))

/-- A window of at least two whole slots. -/
structure Slots (N : Nat) (s : Pipeline) : Prop where
  two_le : 2 ≤ N
  size : s.live.cap.dsplogBufSize.toNat = dsplogEntrySize * N

/-- What every step keeps, and that the instance is fresh after a restart. -/
theorem Mapped.step (h : Mapped p N s) (hslots : Slots N s) (hs : s.step p N e = some t) : Mapped p N t := by
  rcases step_cases hs with ⟨r, -, hawake, -, rfl⟩ | ⟨-, rfl⟩ | ⟨ev, ring, phase, out, -, -, rfl⟩ | ⟨first, -, rfl⟩ |
    ⟨-, hbase, hsize, rfl⟩ | ⟨first, -, hsuspended, rfl⟩
  · exact ⟨h.mapped, fun hsuspended => absurd (hawake.symm.trans hsuspended) Bool.false_ne_true⟩
  · have hplace : (s.live.cap.visit p s.live.mem).cap.place = s.live.cap.place := by
      have hframe := congrArg CapInfo.place (CapInfo.frame_visit (p := p) (m := s.live.mem) (c := s.live.cap))
      exact hframe
    have hbase : (s.live.cap.visit p s.live.mem).cap.dsppfBase = s.live.cap.dsppfBase := congrArg Place.base hplace
    refine ⟨?_, fun hsuspended => ?_⟩
    · rw [visited, hbase]
      exact h.mapped
    · have hsuspended : s.live.cap.dspSuspended = true := (congrArg Place.suspended hplace).symm.trans hsuspended
      obtain ⟨hnone, hsame⟩ := CapInfo.visit_of_suspended (p := p) (m := s.live.mem) hsuspended
      simp only [visited, hnone, hsame, Option.toList_none, List.append_nil]
      exact h.parked hsuspended
  · refine ⟨h.mapped, fun hsuspended => ?_⟩
    obtain ⟨hfresh, hrest⟩ := h.parked hsuspended
    exact ⟨⟨hfresh.two_le, hfresh.size, hfresh.zero, hfresh.current, hfresh.seq, hfresh.unwrapped, rfl⟩, hrest⟩
  · refine ⟨h.mapped, fun hsuspended => ?_⟩
    obtain ⟨-, -, -, hbase, hsize⟩ := h.parked hsuspended
    exact ⟨fresh_reset hslots.two_le hslots.size h.mapped, rfl, rfl, hbase, hsize⟩
  · have hmapped : p.logBase ≠ 0 := hbase ▸ h.mapped
    exact ⟨hmapped, fun _ => ⟨fresh_suspend hslots.two_le (hsize ▸ hslots.size) hmapped, rfl, rfl, rfl, rfl⟩⟩
  · obtain ⟨-, -, -, hbase, -⟩ := h.parked hsuspended
    refine ⟨?_, fun h => by cases h⟩
    show p.logBase ≠ 0
    exact hbase ▸ h.mapped

theorem Slots.of_follows {first e : Nat} (h : Capture.Follows N first s.live.woken e) : Slots N s := ⟨h.two_le, h.size⟩

/-! ### The order of the records -/

/-- A read clears the full flag only while its ring is not full. -/
def ClearsSafely (s : Pipeline) (e : PipelineEvent) : Prop := e = .live (.read .clear) → s.live.cap.ringbuf.slow = false

instance : ∀ (s : Pipeline) (e : PipelineEvent), Decidable (ClearsSafely s e) :=
  fun s e => inferInstanceAs (Decidable (e = .live (.read .clear) → s.live.cap.ringbuf.slow = false))

/-- Whatever is lost on the way, the rest stays in order. -/
structure Ordered (p : Platform) (N : Nat) (s : Pipeline) : Prop extends Mapped p N s where
  follows : ∃ e, Capture.Follows N s.first s.live.woken e
  earlier : ∃ l : List IdspPrintf, l.Sublist s.past ∧ s.pastHanded = l.map IdspPrintf.bytes
  ring : ∃ stored, stored.Sublist (s.pastHanded ++ s.live.handed) ∧ Overlap.Inv p (s.ringView stored)

namespace Ordered

theorem init (h : Initial p N s) : Ordered p N s := by
  have hawake := h.fresh.awake
  refine ⟨⟨h.mapped, fun hsuspended => absurd (hawake.symm.trans hsuspended) Bool.false_ne_true⟩, ⟨0, ?_⟩, ⟨[], by simp, ?_⟩,
    [], List.nil_sublist _, ?_⟩
  · rw [woken_of_awake hawake]
    exact Capture.Follows.init ⟨h.fresh, h.written, h.handed⟩
  · rw [h.pastHanded]
    rfl
  · exact Overlap.Inv.init ⟨h.ring, h.phase, rfl, h.returned⟩

/-- The records handed over so far, those of earlier starts of the DSP included. -/
theorem handed (h : Ordered p N s) : ∃ l : List IdspPrintf, l.Sublist (s.past ++ s.live.written) ∧
    s.pastHanded ++ s.live.handed = l.map IdspPrintf.bytes := by
  obtain ⟨e, hfollows⟩ := h.follows
  obtain ⟨l, hl, hhanded⟩ := hfollows.handed
  obtain ⟨l', hl', hpast⟩ := h.earlier
  have hhanded : s.live.handed = l.map IdspPrintf.bytes := hhanded
  refine ⟨l' ++ l, hl'.append (hl.trans (List.take_sublist _ _)), ?_⟩
  rw [hpast, hhanded, List.map_append]

/-- A restart puts the records of the last start to the earlier ones. -/
theorem restart (h : Ordered p N s) {cap : CapInfo} {mem : Mem} {first : Nat} (hring : cap.ringbuf = s.live.cap.ringbuf)
    (hfresh : Fresh N { cap with dspSuspended := false } mem) (hmapped : Mapped p N (s.restart cap mem first)) :
    Ordered p N (s.restart cap mem first) := by
  obtain ⟨stored, hstored, hinv⟩ := h.ring
  refine ⟨hmapped, ⟨0, Capture.Follows.init ⟨hfresh, rfl, rfl⟩⟩, h.handed, stored, ?_, ?_⟩
  · rw [Pipeline.restart, List.append_nil]
    exact hstored
  · rw [Pipeline.restart, ringView, hring]
    exact hinv

theorem visit (h : Ordered p N s) (hmapped : Mapped p N (s.visited p)) : Ordered p N (s.visited p) := by
  obtain ⟨stored, hstored, hinv⟩ := h.ring
  obtain ⟨e, hfollows⟩ := h.follows
  have hfollows : ∃ e, Capture.Follows N s.first (s.visited p).live.woken e := by
    cases hsuspended : s.live.cap.dspSuspended with
    | true =>
      obtain ⟨hnone, hsame⟩ := CapInfo.visit_of_suspended (p := p) (m := s.live.mem) hsuspended
      simp only [visited, hnone, hsame, Option.toList_none, List.append_nil]
      exact ⟨e, hfollows⟩
    | false =>
      rw [woken_of_awake hsuspended] at hfollows
      obtain ⟨e', hfollows'⟩ := hfollows.visit (p := p)
      refine ⟨e', ?_⟩
      rw [visited, woken_of_awake hfollows'.awake]
      exact hfollows'
  refine ⟨hmapped, hfollows, h.earlier, ?_⟩
  rcases ring_visit hinv with ⟨hnone, hinv'⟩ | ⟨r, hsome, hinv'⟩
  · refine ⟨stored, ?_, hinv'⟩
    rw [visited, hnone, Option.toList_none, List.append_nil]
    exact hstored
  · refine ⟨_, ?_, hinv'⟩
    rw [visited, hsome, Option.toList_some, ← List.append_assoc]
    split
    · exact hstored.trans (List.sublist_append_left _ _)
    · exact hstored.append (List.Sublist.refl _)

theorem dspWritten (h : Ordered p N s) {r : IdspPrintf} (hnum : Numbered s.first s.live.written.length r)
    (hmapped : Mapped p N (s.dspWritten N r)) : Ordered p N (s.dspWritten N r) := by
  obtain ⟨e, hfollows⟩ := h.follows
  exact ⟨hmapped, ⟨e, hfollows.dspWrite hnum⟩, h.earlier, h.ring⟩

theorem afterRead (h : Ordered p N s) {ev : ReadStep} {ring : RingBuf} {phase : ReadPhase} {out : List UInt8}
    (hclear : ev = .clear → s.live.cap.ringbuf.slow = false)
    (hread : s.live.cap.ringbuf.readStep s.live.phase ev = some (ring, phase, out))
    (hmapped : Mapped p N (s.afterRead ring phase out)) : Ordered p N (s.afterRead ring phase out) := by
  obtain ⟨e, hf⟩ := h.follows
  obtain ⟨stored, hstored, hinv⟩ := h.ring
  refine ⟨hmapped, ⟨e, ?_⟩, h.earlier, stored, hstored, ?_⟩
  · exact ⟨hf.two_le, hf.size, hf.awake, hf.unwrapped, hf.window, hf.numbered, hf.current, hf.le, hf.seq, hf.handed⟩
  · exact hinv.readStep (fun hev => hclear (OverlapEvent.read.inj hev)) hread

theorem resumed (h : Ordered p N s) {first : Nat} (hsuspended : s.live.cap.dspSuspended = true)
    (hmapped : Mapped p N (s.resumed p first)) : Ordered p N (s.resumed p first) := by
  obtain ⟨hfresh, hwritten, hhanded, hbase, hsize⟩ := h.parked hsuspended
  refine ⟨hmapped, ⟨0, ?_⟩, h.earlier, ?_⟩
  · rw [Pipeline.resumed, resume_eq hbase hsize]
    exact Capture.Follows.init ⟨hfresh, hwritten, hhanded⟩
  · obtain ⟨stored, hstored, hinv⟩ := h.ring
    exact ⟨stored, hstored, hinv⟩

theorem step (h : Ordered p N s) (hG : ClearsSafely s e) (hs : s.step p N e = some t) : Ordered p N t := by
  obtain ⟨e₀, hfollows⟩ := h.follows
  have hslots := Slots.of_follows hfollows
  have hmapped := h.toMapped.step hslots hs
  rcases step_cases hs with ⟨r, -, -, hnum, rfl⟩ | ⟨-, rfl⟩ | ⟨ev, ring, phase, out, rfl, hread, rfl⟩ | ⟨first, -, rfl⟩ |
    ⟨-, hbase, hsize, rfl⟩ | ⟨first, -, hsuspended, rfl⟩
  · exact h.dspWritten hnum hmapped
  · exact h.visit hmapped
  · exact h.afterRead (fun hev => hG (hev ▸ rfl)) hread hmapped
  · exact h.restart rfl (fresh_reset hslots.two_le hslots.size h.mapped) hmapped
  · exact h.restart rfl (fresh_suspend hslots.two_le (hsize ▸ hslots.size) (hbase ▸ h.mapped)) hmapped
  · exact h.resumed hsuspended hmapped

end Ordered

/-- However the DSP, the timer and an overlapping read take turns, and however often the DSP is restarted between,
    what reads have returned, and after it what is still on its way to the user, are whole records of the DSP in the
    order in which it wrote them, none twice. The DSP stays below the wrap of its numbers between two restarts. -/
theorem delivered_in_order (h : ((pipeline p N).guard ClearsSafely).Reachable s) :
    ∃ l : List IdspPrintf, l.Sublist (s.past ++ s.live.written) ∧
      s.live.returned ++ s.live.phase.held ++ (s.live.cap.ringbuf.queued p).flatten =
        (l.map IdspPrintf.bytes).flatten := by
  have hordered := h.guarded (I := Ordered p N) (fun _ => Ordered.init) fun _ _ _ hI hG hs => hI.step hG hs
  obtain ⟨l, hl, hhanded⟩ := hordered.handed
  obtain ⟨stored, hstored, hinv⟩ := hordered.ring
  rw [hhanded] at hstored
  obtain ⟨l', hl', rfl⟩ := List.sublist_map_iff.mp hstored
  exact ⟨l', hl'.trans hl, hinv.flow⟩

/-! ### Runs without a loss -/

/-- Outside a read the full flag tells the truth, what was written and not yet handed over is still in the window, and
    all that was handed over has been returned or is on its way, once and in order. -/
structure Lossless (p : Platform) (N : Nat) (s : Pipeline) : Prop where
  truthful : s.live.phase = .idle →
    (s.live.cap.ringbuf.full = true ↔ s.live.cap.ringbuf.count p = p.printkBufEntries - 1)
  waiting : ∀ j r, s.live.handed.length ≤ j → s.live.written[j]? = some r →
    s.live.mem.read (s.live.cap.dsppfBase + dsplogEntrySize * (j % N)) dsplogEntrySize = r.bytes
  flow : s.live.returned ++ s.live.phase.held ++ (s.live.cap.ringbuf.queued p).flatten =
    ((s.past ++ s.live.written.take s.live.handed.length).map IdspPrintf.bytes).flatten

/-- The bytes delivered tell how many records were handed over. -/
theorem Lossless.length_eq (h : Lossless p N s) {l : List IdspPrintf}
    (hflow : s.live.returned ++ s.live.phase.held ++ (s.live.cap.ringbuf.queued p).flatten =
      (l.map IdspPrintf.bytes).flatten) :
    l.length = s.past.length + min s.live.handed.length s.live.written.length := by
  have hlength := congrArg List.length (hflow.symm.trans h.flow)
  rw [IdspPrintf.length_flatten_bytes, IdspPrintf.length_flatten_bytes, List.length_append, List.length_take] at hlength
  exact Nat.eq_of_mul_eq_mul_left (by decide) hlength

/-- The DSP does not lap the instance, the timer finds room for the record that it hands over, a read does not clear
    the flag of a full ring, and the DSP is restarted only when all its records are handed over. -/
def Keeps (N : Nat) (s : Pipeline) : PipelineEvent → Prop
  | .live (.dspWrite _) => s.live.written.length < s.live.handed.length + N
  | .live .visit => s.live.handed.length < s.live.written.length → s.live.cap.ringbuf.full = false
  | .live (.read .clear) => s.live.cap.ringbuf.slow = false
  | .live (.read _) => True
  | .reset _ | .suspend => s.live.handed.length = s.live.written.length
  | .resume _ => True

theorem Keeps.clear {ev : ReadStep} (h : Keeps N s (.live (.read ev))) (hev : ev = .clear) :
    s.live.cap.ringbuf.slow = false := by
  subst hev
  exact h

theorem Keeps.of_ne_clear {ev : ReadStep} (h : ¬Keeps N s (.live (.read ev))) :
    ev = .clear ∧ s.live.cap.ringbuf.slow ≠ false := by
  cases ev with
  | clear => exact ⟨rfl, h⟩
  | snapshot | copySegment | commit => exact absurd trivial h

/-- Nothing is lost: the instance follows without a gap, and all that was handed over was stored. -/
structure Exact (p : Platform) (N : Nat) (s : Pipeline) : Prop extends Mapped p N s where
  gapless : Capture.Gapless N s.first s.live.woken
  past : s.pastHanded = s.past.map IdspPrintf.bytes
  ring : Overlap.Inv p (s.ringView (s.pastHanded ++ s.live.handed))

namespace Exact

theorem init (h : Initial p N s) : Exact p N s := by
  have hawake := h.fresh.awake
  refine ⟨⟨h.mapped, fun hsuspended => absurd (hawake.symm.trans hsuspended) Bool.false_ne_true⟩, ?_, ?_, ?_⟩
  · rw [woken_of_awake hawake]
    exact Capture.Gapless.init ⟨h.fresh, h.written, h.handed⟩
  · rw [h.pastHanded, h.past]
    rfl
  · rw [h.pastHanded, h.handed]
    exact Overlap.Inv.init ⟨h.ring, h.phase, rfl, h.returned⟩

theorem all_handed (h : Exact p N s) : s.pastHanded ++ s.live.handed =
    (s.past ++ s.live.written.take s.live.handed.length).map IdspPrintf.bytes := by
  have hwhole : s.live.handed = (s.live.written.take s.live.handed.length).map IdspPrintf.bytes := h.gapless.whole
  rw [List.map_append, ← h.past, ← hwhole]

theorem handed_le (h : Exact p N s) : s.live.handed.length ≤ s.live.written.length := h.gapless.le

theorem lossless (h : Exact p N s) : Lossless p N s := by
  obtain ⟨htruthful, hflow⟩ := h.ring.intact
  refine ⟨htruthful, fun j r hle hr => h.gapless.waiting hle hr, ?_⟩
  rw [← h.all_handed]
  exact hflow

theorem dspWritten (h : Exact p N s) {r : IdspPrintf} (hnum : Numbered s.first s.live.written.length r)
    (hroom : s.live.written.length < s.live.handed.length + N) (hmapped : Mapped p N (s.dspWritten N r)) :
    Exact p N (s.dspWritten N r) := ⟨hmapped, h.gapless.dspWrite hnum hroom, h.past, h.ring⟩

/-- A record over one that is still waiting. -/
theorem dspWritten_breaks (h : Exact p N s) {r : IdspPrintf} (hnum : Numbered s.first s.live.written.length r)
    (hroom : ¬s.live.written.length < s.live.handed.length + N) : ¬Lossless p N (s.dspWritten N r) := by
  intro hlossless
  obtain ⟨r', hr', hgone⟩ := h.gapless.overwrites hnum hroom
  have hr' : s.live.written[s.live.handed.length]? = some r' := hr'
  have hr'' : (s.dspWritten N r).live.written[s.live.handed.length]? = some r' := by
    show (s.live.written ++ [r])[s.live.handed.length]? = some r'
    rw [List.getElem?_append_left (List.getElem?_eq_some_iff.mp hr').1]
    exact hr'
  exact hgone (hlossless.waiting _ r' (Nat.le_refl _) hr'')

/-- A visit hands over the first record that is still waiting, or there is none. -/
theorem visit_cases (h : Exact p N s) : s.live.handed.length = s.live.written.length ∧
    (s.live.cap.visit p s.live.mem).handed = none ∧ Capture.Gapless N s.first (s.visited p).live.woken ∨
    ∃ r, s.live.written[s.live.handed.length]? = some r ∧ (s.live.cap.visit p s.live.mem).handed = some r.bytes ∧
      Capture.Gapless N s.first (s.visited p).live.woken := by
  have hgapless := h.gapless
  cases hsuspended : s.live.cap.dspSuspended with
  | true =>
    obtain ⟨-, hwritten, hhanded, -⟩ := h.parked hsuspended
    obtain ⟨hnone, hsame⟩ := CapInfo.visit_of_suspended (p := p) (m := s.live.mem) hsuspended
    refine Or.inl ⟨by rw [hwritten, hhanded]; rfl, hnone, ?_⟩
    simp only [visited, hnone, hsame, Option.toList_none, List.append_nil]
    exact hgapless
  | false =>
    rw [woken_of_awake hsuspended] at hgapless
    rcases Nat.lt_or_eq_of_le h.handed_le with hlt | heq
    · obtain ⟨r, hr, hsome, hnext⟩ := hgapless.visit_pending (p := p) hlt
      refine Or.inr ⟨r, hr, hsome, ?_⟩
      simp only [visited, hsome, Option.toList_some]
      rw [woken_of_awake hnext.awake]
      exact hnext
    · obtain ⟨hnone, hnext⟩ := hgapless.visit_done (p := p) heq
      refine Or.inl ⟨heq, hnone, ?_⟩
      simp only [visited, hnone, Option.toList_none, List.append_nil]
      rw [woken_of_awake hnext.awake]
      exact hnext

theorem visit (h : Exact p N s)
    (hG : s.live.handed.length < s.live.written.length → s.live.cap.ringbuf.full = false)
    (hmapped : Mapped p N (s.visited p)) : Exact p N (s.visited p) := by
  have hring := h.ring
  rcases h.visit_cases with ⟨-, hnone, hgapless⟩ | ⟨r, hr, hsome, hgapless⟩
  · rcases ring_visit hring with ⟨-, hinv⟩ | ⟨r, hsome, -⟩
    · refine ⟨hmapped, hgapless, h.past, ?_⟩
      simp only [visited, hnone, Option.toList_none, List.append_nil] at hinv ⊢
      exact hinv
    · rw [hnone] at hsome
      cases hsome
  · rcases ring_visit hring with ⟨hnone, -⟩ | ⟨r', hsome', hinv⟩
    · rw [hsome] at hnone
      cases hnone
    · refine ⟨hmapped, hgapless, h.past, ?_⟩
      have hroom := hG (List.getElem?_eq_some_iff.mp hr).1
      rw [hsome] at hsome'
      simp only [hroom, Bool.false_eq_true, if_false, List.append_assoc] at hinv
      simp only [visited, hsome, Option.toList_some]
      rw [Option.some.inj hsome']
      exact hinv

/-- A full ring drops the record that the timer hands over. -/
theorem visit_breaks (h : Exact p N s) (hlt : s.live.handed.length < s.live.written.length)
    (hfull : s.live.cap.ringbuf.full = true) : ¬Lossless p N (s.visited p) := by
  intro hlossless
  rcases h.visit_cases with ⟨heq, -⟩ | ⟨r, -, hsome, hgapless⟩
  · omega
  · rcases ring_visit h.ring with ⟨hnone, -⟩ | ⟨r', -, hinv⟩
    · rw [hsome] at hnone
      cases hnone
    · rw [hfull, if_pos rfl, h.all_handed] at hinv
      have hlength := hlossless.length_eq hinv.flow
      have hhanded : (s.visited p).live.handed.length = s.live.handed.length + 1 := by simp [visited, hsome]
      have hwritten : (s.visited p).live.written = s.live.written := rfl
      have hpast : (s.visited p).past = s.past := rfl
      rw [hhanded, hwritten, hpast, List.length_append, List.length_take] at hlength
      omega

theorem afterRead (h : Exact p N s) {ev : ReadStep} {ring : RingBuf} {phase : ReadPhase} {out : List UInt8}
    (hclear : ev = .clear → s.live.cap.ringbuf.slow = false)
    (hread : s.live.cap.ringbuf.readStep s.live.phase ev = some (ring, phase, out))
    (hmapped : Mapped p N (s.afterRead ring phase out)) : Exact p N (s.afterRead ring phase out) := by
  have hg := h.gapless
  refine ⟨hmapped, ?_, h.past, h.ring.readStep (fun hev => hclear (OverlapEvent.read.inj hev)) hread⟩
  exact ⟨⟨hg.two_le, hg.size, hg.awake, hg.unwrapped, hg.window, hg.numbered, hg.current, hg.le, hg.seq, hg.handed⟩,
    hg.near, hg.whole, hg.number⟩

theorem afterRead_breaks (h : Exact p N s) {ring : RingBuf} {phase : ReadPhase} {out : List UInt8}
    (hslow : s.live.cap.ringbuf.slow ≠ false)
    (hread : s.live.cap.ringbuf.readStep s.live.phase .clear = some (ring, phase, out)) :
    ¬Lossless p N (s.afterRead ring phase out) := by
  have hbreaks := h.ring.breaks (e := .read .clear) (fun hsafe => hslow (hsafe rfl))
    (Option.map_eq_some_iff.mpr ⟨_, hread, rfl⟩)
  intro hlossless
  refine hbreaks ⟨hlossless.truthful, ?_⟩
  rw [h.all_handed]
  exact hlossless.flow

/-- A restart keeps the records in order when all of them are handed over. -/
theorem restart (h : Exact p N s) {cap : CapInfo} {mem : Mem} {first : Nat} (hring : cap.ringbuf = s.live.cap.ringbuf)
    (hfresh : Fresh N { cap with dspSuspended := false } mem)
    (hall : s.live.handed.length = s.live.written.length) (hmapped : Mapped p N (s.restart cap mem first)) :
    Exact p N (s.restart cap mem first) := by
  have hpast := h.all_handed
  rw [hall, List.take_length] at hpast
  refine ⟨hmapped, Capture.Gapless.init ⟨hfresh, rfl, rfl⟩, hpast, ?_⟩
  have hinv := h.ring
  rw [Pipeline.restart, ringView, hring, List.append_nil]
  exact hinv

/-- Whatever still waits in the window at a restart is lost. -/
theorem restart_breaks (h : Exact p N s) {cap : CapInfo} {mem : Mem} {first : Nat}
    (hring : cap.ringbuf = s.live.cap.ringbuf) (hall : s.live.handed.length ≠ s.live.written.length) :
    ¬Lossless p N (s.restart cap mem first) := by
  intro hlossless
  have hflow := h.ring.flow
  rw [h.all_handed] at hflow
  have hflow' : (s.restart cap mem first).live.returned ++ (s.restart cap mem first).live.phase.held ++
      ((s.restart cap mem first).live.cap.ringbuf.queued p).flatten =
        ((s.past ++ s.live.written.take s.live.handed.length).map IdspPrintf.bytes).flatten := by
    show s.live.returned ++ s.live.phase.held ++ (cap.ringbuf.queued p).flatten = _
    rw [hring]
    exact hflow
  have hlength := hlossless.length_eq hflow'
  have hle := h.handed_le
  simp only [Pipeline.restart, List.length_append, List.length_take, List.length_nil] at hlength
  omega

theorem resumed (h : Exact p N s) {first : Nat} (hsuspended : s.live.cap.dspSuspended = true)
    (hmapped : Mapped p N (s.resumed p first)) : Exact p N (s.resumed p first) := by
  obtain ⟨hfresh, hwritten, hhanded, hbase, hsize⟩ := h.parked hsuspended
  refine ⟨hmapped, ?_, h.past, h.ring⟩
  rw [Pipeline.resumed, resume_eq hbase hsize]
  exact Capture.Gapless.init ⟨hfresh, hwritten, hhanded⟩

theorem step (h : Exact p N s) (hG : Keeps N s e) (hs : s.step p N e = some t) : Exact p N t := by
  have hslots := Slots.of_follows h.gapless.toFollows
  have hmapped := h.toMapped.step hslots hs
  rcases step_cases hs with ⟨r, rfl, -, hnum, rfl⟩ | ⟨rfl, rfl⟩ | ⟨ev, ring, phase, out, rfl, hread, rfl⟩ |
    ⟨first, rfl, rfl⟩ | ⟨rfl, hbase, hsize, rfl⟩ | ⟨first, -, hsuspended, rfl⟩
  · exact h.dspWritten hnum hG hmapped
  · exact h.visit hG hmapped
  · exact h.afterRead hG.clear hread hmapped
  · exact h.restart rfl (fresh_reset hslots.two_le hslots.size h.mapped) hG hmapped
  · exact h.restart rfl (fresh_suspend hslots.two_le (hsize ▸ hslots.size) (hbase ▸ h.mapped)) hG hmapped
  · exact h.resumed hsuspended hmapped

theorem breaks (h : Exact p N s) (hG : ¬Keeps N s e) (hs : s.step p N e = some t) : ¬Lossless p N t := by
  rcases step_cases hs with ⟨r, rfl, -, hnum, rfl⟩ | ⟨rfl, rfl⟩ | ⟨ev, ring, phase, out, rfl, hread, rfl⟩ |
    ⟨first, rfl, rfl⟩ | ⟨rfl, -, -, rfl⟩ | ⟨first, rfl, -, rfl⟩
  · exact h.dspWritten_breaks hnum hG
  · obtain ⟨hlt, hfull⟩ := Classical.not_imp.mp hG
    exact h.visit_breaks hlt (eq_true_of_ne_false hfull)
  · obtain ⟨rfl, hslow⟩ := Keeps.of_ne_clear hG
    exact h.afterRead_breaks hslow hread
  · exact h.restart_breaks rfl hG
  · exact h.restart_breaks rfl hG
  · exact absurd trivial hG

end Exact

/-- A run of the DSP with its restarts, the timer and an overlapping read loses nothing on the way exactly when each of
    its steps leaves room for what it does. As before the DSP stays below the wrap of its numbers. -/
theorem lossless_iff_keeps {es : List PipelineEvent} (hs : Initial p N s) (h : (pipeline p N).exec s es = some t) :
    (∀ x ∈ (pipeline p N).visited s es, Lossless p N x) ↔ ∀ x ∈ (pipeline p N).trace s es, Keeps N x.1 x.2 :=
  Machine.forall_iff_guarded (fun _ _ _ hI hG hst => hI.step hG hst) (fun _ hI => hI.lossless)
    (fun _ _ _ hI hG hst => hI.breaks hG hst) (Exact.init hs) h

/-! ### A run -/

/-- A capture with the driver's own sizes; the window is the whole log region. -/
def oneCorePipeline : Pipeline :=
  ⟨⟨(CapInfo.new .oneCore 0 0 0 0).start, fun _ => 0, .idle, [], [], []⟩, 1, [], []⟩

theorem oneCorePipeline_initial : Initial .oneCore 262144 oneCorePipeline where
  fresh := Capture.fresh_start (by decide) (by decide) fun _ _ _ => rfl
  mapped := by decide
  ring := ⟨_, RingBuf.init_layout, rfl⟩
  phase := rfl
  written := rfl
  handed := rfl
  returned := rfl
  past := rfl
  pastHanded := rfl

/-- The timer hands over a record while a read copies the one before it. The DSP is suspended and counts from zero after
    the resume, and its first record then reaches the ring behind the one that is unread. -/
def resumedRun : List PipelineEvent :=
  [.live (.dspWrite ⟨1, 0, 9, 0, 0, 0, 0, 0⟩), .live (.dspWrite ⟨2, 0, 9, 0, 0, 0, 0, 0⟩), .live .visit,
    .live (.read .snapshot), .live .visit, .live (.read (.copySegment true)), .live (.read .commit), .live (.read .clear),
    .suspend, .live .visit, .resume 0, .live (.dspWrite ⟨0, 0, 9, 0, 0, 0, 0, 0⟩), .live .visit]

theorem exec_resumedRun : ∃ s : Pipeline,
    ((pipeline .oneCore 262144).guard ClearsSafely).exec oneCorePipeline resumedRun = some s ∧ s.live.returned.length = 32 ∧ (s.live.cap.ringbuf.queued .oneCore).length = 2 ∧ s.past.length = 2 := by
  have h : (((pipeline .oneCore 262144).guard ClearsSafely).exec oneCorePipeline resumedRun).any (fun s => decide
      (s.live.returned.length = 32 ∧ (s.live.cap.ringbuf.queued .oneCore).length = 2 ∧ s.past.length = 2)) = true := by
    decide +kernel
  obtain ⟨s, hs, hfacts⟩ := (Option.any_eq_true _ _).mp h
  exact ⟨s, hs, of_decide_eq_true hfacts⟩

theorem delivered_in_order_resumedRun : ∃ s : Pipeline, s.live.returned.length = 32 ∧
    (s.live.cap.ringbuf.queued .oneCore).length = 2 ∧ s.past.length = 2 ∧
    ∃ l : List IdspPrintf, l.Sublist (s.past ++ s.live.written) ∧
      s.live.returned ++ s.live.phase.held ++ (s.live.cap.ringbuf.queued .oneCore).flatten =
        (l.map IdspPrintf.bytes).flatten := by
  obtain ⟨s, hexec, hreturned, hunread, hpast⟩ := exec_resumedRun
  exact ⟨s, hreturned, hunread, hpast, delivered_in_order (.exec (.init oneCorePipeline_initial) hexec)⟩

theorem lossless_iff_keeps_resumedRun : ∃ t, (pipeline .oneCore 262144).exec oneCorePipeline resumedRun = some t ∧
    ((∀ x ∈ (pipeline .oneCore 262144).visited oneCorePipeline resumedRun, Lossless .oneCore 262144 x) ↔
      ∀ x ∈ (pipeline .oneCore 262144).trace oneCorePipeline resumedRun, Keeps 262144 x.1 x.2) := by
  have h : ((pipeline .oneCore 262144).exec oneCorePipeline resumedRun).isSome = true := by decide +kernel
  obtain ⟨t, ht⟩ := Option.isSome_iff_exists.mp h
  exact ⟨t, ht, lossless_iff_keeps oneCorePipeline_initial ht⟩

end Pipeline
end Dsplog
