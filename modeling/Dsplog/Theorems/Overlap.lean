import Dsplog.Lib.Run
import Dsplog.Theorems.Queue

/-! A ring read that overlaps the timer. The read saves the pointers, copies its segments, sets `read_ptr`
    and clears the full flag in separate steps, and records may be pushed between any two of them. -/

namespace Dsplog
open Bytes Cyclic Machines

/-- A ring with its reader, the records that the timer has copied into the ring, and the bytes that
    successful reads have returned. -/
structure Overlap where
  ring : RingBuf
  phase : ReadPhase
  pushed : List (List UInt8)
  returned : List UInt8

inductive OverlapEvent where
  | push (r : IdspPrintf)
  | read (e : ReadStep)
  deriving DecidableEq, Repr

namespace Overlap

def step (p : Platform) (s : Overlap) : OverlapEvent → Option Overlap
  | .push r => some { s with
      ring := s.ring.dspLogAddToRingBuffer p r.bytes
      pushed := if s.ring.full then s.pushed else s.pushed ++ [r.bytes] }
  | .read e => (s.ring.readStep s.phase e).map fun (ring, phase, out) =>
      { s with ring := ring, phase := phase, returned := s.returned ++ out }

def Initial (p : Platform) (s : Overlap) : Prop :=
  (∃ rb : RingBuf, rb.Layout p ∧ s.ring = rb.restart) ∧ s.phase = .idle ∧ s.pushed = [] ∧ s.returned = []

end Overlap

def overlap (p : Platform) : Machine Overlap OverlapEvent where
  Init := Overlap.Initial p
  step := Overlap.step p

namespace Overlap
variable {p : Platform} {s t : Overlap}

/-! ### Reads without a push in between -/

theorem exec_copySegments (s : Overlap) (w : Nat) (todo : List (Nat × Nat)) (out : List UInt8)
    (es : List OverlapEvent) :
    (overlap p).exec { s with phase := .copying w todo out }
        (List.replicate todo.length (.read (.copySegment true)) ++ es) =
      (overlap p).exec
        { s with phase := .copying w [] (out ++ (todo.map fun seg => s.ring.mem.read seg.1 seg.2).flatten) } es := by
  induction todo generalizing out with
  | nil => simp
  | cons seg todo ih =>
    have ih := ih (out ++ s.ring.mem.read seg.1 seg.2)
    simp only [List.length_cons, List.replicate_succ, List.cons_append, List.map_cons, List.flatten_cons,
      ← List.append_assoc, Machine.exec, overlap, step, RingBuf.readStep, Option.map_some, Option.bind_some,
      List.append_nil] at ih ⊢
    exact ih

/-- The steps of a read, taken without a push in between, do what the code of a read does. -/
theorem exec_readOut (s : Overlap) (hidle : s.phase = .idle) (c : CapInfo) (hc : c.ringbuf = s.ring) : ∃ bs,
    (c.readOut ⟨true, true⟩).2 = .ok bs ∧
      (overlap p).exec s (.read .snapshot :: List.replicate (s.ring.segments s.ring.writePtr s.ring.readPtr).length
        (.read (.copySegment true)) ++ [.read .commit, .read .clear]) =
      some { s with ring := (c.readOut ⟨true, true⟩).1.ringbuf, returned := s.returned ++ bs } := by
  refine ⟨((s.ring.segments s.ring.writePtr s.ring.readPtr).map fun seg => s.ring.mem.read seg.1 seg.2).flatten, ?_, ?_⟩
  · simp only [CapInfo.readOut, RingBuf.copyOut_segments, hc]
  · have hstep : (overlap p).step s (.read .snapshot) =
        some { s with phase := .copying s.ring.writePtr (s.ring.segments s.ring.writePtr s.ring.readPtr) [] } := by
      simp only [overlap, step, hidle, RingBuf.readStep, Option.map_some, List.append_nil]
    rw [List.cons_append, Machine.exec, hstep, Option.bind_some, exec_copySegments]
    simp only [CapInfo.readOut, RingBuf.copyOut_segments, hc, Machine.exec, overlap, step, RingBuf.readStep,
      Option.map_some, Option.bind_some, List.nil_append, List.append_nil]
    rw [← hidle]

/-- Outside a read the full flag tells the truth, and no record is lost or returned twice. -/
def Intact (p : Platform) (s : Overlap) : Prop :=
  (s.phase = .idle → (s.ring.full = true ↔ s.ring.count p = p.printkBufEntries - 1)) ∧
    s.returned ++ s.phase.held ++ (s.ring.queued p).flatten = s.pushed.flatten

/-- A read clears the full flag only while its ring is not full. -/
def ClearsSafely (s : Overlap) (e : OverlapEvent) : Prop := e = .read .clear → s.ring.slow = false

instance : ∀ (s : Overlap) (e : OverlapEvent), Decidable (ClearsSafely s e) :=
  fun s e => inferInstanceAs (Decidable (e = .read .clear → s.ring.slow = false))

/-! ### A read in progress -/

/-- A read in progress has copied, or will still find in the ring, the records up to its saved pointer. -/
structure Reading (p : Platform) (rb : RingBuf) (w : Nat) (todo : List (Nat × Nat)) (out : List UInt8) : Prop where
  boundary : rb.Boundary w
  le : rb.span p rb.readPtr w ≤ rb.count p
  unread : ∀ seg ∈ todo, ∀ x, seg.1 ≤ x → x < seg.1 + seg.2 → ∃ k, k < rb.span p rb.readPtr w ∧
    rb.slotAddr ((rb.slot rb.readPtr + k) % p.printkBufEntries) ≤ x ∧
    x < rb.slotAddr ((rb.slot rb.readPtr + k) % p.printkBufEntries) + dsplogEntrySize
  bytes : out ++ (todo.map fun seg => rb.mem.read seg.1 seg.2).flatten = (rb.between p rb.readPtr w).flatten

namespace Reading
variable {rb : RingBuf} {w : Nat} {todo : List (Nat × Nat)} {out record : List UInt8} {seg : Nat × Nat}

theorem snapshot (h : rb.Layout p) : Reading p rb rb.writePtr (rb.segments rb.writePtr rb.readPtr) [] where
  boundary := h.write
  le := Nat.le_refl _
  unread _ hseg _ hx hx' := RingBuf.segments_cover h.end_eq h.read h.write hseg hx hx'
  bytes := RingBuf.segments_between h.end_eq h.read h.write

theorem copy (h : Reading p rb w (seg :: todo) out) : Reading p rb w todo (out ++ rb.mem.read seg.1 seg.2) where
  boundary := h.boundary
  le := h.le
  unread s hs := h.unread s (List.mem_cons_of_mem _ hs)
  bytes := by
    rw [← h.bytes]
    simp

/-- A push writes behind the records of a read in progress. -/
theorem push (h : Reading p rb w todo out) (hl : rb.Layout p) (hrec : record.length = dsplogEntrySize)
    (hc : rb.count p < p.printkBufEntries - 1) : Reading p (rb.push record) w todo out where
  boundary := h.boundary
  le := by
    rw [hl.push_count hc]
    exact Nat.le_succ_of_le h.le
  unread := h.unread
  bytes := by
    have hslice := hl.push_slice hrec h.le
    show _ = (slice (rb.push record).entry p.printkBufEntries (rb.slot rb.readPtr) (rb.span p rb.readPtr w)).flatten
    rw [hslice]
    refine Eq.trans ?_ h.bytes
    congr 2
    refine List.map_congr_left fun seg hseg => Mem.read_congr fun x hx hx' => ?_
    obtain ⟨k, hk, h1, h2⟩ := h.unread seg hseg x hx hx'
    exact hl.push_mem hrec (hl.unread_ne (Nat.lt_of_lt_of_le hk h.le)) h1 h2

theorem congr {rb' : RingBuf} (h : Reading p rb w todo out) (hm : rb'.mem = rb.mem) (hs : rb'.start = rb.start)
    (he : rb'.end_ = rb.end_) (hr : rb'.readPtr = rb.readPtr) (hw : rb'.writePtr = rb.writePtr) :
    Reading p rb' w todo out := by
  obtain ⟨h1, h2, h3, h4⟩ := h
  cases rb
  cases rb'
  cases hm
  cases hs
  cases he
  cases hr
  cases hw
  exact ⟨h1, h2, h3, h4⟩

end Reading

/-! ### The invariant -/

/-- A full ring always has its flag, and the flag is wrong only between the two stores at the end of a
    read. -/
structure Inv (p : Platform) (s : Overlap) : Prop where
  layout : s.ring.Layout p
  marked : s.ring.count p = p.printkBufEntries - 1 → s.ring.full = true
  truthful : (∀ out, s.phase ≠ .committed out) → s.ring.full = true → s.ring.count p = p.printkBufEntries - 1
  flow : s.returned ++ s.phase.held ++ (s.ring.queued p).flatten = s.pushed.flatten
  reading : ∀ w todo out, s.phase = .copying w todo out → Reading p s.ring w todo out

namespace Inv

theorem init (h : Initial p s) : Inv p s := by
  obtain ⟨⟨rb, hl, hring⟩, hphase, hpushed, hreturned⟩ := h
  have hwf : s.ring.Wf p := hring ▸ hl.restart
  refine ⟨hwf.toLayout, hwf.full_iff.mpr, fun _ => hwf.full_iff.mp, ?_, ?_⟩
  · rw [hphase, hpushed, hreturned, hring, RingBuf.restart_queued]
    rfl
  · intro w todo out hc
    rw [hphase] at hc
    cases hc

theorem intact (h : Inv p s) : Intact p s := by
  refine ⟨fun hidle => ⟨h.truthful fun out hc => ?_, h.marked⟩, h.flow⟩
  rw [hidle] at hc
  cases hc

/-- The timer's call appends the record unless the flag is set. -/
theorem push (h : Inv p s) (r : IdspPrintf) : Inv p { s with
    ring := s.ring.dspLogAddToRingBuffer p r.bytes
    pushed := if s.ring.full then s.pushed else s.pushed ++ [r.bytes] } := by
  obtain ⟨n, c, hsignal⟩ := RingBuf.signal_eq p (s.ring.store r.bytes)
  have hqueued := h.layout.store_queued r.bytes_length h.marked
  rw [RingBuf.dspLogAddToRingBuffer, hsignal]
  cases hf : s.ring.full with
  | true =>
    rw [RingBuf.store_of_full hf]
    exact ⟨⟨h.layout.end_eq, h.layout.read, h.layout.write⟩, h.marked, h.truthful, h.flow, fun w todo out hc =>
      (h.reading w todo out hc).congr rfl rfl rfl rfl rfl⟩
  | false =>
    have hc : s.ring.count p < p.printkBufEntries - 1 := by
      have hlt := h.layout.count_lt
      have hne : s.ring.count p ≠ p.printkBufEntries - 1 := fun hc => by simp [h.marked hc] at hf
      omega
    have hpush : (s.ring.push r.bytes).Layout p := h.layout.push
    rw [RingBuf.store_of_not_full hf]
    refine ⟨⟨hpush.end_eq, hpush.read, hpush.write⟩, hpush.slow_iff.mpr, fun _ => hpush.slow_iff.mp, ?_, ?_⟩
    · have hq := h.layout.push_queued r.bytes_length hc
      show s.returned ++ s.phase.held ++ ((s.ring.push r.bytes).queued p).flatten = (s.pushed ++ [r.bytes]).flatten
      rw [hq, List.flatten_append, List.flatten_append, ← List.append_assoc, h.flow]
    · intro w todo out hphase
      have hread := (h.reading w todo out hphase).push h.layout r.bytes_length hc
      exact hread.congr rfl rfl rfl rfl rfl

theorem snapshot (h : Inv p s) (hphase : s.phase = .idle) :
    Inv p { s with phase := .copying s.ring.writePtr (s.ring.segments s.ring.writePtr s.ring.readPtr) [] } where
  layout := h.layout
  marked := h.marked
  truthful _ := h.truthful (by simp [hphase])
  flow := by
    have hflow := h.flow
    rwa [hphase] at hflow
  reading := by
    rintro w todo out hc
    cases hc
    exact Reading.snapshot h.layout

theorem copySegment (h : Inv p s) {w : Nat} {seg : Nat × Nat} {todo : List (Nat × Nat)} {out : List UInt8}
    (hphase : s.phase = .copying w (seg :: todo) out) (ok : Bool) :
    Inv p { s with phase := if ok then .copying w todo (out ++ s.ring.mem.read seg.1 seg.2) else .idle } where
  layout := h.layout
  marked := h.marked
  truthful _ := h.truthful (by simp [hphase])
  flow := by
    have hflow := h.flow
    rw [hphase] at hflow
    cases ok <;> exact hflow
  reading := by
    intro w' todo' out' hc
    cases ok with
    | false => cases hc
    | true =>
      cases hc
      exact (h.reading _ _ _ hphase).copy

/-- Setting `read_ptr` takes the copied records out of the ring; records pushed meanwhile stay. -/
theorem commit (h : Inv p s) {w : Nat} {out : List UInt8} (hphase : s.phase = .copying w [] out) :
    Inv p { s with ring := s.ring.commit w, phase := .committed out } := by
  have hread := h.reading _ _ _ hphase
  obtain ⟨hbetween, hspan⟩ :=
    RingBuf.between_append h.layout.end_eq h.layout.read h.layout.write hread.boundary hread.le
  have hcount : s.ring.count p = s.ring.span p s.ring.readPtr w + (s.ring.commit w).count p := hspan
  have hout : out = (s.ring.between p s.ring.readPtr w).flatten := by simpa using hread.bytes
  refine ⟨⟨h.layout.end_eq, hread.boundary, h.layout.write⟩, ?_, ?_, ?_, ?_⟩
  · intro hc
    have hc : (s.ring.commit w).count p = p.printkBufEntries - 1 := hc
    have hlt := h.layout.count_lt
    exact h.marked (by omega)
  · intro hne
    exact absurd rfl (hne out)
  · have hflow := h.flow
    rw [hphase] at hflow
    show s.returned ++ out ++ (s.ring.between p w s.ring.writePtr).flatten = s.pushed.flatten
    rw [← hflow, hout, RingBuf.queued, hbetween, List.flatten_append]
    simp [ReadPhase.held]
  · intro w' todo' out' hc
    cases hc

/-- Clearing the flag of a ring that is not full ends the read. -/
theorem clear (h : Inv p s) {out : List UInt8} (hphase : s.phase = .committed out) (hslow : s.ring.slow = false) :
    Inv p { s with ring := s.ring.clearFull, phase := .idle, returned := s.returned ++ out } where
  layout := ⟨h.layout.end_eq, h.layout.read, h.layout.write⟩
  marked hc := by
    have hs := h.layout.slow_iff.mpr hc
    rw [hslow] at hs
    cases hs
  truthful _ hf := by cases hf
  flow := by
    have hflow := h.flow
    rw [hphase] at hflow
    show s.returned ++ out ++ [] ++ (s.ring.queued p).flatten = s.pushed.flatten
    rw [List.append_nil]
    exact hflow
  reading _ _ _ hc := by cases hc

theorem readStep {e : ReadStep} (h : Inv p s) (hG : ClearsSafely s (.read e)) {ring : RingBuf} {phase : ReadPhase}
    {out : List UInt8} (hs : s.ring.readStep s.phase e = some (ring, phase, out)) :
    Inv p { s with ring := ring, phase := phase, returned := s.returned ++ out } := by
  rcases hphase : s.phase with _ | ⟨w, _ | ⟨seg, todo⟩, done⟩ | done <;> rcases e with _ | ok | _ | _ <;>
    rw [hphase] at hs
  case idle.snapshot =>
    cases hs
    rw [List.append_nil]
    exact h.snapshot hphase
  case copying.cons.copySegment =>
    cases ok <;> cases hs <;> rw [List.append_nil]
    · exact h.copySegment hphase false
    · exact h.copySegment hphase true
  case copying.nil.commit =>
    cases hs
    rw [List.append_nil]
    exact h.commit hphase
  case committed.clear =>
    cases hs
    exact h.clear hphase (hG rfl)
  all_goals cases hs

theorem step {e : OverlapEvent} (h : Inv p s) (hG : ClearsSafely s e) (hs : Overlap.step p s e = some t) : Inv p t := by
  cases e with
  | push r =>
    cases hs
    exact h.push r
  | read e =>
    obtain ⟨⟨ring, phase, out⟩, hr, rfl⟩ := Option.map_eq_some_iff.mp hs
    exact h.readStep hG hr

/-- Clearing the flag of a full ring leaves a full ring without its flag. -/
theorem breaks {e : OverlapEvent} (h : Inv p s) (hG : ¬ClearsSafely s e) (hs : Overlap.step p s e = some t) :
    ¬Intact p t := by
  obtain ⟨rfl, hslow⟩ : e = .read .clear ∧ s.ring.slow ≠ false := by
    simpa only [ClearsSafely, Classical.not_imp] using hG
  obtain ⟨⟨ring, phase, out⟩, hr, rfl⟩ := Option.map_eq_some_iff.mp hs
  cases hphase : s.phase with
  | idle => rw [hphase] at hr; cases hr
  | copying w todo done => rw [hphase] at hr; cases todo <;> cases hr
  | committed done =>
    rw [hphase] at hr
    cases hr
    intro hintact
    have hfull := (hintact.1 rfl).mpr (h.layout.slow_iff.mp (by simpa using hslow))
    cases hfull

end Inv

/-- In a run of reads and pushes no record is lost or returned twice, and the full flag tells the truth
    outside the reads, exactly when no read clears the flag of a full ring. -/
theorem intact_iff_clearsSafely {es : List OverlapEvent} (hs : Initial p s) (h : (overlap p).exec s es = some t) :
    (∀ x ∈ (overlap p).visited s es, Intact p x) ↔ ∀ x ∈ (overlap p).trace s es, ClearsSafely x.1 x.2 :=
  Machine.forall_iff_guarded (fun _ _ _ hI hG hst => Inv.step hI hG hst) (fun _ hI => hI.intact)
    (fun _ _ _ hI hG hst => hI.breaks hG hst) (Inv.init hs) h

/-- A ring of two records, started, and the record that is pushed between the two stores of a read. -/
def tinyStart : Overlap := ⟨(RingBuf.init (Platform.tiny 1 Nat.one_pos) 0).restart, .idle, [], []⟩

def oneRecord : IdspPrintf := ⟨1, 0, 0, 0, 0, 0, 0, 0⟩

theorem tinyStart_initial : Initial (Platform.tiny 1 (by decide)) tinyStart :=
  ⟨⟨_, RingBuf.init_layout, rfl⟩, rfl, rfl, rfl⟩

/-- A read that found the ring empty clears the flag that a push has set since; the next push moves the
    write pointer onto the read pointer, and both records are gone. -/
theorem clear_after_fill : ¬∀ s, (overlap (Platform.tiny 1 (by decide))).Reachable s →
    Intact (Platform.tiny 1 (by decide)) s := by
  intro h
  have hreach := Machine.Reachable.exec (.init tinyStart_initial)
    (show (overlap (Platform.tiny 1 (by decide))).exec tinyStart [.read .snapshot, .push oneRecord,
      .read .commit, .read .clear, .push oneRecord] = some _ from rfl)
  have hflow := (h _ hreach).2
  exact absurd (congrArg List.length hflow) (by decide)

/-- A ring of the driver's own size, started. -/
def oneCoreStart : Overlap := ⟨(RingBuf.init .oneCore 0).restart, .idle, [], []⟩

/-- A record is pushed while another is being copied, and a second read returns it. -/
def pushBetween : List OverlapEvent :=
  [.push oneRecord, .read .snapshot, .push ⟨2, 0, 0, 0, 0, 0, 0, 0⟩, .read (.copySegment true), .read .commit,
    .read .clear, .read .snapshot, .read (.copySegment true), .read .commit, .read .clear]

theorem intact_iff_clearsSafely_pushBetween : ∃ t, (overlap .oneCore).exec oneCoreStart pushBetween = some t ∧
    t.pushed.length = 2 ∧ t.returned.length = 64 ∧
    ((∀ x ∈ (overlap .oneCore).visited oneCoreStart pushBetween, Intact .oneCore x) ↔
      ∀ x ∈ (overlap .oneCore).trace oneCoreStart pushBetween, ClearsSafely x.1 x.2) :=
  ⟨_, rfl, by decide +kernel, by decide +kernel,
    intact_iff_clearsSafely ⟨⟨_, RingBuf.init_layout, rfl⟩, rfl, rfl, rfl⟩ rfl⟩

end Overlap
end Dsplog
