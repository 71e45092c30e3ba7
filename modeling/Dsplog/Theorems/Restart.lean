import Dsplog.Theorems.Capture
import Dsplog.Theorems.Drain
import Dsplog.Theorems.Session
import Dsplog.Theorems.Settled

/-! Captures one after the other. START clears `curr_seq_num`, so both staleness tests let the next record pass,
    but it leaves `dsppf_current` and the window as they are: when the DSP has written nothing since the last
    record was captured, the next tick goes round the window again. -/

namespace Dsplog
open Bytes Cyclic RoundRobin Machines

/-- An instance through its captures: the log memory, the records that the DSP has written, and those that the
    ticks have handed to `dsp_log_add_to_ring_buffer`. -/
structure Restart where
  cap : CapInfo
  mem : Mem
  written : List IdspPrintf
  handed : List (List UInt8)

/-- A read enters, takes a token of the completion, and leaves with the copy. -/
inductive RestartEvent where
  | dspWrite (r : IdspPrintf)
  | tick (fuel : Nat)
  | start
  | stop
  | enter (maxSize : Nat)
  | wake
  | leave (copy : Copy)
  deriving DecidableEq, Repr

namespace Restart

/-- The DSP counts its records from `s0` on and does not reach `0xFFFFFFFF`. The timer also ticks while the
    instance is stopped, as it does when another core's START has it run. -/
def step (p : Platform) (N s0 : Nat) (s : Restart) : RestartEvent → Option Restart
  | .dspWrite r =>
    if r.seqNum.toNat = s0 + s.written.length ∧ s0 + s.written.length < 0xFFFFFFFF then
      some { s with
        mem := s.mem.write (s.cap.dsppfBase + dsplogEntrySize * (s.written.length % N)) r.bytes
        written := s.written ++ [r] }
    else none
  | .tick fuel => (dspPrintkTimer p s.mem fuel [s.cap]).map fun services => { s with
      cap := (services.map Service.cap).headD s.cap
      handed := s.handed ++ services.flatMap fun sv => sv.handed.map Handed.record }
  | .start => some { s with cap := s.cap.start }
  | .stop => some { s with cap := s.cap.stop }
  | .enter maxSize => some { s with cap := (s.cap.readRing p maxSize).1 }
  | .wake =>
    if 0 < s.cap.ringbuf.fillCompl then some { s with cap := s.cap.takeToken } else none
  | .leave copy => some { s with cap := (s.cap.readOut copy).1 }

def Initial (N : Nat) (s : Restart) : Prop := Fresh N s.cap s.mem ∧ s.written = [] ∧ s.handed = []

/-- The instance has no number to compare with, the DSP has written nothing since the last record was captured,
    and the next slot holds a record. -/
def Stale (s : Restart) : Prop :=
  s.cap.currSeqNum = 0 ∧ (∃ r ∈ s.written.getLast?, r.bytes ∈ s.handed) ∧
    ¬((s.cap.nextRecord s.mem).seqNum = 0 ∧ (s.cap.nextRecord s.mem).formatAddr = 0)

instance (s : Restart) : Decidable (Stale s) := inferInstanceAs (Decidable (_ ∧ _ ∧ _))

/-- No tick comes while the window is stale. -/
def TicksOnNews (s : Restart) : RestartEvent → Prop
  | .tick _ => ¬Stale s
  | _ => True

instance : ∀ (s : Restart) (e : RestartEvent), Decidable (TicksOnNews s e)
  | s, .tick _ => inferInstanceAs (Decidable ¬Stale s)
  | _, .dspWrite _ | _, .start | _, .stop | _, .enter _ | _, .wake | _, .leave _ => inferInstanceAs (Decidable True)

end Restart

def restart (p : Platform) (N s0 : Nat) : Machine Restart RestartEvent where
  Init := Restart.Initial N
  step := Restart.step p N s0

namespace Restart
variable {p : Platform} {N s0 e : Nat} {s t : Restart}

/-- Between ticks the instance stands behind the first `e` records. The number that it remembers is none, that of
    the record before it, or that of record `e`, which lay too far ahead of it. -/
structure Idle (N s0 : Nat) (s : Restart) (e : Nat) : Prop extends Log N s0 s.mem s.written s.cap where
  bound : 0 < s.written.length → s0 + s.written.length ≤ 0xFFFFFFFF
  le : e ≤ s.written.length
  current : s.cap.dsppfCurrent = s.cap.dsppfBase + dsplogEntrySize * (e % N)
  unwrapped : s.cap.seqNumWrapped = false
  seq : s.cap.currSeqNum.toNat = 0 ∨ 0 < e ∧ s.cap.currSeqNum.toNat = s0 + e - 1 ∨
    e < s.written.length ∧ s.cap.currSeqNum.toNat = s0 + e
  handed : ∃ l : List IdspPrintf, l.Sublist (s.written.take e) ∧ s.handed = l.map IdspPrintf.bytes
  last : e = s.written.length → ∀ r ∈ s.written.getLast?, r.bytes ∈ s.handed

/-! ### The records handed over -/

/-- Records with different places in the log have different numbers. -/
theorem Idle.eq_of_bytes (h : Idle N s0 s e) {i j : Nat} {r r' : IdspPrintf} (hi : s.written[i]? = some r)
    (hj : s.written[j]? = some r') (heq : r.bytes = r'.bytes) : i = j := by
  obtain rfl := IdspPrintf.bytes_injective heq
  have hbound := h.bound
  have hi' := h.numbered i r hi
  have hj' := h.numbered j r hj
  have hlt := (List.getElem?_eq_some_iff.mp hi).1
  have hlt' := (List.getElem?_eq_some_iff.mp hj).1
  omega

theorem Idle.nodup (h : Idle N s0 s e) : s.handed.Nodup := by
  obtain ⟨l, hl, hhanded⟩ := h.handed
  have hall : (s.written.map IdspPrintf.bytes).Nodup := by
    rw [List.Nodup, List.pairwise_map, List.pairwise_iff_getElem]
    intro i j hi hj hij heq
    have hsame := h.eq_of_bytes (List.getElem?_eq_getElem hi) (List.getElem?_eq_getElem hj) heq
    omega
  rw [hhanded]
  exact hall.sublist ((hl.trans (List.take_sublist e s.written)).map IdspPrintf.bytes)

/-- The last record of the DSP is handed over exactly when the instance stands behind it. -/
theorem Idle.last_iff (h : Idle N s0 s e) : (∃ r ∈ s.written.getLast?, r.bytes ∈ s.handed) ↔
    0 < e ∧ e = s.written.length := by
  constructor
  · rintro ⟨r, hr, hmem⟩
    obtain ⟨l, hl, hhanded⟩ := h.handed
    rw [hhanded] at hmem
    obtain ⟨r', hr', heq⟩ := List.mem_map.mp hmem
    obtain ⟨i, hi⟩ := List.mem_iff_getElem?.mp (hl.subset hr')
    have hle := h.le
    obtain ⟨hlt, -⟩ := List.getElem?_eq_some_iff.mp hi
    rw [List.length_take] at hlt
    rw [List.getElem?_take_of_lt (by omega)] at hi
    rw [List.getLast?_eq_getElem?] at hr
    have hsame := h.eq_of_bytes hi hr heq
    omega
  · rintro ⟨hpos, heq⟩
    have hlt : s.written.length - 1 < s.written.length := by omega
    have hr : s.written.getLast? = some s.written[s.written.length - 1] := by
      rw [List.getLast?_eq_getElem?, List.getElem?_eq_getElem hlt]
    exact ⟨_, hr, h.last heq _ hr⟩

/-! ### Steps other than ticks -/

namespace Idle

theorem init (h : Initial N s) : Idle N s0 s 0 := by
  obtain ⟨hfresh, hwritten, hhanded⟩ := h
  refine ⟨⟨hfresh.two_le, hfresh.size, hfresh.awake, ?_, ?_⟩, ?_, Nat.zero_le _, ?_, hfresh.unwrapped, ?_,
    ⟨[], by simp, by simpa⟩, ?_⟩
  · rw [hwritten]
    exact window_nil hfresh.zero
  · simp [hwritten]
  · simp [hwritten]
  · rw [hfresh.current, Nat.zero_mod]
    rfl
  · rw [hfresh.seq]
    exact Or.inl rfl
  · simp [hwritten]

theorem dspWrite (h : Idle N s0 s e) {r : IdspPrintf} (hr : r.seqNum.toNat = s0 + s.written.length)
    (hbound : s0 + s.written.length < 0xFFFFFFFF) :
    Idle N s0 { s with
      mem := s.mem.write (s.cap.dsppfBase + dsplogEntrySize * (s.written.length % N)) r.bytes
      written := s.written ++ [r] } e := by
  have hlen : (s.written ++ [r]).length = s.written.length + 1 := by simp
  have hle := h.le
  refine ⟨⟨h.two_le, h.size, h.awake, h.window.write r, forall_getElem?_concat h.numbered (by omega)⟩, hlen ▸ fun _ => hbound,
    hlen ▸ Nat.le_succ_of_le hle, h.current, h.unwrapped, ?_, ?_, fun heq => ?_⟩
  · rcases h.seq with hseq | hseq | ⟨hlt, hseq⟩
    · exact Or.inl hseq
    · exact Or.inr (Or.inl hseq)
    · exact Or.inr (Or.inr ⟨hlen ▸ Nat.lt_succ_of_lt hlt, hseq⟩)
  · obtain ⟨l, hl, hhanded⟩ := h.handed
    exact ⟨l, by rwa [List.take_append_of_le_length hle], hhanded⟩
  · rw [hlen] at heq
    omega

/-- A record that lies too far ahead only sets the number to follow. -/
theorem jump (h : Idle N s0 s e) {j : Nat} {r : IdspPrintf} (hj : s.written[j]? = some r) (hmod : j % N = e % N)
    (hej : e ≤ j) : Idle N s0 { s with cap := { s.cap with currSeqNum := r.seqNum } } j := by
  have hlt := (List.getElem?_eq_some_iff.mp hj).1
  have hbound := h.bound
  have hnum := h.numbered j r hj
  obtain ⟨l, hl, hhanded⟩ := h.handed
  refine ⟨⟨h.two_le, h.size, h.awake, h.window, h.numbered⟩, hbound, Nat.le_of_lt hlt, ?_, h.unwrapped, ?_, ⟨l, ?_, hhanded⟩,
    fun heq => absurd heq (Nat.ne_of_lt hlt)⟩
  · rw [hmod]
    exact h.current
  · exact Or.inr (Or.inr ⟨hlt, hnum.trans (by omega)⟩)
  · exact hl.trans (List.take_sublist_take_left hej)

/-- What a step does to the ring and to the end of the log does not matter. -/
theorem withCap (h : Idle N s0 s e) {c : CapInfo} (hplace : c.place = s.cap.place)
    (hcurrent : c.dsppfCurrent = s.cap.dsppfCurrent) (hwrapped : c.seqNumWrapped = s.cap.seqNumWrapped)
    (hseq : c.currSeqNum = s.cap.currSeqNum ∨ c.currSeqNum = 0) : Idle N s0 { s with cap := c } e := by
  have hbase : c.dsppfBase = s.cap.dsppfBase := congrArg Place.base hplace
  have hsize : c.dsplogBufSize = s.cap.dsplogBufSize := congrArg Place.size hplace
  have hawake : c.dspSuspended = s.cap.dspSuspended := congrArg Place.suspended hplace
  refine ⟨⟨h.two_le, hsize ▸ h.size, hawake.trans h.awake, hbase ▸ h.window, h.numbered⟩, h.bound, h.le, ?_,
    hwrapped.trans h.unwrapped, ?_, h.handed, h.last⟩
  · rw [hcurrent, hbase]
    exact h.current
  · rcases hseq with hsame | hzero
    · rw [hsame]
      exact h.seq
    · rw [hzero]
      exact Or.inl rfl

theorem enter (h : Idle N s0 s e) (maxSize : Nat) : Idle N s0 { s with cap := (s.cap.readRing p maxSize).1 } e := by
  rcases s.cap.readRing_cases p maxSize with ⟨result, hr⟩ | ⟨-, hr⟩ | ⟨-, -, hr⟩ | ⟨-, -, hr⟩ <;>
    exact h.withCap (hr ▸ rfl) (hr ▸ rfl) (hr ▸ rfl) (Or.inl (hr ▸ rfl))

theorem leave (h : Idle N s0 s e) (copy : Copy) : Idle N s0 { s with cap := (s.cap.readOut copy).1 } e := by
  unfold CapInfo.readOut
  simp only
  split <;> exact h.withCap rfl rfl rfl (Or.inl rfl)

/-! ### Ticks -/

theorem calm (h : Idle N s0 s e) : ¬WrapAt s0 s.written.length := by
  have hbound := h.bound
  unfold WrapAt
  omega

theorem seq_lt (h : Idle N s0 s e) : s.cap.currSeqNum.toNat < 0xFFFFFFFF := by
  have hbound := h.bound
  have hle := h.le
  have hseq := h.seq
  omega

/-- From a record in the next slot on, a tick hands over all records. -/
theorem hands (h : Idle N s0 s e) {j : Nat} {r : IdspPrintf} (hj : s.written[j]? = some r) (hmod : j % N = e % N)
    (hround : s.written.length ≤ j + N) (hpass : s.cap.Passes r) :
    ∃ sv, solo (Service.visit p s.mem) (s.written.length - j + 1) ⟨s.cap, []⟩ = some sv ∧
      sv.handed.map Handed.record = (s.written.drop j).map IdspPrintf.bytes ∧
      Rest N s0 s.mem s.written s.written.length sv.cap := by
  have hbound := h.bound
  have hlow := h.seq_lt
  obtain ⟨hlt, hget⟩ := List.getElem?_eq_some_iff.mp hj
  obtain ⟨r', hr', hread⟩ := h.read_slot hlt hround
  obtain rfl : r' = r := Option.some.inj (hr'.symm.trans hj)
  have hcur := h.current
  rw [← hmod] at hcur
  rw [← hcur] at hread
  have hload := IdspPrintf.load_of_read hread
  obtain ⟨hbusy, rb, hcap⟩ := CapInfo.visit_of_passes (p := p) h.awake hload hpass
  have hrun : Running N s0 s.mem s.written (j + 1) (s.cap.visit p s.mem).cap := by
    rw [hcap]
    refine h.hand hlt (by omega) hcur (h.numbered j _ hj) (fun i hi hij hzero => ?_) ?_ rb
    · omega
    · rintro (hw | hlast)
      · rw [h.unwrapped] at hw
        cases hw
      · omega
  have hvisit := Service.visit_of_some (s := ⟨s.cap, []⟩) hbusy
  obtain ⟨sv, hsolo, hrecords, hrest⟩ := hrun.drain (p := p) h.calm (n := s.written.length - (j + 1)) (by omega)
    [⟨s.cap.dsppfCurrent, s.mem.read s.cap.dsppfCurrent dsplogEntrySize⟩]
  refine ⟨sv, ?_, ?_, hrest⟩
  · rw [show s.written.length - j + 1 = s.written.length - (j + 1) + 1 + 1 by omega,
      solo_of_busy (congrArg Prod.snd hvisit), hvisit]
    exact hsolo
  · rw [hrecords, List.drop_eq_getElem_cons hlt, List.map_cons, List.map_cons, hget, ← hread]
    rfl

/-- After a tick that has handed over the records from `j` on, the instance stands behind all of them. -/
theorem caughtUp (h : Idle N s0 s e) {sv : Service} {records : List (List UInt8)}
    (hrest : Rest N s0 s.mem s.written s.written.length sv.cap) {l : List IdspPrintf} (hl : l.Sublist s.written)
    (hhanded : records = l.map IdspPrintf.bytes) (hlast : ∀ r ∈ s.written.getLast?, r.bytes ∈ records) :
    Idle N s0 { s with cap := sv.cap, handed := records } s.written.length := by
  have hbound := h.bound
  refine ⟨hrest.toLog, hbound, Nat.le_refl _, hrest.current, ?_, ?_, ⟨l, by rwa [List.take_length], hhanded⟩, fun _ => hlast⟩
  · rw [← Bool.not_eq_true]
    intro hw
    obtain ⟨i, hi, hlt, hzero⟩ := hrest.wraps.passed_of hw
    omega
  · rcases hrest.mark with ⟨-, hseq, -⟩ | ⟨hpos, hseq, -⟩ | ⟨-, -, hseq, -⟩ | ⟨hround, hlow, hpos, hseq⟩
    · exact Or.inl hseq
    · exact Or.inr (Or.inl ⟨hpos, hseq.trans (by omega)⟩)
    · exact Or.inl hseq
    · have hN := h.two_le
      omega

theorem tick_solo {m : Mem} {c : CapInfo} {fuel : Nat} {services : List Service}
    (h : dspPrintkTimer p m fuel [c] = some services) :
    ∃ sv n, services = [sv] ∧ solo (Service.visit p m) n ⟨c, []⟩ = some sv := by
  obtain ⟨hlen, hserves⟩ := dspPrintkTimer_serves h
  obtain ⟨sv, hsv, hin, -⟩ := hserves 0 c rfl
  obtain ⟨n, hn⟩ := hin p.ucodeCoreNum_pos
  obtain ⟨sv', rfl⟩ := List.length_eq_one_iff.mp hlen
  cases hsv
  exact ⟨_, n, rfl, hn⟩

/-- A tick keeps the invariant unless the window is stale, and then it hands over the last record once more. -/
theorem tick (h : Idle N s0 s e) {n : Nat} {sv : Service} (hsolo : solo (Service.visit p s.mem) n ⟨s.cap, []⟩ = some sv) :
    (¬Stale s → ∃ e', Idle N s0 { s with cap := sv.cap, handed := s.handed ++ sv.handed.map Handed.record } e') ∧
      (Stale s → ¬(s.handed ++ sv.handed.map Handed.record).Nodup) := by
  have hN := h.two_le
  obtain ⟨r, hload, hread, hslot⟩ := h.window.next_slot (by omega) h.le
  rw [← h.current] at hload hread
  have dry (hdry : (s.cap.visit p s.mem).handed = none) : sv = ⟨(s.cap.visit p s.mem).cap, []⟩ := by
    have hvisit := Service.visit_of_none (s := ⟨s.cap, []⟩) hdry
    have hsolo' := solo_of_dry (n := 0) (congrArg Prod.snd hvisit)
    rw [hvisit] at hsolo'
    exact solo_unique hsolo hsolo'
  rcases s.cap.visit_cases p s.mem h.awake hload with ⟨hold, hhanded, hcap⟩ | ⟨hold, hold', hhanded, hcap⟩ |
    ⟨hold, hold', hzero, hhanded, hcap⟩ | ⟨hold, hold', hzero, hhanded, rb, hcap⟩
  · obtain rfl := dry hhanded
    simp only [hcap, List.map_nil, List.append_nil]
    have hpos := CapInfo.older_iff.mp hold
    refine ⟨fun _ => ⟨e, h⟩, fun hstale => ?_⟩
    have hseq : s.cap.currSeqNum.toNat = 0 := congrArg UInt32.toNat hstale.1
    omega
  · -- A record far ahead: the instance takes over its number and waits for the next tick.
    obtain rfl := dry hhanded
    simp only [hcap, List.map_nil, List.append_nil]
    have hfar := CapInfo.olderWrapped_iff.mp hold'
    refine ⟨fun _ => ?_, fun hstale => ?_⟩
    · rcases hslot with ⟨rfl, -⟩ | ⟨j, hj, hmod, -, ⟨hround, hall⟩ | hej⟩
      · exact absurd hfar.2.1 (Nat.not_lt_zero _)
      · have hnum := h.numbered j r hj
        have hseq := h.seq
        omega
      · exact ⟨j, h.jump hj hmod hej⟩
    · have hseq : s.cap.currSeqNum.toNat = 0 := congrArg UInt32.toNat hstale.1
      omega
  · obtain rfl := dry hhanded
    simp only [hcap, List.map_nil, List.append_nil]
    refine ⟨fun _ => ⟨e, ?_⟩, fun hstale => ?_⟩
    · have hunwrapped := CapInfo.follow_unwrapped h.unwrapped (Nat.ne_of_lt h.seq_lt) r.seqNum
      exact h.withCap rfl rfl (hunwrapped.trans h.unwrapped.symm) (Or.inr hzero.1)
    · rw [Stale, CapInfo.nextRecord, hload] at hstale
      exact absurd ⟨hzero.1, hzero.2.2⟩ hstale.2.2
  · rcases hslot with ⟨rfl, -⟩ | ⟨j, hj, hmod, hround, hplace⟩
    · have hunwrapped := CapInfo.follow_unwrapped h.unwrapped (Nat.ne_of_lt h.seq_lt) IdspPrintf.blank.seqNum
      exact absurd ⟨rfl, hunwrapped, rfl⟩ hzero
    · obtain ⟨sv', hsolo', hrecords, hrest⟩ := h.hands (p := p) hj hmod hround ⟨hold, hold', hzero⟩
      obtain rfl := solo_unique hsolo hsolo'
      have hlt := (List.getElem?_eq_some_iff.mp hj).1
      have hlast : ∀ r ∈ s.written.getLast?, r.bytes ∈ (s.written.drop j).map IdspPrintf.bytes := by
        intro r hr
        have hdrop : (s.written.drop j).getLast? = some r := by
          rw [List.getLast?_drop, if_neg (Nat.not_le_of_lt hlt)]
          exact hr
        exact List.mem_map_of_mem (List.mem_of_getLast? hdrop)
      rw [hrecords]
      rcases hplace with ⟨hbehind, hall⟩ | hej
      · -- All records are captured, and the next slot holds one of the last round: only START lets it pass.
        have hstale : Stale s := by
          refine ⟨UInt32.toNat_inj.mp (?_ : _ = 0), h.last_iff.mpr ⟨by omega, hall⟩, ?_⟩
          · have hnum := h.numbered j r hj
            have hseq := h.seq
            have hbound := h.bound
            have hN' := h.N_lt
            rw [← Bool.not_eq_true, CapInfo.older_iff] at hold
            omega
          · rw [CapInfo.nextRecord, hload]
            have hunwrapped := CapInfo.follow_unwrapped h.unwrapped (Nat.ne_of_lt h.seq_lt) r.seqNum
            exact fun hclear => hzero ⟨hclear.1, hunwrapped, hclear.2⟩
        refine ⟨fun hfresh => absurd hstale hfresh, fun _ hnodup => ?_⟩
        obtain ⟨r', hr', hmem⟩ := hstale.2.1
        exact (List.nodup_append.mp hnodup).2.2 _ hmem _ (hlast r' hr') rfl
      · obtain ⟨l, hl, hhanded⟩ := h.handed
        refine ⟨fun _ => ⟨_, h.caughtUp hrest (l := l ++ s.written.drop j) ?_ ?_ fun r hr => ?_⟩, fun hstale => ?_⟩
        · rw [← List.take_append_drop e s.written]
          exact hl.append (by simpa using List.drop_sublist_drop_left s.written hej)
        · rw [hhanded, List.map_append]
        · exact List.mem_append_right _ (hlast r hr)
        · have hend := h.last_iff.mp hstale.2.1
          omega

theorem step {ev : RestartEvent} (h : Idle N s0 s e) (hs : Restart.step p N s0 s ev = some t) :
    (TicksOnNews s ev → ∃ e', Idle N s0 t e') ∧ (¬TicksOnNews s ev → ¬t.handed.Nodup) := by
  cases ev with
  | dspWrite r =>
    simp only [Restart.step, Option.ite_none_right_eq_some, Option.some.injEq] at hs
    obtain ⟨⟨hr, hbound⟩, rfl⟩ := hs
    exact ⟨fun _ => ⟨e, h.dspWrite hr hbound⟩, fun hG => absurd trivial hG⟩
  | tick fuel =>
    obtain ⟨services, hserves, rfl⟩ := Option.map_eq_some_iff.mp hs
    obtain ⟨sv, n, rfl, hsolo⟩ := tick_solo hserves
    obtain ⟨hkeep, hbreak⟩ := h.tick hsolo
    simp only [List.map_cons, List.map_nil, List.headD_cons, List.flatMap_cons, List.flatMap_nil, List.append_nil]
    exact ⟨hkeep, fun hstale => hbreak (not_not.mp hstale)⟩
  | start =>
    cases hs
    exact ⟨fun _ => ⟨e, h.withCap rfl rfl rfl (Or.inr rfl)⟩, fun hG => absurd trivial hG⟩
  | stop =>
    cases hs
    exact ⟨fun _ => ⟨e, h.withCap rfl rfl rfl (Or.inl rfl)⟩, fun hG => absurd trivial hG⟩
  | enter maxSize =>
    cases hs
    exact ⟨fun _ => ⟨e, h.enter maxSize⟩, fun hG => absurd trivial hG⟩
  | wake =>
    simp only [Restart.step, Option.ite_none_right_eq_some, Option.some.injEq] at hs
    obtain ⟨-, rfl⟩ := hs
    exact ⟨fun _ => ⟨e, h.withCap rfl rfl rfl (Or.inl rfl)⟩, fun hG => absurd trivial hG⟩
  | leave copy =>
    cases hs
    exact ⟨fun _ => ⟨e, h.leave copy⟩, fun hG => absurd trivial hG⟩

end Idle

/-- Over all captures no record is handed over twice exactly when no tick comes while the window is stale. -/
theorem nodup_iff {events : List RestartEvent} (h : (restart p N s0).Init s)
    (he : (restart p N s0).exec s events = some t) :
    (∀ x ∈ (restart p N s0).visited s events, x.handed.Nodup) ↔
      ∀ x ∈ (restart p N s0).trace s events, TicksOnNews x.1 x.2 :=
  Machine.forall_iff_guarded (I := fun s => ∃ e, Idle N s0 s e) (fun _ _ _ ⟨_, hI⟩ hG hs => (hI.step hs).1 hG)
    (fun _ ⟨_, hI⟩ => hI.nodup) (fun _ _ _ ⟨_, hI⟩ hG hs => (hI.step hs).2 hG) ⟨0, .init h⟩ he

/-! ### The same window again -/

def tinyRestart : Restart where
  cap := CapInfo.new (Platform.tiny 1 Nat.one_pos) 0 0 0 0
  mem := fun _ => 0
  written := []
  handed := []

theorem tinyRestart_initial : Initial 2 tinyRestart :=
  ⟨⟨by decide, by decide, fun _ _ _ => rfl, rfl, rfl, rfl, rfl⟩, rfl, rfl⟩

/-- Both slots of the window are captured before the STOP, and the DSP is silent until the next START. -/
def silentBetween : List RestartEvent :=
  [.start, .dspWrite ⟨1, 0, 9, 0, 0, 0, 0, 0⟩, .tick 4, .dspWrite ⟨2, 0, 9, 0, 0, 0, 0, 0⟩, .tick 4, .stop, .start, .tick 4]

theorem exec_silentBetween : ∃ s, (restart (Platform.tiny 1 (by decide)) 2 1).exec tinyRestart silentBetween = some s ∧
    ¬s.handed.Nodup := ⟨_, rfl, by decide +kernel⟩

/-- The first tick of the second capture hands over both records again. -/
theorem replayed_after_start : ¬∀ s, (restart (Platform.tiny 1 (by decide)) 2 1).Reachable s → s.handed.Nodup := by
  intro h
  obtain ⟨s, hs, hnodup⟩ := exec_silentBetween
  exact hnodup (h s (Machine.Reachable.exec (.init tinyRestart_initial) hs))

theorem nodup_iff_silent : ∃ t, (restart (Platform.tiny 1 (by decide)) 2 1).exec tinyRestart silentBetween = some t ∧
    ((∀ x ∈ (restart (Platform.tiny 1 (by decide)) 2 1).visited tinyRestart silentBetween, x.handed.Nodup) ↔
      ∀ x ∈ (restart (Platform.tiny 1 (by decide)) 2 1).trace tinyRestart silentBetween, TicksOnNews x.1 x.2) :=
  ⟨_, rfl, nodup_iff tinyRestart_initial rfl⟩

end Restart
end Dsplog
