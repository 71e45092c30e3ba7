import Dsplog.Theorems.Transport

/-! How long a tick can take, whatever the log region holds. Behind its first round of the window an instance meets the
    same records with the same numbers again, and what the tests let pass once they let pass again: a service that does
    not end within two rounds never ends. -/

namespace Dsplog
open Bytes Cyclic Machines RoundRobin

/-- The slots that the cursor goes through from the start of a window of `size` bytes, the last one perhaps not whole. -/
def slotsIn (size : UInt32) : Nat := max 1 ((size.toNat + (dsplogEntrySize - 1)) / dsplogEntrySize)

theorem slotsIn_pos {size : UInt32} : 0 < slotsIn size := Nat.le_max_left _ _

/-- The window ends behind its last slot. -/
theorem slotsIn_last {size : UInt32} {j : Nat} (hj : j < slotsIn size) :
    size.toNat ≤ dsplogEntrySize * (j + 1) ↔ ¬j + 1 < slotsIn size := by
  simp only [slotsIn, dsplogEntrySize] at hj ⊢
  omega

theorem slotsIn_mono {size size' : UInt32} (h : size.toNat ≤ size'.toNat) : slotsIn size ≤ slotsIn size' := by
  simp only [slotsIn, dsplogEntrySize]
  omega

namespace CapInfo

abbrev slots (c : CapInfo) : Nat := slotsIn c.dsplogBufSize

/-- The cursor is at a slot of the window. -/
def OnSlot (c : CapInfo) : Prop := ∃ i, i < c.slots ∧ c.dsppfCurrent = c.dsppfBase + dsplogEntrySize * i

variable {c c' : CapInfo} {p : Platform} {m : Mem} {n k : Nat} {r : IdspPrintf}

/-! ### The way of the cursor -/

theorem ahead_add : (c.ahead m n).ahead m k = c.ahead m (n + k) := by
  induction k with
  | zero => rfl
  | succ k ih => rw [ahead, ih]; rfl

theorem ahead_base : (c.ahead m n).dsppfBase = c.dsppfBase := by
  induction n with
  | zero => rfl
  | succ n ih => exact ih

theorem ahead_size : (c.ahead m n).dsplogBufSize = c.dsplogBufSize := by
  induction n with
  | zero => rfl
  | succ n ih => exact ih

theorem ahead_current : (c.ahead m (n + 1)).dsppfCurrent =
    if c.dsppfBase + c.dsplogBufSize.toNat ≤ (c.ahead m n).dsppfCurrent + dsplogEntrySize then c.dsppfBase
    else (c.ahead m n).dsppfCurrent + dsplogEntrySize := by
  rw [← ahead_base (c := c) (m := m) (n := n), ← ahead_size (c := c) (m := m) (n := n)]
  rfl

/-- The instance remembers the number of the slot behind it. -/
theorem ahead_seq : (c.ahead m (n + 1)).currSeqNum = ((c.ahead m n).nextRecord m).seqNum := rfl

/-- From a slot the cursor goes round the window. -/
theorem ahead_round {i : Nat} (hi : i < c.slots) (hcurrent : c.dsppfCurrent = c.dsppfBase + dsplogEntrySize * i) :
    (c.ahead m n).dsppfCurrent = c.dsppfBase + dsplogEntrySize * ((i + n) % c.slots) := by
  induction n with
  | zero => rw [Nat.add_zero, Nat.mod_eq_of_lt hi]; exact hcurrent
  | succ n ih =>
    have hlt : (i + n) % c.slots < c.slots := Nat.mod_lt _ slotsIn_pos
    have hnext := next_eq_mod hlt
    rw [Nat.mod_add_mod] at hnext
    have hlast := slotsIn_last hlt
    rw [ahead_current, ih, ← Nat.add_assoc, ← hnext, next, Nat.add_assoc, ← Nat.mul_succ]
    by_cases hmore : (i + n) % c.slots + 1 < c.slots
    · rw [if_pos hmore, if_neg fun hend => hlast.mp (Nat.le_of_add_le_add_left hend) hmore]
    · rw [if_neg hmore, if_pos (Nat.add_le_add_left (hlast.mpr hmore) _)]
      rfl

/-- Behind the start of the window the cursor reaches a slot within one round. -/
theorem ahead_onSlot (hbase : c.dsppfBase ≤ c.dsppfCurrent) : ∃ lead, lead ≤ c.slots ∧ (c.OnSlot → lead = 0) ∧
    (c.ahead m lead).OnSlot := by
  by_cases hon : c.OnSlot
  · exact ⟨0, Nat.zero_le _, fun _ => rfl, hon⟩
  · -- Each step that does not come to the start of the window takes the cursor on by one record.
    have reach : ∀ (k : Nat) (c : CapInfo), c.dsppfBase ≤ c.dsppfCurrent →
        c.dsppfBase + c.dsplogBufSize.toNat ≤ c.dsppfCurrent + dsplogEntrySize * (k + 1) →
        ∃ lead, lead ≤ k + 1 ∧ (c.ahead m lead).dsppfCurrent = c.dsppfBase := by
      intro k
      induction k with
      | zero =>
        intro c _ hlast
        exact ⟨1, Nat.le_refl _, (ahead_current (n := 0)).trans (if_pos hlast)⟩
      | succ k ih =>
        intro c hle hfar
        by_cases hlast : c.dsppfBase + c.dsplogBufSize.toNat ≤ c.dsppfCurrent + dsplogEntrySize
        · exact ⟨1, by omega, (ahead_current (n := 0)).trans (if_pos hlast)⟩
        · have hcurrent : (c.ahead m 1).dsppfCurrent = c.dsppfCurrent + dsplogEntrySize :=
            (ahead_current (n := 0)).trans (if_neg hlast)
          have hbase : (c.ahead m 1).dsppfBase = c.dsppfBase := ahead_base
          have hsize : (c.ahead m 1).dsplogBufSize = c.dsplogBufSize := ahead_size
          obtain ⟨lead, hlead, hstart⟩ := ih (c.ahead m 1) (by rw [hbase, hcurrent]; omega)
            (by rw [hbase, hsize, hcurrent]; simp only [dsplogEntrySize] at hfar ⊢; omega)
          rw [ahead_add, hbase] at hstart
          exact ⟨1 + lead, by omega, hstart⟩
    obtain ⟨lead, hlead, hstart⟩ := reach (c.slots - 1) c hbase (by
      simp only [slots, slotsIn, dsplogEntrySize]
      omega)
    have hpos : 0 < c.slots := slotsIn_pos
    refine ⟨lead, by omega, fun h => absurd h hon, 0, ?_, ?_⟩
    · rw [slots, ahead_size]
      exact slotsIn_pos
    · rw [ahead_base]
      exact hstart

/-! ### The next round -/

/-- What the tests let pass they also let pass once a wrap is known. -/
theorem Passes.known (h : c.Passes r) (hseq : c'.currSeqNum = c.currSeqNum)
    (hwrapped : c.seqNumWrapped = true → c'.seqNumWrapped = true) : c'.Passes r := by
  refine ⟨?_, ?_, fun ⟨hzero, hunwrapped, hblank⟩ => h.written ⟨hzero, ?_, hblank⟩⟩
  · rw [CapInfo.older, hseq]
    exact h.older
  · rw [CapInfo.olderWrapped, hseq]
    exact h.olderWrapped
  · rw [← Bool.not_eq_true, follow_wrapped] at hunwrapped ⊢
    rw [hseq] at hunwrapped
    exact fun hknown => hunwrapped (hknown.imp_left hwrapped)

/-- A wrap that is known stays known. -/
theorem ahead_wrapped (h : (c.ahead m n).seqNumWrapped = true) : (c.ahead m (n + k)).seqNumWrapped = true := by
  induction k with
  | zero => exact h
  | succ k ih => exact (follow_wrapped (c.ahead m (n + k)) ((c.ahead m (n + k)).nextRecord m).seqNum).mpr (Or.inl ih)

/-- Once the cursor is at a slot, what passes behind it passes again in the next round. -/
theorem passes_again {lead : Nat} (hon : (c.ahead m lead).OnSlot) (hn : lead < n)
    (h : (c.ahead m n).Passes ((c.ahead m n).nextRecord m)) :
    (c.ahead m (n + c.slots)).Passes ((c.ahead m (n + c.slots)).nextRecord m) := by
  obtain ⟨i, hi, hcurrent⟩ := hon
  have hslots : (c.ahead m lead).slots = c.slots := by rw [slots, ahead_size]
  have round (j : Nat) : (c.ahead m (lead + j + c.slots)).nextRecord m = (c.ahead m (lead + j)).nextRecord m := by
    have hbefore := ahead_round (m := m) (n := j) hi hcurrent
    have hbehind := ahead_round (m := m) (n := j + c.slots) hi hcurrent
    rw [ahead_add, hslots] at hbefore hbehind
    rw [← Nat.add_assoc, ← Nat.add_assoc, Nat.add_mod_right, ← hbefore] at hbehind
    rw [nextRecord, nextRecord, hbehind]
  obtain ⟨j, rfl⟩ : ∃ j, n = lead + j + 1 := ⟨n - lead - 1, by omega⟩
  have hrecord := round (j + 1)
  rw [← Nat.add_assoc] at hrecord
  rw [hrecord]
  refine h.known ?_ ahead_wrapped
  rw [show lead + j + 1 + c.slots = lead + j + c.slots + 1 by omega, ahead_seq, round j, ahead_seq]

end CapInfo

/-! ### The service of one instance -/

section Solo
variable {p : Platform} {m : Mem} {c : CapInfo} {s : Service} {n fuel : Nat}

/-- Every busy visit hands over one record. -/
theorem Service.after_length (h : ∀ i, i < n → (Service.visit p m (after (Service.visit p m) i s)).2 = false) :
    (after (Service.visit p m) n s).handed.length = s.handed.length + n := by
  induction n with
  | zero => rfl
  | succ n ih =>
    have hbusy := h n (Nat.lt_succ_self n)
    have ih := ih fun i hi => h i (Nat.lt_succ_of_lt hi)
    rw [after_succ]
    generalize after (Service.visit p m) n s = u at hbusy ih ⊢
    cases hhanded : (u.cap.visit p m).handed with
    | none =>
      rw [Service.visit_of_none hhanded] at hbusy
      cases hbusy
    | some record =>
      rw [Service.visit_of_some hhanded, List.length_append, ih]
      rfl

/-- A service that ends hands over at most the records of two rounds, and of one round from a slot of the window; it takes
    one visit more. -/
theorem drained_within (hbase : c.dsppfBase ≤ c.dsppfCurrent) (h : solo (Service.visit p m) fuel ⟨c, []⟩ = some s) :
    s.handed.length ≤ 2 * c.slots ∧ (c.OnSlot → s.handed.length ≤ c.slots) ∧
      solo (Service.visit p m) (s.handed.length + 1) ⟨c, []⟩ = some s := by
  cases hawake : c.dspSuspended with
  | true =>
    have hsame := CapInfo.visit_of_suspended (p := p) (m := m) hawake
    have hsettled := solo_of_settled hsame.1 hsame.2
    obtain rfl := solo_unique h hsettled
    exact ⟨Nat.zero_le _, fun _ => Nat.zero_le _, hsettled⟩
  | false =>
    obtain ⟨n, hbusy, hdry, rfl⟩ := solo_iff_after.mp ⟨fuel, h⟩
    have hpass := passes_of_after hawake hbusy
    have hsolo := solo_of_after hbusy hdry
    have hlength : (Service.visit p m (after (Service.visit p m) n ⟨c, []⟩)).1.handed.length = n := by
      rw [Service.visit_of_none (Service.visit_dry_iff.mp hdry), Service.after_length hbusy]
      exact Nat.zero_add n
    obtain ⟨rb, handed, hafter⟩ := after_passes (p := p) hawake hpass
    have hrefused : ¬(c.ahead m n).Passes ((c.ahead m n).nextRecord m) := by
      rw [hafter, Service.visit_dry_iff, CapInfo.visit_handed_iff] at hdry
      · exact fun hpasses => hdry (CapInfo.withRing_passes.mpr hpasses)
      · exact CapInfo.ahead_suspended.trans hawake
    obtain ⟨lead, hlead, hnone, hon⟩ := CapInfo.ahead_onSlot (m := m) hbase
    have hwithin : n ≤ lead + c.slots := by
      by_contra hlate
      exact hrefused (forall_of_recurs (R := c.slots) slotsIn_pos (fun i hi => hpass i (by omega))
        (fun i hi hi' => CapInfo.passes_again hon hi hi') n)
    rw [hlength]
    refine ⟨by omega, fun honSlot => ?_, hsolo⟩
    have := hnone honSlot
    omega

end Solo

/-! ### A tick -/

/-- A tick ends, if it ends at all, within a number of passes that does not depend on what the log region holds. -/
theorem tick_within {p : Platform} {m : Mem} {caps : List CapInfo} {visits : Nat}
    (h : ∀ k c, k < p.ucodeCoreNum → caps[k]? = some c → c.dsppfBase ≤ c.dsppfCurrent ∧ 2 * c.slots + 1 ≤ visits) :
    (∃ fuel, (dspPrintkTimer p m fuel caps).isSome = true) ↔
      (dspPrintkTimer p m (p.ucodeCoreNum * visits) caps).isSome = true := by
  refine ⟨fun ⟨fuel, hends⟩ => dspPrintkTimer_ends (fun k c hk hc => ?_) (Nat.le_refl _), fun hends => ⟨_, hends⟩⟩
  obtain ⟨services, htimer⟩ := Option.isSome_iff_exists.mp hends
  obtain ⟨s, -, hsolo, -⟩ := (dspPrintkTimer_serves htimer).2 k c hc
  obtain ⟨n, hn⟩ := hsolo hk
  obtain ⟨hbase, hvisits⟩ := h k c hk hc
  obtain ⟨hle, -, hwithin⟩ := drained_within hbase hn
  rw [solo_mono (by omega) hwithin]
  rfl

/-! ### Runs of the driver -/

/-- The slots of the whole log region. -/
def Platform.regionSlots (p : Platform) : Nat := slotsIn p.logSize

/-- The cursor is not before the window. -/
def CapInfo.Onward (c : CapInfo) : Prop := c.dsppfBase ≤ c.dsppfCurrent

namespace CapInfo.Onward
variable {p : Platform} {m : Mem} {c c' : CapInfo} {d : Driver} {k : Nat} {op : Op}

theorem of_cursor (h : c.Onward) (hcursor : c'.cursor = c.cursor) : c'.Onward := by
  have hbase : c'.dsppfBase = c.dsppfBase := congrArg Cursor.base hcursor
  have hcurrent : c'.dsppfCurrent = c.dsppfCurrent := congrArg Cursor.current hcursor
  rw [Onward, hbase, hcurrent]
  exact h

theorem advance (h : c.Onward) : c.advance.Onward := by
  show _ ≤ (if _ then _ else _ : Nat)
  split
  · exact Nat.le_refl _
  · exact Nat.le_add_right_of_le h

theorem visit (h : c.Onward) : (c.visit p m).cap.Onward := by
  cases hawake : c.dspSuspended with
  | true =>
    rw [(visit_of_suspended hawake).2]
    exact h
  | false =>
    rcases c.visit_cases p m hawake rfl with ⟨-, -, hcap⟩ | ⟨-, -, -, hcap⟩ | ⟨-, -, -, -, hcap⟩ | ⟨-, -, -, -, rb, hcap⟩ <;>
      rw [hcap]
    · exact h
    · exact h
    · exact h
    · have hfollow : ({ c.follow (IdspPrintf.load m c.dsppfCurrent).seqNum with ringbuf := rb } : CapInfo).Onward := h
      exact hfollow.advance

/-- Every step of the driver keeps it; a resume moves the window to the start of the region. -/
theorem alters (h : c.Onward) (hwindow : p.Contains c.place) (ha : Driver.Alters p d k c op c') : c'.Onward := by
  cases ha with
  | readRing => exact h.of_cursor (Driver.cursor_readRing ..)
  | readThrough => exact h.of_cursor ((Driver.cursor_readOut ..).trans (Driver.cursor_readRing ..))
  | readOut => exact h.of_cursor (Driver.cursor_readOut ..)
  | release =>
    unfold CapInfo.release
    split <;> exact h
  | tick hsolo =>
    exact solo_invariant (P := fun s : Service => s.cap.Onward) (fun s hs => by rw [Service.visit_cap]; exact hs.visit) h hsolo
  | suspend | reset => exact Nat.le_refl _
  | resume => exact Nat.le_trans hwindow.1 h
  | keep | occupy | start | occupyStart | stop | takeToken => exact h

end CapInfo.Onward

namespace Driver
variable {p : Platform} {d : Driver}

theorem onward (h : (driver p).Reachable d) : ∀ c ∈ d.queue, c.Onward := by
  have hall : Registered p d ∧ Windows p d ∧ ∀ c ∈ d.queue, c.Onward := by
    refine reachable_invariant (I := fun d => Registered p d ∧ Windows p d ∧ ∀ c ∈ d.queue, c.Onward)
      (fun d hd => ⟨.init hd, by simp [Windows, hd.queue], by simp [hd.queue]⟩)
      (fun d op d' r ⟨hreg, hwindows, honward⟩ hs => ⟨hreg.step hs, hwindows.step hs, fun c' hc' => ?_⟩) h
    obtain ⟨k, hk⟩ := List.mem_iff_getElem?.mp hc'
    rcases Nat.lt_or_ge k d.queue.length with hlt | hge
    · obtain ⟨c'', hc'', ha⟩ := step_alters (Nat.lt_of_lt_of_le hlt hreg.length_le) (List.getElem?_eq_getElem hlt) hs
      rw [hk] at hc''
      cases hc''
      exact (honward _ (List.getElem_mem hlt)).alters (hwindows _ (List.getElem_mem hlt)) ha
    · obtain ⟨filp, pid, dspId, ring, -, rfl | rfl⟩ := step_new hs hge hk <;> exact Nat.le_refl _
  exact hall.2.2

theorem slots_le (h : (driver p).Reachable d) {c : CapInfo} (hc : c ∈ d.queue) : c.slots ≤ p.regionSlots := by
  obtain ⟨hlow, hhigh⟩ := windows h c hc
  have hlow : p.logBase ≤ c.dsppfBase := hlow
  have hhigh : c.dsppfBase + c.dsplogBufSize.toNat ≤ p.logBase + p.logSize.toNat := hhigh
  exact slotsIn_mono (by omega)

/-- In every reachable state, whatever the DSPs have left in the log region, a tick ends within two rounds of the region
    for each core or never, and one that ends hands over at most two rounds of an instance's window, and at most one when
    the cursor is at a slot of the window. -/
theorem tick_bounded (h : (driver p).Reachable d) :
    ((∃ fuel, (d.step p (.tick fuel)).isSome = true) ↔
      (d.step p (.tick (p.ucodeCoreNum * (2 * p.regionSlots + 1)))).isSome = true) ∧
    ∀ fuel k c, d.queue[k]? = some c → (d.offered p k (.tick fuel)).length ≤ 2 * c.slots ∧
      (c.OnSlot → (d.offered p k (.tick fuel)).length ≤ c.slots) := by
  constructor
  · have hwithin : (∃ fuel, (dspPrintkTimer p d.mem fuel d.queue).isSome = true) ↔
        (dspPrintkTimer p d.mem (p.ucodeCoreNum * (2 * p.regionSlots + 1)) d.queue).isSome = true := by
      refine tick_within fun k c _ hc => ?_
      have hmem := List.mem_of_getElem? hc
      have hslots := slots_le h hmem
      exact ⟨onward h c hmem, by omega⟩
    cases htimer : d.timerInitialized with
    | false => simp [step, htimer]
    | true => simpa [step, htimer] using hwithin
  · intro fuel k c hc
    have hk := Nat.lt_of_lt_of_le (List.getElem?_eq_some_iff.mp hc).1 (registered h).length_le
    cases htimer : dspPrintkTimer p d.mem fuel d.queue with
    | none => simp [offered, htimer]
    | some services =>
      obtain ⟨s, hs, hsolo, -⟩ := (dspPrintkTimer_serves htimer).2 k c hc
      obtain ⟨n, hn⟩ := hsolo hk
      obtain ⟨htwo, hone, -⟩ := drained_within (onward h c (List.mem_of_getElem? hc)) hn
      rw [offered, htimer, Option.elim_some, hs, Option.elim_some, List.length_map]
      exact ⟨htwo, hone⟩

/-- Two cores are captured, and the DSP of the second has written a record without a format. -/
theorem tick_bounded_garbage : ∃ d : Driver, (d.offered (Platform.tiny 2 (by decide)) 1 (.tick 8)).length = 1 ∧
    (((∃ fuel, (d.step (Platform.tiny 2 (by decide)) (.tick fuel)).isSome = true) ↔
      (d.step (Platform.tiny 2 (by decide)) (.tick (2 * (2 * (Platform.tiny 2 (by decide)).regionSlots + 1)))).isSome = true) ∧
    ∀ fuel k c, d.queue[k]? = some c → (d.offered (Platform.tiny 2 (by decide)) k (.tick fuel)).length ≤ 2 * c.slots ∧
      (c.OnSlot → (d.offered (Platform.tiny 2 (by decide)) k (.tick fuel)).length ≤ c.slots)) := by
  have h : ((driver (Platform.tiny 2 (by decide))).exec empty (bothRunning ++ [.dspWrite 4160 [7, 0, 0, 0, 1]])).any (fun d =>
      decide ((d.offered (Platform.tiny 2 (by decide)) 1 (.tick 8)).length = 1)) = true := by decide +kernel
  obtain ⟨d, hexec, hone⟩ := (Option.any_eq_true _ _).mp h
  exact ⟨d, of_decide_eq_true hone, tick_bounded (.exec (.init empty_initial) hexec)⟩

end Driver
end Dsplog
