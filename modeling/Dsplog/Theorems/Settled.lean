import Dsplog.Driver
import Dsplog.Theorems.Tick
import Dsplog.Theorems.Window

/-! A second tick on an unchanged log region. Two of the branches that take an instance out of the loop leave it
    so that the same branch takes it out again; the second staleness test takes over the number that it refuses
    and so lets the record pass the next time. -/

namespace Dsplog
open Bytes RoundRobin

namespace CapInfo
variable {p : Platform} {m : Mem} {c : CapInfo} {n : Nat}

/-- The record at `dsppf_current`. -/
def nextRecord (c : CapInfo) (m : Mem) : IdspPrintf := IdspPrintf.load m c.dsppfCurrent

/-- The instance when it has followed the numbers of the next `n` slots. -/
def ahead (c : CapInfo) (m : Mem) : Nat → CapInfo
  | 0 => c
  | n + 1 => ((c.ahead m n).follow ((c.ahead m n).nextRecord m).seqNum).advance

/-- A visit hands over the next record. -/
def Takes (c : CapInfo) (m : Mem) : Prop := c.dspSuspended = false ∧ c.Passes (c.nextRecord m)

instance (c : CapInfo) (r : IdspPrintf) : Decidable (c.Passes r) :=
  decidable_of_iff (c.older r.seqNum = false ∧ c.olderWrapped r.seqNum = false ∧
    ¬(r.seqNum = 0 ∧ (c.follow r.seqNum).seqNumWrapped = false ∧ r.formatAddr = 0))
    ⟨fun ⟨h₁, h₂, h₃⟩ => ⟨h₁, h₂, h₃⟩, fun h => ⟨h.older, h.olderWrapped, h.written⟩⟩

instance (c : CapInfo) (m : Mem) : Decidable (c.Takes m) := inferInstanceAs (Decidable (_ ∧ _))

/-- The first staleness test lets the next record pass, and the second one refuses it. -/
def TakesOver (c : CapInfo) (m : Mem) : Prop :=
  c.dspSuspended = false ∧ c.older (c.nextRecord m).seqNum = false ∧ c.olderWrapped (c.nextRecord m).seqNum = true

/-- The records from `dsppf_current` on pass the tests one after the other up to one that the second staleness
    test refuses. -/
def Replays (c : CapInfo) (m : Mem) : Prop :=
  ∃ n, (∀ i, i < n → (c.ahead m i).Passes ((c.ahead m i).nextRecord m)) ∧ (c.ahead m n).TakesOver m

theorem ahead_suspended : (c.ahead m n).dspSuspended = c.dspSuspended := by
  induction n with
  | zero => rfl
  | succ n ih => exact ih

/-- The instance with another ring. -/
def withRing (c : CapInfo) (rb : RingBuf) : CapInfo := { c with ringbuf := rb }

theorem withRing_passes {r : IdspPrintf} {rb : RingBuf} : (c.withRing rb).Passes r ↔ c.Passes r :=
  ⟨fun h => ⟨h.older, h.olderWrapped, h.written⟩, fun h => ⟨h.older, h.olderWrapped, h.written⟩⟩

theorem visit_of_suspended (h : c.dspSuspended = true) : (c.visit p m).handed = none ∧ (c.visit p m).cap = c := by
  simp [visit, h]

/-- A visit of an instance that is not suspended hands over a record exactly when it passes the tests. -/
theorem visit_handed_iff (hawake : c.dspSuspended = false) :
    (c.visit p m).handed = none ↔ ¬c.Passes (c.nextRecord m) := by
  constructor
  · intro hdry hpass
    have hbusy := (visit_of_passes (p := p) hawake rfl hpass).1
    rw [hdry] at hbusy
    cases hbusy
  · intro hpass
    rcases c.visit_cases p m hawake rfl with ⟨-, h, -⟩ | ⟨-, -, h, -⟩ | ⟨-, -, -, h, -⟩ | ⟨h₁, h₂, h₃, -⟩
    · exact h
    · exact h
    · exact h
    · exact absurd ⟨h₁, h₂, h₃⟩ hpass

/-! ### The visit after a dry one -/

/-- A number equal to the last one passes the tests, unless it may be that of a cleared slot. -/
theorem passes_of_equal {r : IdspPrintf} (h : c.currSeqNum = r.seqNum) (hne : r.seqNum ≠ 0) : c.Passes r := by
  have h : c.currSeqNum.toNat = r.seqNum.toNat := congrArg UInt32.toNat h
  exact ⟨older_eq_false (by omega), olderWrapped_eq_false (by omega), fun hz => hne hz.1⟩

theorem follow_follow {seq : UInt32} (h : seq ≠ 0xFFFFFFFF) : (c.follow seq).follow seq = c.follow seq := by
  simp [follow, h]

/-- The second staleness test takes over the number that it refuses, so the record passes the next time. -/
theorem TakesOver.visit_again (h : c.TakesOver m) : (c.visit p m).handed = none ∧
    ((c.visit p m).cap.visit p m).handed ≠ none := by
  obtain ⟨hawake, hnew, hold⟩ := h
  obtain ⟨hdry, hcap⟩ := visit_of_olderWrapped (p := p) hawake rfl hnew hold
  have hpos : (c.nextRecord m).seqNum ≠ 0 := by
    intro hzero
    have hzero : (c.nextRecord m).seqNum.toNat = 0 := congrArg UInt32.toNat hzero
    have hlt := (olderWrapped_iff.mp hold).2.1
    omega
  rw [hcap]
  refine ⟨hdry, fun hagain => (visit_handed_iff ?_).mp hagain (passes_of_equal ?_ ?_)⟩
  · exact hawake
  · rfl
  · exact hpos

/-- The other branches leave an instance that a further visit does not change. -/
theorem visit_again (hdry : (c.visit p m).handed = none) (h : ¬c.TakesOver m) :
    ((c.visit p m).cap.visit p m).handed = none ∧ ((c.visit p m).cap.visit p m).cap = (c.visit p m).cap := by
  cases hawake : c.dspSuspended with
  | true =>
    have hsame := visit_of_suspended (p := p) (m := m) hawake
    rw [hsame.2]
    exact hsame
  | false =>
    rcases c.visit_cases p m hawake rfl with ⟨hold, -, hcap⟩ | ⟨hnew, hold, -⟩ | ⟨-, -, ⟨hzero, hwrap, hformat⟩, -, hcap⟩ |
      ⟨-, -, -, hbusy, -⟩
    · rw [hcap]
      exact visit_of_older hawake rfl hold
    · exact absurd ⟨hawake, hnew, hold⟩ h
    · have hlast : (IdspPrintf.load m c.dsppfCurrent).seqNum ≠ 0xFFFFFFFF := by
        rw [hzero]
        decide
      have hsame := follow_follow (c := c) hlast
      have hcurr : (c.follow (IdspPrintf.load m c.dsppfCurrent).seqNum).currSeqNum.toNat = 0 := congrArg UInt32.toNat hzero
      obtain ⟨hdry', hcap'⟩ := visit_of_unwritten (p := p) (m := m)
        (c := c.follow (IdspPrintf.load m c.dsppfCurrent).seqNum) hawake rfl
        (older_eq_false (by omega)) (olderWrapped_eq_false (by omega)) ⟨hzero, by rw [← hsame] at hwrap; exact hwrap, hformat⟩
      rw [hcap]
      exact ⟨hdry', hcap'.trans hsame⟩
    · rw [hdry] at hbusy
      cases hbusy

end CapInfo

/-! ### The solo drain of an instance -/

section Drain
variable {p : Platform} {m : Mem} {c : CapInfo} {s : Service} {n : Nat}

theorem Service.visit_dry_iff : (Service.visit p m s).2 = true ↔ (s.cap.visit p m).handed = none := by
  unfold Service.visit
  split <;> simp_all

/-- A service that has handed over records keeps them. -/
theorem Service.visit_keeps (h : s.handed ≠ []) : (Service.visit p m s).1.handed ≠ [] := by
  unfold Service.visit
  split
  · exact h
  · simp

/-- Visits that hand over records take an instance to the slots ahead of it. -/
theorem after_passes (hawake : c.dspSuspended = false)
    (h : ∀ i, i < n → (c.ahead m i).Passes ((c.ahead m i).nextRecord m)) :
    ∃ rb handed, after (Service.visit p m) n ⟨c, []⟩ = ⟨(c.ahead m n).withRing rb, handed⟩ := by
  induction n with
  | zero => exact ⟨c.ringbuf, [], rfl⟩
  | succ n ih =>
    obtain ⟨rb, handed, hafter⟩ := ih fun i hi => h i (Nat.lt_succ_of_lt hi)
    obtain ⟨hbusy, rb', hcap⟩ := CapInfo.visit_of_passes (p := p) (c := (c.ahead m n).withRing rb)
      (CapInfo.ahead_suspended.trans hawake) rfl (CapInfo.withRing_passes.mpr (h n (Nat.lt_succ_self n)))
    refine ⟨rb', handed ++ [⟨(c.ahead m n).dsppfCurrent, m.read (c.ahead m n).dsppfCurrent dsplogEntrySize⟩], ?_⟩
    rw [after_succ, hafter]
    simp only [Service.visit, hbusy, hcap]
    rfl

theorem passes_of_after (hawake : c.dspSuspended = false)
    (h : ∀ i, i < n → (Service.visit p m (after (Service.visit p m) i ⟨c, []⟩)).2 = false) (i : Nat) (hi : i < n) :
    (c.ahead m i).Passes ((c.ahead m i).nextRecord m) := by
  induction i using Nat.strongRecOn with
  | ind i ih =>
    obtain ⟨rb, handed, hafter⟩ := after_passes (p := p) hawake fun k hk => ih k hk (Nat.lt_trans hk hi)
    have hbusy := h i hi
    rw [hafter, ← Bool.not_eq_true, Service.visit_dry_iff, CapInfo.visit_handed_iff, not_not] at hbusy
    · exact CapInfo.withRing_passes.mp hbusy
    · exact CapInfo.ahead_suspended.trans hawake

/-- A drain that ends takes the records that pass the tests one after the other, and ends with a dry visit. -/
theorem drain_ends (hawake : c.dspSuspended = false) (h : ∃ fuel, solo (Service.visit p m) fuel ⟨c, []⟩ = some s) :
    ∃ n rb handed, (∀ i, i < n → (c.ahead m i).Passes ((c.ahead m i).nextRecord m)) ∧
      (((c.ahead m n).withRing rb).visit p m).handed = none ∧
      s = ⟨(((c.ahead m n).withRing rb).visit p m).cap, handed⟩ := by
  obtain ⟨n, hbefore, hdry, hend⟩ := solo_iff_after.mp h
  have hpass := passes_of_after hawake hbefore
  obtain ⟨rb, handed, hafter⟩ := after_passes (p := p) hawake hpass
  rw [hafter] at hdry hend
  have hnone := Service.visit_dry_iff.mp hdry
  refine ⟨n, rb, handed, hpass, hnone, ?_⟩
  rw [← hend]
  simp only [Service.visit, hnone]

/-- An instance that a visit does not change is drained in one visit. -/
theorem solo_of_settled (hdry : (c.visit p m).handed = none) (hsame : (c.visit p m).cap = c) :
    solo (Service.visit p m) 1 ⟨c, []⟩ = some ⟨c, []⟩ := by
  have hvisit : (Service.visit p m ⟨c, []⟩).2 = true := Service.visit_dry_iff.mpr hdry
  rw [solo_of_dry hvisit]
  simp only [Service.visit, hdry, hsame]

/-- An instance with a record to hand over is not drained without handing it over. -/
theorem solo_ne_of_busy {fuel : Nat} (hbusy : (c.visit p m).handed ≠ none) :
    solo (Service.visit p m) fuel ⟨c, []⟩ ≠ some ⟨c, []⟩ := by
  intro h
  obtain ⟨record, hrecord⟩ := Option.ne_none_iff_exists'.mp hbusy
  have hvisit : Service.visit p m ⟨c, []⟩ = (⟨(c.visit p m).cap, [⟨c.dsppfCurrent, record⟩]⟩, false) := by
    simp only [Service.visit, hrecord, List.nil_append]
  cases fuel with
  | zero => cases h
  | succ fuel =>
    rw [solo_of_busy (congrArg Prod.snd hvisit), hvisit] at h
    exact solo_invariant (P := fun s : Service => s.handed ≠ []) (fun s hs => Service.visit_keeps hs)
      (List.cons_ne_nil _ _) h rfl

/-- The drain of a drained instance finds nothing, unless the second staleness test ended the first drain. -/
theorem drained_again (h : ∃ fuel, solo (Service.visit p m) fuel ⟨c, []⟩ = some s) :
    (∃ fuel, solo (Service.visit p m) fuel ⟨s.cap, []⟩ = some ⟨s.cap, []⟩) ↔ ¬c.Replays m := by
  cases hawake : c.dspSuspended with
  | true =>
    have hsame := CapInfo.visit_of_suspended (p := p) (m := m) hawake
    have hsettled := solo_of_settled hsame.1 hsame.2
    obtain ⟨fuel, h⟩ := h
    rw [solo_unique h hsettled]
    refine iff_of_true ⟨1, hsettled⟩ ?_
    rintro ⟨n, -, hsuspended, -⟩
    rw [CapInfo.ahead_suspended, hawake] at hsuspended
    cases hsuspended
  | false =>
    obtain ⟨n, rb, handed, hpass, hdry, rfl⟩ := drain_ends hawake h
    by_cases htakes : (c.ahead m n).TakesOver m
    · refine iff_of_false ?_ (not_not_intro ⟨n, hpass, htakes⟩)
      rintro ⟨fuel, hagain⟩
      have htakes' : ((c.ahead m n).withRing rb).TakesOver m := htakes
      exact solo_ne_of_busy (htakes'.visit_again (p := p)).2 hagain
    · obtain ⟨hdry', hsame⟩ := CapInfo.visit_again hdry htakes
      refine iff_of_true ⟨1, solo_of_settled hdry' hsame⟩ ?_
      rintro ⟨n', hpass', htakes'⟩
      have hrefused : ¬(c.ahead m n).Passes ((c.ahead m n).nextRecord m) := fun hp =>
        (CapInfo.visit_handed_iff (c := (c.ahead m n).withRing rb) (CapInfo.ahead_suspended.trans hawake)).mp hdry
          (CapInfo.withRing_passes.mpr hp)
      rcases Nat.lt_trichotomy n n' with hlt | rfl | hlt
      · exact hrefused (hpass' n hlt)
      · exact htakes htakes'
      · have hold := htakes'.2.2
        rw [(hpass n' hlt).olderWrapped] at hold
        cases hold

end Drain

/-! ### The tick after a tick -/

/-- A further tick ends, hands over no record and leaves all instances as they are. -/
def Settled (p : Platform) (m : Mem) (caps : List CapInfo) : Prop :=
  (∃ fuel services, dspPrintkTimer p m fuel caps = some services) ∧
    ∀ fuel services, dspPrintkTimer p m fuel caps = some services → services = caps.map (⟨·, []⟩)

section Again
variable {p : Platform} {m : Mem} {fuel : Nat} {caps : List CapInfo} {services : List Service}

theorem settled_iff : Settled p m caps ↔ ∃ fuel, dspPrintkTimer p m fuel caps = some (caps.map (⟨·, []⟩)) := by
  constructor
  · rintro ⟨⟨fuel, services, h⟩, hall⟩
    exact ⟨fuel, hall fuel services h ▸ h⟩
  · rintro ⟨fuel, h⟩
    exact ⟨⟨fuel, _, h⟩, fun fuel' services h' => dspPrintkTimer_unique h' h⟩

/-- A second tick on an unchanged region finds nothing exactly when the second staleness test did not end the
    first tick for any core. -/
theorem tick_again_iff (h : dspPrintkTimer p m fuel caps = some services) : Settled p m (services.map Service.cap) ↔
    ∀ k c, k < p.ucodeCoreNum → caps[k]? = some c → ¬c.Replays m := by
  obtain ⟨hlen, hdrain⟩ := dspPrintkTimer_iff.mp ⟨fuel, h⟩
  rw [settled_iff, dspPrintkTimer_iff]
  constructor
  · rintro ⟨-, hagain⟩ k c hk hc
    obtain ⟨s, hs⟩ : ∃ s, services[k]? = some s := by
      have hlt := (List.getElem?_eq_some_iff.mp hc).1
      exact ⟨_, List.getElem?_eq_getElem (by omega)⟩
    refine (drained_again ((hdrain k c s hc hs).1 hk)).mp ((hagain k s.cap ⟨s.cap, []⟩ ?_ ?_).1 hk)
    · rw [List.getElem?_map, hs]
      rfl
    · rw [List.map_map, List.getElem?_map, hs]
      rfl
  · intro hnone
    refine ⟨by simp, fun k c s hc hs => ?_⟩
    rw [List.getElem?_map, hc] at hs
    cases hs
    rw [List.getElem?_map] at hc
    obtain ⟨s, hs, rfl⟩ := Option.map_eq_some_iff.mp hc
    obtain ⟨c, hc⟩ : ∃ c, caps[k]? = some c := by
      have hlt := (List.getElem?_eq_some_iff.mp hs).1
      exact ⟨_, List.getElem?_eq_getElem (by omega)⟩
    exact ⟨fun hk => (drained_again ((hdrain k c s hc hs).1 hk)).mpr (hnone k c hk hc), fun _ => rfl⟩

end Again

def fourSlots : Platform := Platform.shipped 1 Nat.one_pos 1 4096 128

/-- The window of a DSP that has written records `0xFFFFFFFE`, `0xFFFFFFFF`, `0` and `1`. -/
def wrappedLog : Mem := Mem.write (fun _ => 0) 4096
  ((IdspPrintf.mk 0 0 9 0 0 0 0 0).bytes ++ (IdspPrintf.mk 1 0 9 0 0 0 0 0).bytes ++
    (IdspPrintf.mk 0xFFFFFFFE 0 9 0 0 0 0 0).bytes ++ (IdspPrintf.mk 0xFFFFFFFF 0 9 0 0 0 0 0).bytes)

/-- The instance that has captured all of them. -/
def wrappedCap : CapInfo :=
  { (CapInfo.new fourSlots 0 0 0 0).start with currSeqNum := 1, seqNumWrapped := true, dsppfCurrent := 4160 }

theorem first_tick_ends : (dspPrintkTimer fourSlots wrappedLog 1 [wrappedCap]).isSome = true := by decide +kernel

/-- The tick after the one that finds nothing hands over the whole lap again. -/
theorem second_tick_replays_lap : ((dspPrintkTimer fourSlots wrappedLog 1 [wrappedCap]).bind fun services =>
    dspPrintkTimer fourSlots wrappedLog 5 (services.map Service.cap)).map
      (fun services => services.map fun s => s.handed.map (·.slot)) = some [[4160, 4192, 4096, 4128]] := by
  decide +kernel

theorem second_tick_finds_records : ¬∀ (p : Platform) (m : Mem) (fuel : Nat) (caps : List CapInfo) (services : List Service),
    dspPrintkTimer p m fuel caps = some services → Settled p m (services.map Service.cap) := by
  intro h
  obtain ⟨services', hboth, hhanded⟩ := Option.map_eq_some_iff.mp second_tick_replays_lap
  obtain ⟨services, hfirst, hsecond⟩ := Option.bind_eq_some_iff.mp hboth
  have hnone := (h _ _ _ _ _ hfirst).2 _ _ hsecond
  have hall : ∀ s ∈ services', s.handed = [] := by
    rw [hnone]
    intro s hs
    obtain ⟨c, -, rfl⟩ := List.mem_map.mp hs
    rfl
  have hlap : [4160, 4192, 4096, 4128] ∈ services'.map fun s => s.handed.map (·.slot) := by simp [hhanded]
  obtain ⟨s, hs, hslots⟩ := List.mem_map.mp hlap
  rw [hall s hs] at hslots
  cases hslots

theorem tick_again_iff_wrapped : ∃ services : List Service,
    dspPrintkTimer fourSlots wrappedLog 1 [wrappedCap] = some services ∧
      (Settled fourSlots wrappedLog (services.map Service.cap) ↔ ∀ k c, k < fourSlots.ucodeCoreNum →
        [wrappedCap][k]? = some c → ¬c.Replays wrappedLog) := by
  obtain ⟨services, h⟩ := Option.isSome_iff_exists.mp first_tick_ends
  exact ⟨services, h, tick_again_iff h⟩

end Dsplog
