import Dsplog.Theorems.Capture
import Dsplog.Theorems.Drain

/-! Whether a tick of the timer ends. The DSP writes records for the registered cores, numbered modulo
    `2 ^ 32` and not over a record still to be handed over, and the timer ticks, in any order. A tick ends, with
    at most `N` records handed over for each core, exactly when no core's last record is at the wrap. -/

namespace Dsplog
open Bytes Cyclic RoundRobin Machines

/-- A registered core: its instance, the records that the DSP has written for it, and the slots of those
    that the timer has not handed over yet. -/
structure Core where
  cap : CapInfo
  written : List IdspPrintf
  pending : List Nat

namespace Core

def slot (c : Core) (N : Nat) : Nat := c.cap.dsppfBase + dsplogEntrySize * (c.written.length % N)

def write (c : Core) (N : Nat) (r : IdspPrintf) : Core :=
  { c with written := c.written ++ [r], pending := c.pending ++ [c.slot N] }

def tick (c : Core) (s : Service) : Core :=
  { c with cap := s.cap, pending := c.pending.filter fun a => decide (a ∉ s.handed.map Handed.slot) }

end Core

/-- The registered cores, in the order of `G_dsplog_read_queue`, and the log memory. -/
structure Logging where
  cores : List Core
  mem : Mem

inductive LoggingEvent where
  | dspWrite (k : Nat) (r : IdspPrintf)
  | tick (fuel : Nat)
  deriving DecidableEq, Repr

namespace Logging

/-- A record of the DSP for core `k` carries the next number, and its slot holds no record that is still to
    be handed over. A tick is a step when it ends. -/
def step (p : Platform) (N : Nat) (s0 : Nat → Nat) (s : Logging) : LoggingEvent → Option Logging
  | .dspWrite k r =>
    match s.cores[k]? with
    | none => none
    | some c =>
      if r.seqNum.toNat = (s0 k + c.written.length) % 4294967296 ∧ c.slot N ∉ c.pending then
        some ⟨s.cores.set k (c.write N r), s.mem.write (c.slot N) r.bytes⟩
      else none
  | .tick fuel => (dspPrintkTimer p s.mem fuel (s.cores.map Core.cap)).map fun services =>
      { s with cores := List.zipWith Core.tick s.cores services }

/-- The windows of different cores do not overlap. -/
def Apart (N : Nat) (s : Logging) : Prop := ∀ (i j : Nat) (c c' : Core), i ≠ j →
  s.cores[i]? = some c → s.cores[j]? = some c' →
    c.cap.dsppfBase + dsplogEntrySize * N ≤ c'.cap.dsppfBase ∨ c'.cap.dsppfBase + dsplogEntrySize * N ≤ c.cap.dsppfBase

structure Initial (p : Platform) (N : Nat) (s : Logging) : Prop where
  cores : s.cores.length ≤ p.ucodeCoreNum
  apart : s.Apart N
  fresh : ∀ c ∈ s.cores, Fresh N c.cap s.mem
  written : ∀ c ∈ s.cores, c.written = []
  pending : ∀ c ∈ s.cores, c.pending = []

end Logging

def logging (p : Platform) (N : Nat) (s0 : Nat → Nat) : Machine Logging LoggingEvent where
  Init := Logging.Initial p N
  step := Logging.step p N s0

/-! ### An instance at rest -/

namespace Rest
variable {N s0 e a : Nat} {m : Mem} {written : List IdspPrintf} {c : CapInfo} {r : IdspPrintf}

theorem init (h : Fresh N c m) : Rest N s0 m [] 0 c := by
  refine ⟨⟨⟨h.two_le, h.size, h.awake, window_nil h.zero, by simp⟩, Nat.le_refl 0, Nat.zero_le _, ?_, ?_, ?_⟩,
    .fresh rfl (congrArg UInt32.toNat h.seq) h.unwrapped⟩
  · rw [h.current, Nat.zero_mod]
    rfl
  · intro i _ hi
    exact absurd hi (Nat.not_lt_zero i)
  · intro hw
    rw [h.unwrapped] at hw
    cases hw

/-- The DSP's next record, unless it laps the timer. -/
theorem write (h : Rest N s0 m written e c) (hr : r.seqNum.toNat = (s0 + written.length) % 4294967296)
    (hlap : written.length < e + N) :
    Rest N s0 (m.write (c.dsppfBase + dsplogEntrySize * (written.length % N)) r.bytes) (written ++ [r]) e c := by
  have hlen : (written ++ [r]).length = written.length + 1 := by simp
  refine ⟨⟨⟨h.two_le, h.size, h.awake, h.window.write r, forall_getElem?_concat h.numbered hr⟩, ?_, ?_, h.current,
    h.wraps.of_passed, fun hw => ?_⟩, h.mark⟩
  · exact hlen ▸ Nat.le_succ_of_le h.le
  · exact hlen ▸ hlap
  · obtain ⟨i, hi, hlt, hzero⟩ := h.wraps.passed_of hw
    exact ⟨i, hi, hlen ▸ Nat.lt_succ_of_lt hlt, hzero⟩

theorem frame (h : Rest N s0 m written e c)
    (hd : a + dsplogEntrySize ≤ c.dsppfBase ∨ c.dsppfBase + dsplogEntrySize * N ≤ a) :
    Rest N s0 (m.write a r.bytes) written e c :=
  ⟨⟨⟨h.two_le, h.size, h.awake, h.window.frame hd, h.numbered⟩, h.le, h.near, h.current, h.wraps⟩, h.mark⟩

end Rest

/-! ### The invariant -/

namespace Logging
variable {p : Platform} {N k fuel : Nat} {s0 : Nat → Nat} {s t : Logging} {c : Core} {r : IdspPrintf}

/-- The core's instance is at rest behind a record, and all later records are pending. -/
def Serves (N s0 : Nat) (m : Mem) (c : Core) : Prop := ∃ e, Rest N s0 m c.written e c.cap ∧
  ∀ i, e ≤ i → i < c.written.length → c.cap.dsppfBase + dsplogEntrySize * (i % N) ∈ c.pending

structure Inv (p : Platform) (N : Nat) (s0 : Nat → Nat) (s : Logging) : Prop where
  cores : s.cores.length ≤ p.ucodeCoreNum
  apart : s.Apart N
  serves : ∀ k c, s.cores[k]? = some c → Serves N (s0 k) s.mem c

theorem tick_solo (hlen : s.cores.length ≤ p.ucodeCoreNum) {services : List Service}
    (h : dspPrintkTimer p s.mem fuel (s.cores.map Core.cap) = some services) (hc : s.cores[k]? = some c) :
    ∃ sv n, services[k]? = some sv ∧ solo (Service.visit p s.mem) n ⟨c.cap, []⟩ = some sv := by
  obtain ⟨-, hserves⟩ := dspPrintkTimer_serves h
  obtain ⟨sv, hsv, hin, -⟩ := hserves k c.cap (by simp [hc])
  obtain ⟨hk, -⟩ := List.getElem?_eq_some_iff.mp hc
  obtain ⟨n, hn⟩ := hin (by omega)
  exact ⟨sv, n, hsv, hn⟩

namespace Inv

theorem init (h : Initial p N s) : Inv p N s0 s := by
  refine ⟨h.cores, h.apart, fun k c hc => ?_⟩
  have hmem := List.mem_of_getElem? hc
  refine ⟨0, ?_, ?_⟩
  · rw [h.written c hmem]
    exact .init (h.fresh c hmem)
  · rw [h.written c hmem]
    intro i _ hi
    exact absurd hi (Nat.not_lt_zero i)

/-- What is not pending may be written over: the timer is past it. -/
theorem write (h : Inv p N s0 s) (hc : s.cores[k]? = some c)
    (hr : r.seqNum.toNat = (s0 k + c.written.length) % 4294967296) (hfree : c.slot N ∉ c.pending) :
    Inv p N s0 ⟨s.cores.set k (c.write N r), s.mem.write (c.slot N) r.bytes⟩ := by
  have cases_set {i : Nat} {c' : Core} (hc' : (s.cores.set k (c.write N r))[i]? = some c') :
      i = k ∧ c' = c.write N r ∨ i ≠ k ∧ s.cores[i]? = some c' := by
    rcases eq_or_ne k i with rfl | hne
    · rw [List.getElem?_set_self (List.getElem?_eq_some_iff.mp hc).1] at hc'
      exact Or.inl ⟨rfl, (Option.some.inj hc').symm⟩
    · rw [List.getElem?_set_ne hne] at hc'
      exact Or.inr ⟨hne.symm, hc'⟩
  refine ⟨by simpa using h.cores, fun i j c₁ c₂ hij hc₁ hc₂ => ?_, fun i c' hc' => ?_⟩
  · rcases cases_set hc₁ with ⟨rfl, rfl⟩ | ⟨-, hold₁⟩ <;> rcases cases_set hc₂ with ⟨rfl, rfl⟩ | ⟨-, hold₂⟩
    · exact absurd rfl hij
    · exact h.apart _ _ c c₂ hij hc hold₂
    · exact h.apart _ _ c₁ c hij hold₁ hc
    · exact h.apart _ _ c₁ c₂ hij hold₁ hold₂
  · rcases cases_set hc' with ⟨rfl, rfl⟩ | ⟨hne, hc'⟩
    · obtain ⟨e, hrest, hpending⟩ := h.serves _ c hc
      have hN := hrest.two_le
      have hlap : c.written.length < e + N := by
        by_contra hge
        refine hfree ?_
        have hmem := hpending (c.written.length - N) (by omega) (by omega)
        rwa [← Nat.mod_eq_sub_mod (show N ≤ c.written.length by omega)] at hmem
      refine ⟨e, hrest.write hr hlap, fun i hei hi => ?_⟩
      simp only [Core.write, List.length_append, List.length_singleton, List.mem_append, List.mem_singleton] at hi ⊢
      rcases Nat.lt_or_ge i c.written.length with hlt | hge
      · exact Or.inl (hpending i hei hlt)
      · obtain rfl : i = c.written.length := by omega
        exact Or.inr rfl
    · obtain ⟨e, hrest, hpending⟩ := h.serves i c' hc'
      have hN := hrest.two_le
      have hin : dsplogEntrySize * (c.written.length % N) + dsplogEntrySize ≤ dsplogEntrySize * N := by
        rw [← Nat.mul_succ]
        exact Nat.mul_le_mul_left _ (Nat.mod_lt _ (by omega))
      refine ⟨e, hrest.frame ?_, hpending⟩
      unfold Core.slot
      rcases h.apart i k c' c hne hc' hc with hd | hd
      · exact Or.inr (by omega)
      · exact Or.inl (by omega)

theorem endless (h : Inv p N s0 s) (hc : s.cores[k]? = some c) (hwrap : WrapAt (s0 k) c.written.length) (fuel : Nat) :
    dspPrintkTimer p s.mem fuel (s.cores.map Core.cap) = none := by
  rw [Option.eq_none_iff_forall_ne_some]
  intro services hs
  obtain ⟨sv, n, -, hsolo⟩ := tick_solo h.cores hs hc
  obtain ⟨e, hrest, -⟩ := h.serves k c hc
  rw [hrest.endless hwrap n] at hsolo
  cases hsolo

/-- What a tick that ends does for a core: it hands over at most `N` records, and leaves its instance at rest. -/
theorem served (h : Inv p N s0 s) {services : List Service}
    (hs : dspPrintkTimer p s.mem fuel (s.cores.map Core.cap) = some services) (hc : s.cores[k]? = some c) :
    ∃ sv, services[k]? = some sv ∧ sv.handed.length ≤ N ∧ sv.cap.place = c.cap.place ∧
      Serves N (s0 k) s.mem (c.tick sv) := by
  obtain ⟨sv, n, hsv, hsolo⟩ := tick_solo h.cores hs hc
  obtain ⟨e, hrest, hpending⟩ := h.serves k c hc
  have hcalm : ¬WrapAt (s0 k) c.written.length := fun hwrap => by
    rw [hrest.endless hwrap n] at hsolo
    cases hsolo
  have hplace := solo_place hsolo
  have hbase : sv.cap.dsppfBase = c.cap.dsppfBase := congrArg Place.base hplace
  obtain ⟨sv', hsolo', hlen, hcase⟩ := hrest.drain (p := p) hcalm
  obtain rfl := solo_unique hsolo' hsolo
  refine ⟨sv', hsv, hlen, hplace, ?_⟩
  rcases hcase with ⟨hnone, hrest⟩ | hrest
  · refine ⟨e, hrest, fun i hei hi => ?_⟩
    have hmem := hpending i hei hi
    simp only [Core.tick, hnone, hbase, List.map_nil, List.not_mem_nil, not_false_eq_true, decide_true, List.filter_true]
    exact hmem
  · exact ⟨_, hrest, fun i hei hi => absurd hi (Nat.not_lt_of_le hei)⟩

theorem tick (h : Inv p N s0 s) {services : List Service}
    (hs : dspPrintkTimer p s.mem fuel (s.cores.map Core.cap) = some services) :
    Inv p N s0 { s with cores := List.zipWith Core.tick s.cores services } := by
  have of_tick {i : Nat} {c' : Core} (hc' : (List.zipWith Core.tick s.cores services)[i]? = some c') :
      ∃ c sv, s.cores[i]? = some c ∧ c' = c.tick sv ∧ sv.cap.place = c.cap.place ∧ Serves N (s0 i) s.mem c' := by
    obtain ⟨c, sv, hc, hsv, rfl⟩ := List.getElem?_zipWith_eq_some.mp hc'
    obtain ⟨sv', hsv', -, hplace, hserves⟩ := h.served hs hc
    obtain rfl : sv' = sv := Option.some.inj (hsv'.symm.trans hsv)
    exact ⟨c, sv', hc, rfl, hplace, hserves⟩
  refine ⟨?_, ?_, fun i c' hc' => ?_⟩
  · rw [List.length_zipWith]
    exact Nat.le_trans (Nat.min_le_left _ _) h.cores
  · intro i j c₁ c₂ hij hc₁ hc₂
    obtain ⟨c₁', sv₁, hc₁', rfl, hplace₁, -⟩ := of_tick hc₁
    obtain ⟨c₂', sv₂, hc₂', rfl, hplace₂, -⟩ := of_tick hc₂
    have hbase₁ : sv₁.cap.dsppfBase = c₁'.cap.dsppfBase := congrArg Place.base hplace₁
    have hbase₂ : sv₂.cap.dsppfBase = c₂'.cap.dsppfBase := congrArg Place.base hplace₂
    simp only [Core.tick, hbase₁, hbase₂]
    exact h.apart i j c₁' c₂' hij hc₁' hc₂'
  · obtain ⟨-, -, -, -, -, hserves⟩ := of_tick hc'
    exact hserves

theorem step {ev : LoggingEvent} (h : Inv p N s0 s) (hs : Logging.step p N s0 s ev = some t) : Inv p N s0 t := by
  cases ev with
  | dspWrite k r =>
    simp only [Logging.step] at hs
    split at hs
    · cases hs
    · rename_i c hc
      split at hs
      · rename_i hG
        cases hs
        exact h.write hc hG.1 hG.2
      · cases hs
  | tick fuel =>
    obtain ⟨services, hticks, rfl⟩ := Option.map_eq_some_iff.mp hs
    exact h.tick hticks

end Inv

theorem inv (h : (logging p N s0).Reachable s) : Inv p N s0 s :=
  h.invariant (fun _ h => Inv.init h) fun _ _ _ hI hs => hI.step hs

/-- In every reachable state, a tick ends with at most `N` records handed over for each core exactly when no
    core's last record is numbered `0xFFFFFFFF`, or zero and not its first record. -/
theorem tick_ends_iff (h : (logging p N s0).Reachable s) :
    (∃ fuel services, dspPrintkTimer p s.mem fuel (s.cores.map Core.cap) = some services ∧
      ∀ sv ∈ services, sv.handed.length ≤ N) ↔ ∀ k c, s.cores[k]? = some c → ¬WrapAt (s0 k) c.written.length := by
  have hI := inv h
  constructor
  · rintro ⟨fuel, services, hs, -⟩ k c hc hwrap
    rw [hI.endless hc hwrap fuel] at hs
    cases hs
  · intro hcalm
    have hends : (dspPrintkTimer p s.mem (p.ucodeCoreNum * (N + 1)) (s.cores.map Core.cap)).isSome := by
      refine dspPrintkTimer_ends (fun k cap _ hcap => ?_) (Nat.le_refl (p.ucodeCoreNum * (N + 1)))
      rw [List.getElem?_map] at hcap
      obtain ⟨c, hc, rfl⟩ := Option.map_eq_some_iff.mp hcap
      obtain ⟨e, hrest, -⟩ := hI.serves k c hc
      obtain ⟨sv, hsolo, -⟩ := hrest.drain (p := p) (hcalm k c hc)
      rw [hsolo]
      rfl
    obtain ⟨services, hs⟩ := Option.isSome_iff_exists.mp hends
    refine ⟨_, services, hs, fun sv hsv => ?_⟩
    obtain ⟨k, hk⟩ := List.mem_iff_getElem?.mp hsv
    obtain ⟨hlen, -⟩ := dspPrintkTimer_serves hs
    have hlt := (List.getElem?_eq_some_iff.mp hk).1
    rw [hlen, List.length_map] at hlt
    obtain ⟨sv', hsv', hle, -⟩ := hI.served hs (List.getElem?_eq_getElem hlt)
    obtain rfl : sv' = sv := Option.some.inj (hsv'.symm.trans hk)
    exact hle

def tinyLogging : Logging where
  cores := [⟨(CapInfo.new (Platform.tiny 2 Nat.two_pos) 0 0 0 0).start, [], []⟩,
    ⟨(CapInfo.new (Platform.tiny 2 Nat.two_pos) 1 1 1 64).start, [], []⟩]
  mem := fun _ => 0

theorem tinyLogging_initial : Initial (Platform.tiny 2 (by decide)) 2 tinyLogging := by
  refine ⟨Nat.le_refl 2, ?_, ?_, ?_, ?_⟩
  · intro i j c c' hij hi hj
    rcases i with _ | _ | i <;> rcases j with _ | _ | j
    all_goals first | exact absurd rfl hij | cases hi
    all_goals cases hj
    · exact Or.inl (by decide)
    · exact Or.inr (by decide)
  all_goals
    intro c hc
    rcases List.mem_cons.mp hc with rfl | hc
    · first | rfl | exact Capture.fresh_start (by decide) (by decide) fun _ _ _ => rfl
    · obtain rfl := List.mem_singleton.mp hc
      first | rfl | exact Capture.fresh_start (by decide) (by decide) fun _ _ _ => rfl

/-- The first core's DSP counts from just below the wrap, the second one's from one. -/
def firstNumber (k : Nat) : Nat := if k = 0 then 0xFFFFFFFE else 1

/-- Both cores log a record, and the timer ticks. -/
def belowWrap : List LoggingEvent :=
  [.dspWrite 0 ⟨0xFFFFFFFE, 0, 9, 0, 0, 0, 0, 0⟩, .dspWrite 1 ⟨1, 0, 9, 0, 0, 0, 0, 0⟩, .tick 8]

/-- Then the first core logs the record numbered `0xFFFFFFFF`. -/
def toWrap : List LoggingEvent := belowWrap ++ [.dspWrite 0 ⟨0xFFFFFFFF, 0, 9, 0, 0, 0, 0, 0⟩]

theorem exec_toWrap : ∃ s c, (logging (Platform.tiny 2 (by decide)) 2 firstNumber).exec tinyLogging toWrap = some s ∧
    s.cores[0]? = some c ∧ c.written.length = 2 := ⟨_, _, rfl, rfl, rfl⟩

/-- The next tick goes round the first core's window for ever. -/
theorem tick_at_wrap : ¬∀ s, (logging (Platform.tiny 2 (by decide)) 2 firstNumber).Reachable s →
    ∃ fuel services, dspPrintkTimer (Platform.tiny 2 (by decide)) s.mem fuel (s.cores.map Core.cap) = some services ∧
      ∀ sv ∈ services, sv.handed.length ≤ 2 := by
  intro h
  obtain ⟨s, c, hs, hc, hlen⟩ := exec_toWrap
  have hreach := Machine.Reachable.exec (.init tinyLogging_initial) hs
  obtain ⟨fuel, services, hticks, -⟩ := h s hreach
  have hwrap : WrapAt (firstNumber 0) c.written.length := by
    rw [hlen]
    exact ⟨by decide, Or.inl (by decide)⟩
  rw [(inv hreach).endless hc hwrap fuel] at hticks
  cases hticks

theorem exec_belowWrap : ∃ s, (logging (Platform.tiny 2 (by decide)) 2 firstNumber).exec tinyLogging belowWrap = some s :=
  ⟨_, rfl⟩

theorem tick_ends_iff_belowWrap : ∃ s, (logging (Platform.tiny 2 (by decide)) 2 firstNumber).exec tinyLogging belowWrap =
    some s ∧ ((∃ fuel services, dspPrintkTimer (Platform.tiny 2 (by decide)) s.mem fuel (s.cores.map Core.cap) =
      some services ∧ ∀ sv ∈ services, sv.handed.length ≤ 2) ↔
        ∀ k c, s.cores[k]? = some c → ¬WrapAt (firstNumber k) c.written.length) := by
  obtain ⟨s, hs⟩ := exec_belowWrap
  exact ⟨s, hs, tick_ends_iff (Machine.Reachable.exec (.init tinyLogging_initial) hs)⟩

end Logging
end Dsplog
