import Dsplog.Driver
import Dsplog.Theorems.Tick

/-! The balanced drain. A tick takes one record from each core in turn, and still leaves every core as a tick
    would leave it that served only this core: neither the other cores nor the order of the queue matter. -/

namespace Dsplog
open Bytes RoundRobin

variable {p : Platform} {m : Mem} {fuel : Nat} {caps : List CapInfo} {services : List Service} {c : CapInfo} {s : Service}

/-- A tick on a queue of one instance is the service of this instance alone. -/
theorem dspPrintkTimer_single :
    (∃ fuel, dspPrintkTimer p m fuel [c] = some [s]) ↔ ∃ n, solo (Service.visit p m) n ⟨c, []⟩ = some s := by
  rw [dspPrintkTimer_iff]
  constructor
  · rintro ⟨-, h⟩
    exact (h 0 c s rfl rfl).1 p.ucodeCoreNum_pos
  · intro h
    refine ⟨rfl, fun k c' s' hc hs => ?_⟩
    cases k with
    | zero =>
      cases hc
      cases hs
      exact ⟨fun _ => h, fun hle => absurd p.ucodeCoreNum_pos (Nat.not_lt_of_le hle)⟩
    | succ k => cases hc

theorem dspPrintkTimer_single_length (h : dspPrintkTimer p m fuel [c] = some services) : ∃ s, services = [s] :=
  List.length_eq_one_iff.mp (dspPrintkTimer_serves h).1

/-- If the drain of each instance alone ends, the drain of all of them ends, in every order, and leaves each
    instance as its drain alone does. -/
theorem balanced_drain (hlen : caps.length ≤ p.ucodeCoreNum)
    (hsolo : ∀ c ∈ caps, ∃ fuel services, dspPrintkTimer p m fuel [c] = some services) :
    ∃ alone : CapInfo → Service,
      (∀ c ∈ caps, ∀ fuel services, dspPrintkTimer p m fuel [c] = some services → services = [alone c]) ∧
      ∀ caps' : List CapInfo, caps'.Perm caps →
        (∃ fuel, dspPrintkTimer p m fuel caps' = some (caps'.map alone)) ∧
        ∀ fuel services, dspPrintkTimer p m fuel caps' = some services → services = caps'.map alone := by
  have halone : ∀ c, ∃ s, c ∈ caps → ∃ fuel, dspPrintkTimer p m fuel [c] = some [s] := by
    intro c
    by_cases hc : c ∈ caps
    · obtain ⟨fuel, services, h⟩ := hsolo c hc
      obtain ⟨s, rfl⟩ := dspPrintkTimer_single_length h
      exact ⟨s, fun _ => ⟨fuel, h⟩⟩
    · exact ⟨⟨c, []⟩, fun h => absurd h hc⟩
  choose alone halone using halone
  refine ⟨alone, fun c hc fuel services h => ?_, fun caps' hperm => ?_⟩
  · obtain ⟨fuel', hfuel'⟩ := halone c hc
    exact dspPrintkTimer_unique h hfuel'
  · have hends : ∃ fuel, dspPrintkTimer p m fuel caps' = some (caps'.map alone) := by
      refine dspPrintkTimer_iff.mpr ⟨List.length_map _, fun k c s hc hs => ?_⟩
      rw [List.getElem?_map, hc] at hs
      cases hs
      have hk : k < caps'.length := (List.getElem?_eq_some_iff.mp hc).1
      have hlen' := hperm.length_eq
      refine ⟨fun _ => ?_, fun hge => by omega⟩
      exact dspPrintkTimer_single.mp (halone c (hperm.mem_iff.mp (List.mem_of_getElem? hc)))
    refine ⟨hends, fun fuel services h => ?_⟩
    obtain ⟨fuel', hfuel'⟩ := hends
    exact dspPrintkTimer_unique h hfuel'

def tinyCap (dspId : UInt32) : CapInfo := (CapInfo.new (Platform.tiny 2 Nat.two_pos) 0 0 dspId 0).start

def twoRecords : Mem :=
  Mem.write (fun _ => 0) 4096 ((IdspPrintf.mk 1 0 9 0 0 0 0 0).bytes ++ (IdspPrintf.mk 2 0 9 0 0 0 0 0).bytes)

theorem solo_drain_ends : ∀ c ∈ [tinyCap 0, tinyCap 1], ∃ fuel services,
    dspPrintkTimer (Platform.tiny 2 (by decide)) twoRecords fuel [c] = some services := by
  intro c hc
  rcases List.mem_cons.mp hc with rfl | hc
  · exact ⟨3, _, rfl⟩
  · rw [List.mem_singleton.mp hc]
    exact ⟨1, _, rfl⟩

theorem balanced_drain_two : ∃ alone : CapInfo → Service,
    (∀ c ∈ [tinyCap 0, tinyCap 1], ∀ fuel services,
      dspPrintkTimer (Platform.tiny 2 (by decide)) twoRecords fuel [c] = some services → services = [alone c]) ∧
    ∀ caps' : List CapInfo, caps'.Perm [tinyCap 0, tinyCap 1] →
      (∃ fuel, dspPrintkTimer (Platform.tiny 2 (by decide)) twoRecords fuel caps' = some (caps'.map alone)) ∧
      ∀ fuel services, dspPrintkTimer (Platform.tiny 2 (by decide)) twoRecords fuel caps' = some services →
        services = caps'.map alone :=
  balanced_drain (by decide) solo_drain_ends

end Dsplog
