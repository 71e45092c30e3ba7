import Mathlib.Data.List.FinRange
import Dsplog.Timer

/-! A tick of the timer as a whole: it serves each of the first `UCODE_CORE_NUM` instances as if that
    instance were alone, and it ends when each of them alone would be served in finitely many visits. -/

namespace Dsplog
open Bytes RoundRobin

variable {p : Platform} {m : Mem} {fuel : Nat} {caps : List CapInfo} {services services' : List Service}

/-- The instances that the callback takes into its working array. -/
def served (p : Platform) (n : Nat) : List (Fin n) := (List.finRange n).take p.ucodeCoreNum

theorem served_length {n : Nat} : (served p n).length = min p.ucodeCoreNum n := by simp [served]

theorem served_nodup {n : Nat} : (served p n).Nodup :=
  (List.nodup_finRange n).sublist (List.take_sublist _ _)

theorem mem_served {n : Nat} {i : Fin n} : i ∈ served p n ↔ i.val < p.ucodeCoreNum := by
  simp only [served, List.mem_take_iff_getElem, List.getElem_finRange, List.length_finRange]
  constructor
  · rintro ⟨k, hk, rfl⟩
    have hlt := lt_min_iff.mp hk
    exact hlt.1
  · intro hi
    exact ⟨i.val, lt_min_iff.mpr ⟨hi, i.isLt⟩, rfl⟩

theorem holds_served (p : Platform) (n : Nat) : RoundRobin.Holds (capInfoArray p n) (served p n) := by
  intro i hi
  rw [served_length] at hi
  obtain ⟨hlt, hn⟩ := lt_min_iff.mp hi
  simp [capInfoArray, served, hlt, hn]

/-- When a tick ends, it has served each instance of its array as if that instance were alone. -/
theorem dspPrintkTimer_serves (h : dspPrintkTimer p m fuel caps = some services) :
    services.length = caps.length ∧ ∀ (k : Nat) (c : CapInfo), caps[k]? = some c → ∃ s, services[k]? = some s ∧
      (k < p.ucodeCoreNum → ∃ n, solo (Service.visit p m) n ⟨c, []⟩ = some s) ∧
      (p.ucodeCoreNum ≤ k → s = ⟨c, []⟩) := by
  obtain ⟨ss, hloop, rfl⟩ := Option.map_eq_some_iff.mp h
  rw [← served_length] at hloop
  obtain ⟨hmem, hother⟩ := loop_solo served_nodup (holds_served p caps.length) hloop
  refine ⟨List.length_ofFn, fun k c hc => ?_⟩
  obtain ⟨hk, rfl⟩ := List.getElem?_eq_some_iff.mp hc
  refine ⟨ss ⟨k, hk⟩, by simp [hk], fun hlt => ?_, fun hge => ?_⟩
  · exact hmem ⟨k, hk⟩ (mem_served.mpr hlt)
  · exact hother ⟨k, hk⟩ fun hin => absurd (mem_served.mp hin) (Nat.not_lt_of_le hge)

/-- A tick ends when each of its instances alone is served in a bounded number of visits. -/
theorem dspPrintkTimer_ends {visits : Nat} (h : ∀ k c, k < p.ucodeCoreNum → caps[k]? = some c →
      (solo (Service.visit p m) visits ⟨c, []⟩).isSome) (hfuel : p.ucodeCoreNum * visits ≤ fuel) :
    (dspPrintkTimer p m fuel caps).isSome := by
  have hends : (loop (Service.visit p m) fuel (capInfoArray p caps.length) (served p caps.length).length
      fun i => ⟨caps[i], []⟩).isSome := by
    refine loop_ends (fun _ => visits) served_nodup (holds_served p caps.length) ?_ ?_
    · exact fun i hi => h i.val caps[i] (mem_served.mp hi) (List.getElem?_eq_getElem i.isLt)
    · rw [List.map_const', List.sum_replicate_nat, served_length]
      exact Nat.le_trans (Nat.mul_le_mul_right visits (Nat.min_le_left _ _)) hfuel
  rw [served_length] at hends
  rw [dspPrintkTimer, Option.isSome_map]
  exact hends

/-- What a tick makes of the queue does not depend on how many passes it is granted. -/
theorem dspPrintkTimer_unique {fuel' : Nat} (h : dspPrintkTimer p m fuel caps = some services)
    (h' : dspPrintkTimer p m fuel' caps = some services') : services = services' := by
  obtain ⟨hlen, hserves⟩ := dspPrintkTimer_serves h
  obtain ⟨hlen', hserves'⟩ := dspPrintkTimer_serves h'
  refine List.ext_getElem? fun k => ?_
  cases hc : caps[k]? with
  | none =>
    have hk := List.getElem?_eq_none_iff.mp hc
    rw [List.getElem?_eq_none (by omega), List.getElem?_eq_none (by omega)]
  | some c =>
    obtain ⟨s, hs, hin, hout⟩ := hserves k c hc
    obtain ⟨s', hs', hin', hout'⟩ := hserves' k c hc
    rw [hs, hs']
    rcases Nat.lt_or_ge k p.ucodeCoreNum with hk | hk
    · obtain ⟨n, hn⟩ := hin hk
      obtain ⟨n', hn'⟩ := hin' hk
      rw [solo_unique hn hn']
    · rw [hout hk, hout' hk]

/-- A tick ends with `services` exactly when the services of its instances alone end so. -/
theorem dspPrintkTimer_iff : (∃ fuel, dspPrintkTimer p m fuel caps = some services) ↔ services.length = caps.length ∧
    ∀ (k : Nat) (c : CapInfo) (s : Service), caps[k]? = some c → services[k]? = some s →
      (k < p.ucodeCoreNum → ∃ n, solo (Service.visit p m) n ⟨c, []⟩ = some s) ∧ (p.ucodeCoreNum ≤ k → s = ⟨c, []⟩) := by
  constructor
  · rintro ⟨fuel, h⟩
    obtain ⟨hlen, hserves⟩ := dspPrintkTimer_serves h
    refine ⟨hlen, fun k c s hc hs => ?_⟩
    obtain ⟨s', hs', hboth⟩ := hserves k c hc
    rw [hs] at hs'
    cases hs'
    exact hboth
  · rintro ⟨hlen, hsolo⟩
    have hends : ∀ i ∈ served p caps.length, ∃ n, (solo (Service.visit p m) n ⟨caps[i], []⟩).isSome := by
      intro i hi
      have hs : services[i.val]? = some services[i.val] := List.getElem?_eq_getElem (by omega)
      obtain ⟨n, hn⟩ := (hsolo i.val caps[i] _ (List.getElem?_eq_getElem i.isLt) hs).1 (mem_served.mp hi)
      exact ⟨n, by rw [hn]; rfl⟩
    choose! visits hvisits using hends
    have hloop := loop_ends visits served_nodup (holds_served p caps.length) hvisits (Nat.le_refl _)
    rw [served_length] at hloop
    obtain ⟨ss, hss⟩ := Option.isSome_iff_exists.mp hloop
    obtain ⟨fuel, hrun⟩ : ∃ fuel, dspPrintkTimer p m fuel caps = some (List.ofFn ss) :=
      ⟨_, congrArg (Option.map List.ofFn) hss⟩
    refine ⟨fuel, hrun.trans (congrArg some ?_)⟩
    obtain ⟨hlen', hserves⟩ := dspPrintkTimer_serves hrun
    refine List.ext_getElem (by omega) fun k hk hk' => ?_
    obtain ⟨s, hs, hin, hout⟩ := hserves k _ (List.getElem?_eq_getElem (show k < caps.length by omega))
    rw [List.getElem?_eq_getElem hk] at hs
    rw [Option.some.inj hs]
    obtain ⟨hin', hout'⟩ := hsolo k _ _ (List.getElem?_eq_getElem (show k < caps.length by omega))
      (List.getElem?_eq_getElem hk')
    rcases Nat.lt_or_ge k p.ucodeCoreNum with hlt | hge
    · obtain ⟨n, hn⟩ := hin hlt
      obtain ⟨n', hn'⟩ := hin' hlt
      exact solo_unique hn hn'
    · rw [hout hge, hout' hge]

end Dsplog
