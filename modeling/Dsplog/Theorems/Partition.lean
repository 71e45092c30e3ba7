import Dsplog.Theorems.Registry

/-! The partition of the log region: each instance keeps the window of its own core. Suspend and resume
    give every instance the whole region instead, and nothing narrows it again. -/

namespace Dsplog
open Bytes Machines

namespace Platform
variable {p : Platform} {i : UInt32}

theorem coreLogSize_toNat : p.coreLogSize.toNat = p.logSize.toNat / p.ucodeCoreNum := by
  have hle := Nat.div_le_self p.logSize.toNat p.ucodeCoreNum
  rw [coreLogSize, UInt32.toNat_ofNat', Nat.mod_eq_of_lt (Nat.lt_of_le_of_lt hle p.logSize.toNat_lt)]

theorem coreOffset_toNat (hi : i.toNat < p.ucodeCoreNum) :
    (p.coreLogSize * i).toNat = p.logSize.toNat / p.ucodeCoreNum * i.toNat := by
  have hle : p.logSize.toNat / p.ucodeCoreNum * i.toNat ≤ p.logSize.toNat :=
    (Nat.mul_le_mul_left _ (Nat.le_of_lt hi)).trans (Nat.div_mul_le_self _ _)
  rw [UInt32.toNat_mul, coreLogSize_toNat, Nat.mod_eq_of_lt (Nat.lt_of_le_of_lt hle p.logSize.toNat_lt)]

/-- The whole region is the window of the only core, and of every core when it is empty. -/
theorem place_whole (hi : i.toNat < p.ucodeCoreNum) (h : p.ucodeCoreNum = 1 ∨ p.logSize = 0) :
    p.place i = ⟨i, p.logBase, p.logSize, false⟩ := by
  have hsize : p.coreLogSize = p.logSize := by
    rw [← UInt32.toNat_inj, coreLogSize_toNat]
    rcases h with h | h
    · rw [h, Nat.div_one]
    · rw [h]
      exact Nat.zero_div _
  have hoffset : (p.coreLogSize * i).toNat = 0 := by
    rw [coreOffset_toNat hi]
    rcases h with h | h
    · rw [show i.toNat = 0 by omega, Nat.mul_zero]
    · rw [h]
      simp
  rw [place, hoffset, hsize, Nat.add_zero]

end Platform

namespace Driver
variable {p : Platform} {d d' : Driver} {op : Op} {ops : List Op} {r : Reply}

/-- Each instance that is not suspended has the window of its own core: the windows of different cores do
    not overlap, and `dsplog_get_memory_info` and a snapshot read tell of that window. -/
structure OwnWindows (p : Platform) (d : Driver) : Prop where
  window : ∀ c ∈ d.queue, c.dspSuspended = false →
    c.dsppfBase = p.logBase + p.logSize.toNat / p.ucodeCoreNum * c.dspId.toNat ∧
      c.dsplogBufSize.toNat = p.logSize.toNat / p.ucodeCoreNum
  disjoint : ∀ c ∈ d.queue, ∀ c' ∈ d.queue, c.dspSuspended = false → c'.dspSuspended = false → c.dspId ≠ c'.dspId →
    c.dsppfBase + c.dsplogBufSize.toNat ≤ c'.dsppfBase ∨ c'.dsppfBase + c'.dsplogBufSize.toNat ≤ c.dsppfBase
  memInfo : ∀ k c, d.queue[k]? = some c → c.dspSuspended = false → ∃ size : UInt32,
    d.dsplogGetMemoryInfo (some k) = .ok (c.dspId, size) ∧ size.toNat = p.logSize.toNat / p.ucodeCoreNum
  snapshot : ∀ c ∈ d.queue, c.dspSuspended = false → ∀ maxSize copyOk bs dump,
    c.readSnapshot d.mem maxSize copyOk = (.ok bs, dump) →
      bs = d.mem.read (p.logBase + p.logSize.toNat / p.ucodeCoreNum * c.dspId.toNat)
        (p.logSize.toNat / p.ucodeCoreNum)

/-- A resume finds no instance, or the region is one window. -/
def ResumesSafely (p : Platform) (d : Driver) (op : Op) : Prop :=
  op = .resume → d.queue = [] ∨ p.ucodeCoreNum = 1 ∨ p.logSize = 0

structure Placed (p : Platform) (d : Driver) : Prop extends Registered p d where
  placed : ∀ c ∈ d.queue, c.dspSuspended = false → c.place = p.place c.dspId

namespace Placed

theorem init (h : Initial d) : Placed p d :=
  ⟨⟨by simp [h.queue], by simp [h.queue]⟩, by simp [h.queue]⟩

theorem grows (h : Placed p d) (hg : Grows p d d') : Placed p d' := by
  refine ⟨h.toRegistered.grows hg, fun c' hc' hawake => ?_⟩
  have hmem : c'.place ∈ d'.queue.map CapInfo.place := List.mem_map_of_mem hc'
  have hold : ∀ c ∈ d.queue, c.place = c'.place → c'.place = p.place c'.dspId := by
    intro c hc heq
    have hid : c.dspId = c'.dspId := congrArg Place.dspId heq
    have hsuspended : c.dspSuspended = c'.dspSuspended := congrArg Place.suspended heq
    rw [← heq, ← hid]
    exact h.placed c hc (hsuspended.trans hawake)
  rcases hg with hsame | ⟨dspId, -, -, hadd⟩
  · rw [hsame] at hmem
    obtain ⟨c, hc, heq⟩ := List.mem_map.mp hmem
    exact hold c hc heq
  · rw [hadd] at hmem
    rcases List.mem_append.mp hmem with hmem | hmem
    · obtain ⟨c, hc, heq⟩ := List.mem_map.mp hmem
      exact hold c hc heq
    · have heq := List.mem_singleton.mp hmem
      have hid : c'.dspId = dspId := congrArg Place.dspId heq
      rw [heq, hid]

theorem step (h : Placed p d) (hG : ResumesSafely p d op) (hs : d.step p op = some (d', r)) : Placed p d' := by
  by_cases hsuspend : op = .suspend
  · refine ⟨h.toRegistered.step hs, fun c hc hawake => ?_⟩
    subst hsuspend
    cases hs
    obtain ⟨c₀, -, rfl⟩ := List.mem_map.mp hc
    cases hawake
  · by_cases hresume : op = .resume
    · refine ⟨h.toRegistered.step hs, fun c hc hawake => ?_⟩
      have hwhole := hG hresume
      subst hresume
      cases hs
      obtain ⟨c₀, hc₀, rfl⟩ := List.mem_map.mp hc
      rcases hwhole with hnil | hwhole
      · rw [hnil] at hc₀
        cases hc₀
      · exact (Platform.place_whole (h.below c₀ hc₀) hwhole).symm
    · exact h.grows (step_grows hs hsuspend hresume)

theorem window (h : Placed p d) {c : CapInfo} (hc : c ∈ d.queue) (hawake : c.dspSuspended = false) :
    c.dsppfBase = p.logBase + p.logSize.toNat / p.ucodeCoreNum * c.dspId.toNat ∧
      c.dsplogBufSize.toNat = p.logSize.toNat / p.ucodeCoreNum := by
  have hplace := h.placed c hc hawake
  have hbase : c.dsppfBase = p.logBase + (p.coreLogSize * c.dspId).toNat := congrArg Place.base hplace
  have hsize : c.dsplogBufSize = p.coreLogSize := congrArg Place.size hplace
  rw [hbase, hsize, Platform.coreOffset_toNat (h.below c hc), Platform.coreLogSize_toNat]
  exact ⟨rfl, rfl⟩

theorem ownWindows (h : Placed p d) : OwnWindows p d where
  window c hc hawake := h.window hc hawake
  disjoint c hc c' hc' hawake hawake' hne := by
    obtain ⟨hbase, hsize⟩ := h.window hc hawake
    obtain ⟨hbase', hsize'⟩ := h.window hc' hawake'
    rw [hbase, hsize, hbase', hsize']
    have hid : c.dspId.toNat ≠ c'.dspId.toNat := fun heq => hne (UInt32.toNat_inj.mp heq)
    rcases Nat.lt_or_gt_of_ne hid with hlt | hlt
    · have hle := Nat.mul_le_mul_left (p.logSize.toNat / p.ucodeCoreNum) (Nat.succ_le_of_lt hlt)
      rw [Nat.mul_succ] at hle
      exact Or.inl (by omega)
    · have hle := Nat.mul_le_mul_left (p.logSize.toNat / p.ucodeCoreNum) (Nat.succ_le_of_lt hlt)
      rw [Nat.mul_succ] at hle
      exact Or.inr (by omega)
  memInfo k c hc hawake := by
    refine ⟨c.dsplogBufSize, ?_, (h.window (List.mem_of_getElem? hc) hawake).2⟩
    simp [dsplogGetMemoryInfo, hc]
  snapshot c hc hawake maxSize copyOk bs dump hread := by
    obtain ⟨hbase, hsize⟩ := h.window hc hawake
    unfold CapInfo.readSnapshot at hread
    split at hread
    · cases hread
    · rename_i hmax
      have hmax : maxSize = p.logSize.toNat / p.ucodeCoreNum := by
        rw [← hsize]
        exact Decidable.not_not.mp hmax
      cases copyOk <;> cases hread
      rw [hbase, hmax]

theorem breaks (hG : ¬ResumesSafely p d op) (hs : d.step p op = some (d', r)) : ¬OwnWindows p d' := by
  simp only [ResumesSafely, Classical.not_imp, not_or] at hG
  obtain ⟨rfl, hne, hcores, hsize⟩ := hG
  cases hs
  intro hown
  obtain ⟨c, hc⟩ := List.exists_mem_of_ne_nil _ hne
  have hwhole : p.logSize.toNat = p.logSize.toNat / p.ucodeCoreNum :=
    (hown.window (c.resume p) (List.mem_map_of_mem hc) rfl).2
  have hpos : 0 < p.logSize.toNat := Nat.pos_of_ne_zero fun h0 => hsize (UInt32.toNat_inj.mp h0)
  have hcores' := p.ucodeCoreNum_pos
  exact absurd hwhole (Nat.ne_of_gt (Nat.div_lt_self hpos (by omega)))

end Placed

/-- In a run of the driver every instance keeps the window of its own core exactly when each resume finds
    no instance, or there is one core only, or the log region is empty. -/
theorem ownWindows_iff_resumesSafely (hd : Initial d) (h : (driver p).exec d ops = some d') :
    (∀ x ∈ (driver p).visited d ops, OwnWindows p x) ↔ ∀ x ∈ (driver p).trace d ops, ResumesSafely p x.1 x.2 :=
  forall_iff_guarded (I := Placed p) (fun _ _ _ _ hI hG hs => hI.step hG hs) (fun _ hI => hI.ownWindows)
    (fun _ _ _ _ _ hG hs => Placed.breaks hG hs) (Placed.init hd) h

/-- A file selects core 1, and the system is suspended and resumed. -/
def suspended : List Op := [.openFile 0 true, .ioctl 0 (.setDspCore 10 (some 1) ⟨true, some 64⟩), .suspend, .resume]

/-- After the resume the instance of core 1 has the window of core 0, and more. -/
theorem resume_moves_window : ¬∀ d, (driver (Platform.tiny 2 (by decide))).Reachable d →
    OwnWindows (Platform.tiny 2 (by decide)) d := by
  intro h
  have hown := h _ (Machine.Reachable.exec (M := driver (Platform.tiny 2 (by decide))) (.init empty_initial)
    (rfl : Machine.exec _ empty suspended = some _))
  have hwindow := (hown.window _ (List.mem_singleton_self _) rfl).2
  exact absurd hwindow (by decide)

theorem ownWindows_iff_resumesSafely_suspended :
    (∀ x ∈ (driver (Platform.tiny 2 (by decide))).visited empty suspended, OwnWindows (Platform.tiny 2 (by decide)) x) ↔
      ∀ x ∈ (driver (Platform.tiny 2 (by decide))).trace empty suspended,
        ResumesSafely (Platform.tiny 2 (by decide)) x.1 x.2 :=
  ownWindows_iff_resumesSafely empty_initial rfl

end Driver
end Dsplog
