import Dsplog.Theorems.Registry

/-! The census of the registry: a core that is registered stays so, and the timer runs only while all of them
    are. START compares no more than the length of the queue with the number of cores. -/

namespace Dsplog
open Bytes Machines

namespace Driver
variable {p : Platform} {d d' : Driver} {op : Op} {ops : List Op} {r : Reply}

/-- The queue holds each core at most once, and the timer is on only when it holds all of them: then every
    instance has its entry in the working array of a tick, and as many instances as cores are all cores. -/
structure Census (p : Platform) (d : Driver) : Prop where
  below : ∀ c ∈ d.queue, c.dspId.toNat < p.ucodeCoreNum
  distinct : (d.queue.map CapInfo.dspId).Nodup
  complete : d.timerInitialized = true → ∀ i, i < p.ucodeCoreNum → (d.queue.map (·.dspId.toNat)).count i = 1
  fits : d.queue.length ≤ p.ucodeCoreNum
  entered : ∀ i : Fin d.queue.length, capInfoArray p d.queue.length i = some i
  counted : d.queue.length = p.ucodeCoreNum ↔ ∀ i, i < p.ucodeCoreNum → ∃ c ∈ d.queue, c.dspId.toNat = i

/-! ### Cores that are registered -/

theorem Grows.ids (h : Grows p d d') : d.queue.map CapInfo.dspId <+: d'.queue.map CapInfo.dspId := by
  rw [ids_eq_places, ids_eq_places]
  rcases h with hsame | ⟨dspId, -, -, hadd⟩
  · exact ⟨[], by rw [List.append_nil, hsame]⟩
  · rw [hadd, List.map_append]
    exact List.prefix_append _ _

theorem step_ids (h : d.step p op = some (d', r)) : d.queue.map CapInfo.dspId <+: d'.queue.map CapInfo.dspId := by
  by_cases hsuspend : op = .suspend
  · subst hsuspend
    cases h
    rw [dsplogSuspend, List.map_map]
    exact List.prefix_refl _
  · by_cases hresume : op = .resume
    · subst hresume
      cases h
      rw [dsplogResume, List.map_map]
      exact List.prefix_refl _
    · exact (step_grows h hsuspend hresume).ids

theorem exec_ids (h : (driver p).exec d ops = some d') : d.queue.map CapInfo.dspId <+: d'.queue.map CapInfo.dspId := by
  induction ops generalizing d with
  | nil =>
    cases h
    exact List.prefix_refl _
  | cons op ops ih =>
    obtain ⟨d₁, hs, hrest⟩ := Option.bind_eq_some_iff.mp h
    obtain ⟨r, hstep⟩ := step_outcome hs
    exact (step_ids hstep).trans (ih hrest)

/-! ### The timer and the length of the queue -/

/-- After the step the timer is off, or all cores are registered, or the timer was on before with as many
    instances. -/
def Timed (p : Platform) (d d' : Driver) : Prop :=
  d'.timerInitialized = true → d'.queue.length = p.ucodeCoreNum ∨
    d.timerInitialized = true ∧ d'.queue.length = d.queue.length

theorem timed_of_off (h : d'.timerInitialized = false) : Timed p d d' := fun hon => by
  rw [h] at hon
  cases hon

theorem timed_of_same (ht : d'.timerInitialized = d.timerInitialized) (hl : d'.queue.length = d.queue.length) :
    Timed p d d' := fun hon => Or.inr ⟨ht ▸ hon, hl⟩

theorem timed_register (d : Driver) (p : Platform) (filp : File) (pid : Nat) (dspId : UInt32) (alloc : Alloc) :
    Timed p d (d.dsplogRegisterLogCap p filp pid dspId alloc).1 := by
  rcases d.register_cases p filp pid dspId alloc with ⟨-, h⟩ | ⟨-, ⟨-, h⟩ | ⟨k, c, -, -, -, h⟩ | ⟨ring, -, -, h⟩⟩ <;> rw [h]
  · exact timed_of_same rfl rfl
  · exact timed_of_off rfl
  · exact timed_of_off rfl
  · exact timed_of_off rfl

theorem startInstance_timed (d : Driver) (p : Platform) (k : Nat) : Timed p d (d.startInstance p k) := by
  unfold startInstance
  simp only
  split
  · rename_i hall
    exact fun _ => Or.inl hall
  · exact timed_of_same rfl (List.length_modify ..)

/-- The count is made after the registration. -/
theorem timed_start (d : Driver) (p : Platform) (filp : File) (pid : Nat) (alloc : Alloc) (priv : Option Nat) :
    Timed p d (d.dsplogStartCap p filp pid alloc priv).1 := by
  have hregister := d.timed_register p filp pid 0 alloc
  rcases d.start_cases p filp pid alloc priv with ⟨k, -, h⟩ | ⟨-, -, h⟩ | ⟨-, -, d₁, ⟨hreg, h⟩ | ⟨k, hreg, h⟩⟩ <;> rw [h]
  · exact d.startInstance_timed p k
  · exact timed_of_same rfl rfl
  · rwa [hreg] at hregister
  · rw [hreg] at hregister
    intro hon
    rcases d₁.startInstance_timed p k hon with hall | ⟨hon₁, hlen⟩
    · exact Or.inl hall
    · rw [hlen]
      exact hregister hon₁

theorem timed_ioctl (d : Driver) (p : Platform) (f : File) (context : Context) (cmd : Ioctl) :
    Timed p d (d.ambaDsplogIoctl p f context cmd).1 := by
  cases cmd with
  | startCapture pid alloc => exact d.timed_start p f pid alloc context.dsplogPrivData
  | stopCapture =>
    cases hpriv : context.dsplogPrivData with
    | none => simp only [ambaDsplogIoctl, hpriv]; exact timed_of_same rfl rfl
    | some k => simp only [ambaDsplogIoctl, hpriv]; exact timed_of_off rfl
  | setDspCore pid arg alloc =>
    cases arg with
    | none => exact timed_of_same rfl rfl
    | some dspId =>
      have hregister := d.timed_register p f pid dspId alloc
      rcases hreg : d.dsplogRegisterLogCap p f pid dspId alloc with ⟨d₁, _ | k⟩ <;> rw [hreg] at hregister <;>
        simp only [ambaDsplogIoctl, dsplogSetDspCoreId, hreg] <;> exact hregister
  | getMemoryInfo copyOk =>
    cases hinfo : d.dsplogGetMemoryInfo context.dsplogPrivData <;> simp only [ambaDsplogIoctl, hinfo] <;>
      exact timed_of_same rfl rfl
  | setLogLevel | getLogLevel copyOk | parseLog | dumpMemorySnapshot arg | other => exact timed_of_same rfl rfl

theorem step_timed (h : d.step p op = some (d', r)) : Timed p d d' := by
  cases op with
  | openFile | read | wake | resumeRead | dspWrite | tick =>
    obtain ⟨htimer, hframe⟩ := step_frame h trivial
    exact timed_of_same htimer (by simpa only [List.length_map] using congrArg List.length hframe)
  | ioctl f cmd =>
    obtain ⟨context, -, hd⟩ := Option.map_eq_some_iff.mp h
    have htimed := d.timed_ioctl p f context cmd
    rwa [hd] at htimed
  | close f =>
    simp only [step] at h
    split at h <;> cases h
    exact timed_of_same rfl (List.length_map ..)
  | suspend | resume | resetCap =>
    cases h
    exact timed_of_same rfl (List.length_map ..)

/-- The timer is on only with as many instances as cores. -/
theorem length_of_on (h : (driver p).Reachable d) : d.timerInitialized = true → d.queue.length = p.ucodeCoreNum := by
  refine reachable_invariant (I := fun d => d.timerInitialized = true → d.queue.length = p.ucodeCoreNum)
    (fun d hd hon => ?_) (fun d op d' r hlen hs hon => ?_) h
  · rw [hd.timer] at hon
    cases hon
  · rcases step_timed hs hon with hall | ⟨hon, hsame⟩
    · exact hall
    · exact hsame.trans (hlen hon)

/-! ### The census -/

namespace Registered

/-- As many instances as cores are all cores. -/
theorem counted (h : Registered p d) :
    d.queue.length = p.ucodeCoreNum ↔ ∀ i, i < p.ucodeCoreNum → i ∈ d.queue.map (·.dspId.toNat) := by
  constructor
  · intro hlen i hi
    have hsub := List.subperm_of_subset h.nodup_toNat h.subset_range
    have hperm := hsub.perm_of_length_le (by rw [List.length_range, List.length_map, hlen])
    exact hperm.mem_iff.mpr (List.mem_range.mpr hi)
  · intro hall
    have hsub := List.subperm_of_subset (List.nodup_range (n := p.ucodeCoreNum))
      fun i hi => hall i (List.mem_range.mp hi)
    have hge := hsub.length_le
    rw [List.length_range, List.length_map] at hge
    exact Nat.le_antisymm h.length_le hge

end Registered

theorem census (h : (driver p).Reachable d) : Census p d := by
  have hreg := registered h
  refine ⟨hreg.below, hreg.distinct, fun hon i hi => ?_, hreg.length_le, fun i => ?_, ?_⟩
  · exact List.count_eq_one_of_mem hreg.nodup_toNat (hreg.counted.mp (length_of_on h hon) i hi)
  · have hlt : i.val < p.ucodeCoreNum := Nat.lt_of_lt_of_le i.isLt hreg.length_le
    simp [capInfoArray, hlt]
  · rw [hreg.counted]
    simp only [List.mem_map]

/-- Along every run the census holds, and no core leaves the queue. -/
theorem census_kept (h : (driver p).Reachable d) (he : (driver p).exec d ops = some d') :
    Census p d' ∧ d.queue.map CapInfo.dspId <+: d'.queue.map CapInfo.dspId :=
  ⟨census (h.exec he), exec_ids he⟩

def oneOfTwo : List Op :=
  [.openFile 0 true, .ioctl 0 (.setDspCore 10 (some 1) ⟨true, some 64⟩), .ioctl 0 (.setDspCore 10 (some 0) ⟨true, none⟩),
    .ioctl 0 (.startCapture 10 ⟨false, none⟩)]

def secondOfTwo : List Op :=
  [.ioctl 0 (.setDspCore 10 (some 0) ⟨true, some 128⟩), .ioctl 0 (.startCapture 10 ⟨false, none⟩)]

/-- The second core follows after a failed allocation. -/
theorem exec_secondOfTwo : ∃ d d', (driver (Platform.tiny 2 (by decide))).exec empty oneOfTwo = some d ∧
    (driver (Platform.tiny 2 (by decide))).exec d secondOfTwo = some d' ∧
    d.timerInitialized = false ∧ d'.timerInitialized = true := ⟨_, _, rfl, rfl, rfl, rfl⟩

theorem census_kept_two : ∃ d d', (driver (Platform.tiny 2 (by decide))).exec empty oneOfTwo = some d ∧
    (driver (Platform.tiny 2 (by decide))).exec d secondOfTwo = some d' ∧ d'.timerInitialized = true ∧
    Census (Platform.tiny 2 (by decide)) d' ∧ d.queue.map CapInfo.dspId <+: d'.queue.map CapInfo.dspId := by
  obtain ⟨d, d', he, he', -, hon⟩ := exec_secondOfTwo
  exact ⟨d, d', he, he', hon, census_kept (Machine.Reachable.exec (.init empty_initial) he) he'⟩

end Driver
end Dsplog
