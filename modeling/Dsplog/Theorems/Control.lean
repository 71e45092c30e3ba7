import Dsplog.Theorems.Registry

/-! Control operations and the captures of others: what a failing control operation leaves behind, and what
    an operation on one core does to the capture of another. Registration and STOP switch the one timer
    off, whether or not they succeed and whoever depends on it. -/

namespace Dsplog
open Bytes Machines RoundRobin

/-- The control operations that may fail on their way into the registry. -/
def Ioctl.Control : Ioctl → Prop
  | .setDspCore .. | .startCapture .. => True
  | _ => False

/-- A command on a file with the instance `priv` gets as far as the registry's search for an instance. -/
def Ioctl.Registers (p : Platform) (priv : Option Nat) : Ioctl → Prop
  | .setDspCore _ arg _ => ∃ dspId, arg = some dspId ∧ dspId.toNat < p.ucodeCoreNum
  | .startCapture .. => priv = none ∧ p.ucodeCoreNum = 1
  | _ => False

namespace Driver
variable {p : Platform} {d d' : Driver} {f : File} {cmd : Ioctl} {context : Context} {e : Errno} {op : Op}

/-! ### Failing operations -/

theorem setFile_self (hf : d.files f = some context) : d.setFile f (some context) = d := by
  rw [setFile, ← hf, Function.update_eq_self]

theorem register_none {filp : File} {pid : Nat} {dspId : UInt32} {alloc : Alloc} {d₁ : Driver}
    (h : d.dsplogRegisterLogCap p filp pid dspId alloc = (d₁, none)) :
    p.ucodeCoreNum ≤ dspId.toNat ∧ d₁ = d ∨ dspId.toNat < p.ucodeCoreNum ∧ d₁ = d.dspPrintkDeinitTimer := by
  rcases d.register_cases p filp pid dspId alloc with ⟨hge, hreg⟩ | ⟨hlt, ⟨-, hreg⟩ | ⟨k, c, -, -, -, hreg⟩ | ⟨ring, -, -, hreg⟩⟩ <;>
    rw [hreg] at h <;> cases h
  · exact Or.inl ⟨hge, rfl⟩
  · exact Or.inr ⟨hlt, rfl⟩

/-- A failing control operation changes nothing, unless it got as far as the registry's search: then it
    leaves the timer off. -/
theorem failed_cases (hcmd : cmd.Control) (hf : d.files f = some context)
    (h : d.ambaDsplogIoctl p f context cmd = (d', .error e)) :
    ¬cmd.Registers p context.dsplogPrivData ∧ d' = d ∨
      cmd.Registers p context.dsplogPrivData ∧ d' = d.dspPrintkDeinitTimer := by
  cases cmd with
  | setDspCore pid arg alloc =>
    cases arg with
    | none =>
      cases h
      refine Or.inl ⟨?_, rfl⟩
      rintro ⟨dspId, harg, -⟩
      cases harg
    | some dspId =>
      rcases hreg : d.dsplogRegisterLogCap p f pid dspId alloc with ⟨d₁, _ | k⟩ <;>
        simp only [ambaDsplogIoctl, dsplogSetDspCoreId, hreg] at h <;> cases h
      rcases register_none hreg with ⟨hge, rfl⟩ | ⟨hlt, rfl⟩
      · refine Or.inl ⟨?_, rfl⟩
        rintro ⟨dspId', harg, hlt⟩
        cases harg
        exact Nat.not_lt_of_le hge hlt
      · exact Or.inr ⟨⟨dspId, rfl, hlt⟩, rfl⟩
  | startCapture pid alloc =>
    rcases d.start_cases p f pid alloc context.dsplogPrivData with ⟨k, -, hs⟩ | ⟨hpriv, hC, hs⟩ |
      ⟨hpriv, hC, d₁, ⟨hreg, hs⟩ | ⟨k, -, hs⟩⟩ <;> simp only [ambaDsplogIoctl, hs] at h <;> cases h
    · refine Or.inl ⟨fun hreg => hC hreg.2, ?_⟩
      rw [← hpriv]
      exact setFile_self hf
    · refine Or.inr ⟨⟨hpriv, hC⟩, ?_⟩
      have hd₁ : d₁ = d.dspPrintkDeinitTimer := by
        rcases register_none hreg with ⟨hge, -⟩ | ⟨-, rfl⟩
        · exact absurd p.ucodeCoreNum_pos (Nat.not_lt_of_le hge)
        · rfl
      rw [hd₁, ← hpriv]
      exact setFile_self hf
  | stopCapture | setLogLevel | getLogLevel copyOk | parseLog | getMemoryInfo copyOk | dumpMemorySnapshot arg | other =>
    exact hcmd.elim

/-- A failing SET_DSP_CORE or START leaves the driver as it was exactly when the timer was off already or the
    call was refused before the registry's search. -/
theorem failed_unchanged_iff (cmd : Ioctl) (hcmd : cmd.Control) (hf : d.files f = some context)
    (h : d.step p (.ioctl f cmd) = some (d', .error e)) :
    d' = d ↔ ¬(d.timerInitialized = true ∧ cmd.Registers p context.dsplogPrivData) := by
  have h : d.ambaDsplogIoctl p f context cmd = (d', .error e) := by
    simpa only [step, hf, Option.map_some, Option.some.injEq] using h
  rcases failed_cases hcmd hf h with ⟨hreg, rfl⟩ | ⟨hreg, rfl⟩
  · exact iff_of_true rfl fun hon => hreg hon.2
  · constructor
    · rintro hd ⟨hon, -⟩
      rw [← hd] at hon
      cases hon
    · intro hoff
      have hoff : d.timerInitialized = false := by
        cases hon : d.timerInitialized with
        | false => rfl
        | true => exact absurd ⟨hon, hreg⟩ hoff
      cases d
      cases hoff
      rfl

def captureRunning : List Op := [.openFile 0 true, .ioctl 0 (.startCapture 10 ⟨true, some 64⟩), .openFile 1 true]

/-- The other file asks for the occupied core: it is refused, and the running capture gets no records any more. -/
theorem refused_core_stops_timer : ¬∀ (d d' : Driver) (f : File) (cmd : Ioctl) (e : Errno),
    (driver (Platform.tiny 1 (by decide))).Reachable d → cmd.Control →
    d.step (Platform.tiny 1 (by decide)) (.ioctl f cmd) = some (d', .error e) → d' = d := by
  intro h
  have hsame := h _ _ 1 (.setDspCore 11 (some 0) ⟨true, some 128⟩) .efault
    (Machine.Reachable.exec (M := driver (Platform.tiny 1 (by decide))) (.init empty_initial)
      (rfl : Machine.exec _ empty captureRunning = some _)) trivial rfl
  have htimer := congrArg Driver.timerInitialized hsame
  cases htimer

theorem failed_unchanged_iff_refused : ∃ d d' : Driver,
    (driver (Platform.tiny 1 (by decide))).exec empty captureRunning = some d ∧
      d.step (Platform.tiny 1 (by decide)) (.ioctl 1 (.setDspCore 11 (some 0) ⟨true, some 128⟩)) =
        some (d', .error .efault) ∧
      (d' = d ↔ ¬(d.timerInitialized = true ∧
        (Ioctl.setDspCore 11 (some 0) ⟨true, some 128⟩).Registers (Platform.tiny 1 (by decide)) none)) :=
  ⟨_, _, rfl, rfl, failed_unchanged_iff (f := 1) (.setDspCore 11 (some 0) ⟨true, some 128⟩) trivial rfl rfl⟩

/-! ### Operations on another core -/

/-- The operation is made by a file for a core other than that of the instance `c`. -/
def Elsewhere (d : Driver) (c : CapInfo) : Op → Prop
  | .ioctl _ (.setDspCore _ arg _) => ∃ dspId, arg = some dspId ∧ dspId ≠ c.dspId
  | .ioctl f (.startCapture ..) | .ioctl f .stopCapture | .close f => ∃ context j c', d.files f = some context ∧
      context.dsplogPrivData = some j ∧ d.queue[j]? = some c' ∧ c'.dspId ≠ c.dspId
  | _ => False

/-- After the step from `d` to `d'` the timer is on, instance `k` is as it was, and whatever the log memory
    is by then, the next tick serves the instance as it would have done before. -/
structure Undisturbed (p : Platform) (d d' : Driver) (k : Nat) : Prop where
  timer : d'.timerInitialized = true
  cap : d'.queue[k]? = d.queue[k]?
  tick : ∀ (m : Mem) (fuel : Nat) (d'' : Driver) (r : Reply) (c : CapInfo), d.queue[k]? = some c →
    ({ d' with mem := m } : Driver).step p (.tick fuel) = some (d'', r) →
    ∃ n s, solo (Service.visit p m) n ⟨c, []⟩ = some s ∧ d''.queue[k]? = some s.cap

theorem tick_serves {fuel k : Nat} {r : Reply} {c : CapInfo} (h : d.step p (.tick fuel) = some (d', r))
    (hc : d.queue[k]? = some c) (hk : k < p.ucodeCoreNum) :
    ∃ n s, solo (Service.visit p d.mem) n ⟨c, []⟩ = some s ∧ d'.queue[k]? = some s.cap := by
  simp only [step] at h
  split at h
  · obtain ⟨services, hs, hd⟩ := Option.map_eq_some_iff.mp h
    cases hd
    obtain ⟨s, hget, hin, -⟩ := (dspPrintkTimer_serves hs).2 k c hc
    obtain ⟨n, hn⟩ := hin hk
    exact ⟨n, s, hn, by simp [hget]⟩
  · cases h

theorem undisturbed {k : Nat} {c : CapInfo} (hr : Registered p d) (hc : d.queue[k]? = some c)
    (htimer : d'.timerInitialized = true) (hcap : d'.queue[k]? = d.queue[k]?) : Undisturbed p d d' k := by
  refine ⟨htimer, hcap, fun m fuel d'' r c' hc' htick => ?_⟩
  have hk : k < p.ucodeCoreNum := Nat.lt_of_lt_of_le (List.getElem?_eq_some_iff.mp hc).1 hr.length_le
  have hserves := tick_serves (d := { d' with mem := m }) htick (hcap.trans hc') hk
  exact hserves

theorem register_some {filp : File} {pid k : Nat} {dspId : UInt32} {alloc : Alloc} {d₁ : Driver}
    (h : d.dsplogRegisterLogCap p filp pid dspId alloc = (d₁, some k)) : d₁.timerInitialized = false := by
  rcases d.register_cases p filp pid dspId alloc with ⟨-, hreg⟩ | ⟨-, ⟨-, hreg⟩ | ⟨k, c, -, -, -, hreg⟩ | ⟨ring, -, -, hreg⟩⟩ <;>
    rw [hreg] at h <;> cases h <;> rfl

theorem release_eq_self_iff {c : CapInfo} : c.release f = c ↔ ¬(c.filp = some f ∧ c.active = true) := by
  unfold CapInfo.release
  split
  · rename_i hown
    refine iff_of_false (fun heq => ?_) (fun hnot => hnot hown)
    have hactive := congrArg CapInfo.active heq
    rw [hown.2] at hactive
    cases hactive
  · rename_i hown
    exact iff_of_true rfl hown

/-- While the timer is on, an operation on another core leaves a capture undisturbed exactly when it is a
    START, or a close of a file that does not own the capture. -/
theorem undisturbed_iff (op : Op) {k : Nat} {c : CapInfo} (hr : (driver p).Reachable d) (hon : d.timerInitialized = true)
    (hc : d.queue[k]? = some c) (helse : Elsewhere d c op) (h : d.step p op = some (d', .done)) :
    Undisturbed p d d' k ↔ (∃ f pid alloc, op = .ioctl f (.startCapture pid alloc)) ∨
      ∃ f, op = .close f ∧ ¬(c.filp = some f ∧ c.active = true) := by
  have hreg := registered hr
  cases op with
  | ioctl f cmd =>
    cases cmd with
    | startCapture pid alloc =>
      obtain ⟨context, j, c', hf, hpriv, hj, hne⟩ := helse
      refine iff_of_true (undisturbed hreg hc ?_ ?_) (Or.inl ⟨f, pid, alloc, rfl⟩) <;>
        simp only [step, hf, Option.map_some, ambaDsplogIoctl, dsplogStartCap, hpriv, reduceCtorEq, false_and,
          if_false, Option.some.injEq, Prod.mk.injEq] at h <;> rw [← h.1]
      · simp only [setFile, startInstance]
        split
        · rfl
        · exact hon
      · have hjk : j ≠ k := by
          rintro rfl
          rw [hj] at hc
          cases hc
          exact hne rfl
        simp only [setFile, startInstance]
        split <;> exact List.getElem?_modify_ne _ _ hjk
    | stopCapture =>
      obtain ⟨context, j, c', hf, hpriv, -⟩ := helse
      simp only [step, hf, Option.map_some, ambaDsplogIoctl, dsplogStopCap, hpriv, Option.some.injEq,
        Prod.mk.injEq] at h
      refine iff_of_false (fun hund => ?_) (by simp)
      have htimer := hund.timer
      rw [← h.1] at htimer
      cases htimer
    | setDspCore pid arg alloc =>
      obtain ⟨dspId, rfl, -⟩ := helse
      obtain ⟨context, hf, hd⟩ := Option.map_eq_some_iff.mp h
      rcases hregister : d.dsplogRegisterLogCap p f pid dspId alloc with ⟨d₁, _ | j⟩ <;>
        simp only [ambaDsplogIoctl, dsplogSetDspCoreId, hregister] at hd <;> cases hd
      refine iff_of_false (fun hund => ?_) (by simp)
      have htimer := hund.timer
      have hoff : d₁.timerInitialized = true := htimer
      rw [register_some hregister] at hoff
      cases hoff
    | setLogLevel | getLogLevel copyOk | parseLog | getMemoryInfo copyOk | dumpMemorySnapshot arg | other =>
      exact helse.elim
  | close f =>
    simp only [step] at h
    split at h <;> cases h
    have hrelease : (d.queue.map (·.release f))[k]? = some (c.release f) := by
      rw [List.getElem?_map, hc]
      rfl
    constructor
    · intro hund
      have hcap : (d.queue.map (·.release f))[k]? = d.queue[k]? := hund.cap
      rw [hrelease, hc] at hcap
      exact Or.inr ⟨f, rfl, release_eq_self_iff.mp (Option.some.inj hcap)⟩
    · rintro (⟨f', pid, alloc, heq⟩ | ⟨f', heq, hown⟩)
      · cases heq
      · cases heq
        refine undisturbed hreg hc hon ?_
        rw [hc, ← release_eq_self_iff.mpr hown]
        exact hrelease
  | openFile f allocOk | read f maxSize copyOk copy | wake i interrupted | resumeRead i copy | dspWrite a bs | tick fuel
    | suspend | resume | resetCap => exact helse.elim

def bothRunning : List Op :=
  [.openFile 0 true, .openFile 1 true, .ioctl 0 (.setDspCore 10 (some 0) ⟨true, some 64⟩),
    .ioctl 1 (.setDspCore 11 (some 1) ⟨true, some 128⟩), .ioctl 0 (.startCapture 10 ⟨false, none⟩),
    .ioctl 1 (.startCapture 11 ⟨false, none⟩)]

/-- STOP on one core switches the timer off for the other. -/
theorem stop_ends_other_capture : ¬∀ (d d' : Driver) (op : Op) (k : Nat) (c : CapInfo),
    (driver (Platform.tiny 2 (by decide))).Reachable d → d.timerInitialized = true → d.queue[k]? = some c →
    c.dsplogState = true → Elsewhere d c op → d.step (Platform.tiny 2 (by decide)) op = some (d', .done) →
    Undisturbed (Platform.tiny 2 (by decide)) d d' k := by
  intro h
  have hund := h _ _ (.ioctl 1 .stopCapture) 0 _
    (Machine.Reachable.exec (M := driver (Platform.tiny 2 (by decide))) (.init empty_initial)
      (rfl : Machine.exec _ empty bothRunning = some _)) rfl rfl rfl ⟨_, 1, _, rfl, rfl, rfl, by decide⟩ rfl
  cases hund.timer

theorem undisturbed_iff_start : ∃ d d' c, (driver (Platform.tiny 2 (by decide))).exec empty bothRunning = some d ∧
    d.queue[0]? = some c ∧
    d.step (Platform.tiny 2 (by decide)) (.ioctl 1 (.startCapture 11 ⟨false, none⟩)) = some (d', .done) ∧
    (Undisturbed (Platform.tiny 2 (by decide)) d d' 0 ↔
      (∃ f pid alloc, Op.ioctl 1 (.startCapture 11 ⟨false, none⟩) = .ioctl f (.startCapture pid alloc)) ∨
        ∃ f, Op.ioctl 1 (.startCapture 11 ⟨false, none⟩) = .close f ∧ ¬(c.filp = some f ∧ c.active = true)) :=
  ⟨_, _, _, rfl, rfl, rfl, undisturbed_iff (.ioctl 1 (.startCapture 11 ⟨false, none⟩))
    (Machine.Reachable.exec (M := driver (Platform.tiny 2 (by decide))) (.init empty_initial)
      (rfl : Machine.exec _ empty bothRunning = some _)) rfl rfl ⟨_, 1, _, rfl, rfl, rfl, by decide⟩ rfl⟩

end Driver
end Dsplog
