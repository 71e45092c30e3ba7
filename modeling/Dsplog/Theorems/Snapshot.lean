import Dsplog.Theorems.Bounds
import Dsplog.Theorems.Memory

/-! The memory snapshot of a core, as a tool takes it: it asks for the size of the core's window, asks for a snapshot and
    reads with that size, while the other files, the timer and the DSPs go on. A suspend or a resume in between gives the
    instance the whole region instead, and the size that the tool was told is refused. -/

namespace Dsplog
open Bytes Machines RoundRobin

namespace CapInfo

/-- Where the window of the instance starts, and its size. -/
def window (c : CapInfo) : Nat × UInt32 := (c.dsppfBase, c.dsplogBufSize)

theorem window_of_place {c c' : CapInfo} (h : c'.place = c.place) : c'.window = c.window :=
  Prod.ext (congrArg Place.base h) (congrArg Place.size h)

theorem window_of_frame {c c' : CapInfo} (h : c'.frame = c.frame) : c'.window = c.window := by
  have hwindow := congrArg CapInfo.window h
  exact hwindow

end CapInfo

namespace Driver
variable {p : Platform} {d d' : Driver} {k : Nat} {op : Op} {ops : List Op} {r : Reply} {c c' : CapInfo} {f : File}

/-! ### The window of an instance over a run -/

theorem alters_window (hop : op.Running) (h : Alters p d k c op c') : c'.window = c.window := by
  cases h with
  | readRing => exact CapInfo.window_of_frame (c.frame_readRing p _)
  | readThrough => exact CapInfo.window_of_frame (CapInfo.frame_readOut.trans (c.frame_readRing p _))
  | readOut => exact CapInfo.window_of_frame CapInfo.frame_readOut
  | release => exact CapInfo.window_of_place CapInfo.place_release
  | tick hsolo => exact CapInfo.window_of_place (solo_place hsolo)
  | suspend => exact absurd rfl hop.1
  | resume => exact absurd rfl hop.2
  | keep | occupy | start | occupyStart | stop | takeToken | reset => rfl

theorem step_window (hr : (driver p).Reachable d) (hc : d.queue[k]? = some c) (h : d.step p op = some (d', r)) :
    ∃ c', d'.queue[k]? = some c' ∧ c'.window = if op.Running then c.window else (p.logBase, p.logSize) := by
  by_cases hop : op.Running
  · have hk := Nat.lt_of_lt_of_le (List.getElem?_eq_some_iff.mp hc).1 (registered hr).length_le
    obtain ⟨c', hc', ha⟩ := step_alters hk hc h
    rw [if_pos hop]
    exact ⟨c', hc', alters_window hop ha⟩
  · have hsleeps : op = .suspend ∨ op = .resume := by
      by_contra hneither
      exact hop (not_or.mp hneither)
    rw [if_neg hop]
    rcases hsleeps with rfl | rfl <;> cases h
    · exact ⟨c.suspend p, by rw [dsplogSuspend, List.getElem?_map, hc]; rfl, rfl⟩
    · exact ⟨c.resume p, by rw [dsplogResume, List.getElem?_map, hc]; rfl, rfl⟩

/-- An instance keeps its window unless the system is suspended or resumed on the way; then it has the whole region, from
    then on. -/
theorem exec_window (hr : (driver p).Reachable d) (hc : d.queue[k]? = some c) (h : (driver p).exec d ops = some d') :
    ∃ c', d'.queue[k]? = some c' ∧
      c'.window = if ∀ op ∈ ops, op.Running then c.window else (p.logBase, p.logSize) := by
  induction ops generalizing d c with
  | nil =>
    cases h
    exact ⟨c, hc, (if_pos (List.forall_mem_nil _)).symm⟩
  | cons op ops ih =>
    obtain ⟨d₁, hd₁, hrest⟩ := Option.bind_eq_some_iff.mp h
    obtain ⟨⟨d₁, r⟩, hs, rfl⟩ := Option.map_eq_some_iff.mp hd₁
    obtain ⟨c₁, hc₁, hwindow₁⟩ := step_window hr hc hs
    obtain ⟨c', hc', hwindow⟩ := ih (.step op hr hd₁) hc₁ hrest
    refine ⟨c', hc', ?_⟩
    rw [hwindow, hwindow₁]
    by_cases hop : op.Running <;> simp [hop]

/-- A window of the size of the region is the region. -/
theorem window_whole (hwindow : p.Contains c.place) (hsize : c.dsplogBufSize = p.logSize) :
    c.window = (p.logBase, p.logSize) := by
  have hlow : p.logBase ≤ c.dsppfBase := hwindow.1
  have hhigh : c.dsppfBase + c.dsplogBufSize.toNat ≤ p.logBase + p.logSize.toNat := hwindow.2
  rw [hsize] at hhigh
  exact Prod.ext (show c.dsppfBase = p.logBase by omega) hsize

/-! ### The reads of a tool -/

theorem setCap_self (hc : d.queue[k]? = some c) : d.setCap k c = d := by
  obtain ⟨hk, rfl⟩ := List.getElem?_eq_some_iff.mp hc
  rw [setCap, List.set_getElem_self]

/-- A snapshot read that is told the wrong size, or that cannot be copied, changes nothing; it can be made again. -/
theorem step_readSnapshot {size : UInt32} {copyOk : Bool} {copy : Copy} (hf : d.files f = some ⟨some k, true⟩)
    (hc : d.queue[k]? = some c) : d.step p (.read f size.toNat copyOk copy) = some (
      if size ≠ c.window.2 then (d, .error .einval)
      else if copyOk then (d.setFile f (some ⟨some k, false⟩), .bytes (d.mem.read c.window.1 size.toNat))
      else (d, .error .efault)) := by
  simp only [step, hf, Option.bind_some, ambaDsplogRead, hc, Option.map_some, CapInfo.readEnter, if_true,
    CapInfo.readSnapshot, CapInfo.window, UInt32.toNat_inj, ne_eq]
  have hset (context : Option Context) : (d.setFile f context).setCap k c = d.setFile f context := setCap_self hc
  by_cases hsize : size = c.dsplogBufSize
  · cases copyOk <;> simp [hsize, setFile_self hf, setCap_self hc, hset, Reply.ofRead]
  · simp [hsize, setFile_self hf, setCap_self hc, Reply.ofRead]

/-- The size that GET_MEMORY_INFO tells is that of the window of the file's instance. -/
theorem memInfo_told {dspId size : UInt32} {copyOk : Bool} {d₁ : Driver}
    (h : d.step p (.ioctl f (.getMemoryInfo copyOk)) = some (d₁, .memInfo dspId size)) :
    d₁ = d ∧ ∃ k c, Refers d f k ∧ d.queue[k]? = some c ∧ dspId = c.dspId ∧ size = c.window.2 := by
  obtain ⟨context, hf, hd⟩ := Option.map_eq_some_iff.mp h
  cases hinfo : d.dsplogGetMemoryInfo context.dsplogPrivData with
  | error e =>
    simp only [ambaDsplogIoctl, hinfo] at hd
    cases hd
  | ok info =>
    simp only [ambaDsplogIoctl, hinfo] at hd
    unfold dsplogGetMemoryInfo at hinfo
    split at hinfo <;> cases hinfo
    rename_i c hc
    obtain ⟨k, hpriv, hc⟩ := Option.bind_eq_some_iff.mp hc
    cases copyOk <;> cases hd
    exact ⟨rfl, k, c, ⟨context, hf, hpriv⟩, hc, rfl, rfl⟩

/-- A tool is told the size of its core's window and later, whatever happens in between, reads a snapshot with that size
    from the same instance: it gets the bytes that the window holds by then, and the flag is cleared, unless the system was
    suspended or resumed on the way. Then its size is refused, and so it is each time it tries again, unless the window was
    the whole region from the start. -/
theorem snapshot_answers {copyOk copyOk' : Bool} {copy : Copy} {dspId size : UInt32} {d₁ : Driver}
    (hr : (driver p).Reachable d) (hc : d.queue[k]? = some c) (hf : Refers d f k)
    (hinfo : d.step p (.ioctl f (.getMemoryInfo copyOk)) = some (d₁, .memInfo dspId size))
    (hrun : (driver p).exec d₁ ops = some d') (hflag : d'.files f = some ⟨some k, true⟩) :
    d'.step p (.read f size.toNat copyOk' copy) = some (
      if size ≠ p.logSize ∧ ¬∀ op ∈ ops, op.Running then (d', .error .einval)
      else if copyOk' then (d'.setFile f (some ⟨some k, false⟩), .bytes (d'.mem.read c.dsppfBase size.toNat))
      else (d', .error .efault)) := by
  obtain ⟨rfl, k', c₀, ⟨context', hf', hpriv'⟩, hc₀, -, hsize⟩ := memInfo_told hinfo
  obtain ⟨context, hfile, hpriv⟩ := hf
  rw [hfile] at hf'
  cases hf'
  rw [hpriv] at hpriv'
  cases hpriv'
  rw [hc] at hc₀
  cases hc₀
  obtain ⟨c', hc', hwindow⟩ := exec_window hr hc hrun
  rw [step_readSnapshot hflag hc']
  by_cases hdivided : size ≠ p.logSize ∧ ¬∀ op ∈ ops, op.Running
  · rw [if_neg hdivided.2] at hwindow
    rw [if_pos hdivided, hwindow, if_pos hdivided.1]
  · have hsame : c'.window = c.window := by
      split at hwindow
      · exact hwindow
      · rename_i hops
        have hwhole : size = p.logSize := by
          by_contra hne
          exact hdivided ⟨hne, hops⟩
        rw [hwindow, window_whole (windows hr c (List.mem_of_getElem? hc)) (hsize.symm.trans hwhole)]
    rw [if_neg hdivided, hsame, ← hsize, if_neg (not_not.mpr rfl)]
    rfl

/-! Both cores are captured; between the tool's question and its read the other core's DSP writes, and the system sleeps. -/

def sleepsBetween : List Op :=
  [.ioctl 1 (.dumpMemorySnapshot 1), .dspWrite 4096 [1, 0, 0, 0], .tick 4, .suspend, .resume]

def bothCaptured : Driver := ((driver (Platform.tiny 2 Nat.two_pos)).exec empty bothRunning).get (by decide +kernel)

def afterSleep : Driver := ((driver (Platform.tiny 2 Nat.two_pos)).exec bothCaptured sleepsBetween).get (by decide +kernel)

theorem snapshot_answers_slept :
    afterSleep.step (Platform.tiny 2 Nat.two_pos) (.read 1 (64 : UInt32).toNat true ⟨true, true⟩) = some (
      if (64 : UInt32) ≠ (Platform.tiny 2 Nat.two_pos).logSize ∧ ¬∀ op ∈ sleepsBetween, op.Running then
        (afterSleep, .error .einval)
      else if true then (afterSleep.setFile 1 (some ⟨some 1, false⟩), .bytes (afterSleep.mem.read 4160 (64 : UInt32).toNat))
      else (afterSleep, .error .efault)) := by
  have hasked : bothCaptured.step (Platform.tiny 2 Nat.two_pos) (.ioctl 1 (.getMemoryInfo true)) =
      some (bothCaptured, .memInfo 1 64) := by rfl
  have hflag : afterSleep.files 1 = some ⟨some 1, true⟩ := by decide +kernel
  have hcap : bothCaptured.queue[1]?.map (·.dsppfBase) = some 4160 := by decide +kernel
  obtain ⟨c, hc, hbase⟩ := Option.map_eq_some_iff.mp hcap
  rw [← hbase]
  exact snapshot_answers (.exec (.init empty_initial) (Option.some_get _).symm) hc ⟨⟨some 1, false⟩, by decide +kernel, rfl⟩
    hasked (Option.some_get _).symm hflag

end Driver
end Dsplog
