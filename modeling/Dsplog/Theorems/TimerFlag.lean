import Dsplog.Interleaving
import Dsplog.Theorems.Registry

/-! What an operation does to `timer_initialized`. It may call `dsp_printk_deinit_timer` and after that
    `dsp_printk_init_timer`; otherwise the flag makes no difference to it. -/

namespace Dsplog
open Bytes Machines

namespace Driver
variable {p : Platform} {d d' : Driver} {op : Op} {r : Reply} {f : File} {context : Context} {b : Bool}

@[simp] theorem withTimer_timerInitialized : (d.withTimer b).timerInitialized = b := rfl

@[simp] theorem withTimer_queue : (d.withTimer b).queue = d.queue := rfl

@[simp] theorem withTimer_mem : (d.withTimer b).mem = d.mem := rfl

@[simp] theorem withTimer_files : (d.withTimer b).files = d.files := rfl

@[simp] theorem withTimer_readers : (d.withTimer b).readers = d.readers := rfl

@[simp] theorem withTimer_setFile {f : File} {context : Option Context} :
    (d.withTimer b).setFile f context = (d.setFile f context).withTimer b := rfl

@[simp] theorem withTimer_withTimer {b' : Bool} : (d.withTimer b).withTimer b' = d.withTimer b' := rfl

theorem withTimer_self : d.withTimer d.timerInitialized = d := rfl

theorem withTimer_of_eq (h : d.timerInitialized = b) : d.withTimer b = d := h ▸ withTimer_self

theorem register_withTimer {filp : File} {pid : Nat} {dspId : UInt32} {alloc : Alloc} :
    (d.withTimer b).dsplogRegisterLogCap p filp pid dspId alloc =
      ((d.dsplogRegisterLogCap p filp pid dspId alloc).1.withTimer (b && !decide (dspId.toNat < p.ucodeCoreNum)),
        (d.dsplogRegisterLogCap p filp pid dspId alloc).2) := by
  by_cases hid : dspId.toNat < p.ucodeCoreNum
  · have hsame : (d.withTimer b).dsplogRegisterLogCap p filp pid dspId alloc =
        d.dsplogRegisterLogCap p filp pid dspId alloc := by
      simp only [dsplogRegisterLogCap, if_neg (Nat.not_le_of_lt hid)]
      rfl
    rw [hsame, decide_eq_true hid, Bool.not_true, Bool.and_false]
    rcases d.register_cases p filp pid dspId alloc with ⟨hge, -⟩ | ⟨-, ⟨-, h⟩ | ⟨k, c, -, -, -, h⟩ | ⟨ring, -, -, h⟩⟩
    · omega
    all_goals rw [h]; rfl
  · rw [decide_eq_false hid, Bool.not_false, Bool.and_true]
    simp only [dsplogRegisterLogCap, if_pos (Nat.le_of_not_lt hid)]

theorem startInstance_withTimer {k : Nat} :
    (d.withTimer b).startInstance p k =
      (d.startInstance p k).withTimer (decide (d.queue.length = p.ucodeCoreNum) || b) := by
  simp only [startInstance, List.length_modify, withTimer_queue]
  by_cases hall : d.queue.length = p.ucodeCoreNum
  · rw [if_pos hall, if_pos hall, decide_eq_true hall, Bool.true_or]
    rfl
  · rw [if_neg hall, if_neg hall, decide_eq_false hall, Bool.false_or]
    rfl

theorem start_withTimer (d : Driver) (p : Platform) (filp : File) (pid : Nat) (alloc : Alloc) (priv : Option Nat) :
    ∃ inits, ∀ b,
    (d.withTimer b).dsplogStartCap p filp pid alloc priv =
      ((d.dsplogStartCap p filp pid alloc priv).1.withTimer
          (inits || (b && !(priv.isNone && p.ucodeCoreNum == 1))),
        (d.dsplogStartCap p filp pid alloc priv).2) := by
  cases priv with
  | some k =>
    refine ⟨decide (d.queue.length = p.ucodeCoreNum), fun b => ?_⟩
    simp [dsplogStartCap, startInstance_withTimer]
  | none =>
    by_cases hone : p.ucodeCoreNum = 1
    · obtain ⟨d₁, k, hreg⟩ : ∃ d₁ k, d.dsplogRegisterLogCap p filp pid 0 alloc = (d₁, k) := ⟨_, _, rfl⟩
      cases k with
      | none =>
        refine ⟨false, fun b => ?_⟩
        simp [dsplogStartCap, hone, register_withTimer, hreg]
      | some k =>
        refine ⟨decide (d₁.queue.length = p.ucodeCoreNum), fun b => ?_⟩
        simp [dsplogStartCap, hone, register_withTimer, hreg, startInstance_withTimer]
    · refine ⟨false, fun b => ?_⟩
      simp [dsplogStartCap, hone, beq_false_of_ne hone]

theorem ioctl_withTimer (p : Platform) (cmd : Ioctl) (hf : d.files f = some context) : ∃ inits, ∀ b,
    (d.withTimer b).ambaDsplogIoctl p f context cmd =
      ((d.ambaDsplogIoctl p f context cmd).1.withTimer (inits || (b && !d.deinitsTimer p (.ioctl f cmd))),
        (d.ambaDsplogIoctl p f context cmd).2) := by
  cases cmd with
  | startCapture pid alloc =>
    obtain ⟨inits, hstart⟩ := d.start_withTimer p f pid alloc context.dsplogPrivData
    refine ⟨inits, fun b => ?_⟩
    simp only [ambaDsplogIoctl, hstart, deinitsTimer, hf, Option.any_some]
    rfl
  | stopCapture =>
    refine ⟨false, fun b => ?_⟩
    cases hpriv : context.dsplogPrivData with
    | none => simp [ambaDsplogIoctl, dsplogStopCap, deinitsTimer, hf, hpriv]
    | some k =>
      simp [ambaDsplogIoctl, dsplogStopCap, deinitsTimer, hf, hpriv]
      rfl
  | setDspCore pid arg alloc =>
    refine ⟨false, fun b => ?_⟩
    cases arg with
    | none => simp [ambaDsplogIoctl, dsplogSetDspCoreId, deinitsTimer]
    | some dspId =>
      obtain ⟨d₁, k, hreg⟩ : ∃ d₁ k, d.dsplogRegisterLogCap p f pid dspId alloc = (d₁, k) := ⟨_, _, rfl⟩
      cases k with
      | none => simp [ambaDsplogIoctl, dsplogSetDspCoreId, deinitsTimer, register_withTimer, hreg]
      | some k =>
        simp [ambaDsplogIoctl, dsplogSetDspCoreId, deinitsTimer, register_withTimer, hreg]
  | getMemoryInfo copyOk =>
    refine ⟨false, fun b => ?_⟩
    have hsame : (d.withTimer b).dsplogGetMemoryInfo context.dsplogPrivData =
        d.dsplogGetMemoryInfo context.dsplogPrivData := rfl
    cases hinfo : d.dsplogGetMemoryInfo context.dsplogPrivData <;>
      simp [ambaDsplogIoctl, deinitsTimer, hsame, hinfo]
  | setLogLevel | getLogLevel | parseLog | dumpMemorySnapshot | other =>
    refine ⟨false, fun b => ?_⟩
    simp [ambaDsplogIoctl, deinitsTimer]

theorem read_withTimer {maxSize : Nat} {copyOk : Bool} {copy : Copy} :
    (d.withTimer b).ambaDsplogRead p f context maxSize copyOk copy =
      (d.ambaDsplogRead p f context maxSize copyOk copy).map fun (d', r) => (d'.withTimer b, r) := by
  unfold ambaDsplogRead
  split
  · rfl
  · rename_i k _
    simp only [withTimer_queue, withTimer_mem, Option.map_map]
    congr 1
    funext c
    simp only [Function.comp_apply]
    split <;> rfl

theorem wakeReader_withTimer {i : Nat} {interrupted : Bool} :
    (d.withTimer b).wakeReader i interrupted = (d.wakeReader i interrupted).map (·.withTimer b) := by
  simp only [wakeReader, withTimer_readers, withTimer_queue]
  cases d.readers[i]? with
  | none => rfl
  | some rd =>
    simp only [Option.bind_eq_bind, Option.bind_some]
    cases d.queue[rd.cap]? with
    | none => rfl
    | some c =>
      simp only [Option.bind_some]
      split_ifs <;> rfl

theorem resumeReader_withTimer {i : Nat} {copy : Copy} :
    (d.withTimer b).resumeReader i copy = (d.resumeReader i copy).map fun (d', r) => (d'.withTimer b, r) := by
  simp only [resumeReader, withTimer_readers, withTimer_queue]
  cases d.readers[i]? with
  | none => rfl
  | some rd =>
    simp only [Option.bind_eq_bind, Option.bind_some]
    cases d.queue[rd.cap]? with
    | none => rfl
    | some c =>
      simp only [Option.bind_some]
      split_ifs <;> rfl

/-- The operations other than ticks and those of `amba_dsplog_ioctl` know nothing of the timer. -/
theorem step_withTimer_of_blind (htick : ∀ fuel, op ≠ .tick fuel) (hioctl : ∀ f cmd, op ≠ .ioctl f cmd) :
    (d.withTimer b).step p op = (d.step p op).map fun (d', r) => (d'.withTimer b, r) := by
  cases op with
  | ioctl f cmd => exact absurd rfl (hioctl f cmd)
  | tick fuel => exact absurd rfl (htick fuel)
  | openFile f allocOk =>
    by_cases hf : (d.files f).isSome = true
    · simp [step, hf]
    · cases allocOk <;> simp [step, hf]
  | read f maxSize copyOk copy =>
    simp only [step, withTimer_files, Option.map_bind, read_withTimer]
    rfl
  | wake i interrupted =>
    simp only [step, wakeReader_withTimer, Option.map_map]
    rfl
  | resumeRead i copy =>
    simp only [step, resumeReader_withTimer]
  | close f =>
    by_cases hf : (d.files f).isSome = true ∧ d.readers.all (·.file != f) = true
    · simp only [step, withTimer_files, withTimer_readers, hf, and_self, if_true, Option.map_some]
      rfl
    · simp only [step, withTimer_files, withTimer_readers, hf, if_false, Option.map_none]
  | dspWrite | suspend | resume | resetCap => rfl

/-- What an operation does to the timer flag: it may stop the timer, and it may start it afterwards. -/
theorem step_withTimer (hs : d.step p op = some (d', r)) (htick : ∀ fuel, op ≠ .tick fuel) : ∃ inits, ∀ b,
    (d.withTimer b).step p op = some (d'.withTimer (inits || (b && !d.deinitsTimer p op)), r) := by
  by_cases hioctl : ∀ f cmd, op ≠ .ioctl f cmd
  · refine ⟨false, fun b => ?_⟩
    have hdeinits : d.deinitsTimer p op = false := by
      cases op <;> first | rfl | exact absurd rfl (hioctl _ _)
    rw [step_withTimer_of_blind htick hioctl, hs, hdeinits, Bool.not_false, Bool.and_true, Bool.false_or]
    rfl
  · simp only [not_forall, not_not] at hioctl
    obtain ⟨f, cmd, rfl⟩ := hioctl
    obtain ⟨context, hf, hr⟩ := Option.map_eq_some_iff.mp hs
    obtain ⟨inits, h⟩ := ioctl_withTimer p cmd hf
    refine ⟨inits, fun b => ?_⟩
    show (d.files f).map _ = _
    rw [hf, Option.map_some, h, hr]

end Driver
end Dsplog
