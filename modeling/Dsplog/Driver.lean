import Dsplog.Lib.Run
import Dsplog.Read
import Dsplog.Timer
import Mathlib.Logic.Function.Basic

/-! The driver as a state machine: the registry of capture instances with its timer
    (`dsplog_timer.c`), and the operations on `/dev/dsplog` (`dsplog_drv.c`). The DSP and the threads
    asleep in `dsplog_read` take steps of their own. -/

namespace Dsplog
open Bytes Machines

/-- What `kzalloc` gives for a new instance: the instance itself, and the block of its ring. -/
structure Alloc where
  inst : Bool
  ring : Option Nat
  deriving DecidableEq, Repr

/-- A thread in `dsplog_read` that has dropped the mutex, asleep or on its way back to the mutex. -/
structure Reader where
  file : File
  cap : Nat
  awake : Bool
  deriving DecidableEq, Repr

/-- The state of the driver: `G_dsplog_read_queue`, `timer_initialized`, the DSP's log memory, the
    contexts of the open files and the threads inside a read. -/
structure Driver where
  queue : List CapInfo
  timerInitialized : Bool
  mem : Mem
  files : File → Option Context
  readers : List Reader

/-! ### Instances -/

namespace CapInfo

/-- A new instance, as `alloc_log_cap_instance` fills it in. -/
def new (p : Platform) (filp : File) (pid : Nat) (dspId : UInt32) (ring : Nat) : CapInfo where
  active := true
  dsplogBufSize := p.coreLogSize
  currSeqNum := 0
  seqNumCheckEnable := decide (p.ucodeCoreNum ≤ 1)
  dsplogState := false
  dsplogReadFinish := false
  dspSuspended := false
  seqNumWrapped := false
  dspId := dspId
  ringbuf := RingBuf.init p ring
  dsppfBase := p.logBase + (p.coreLogSize * dspId).toNat
  dsppfCurrent := p.logBase + (p.coreLogSize * dspId).toNat
  pid := pid
  filp := some filp

/-- A new owner takes over an inactive instance. -/
def occupy (c : CapInfo) (filp : File) (pid : Nat) : CapInfo := { c with pid := pid, active := true, filp := some filp }

/-- `dsplog_reset_log_cap_state` for one instance. -/
def release (c : CapInfo) (filp : File) : CapInfo :=
  if c.filp = some filp ∧ c.active then { c with filp := none, active := false } else c

/-- `dsplog_start_cap` for the instance of the file. -/
def start (c : CapInfo) : CapInfo :=
  { c with ringbuf := c.ringbuf.restart, currSeqNum := 0, dsplogState := true, dsplogReadFinish := false }

/-- `dsplog_stop_cap` for the instance of the file. -/
def stop (c : CapInfo) : CapInfo :=
  { c with ringbuf := c.ringbuf.flush, dsplogState := false, active := false, filp := none }

/-- `dsplog_suspend` for one instance. -/
def suspend (c : CapInfo) (p : Platform) : CapInfo :=
  { c with
    dspSuspended := true
    dsppfBase := p.logBase
    dsplogBufSize := p.logSize
    dsppfCurrent := p.logBase
    currSeqNum := 0
    seqNumWrapped := false }

/-- `dsplog_resume` for one instance. -/
def resume (c : CapInfo) (p : Platform) : CapInfo :=
  { c with dsppfBase := p.logBase, dsplogBufSize := p.logSize, dspSuspended := false }

/-- `dsplog_reset_cap` for one instance. -/
def reset (c : CapInfo) : CapInfo := { c with dsppfCurrent := c.dsppfBase, currSeqNum := 0, seqNumWrapped := false }

end CapInfo

/-- `memset` to zero, unless the pointer is null. -/
def clearLog (m : Mem) (base : Nat) (size : UInt32) : Mem := if base = 0 then m else m.clear base size.toNat

/-! ### The registry -/

namespace Driver

def dspPrintkInitTimer (d : Driver) : Driver := { d with timerInitialized := true }

def dspPrintkDeinitTimer (d : Driver) : Driver := { d with timerInitialized := false }

def setFile (d : Driver) (f : File) (context : Option Context) : Driver :=
  { d with files := Function.update d.files f context }

def setCap (d : Driver) (k : Nat) (c : CapInfo) : Driver := { d with queue := d.queue.set k c }

def allocLogCapInstance (d : Driver) (p : Platform) (filp : File) (pid : Nat) (dspId : UInt32) (alloc : Alloc) :
    Driver × Option Nat :=
  if alloc.inst then
    match alloc.ring with
    | none => (d, none)
    | some ring => ({ d with queue := d.queue ++ [CapInfo.new p filp pid dspId ring] }, some d.queue.length)
  else (d, none)

/-- The instance for a core: the timer is stopped, then an inactive instance of the core is taken over,
    or a new one is made. -/
def dsplogRegisterLogCap (d : Driver) (p : Platform) (filp : File) (pid : Nat) (dspId : UInt32) (alloc : Alloc) :
    Driver × Option Nat :=
  if p.ucodeCoreNum ≤ dspId.toNat then (d, none)
  else
    let d := d.dspPrintkDeinitTimer
    match d.queue.findIdx? (·.dspId == dspId) with
    | none => d.allocLogCapInstance p filp pid dspId alloc
    | some k =>
      match d.queue[k]? with
      | none => (d, none)
      | some c => if c.active then (d, none) else (d.setCap k (c.occupy filp pid), some k)

def dsplogResetLogCapState (d : Driver) (filp : File) : Driver :=
  { d with queue := d.queue.map (·.release filp) }

/-- Starts an instance; the timer starts once all cores are registered. -/
def startInstance (d : Driver) (p : Platform) (k : Nat) : Driver :=
  let d := { d with queue := d.queue.modify k CapInfo.start }
  if d.queue.length = p.ucodeCoreNum then d.dspPrintkInitTimer else d

/-- START: with one core only, a file without an instance is given that core's. -/
def dsplogStartCap (d : Driver) (p : Platform) (filp : File) (pid : Nat) (alloc : Alloc) (priv : Option Nat) :
    Driver × Option Nat × Option Errno :=
  let (d, priv) :=
    if priv = none ∧ p.ucodeCoreNum = 1 then d.dsplogRegisterLogCap p filp pid 0 alloc else (d, priv)
  match priv with
  | none => (d, none, some .efault)
  | some k => (d.startInstance p k, some k, none)

def dsplogStopCap (d : Driver) (priv : Option Nat) : Driver × Option Errno :=
  match priv with
  | none => (d, some .eperm)
  | some k => ({ d.dspPrintkDeinitTimer with queue := d.queue.modify k CapInfo.stop }, none)

def dsplogSuspend (d : Driver) (p : Platform) : Driver :=
  { d with
    queue := d.queue.map (·.suspend p)
    mem := d.queue.foldl (fun m _ => clearLog m p.logBase p.logSize) d.mem }

def dsplogResume (d : Driver) (p : Platform) : Driver := { d with queue := d.queue.map (·.resume p) }

def dsplogResetCap (d : Driver) : Driver :=
  { d with
    queue := d.queue.map CapInfo.reset
    mem := d.queue.foldl (fun m c => clearLog m c.dsppfBase c.dsplogBufSize) d.mem }

/-- `dsplog_get_memory_info`: the core and the size of its log window. -/
def dsplogGetMemoryInfo (d : Driver) (priv : Option Nat) : Except Errno (UInt32 × UInt32) :=
  match priv.bind (d.queue[·]?) with
  | none => .error .einval
  | some c => .ok (c.dspId, c.dsplogBufSize)

end Driver

/-! ### Operations on the device -/

/-- The commands of `amba_dsplog_ioctl`, with what the calling thread and its memory contribute: its pid,
    the allocations, the argument (`none` when it cannot be copied from the user) and whether the result
    can be copied to the user. -/
inductive Ioctl where
  | startCapture (pid : Nat) (alloc : Alloc)
  | stopCapture
  | setDspCore (pid : Nat) (arg : Option UInt32) (alloc : Alloc)
  | setLogLevel
  | getLogLevel (copyOk : Bool)
  | parseLog
  | getMemoryInfo (copyOk : Bool)
  | dumpMemorySnapshot (arg : Nat)
  | other
  deriving DecidableEq, Repr

/-- The steps of the driver and of what surrounds it. -/
inductive Op where
  | openFile (f : File) (allocOk : Bool)
  | ioctl (f : File) (cmd : Ioctl)
  | read (f : File) (maxSize : Nat) (copyOk : Bool) (copy : Copy)
  | wake (reader : Nat) (interrupted : Bool)
  | resumeRead (reader : Nat) (copy : Copy)
  | close (f : File)
  | dspWrite (a : Nat) (bs : List UInt8)
  | tick (fuel : Nat)
  | suspend
  | resume
  | resetCap
  deriving DecidableEq, Repr

inductive Reply where
  | done
  | level (value : Nat)
  | memInfo (dspId size : UInt32)
  | bytes (bs : List UInt8)
  | asleep
  | error (e : Errno)
  deriving DecidableEq, Repr

namespace Reply

def ofErrno : Option Errno → Reply
  | none => done
  | some e => error e

def ofRead : Except Errno (List UInt8) → Reply
  | .ok bs => bytes bs
  | .error e => error e

end Reply

namespace Driver

def dsplogSetDspCoreId (d : Driver) (p : Platform) (f : File) (context : Context) (pid : Nat) (arg : Option UInt32)
    (alloc : Alloc) : Driver × Reply :=
  match arg with
  | none => (d, .error .efault)
  | some dspId =>
    match d.dsplogRegisterLogCap p f pid dspId alloc with
    | (d, none) => (d, .error .efault)
    | (d, some k) => (d.setFile f (some { context with dsplogPrivData := some k }), .done)

def ambaDsplogIoctl (d : Driver) (p : Platform) (f : File) (context : Context) : Ioctl → Driver × Reply
  | .startCapture pid alloc =>
    let (d, priv, e) := d.dsplogStartCap p f pid alloc context.dsplogPrivData
    (d.setFile f (some { context with dsplogPrivData := priv }), .ofErrno e)
  | .stopCapture =>
    let (d, e) := d.dsplogStopCap context.dsplogPrivData
    (d, .ofErrno e)
  | .setDspCore pid arg alloc => d.dsplogSetDspCoreId p f context pid arg alloc
  | .setLogLevel => (d, .done)
  | .getLogLevel copyOk => (d, if copyOk then .level 0 else .error .efault)
  | .parseLog => (d, .done)
  | .getMemoryInfo copyOk =>
    match d.dsplogGetMemoryInfo context.dsplogPrivData with
    | .error e => (d, .error e)
    | .ok (dspId, size) => (d, if copyOk then .memInfo dspId size else .error .efault)
  | .dumpMemorySnapshot arg =>
    (d.setFile f (some { context with dumpMemSnapshot := arg % 2 == 1 }), .done)
  | .other => (d, .error .enoioctlcmd)

/-- `amba_dsplog_read` on a file with its context, up to its end or to its wait. -/
def ambaDsplogRead (d : Driver) (p : Platform) (f : File) (context : Context) (maxSize : Nat) (copyOk : Bool)
    (copy : Copy) : Option (Driver × Reply) :=
  match context.dsplogPrivData with
  | none => some (d, .error .einval)
  | some k =>
    d.queue[k]?.map fun c =>
      let (c, dump, entered) := c.readEnter p d.mem maxSize context.dumpMemSnapshot copyOk
      let d := d.setFile f (some { context with dumpMemSnapshot := dump })
      match entered with
      | .exit result => (d.setCap k c, .ofRead result)
      | .proceed => (d.setCap k (c.readOut copy).1, .ofRead (c.readOut copy).2)
      | .wait => ({ d.setCap k c with readers := d.readers ++ [⟨f, k, false⟩] }, .asleep)

/-- The wait of a reader ends: it takes a token of the completion, or a signal interrupts it while there
    is none. -/
def wakeReader (d : Driver) (i : Nat) (interrupted : Bool) : Option Driver := do
  let r ← d.readers[i]?
  let c ← d.queue[r.cap]?
  let d := { d with readers := d.readers.set i { r with awake := true } }
  if r.awake then none
  else if interrupted then if c.ringbuf.fillCompl = 0 then some d else none
  else if c.ringbuf.fillCompl = 0 then none
  else some (d.setCap r.cap { c with ringbuf := { c.ringbuf with fillCompl := c.ringbuf.fillCompl - 1 } })

/-- A woken reader takes the mutex again and copies the ring. -/
def resumeReader (d : Driver) (i : Nat) (copy : Copy) : Option (Driver × Reply) := do
  let r ← d.readers[i]?
  let c ← d.queue[r.cap]?
  if r.awake then
    some ({ d.setCap r.cap (c.readOut copy).1 with readers := d.readers.eraseIdx i }, .ofRead (c.readOut copy).2)
  else none

/-- One step; `none` when it cannot be taken. A file is closed when no thread is inside a read of it, and
    a tick takes place when the timer is on and its loop ends within `fuel` passes. -/
def step (p : Platform) (d : Driver) : Op → Option (Driver × Reply)
  | .openFile f allocOk =>
    if (d.files f).isSome then none
    else if allocOk then some (d.setFile f (some ⟨none, false⟩), .done)
    else some (d, .error .enomem)
  | .ioctl f cmd => (d.files f).map fun context => d.ambaDsplogIoctl p f context cmd
  | .read f maxSize copyOk copy =>
    (d.files f).bind fun context => d.ambaDsplogRead p f context maxSize copyOk copy
  | .wake i interrupted => (d.wakeReader i interrupted).map (·, .done)
  | .resumeRead i copy => d.resumeReader i copy
  | .close f =>
    if (d.files f).isSome ∧ d.readers.all (·.file != f) then
      some ((d.dsplogResetLogCapState f).setFile f none, .done)
    else none
  | .dspWrite a bs => some ({ d with mem := d.mem.write a bs }, .done)
  | .tick fuel =>
    if d.timerInitialized then
      (dspPrintkTimer p d.mem fuel d.queue).map fun services => ({ d with queue := services.map Service.cap }, .done)
    else none
  | .suspend => some (d.dsplogSuspend p, .done)
  | .resume => some (d.dsplogResume p, .done)
  | .resetCap => some (d.dsplogResetCap, .done)

/-- The state after `dsplog_init`, before any file is open. -/
structure Initial (d : Driver) : Prop where
  queue : d.queue = []
  timer : d.timerInitialized = false
  files : ∀ f, d.files f = none
  readers : d.readers = []

end Driver

def driver (p : Platform) : Machine Driver Op where
  Init := Driver.Initial
  step d op := (d.step p op).map Prod.fst

end Dsplog
