import Dsplog.Driver

/-! The driver under its mutex and the kernel's timer. Between `dsplog_lock` and `dsplog_unlock` a thread takes several
    steps, and so does the handler of the timer (`kernel_timer_callback`); the other takes steps between them, and so
    does what needs no mutex. -/

namespace Dsplog
open Machines

/-- How far `kernel_timer_callback` has got. -/
inductive Handler where
  | idle
  | entered
  /-- `timer_callback` is loaded. -/
  | loaded (callback : Bool)
  | served
  /-- `mod_timer` has been called. -/
  | rearmed
  deriving DecidableEq, Repr

/-- How far the thread that holds the mutex has got. -/
inductive Stage where
  | entered
  /-- In `del_timer_sync`. -/
  | deleting
  /-- `dsp_printk_deinit_timer` has deleted the timer. -/
  | deleted
  /-- `timer_callback` is `NULL`. -/
  | uncalled
  /-- What the operation itself does comes next; `was` tells whether `dsp_printk_deinit_timer` stopped a timer for it. -/
  | working (was : Bool)
  /-- `dsp_printk_init_timer` has found no timer. -/
  | installing (r : Reply)
  /-- `timer_callback` is set. -/
  | adding (r : Reply)
  /-- `add_timer` has been called. -/
  | added (r : Reply)
  /-- The end of `dsplog_reset_cap`. -/
  | restarting (r : Reply)
  | leaving (r : Reply)
  deriving DecidableEq, Repr

/-- The driver with the fields of `G_timer_control`, of which `timer_initialized` is the driver's own, whether the
    kernel's timer is pending, its handler, and the operation of the thread that holds the mutex. -/
structure Interleaving where
  driver : Driver
  timerCallback : Bool
  pending : Bool
  handler : Handler
  holder : Option (Op × Stage)

/-- A thread takes the mutex, its next step, the next step of the timer's handler, or an operation without the mutex. -/
inductive InterleavingEvent where
  | lock (op : Op)
  | hold
  | handle (fuel : Nat)
  | free (op : Op)
  deriving DecidableEq, Repr

namespace Driver

def withTimer (d : Driver) (on : Bool) : Driver := { d with timerInitialized := on }

/-- Whether the operation calls `dsp_printk_deinit_timer`. -/
def deinitsTimer (d : Driver) (p : Platform) : Op → Bool
  | .ioctl f (.startCapture _ _) => (d.files f).any (·.dsplogPrivData.isNone) && p.ucodeCoreNum == 1
  | .ioctl f .stopCapture => (d.files f).any (·.dsplogPrivData.isSome)
  | .ioctl _ (.setDspCore _ (some dspId) _) => decide (dspId.toNat < p.ucodeCoreNum)
  | _ => false

/-- Whether the operation takes the mutex. A read that waits takes it twice: `dsplog_read` drops it around the wait. -/
def takesMutex : Op → Bool
  | .ioctl .. | .read .. | .resumeRead .. | .resetCap => true
  | .openFile .. | .wake .. | .close .. | .dspWrite .. | .tick .. | .suspend | .resume => false

end Driver

namespace Interleaving

/-- A file is not closed while a thread is inside a call on it. -/
def inside (s : Interleaving) (f : File) : Bool :=
  match s.holder with
  | some (.ioctl f' _, _) | some (.read f' .., _) => f' == f
  | _ => false

/-- The operations that need no mutex. -/
def isFree (s : Interleaving) : Op → Bool
  | .openFile .. | .wake .. | .dspWrite .. | .suspend | .resume => true
  | .close f => !s.inside f
  | _ => false

/-- The next step of `kernel_timer_callback`; the kernel calls it when the timer expires. A tick is one step here. -/
def handle (p : Platform) (s : Interleaving) (fuel : Nat) : Option Interleaving :=
  match s.handler with
  | .idle => if s.pending then some { s with pending := false, handler := .entered } else none
  | .entered => some { s with handler := .loaded s.timerCallback }
  | .loaded true => (dspPrintkTimer p s.driver.mem fuel s.driver.queue).map fun services =>
      { s with driver := { s.driver with queue := services.map Service.cap }, handler := .served }
  | .loaded false => some { s with handler := .served }
  | .served => some { s with pending := true, handler := .rearmed }
  | .rearmed => some { s with handler := .idle }

/-- The operation at the stage `.working`; at its end START calls `dsp_printk_init_timer`, which does nothing when
    there is a timer already. -/
def work (p : Platform) (s : Interleaving) (op : Op) : Option Interleaving :=
  (s.driver.step p op).map fun (d, r) =>
    if op = .resetCap then { s with driver := d, holder := some (op, .restarting r) }
    else if d.timerInitialized && !s.driver.timerInitialized then
      { s with driver := d.withTimer false, holder := some (op, .installing r) }
    else { s with driver := d, holder := some (op, .leaving r) }

/-- The next step of the thread that holds the mutex. `del_timer_sync` returns when the handler is not running, and
    then the timer is not pending. -/
def hold (p : Platform) (s : Interleaving) : Option Interleaving :=
  s.holder.bind fun (op, stage) =>
    let goto (stage : Stage) : Interleaving := { s with holder := some (op, stage) }
    match stage with
    | .entered =>
      if (s.driver.deinitsTimer p op || op == .resetCap) && s.driver.timerInitialized then some (goto .deleting)
      else some (goto (.working false))
    | .deleting =>
      if s.handler = .idle then
        some { goto (if op = .resetCap then .working false else .deleted) with pending := false }
      else none
    | .deleted => some { goto .uncalled with timerCallback := false }
    | .uncalled => some { goto (.working true) with driver := s.driver.withTimer false }
    | .working _ => s.work p op
    | .installing r => some { goto (.adding r) with timerCallback := true }
    | .adding r => some { goto (.added r) with pending := true }
    | .added r => some { goto (.leaving r) with driver := s.driver.withTimer true }
    | .restarting r => some { goto (.leaving r) with pending := s.pending || s.driver.timerInitialized }
    | .leaving _ => some { s with holder := none }

def step (p : Platform) (s : Interleaving) : InterleavingEvent → Option Interleaving
  | .lock op =>
    if s.holder = none ∧ Driver.takesMutex op = true ∧ (s.driver.step p op).isSome = true then
      some { s with holder := some (op, .entered) }
    else none
  | .hold => s.hold p
  | .handle fuel => s.handle p fuel
  | .free op => if s.isFree op then (s.driver.step p op).map fun (d, _) => { s with driver := d } else none

structure Initial (s : Interleaving) : Prop where
  driver : s.driver.Initial
  timerCallback : s.timerCallback = false
  pending : s.pending = false
  handler : s.handler = .idle
  holder : s.holder = none

end Interleaving

def interleaving (p : Platform) : Machine Interleaving InterleavingEvent where
  Init := Interleaving.Initial
  step := Interleaving.step p

end Dsplog
