import Dsplog.Driver
import Dsplog.Lib.Ledger

/-! The life of the module (`dsplog_drv.c`): what `amba_dsplog_init` and `amba_dsplog_exit` take from the kernel and give
    back, the blocks that the driver has from `kzalloc`, and the calls of the IAV driver. The device can be opened as
    soon as `amba_dsplog_create_dev` has made it, before `dsplog_init` has run. -/

namespace Dsplog
open Bytes Machines Ledger

/-- What the module holds: its registrations with the kernel, and blocks of memory. An instance and its ring are named
    by the instance's place in `G_dsplog_read_queue`. -/
inductive Thing where
  | chrdevRegion
  | cdev
  | class_
  | device
  | context (f : File)
  | capInfo (k : Nat)
  | ringbuf (k : Nat)
  deriving DecidableEq, Repr

/-- What must be there as long as the thing is. Only the instance points to its ring, and a file is open on the
    device. -/
def Thing.needs : Thing → List Thing
  | .chrdevRegion | .class_ | .capInfo _ => []
  | .cdev => [.chrdevRegion]
  | .device => [.class_, .cdev]
  | .context _ => [.device]
  | .ringbuf k => [.capInfo k]

def Thing.isContext : Thing → Bool
  | .context _ => true
  | _ => false

/-- Whether the calls of `amba_dsplog_create_dev` succeed. -/
structure Answers where
  allocChrdevRegion : Bool
  cdevAdd : Bool
  classCreate : Bool
  deviceCreate : Bool
  deriving DecidableEq, Repr

def ambaDsplogCreateDev (answers : Answers) : List (Entry Thing) × Bool :=
  if !answers.allocChrdevRegion then ([], false)
  else if !answers.cdevAdd then ([.take .chrdevRegion, .give .chrdevRegion], false)
  else if !answers.classCreate then
    ([.take .chrdevRegion, .take .cdev, .give .cdev, .give .chrdevRegion], false)
  else if !answers.deviceCreate then
    ([.take .chrdevRegion, .take .cdev, .take .class_, .give .class_, .give .cdev, .give .chrdevRegion], false)
  else ([.take .chrdevRegion, .take .cdev, .take .class_, .take .device], true)

def ambaDsplogRemoveDev : List (Entry Thing) :=
  [.give .device, .give .class_, .give .cdev, .give .chrdevRegion]

namespace Driver

/-- The module's data as it is loaded. -/
def unloaded (m : Mem) : Driver := ⟨[], false, m, fun _ => none, []⟩

/-- What `alloc_log_cap_instance` allocates and frees. -/
def allocEntries (d : Driver) (alloc : Alloc) : List (Entry Thing) :=
  if alloc.inst then
    match alloc.ring with
    | none => [.take (.capInfo d.queue.length), .give (.capInfo d.queue.length)]
    | some _ => [.take (.capInfo d.queue.length), .take (.ringbuf d.queue.length)]
  else []

def registerEntries (d : Driver) (p : Platform) (dspId : UInt32) (alloc : Alloc) : List (Entry Thing) :=
  if p.ucodeCoreNum ≤ dspId.toNat then []
  else
    match d.queue.findIdx? (·.dspId == dspId) with
    | none => d.allocEntries alloc
    | some _ => []

/-- What an operation allocates and frees. -/
def entries (d : Driver) (p : Platform) : Op → List (Entry Thing)
  | .openFile f true => [.take (.context f)]
  | .close f => [.give (.context f)]
  | .ioctl f (.startCapture _ alloc) =>
    if (d.files f).any (·.dsplogPrivData.isNone) && p.ucodeCoreNum == 1 then d.registerEntries p 0 alloc else []
  | .ioctl _ (.setDspCore _ (some dspId) alloc) => d.registerEntries p dspId alloc
  | _ => []

/-- Whether the operation walks `G_dsplog_read_queue`. -/
def walks (d : Driver) (p : Platform) : Op → Bool
  | .ioctl f (.startCapture _ _) => (d.files f).any fun context => context.dsplogPrivData.isSome || p.ucodeCoreNum == 1
  | .ioctl _ (.setDspCore _ (some dspId) _) => decide (dspId.toNat < p.ucodeCoreNum)
  | .close _ | .tick _ | .suspend | .resume | .resetCap => true
  | _ => false

/-- `dsplog_unregister_log_cap` for the instance at place `k`, which always has its ring. -/
def unregisterEntries (k : Nat) : List (Entry Thing) := [.give (.ringbuf k), .give (.capInfo k)]

/-- `dsplog_deinit`. -/
def deinitEntries (d : Driver) : List (Entry Thing) := (List.range d.queue.length).flatMap unregisterEntries

end Driver

/-- The operations that the IAV driver calls, through `amba_dsplog_ops`. -/
def Op.isOfIav : Op → Bool
  | .suspend | .resume | .resetCap => true
  | _ => false

def Op.isOpen : Op → Bool
  | .openFile _ _ => true
  | _ => false

/-- How far the module is: not loaded, with its device, after `dsplog_init`, or loaded. -/
inductive LifetimePhase where
  | absent
  | created
  | listed
  | live
  deriving DecidableEq, Repr

/-- The module with what it holds, whether the IAV driver has its operations, and whether the kernel has met a fault. -/
structure Lifetime where
  phase : LifetimePhase
  registered : Bool
  driver : Driver
  held : List Thing
  crashed : Bool

/-- The three parts of `amba_dsplog_init`, `amba_dsplog_exit`, and an operation. -/
inductive LifetimeEvent where
  | createDev (answers : Answers)
  | initLog (cleanDsplogMemory : Bool)
  | registerOps (ok : Bool)
  | exit
  | op (o : Op)
  deriving DecidableEq, Repr

namespace Lifetime

/-- The next state, unless the entries are at fault. -/
def booking (s : Lifetime) (es : List (Entry Thing)) (t : Lifetime) : Lifetime :=
  match book Thing.needs s.held es with
  | some held => { t with held := held }
  | none => { s with crashed := true }

/-- The module is gone. -/
def gone (s : Lifetime) : Lifetime := { s with phase := .absent, driver := .unloaded s.driver.mem }

/-- One step. Nothing happens after a fault. A list that is not initialised cannot be walked; a call of the IAV driver
    through operations of a module that is gone, also when it is loaded again, is a fault, as is `memset` at the null
    pointer. A file is opened on the device, and the module cannot be unloaded while one is open. -/
def step (p : Platform) (s : Lifetime) (e : LifetimeEvent) : Option Lifetime :=
  if s.crashed then none
  else
    match e with
    | .createDev answers =>
      if s.phase = .absent then
        let (es, ok) := ambaDsplogCreateDev answers
        some (s.booking es (if ok then { s.gone with phase := .created } else s))
      else none
    | .initLog cleanDsplogMemory =>
      if s.phase = .created then
        if cleanDsplogMemory ∧ p.logBase = 0 then some { s with crashed := true }
        else some { s with
          phase := .listed
          driver := { s.driver with
            queue := []
            mem := if cleanDsplogMemory then s.driver.mem.clear p.logBase p.logSize.toNat else s.driver.mem } }
      else none
    | .registerOps ok =>
      if s.phase = .listed then
        if ok then some { s with phase := .live, registered := true } else some (s.booking ambaDsplogRemoveDev s.gone)
      else none
    | .exit =>
      if s.phase = .live ∧ ∀ x ∈ s.held, x.isContext = false then
        some (s.booking (s.driver.deinitEntries ++ ambaDsplogRemoveDev) s.gone)
      else none
    | .op o =>
      if (o.isOfIav = true ∧ s.registered = false) ∨ (o.isOpen = true ∧ s.phase = .absent) then none
      else if o.isOfIav ∧ s.phase ≠ .live then some { s with crashed := true }
      else
        (s.driver.step p o).map fun (d, _) =>
          if s.driver.walks p o ∧ s.phase = .created then { s with crashed := true }
          else s.booking (s.driver.entries p o) { s with driver := d }

structure Initial (s : Lifetime) : Prop where
  phase : s.phase = .absent
  registered : s.registered = false
  driver : s.driver = .unloaded s.driver.mem
  held : s.held = []
  crashed : s.crashed = false

end Lifetime

def lifetime (p : Platform) : Machine Lifetime LifetimeEvent where
  Init := Lifetime.Initial
  step := Lifetime.step p

end Dsplog
