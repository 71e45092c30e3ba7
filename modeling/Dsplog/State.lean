import Dsplog.Lib.Mem

/-! The data of the driver: the DSP's log record, the ring buffer of a core, the capture instance, the
    context of an open file, and the build-time constants. A pointer is an address; the memory of a ring
    is its own, as `kzalloc` gives it. -/

namespace Dsplog
open Bytes

/-- A record as the DSP writes it (`idsp_printf_t`). -/
structure IdspPrintf where
  seqNum : UInt32
  dspCore : UInt32
  formatAddr : UInt32
  arg1 : UInt32
  arg2 : UInt32
  arg3 : UInt32
  arg4 : UInt32
  arg5 : UInt32
  deriving DecidableEq, Repr

/-- `DSPLOG_ENTRY_SIZE`, the size of a record. -/
def dsplogEntrySize : Nat := 32

namespace IdspPrintf

/-- The record at address `a`. -/
def load (m : Mem) (a : Nat) : IdspPrintf where
  seqNum := m.word a
  dspCore := m.word (a + 4)
  formatAddr := m.word (a + 8)
  arg1 := m.word (a + 12)
  arg2 := m.word (a + 16)
  arg3 := m.word (a + 20)
  arg4 := m.word (a + 24)
  arg5 := m.word (a + 28)

def bytes (r : IdspPrintf) : List UInt8 :=
  ofWord r.seqNum ++ ofWord r.dspCore ++ ofWord r.formatAddr ++ ofWord r.arg1 ++ ofWord r.arg2 ++
    ofWord r.arg3 ++ ofWord r.arg4 ++ ofWord r.arg5

@[simp] theorem bytes_length (r : IdspPrintf) : r.bytes.length = dsplogEntrySize := rfl

end IdspPrintf

/-- What the build and the platform fix: `UCODE_CORE_NUM`, the number of records that
    `DSP_PRINTK_BUF_SIZE` bytes hold, `DSP_PRINTK_BUF_DUMP_THRESHOLD_SIZE`, `SEQ_NUMBER_THREAD_HOLD`,
    and the log region that `dsp_init_logbuf` returns. -/
structure Platform where
  ucodeCoreNum : Nat
  ucodeCoreNum_pos : 0 < ucodeCoreNum
  printkBufEntries : Nat
  two_le_printkBufEntries : 2 ≤ printkBufEntries
  dumpThresholdSize : Nat
  seqNumberThreadHold : UInt32
  logBase : Nat
  logSize : UInt32

namespace Platform

/-- `DSP_PRINTK_BUF_SIZE`. -/
def printkBufSize (p : Platform) : Nat := dsplogEntrySize * p.printkBufEntries

/-- The size of one core's part of the log region: `dsppf_size / UCODE_CORE_NUM`. -/
def coreLogSize (p : Platform) : UInt32 := UInt32.ofNat (p.logSize.toNat / p.ucodeCoreNum)

/-- The driver's own sizes, for a build with `cores` cores. -/
def shipped (cores : Nat) (h : 0 < cores) (threadHold : UInt32) (base : Nat) (size : UInt32) : Platform where
  ucodeCoreNum := cores
  ucodeCoreNum_pos := h
  printkBufEntries := 65536
  two_le_printkBufEntries := by decide
  dumpThresholdSize := 524288
  seqNumberThreadHold := threadHold
  logBase := base
  logSize := size

/-- One core, with the driver's own sizes and a log region of the default size. -/
def oneCore : Platform := shipped 1 Nat.one_pos 1 4096 8388608

/-- A platform with rings of two records and two slots in each core's part of the log region. -/
def tiny (cores : Nat) (h : 0 < cores) : Platform where
  ucodeCoreNum := cores
  ucodeCoreNum_pos := h
  printkBufEntries := 2
  two_le_printkBufEntries := by decide
  dumpThresholdSize := 0
  seqNumberThreadHold := 1
  logBase := 4096
  logSize := UInt32.ofNat (2 * dsplogEntrySize * cores)

end Platform

inductive Errno where
  | eperm
  | einval
  | efault
  | enomem
  | enoioctlcmd
  deriving DecidableEq, Repr

/-- The ring buffer of a core (`dsp_log_ringbuf_t`); `mem` is the block that `start` points to,
    `numReader` an `atomic_t`, and `fillCompl` counts the tokens of the completion. -/
structure RingBuf where
  mem : Mem
  start : Nat
  end_ : Nat
  readPtr : Nat
  writePtr : Nat
  full : Bool
  numReader : Int32
  fillCompl : Nat

/-- A handle of an open file (`struct file *`). -/
abbrev File : Type := Nat

/-- A capture instance (`struct dsp_log_timer_cap_info`). -/
structure CapInfo where
  active : Bool
  dsplogBufSize : UInt32
  currSeqNum : UInt32
  seqNumCheckEnable : Bool
  dsplogState : Bool
  dsplogReadFinish : Bool
  dspSuspended : Bool
  seqNumWrapped : Bool
  dspId : UInt32
  ringbuf : RingBuf
  dsppfBase : Nat
  dsppfCurrent : Nat
  pid : Nat
  filp : Option File

/-- The context of an open file (`amba_dsplog_context_t`); an instance is named by its place in
    `G_dsplog_read_queue`, to which instances are only appended. -/
structure Context where
  dsplogPrivData : Option Nat
  dumpMemSnapshot : Bool
  deriving DecidableEq, Repr

end Dsplog
