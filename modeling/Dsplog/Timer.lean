import Dsplog.Ring
import Dsplog.Lib.RoundRobin

/-! The timer callback (`dsp_printk_timer`): what one visit of the loop does to an instance, and the loop
    that serves all registered instances in turn. -/

namespace Dsplog
open Bytes

/-- What one visit of an instance does: the instance after it, whether an overwritten log buffer was
    reported, and the record handed to `dsp_log_add_to_ring_buffer`. Without a record the instance is
    taken out of the loop (`rm_cap_info = 1`). -/
structure Visit where
  cap : CapInfo
  reported : Bool
  handed : Option (List UInt8)

namespace CapInfo

/-- The next number lies behind the last one: the first staleness test. -/
def older (c : CapInfo) (seq : UInt32) : Bool :=
  decide (seq < c.currSeqNum) && c.currSeqNum != 0xFFFFFFFF && decide (c.currSeqNum - seq < 0xF0000000)

/-- The next number lies far ahead, so the record is from before a wrap: the second staleness test. -/
def olderWrapped (c : CapInfo) (seq : UInt32) : Bool :=
  decide (0 < c.currSeqNum) && decide (c.currSeqNum < seq) && decide (0xF000000 < seq - c.currSeqNum)

/-- Takes over the number of the next record. -/
def follow (c : CapInfo) (seq : UInt32) : CapInfo :=
  { c with seqNumWrapped := c.seqNumWrapped || c.currSeqNum == 0xFFFFFFFF, currSeqNum := seq }

/-- The report that the DSP overwrote the log buffer, when the number jumps from `prev` to `seq`. -/
def overwritten (c : CapInfo) (p : Platform) (prev seq : UInt32) : Bool :=
  c.seqNumCheckEnable && prev != 0 && decide (p.seqNumberThreadHold < seq - prev)

/-- Moves `dsppf_current` on, with wrap around. -/
def advance (c : CapInfo) : CapInfo :=
  let next := c.dsppfCurrent + dsplogEntrySize
  { c with dsppfCurrent := if c.dsppfBase + c.dsplogBufSize.toNat ≤ next then c.dsppfBase else next }

/-- The body of the loop over the instances, for one instance. -/
def visit (c : CapInfo) (p : Platform) (m : Mem) : Visit :=
  let cur := IdspPrintf.load m c.dsppfCurrent
  if c.dspSuspended then ⟨c, false, none⟩
  else if c.older cur.seqNum then ⟨c, false, none⟩
  else if c.olderWrapped cur.seqNum then ⟨{ c with currSeqNum := cur.seqNum }, false, none⟩
  else
    let reported := c.overwritten p c.currSeqNum cur.seqNum
    let c := c.follow cur.seqNum
    if c.currSeqNum = 0 ∧ c.seqNumWrapped = false ∧ cur.formatAddr = 0 then ⟨c, reported, none⟩
    else
      let record := m.read c.dsppfCurrent dsplogEntrySize
      ⟨{ c with ringbuf := c.ringbuf.dspLogAddToRingBuffer p record }.advance, reported, some record⟩

end CapInfo

/-- A record handed over by the timer, with the address it was read from. -/
structure Handed where
  slot : Nat
  record : List UInt8
  deriving DecidableEq, Repr

/-- An instance in the loop of the timer, with the records handed over so far in this tick. -/
structure Service where
  cap : CapInfo
  handed : List Handed

/-- A visit of an instance in the loop, and whether it is taken out of the loop after it. -/
def Service.visit (p : Platform) (m : Mem) (s : Service) : Service × Bool :=
  match (s.cap.visit p m).handed with
  | none => (⟨(s.cap.visit p m).cap, s.handed⟩, true)
  | some record => (⟨(s.cap.visit p m).cap, s.handed ++ [⟨s.cap.dsppfCurrent, record⟩]⟩, false)

/-- The working array of the callback: the first `UCODE_CORE_NUM` instances of the queue. -/
def capInfoArray (p : Platform) (n : Nat) (i : Nat) : Option (Fin n) :=
  if i < p.ucodeCoreNum then if h : i < n then some ⟨i, h⟩ else none else none

/-- `dsp_printk_timer` on the queue `caps`, with the log memory `m`: what each instance and its handed
    records are when the loop ends, or `none` when `fuel` passes do not end it. -/
def dspPrintkTimer (p : Platform) (m : Mem) (fuel : Nat) (caps : List CapInfo) : Option (List Service) :=
  let services (i : Fin caps.length) : Service := ⟨caps[i], []⟩
  (RoundRobin.loop (Service.visit p m) fuel (capInfoArray p caps.length) (min p.ucodeCoreNum caps.length)
    services).map List.ofFn

end Dsplog
