import Dsplog.Ring

/-! `dsplog_read`: its checks, the wait for the timer, and the copy of the ring to the user. -/

namespace Dsplog
open Bytes

/-- Whether the first and the second `copy_to_user` of a ring read succeed. -/
structure Copy where
  first : Bool
  second : Bool
  deriving DecidableEq, Repr

namespace RingBuf

/-- The copy of the unread bytes between the saved pointers, in one segment or two. -/
def copyOut (rb : RingBuf) (w r : Nat) (copy : Copy) : Except Errno (List UInt8) :=
  if w < r then
    if copy.first then
      if copy.second then .ok (rb.mem.read r (rb.end_ - r) ++ rb.mem.read rb.start (w - rb.start))
      else .error .efault
    else .error .efault
  else if r < w then
    if copy.first then .ok (rb.mem.read r (w - r)) else .error .efault
  else .ok []

/-- The segments of a copy between two pointers: address and length. -/
def segments (rb : RingBuf) (w r : Nat) : List (Nat × Nat) :=
  if w < r then [(r, rb.end_ - r), (rb.start, w - rb.start)] else if r < w then [(r, w - r)] else []

end RingBuf

/-- How the first part of `dsplog_read` ends: with a result, or at the ring, with or without a wait. -/
inductive Entered where
  | exit (result : Except Errno (List UInt8))
  | proceed
  | wait

namespace CapInfo

/-- The memory snapshot branch: a read of exactly the core's log window. The flag is the new
    `dump_mem_snapshot`. -/
def readSnapshot (c : CapInfo) (m : Mem) (maxSize : Nat) (copyOk : Bool) : Except Errno (List UInt8) × Bool :=
  if maxSize ≠ c.dsplogBufSize.toNat then (.error .einval, true)
  else if copyOk then (.ok (m.read c.dsppfBase maxSize), false)
  else (.error .efault, true)

/-- `atomic_inc_and_test` on `num_reader`, without the test. -/
def enlist (c : CapInfo) : CapInfo :=
  { c with ringbuf := { c.ringbuf with numReader := c.ringbuf.numReader + 1 } }

/-- The size checks of a ring read, the end of a stopped log, and the registration as a reader. -/
def readRing (c : CapInfo) (p : Platform) (maxSize : Nat) : CapInfo × Entered :=
  if maxSize % dsplogEntrySize ≠ 0 ∨ maxSize < p.printkBufSize then (c, .exit (.error .einval))
  else if c.dsplogReadFinish then (c, .exit (.ok []))
  else if c.dsplogState then
    (c.enlist, if c.enlist.ringbuf.numReader = 0 then .proceed else .wait)
  else (c, .proceed)

/-- `dsplog_read` up to the wait, with the instance, the new `dump_mem_snapshot` and how it ended. -/
def readEnter (c : CapInfo) (p : Platform) (m : Mem) (maxSize : Nat) (dump copyOk : Bool) :
    CapInfo × Bool × Entered :=
  if dump then
    let (result, dump) := c.readSnapshot m maxSize copyOk
    (c, dump, .exit result)
  else
    let (c, entered) := c.readRing p maxSize
    (c, false, entered)

/-- `dsplog_read` from the snapshot of the pointers on. -/
def readOut (c : CapInfo) (copy : Copy) : CapInfo × Except Errno (List UInt8) :=
  let w := c.ringbuf.writePtr
  match c.ringbuf.copyOut w c.ringbuf.readPtr copy with
  | .error e => (c, .error e)
  | .ok bs =>
    let c := { c with ringbuf := (c.ringbuf.commit w).clearFull }
    ({ c with dsplogReadFinish := c.dsplogReadFinish || !c.dsplogState }, .ok bs)

/-- `dsplog_read` as a whole; `wait` is what others do to the instance while the mutex is dropped. -/
def dsplogRead (c : CapInfo) (p : Platform) (m : Mem) (maxSize : Nat) (dump copyOk : Bool) (copy : Copy)
    (wait : CapInfo → CapInfo) : CapInfo × Bool × Except Errno (List UInt8) :=
  match c.readEnter p m maxSize dump copyOk with
  | (c, dump, .exit result) => (c, dump, result)
  | (c, dump, .proceed) => let (c, result) := c.readOut copy; (c, dump, result)
  | (c, dump, .wait) => let (c, result) := (wait c).readOut copy; (c, dump, result)

end CapInfo

/-! ### The steps of a ring read -/

/-- How far a ring read has got: the saved write pointer with the segments to copy and what is copied so
    far, or the bytes to return once `read_ptr` is set. -/
inductive ReadPhase where
  | idle
  | copying (w : Nat) (todo : List (Nat × Nat)) (out : List UInt8)
  | committed (out : List UInt8)
  deriving DecidableEq, Repr

/-- The bytes of a read that has set `read_ptr` but has not returned. -/
def ReadPhase.held : ReadPhase → List UInt8
  | .committed out => out
  | _ => []

/-- The steps of `readOut` that the timer may come between: the pointers are saved, a segment is copied
    or its copy fails, `read_ptr` is set, the full flag is cleared. -/
inductive ReadStep where
  | snapshot
  | copySegment (ok : Bool)
  | commit
  | clear
  deriving DecidableEq, Repr

/-- A step of a read on its ring, with the bytes that the read returns at its end. -/
def RingBuf.readStep (rb : RingBuf) : ReadPhase → ReadStep → Option (RingBuf × ReadPhase × List UInt8)
  | .idle, .snapshot => some (rb, .copying rb.writePtr (rb.segments rb.writePtr rb.readPtr) [], [])
  | .copying _ (_ :: _) _, .copySegment false => some (rb, .idle, [])
  | .copying w (seg :: todo) out, .copySegment true =>
    some (rb, .copying w todo (out ++ rb.mem.read seg.1 seg.2), [])
  | .copying w [] out, .commit => some (rb.commit w, .committed out, [])
  | .committed out, .clear => some (rb.clearFull, .idle, out)
  | _, _ => none

end Dsplog
