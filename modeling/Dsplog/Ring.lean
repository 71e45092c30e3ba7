import Dsplog.State

/-! The ring buffer of a core: its initialisation, and what the timer does to store a record and to
    signal a waiting reader (`init_buffer`, `dsp_log_add_to_ring_buffer`). -/

namespace Dsplog
open Bytes

namespace RingBuf

/-- What `init_buffer` makes of the zeroed ring of a new instance, given the block at `start`. -/
def init (p : Platform) (start : Nat) : RingBuf where
  mem := fun _ => 0
  start := start
  end_ := start + p.printkBufSize
  readPtr := start
  writePtr := start
  full := false
  numReader := 0
  fillCompl := 0

/-- Copies a record to `write_ptr` and moves the pointer on, with wrap around. -/
def push (rb : RingBuf) (record : List UInt8) : RingBuf :=
  let next := rb.writePtr + dsplogEntrySize
  { rb with
    mem := rb.mem.write rb.writePtr record
    writePtr := if rb.end_ ≤ next then rb.start else next }

/-- The test for a full ring: `write_ptr` must never catch `read_ptr`. -/
def slow (rb : RingBuf) : Bool :=
  (rb.writePtr == rb.end_ - dsplogEntrySize && rb.readPtr == rb.start) ||
    rb.writePtr + dsplogEntrySize == rb.readPtr

/-- The first half of `dsp_log_add_to_ring_buffer`: a full ring drops the new record. -/
def store (rb : RingBuf) (record : List UInt8) : RingBuf :=
  if rb.full then rb
  else
    let rb := rb.push record
    if rb.slow then { rb with full := true } else rb

/-- `cur_log_size`: the unread bytes, as the pointers tell. -/
def curLogSize (p : Platform) (rb : RingBuf) : Int :=
  let size : Int := rb.writePtr - rb.readPtr
  if size < 0 then size + p.printkBufSize else size

/-- `atomic_dec_and_test` on `num_reader`, and `complete` when it reaches zero. -/
def release (rb : RingBuf) : RingBuf :=
  let rb := { rb with numReader := rb.numReader - 1 }
  if rb.numReader = 0 then { rb with fillCompl := rb.fillCompl + 1 } else rb

/-- Whether the ring holds enough for a waiting reader. -/
def due (p : Platform) (rb : RingBuf) : Bool :=
  rb.full || decide ((p.dumpThresholdSize : Int) < rb.curLogSize p)

/-- The second half of `dsp_log_add_to_ring_buffer`: a counted reader is released when the ring is full
    or holds more than the threshold. -/
def signal (p : Platform) (rb : RingBuf) : RingBuf :=
  if rb.numReader = 0 then rb else if rb.due p then rb.release else rb

def dspLogAddToRingBuffer (p : Platform) (rb : RingBuf) (record : List UInt8) : RingBuf :=
  (rb.store record).signal p

/-- What `dsplog_start_cap` does to the ring: unread records are dropped. -/
def restart (rb : RingBuf) : RingBuf := { rb with readPtr := rb.writePtr, full := false, numReader := 0 }

/-- What `dsplog_stop_cap` does to the ring. -/
def flush (rb : RingBuf) : RingBuf := { rb with numReader := 0, fillCompl := rb.fillCompl + 1 }

/-- The first store of a read's end: `read_ptr` becomes the write pointer that the read has saved. -/
def commit (rb : RingBuf) (w : Nat) : RingBuf := { rb with readPtr := w }

/-- The second store of a read's end. -/
def clearFull (rb : RingBuf) : RingBuf := { rb with full := false }

end RingBuf
end Dsplog
