import Dsplog.Theorems.Drain
import Dsplog.Theorems.Freeze

/-! What becomes of the records of a core, over whole runs of the driver. The unread records of an instance are a
    bounded queue: ticks offer records, a START throws away what is unread, and the ring reads of all files and
    threads together take what they return. The operations run one at a time here: no tick comes between the pointers
    that a read saves and its last store. -/

namespace Dsplog
open Bytes Fifo Machines RoundRobin

def Reply.data : Reply → List UInt8
  | .bytes bs => bs
  | _ => []

namespace Driver

/-- The unread records of instance `k`; there are none before it is registered. -/
def unread (p : Platform) (d : Driver) (k : Nat) : List (List UInt8) :=
  (d.queue[k]?).elim [] fun c => c.ringbuf.queued p

/-- The read is told that the log of instance `k` was read to its end, and does not come to the ring. -/
def AtEnd (d : Driver) (k : Nat) (op : Op) : Prop := op.isRead = true ∧ ∃ c ∈ d.queue[k]?, c.dsplogReadFinish = true

instance (d : Driver) (k : Nat) (op : Op) : Decidable (AtEnd d k op) :=
  inferInstanceAs (Decidable (_ ∧ ∃ c ∈ d.queue[k]?, c.dsplogReadFinish = true))

/-- The records that a tick hands to the ring of instance `k`. -/
def offered (p : Platform) (d : Driver) (k : Nat) : Op → List (List UInt8)
  | .tick fuel => (dspPrintkTimer p d.mem fuel d.queue).elim [] fun services =>
      (services[k]?).elim [] fun s => s.handed.map Handed.record
  | _ => []

/-- What a step with its reply does to the queue of instance `k`. -/
def queueEvents (p : Platform) (d : Driver) (k : Nat) (op : Op) (r : Reply) : List (Event (List UInt8)) :=
  if Starts p d k op then [.discard]
  else if ReadsRing p d k op ∧ r.isBytes = true ∧ ¬AtEnd d k op then [.take]
  else (d.offered p k op).map .offer

/-- The bytes that a step returns from the ring of instance `k`. -/
def ringBytes (p : Platform) (d : Driver) (k : Nat) (op : Op) (r : Reply) : List UInt8 :=
  if ReadsRing p d k op then r.data else []

end Driver

/-- A run of the driver with what has happened to the queue of instance `k`, and the bytes that all ring reads of the
    instance together have returned. -/
structure Delivery where
  now : Driver
  events : List (Event (List UInt8))
  returned : List UInt8

def Delivery.step (p : Platform) (k : Nat) (s : Delivery) (op : Op) : Option Delivery :=
  (s.now.step p op).map fun (d, r) => {
    now := d
    events := s.events ++ s.now.queueEvents p k op r
    returned := s.returned ++ s.now.ringBytes p k op r }

def delivery (p : Platform) (k : Nat) : Machine Delivery Op where
  Init s := Driver.Initial s.now ∧ s.events = [] ∧ s.returned = []
  step := Delivery.step p k

/-! ### One step -/

namespace Driver
variable {p : Platform} {d d' : Driver} {k : Nat} {op : Op} {r : Reply} {c : CapInfo} {q : RecordQueue p}

theorem unread_of_some (hc : d.queue[k]? = some c) : d.unread p k = c.ringbuf.queued p := by rw [unread, hc, Option.elim_some]

theorem unread_of_none (hc : d.queue[k]? = none) : d.unread p k = [] := by rw [unread, hc, Option.elim_none]

/-- A tick adds the handed records that find room. -/
theorem tick_offers {m : Mem} {n : Nat} {s : Service} (h : c.Sound p) (hq : q.items = c.ringbuf.queued p)
    (hsolo : solo (Service.visit p m) n ⟨c, []⟩ = some s) :
    s.cap.ringbuf.queued p = (q.run ((s.handed.map Handed.record).map .offer)).items := by
  have hinv : s.cap.Sound p ∧ s.cap.ringbuf.queued p = (q.run ((s.handed.map Handed.record).map .offer)).items := by
    refine solo_invariant (P := fun s => s.cap.Sound p ∧
      s.cap.ringbuf.queued p = (q.run ((s.handed.map Handed.record).map .offer)).items) (fun s ⟨hs, hsame⟩ => ?_)
      ⟨h, hq.symm⟩ hsolo
    rw [Service.visit_cap]
    refine ⟨hs.visit, ?_⟩
    rcases s.cap.visit_ring p m with ⟨hnone, hring⟩ | ⟨record, hrec, hsome, hring⟩ <;> rw [hring]
    · rw [Service.visit_of_none hnone]
      exact hsame
    · rw [Service.visit_of_some hsome, hs.wf.add_queued hrec, hsame, List.map_append, List.map_append, Queue.run_append]
      exact Queue.add_items.symm
  exact hinv.2

/-- The instance after a step that neither starts it, nor reads its ring, nor is a tick. -/
theorem unread_kept (hk : k < p.ucodeCoreNum) (hstart : ¬Starts p d k op) (hread : ¬ReadsRing p d k op)
    (htick : ¬op.isTick = true) (hc : d.queue[k]? = some c) (h : d.step p op = some (d', r)) :
    d'.unread p k = c.ringbuf.queued p := by
  obtain ⟨c', hc', ha⟩ := step_alters hk hc h
  rw [unread_of_some hc']
  cases ha with
  | start hs => exact absurd hs hstart
  | occupyStart f pid hs => exact absurd hs hstart
  | @readRing f maxSize =>
    rcases c.readRing_cases p maxSize with ⟨result, hr⟩ | ⟨-, hr⟩ | ⟨-, -, hr⟩ | ⟨-, -, hr⟩ <;> rw [hr] <;> rfl
  | @readThrough f maxSize copyOk copy hf hproceed =>
    refine absurd ⟨hf, ?_⟩ hread
    by_contra hsize
    rw [CapInfo.readRing, if_pos (by omega)] at hproceed
    cases hproceed
  | readOut hrd hcap => exact absurd ⟨_, hrd, hcap⟩ hread
  | release =>
    unfold CapInfo.release
    split <;> rfl
  | tick => exact absurd rfl htick
  | keep | occupy | stop | takeToken | suspend | resume | reset => rfl

/-- A START leaves no unread records. -/
theorem unread_started (hstart : Starts p d k op) (h : d.step p op = some (d', r)) : d'.unread p k = [] := by
  cases op with
  | ioctl f cmd =>
    cases cmd with
    | startCapture pid alloc =>
      obtain ⟨context, hf, hpriv⟩ := hstart
      simp only [step, hf, Option.map_some, Option.some.injEq] at h
      -- Whatever instance START works on, it is `startInstance` that leaves the queue.
      have started (d₁ : Driver) : (d₁.startInstance p k).unread p k = [] := by
        cases hc : d₁.queue[k]? with
        | none => exact unread_of_none (by rw [startInstance_queue, List.getElem?_modify, hc]; rfl)
        | some c =>
          rw [unread_of_some (c := c.start) (by rw [startInstance_queue, List.getElem?_modify_eq, hc]; rfl)]
          exact RingBuf.restart_queued
      rcases d.start_cases p f pid alloc context.dsplogPrivData with ⟨j, -, hs⟩ | ⟨-, -, hs⟩ |
        ⟨-, -, d₁, ⟨-, hs⟩ | ⟨j, -, hs⟩⟩ <;> rw [hs] at hpriv <;> cases hpriv <;>
        simp only [ambaDsplogIoctl, hs] at h <;> cases h
      · exact started d
      · exact started d₁
    | stopCapture | setDspCore | setLogLevel | getLogLevel | parseLog | getMemoryInfo | dumpMemorySnapshot | other =>
      exact hstart.elim
  | openFile | read | wake | resumeRead | close | dspWrite | tick | suspend | resume | resetCap => exact hstart.elim

/-- A ring read of a sound size is told that the log was read to its end, or it comes to the ring at once, or it waits. -/
theorem readRing_sized {maxSize : Nat} (hmod : maxSize % dsplogEntrySize = 0) (hle : p.printkBufSize ≤ maxSize) :
    c.dsplogReadFinish = true ∧ c.readRing p maxSize = (c, .exit (.ok [])) ∨
      c.dsplogReadFinish = false ∧ ((∃ c₁, c.readRing p maxSize = (c₁, .proceed) ∧ (c₁ = c ∨ c₁ = c.enlist)) ∨
        c.readRing p maxSize = (c.enlist, .wait)) := by
  have hsize : ¬(maxSize % dsplogEntrySize ≠ 0 ∨ maxSize < p.printkBufSize) := by omega
  rw [CapInfo.readRing, if_neg hsize]
  cases c.dsplogReadFinish with
  | true => exact Or.inl ⟨rfl, rfl⟩
  | false =>
    refine Or.inr ⟨rfl, ?_⟩
    cases c.dsplogState with
    | false => exact Or.inl ⟨c, rfl, Or.inl rfl⟩
    | true =>
      by_cases h0 : c.enlist.ringbuf.numReader = 0
      · exact Or.inl ⟨c.enlist, by simp [h0], Or.inr rfl⟩
      · exact Or.inr (by simp [h0])

/-- What a read that takes `events` out of a queue returns. -/
def Returns (q : RecordQueue p) (events : List (Event (List UInt8))) (r : Reply) : Prop :=
  ∀ bs, r = .bytes bs → bs = (q.taken events).flatten

/-- A read that comes to the ring takes what it returns, or it fails and leaves the records. -/
theorem readOut_takes (h : c.Sound p) (hq : q.items = c.ringbuf.queued p) (copy : Copy) :
    ∃ events, events = (if (Reply.ofRead (c.readOut copy).2).isBytes = true then [Event.take] else []) ∧
      (c.readOut copy).1.ringbuf.queued p = (q.run events).items ∧ Returns q events (.ofRead (c.readOut copy).2) := by
  refine ⟨_, rfl, ?_⟩
  rcases CapInfo.readOut_cases h.wf.toLayout copy with hr | hr <;> rw [hr]
  · refine ⟨CapInfo.emptied_queued, fun bs hbs => ?_⟩
    cases hbs
    simp [Reply.ofRead, Reply.isBytes, Queue.taken, hq]
  · refine ⟨hq.symm, fun bs hbs => ?_⟩
    cases hbs

/-- What a ring read does to the unread records, and what it returns. -/
theorem ringRead_takes (h : c.Sound p) (hc : d.queue[k]? = some c) (hq : q.items = c.ringbuf.queued p)
    (hread : ReadsRing p d k op) (hs : d.step p op = some (d', r)) :
    ∃ events, events = (if r.isBytes = true ∧ ¬AtEnd d k op then [Event.take] else []) ∧
      d'.unread p k = (q.run events).items ∧ Returns q events r := by
  have hk := (List.getElem?_eq_some_iff.mp hc).1
  cases op with
  | read f maxSize copyOk copy =>
    obtain ⟨hf, hmod, hle⟩ := hread
    simp only [step, hf, Option.bind_some, ambaDsplogRead, hc, Option.map_some, CapInfo.readEnter, Bool.false_eq_true,
      if_false, Option.some.injEq] at hs
    have hend : AtEnd d k (.read f maxSize copyOk copy) ↔ c.dsplogReadFinish = true := by simp [AtEnd, Op.isRead, hc]
    rcases readRing_sized (c := c) hmod hle with ⟨hfinish, hr⟩ | ⟨hfinish, ⟨c₁, hr, hc₁⟩ | hr⟩ <;> rw [hr] at hs <;>
      cases hs <;> refine ⟨_, rfl, ?_⟩ <;> rw [unread_of_some (List.getElem?_set_self hk)] <;>
      simp only [hend, hfinish, Bool.false_eq_true, not_true_eq_false, not_false_eq_true, and_true, and_false, if_false]
    · exact ⟨hq.symm, fun bs hbs => by cases hbs; rfl⟩
    · have hsound : c₁.Sound p ∧ c₁.ringbuf.queued p = c.ringbuf.queued p := by
        rcases hc₁ with rfl | rfl
        · exact ⟨h, rfl⟩
        · exact ⟨h.enlist, rfl⟩
      obtain ⟨events, rfl, htakes⟩ := readOut_takes hsound.1 (hq.trans hsound.2.symm) copy
      exact htakes
    · exact ⟨hq.symm, fun bs hbs => by cases hbs⟩
  | resumeRead i copy =>
    obtain ⟨rd, hrd, rfl⟩ := hread
    obtain ⟨rd', c', hrd', hc', rfl, rfl⟩ := resumeReader_cases hs
    obtain rfl : rd' = rd := Option.some.inj (hrd'.symm.trans hrd)
    obtain rfl : c' = c := Option.some.inj (hc'.symm.trans hc)
    have hend : ¬AtEnd d rd'.cap (.resumeRead i copy) := fun hend => Bool.false_ne_true hend.1
    refine ⟨_, rfl, ?_⟩
    rw [unread_of_some (List.getElem?_set_self hk)]
    simp only [hend, not_false_eq_true, and_true]
    obtain ⟨events, rfl, htakes⟩ := readOut_takes h hq copy
    exact htakes
  | openFile | ioctl | wake | close | dspWrite | tick | suspend | resume | resetCap => exact hread.elim

/-- Before an instance is registered there is nothing to take, and a new instance has no records. -/
theorem unread_new (hnone : d.queue[k]? = none) (hs : d.step p op = some (d', r)) : d'.unread p k = [] := by
  cases hc : d'.queue[k]? with
  | none => exact unread_of_none hc
  | some c =>
    obtain ⟨filp, pid, dspId, ring, -, rfl | rfl⟩ := step_new hs (List.getElem?_eq_none_iff.mp hnone) hc <;>
      exact (unread_of_some hc).trans (RingBuf.queued_of_eq rfl)

theorem ReadsRing.registered (hread : ReadsRing p d k op) (hs : d.step p op = some (d', r)) : ∃ c, d.queue[k]? = some c := by
  cases op with
  | read f maxSize copyOk copy =>
    obtain ⟨hf, -, -⟩ := hread
    simp only [step, hf, Option.bind_some, ambaDsplogRead] at hs
    obtain ⟨c, hc, -⟩ := Option.map_eq_some_iff.mp hs
    exact ⟨c, hc⟩
  | resumeRead i copy =>
    obtain ⟨rd, hrd, rfl⟩ := hread
    obtain ⟨rd', c, hrd', hc, -⟩ := resumeReader_cases hs
    obtain rfl : rd' = rd := Option.some.inj (hrd'.symm.trans hrd)
    exact ⟨c, hc⟩
  | openFile | ioctl | wake | close | dspWrite | tick | suspend | resume | resetCap => exact hread.elim

theorem queueEvents_of_ringRead (hread : ReadsRing p d k op) :
    queueEvents p d k op r = if r.isBytes = true ∧ ¬AtEnd d k op then [.take] else [] := by
  have hstart : ¬Starts p d k op := by
    cases op <;> first | exact hread.elim | exact not_false
  have hoffer : (d.offered p k op).map Event.offer = [] := by
    cases op <;> first | exact hread.elim | rfl
  rw [queueEvents, if_neg hstart, hoffer]
  simp only [hread, true_and]

theorem offered_of_not_tick (h : ¬op.isTick = true) : d.offered p k op = [] := by
  cases op <;> first | exact absurd rfl h | rfl

theorem queueEvents_cases (h : ¬Starts p d k op) : queueEvents p d k op r = [.take] ∧ d.offered p k op = [] ∨
    queueEvents p d k op r = (d.offered p k op).map .offer := by
  rw [queueEvents, if_neg h]
  split
  · rename_i htake
    refine Or.inl ⟨rfl, offered_of_not_tick fun htick => ?_⟩
    cases op <;> first | exact htake.1 | cases htick
  · exact Or.inr rfl

/-- What a tick offers an instance are the records that its visits hand over. -/
theorem tick_offered {fuel : Nat} (hr : (driver p).Reachable d) (hc : d.queue[k]? = some c)
    (hs : d.step p (.tick fuel) = some (d', r)) : ∃ n s, solo (Service.visit p d.mem) n ⟨c, []⟩ = some s ∧
      d'.queue[k]? = some s.cap ∧ d.offered p k (.tick fuel) = s.handed.map Handed.record := by
  simp only [step] at hs
  split at hs
  · obtain ⟨services, htimer, hd⟩ := Option.map_eq_some_iff.mp hs
    cases hd
    have hk := Nat.lt_of_lt_of_le (List.getElem?_eq_some_iff.mp hc).1 (registered hr).length_le
    obtain ⟨s, hget, hin, -⟩ := (dspPrintkTimer_serves htimer).2 k c hc
    obtain ⟨n, hn⟩ := hin hk
    refine ⟨n, s, hn, ?_, ?_⟩
    · rw [List.getElem?_map, hget]
      rfl
    · rw [offered, htimer, Option.elim_some, hget, Option.elim_some]
  · cases hs

/-- A tick adds the records that it hands over, as far as there is room. -/
theorem tick_queue {fuel : Nat} (hr : (driver p).Reachable d) (hq : q.items = d.unread p k)
    (hs : d.step p (.tick fuel) = some (d', r)) : (q.run ((d.offered p k (.tick fuel)).map .offer)).items = d'.unread p k := by
  cases hc : d.queue[k]? with
  | none =>
    simp only [step] at hs
    split at hs
    · obtain ⟨services, htimer, hd⟩ := Option.map_eq_some_iff.mp hs
      cases hd
      obtain ⟨hlen, -⟩ := dspPrintkTimer_serves htimer
      have hnone : services[k]? = none := by
        rw [List.getElem?_eq_none_iff] at hc ⊢
        omega
      rw [unread_of_none hc] at hq
      rw [unread_of_none (by rw [List.getElem?_map, hnone]; rfl), offered, htimer, Option.elim_some, hnone]
      exact hq
    · cases hs
  | some c =>
    obtain ⟨n, s, hsolo, hcap, hoffered⟩ := tick_offered hr hc hs
    rw [unread_of_some hc] at hq
    rw [unread_of_some hcap, tick_offers (sound hr c (List.mem_of_getElem? hc)) hq hsolo, hoffered]

/-- The unread records of an instance fit in a queue. -/
theorem exists_queue (hr : (driver p).Reachable d) : ∃ q : RecordQueue p, q.items = d.unread p k := by
  cases hc : d.queue[k]? with
  | none => exact ⟨.empty, (unread_of_none hc).symm⟩
  | some c =>
    have hlt := (sound hr c (List.mem_of_getElem? hc)).wf.count_lt
    refine ⟨⟨d.unread p k, ?_⟩, rfl⟩
    rw [unread_of_some hc, RingBuf.Layout.queued_length]
    omega

/-- A step of the driver does to the unread records of an instance what its events do to a queue, and a ring read
    returns what it takes. -/
theorem step_queue (hr : (driver p).Reachable d) (hq : q.items = d.unread p k) (hs : d.step p op = some (d', r)) :
    (q.run (queueEvents p d k op r)).items = d'.unread p k ∧
      ringBytes p d k op r = (q.taken (queueEvents p d k op r)).flatten := by
  by_cases hread : ReadsRing p d k op
  · obtain ⟨c, hc⟩ := hread.registered hs
    rw [unread_of_some hc] at hq
    obtain ⟨events, hevents, hqueue, hreturns⟩ := ringRead_takes (sound hr c (List.mem_of_getElem? hc)) hc hq hread hs
    rw [queueEvents_of_ringRead hread, ← hevents, ringBytes, if_pos hread]
    refine ⟨hqueue.symm, ?_⟩
    cases r with
    | bytes bs => exact hreturns bs rfl
    | done | level | memInfo | asleep | error =>
      rw [hevents]
      simp [Reply.data, Reply.isBytes, Queue.taken]
  · rw [ringBytes, if_neg hread]
    by_cases hstart : Starts p d k op
    · rw [queueEvents, if_pos hstart]
      exact ⟨(unread_started hstart hs).symm, rfl⟩
    · rw [queueEvents, if_neg hstart, if_neg fun h => hread h.1, Queue.taken_offers]
      refine ⟨?_, rfl⟩
      by_cases htick : op.isTick = true
      · cases op <;> cases htick
        exact tick_queue hr hq hs
      · rw [offered_of_not_tick htick, List.map_nil, Queue.run_nil, hq]
        cases hc : d.queue[k]? with
        | none => rw [unread_of_none hc, unread_new hc hs]
        | some c =>
          have hk := Nat.lt_of_lt_of_le (List.getElem?_eq_some_iff.mp hc).1 (registered hr).length_le
          rw [unread_of_some hc, unread_kept hk hstart hread htick hc hs]

end Driver

/-! ### Runs -/

namespace Delivery
variable {p : Platform} {k : Nat} {s : Delivery}

/-- What the driver has done to the records of an instance is what the events have done to an empty queue. -/
structure Inv (p : Platform) (k : Nat) (s : Delivery) : Prop where
  reachable : (driver p).Reachable s.now
  unread : ((Queue.empty : RecordQueue p).run s.events).items = s.now.unread p k
  returned : s.returned = ((Queue.empty : RecordQueue p).taken s.events).flatten

theorem inv (h : (delivery p k).Reachable s) : Inv p k s := by
  refine h.invariant (I := Inv p k) (fun s hs => ?_) fun s op t h hs => ?_
  · obtain ⟨hinit, hevents, hreturned⟩ := hs
    refine ⟨.init hinit, ?_, ?_⟩
    · rw [hevents, Driver.unread_of_none (by simp [hinit.queue])]
      rfl
    · rw [hevents, hreturned]
      rfl
  · obtain ⟨⟨d', r⟩, hstep, rfl⟩ := Option.map_eq_some_iff.mp hs
    obtain ⟨hqueue, hbytes⟩ := Driver.step_queue h.reachable h.unread hstep
    refine ⟨Driver.reachable_step h.reachable hstep, ?_, ?_⟩
    · rw [Queue.run_append]
      exact hqueue
    · rw [Queue.taken_append, List.flatten_append, ← h.returned, ← hbytes]

/-- Every run of the driver is followed so. -/
theorem of_run {d d' : Driver} {ops : List Op} (h : (driver p).exec d ops = some d') (events : List (Event (List UInt8)))
    (returned : List UInt8) : ∃ s, (delivery p k).exec ⟨d, events, returned⟩ ops = some s ∧ s.now = d' := by
  induction ops generalizing d events returned with
  | nil =>
    cases h
    exact ⟨_, rfl, rfl⟩
  | cons op ops ih =>
    obtain ⟨d₁, hs, hrest⟩ := Option.bind_eq_some_iff.mp h
    obtain ⟨r, hstep⟩ := Driver.step_outcome hs
    obtain ⟨s, hexec, hnow⟩ := ih hrest (events ++ d.queueEvents p k op r) (returned ++ d.ringBytes p k op r)
    refine ⟨s, ?_, hnow⟩
    rw [Machine.exec]
    show (Delivery.step p k _ op).bind _ = _
    rw [Delivery.step, hstep]
    exact hexec

/-- Over every run of the driver, one operation at a time but whatever files and threads take part, the unread records of
    an instance are those of a bounded queue with the same history, and its ring reads have returned what was taken from
    that queue. -/
theorem instance_is_queue (h : (delivery p k).Reachable s) :
    ((Queue.empty : RecordQueue p).run s.events).items = s.now.unread p k ∧
      s.returned = ((Queue.empty : RecordQueue p).taken s.events).flatten := ⟨(inv h).unread, (inv h).returned⟩

/-- The batches in which the records of an instance have left its ring, with whether a read returned them. -/
def departures (p : Platform) (s : Delivery) : List (Bool × List (List UInt8)) :=
  (Queue.empty : RecordQueue p).departures s.events

/-- A START throws away what is unread, a ring read returns it, and nothing else takes records out of the ring. -/
theorem departures_step {op : Op} {t : Delivery} (h : Inv p k s) (hs : s.step p k op = some t) :
    ∃ r, (s.now.step p op).map Prod.snd = some r ∧ t.departures p = s.departures p ++
      if Driver.Starts p s.now k op then [(false, s.now.unread p k)]
      else if Driver.ReadsRing p s.now k op ∧ r.isBytes = true ∧ ¬Driver.AtEnd s.now k op then [(true, s.now.unread p k)]
      else [] := by
  obtain ⟨⟨d, r⟩, hstep, rfl⟩ := Option.map_eq_some_iff.mp hs
  refine ⟨r, by rw [hstep]; rfl, ?_⟩
  rw [departures, departures, Queue.departures_append, Driver.queueEvents]
  split
  · rw [Queue.departures, Queue.departures, h.unread]
  · split
    · rw [Queue.departures, Queue.departures, h.unread]
    · rw [Queue.departures_offers]

/-- Of the records that the ticks handed over, in their order, every one that found room in the ring has left it in one
    batch or is still unread, and the reads have returned their batches. Each START throws away one batch, all that is
    unread then, each ring read that comes to the ring and does not fail returns one, and no other step makes a batch. -/
theorem records_accounted (h : (delivery p k).Reachable s) :
    ((Queue.empty : RecordQueue p).stored s.events).Sublist (Queue.offers s.events) ∧
      (Queue.empty : RecordQueue p).stored s.events = (s.departures p).flatMap Prod.snd ++ s.now.unread p k ∧
      s.returned = (((s.departures p).filter Prod.fst).flatMap Prod.snd).flatten ∧
      ∀ op t, (delivery p k).step s op = some t → ∃ r, (s.now.step p op).map Prod.snd = some r ∧
        t.departures p = s.departures p ++
          if Driver.Starts p s.now k op then [(false, s.now.unread p k)]
          else if Driver.ReadsRing p s.now k op ∧ r.isBytes = true ∧ ¬Driver.AtEnd s.now k op then
            [(true, s.now.unread p k)]
          else [] := by
  have hinv := inv h
  have hbooks := (Queue.empty : RecordQueue p).books s.events
  rw [hinv.unread] at hbooks
  have hreturned := hinv.returned
  rw [Queue.taken_departures] at hreturned
  exact ⟨Queue.stored_sublist, hbooks, hreturned, fun op t hs => departures_step hinv hs⟩

/-- One core is captured: a read waits for the first record and returns it, and a second record is thrown away by
    another START. -/
def readOnce : List Op :=
  [.openFile 0 true, .ioctl 0 (.startCapture 10 ⟨true, some 64⟩), .read 0 64 true ⟨true, true⟩,
    .dspWrite 4096 (IdspPrintf.bytes ⟨1, 0, 9, 0, 0, 0, 0, 0⟩), .tick 4, .wake 0 false, .resumeRead 0 ⟨true, true⟩,
    .dspWrite 4128 (IdspPrintf.bytes ⟨2, 0, 9, 0, 0, 0, 0, 0⟩), .tick 4, .ioctl 0 (.startCapture 10 ⟨true, some 64⟩)]

theorem exec_readOnce : ∃ s,
    (delivery (Platform.tiny 1 (by decide)) 0).exec ⟨Driver.empty, [], []⟩ readOnce = some s ∧ s.returned.length = 32 ∧ (Queue.offers s.events).length = 2 ∧
    (s.departures (Platform.tiny 1 (by decide))).map Prod.fst = [false, true, false] :=
  ⟨_, rfl, by decide +kernel, by decide +kernel, by decide +kernel⟩

theorem reachable_readOnce : ∃ s, (delivery (Platform.tiny 1 (by decide)) 0).Reachable s ∧ s.returned.length = 32 ∧
    (Queue.offers s.events).length = 2 ∧
    (s.departures (Platform.tiny 1 (by decide))).map Prod.fst = [false, true, false] := by
  obtain ⟨s, hexec, hfacts⟩ := exec_readOnce
  exact ⟨s, Machine.Reachable.exec (.init ⟨Driver.empty_initial, rfl, rfl⟩) hexec, hfacts⟩

theorem instance_is_queue_readOnce : ∃ s : Delivery, (Queue.offers s.events).length = 2 ∧
    ((Queue.empty : RecordQueue (Platform.tiny 1 (by decide))).run s.events).items =
      s.now.unread (Platform.tiny 1 (by decide)) 0 ∧
    s.returned = ((Queue.empty : RecordQueue (Platform.tiny 1 (by decide))).taken s.events).flatten := by
  obtain ⟨s, hreach, -, htwo, -⟩ := reachable_readOnce
  exact ⟨s, htwo, instance_is_queue hreach⟩

theorem records_accounted_readOnce : ∃ s : Delivery, s.returned.length = 32 ∧
    (s.departures (Platform.tiny 1 (by decide))).map Prod.fst = [false, true, false] ∧
    ((Queue.empty : RecordQueue (Platform.tiny 1 (by decide))).stored s.events).Sublist (Queue.offers s.events) ∧
      (Queue.empty : RecordQueue (Platform.tiny 1 (by decide))).stored s.events =
        (s.departures (Platform.tiny 1 (by decide))).flatMap Prod.snd ++ s.now.unread (Platform.tiny 1 (by decide)) 0 ∧
      s.returned = (((s.departures (Platform.tiny 1 (by decide))).filter Prod.fst).flatMap Prod.snd).flatten ∧
      ∀ op t, (delivery (Platform.tiny 1 (by decide)) 0).step s op = some t →
        ∃ r, (s.now.step (Platform.tiny 1 (by decide)) op).map Prod.snd = some r ∧
          t.departures (Platform.tiny 1 (by decide)) = s.departures (Platform.tiny 1 (by decide)) ++
            if Driver.Starts (Platform.tiny 1 (by decide)) s.now 0 op then
              [(false, s.now.unread (Platform.tiny 1 (by decide)) 0)]
            else if Driver.ReadsRing (Platform.tiny 1 (by decide)) s.now 0 op ∧ r.isBytes = true ∧
                ¬Driver.AtEnd s.now 0 op then
              [(true, s.now.unread (Platform.tiny 1 (by decide)) 0)]
            else [] := by
  obtain ⟨s, hreach, hone, -, hbatches⟩ := reachable_readOnce
  exact ⟨s, hone, hbatches, records_accounted hreach⟩

end Delivery
end Dsplog
