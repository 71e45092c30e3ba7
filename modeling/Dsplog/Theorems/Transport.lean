import Dsplog.Theorems.Capture
import Dsplog.Theorems.Delivery
import Dsplog.Theorems.Memory

/-! The way of a core's records through the whole driver. The DSP of the core writes its records, other DSPs write
    theirs, and the driver takes any steps: ticks that serve all cores, reads by any files and threads, registrations,
    STOPs, closes, resets after a hang. What the reads have returned and what is still unread are records of the core,
    whole, in the order in which they were written, none twice. The DSP of the core numbers its records consecutively below
    0xFFFFFFFF, gives a record with number 0 a format, and has a window of whole records (`Numbered`, `Fresh`). The
    operations run one at a time: no tick comes between the pointers that a read saves and its last store. -/

namespace Dsplog
open Bytes Cyclic Fifo Machines RoundRobin

/-- Where an instance stands in its log window, and the numbers it follows. -/
structure Cursor where
  base : Nat
  size : UInt32
  current : Nat
  seq : UInt32
  wrapped : Bool
  suspended : Bool

def CapInfo.cursor (c : CapInfo) : Cursor :=
  ⟨c.dsppfBase, c.dsplogBufSize, c.dsppfCurrent, c.currSeqNum, c.seqNumWrapped, c.dspSuspended⟩

/-- The operations that leave the capture of instance `k` its course: no START of it, no suspend or resume, and no write
    of a DSP into its window. -/
def Driver.LeavesCapture (p : Platform) (d : Driver) (k : Nat) : Op → Prop
  | .dspWrite a bs => ∀ c ∈ d.queue[k]?, a + bs.length ≤ c.dsppfBase ∨ c.dsppfBase + c.dsplogBufSize.toNat ≤ a
  | .suspend | .resume | .resetCap => False
  | op => ¬Starts p d k op

instance (p : Platform) (d : Driver) (k : Nat) : ∀ op, Decidable (d.LeavesCapture p k op)
  | .dspWrite a bs => inferInstanceAs (Decidable (∀ c ∈ d.queue[k]?,
      a + bs.length ≤ c.dsppfBase ∨ c.dsppfBase + c.dsplogBufSize.toNat ≤ a))
  | .suspend | .resume | .resetCap => inferInstanceAs (Decidable False)
  | .openFile f allocOk => inferInstanceAs (Decidable ¬Driver.Starts p d k (.openFile f allocOk))
  | .ioctl f cmd => inferInstanceAs (Decidable ¬Driver.Starts p d k (.ioctl f cmd))
  | .read f maxSize copyOk copy => inferInstanceAs (Decidable ¬Driver.Starts p d k (.read f maxSize copyOk copy))
  | .wake i interrupted => inferInstanceAs (Decidable ¬Driver.Starts p d k (.wake i interrupted))
  | .resumeRead i copy => inferInstanceAs (Decidable ¬Driver.Starts p d k (.resumeRead i copy))
  | .close f => inferInstanceAs (Decidable ¬Driver.Starts p d k (.close f))
  | .tick fuel => inferInstanceAs (Decidable ¬Driver.Starts p d k (.tick fuel))

/-- A run of the driver with the records that the DSP of instance `k` has written, those that the timer has handed over
    and the bytes that ring reads of the instance have returned; the first two since the last reset and before. -/
structure Transport where
  now : Driver
  first : Nat
  written : List IdspPrintf
  handed : List (List UInt8)
  past : List IdspPrintf
  pastHanded : List (List UInt8)
  returned : List UInt8

/-- The DSP of the instance writes its next record, the driver or another DSP takes a step, or all DSPs hang and are
    reset: then that of the instance numbers its records anew. -/
inductive TransportEvent where
  | record (r : IdspPrintf)
  | op (o : Op)
  | reset (first : Nat)
  deriving DecidableEq, Repr

namespace Transport

/-- The state after an operation of the driver. -/
def operate (p : Platform) (k : Nat) (s : Transport) (op : Op) : Option Transport :=
  (s.now.step p op).map fun (d, r) =>
    { s with
      now := d
      handed := s.handed ++ s.now.offered p k op
      returned := s.returned ++ s.now.ringBytes p k op r }

def step (p : Platform) (k N : Nat) (s : Transport) : TransportEvent → Option Transport
  | .record r => (s.now.queue[k]?).bind fun c =>
    if Numbered s.first s.written.length r then
      (s.operate p k (.dspWrite (c.dsppfBase + dsplogEntrySize * (s.written.length % N)) r.bytes)).map fun t =>
        { t with written := s.written ++ [r] }
    else none
  | .op op => if s.now.LeavesCapture p k op then s.operate p k op else none
  | .reset first => (s.operate p k .resetCap).map fun t =>
    { t with
      first := first
      written := []
      handed := []
      past := s.past ++ s.written
      pastHanded := s.pastHanded ++ t.handed }

/-- The capture of a fresh instance in a mapped window, with nothing unread. -/
structure Initial (p : Platform) (k N : Nat) (s : Transport) : Prop where
  reachable : (driver p).Reachable s.now
  fresh : ∃ c, s.now.queue[k]? = some c ∧ c.dsppfBase ≠ 0 ∧ Fresh N c s.now.mem
  unread : s.now.unread p k = []
  written : s.written = []
  handed : s.handed = []
  past : s.past = []
  pastHanded : s.pastHanded = []
  returned : s.returned = []

end Transport

def transport (p : Platform) (k N : Nat) : Machine Transport TransportEvent where
  Init := Transport.Initial p k N
  step := Transport.step p k N

/-! ### The window and the cursor -/

namespace Capture
variable {p : Platform} {N s0 e : Nat} {c c' : CapInfo} {m m' : Mem} {written : List IdspPrintf} {handed : List (List UInt8)}

/-- The instance follows the DSP, with these records written and these handed over. -/
abbrev Follower (N s0 : Nat) (c : CapInfo) (m : Mem) (written : List IdspPrintf) (handed : List (List UInt8)) (e : Nat) : Prop :=
  Follows N s0 ⟨c, m, .idle, written, handed, []⟩ e

theorem Follows.of_cursor (h : Follower N s0 c m written handed e) (hcursor : c'.cursor = c.cursor)
    (hwindow : Window m' c.dsppfBase N written) : Follower N s0 c' m' written handed e := by
  simp only [CapInfo.cursor, Cursor.mk.injEq] at hcursor
  obtain ⟨hbase, hsize, hcurrent, hseq, hwrapped, hsuspended⟩ := hcursor
  refine ⟨h.two_le, ?_, ?_, ?_, ?_, h.numbered, ?_, h.le, ?_, h.handed⟩
  · exact hsize ▸ h.size
  · exact hsuspended.trans h.awake
  · exact hwrapped.trans h.unwrapped
  · exact hbase.symm ▸ hwindow
  · show c'.dsppfCurrent = c'.dsppfBase + dsplogEntrySize * (e % N)
    rw [hcurrent, hbase]
    exact h.current
  · exact hseq.symm ▸ h.seq

/-- A tick takes the instance on by some visits. -/
theorem Follows.solo (h : Follower N s0 c m written handed e) {n : Nat} {s : Service}
    (hsolo : RoundRobin.solo (Service.visit p m) n ⟨c, []⟩ = some s) :
    ∃ e', Follower N s0 s.cap m written (handed ++ s.handed.map Handed.record) e' := by
  refine solo_invariant (P := fun s => ∃ e, Follower N s0 s.cap m written (handed ++ s.handed.map Handed.record) e)
    (fun s ⟨e, hs⟩ => ?_) ⟨e, by simpa using h⟩ hsolo
  obtain ⟨e', hs'⟩ := hs.visit (p := p)
  refine ⟨e', ?_⟩
  cases hhanded : (s.cap.visit p m).handed with
  | none =>
    rw [hhanded, Option.toList_none, List.append_nil] at hs'
    rw [Service.visit_of_none hhanded]
    exact hs'
  | some record =>
    rw [hhanded, Option.toList_some, List.append_assoc] at hs'
    rw [Service.visit_of_some hhanded, List.map_append]
    exact hs'

end Capture

section Cleared
variable {p : Platform} {m : Mem} {x : Nat} {caps : List CapInfo}

/-- What is zero stays so, and what lies in the mapped window of an instance becomes so. -/
theorem foldl_clearLog_zero (h : m x = 0 ∨ ∃ c ∈ caps, c.dsppfBase ≠ 0 ∧ c.dsppfBase ≤ x ∧ x < c.dsppfBase + c.dsplogBufSize.toNat) :
    caps.foldl (fun m c => clearLog m c.dsppfBase c.dsplogBufSize) m x = 0 := by
  induction caps generalizing m with
  | nil => simpa using h
  | cons c caps ih =>
    refine ih ?_
    rcases h with hzero | ⟨c', hc', hbase, hlow, hhigh⟩
    · left
      show clearLog m c.dsppfBase c.dsplogBufSize x = 0
      unfold clearLog
      split
      · exact hzero
      · rw [Mem.clear]
        split
        · rfl
        · exact hzero
    · rcases List.mem_cons.mp hc' with rfl | hc'
      · left
        show clearLog m c'.dsppfBase c'.dsplogBufSize x = 0
        rw [clearLog, if_neg hbase]
        exact Mem.clear_of_mem hlow hhigh
      · exact Or.inr ⟨c', hc', hbase, hlow, hhigh⟩

end Cleared

namespace Driver
variable {p : Platform} {d d' : Driver} {k : Nat} {op : Op} {r : Reply} {c c' : CapInfo}

theorem LeavesCapture.not_starts (h : d.LeavesCapture p k op) : ¬Starts p d k op := by
  cases op <;> first | exact h | exact not_false

theorem cursor_readRing (c : CapInfo) (p : Platform) (maxSize : Nat) : (c.readRing p maxSize).1.cursor = c.cursor := by
  rcases c.readRing_cases p maxSize with ⟨result, hr⟩ | ⟨-, hr⟩ | ⟨-, -, hr⟩ | ⟨-, -, hr⟩ <;> rw [hr] <;> rfl

theorem cursor_readOut (c : CapInfo) (copy : Copy) : (c.readOut copy).1.cursor = c.cursor := by
  unfold CapInfo.readOut
  simp only
  split <;> rfl

/-- Only a tick moves the cursor of an instance whose capture is left its course. -/
theorem alters_cursor (ha : Alters p d k c op c') (hop : d.LeavesCapture p k op) :
    c'.cursor = c.cursor ∨ ∃ fuel n s, op = .tick fuel ∧ solo (Service.visit p d.mem) n ⟨c, []⟩ = some s ∧ c' = s.cap := by
  have started {Q : Prop} (hs : Starts p d k op) : Q := by
    cases op <;> first | exact absurd hs hop | exact hs.elim
  cases ha with
  | start hs => exact started hs
  | occupyStart f pid hs => exact started hs
  | readRing => exact Or.inl (cursor_readRing ..)
  | readThrough => exact Or.inl ((cursor_readOut ..).trans (cursor_readRing ..))
  | readOut => exact Or.inl (cursor_readOut ..)
  | release =>
    left
    unfold CapInfo.release
    split <;> rfl
  | tick hsolo => exact Or.inr ⟨_, _, _, rfl, hsolo, rfl⟩
  | suspend | resume | reset => exact hop.elim
  | keep | occupy | stop | takeToken => exact Or.inl rfl

/-- An operation that leaves the capture its course is a tick, which visits the instance, or it moves neither the cursor
    nor what is in the window. -/
theorem course_cases (hr : (driver p).Reachable d) (hc : d.queue[k]? = some c) (hop : d.LeavesCapture p k op)
    (hs : d.step p op = some (d', r)) : ∃ c', d'.queue[k]? = some c' ∧ c'.dsppfBase = c.dsppfBase ∧
      ((∃ fuel n s, op = .tick fuel ∧ solo (Service.visit p d.mem) n ⟨c, []⟩ = some s ∧ c' = s.cap ∧ d'.mem = d.mem ∧
          d.offered p k op = s.handed.map Handed.record) ∨
        ¬op.isTick = true ∧ c'.cursor = c.cursor ∧
          ∀ (N : Nat) (written : List IdspPrintf), c.dsplogBufSize.toNat = dsplogEntrySize * N →
            Window d.mem c.dsppfBase N written → Window d'.mem c.dsppfBase N written) := by
  have hk := Nat.lt_of_lt_of_le (List.getElem?_eq_some_iff.mp hc).1 (registered hr).length_le
  by_cases htick : op.isTick = true
  · cases op <;> cases htick
    obtain ⟨n, s, hsolo, hcap, hoffered⟩ := tick_offered hr hc hs
    have hplace : s.cap.dsppfBase = c.dsppfBase := congrArg Place.base (solo_place hsolo)
    exact ⟨s.cap, hcap, hplace, Or.inl ⟨_, n, s, rfl, hsolo, rfl, step_mem hs trivial, hoffered⟩⟩
  · obtain ⟨c', hc', ha⟩ := step_alters hk hc hs
    have hcursor : c'.cursor = c.cursor := by
      rcases alters_cursor ha hop with hsame | ⟨fuel, n, s, rfl, -⟩
      · exact hsame
      · exact absurd rfl htick
    refine ⟨c', hc', congrArg Cursor.base hcursor, Or.inr ⟨htick, hcursor, fun N written hsize hwindow => ?_⟩⟩
    cases op with
    | dspWrite a bs =>
      cases hs
      have houtside := hop c hc
      rw [hsize] at houtside
      exact hwindow.frame houtside
    | suspend | resume | resetCap => exact hop.elim
    | openFile | ioctl | read | wake | resumeRead | close | tick =>
      rw [step_mem hs trivial]
      exact hwindow

/-- The instance follows its DSP through every operation that leaves its capture its course. -/
theorem course_step {N s0 e : Nat} {written : List IdspPrintf} {handed : List (List UInt8)} (hr : (driver p).Reachable d)
    (hc : d.queue[k]? = some c) (h : Capture.Follower N s0 c d.mem written handed e) (hop : d.LeavesCapture p k op)
    (hs : d.step p op = some (d', r)) : ∃ c' e', d'.queue[k]? = some c' ∧ c'.dsppfBase = c.dsppfBase ∧
      Capture.Follower N s0 c' d'.mem written (handed ++ d.offered p k op) e' := by
  obtain ⟨c', hc', hbase, ⟨fuel, n, s, -, hsolo, rfl, hmem, hoffered⟩ | ⟨htick, hcursor, hwindow⟩⟩ :=
    course_cases hr hc hop hs
  · obtain ⟨e', hfollows⟩ := h.solo hsolo
    rw [hmem, hoffered]
    exact ⟨s.cap, e', hc', hbase, hfollows⟩
  · rw [offered_of_not_tick htick, List.append_nil]
    exact ⟨c', e, hc', hbase, h.of_cursor hcursor (hwindow N written h.size h.window)⟩

end Driver

/-! ### Runs -/

namespace Transport
variable {p : Platform} {k N : Nat} {s t : Transport} {op : Op} {ev : TransportEvent}

/-- The bytes returned and the records still unread are some of the records handed over, in their order. -/
def Accounts (p : Platform) (k : Nat) (s : Transport) : Prop :=
  ∃ q : RecordQueue p, q.items = s.now.unread p k ∧
    ∃ l : List (List UInt8), l.Sublist (s.pastHanded ++ s.handed) ∧ s.returned ++ q.items.flatten = l.flatten

structure Inv (p : Platform) (k N : Nat) (s : Transport) : Prop where
  reachable : (driver p).Reachable s.now
  course : ∃ c e, s.now.queue[k]? = some c ∧ c.dsppfBase ≠ 0 ∧
    Capture.Follower N s.first c s.now.mem s.written s.handed e
  past : ∃ l : List IdspPrintf, l.Sublist s.past ∧ s.pastHanded = l.map IdspPrintf.bytes
  accounts : Accounts p k s

theorem operate_cases (hs : s.operate p k op = some t) : ∃ d r, s.now.step p op = some (d, r) ∧ t = { s with
    now := d
    handed := s.handed ++ s.now.offered p k op
    returned := s.returned ++ s.now.ringBytes p k op r } := by
  obtain ⟨⟨d, r⟩, hstep, rfl⟩ := Option.map_eq_some_iff.mp hs
  exact ⟨d, r, hstep, rfl⟩

/-- Without a START no record is thrown away: those offered by a tick are stored as far as there is room, and what is
    taken is returned. -/
theorem operate_flow {l : List (List UInt8)} (h : s.returned ++ (s.now.unread p k).flatten = l.flatten)
    (hr : (driver p).Reachable s.now) (hstart : ¬Driver.Starts p s.now k op) (hs : s.operate p k op = some t) :
    t.returned ++ (t.now.unread p k).flatten =
      (l ++ (s.now.offered p k op).take (p.printkBufEntries - 1 - (s.now.unread p k).length)).flatten := by
  obtain ⟨d, r, hstep, rfl⟩ := operate_cases hs
  obtain ⟨q, hq⟩ := Driver.exists_queue (k := k) hr
  obtain ⟨hqueue, hring⟩ := Driver.step_queue hr hq hstep
  show s.returned ++ s.now.ringBytes p k op r ++ (d.unread p k).flatten = _
  rw [← hqueue, hring, List.flatten_append, ← h, ← hq]
  rcases Driver.queueEvents_cases (r := r) hstart with ⟨hevents, hnone⟩ | hevents <;> rw [hevents]
  · rw [hnone]
    simp [Queue.taken, Queue.event]
  · rw [Queue.taken_offers, Queue.run_offers, List.flatten_append]
    simp

theorem Accounts.operate (h : Accounts p k s) (hr : (driver p).Reachable s.now) (hstart : ¬Driver.Starts p s.now k op)
    (hs : s.operate p k op = some t) : Accounts p k t := by
  obtain ⟨q, hq, l, hl, hbytes⟩ := h
  rw [hq] at hbytes
  have hflow := operate_flow hbytes hr hstart hs
  obtain ⟨d, r, hstep, rfl⟩ := operate_cases hs
  obtain ⟨hqueue, -⟩ := Driver.step_queue hr hq hstep
  refine ⟨q.run (Driver.queueEvents p s.now k op r), hqueue, _, ?_, hqueue.symm ▸ hflow⟩
  rw [← List.append_assoc]
  exact hl.append (List.take_sublist ..)

theorem Inv.init (h : Initial p k N s) : Inv p k N s where
  reachable := h.reachable
  course := by
    obtain ⟨c, hc, hbase, hfresh⟩ := h.fresh
    refine ⟨c, 0, hc, hbase, ?_⟩
    rw [h.written, h.handed]
    exact .init ⟨hfresh, rfl, rfl⟩
  past := ⟨[], List.nil_sublist _, h.pastHanded⟩
  accounts := ⟨Queue.empty, h.unread.symm, [], List.nil_sublist _, by simp [h.returned]⟩

/-- After a reset the instance is fresh again. -/
theorem Inv.fresh_reset (h : Inv p k N s) : ∃ c, (s.now.dsplogResetCap).queue[k]? = some c ∧ c.dsppfBase ≠ 0 ∧
    Fresh N c (s.now.dsplogResetCap).mem := by
  obtain ⟨c, e, hc, hbase, hfollows⟩ := h.course
  refine ⟨c.reset, ?_, hbase, hfollows.two_le, hfollows.size, fun x hlow hhigh => ?_, rfl, rfl, rfl, hfollows.awake⟩
  · show (s.now.queue.map CapInfo.reset)[k]? = some c.reset
    rw [List.getElem?_map, hc]
    rfl
  · have hsize : c.dsplogBufSize.toNat = dsplogEntrySize * N := hfollows.size
    exact foldl_clearLog_zero (Or.inr ⟨c, List.mem_of_getElem? hc, hbase, hlow, hsize.symm ▸ hhigh⟩)

theorem Inv.step (h : Inv p k N s) (hs : s.step p k N ev = some t) : Inv p k N t := by
  cases ev with
  | record r =>
    obtain ⟨c, hc, hs⟩ := Option.bind_eq_some_iff.mp hs
    split at hs
    · rename_i hnumbered
      obtain ⟨u, hoperate, rfl⟩ := Option.map_eq_some_iff.mp hs
      have haccounts := h.accounts.operate h.reachable (by exact not_false) hoperate
      obtain ⟨d, r', hstep, rfl⟩ := operate_cases hoperate
      have hreachable := Driver.reachable_step h.reachable hstep
      cases hstep
      obtain ⟨c', e, hc', hbase, hfollows⟩ := h.course
      obtain rfl : c' = c := Option.some.inj (hc'.symm.trans hc)
      refine ⟨hreachable, ⟨c', e, hc', hbase, ?_⟩, h.past, haccounts⟩
      show Capture.Follower N s.first c' _ _ (s.handed ++ []) e
      rw [List.append_nil]
      exact hfollows.dspWrite hnumbered
    · cases hs
  | op op =>
    simp only [Transport.step] at hs
    split at hs
    · rename_i hleaves
      have haccounts := h.accounts.operate h.reachable hleaves.not_starts hs
      obtain ⟨d, r, hstep, rfl⟩ := operate_cases hs
      obtain ⟨c, e, hc, hbase, hfollows⟩ := h.course
      obtain ⟨c', e', hc', hsame, hfollows'⟩ := Driver.course_step h.reachable hc hfollows hleaves hstep
      exact ⟨Driver.reachable_step h.reachable hstep, ⟨c', e', hc', hsame.symm ▸ hbase, hfollows'⟩, h.past, haccounts⟩
    · cases hs
  | reset first =>
    simp only [Transport.step] at hs
    obtain ⟨u, hoperate, rfl⟩ := Option.map_eq_some_iff.mp hs
    have haccounts := h.accounts.operate h.reachable (by exact not_false) hoperate
    obtain ⟨d, r, hstep, rfl⟩ := operate_cases hoperate
    have hreachable := Driver.reachable_step h.reachable hstep
    cases hstep
    refine ⟨hreachable, ?_, ?_, ?_⟩
    · obtain ⟨c, hc, hbase, hfresh⟩ := h.fresh_reset
      exact ⟨c, 0, hc, hbase, .init ⟨hfresh, rfl, rfl⟩⟩
    · obtain ⟨l, hl, hpast⟩ := h.past
      obtain ⟨c, e, -, -, hfollows⟩ := h.course
      obtain ⟨l', hl', hhanded⟩ := hfollows.handed
      refine ⟨l ++ l', hl.append (hl'.trans (List.take_sublist ..)), ?_⟩
      have hhanded : s.handed = l'.map IdspPrintf.bytes := hhanded
      show s.pastHanded ++ (s.handed ++ []) = (l ++ l').map IdspPrintf.bytes
      rw [List.append_nil, List.map_append, hpast, hhanded]
    · obtain ⟨q, hq, l, hl, hbytes⟩ := haccounts
      exact ⟨q, hq, l, by simpa using hl, hbytes⟩

/-- Over every run of the driver from a fresh capture of instance `k`, whatever the other cores, files and threads do, the
    bytes that ring reads of the instance have returned, followed by its unread records, are whole records that its DSP
    has written, in the order in which it wrote them, each at most once. The DSP stays below the wrap of its numbers. -/
theorem transported (h : (transport p k N).Reachable s) : ∃ l : List IdspPrintf, l.Sublist (s.past ++ s.written) ∧
    s.returned ++ (s.now.unread p k).flatten = (l.map IdspPrintf.bytes).flatten := by
  have hinv : Inv p k N s := h.invariant (fun _ => .init) fun _ _ _ => Inv.step
  obtain ⟨past, hpast, hpastHanded⟩ := hinv.past
  obtain ⟨c, e, -, -, hfollows⟩ := hinv.course
  obtain ⟨new, hnew, hhanded⟩ := hfollows.handed
  obtain ⟨q, hq, l, hl, hbytes⟩ := hinv.accounts
  have hhanded : s.handed = new.map IdspPrintf.bytes := hhanded
  rw [hpastHanded, hhanded, ← List.map_append] at hl
  obtain ⟨l', hl', rfl⟩ := List.sublist_map_iff.mp hl
  exact ⟨l', hl'.trans (hpast.append (hnew.trans (List.take_sublist ..))), hq ▸ hbytes⟩

/-- Two cores have just been started. -/
def bothStarted : Transport :=
  ⟨((driver (Platform.tiny 2 (by decide))).exec Driver.empty Driver.bothRunning).getD Driver.empty, 1, [], [], [], [], []⟩

theorem bothStarted_initial : Initial (Platform.tiny 2 (by decide)) 0 2 bothStarted where
  reachable := Machine.Reachable.exec (.init Driver.empty_initial)
    (rfl : (driver (Platform.tiny 2 (by decide))).exec Driver.empty Driver.bothRunning = some bothStarted.now)
  fresh := ⟨_, rfl, by decide, by decide, by decide, fun _ _ _ => rfl, rfl, rfl, rfl, rfl⟩
  unread := by decide +kernel
  written := rfl
  handed := rfl
  past := rfl
  pastHanded := rfl
  returned := rfl

/-- A thread waits for the first record of core 0 and returns it, and after a reset the DSP of the core counts from 7. -/
def resetBetween : List TransportEvent :=
  [.op (.read 0 64 true ⟨true, true⟩), .record ⟨1, 0, 9, 0, 0, 0, 0, 0⟩,
    .op (.dspWrite 4160 (IdspPrintf.bytes ⟨1, 1, 9, 0, 0, 0, 0, 0⟩)), .op (.tick 8), .op (.wake 0 false),
    .op (.resumeRead 0 ⟨true, true⟩), .reset 7, .record ⟨7, 0, 9, 0, 0, 0, 0, 0⟩, .op (.tick 8)]

theorem exec_resetBetween : ∃ s, (transport (Platform.tiny 2 (by decide)) 0 2).exec bothStarted resetBetween = some s ∧
    s.returned.length = 32 ∧ (s.now.unread (Platform.tiny 2 (by decide)) 0).length = 1 := by
  have h : ((transport (Platform.tiny 2 (by decide)) 0 2).exec bothStarted resetBetween).any (fun s =>
      decide (s.returned.length = 32 ∧ (s.now.unread (Platform.tiny 2 (by decide)) 0).length = 1)) = true := by decide +kernel
  obtain ⟨s, hs, hfacts⟩ := (Option.any_eq_true _ _).mp h
  exact ⟨s, hs, of_decide_eq_true hfacts⟩

theorem transported_resetBetween : ∃ s : Transport, s.returned.length = 32 ∧
    (s.now.unread (Platform.tiny 2 (by decide)) 0).length = 1 ∧
    ∃ l : List IdspPrintf, l.Sublist (s.past ++ s.written) ∧
      s.returned ++ (s.now.unread (Platform.tiny 2 (by decide)) 0).flatten = (l.map IdspPrintf.bytes).flatten := by
  obtain ⟨s, hexec, hreturned, hone⟩ := exec_resetBetween
  exact ⟨s, hreturned, hone, transported (Machine.Reachable.exec (.init bothStarted_initial) hexec)⟩

end Transport
end Dsplog
