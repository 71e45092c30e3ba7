import Dsplog.Theorems.Pipeline
import Dsplog.Theorems.Transport

/-! When the driver loses nothing of a core's log between its DSP and the readers, whatever the other cores, files and
    threads do: the DSP must not lap the instance, a tick must find room for all that waits, and the DSPs must be reset
    only when nothing waits. As before the DSP of the core numbers its records consecutively below 0xFFFFFFFF, gives a
    record with number 0 a format and has a window of whole records, and the operations run one at a time. -/

namespace Dsplog
open Bytes Cyclic Fifo Machines RoundRobin

namespace Transport

/-- What was written and not yet handed over is still in the window, and all that was handed over has been returned or is
    unread, once and in order. -/
structure Complete (p : Platform) (k N : Nat) (s : Transport) : Prop where
  waiting : ∀ c ∈ s.now.queue[k]?, ∀ j r, s.handed.length ≤ j → s.written[j]? = some r →
    s.now.mem.read (c.dsppfBase + dsplogEntrySize * (j % N)) dsplogEntrySize = r.bytes
  flow : s.returned ++ (s.now.unread p k).flatten =
    ((s.past ++ s.written.take s.handed.length).map IdspPrintf.bytes).flatten

/-- The DSP does not lap the instance, a tick finds room in the ring for all records that wait in the window, and the DSPs
    are reset only when none waits. -/
def KeepsPace (p : Platform) (k N : Nat) (s : Transport) : TransportEvent → Prop
  | .record _ => s.written.length < s.handed.length + N
  | .op (.tick _) => s.written.length + (s.now.unread p k).length < s.handed.length + p.printkBufEntries
  | .op _ => True
  | .reset _ => s.handed.length = s.written.length

instance (p : Platform) (k N : Nat) (s : Transport) : ∀ ev, Decidable (KeepsPace p k N s ev)
  | .record _ => inferInstanceAs (Decidable (_ < _))
  | .op (.tick _) => inferInstanceAs (Decidable (_ < _))
  | .op (.openFile ..) | .op (.ioctl ..) | .op (.read ..) | .op (.wake ..) | .op (.resumeRead ..) | .op (.close _)
  | .op (.dspWrite ..) | .op .suspend | .op .resume | .op .resetCap => inferInstanceAs (Decidable True)
  | .reset _ => inferInstanceAs (Decidable (_ = _))

end Transport

/-! ### A tick -/

namespace Capture
variable {p : Platform} {N s0 : Nat} {c c' : CapInfo} {m m' : Mem} {written : List IdspPrintf} {handed : List (List UInt8)}

/-- The instance keeps up with the DSP, with these records written and these handed over. -/
abbrev Keeper (N s0 : Nat) (c : CapInfo) (m : Mem) (written : List IdspPrintf) (handed : List (List UInt8)) : Prop :=
  Gapless N s0 ⟨c, m, .idle, written, handed, []⟩

theorem Gapless.of_cursor (h : Keeper N s0 c m written handed) (hcursor : c'.cursor = c.cursor)
    (hwindow : Window m' c.dsppfBase N written) : Keeper N s0 c' m' written handed := by
  have hseq : c'.currSeqNum = c.currSeqNum := congrArg Cursor.seq hcursor
  exact ⟨h.toFollows.of_cursor hcursor hwindow, h.near, h.whole, hseq.symm ▸ h.number⟩

/-- A visit in the loop of the timer keeps up, and it ends the service only when no record waits. -/
theorem Gapless.serve {s : Service} (h : Keeper N s0 s.cap m written (handed ++ s.handed.map Handed.record)) :
    Keeper N s0 (Service.visit p m s).1.cap m written (handed ++ (Service.visit p m s).1.handed.map Handed.record) ∧
      ((Service.visit p m s).2 = true → (handed ++ s.handed.map Handed.record).length = written.length) := by
  rcases Nat.lt_or_eq_of_le h.le with hlt | heq
  · obtain ⟨r, -, hsome, hnext⟩ := h.visit_pending (p := p) hlt
    rw [Service.visit_of_some hsome, List.map_append, ← List.append_assoc]
    exact ⟨hnext, fun hdry => by cases hdry⟩
  · obtain ⟨hnone, hnext⟩ := h.visit_done (p := p) heq
    rw [Service.visit_of_none hnone]
    exact ⟨hnext, fun _ => heq⟩

/-- A tick hands over every record that waits. -/
theorem Gapless.solo (h : Keeper N s0 c m written handed) {n : Nat} {s : Service}
    (hsolo : RoundRobin.solo (Service.visit p m) n ⟨c, []⟩ = some s) :
    Keeper N s0 s.cap m written (handed ++ s.handed.map Handed.record) ∧
      (handed ++ s.handed.map Handed.record).length = written.length := by
  obtain ⟨u, hu, hdry, rfl⟩ := solo_last (P := fun s => Keeper N s0 s.cap m written (handed ++ s.handed.map Handed.record))
    (fun s hs => (Gapless.serve hs).1) (by simpa using h) hsolo
  obtain ⟨hnext, hall⟩ := Gapless.serve (p := p) hu
  refine ⟨hnext, Nat.le_antisymm hnext.le ?_⟩
  have hgrows : u.handed.length ≤ (Service.visit p m u).1.handed.length := by
    rw [Service.visit]
    split <;> simp
  have hall := hall hdry
  simp only [List.length_append, List.length_map] at hall ⊢
  omega

end Capture

/-! ### Runs -/

namespace Transport
variable {p : Platform} {k N : Nat} {s t : Transport} {op : Op} {ev : TransportEvent}

/-- Nothing has been lost so far. -/
structure Whole (p : Platform) (k N : Nat) (s : Transport) : Prop where
  reachable : (driver p).Reachable s.now
  course : ∃ c, s.now.queue[k]? = some c ∧ c.dsppfBase ≠ 0 ∧ Capture.Keeper N s.first c s.now.mem s.written s.handed
  past : s.pastHanded = s.past.map IdspPrintf.bytes
  flow : s.returned ++ (s.now.unread p k).flatten = (s.pastHanded ++ s.handed).flatten

namespace Whole

theorem init (h : Initial p k N s) : Whole p k N s where
  reachable := h.reachable
  course := by
    obtain ⟨c, hc, hbase, hfresh⟩ := h.fresh
    refine ⟨c, hc, hbase, ?_⟩
    rw [h.written, h.handed]
    exact .init ⟨hfresh, rfl, rfl⟩
  past := by
    rw [h.pastHanded, h.past]
    rfl
  flow := by
    rw [h.returned, h.unread, h.pastHanded, h.handed]
    rfl

theorem inv (h : Whole p k N s) : Inv p k N s where
  reachable := h.reachable
  course := by
    obtain ⟨c, hc, hbase, hkeeper⟩ := h.course
    exact ⟨c, _, hc, hbase, hkeeper.toFollows⟩
  past := ⟨s.past, List.Sublist.refl _, h.past⟩
  accounts := by
    obtain ⟨q, hq⟩ := Driver.exists_queue (k := k) h.reachable
    refine ⟨q, hq, _, List.Sublist.refl _, ?_⟩
    rw [hq]
    exact h.flow

theorem handed_le (h : Whole p k N s) : s.handed.length ≤ s.written.length := by
  obtain ⟨c, -, -, hkeeper⟩ := h.course
  exact hkeeper.le

theorem all_handed (h : Whole p k N s) :
    s.pastHanded ++ s.handed = (s.past ++ s.written.take s.handed.length).map IdspPrintf.bytes := by
  obtain ⟨c, -, -, hkeeper⟩ := h.course
  have hwhole : s.handed = (s.written.take s.handed.length).map IdspPrintf.bytes := hkeeper.whole
  rw [List.map_append, ← h.past, ← hwhole]

theorem complete (h : Whole p k N s) : Complete p k N s where
  waiting c hc j r hle hr := by
    obtain ⟨c', hc', -, hkeeper⟩ := h.course
    obtain rfl : c' = c := Option.some.inj (hc'.symm.trans hc)
    exact hkeeper.waiting hle hr
  flow := by
    rw [← h.all_handed]
    exact h.flow

/-- The DSP of the instance writes a record. -/
theorem record_cases {r : IdspPrintf} (h : Whole p k N s) (hs : s.step p k N (.record r) = some t) :
    ∃ c, s.now.queue[k]? = some c ∧ c.dsppfBase ≠ 0 ∧ Capture.Keeper N s.first c s.now.mem s.written s.handed ∧
      Numbered s.first s.written.length r ∧ (driver p).Reachable t.now ∧ t = { s with
        now := { s.now with
          mem := s.now.mem.write (c.dsppfBase + dsplogEntrySize * (s.written.length % N)) r.bytes }
        written := s.written ++ [r] } := by
  obtain ⟨c, hc, hbase, hkeeper⟩ := h.course
  simp only [Transport.step, hc, Option.bind_some] at hs
  split at hs
  · rename_i hnumbered
    obtain ⟨u, hoperate, rfl⟩ := Option.map_eq_some_iff.mp hs
    obtain ⟨d, r', hstep, rfl⟩ := operate_cases hoperate
    have hreachable := Driver.reachable_step h.reachable hstep
    cases hstep
    refine ⟨c, hc, hbase, hkeeper, hnumbered, hreachable, ?_⟩
    simp [Driver.offered, Driver.ringBytes, Driver.ReadsRing]
  · cases hs

theorem record {r : IdspPrintf} (h : Whole p k N s) (hroom : s.written.length < s.handed.length + N)
    (hs : s.step p k N (.record r) = some t) : Whole p k N t := by
  obtain ⟨c, hc, hbase, hkeeper, hnumbered, hreachable, rfl⟩ := h.record_cases hs
  exact ⟨hreachable, ⟨c, hc, hbase, hkeeper.dspWrite hnumbered hroom⟩, h.past, h.flow⟩

/-- A record over one that still waits. -/
theorem record_breaks {r : IdspPrintf} (h : Whole p k N s) (hroom : ¬s.written.length < s.handed.length + N)
    (hs : s.step p k N (.record r) = some t) : ¬Complete p k N t := by
  intro hcomplete
  obtain ⟨c, hc, -, hkeeper, hnumbered, -, rfl⟩ := h.record_cases hs
  obtain ⟨r', hr', hgone⟩ := hkeeper.overwrites hnumbered hroom
  refine hgone (hcomplete.waiting c hc _ r' (Nat.le_refl _) ?_)
  show (s.written ++ [r])[s.handed.length]? = some r'
  rw [List.getElem?_append_left (List.getElem?_eq_some_iff.mp hr').1]
  exact hr'

/-- What an operation makes of the records: a tick hands over all that wait. -/
theorem operate (h : Whole p k N s) (hop : s.now.LeavesCapture p k op) (hs : s.operate p k op = some t) :
    (driver p).Reachable t.now ∧ t.past = s.past ∧ t.pastHanded = s.pastHanded ∧ t.written = s.written ∧
      t.handed = s.handed ++ s.now.offered p k op ∧ (op.isTick = true → t.handed.length = s.written.length) ∧
      ∃ c, t.now.queue[k]? = some c ∧ c.dsppfBase ≠ 0 ∧ Capture.Keeper N t.first c t.now.mem t.written t.handed := by
  obtain ⟨d, r, hstep, rfl⟩ := operate_cases hs
  obtain ⟨c, hc, hbase, hkeeper⟩ := h.course
  refine ⟨Driver.reachable_step h.reachable hstep, rfl, rfl, rfl, rfl, ?_⟩
  obtain ⟨c', hc', hsame, ⟨fuel, n, sv, rfl, hsolo, rfl, hmem, hoffered⟩ | ⟨htick, hcursor, hwindow⟩⟩ :=
    Driver.course_cases h.reachable hc hop hstep
  · obtain ⟨hnext, hall⟩ := hkeeper.solo hsolo
    rw [← hoffered] at hnext hall
    exact ⟨fun _ => hall, sv.cap, hc', hsame.symm ▸ hbase, hmem.symm ▸ hnext⟩
  · refine ⟨fun htick' => absurd htick' htick, c', hc', hsame.symm ▸ hbase, ?_⟩
    rw [Driver.offered_of_not_tick htick, List.append_nil]
    exact hkeeper.of_cursor hcursor (hwindow N s.written hkeeper.size hkeeper.window)

theorem operated (h : Whole p k N s) (hop : s.now.LeavesCapture p k op) (hG : KeepsPace p k N s (.op op))
    (hs : s.operate p k op = some t) : Whole p k N t := by
  obtain ⟨hreachable, hpast, hpastHanded, hwritten, hhanded, htick, hcourse⟩ := h.operate hop hs
  have hfits : (s.now.offered p k op).length ≤ p.printkBufEntries - 1 - (s.now.unread p k).length := by
    by_cases hticks : op.isTick = true
    · have hall := htick hticks
      rw [hhanded, List.length_append] at hall
      cases op <;> cases hticks
      have hroom : s.written.length + (s.now.unread p k).length < s.handed.length + p.printkBufEntries := hG
      omega
    · rw [Driver.offered_of_not_tick hticks]
      exact Nat.zero_le _
  refine ⟨hreachable, hcourse, by rw [hpastHanded, hpast, h.past], ?_⟩
  rw [operate_flow h.flow h.reachable hop.not_starts hs, List.take_of_length_le hfits, hpastHanded, hhanded,
    List.append_assoc]

/-- A tick that finds no room for all records that wait drops the last of them. -/
theorem tick_breaks {fuel : Nat} (h : Whole p k N s) (hop : s.now.LeavesCapture p k (.tick fuel))
    (hG : ¬KeepsPace p k N s (.op (.tick fuel))) (hs : s.operate p k (.tick fuel) = some t) : ¬Complete p k N t := by
  intro hcomplete
  obtain ⟨-, hpast, -, hwritten, hhanded, hall, c, -, -, hkeeper⟩ := h.operate hop hs
  have hall := hall rfl
  have hwhole : t.handed = (t.written.take t.handed.length).map IdspPrintf.bytes := hkeeper.whole
  rw [hwritten, hall, List.take_length] at hwhole
  -- The records that the tick hands over are those behind the ones handed over before.
  have hoffered : s.now.offered p k (.tick fuel) = (s.written.drop s.handed.length).map IdspPrintf.bytes := by
    rw [List.map_drop, ← hwhole, hhanded, List.drop_left]
  have hflow := operate_flow h.flow h.reachable hop.not_starts hs
  rw [hoffered, ← List.map_take, h.all_handed, ← List.map_append, hcomplete.flow, hpast, hwritten, hall] at hflow
  have hlength := congrArg List.length hflow
  rw [IdspPrintf.length_flatten_bytes, IdspPrintf.length_flatten_bytes] at hlength
  have hlength := Nat.eq_of_mul_eq_mul_left (by decide) hlength
  have hroom : ¬s.written.length + (s.now.unread p k).length < s.handed.length + p.printkBufEntries := hG
  have hle := h.handed_le
  have htwo := p.two_le_printkBufEntries
  obtain ⟨q, hq⟩ := Driver.exists_queue (k := k) h.reachable
  have hq' := q.le
  rw [hq] at hq'
  simp only [List.length_append, List.length_take, List.length_drop] at hlength
  omega

/-- The instance is fresh after a reset, and the ring is as it was. -/
theorem reset_cases {first : Nat} (h : Whole p k N s) (hs : s.step p k N (.reset first) = some t) :
    (driver p).Reachable t.now ∧ t.written = [] ∧ t.handed = [] ∧ t.past = s.past ++ s.written ∧
      t.pastHanded = s.pastHanded ++ s.handed ∧
      t.returned ++ (t.now.unread p k).flatten = (s.pastHanded ++ s.handed).flatten ∧
      ∃ c, t.now.queue[k]? = some c ∧ c.dsppfBase ≠ 0 ∧ Capture.Keeper N t.first c t.now.mem t.written t.handed := by
  simp only [Transport.step] at hs
  obtain ⟨u, hoperate, rfl⟩ := Option.map_eq_some_iff.mp hs
  have hflow := operate_flow h.flow h.reachable (by exact not_false) hoperate
  obtain ⟨c, hc, hbase, hfresh⟩ := h.inv.fresh_reset
  obtain ⟨d, r, hstep, rfl⟩ := operate_cases hoperate
  have hreachable := Driver.reachable_step h.reachable hstep
  cases hstep
  refine ⟨hreachable, rfl, rfl, rfl, congrArg (s.pastHanded ++ ·) (List.append_nil _), ?_, c, hc, hbase, ?_⟩
  · simpa [Driver.offered] using hflow
  · exact .init ⟨hfresh, rfl, rfl⟩

theorem reset {first : Nat} (h : Whole p k N s) (hall : s.handed.length = s.written.length)
    (hs : s.step p k N (.reset first) = some t) : Whole p k N t := by
  obtain ⟨hreachable, -, hhanded, hpast, hpastHanded, hflow, hcourse⟩ := h.reset_cases hs
  refine ⟨hreachable, hcourse, ?_, ?_⟩
  · rw [hpastHanded, hpast, h.all_handed, hall, List.take_length]
  · rw [hflow, hpastHanded, hhanded, List.append_nil]

/-- Whatever still waits in the window at a reset is lost. -/
theorem reset_breaks {first : Nat} (h : Whole p k N s) (hall : s.handed.length ≠ s.written.length)
    (hs : s.step p k N (.reset first) = some t) : ¬Complete p k N t := by
  intro hcomplete
  obtain ⟨-, hwritten, -, hpast, -, hflow, -⟩ := h.reset_cases hs
  rw [hcomplete.flow, hwritten, hpast, h.all_handed] at hflow
  have hlength := congrArg List.length hflow
  rw [IdspPrintf.length_flatten_bytes, IdspPrintf.length_flatten_bytes] at hlength
  have hlength := Nat.eq_of_mul_eq_mul_left (by decide) hlength
  have hle := h.handed_le
  simp only [List.take_nil, List.append_nil, List.length_append, List.length_take] at hlength
  omega

theorem step (h : Whole p k N s) (hG : KeepsPace p k N s ev) (hs : s.step p k N ev = some t) : Whole p k N t := by
  cases ev with
  | record r => exact h.record hG hs
  | op op =>
    simp only [Transport.step] at hs
    split at hs
    · rename_i hop
      exact h.operated hop hG hs
    · cases hs
  | reset first => exact h.reset hG hs

theorem breaks (h : Whole p k N s) (hG : ¬KeepsPace p k N s ev) (hs : s.step p k N ev = some t) : ¬Complete p k N t := by
  cases ev with
  | record r => exact h.record_breaks hG hs
  | op op =>
    simp only [Transport.step] at hs
    split at hs
    · rename_i hop
      cases op with
      | tick fuel => exact h.tick_breaks hop hG hs
      | openFile | ioctl | read | wake | resumeRead | close | dspWrite | suspend | resume | resetCap =>
        exact absurd trivial hG
    · cases hs
  | reset first => exact h.reset_breaks hG hs

end Whole

/-- Over a run of the driver with any other cores, files and threads, from a fresh capture of instance `k`, nothing of
    its log is lost exactly when its DSP never laps it, every tick finds room in its ring for all records that wait, and
    resets come only when none waits. The DSP stays below the wrap of its numbers. -/
theorem complete_iff_keepsPace {es : List TransportEvent} (hs : Initial p k N s)
    (h : (transport p k N).exec s es = some t) :
    (∀ x ∈ (transport p k N).visited s es, Complete p k N x) ↔
      ∀ x ∈ (transport p k N).trace s es, KeepsPace p k N x.1 x.2 :=
  Machine.forall_iff_guarded (fun _ _ _ hI hG hst => Whole.step hI hG hst) (fun _ hI => hI.complete)
    (fun _ _ _ hI hG hst => hI.breaks hG hst) (Whole.init hs) h

theorem complete_iff_keepsPace_resetBetween :
    (∀ x ∈ (transport (Platform.tiny 2 (by decide)) 0 2).visited bothStarted resetBetween,
      Complete (Platform.tiny 2 (by decide)) 0 2 x) ↔
    ∀ x ∈ (transport (Platform.tiny 2 (by decide)) 0 2).trace bothStarted resetBetween,
      KeepsPace (Platform.tiny 2 (by decide)) 0 2 x.1 x.2 := by
  obtain ⟨t, ht, -⟩ := exec_resetBetween
  exact complete_iff_keepsPace bothStarted_initial ht

/-! ### Delivery in time -/

/-- What has been handed over stays so. -/
theorem Whole.handed_grows (h : Whole p k N s) (hs : s.step p k N ev = some t) :
    s.pastHanded ++ s.handed <+: t.pastHanded ++ t.handed := by
  cases ev with
  | record r =>
    obtain ⟨c, -, -, -, -, -, rfl⟩ := h.record_cases hs
    exact List.prefix_refl _
  | op op =>
    simp only [Transport.step] at hs
    split at hs
    · rename_i hop
      obtain ⟨-, -, hpastHanded, -, hhanded, -⟩ := h.operate hop hs
      rw [hpastHanded, hhanded, ← List.append_assoc]
      exact List.prefix_append _ _
    · cases hs
  | reset first =>
    obtain ⟨-, -, hhanded, -, hpastHanded, -⟩ := h.reset_cases hs
    exact ⟨[], by rw [hpastHanded, hhanded]⟩

theorem Whole.run {es : List TransportEvent} (h : Whole p k N s)
    (hs : ((transport p k N).guard (KeepsPace p k N)).exec s es = some t) :
    Whole p k N t ∧ s.pastHanded ++ s.handed <+: t.pastHanded ++ t.handed := by
  induction es generalizing s with
  | nil =>
    cases hs
    exact ⟨h, List.prefix_refl _⟩
  | cons ev es ih =>
    obtain ⟨u, hu, hrest⟩ := Option.bind_eq_some_iff.mp hs
    obtain ⟨hG, hstep⟩ := Machine.guard_step.mp hu
    obtain ⟨ht, hgrows⟩ := ih (h.step hG hstep) hrest
    exact ⟨ht, (h.handed_grows hstep).trans hgrows⟩

/-- A tick leaves no record of the DSP that is not handed over. -/
theorem Whole.tick {fuel : Nat} (h : Whole p k N s) (hs : (transport p k N).step s (.op (.tick fuel)) = some t) :
    t.pastHanded ++ t.handed = (s.past ++ s.written).map IdspPrintf.bytes := by
  simp only [transport, Transport.step] at hs
  split at hs
  · rename_i hop
    obtain ⟨-, -, hpastHanded, hwritten, -, hall, c, -, -, hkeeper⟩ := h.operate hop hs
    have hwhole : t.handed = (t.written.take t.handed.length).map IdspPrintf.bytes := hkeeper.whole
    rw [hall rfl, hwritten, List.take_length] at hwhole
    rw [hpastHanded, hwhole, h.past, List.map_append]
  · cases hs

/-- A ring read that does not fail returns all that was handed over. -/
theorem Whole.ringRead {d : Driver} {bs : List UInt8} (h : Whole p k N s) (hread : Driver.ReadsRing p s.now k op)
    (hend : ¬Driver.AtEnd s.now k op) (hreply : s.now.step p op = some (d, .bytes bs))
    (hs : (transport p k N).step s (.op op) = some t) : t.returned = (s.pastHanded ++ s.handed).flatten := by
  simp only [transport, Transport.step] at hs
  split at hs
  · rename_i hop
    have hflow := operate_flow h.flow h.reachable hop.not_starts hs
    obtain ⟨q, hq⟩ := Driver.exists_queue (k := k) h.reachable
    obtain ⟨hqueue, -⟩ := Driver.step_queue h.reachable hq hreply
    rw [Driver.queueEvents_of_ringRead hread, if_pos ⟨rfl, hend⟩] at hqueue
    have hnone : s.now.offered p k op = [] := by
      cases op <;> first | exact hread.elim | rfl
    obtain ⟨d', r, hstep, rfl⟩ := operate_cases hs
    cases hreply.symm.trans hstep
    have hempty : d.unread p k = [] := hqueue.symm
    simp only [hnone, List.take_nil, hempty, List.flatten_nil, List.append_nil] at hflow
    exact hflow
  · cases hs

/-- While nothing is lost, the first tick after a record and the first successful ring read after that tick bring the
    record to the user, with all that were written before it, whatever happens between. The DSP stays below the wrap of
    its numbers. -/
theorem returned_after_read {fuel : Nat} {es : List TransportEvent} {s t u v : Transport} {d : Driver} {bs : List UInt8}
    (h : ((transport p k N).guard (KeepsPace p k N)).Reachable s)
    (htick : ((transport p k N).guard (KeepsPace p k N)).step s (.op (.tick fuel)) = some t)
    (hrun : ((transport p k N).guard (KeepsPace p k N)).exec t es = some u) (hread : Driver.ReadsRing p u.now k op)
    (hend : ¬Driver.AtEnd u.now k op) (hreply : u.now.step p op = some (d, .bytes bs))
    (hlast : (transport p k N).step u (.op op) = some v) :
    ((s.past ++ s.written).map IdspPrintf.bytes).flatten <+: v.returned := by
  have hs : Whole p k N s := h.guarded (I := Whole p k N) (fun _ => .init) fun _ _ _ hI hG hst => hI.step hG hst
  obtain ⟨hG, hstep⟩ := Machine.guard_step.mp htick
  obtain ⟨hu, rest, hrest⟩ := (hs.step hG hstep).run hrun
  rw [hu.ringRead hread hend hreply hlast, ← hrest, hs.tick hstep, List.flatten_append]
  exact List.prefix_append _ _

/-! A thread waits, core 0's DSP writes a record, a tick hands it over, and the thread is woken and returns it. -/

def tinyPaced : Machine Transport TransportEvent :=
  (transport (Platform.tiny 2 Nat.two_pos) 0 2).guard (KeepsPace (Platform.tiny 2 Nat.two_pos) 0 2)

def recordWaits : Transport := (tinyPaced.exec bothStarted (resetBetween.take 3)).get (by decide +kernel)

def recordHanded : Transport := (tinyPaced.step recordWaits (.op (.tick 8))).get (by decide +kernel)

def readerWoken : Transport := (tinyPaced.exec recordHanded [.op (.wake 0 false)]).get (by decide +kernel)

def recordReturned : Transport := ((transport (Platform.tiny 2 Nat.two_pos) 0 2).step readerWoken
  (.op (.resumeRead 0 ⟨true, true⟩))).get (by decide +kernel)

theorem returned_after_read_woken : recordWaits.written.length = 1 ∧ recordReturned.returned.length = 32 ∧
    ((recordWaits.past ++ recordWaits.written).map IdspPrintf.bytes).flatten <+: recordReturned.returned := by
  have hreply : ∃ d bs, readerWoken.now.step (Platform.tiny 2 (by decide)) (.resumeRead 0 ⟨true, true⟩) =
      some (d, .bytes bs) := by
    have h : (readerWoken.now.step (Platform.tiny 2 (by decide)) (.resumeRead 0 ⟨true, true⟩)).any
        (fun x => decide (x.2 = .bytes x.2.data)) = true := by decide +kernel
    obtain ⟨⟨d, r⟩, hstep, hr⟩ := (Option.any_eq_true _ _).mp h
    exact ⟨d, r.data, hstep.trans (congrArg (fun r => some (d, r)) (of_decide_eq_true hr))⟩
  obtain ⟨d, bs, hreply⟩ := hreply
  refine ⟨by decide +kernel, by decide +kernel, ?_⟩
  exact returned_after_read (.exec (.init bothStarted_initial) (Option.some_get _).symm) (Option.some_get _).symm
    (Option.some_get _).symm (by decide +kernel) (by decide +kernel) hreply (Option.some_get _).symm

end Transport
end Dsplog
