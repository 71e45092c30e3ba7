import Dsplog.Theorems.Instance
import Dsplog.Theorems.Partition
import Dsplog.Theorems.Settled

/-! Where the timer reads. The wrap test looks only at the start of the next record, so the records that the
    timer examines stay inside the window exactly when the size of a window is a whole number of records. -/

namespace Dsplog
open Bytes Machines RoundRobin

variable {p : Platform} {m : Mem} {c c' : CapInfo}

/-- The record at `dsppf_current` lies in the instance's window, in the log region, and in no other core's part. -/
structure CapInfo.Inside (p : Platform) (c : CapInfo) : Prop where
  window : c.dsppfBase ≤ c.dsppfCurrent ∧ c.dsppfCurrent + dsplogEntrySize ≤ c.dsppfBase + c.dsplogBufSize.toNat
  region : p.logBase ≤ c.dsppfCurrent ∧ c.dsppfCurrent + dsplogEntrySize ≤ p.logBase + p.logSize.toNat
  others : ∀ i, i < p.ucodeCoreNum → i ≠ c.dspId.toNat →
    c.dsppfCurrent + dsplogEntrySize ≤ p.logBase + p.logSize.toNat / p.ucodeCoreNum * i ∨
      p.logBase + p.logSize.toNat / p.ucodeCoreNum * (i + 1) ≤ c.dsppfCurrent

/-- Every visit of the next tick finds its record inside: those that hand it over and the one behind them. -/
def Driver.Resident (p : Platform) (d : Driver) : Prop :=
  d.timerInitialized = true → ∀ c ∈ d.queue, ∀ n,
    (∀ i, i < n → (Service.visit p d.mem (after (Service.visit p d.mem) i ⟨c, []⟩)).2 = false) →
    (after (Service.visit p d.mem) n ⟨c, []⟩).cap.Inside p

/-- The system is neither suspended nor resumed. -/
def Op.Running (op : Op) : Prop := op ≠ .suspend ∧ op ≠ .resume

instance (op : Op) : Decidable op.Running := inferInstanceAs (Decidable (_ ∧ _))

/-! ### Whole records -/

namespace CapInfo

/-- The instance has its core's window, and its cursor is at one of the records of the window. -/
structure AtRecord (p : Platform) (c : CapInfo) : Prop where
  below : c.dspId.toNat < p.ucodeCoreNum
  placed : c.place = p.place c.dspId
  slot : ∃ i, dsplogEntrySize * (i + 1) ≤ c.dsplogBufSize.toNat ∧ c.dsppfCurrent = c.dsppfBase + dsplogEntrySize * i

namespace AtRecord

theorem of_eq (h : c.AtRecord p) (hplace : c'.place = c.place) (hcurrent : c'.dsppfCurrent = c.dsppfCurrent) :
    c'.AtRecord p := by
  have hid : c'.dspId = c.dspId := congrArg Place.dspId hplace
  have hbase : c'.dsppfBase = c.dsppfBase := congrArg Place.base hplace
  have hsize : c'.dsplogBufSize = c.dsplogBufSize := congrArg Place.size hplace
  refine ⟨hid ▸ h.below, hid ▸ hplace.trans h.placed, ?_⟩
  rw [hbase, hsize, hcurrent]
  exact h.slot

theorem size (h : c.AtRecord p) : c.dsplogBufSize.toNat = p.logSize.toNat / p.ucodeCoreNum := by
  have hsize : c.dsplogBufSize = p.coreLogSize := congrArg Place.size h.placed
  rw [hsize, Platform.coreLogSize_toNat]

theorem base (h : c.AtRecord p) : c.dsppfBase = p.logBase + p.logSize.toNat / p.ucodeCoreNum * c.dspId.toNat := by
  have hbase : c.dsppfBase = p.logBase + (p.coreLogSize * c.dspId).toNat := congrArg Place.base h.placed
  rw [hbase, Platform.coreOffset_toNat h.below]

theorem inside (h : c.AtRecord p) : c.Inside p := by
  obtain ⟨i, hi, hcurrent⟩ := h.slot
  have hbase := h.base
  have hid := h.below
  rw [h.size, Nat.mul_succ] at hi
  have hregion := Nat.div_mul_le_self p.logSize.toNat p.ucodeCoreNum
  have hle (a b : Nat) (hab : a < b) : p.logSize.toNat / p.ucodeCoreNum * a + p.logSize.toNat / p.ucodeCoreNum ≤
      p.logSize.toNat / p.ucodeCoreNum * b := by
    rw [← Nat.mul_succ]
    exact Nat.mul_le_mul_left _ hab
  have hlast := hle _ _ hid
  refine ⟨⟨by omega, by rw [h.size]; omega⟩, ⟨by omega, by omega⟩, fun j hj hne => ?_⟩
  rw [Nat.mul_succ]
  rcases Nat.lt_or_gt_of_ne hne with hlt | hgt
  · have := hle _ _ hlt
    omega
  · have := hle _ _ hgt
    omega

theorem new {dspId : UInt32} (hid : dspId.toNat < p.ucodeCoreNum)
    (hone : dsplogEntrySize ≤ p.logSize.toNat / p.ucodeCoreNum) (filp pid ring : Nat) :
    (CapInfo.new p filp pid dspId ring).AtRecord p := by
  refine ⟨hid, rfl, 0, ?_, rfl⟩
  show _ ≤ p.coreLogSize.toNat
  rw [Platform.coreLogSize_toNat]
  exact hone

/-- With windows of whole records the cursor moves to another record of the window. -/
theorem advance (h : c.AtRecord p) (hwhole : dsplogEntrySize ∣ p.logSize.toNat / p.ucodeCoreNum) :
    c.advance.AtRecord p := by
  refine ⟨h.below, h.placed, ?_⟩
  obtain ⟨i, hi, hcurrent⟩ := h.slot
  rw [← h.size] at hwhole
  obtain ⟨q, hq⟩ := hwhole
  have hsize : c.advance.dsplogBufSize = c.dsplogBufSize := rfl
  have hbase : c.advance.dsppfBase = c.dsppfBase := rfl
  rw [hsize, hbase]
  by_cases hwrap : c.dsppfBase + c.dsplogBufSize.toNat ≤ c.dsppfCurrent + dsplogEntrySize
  · refine ⟨0, ?_, if_pos hwrap⟩
    simp only [dsplogEntrySize] at *
    omega
  · have hnext : c.advance.dsppfCurrent = c.dsppfCurrent + dsplogEntrySize := if_neg hwrap
    simp only [dsplogEntrySize] at *
    exact ⟨i + 1, by omega, by omega⟩

theorem visit (h : c.AtRecord p) (hwhole : dsplogEntrySize ∣ p.logSize.toNat / p.ucodeCoreNum) :
    (c.visit p m).cap.AtRecord p := by
  cases hawake : c.dspSuspended with
  | true =>
    rw [(visit_of_suspended hawake).2]
    exact h
  | false =>
    rcases c.visit_cases p m hawake rfl with ⟨-, -, hcap⟩ | ⟨-, -, -, hcap⟩ | ⟨-, -, -, -, hcap⟩ | ⟨-, -, -, -, rb, hcap⟩ <;>
      rw [hcap]
    · exact h
    · exact h.of_eq rfl rfl
    · exact h.of_eq rfl rfl
    · have hfollow : ({ c.follow (IdspPrintf.load m c.dsppfCurrent).seqNum with ringbuf := rb } : CapInfo).AtRecord p :=
        h.of_eq rfl rfl
      exact hfollow.advance hwhole

theorem readRing (h : c.AtRecord p) (maxSize : Nat) : (c.readRing p maxSize).1.AtRecord p := by
  rcases c.readRing_cases p maxSize with ⟨result, hr⟩ | ⟨-, hr⟩ | ⟨-, -, hr⟩ | ⟨-, -, hr⟩ <;> rw [hr]
  · exact h
  · exact h
  · exact h.of_eq rfl rfl
  · exact h.of_eq rfl rfl

theorem readOut (h : c.AtRecord p) (copy : Copy) : (c.readOut copy).1.AtRecord p := by
  unfold CapInfo.readOut
  simp only
  split
  · exact h
  · exact h.of_eq rfl rfl

/-- Without suspend and resume a step leaves an instance at a record of its window. -/
theorem alters {d : Driver} {k : Nat} {op : Op} (h : c.AtRecord p)
    (hwhole : dsplogEntrySize ∣ p.logSize.toNat / p.ucodeCoreNum) (hop : op.Running) (ha : d.Alters p k c op c') :
    c'.AtRecord p := by
  cases ha with
  | keep => exact h
  | occupy pid => exact h.of_eq rfl rfl
  | start => exact h.of_eq rfl rfl
  | occupyStart f pid => exact h.of_eq rfl rfl
  | stop => exact h.of_eq rfl rfl
  | @readRing f maxSize => exact h.readRing maxSize
  | @readThrough f maxSize copyOk copy => exact (h.readRing maxSize).readOut copy
  | @readOut i copy => exact h.readOut copy
  | takeToken => exact h.of_eq rfl rfl
  | release =>
    refine h.of_eq place_release ?_
    unfold CapInfo.release
    split <;> rfl
  | tick hsolo =>
    exact solo_invariant (P := fun s : Service => s.cap.AtRecord p)
      (fun s hs => by rw [Service.visit_cap]; exact hs.visit hwhole) h hsolo
  | suspend => exact absurd rfl hop.1
  | resume => exact absurd rfl hop.2
  | reset =>
    obtain ⟨i, hi, -⟩ := h.slot
    refine ⟨h.below, h.placed, 0, ?_, rfl⟩
    exact Nat.le_trans (Nat.mul_le_mul_left _ (Nat.succ_le_succ (Nat.zero_le i))) hi

end AtRecord
end CapInfo

namespace Driver
variable {d : Driver}

/-- With windows of whole records all instances stay at records of their windows. -/
theorem atRecords (hone : dsplogEntrySize ≤ p.logSize.toNat / p.ucodeCoreNum)
    (hwhole : dsplogEntrySize ∣ p.logSize.toNat / p.ucodeCoreNum)
    (h : ((driver p).guard fun _ op => op.Running).Reachable d) : ∀ c ∈ d.queue, c.AtRecord p := by
  have hboth : Registered p d ∧ ∀ c ∈ d.queue, c.AtRecord p := by
    refine h.guarded (I := fun d => Registered p d ∧ ∀ c ∈ d.queue, c.AtRecord p)
      (fun d hd => ⟨.init hd, by simp [hd.queue]⟩) fun d op d' ⟨hreg, hrecs⟩ hop hs => ?_
    obtain ⟨r, hstep⟩ := step_outcome hs
    refine ⟨hreg.step hstep, fun c' hc' => ?_⟩
    obtain ⟨k, hk⟩ := List.mem_iff_getElem?.mp hc'
    rcases Nat.lt_or_ge k d.queue.length with hlt | hge
    · obtain ⟨c'', hc'', ha⟩ := step_alters (Nat.lt_of_lt_of_le hlt hreg.length_le) (List.getElem?_eq_getElem hlt) hstep
      rw [hk] at hc''
      cases hc''
      exact (hrecs _ (List.getElem_mem hlt)).alters hwhole hop ha
    · obtain ⟨filp, pid, dspId, ring, hid, rfl | rfl⟩ := step_new hstep hge hk
      · exact .new hid hone filp pid ring
      · exact (CapInfo.AtRecord.new hid hone filp pid ring).of_eq rfl rfl
  exact hboth.2

theorem resident_of_whole (hone : dsplogEntrySize ≤ p.logSize.toNat / p.ucodeCoreNum)
    (hwhole : dsplogEntrySize ∣ p.logSize.toNat / p.ucodeCoreNum)
    (h : ((driver p).guard fun _ op => op.Running).Reachable d) : Resident p d := by
  intro _ c hc n hbusy
  clear hbusy
  have hafter : (after (Service.visit p d.mem) n ⟨c, []⟩).cap.AtRecord p := by
    induction n with
    | zero => exact atRecords hone hwhole h c hc
    | succ n ih =>
      rw [after_succ, Service.visit_cap]
      exact ih.visit hwhole
  exact hafter.inside

/-! ### The record behind the last whole one -/

variable {d' : Driver} {r : Reply} {op : Op}

theorem running_step (hr : ((driver p).guard fun _ op => op.Running).Reachable d) (hop : op.Running)
    (h : d.step p op = some (d', r)) : ((driver p).guard fun _ op => op.Running).Reachable d' :=
  .step op hr (Machine.guard_step.mpr ⟨hop, congrArg (Option.map Prod.fst) h⟩)

/-- File 0 has selected the first `j` cores one after the other. -/
structure Selected (p : Platform) (j : Nat) (d : Driver) : Prop where
  reachable : ((driver p).guard fun _ op => op.Running).Reachable d
  mem : d.mem = fun _ => 0
  ids : d.queue.map (·.dspId.toNat) = List.range j
  caps : ∀ c ∈ d.queue, ∃ pid ring, c = CapInfo.new p 0 pid c.dspId ring
  file : ∃ context, d.files 0 = some context ∧ (0 < j → context.dsplogPrivData ≠ none)

theorem selected (hC : p.ucodeCoreNum < 4294967296) {j : Nat} (hj : j ≤ p.ucodeCoreNum) : ∃ d, Selected p j d := by
  induction j with
  | zero =>
    have hopen : empty.step p (.openFile 0 true) = some (empty.setFile 0 (some ⟨none, false⟩), .done) := rfl
    exact ⟨_, running_step (.init empty_initial) (by decide) hopen, rfl, rfl, by simp [setFile, empty], _, rfl, by simp⟩
  | succ j ih =>
    obtain ⟨d, hd⟩ := ih (Nat.le_of_succ_le hj)
    obtain ⟨context, hf, -⟩ := hd.file
    have hid : (UInt32.ofNat j).toNat = j := by
      rw [UInt32.toNat_ofNat', Nat.mod_eq_of_lt (by omega)]
    have hnew : ∀ c ∈ d.queue, c.dspId ≠ UInt32.ofNat j := by
      intro c hc heq
      have hmem : c.dspId.toNat ∈ List.range j := hd.ids ▸ List.mem_map_of_mem hc
      rw [heq, hid, List.mem_range] at hmem
      exact Nat.lt_irrefl j hmem
    rcases d.register_cases p 0 10 (UInt32.ofNat j) ⟨true, some 64⟩ with ⟨hge, -⟩ |
      ⟨-, ⟨⟨c, hc, heq, -⟩ | ⟨-, hfail | hfail⟩, -⟩ | ⟨k, c, hc, heq, -⟩ | ⟨ring, -, -, hreg⟩⟩
    · omega
    · exact absurd heq (hnew c hc)
    · cases hfail
    · cases hfail
    · exact absurd heq (hnew c (List.mem_of_getElem? hc))
    · have hstep : d.step p (.ioctl 0 (.setDspCore 10 (some (UInt32.ofNat j)) ⟨true, some 64⟩)) =
          some (({ d.dspPrintkDeinitTimer with
            queue := d.queue ++ [CapInfo.new p 0 10 (UInt32.ofNat j) ring] } : Driver).setFile 0
              (some { context with dsplogPrivData := some d.queue.length }), .done) := by
        simp only [step, hf, Option.map_some, ambaDsplogIoctl, dsplogSetDspCoreId, hreg]
      refine ⟨_, running_step hd.reachable ⟨by simp, by simp⟩ hstep, hd.mem, ?_, fun c hc => ?_,
        { context with dsplogPrivData := some d.queue.length }, by simp [setFile], by simp⟩
      · show (d.queue ++ [CapInfo.new p 0 10 (UInt32.ofNat j) ring]).map (fun c : CapInfo => c.dspId.toNat) = List.range (j + 1)
        rw [List.map_append, hd.ids, List.range_succ]
        exact congrArg (List.range j ++ [·]) hid
      · rcases List.mem_append.mp hc with hold | hlast
        · exact hd.caps c hold
        · rw [List.mem_singleton.mp hlast]
          exact ⟨10, ring, rfl⟩

/-- An instance in front of a window that it has not read yet. -/
structure AtStart (p : Platform) (c : CapInfo) : Prop where
  placed : c.dspId.toNat < p.ucodeCoreNum ∧ c.place = p.place c.dspId
  current : c.dsppfCurrent = c.dsppfBase
  seq : c.currSeqNum = 0
  unwrapped : c.seqNumWrapped = false

/-- All cores can be registered and the timer started while the log region is still cleared. -/
theorem all_started (hC : p.ucodeCoreNum < 4294967296) : ∃ d, ((driver p).guard fun _ op => op.Running).Reachable d ∧
    d.timerInitialized = true ∧ d.mem = (fun _ => 0) ∧ ∃ c ∈ d.queue, AtStart p c := by
  obtain ⟨d, hd⟩ := selected hC (Nat.le_refl _)
  obtain ⟨context, hf, hpriv⟩ := hd.file
  obtain ⟨k, hk⟩ := Option.ne_none_iff_exists'.mp (hpriv p.ucodeCoreNum_pos)
  have hlen : d.queue.length = p.ucodeCoreNum := by
    have := congrArg List.length hd.ids
    rwa [List.length_map, List.length_range] at this
  have hstep : d.step p (.ioctl 0 (.startCapture 10 ⟨false, none⟩)) =
      some ((d.startInstance p k).setFile 0 (some { context with dsplogPrivData := some k }), .done) := by
    simp only [step, hf, Option.map_some, ambaDsplogIoctl, dsplogStartCap, hk, reduceCtorEq, false_and, if_false]
    rfl
  have hlen' : (d.queue.modify k CapInfo.start).length = p.ucodeCoreNum := by
    rw [List.length_modify, hlen]
  have hon : (d.startInstance p k).timerInitialized = true ∧ (d.startInstance p k).mem = d.mem := by
    simp only [startInstance, hlen', if_true]
    exact ⟨rfl, rfl⟩
  obtain ⟨c, hfirst⟩ : ∃ c, d.queue[0]? = some c := ⟨_, List.getElem?_eq_getElem (hlen ▸ p.ucodeCoreNum_pos)⟩
  have hmem := List.mem_of_getElem? hfirst
  have hid : c.dspId.toNat < p.ucodeCoreNum := by
    have hmap : c.dspId.toNat ∈ List.range p.ucodeCoreNum := hd.ids ▸ List.mem_map_of_mem hmem
    exact List.mem_range.mp hmap
  have hat : AtStart p c := by
    obtain ⟨pid, ring, hnew⟩ := hd.caps c hmem
    rw [hnew] at hid ⊢
    exact ⟨⟨hid, rfl⟩, rfl, rfl, rfl⟩
  refine ⟨_, running_step hd.reachable ⟨by simp, by simp⟩ hstep, hon.1, hon.2.trans hd.mem, _,
    List.mem_of_getElem? (d.startInstance_alters hfirst k), ?_⟩
  split
  · exact ⟨hat.placed, hat.current, rfl, hat.unwrapped⟩
  · exact hat

/-- The `i` records numbered from 1 on. -/
def counting (i : Nat) : List IdspPrintf := (List.range i).map fun j => ⟨UInt32.ofNat (j + 1), 0, 9, 0, 0, 0, 0, 0⟩

theorem counting_succ (i : Nat) : counting (i + 1) = counting i ++ [⟨UInt32.ofNat (i + 1), 0, 9, 0, 0, 0, 0, 0⟩] := by
  rw [counting, List.range_succ, List.map_append]
  rfl

@[simp] theorem counting_length (i : Nat) : (counting i).length = i := by simp [counting]

theorem counting_number {i j : Nat} {rec : IdspPrintf} (h : (counting i)[j]? = some rec) (hj : j + 1 < 4294967296) :
    rec.seqNum.toNat = j + 1 := by
  have hlt := (List.getElem?_eq_some_iff.mp h).1
  rw [counting_length] at hlt
  rw [counting, List.getElem?_map, List.getElem?_range hlt, Option.map_some] at h
  rw [← Option.some.inj h, UInt32.toNat_ofNat', Nat.mod_eq_of_lt hj]

theorem filled (hr : ((driver p).guard fun _ op => op.Running).Reachable d) (hmem : d.mem = fun _ => 0) (base q i : Nat) :
    ∃ m, ((driver p).guard fun _ op => op.Running).Reachable { d with mem := m } ∧ Window m base q (counting i) := by
  induction i with
  | zero => exact ⟨d.mem, hr, window_nil fun x _ _ => by rw [hmem]⟩
  | succ i ih =>
    obtain ⟨m, hm, hwindow⟩ := ih
    have hwrite := hwindow.write ⟨UInt32.ofNat (i + 1), 0, 9, 0, 0, 0, 0, 0⟩
    rw [← counting_succ] at hwrite
    have hstep (a : Nat) (bs : List UInt8) : ({ d with mem := m } : Driver).step p (.dspWrite a bs) =
        some ({ d with mem := m.write a bs }, .done) := rfl
    exact ⟨_, running_step hm ⟨by simp, by simp⟩ (hstep _ _), hwrite⟩

/-- The timer follows the records through a window of `q` of them, up to what is left behind the last one. -/
theorem ahead_counting {q n : Nat} (hat : AtStart p c) (hwindow : Window m c.dsppfBase q (counting q)) (hn : n ≤ q)
    (hq : dsplogEntrySize * q < c.dsplogBufSize.toNat) :
    (c.ahead m n).place = c.place ∧ (c.ahead m n).dsppfCurrent = c.dsppfBase + dsplogEntrySize * n ∧
      (c.ahead m n).currSeqNum.toNat = n ∧ ∀ i, i < n → (c.ahead m i).Passes ((c.ahead m i).nextRecord m) := by
  induction n with
  | zero => exact ⟨rfl, hat.current, congrArg UInt32.toNat hat.seq, by simp⟩
  | succ n ih =>
    obtain ⟨hplace, hcurrent, hseq, hpass⟩ := ih (Nat.le_of_succ_le hn)
    have hlt := c.dsplogBufSize.toNat_lt
    simp only [dsplogEntrySize] at *
    have hnext : ((c.ahead m n).nextRecord m).seqNum.toNat = n + 1 := by
      have hn : n < q := by omega
      have hload : (c.ahead m n).nextRecord m = lastIn q (counting q) n := by
        rw [CapInfo.nextRecord, hcurrent]
        exact hwindow.load hn
      rw [hload]
      rcases lastIn_cases (counting q) hn with ⟨hlen, -⟩ | ⟨j, hj, hjq, hmod, -⟩
      · rw [counting_length] at hlen
        omega
      · rw [counting_length] at hjq
        rw [Nat.mod_eq_of_lt hjq] at hmod
        subst hmod
        exact counting_number hj (by omega)
    have hpassn : (c.ahead m n).Passes ((c.ahead m n).nextRecord m) := by
      refine ⟨CapInfo.older_eq_false (by omega), CapInfo.olderWrapped_eq_false (by omega), fun hz => ?_⟩
      have hz : ((c.ahead m n).nextRecord m).seqNum.toNat = 0 := congrArg UInt32.toNat hz.1
      omega
    have hbase : (c.ahead m n).dsppfBase = c.dsppfBase := congrArg Place.base hplace
    have hsize : (c.ahead m n).dsplogBufSize = c.dsplogBufSize := congrArg Place.size hplace
    refine ⟨hplace, ?_, hnext, fun i hi => ?_⟩
    · have hinside : ¬((c.ahead m n).dsppfBase + (c.ahead m n).dsplogBufSize.toNat ≤
          (c.ahead m n).dsppfCurrent + dsplogEntrySize) := by
        rw [hbase, hsize, hcurrent, dsplogEntrySize]
        omega
      have hstep : (c.ahead m (n + 1)).dsppfCurrent = (c.ahead m n).dsppfCurrent + dsplogEntrySize := if_neg hinside
      rw [hstep, hcurrent, dsplogEntrySize]
      omega
    · rcases Nat.lt_succ_iff_lt_or_eq.mp hi with hi | rfl
      · exact hpass i hi
      · exact hpassn

/-- With windows that end inside a record the timer reads this record. -/
theorem overruns (hone : dsplogEntrySize ≤ p.logSize.toNat / p.ucodeCoreNum)
    (hpart : ¬dsplogEntrySize ∣ p.logSize.toNat / p.ucodeCoreNum) :
    ∃ d, ((driver p).guard fun _ op => op.Running).Reachable d ∧ ¬Resident p d := by
  have hC : p.ucodeCoreNum < 4294967296 := by
    have hlt := p.logSize.toNat_lt
    have hle := Nat.div_mul_le_self p.logSize.toNat p.ucodeCoreNum
    have hmul := Nat.mul_le_mul_right p.ucodeCoreNum hone
    rw [dsplogEntrySize] at hmul
    omega
  obtain ⟨d, hr, hon, hmem, c, hc, hat⟩ := all_started hC
  have hsize : c.dsplogBufSize.toNat = p.logSize.toNat / p.ucodeCoreNum := by
    have hsize : c.dsplogBufSize = p.coreLogSize := congrArg Place.size hat.placed.2
    rw [hsize, Platform.coreLogSize_toNat]
  have hawake : c.dspSuspended = false := congrArg Place.suspended hat.placed.2
  rw [← hsize] at hpart
  obtain ⟨q, hq, hq'⟩ : ∃ q, dsplogEntrySize * q < c.dsplogBufSize.toNat ∧
      c.dsplogBufSize.toNat < dsplogEntrySize * (q + 1) := by
    refine ⟨c.dsplogBufSize.toNat / dsplogEntrySize, ?_, ?_⟩ <;> simp only [dsplogEntrySize] at * <;> omega
  obtain ⟨m, hrm, hwindow⟩ := filled hr hmem c.dsppfBase q q
  refine ⟨_, hrm, fun hres => ?_⟩
  obtain ⟨hplace, hcurrent, -, hpass⟩ := ahead_counting hat hwindow (Nat.le_refl q) hq
  have hbase : (c.ahead m q).dsppfBase = c.dsppfBase := congrArg Place.base hplace
  have hsize' : (c.ahead m q).dsplogBufSize = c.dsplogBufSize := congrArg Place.size hplace
  have hbusy (i : Nat) (hi : i < q) : (Service.visit p m (after (Service.visit p m) i ⟨c, []⟩)).2 = false := by
    obtain ⟨rb, handed, hafter⟩ := after_passes (p := p) hawake fun j hj => hpass j (Nat.lt_trans hj hi)
    rw [hafter, ← Bool.not_eq_true, Service.visit_dry_iff, CapInfo.visit_handed_iff, not_not]
    · exact CapInfo.withRing_passes.mpr (hpass i hi)
    · exact CapInfo.ahead_suspended.trans hawake
  have hinside := (hres hon c hc q hbusy).window.2
  obtain ⟨rb, handed, hafter⟩ := after_passes (p := p) hawake hpass
  have hend : (c.ahead m q).dsppfCurrent + dsplogEntrySize ≤ (c.ahead m q).dsppfBase + (c.ahead m q).dsplogBufSize.toNat := by
    rw [hafter] at hinside
    exact hinside
  rw [hcurrent, hbase, hsize'] at hend
  rw [Nat.mul_succ] at hq'
  omega

/-- While the system is not suspended, the timer stays in its cores' windows exactly when the size of a window is
    a whole number of records. -/
theorem resident_iff (hone : dsplogEntrySize ≤ p.logSize.toNat / p.ucodeCoreNum) :
    (∀ d, ((driver p).guard fun _ op => op.Running).Reachable d → Resident p d) ↔
      dsplogEntrySize ∣ p.logSize.toNat / p.ucodeCoreNum := by
  constructor
  · intro hall
    by_contra hpart
    obtain ⟨d, hr, hout⟩ := overruns hone hpart
    exact hout (hall d hr)
  · intro hwhole d hr
    exact resident_of_whole hone hwhole hr

/-- A log region of the default size. -/
def eightMegabytes (cores : Nat) (h : 0 < cores) : Platform := Platform.shipped cores h 500 4096 8388608

/-- Each of five cores has 1677721 bytes, 25 more than 52428 records take. -/
theorem reads_past_window : ¬∀ p : Platform, dsplogEntrySize ≤ p.logSize.toNat / p.ucodeCoreNum →
    ∀ d, ((driver p).guard fun _ op => op.Running).Reachable d → Resident p d := by
  intro h
  obtain ⟨d, hr, hout⟩ := overruns (p := eightMegabytes 5 (by decide)) (by decide) (by decide)
  exact hout (h _ (by decide) d hr)

theorem resident_iff_four : (∀ d, ((driver (eightMegabytes 4 (by decide))).guard fun _ op => op.Running).Reachable d →
    Resident (eightMegabytes 4 (by decide)) d) ↔
      dsplogEntrySize ∣ (eightMegabytes 4 (by decide)).logSize.toNat / (eightMegabytes 4 (by decide)).ucodeCoreNum :=
  resident_iff (by decide)

end Driver
end Dsplog
