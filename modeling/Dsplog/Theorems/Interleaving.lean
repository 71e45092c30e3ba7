import Dsplog.Theorems.TimerFlag

/-! The kernel's timer under the mutex. No tick overlaps the work of a registration, a STOP or a reset, the timer is
    started only while there is none, and `timer_initialized` tells whether there is one. -/

namespace Dsplog
open Bytes Machines RoundRobin

namespace Driver
variable {p : Platform} {d d' : Driver} {op : Op} {f : File}

/-! ### What comes between the steps of the mutex's holder -/

/-- The file of the operation. -/
def file? : Op → Option File
  | .ioctl f _ | .read f .. => some f
  | _ => none

/-- What ticks and the operations without the mutex leave as it was for the operation of its holder. -/
structure Spares (op : Op) (d d' : Driver) : Prop where
  timer : d'.timerInitialized = d.timerInitialized
  files : ∀ f, file? op = some f → d'.files f = d.files f
  length : d'.queue.length = d.queue.length
  readers : ∀ (i : Nat) rd, d.readers[i]? = some rd → rd.awake = true → d'.readers[i]? = some rd

theorem Spares.deinitsTimer (h : Spares op d d') : d'.deinitsTimer p op = d.deinitsTimer p op := by
  cases op with
  | ioctl f cmd =>
    have hf := h.files f rfl
    cases cmd with
    | startCapture pid alloc => simp only [Driver.deinitsTimer, hf]
    | stopCapture => simp only [Driver.deinitsTimer, hf]
    | setDspCore pid arg alloc => cases arg <;> rfl
    | setLogLevel | getLogLevel | parseLog | getMemoryInfo | dumpMemorySnapshot | other => rfl
  | openFile | read | wake | resumeRead | close | dspWrite | tick | suspend | resume | resetCap => rfl

/-- An operation with the mutex can be done. -/
def Ready (d : Driver) : Op → Prop
  | .ioctl f _ => (d.files f).isSome = true
  | .read f .. => ∃ context, d.files f = some context ∧ ∀ k, context.dsplogPrivData = some k → k < d.queue.length
  | .resumeRead i _ => ∃ rd, d.readers[i]? = some rd ∧ rd.awake = true ∧ rd.cap < d.queue.length
  | .resetCap => True
  | _ => False

theorem ready_iff (hop : takesMutex op = true) : (d.step p op).isSome = true ↔ d.Ready op := by
  cases op with
  | ioctl f cmd => simp [step, Ready]
  | read f maxSize copyOk copy =>
    simp only [step, Ready]
    cases hf : d.files f with
    | none => simp
    | some context =>
      simp only [Option.bind_some, ambaDsplogRead, Option.some.injEq, exists_eq_left']
      split
      · rename_i hpriv
        simp [hpriv]
      · rename_i k hpriv
        simp [hpriv]
  | resumeRead i copy =>
    simp only [step, Ready, resumeReader]
    cases d.readers[i]? with
    | none => simp
    | some rd =>
      simp only [Option.bind_eq_bind, Option.bind_some, Option.some.injEq, exists_eq_left']
      by_cases hcap : rd.cap < d.queue.length
      · rw [List.getElem?_eq_getElem hcap]
        cases hawake : rd.awake <;> simp [hcap]
      · rw [List.getElem?_eq_none (Nat.le_of_not_lt hcap)]
        simp [hcap]
  | resetCap => simp [step, Ready]
  | openFile | wake | close | dspWrite | tick | suspend | resume => cases hop

theorem Ready.spared (h : d.Ready op) (hd : Spares op d d') : d'.Ready op := by
  cases op with
  | ioctl f cmd =>
    have hf := hd.files f rfl
    rw [Ready, hf]
    exact h
  | read f maxSize copyOk copy =>
    obtain ⟨context, hf, hpriv⟩ := h
    refine ⟨context, (hd.files f rfl).trans hf, fun k hk => ?_⟩
    rw [hd.length]
    exact hpriv k hk
  | resumeRead i copy =>
    obtain ⟨rd, hrd, hawake, hcap⟩ := h
    refine ⟨rd, hd.readers i rd hrd hawake, hawake, ?_⟩
    rw [hd.length]
    exact hcap
  | resetCap => trivial
  | openFile | wake | close | dspWrite | tick | suspend | resume => exact h.elim

@[simp] theorem withTimer_deinitsTimer : (d.withTimer b).deinitsTimer p op = d.deinitsTimer p op := rfl

theorem Ready.file {f : File} (h : d.Ready op) (hf : file? op = some f) : (d.files f).isSome = true := by
  cases op with
  | ioctl f' cmd =>
    cases hf
    exact h
  | read f' maxSize copyOk copy =>
    cases hf
    obtain ⟨context, hfile, -⟩ := h
    rw [hfile]
    rfl
  | openFile | wake | resumeRead | close | dspWrite | tick | suspend | resume | resetCap => cases hf

theorem spares_tick {fuel : Nat} {services : List Service} (h : dspPrintkTimer p d.mem fuel d.queue = some services) :
    Spares op d { d with queue := services.map Service.cap } where
  timer := rfl
  files _ _ := rfl
  length := by
    rw [List.length_map]
    exact (dspPrintkTimer_serves h).1
  readers _ _ h _ := h

end Driver

/-- The stages before the operation has done its work. -/
def Stage.isBefore : Stage → Bool
  | .entered | .deleting | .deleted | .uncalled | .working _ => true
  | _ => false

namespace Interleaving
variable {p : Platform} {s t : Interleaving} {e : InterleavingEvent} {op op' : Op} {stage : Stage} {r : Reply} {d : Driver}
  {fuel : Nat}

theorem inside_iff {f : File} (h : s.holder = some (op, stage)) : s.inside f = true ↔ Driver.file? op = some f := by
  rw [inside, h]
  cases op <;> simp [Driver.file?]

/-- A free operation is not one of the mutex and no tick. -/
theorem isFree_cases (h : s.isFree op' = true) : (∀ fuel, op' ≠ .tick fuel) ∧ ∀ f cmd, op' ≠ .ioctl f cmd := by
  constructor
  · rintro fuel rfl
    cases h
  · rintro f cmd rfl
    cases h

theorem spares_free (hready : s.driver.Ready op) (hfree : s.isFree op' = true) (hholder : s.holder = some (op, stage))
    (hs : s.driver.step p op' = some (d, r)) : Driver.Spares op s.driver d := by
  cases op' with
  | openFile f allocOk =>
    simp only [Driver.step] at hs
    split at hs
    · cases hs
    · rename_i hnone
      split at hs <;> cases hs
      · refine ⟨rfl, fun f' hf' => ?_, rfl, fun _ _ h _ => h⟩
        have hne : f' ≠ f := by
          rintro rfl
          exact hnone (Driver.Ready.file hready hf')
        exact Function.update_of_ne hne _ _
      · exact ⟨rfl, fun _ _ => rfl, rfl, fun _ _ h _ => h⟩
  | wake i interrupted =>
    obtain ⟨d', hwake, hd⟩ := Option.map_eq_some_iff.mp hs
    cases hd
    obtain ⟨rd, c, hrd, -, hasleep, ⟨-, rfl⟩ | ⟨-, rfl⟩⟩ := Driver.wakeReader_cases hwake
    all_goals
      refine ⟨rfl, fun _ _ => rfl, by simp, fun j rd' hj hawake => ?_⟩
      have hne : i ≠ j := by
        rintro rfl
        rw [hrd] at hj
        cases hj
        rw [hasleep] at hawake
        cases hawake
      exact (List.getElem?_set_ne hne).trans hj
  | close f =>
    simp only [Driver.step] at hs
    split at hs <;> cases hs
    refine ⟨rfl, fun f' hf' => ?_, List.length_map _, fun _ _ h _ => h⟩
    have hne : f' ≠ f := by
      rintro rfl
      simp only [isFree, (inside_iff hholder).mpr hf'] at hfree
      cases hfree
    exact Function.update_of_ne hne _ _
  | dspWrite a bs =>
    cases hs
    exact ⟨rfl, fun _ _ => rfl, rfl, fun _ _ h _ => h⟩
  | suspend | resume =>
    cases hs
    exact ⟨rfl, fun _ _ => rfl, List.length_map _, fun _ _ h _ => h⟩
  | ioctl | read | resumeRead | tick | resetCap => cases hfree

theorem free_timer (hfree : s.isFree op' = true) (hs : s.driver.step p op' = some (d, r)) :
    d.timerInitialized = s.driver.timerInitialized := by
  obtain ⟨htick, hioctl⟩ := isFree_cases hfree
  have hblind := Driver.step_withTimer_of_blind (p := p) (d := s.driver) (b := s.driver.timerInitialized) htick hioctl
  rw [Driver.withTimer_self, hs] at hblind
  have hd : d = d.withTimer s.driver.timerInitialized := congrArg Prod.fst (Option.some.inj hblind)
  have hflag : d.timerInitialized = (d.withTimer s.driver.timerInitialized).timerInitialized :=
    congrArg Driver.timerInitialized hd
  exact hflag

/-- The work is that of the driver; it ends with the restart of the timer by a reset, with the start of a timer, or
    with neither. -/
theorem work_cases (hs : s.work p op = some t) : ∃ d r, s.driver.step p op = some (d, r) ∧
    (op = .resetCap ∧ t = { s with driver := d, holder := some (op, .restarting r) } ∨
      op ≠ .resetCap ∧ s.driver.timerInitialized = false ∧ d.timerInitialized = true ∧
        t = { s with driver := d.withTimer false, holder := some (op, .installing r) } ∨
      op ≠ .resetCap ∧ (d.timerInitialized = true → s.driver.timerInitialized = true) ∧
        t = { s with driver := d, holder := some (op, .leaving r) }) := by
  obtain ⟨⟨d, r⟩, hstep, rfl⟩ := Option.map_eq_some_iff.mp hs
  refine ⟨d, r, hstep, ?_⟩
  simp only
  split
  · rename_i hop
    exact Or.inl ⟨hop, rfl⟩
  · rename_i hop
    split
    · rename_i hstart
      simp only [Bool.and_eq_true, Bool.not_eq_true'] at hstart
      exact Or.inr (Or.inl ⟨hop, hstart.2, hstart.1, rfl⟩)
    · rename_i hstart
      simp only [Bool.and_eq_true, Bool.not_eq_true', not_and, Bool.not_eq_false] at hstart
      exact Or.inr (Or.inr ⟨hop, hstart, rfl⟩)

theorem takesMutex_ne_tick (h : Driver.takesMutex op = true) (fuel : Nat) : op ≠ .tick fuel := by
  rintro rfl
  cases h

/-- What an operation with the mutex makes of the timer flag. -/
theorem timer_after_work (hmutex : Driver.takesMutex op = true) (hs : s.driver.step p op = some (d, r)) : ∃ inits,
    d.timerInitialized = (inits || (s.driver.timerInitialized && !s.driver.deinitsTimer p op)) ∧
      ∀ b, (s.driver.withTimer b).step p op = some (d.withTimer (inits || (b && !s.driver.deinitsTimer p op)), r) := by
  obtain ⟨inits, hall⟩ := Driver.step_withTimer hs (takesMutex_ne_tick hmutex)
  have hsame := hall s.driver.timerInitialized
  rw [Driver.withTimer_self, hs] at hsame
  have hd : d = d.withTimer (inits || (s.driver.timerInitialized && !s.driver.deinitsTimer p op)) :=
    congrArg Prod.fst (Option.some.inj hsame)
  exact ⟨inits, (congrArg Driver.timerInitialized hd :), hall⟩

/-! ### The timer at every stage -/

/-- The timer is pending or its handler runs. -/
def Alive (s : Interleaving) : Prop := s.pending = true ∨ s.handler ≠ .idle

/-- Whether `timer_callback` is set, whether `timer_initialized` is, and whether the timer is alive. -/
def TimerIs (s : Interleaving) (callback flag alive : Bool) : Prop :=
  s.timerCallback = callback ∧ s.driver.timerInitialized = flag ∧ (s.Alive ↔ alive = true)

/-- The timer at each stage of the mutex's holder. -/
def Linked (p : Platform) (s : Interleaving) : Prop :=
  match s.holder with
  | none | some (_, .entered) | some (_, .leaving _) => ∃ b, s.TimerIs b b b
  | some (op, .deleting) => (op = .resetCap ∨ s.driver.deinitsTimer p op = true) ∧ s.TimerIs true true true
  | some (op, .deleted) => s.driver.deinitsTimer p op = true ∧ s.TimerIs true true false
  | some (op, .uncalled) => s.driver.deinitsTimer p op = true ∧ s.TimerIs false true false
  | some (op, .working was) =>
    op = .resetCap ∧ was = false ∧ (∃ b, s.TimerIs b b false) ∨
      s.driver.deinitsTimer p op = true ∧ s.TimerIs false false false ∨
      op ≠ .resetCap ∧ s.driver.deinitsTimer p op = false ∧ was = false ∧ ∃ b, s.TimerIs b b b
  | some (_, .installing _) => s.TimerIs false false false
  | some (_, .adding _) => s.TimerIs true false false
  | some (_, .added _) => s.TimerIs true false true
  | some (_, .restarting _) => ∃ b, s.TimerIs b b false

structure Inv (p : Platform) (s : Interleaving) : Prop where
  linked : s.Linked p
  loaded : ∀ callback, s.handler = .loaded callback → callback = true
  rearmed : s.handler = .rearmed → s.pending = true
  ready : ∀ op stage, s.holder = some (op, stage) → stage.isBefore = true →
    Driver.takesMutex op = true ∧ s.driver.Ready op

/-- The timer is alive only while it has its call back, and then the flag is set or about to be set. -/
theorem Linked.alive (h : s.Linked p) (halive : s.Alive) : s.timerCallback = true ∧
    (s.driver.timerInitialized = true ∨ ∃ op r, s.holder = some (op, .added r)) := by
  have hself : ∀ {b}, s.TimerIs b b b → s.timerCallback = true ∧ s.driver.timerInitialized = true := by
    rintro b ⟨hcallback, hflag, hb⟩
    obtain rfl := hb.mp halive
    exact ⟨hcallback, hflag⟩
  have hgone : ∀ {callback flag}, ¬s.TimerIs callback flag false := fun h => Bool.false_ne_true (h.2.2.mp halive)
  unfold Linked at h
  split at h
  · obtain ⟨b, hb⟩ := h
    exact ⟨(hself hb).1, Or.inl (hself hb).2⟩
  · obtain ⟨b, hb⟩ := h
    exact ⟨(hself hb).1, Or.inl (hself hb).2⟩
  · obtain ⟨b, hb⟩ := h
    exact ⟨(hself hb).1, Or.inl (hself hb).2⟩
  · exact ⟨(hself h.2).1, Or.inl (hself h.2).2⟩
  · exact absurd h.2 hgone
  · exact absurd h.2 hgone
  · rcases h with ⟨-, -, b, hb⟩ | ⟨-, hb⟩ | ⟨-, -, -, b, hb⟩
    · exact absurd hb hgone
    · exact absurd hb hgone
    · exact ⟨(hself hb).1, Or.inl (hself hb).2⟩
  · exact absurd h hgone
  · exact absurd h hgone
  · rename_i op r hholder
    exact ⟨h.1, Or.inr ⟨op, r, hholder⟩⟩
  · obtain ⟨b, hb⟩ := h
    exact absurd hb hgone

/-- What changes neither the holder nor the timer keeps its state. -/
theorem Linked.congr (h : s.Linked p) (hholder : t.holder = s.holder) (hcallback : t.timerCallback = s.timerCallback)
    (hflag : t.driver.timerInitialized = s.driver.timerInitialized) (halive : t.Alive ↔ s.Alive)
    (hdeinits : ∀ op stage, s.holder = some (op, stage) → stage.isBefore = true →
      t.driver.deinitsTimer p op = s.driver.deinitsTimer p op) : t.Linked p := by
  have htimer : ∀ {callback flag alive}, s.TimerIs callback flag alive → t.TimerIs callback flag alive :=
    fun h => ⟨hcallback.trans h.1, hflag.trans h.2.1, halive.trans h.2.2⟩
  unfold Linked at h ⊢
  rw [hholder]
  split at h
  · exact h.imp fun _ => htimer
  · exact h.imp fun _ => htimer
  · exact h.imp fun _ => htimer
  · rename_i op hh
    rw [hdeinits op _ hh rfl]
    exact ⟨h.1, htimer h.2⟩
  · rename_i op hh
    rw [hdeinits op _ hh rfl]
    exact ⟨h.1, htimer h.2⟩
  · rename_i op hh
    rw [hdeinits op _ hh rfl]
    exact ⟨h.1, htimer h.2⟩
  · rename_i op was hh
    rw [hdeinits op _ hh rfl]
    rcases h with ⟨hop, hwas, b, hb⟩ | ⟨hdeinit, hb⟩ | ⟨hop, hdeinit, hwas, b, hb⟩
    · exact Or.inl ⟨hop, hwas, b, htimer hb⟩
    · exact Or.inr (Or.inl ⟨hdeinit, htimer hb⟩)
    · exact Or.inr (Or.inr ⟨hop, hdeinit, hwas, b, htimer hb⟩)
  · exact htimer h
  · exact htimer h
  · exact htimer h
  · exact h.imp fun _ => htimer

/-- The handler takes steps only while the timer is alive, and keeps it so. -/
theorem handle_frame (hrearmed : s.handler = .rearmed → s.pending = true) (h : s.handle p fuel = some t) :
    s.Alive ∧ t.Alive ∧ t.holder = s.holder ∧ t.timerCallback = s.timerCallback ∧
      (s.handler ≠ .loaded true ∧ t.driver = s.driver ∨ s.handler = .loaded true ∧ ∃ services,
        dspPrintkTimer p s.driver.mem fuel s.driver.queue = some services ∧
          t.driver = { s.driver with queue := services.map Service.cap }) := by
  unfold handle at h
  split at h
  · rename_i hhandler
    split at h <;> cases h
    rename_i hpending
    exact ⟨Or.inl hpending, Or.inr (by simp), rfl, rfl, Or.inl ⟨by simp [hhandler], rfl⟩⟩
  · rename_i hhandler
    cases h
    exact ⟨Or.inr (by simp [hhandler]), Or.inr (by simp), rfl, rfl, Or.inl ⟨by simp [hhandler], rfl⟩⟩
  · rename_i hhandler
    obtain ⟨services, htimer, rfl⟩ := Option.map_eq_some_iff.mp h
    exact ⟨Or.inr (by simp [hhandler]), Or.inr (by simp), rfl, rfl, Or.inr ⟨hhandler, services, htimer, rfl⟩⟩
  · rename_i hhandler
    cases h
    exact ⟨Or.inr (by simp [hhandler]), Or.inr (by simp), rfl, rfl, Or.inl ⟨by simp [hhandler], rfl⟩⟩
  · rename_i hhandler
    cases h
    exact ⟨Or.inr (by simp [hhandler]), Or.inl rfl, rfl, rfl, Or.inl ⟨by simp [hhandler], rfl⟩⟩
  · rename_i hhandler
    cases h
    exact ⟨Or.inr (by simp [hhandler]), Or.inl (hrearmed hhandler), rfl, rfl, Or.inl ⟨by simp [hhandler], rfl⟩⟩

namespace Inv

theorem init (h : s.Initial) : s.Inv p := by
  have hdead : ¬s.Alive := by
    rintro (hpending | hhandler)
    · rw [h.pending] at hpending
      cases hpending
    · exact hhandler h.handler
  refine ⟨?_, fun callback hc => ?_, fun hc => ?_, fun op stage hc => ?_⟩
  · rw [Linked, h.holder]
    exact ⟨false, h.timerCallback, h.driver.timer, by simp [hdead]⟩
  · rw [h.handler] at hc
    cases hc
  · rw [h.handler] at hc
    cases hc
  · rw [h.holder] at hc
    cases hc

theorem handle (h : s.Inv p) (hs : s.handle p fuel = some t) : t.Inv p := by
  obtain ⟨halive, halive', hholder, hcallback, hdriver⟩ := handle_frame h.rearmed hs
  have hspares : ∀ op, Driver.Spares op s.driver t.driver := by
    intro op
    rcases hdriver with ⟨-, hsame⟩ | ⟨-, services, htimer, hd⟩
    · rw [hsame]
      exact ⟨rfl, fun _ _ => rfl, rfl, fun _ _ h _ => h⟩
    · rw [hd]
      exact Driver.spares_tick htimer
  refine ⟨?_, fun callback hc => ?_, fun hc => ?_, fun op stage hh hbefore => ?_⟩
  · refine h.linked.congr hholder hcallback (hspares .resetCap).timer (iff_of_true halive' halive) fun op _ _ _ => ?_
    exact (hspares op).deinitsTimer
  · have hloaded := (h.linked.alive halive).1
    unfold Interleaving.handle at hs
    split at hs
    · split at hs <;> cases hs
      cases hc
    · cases hs
      cases hc
      exact hloaded
    · obtain ⟨services, -, rfl⟩ := Option.map_eq_some_iff.mp hs
      cases hc
    all_goals cases hs; cases hc
  · unfold Interleaving.handle at hs
    split at hs
    · split at hs <;> cases hs
      cases hc
    · cases hs
      cases hc
    · obtain ⟨services, -, rfl⟩ := Option.map_eq_some_iff.mp hs
      cases hc
    · cases hs
      cases hc
    · cases hs
      rfl
    · cases hs
      cases hc
  · rw [hholder] at hh
    obtain ⟨hmutex, hready⟩ := h.ready op stage hh hbefore
    exact ⟨hmutex, hready.spared (hspares op)⟩

theorem free (h : s.Inv p) (hfree : s.isFree op' = true) (hs : s.driver.step p op' = some (d, r)) :
    Inv p { s with driver := d } := by
  refine ⟨?_, h.loaded, h.rearmed, fun op stage hh hbefore => ?_⟩
  · refine h.linked.congr rfl rfl (free_timer hfree hs) Iff.rfl fun op stage hh hbefore => ?_
    exact (spares_free (h.ready op stage hh hbefore).2 hfree hh hs).deinitsTimer
  · obtain ⟨hmutex, hready⟩ := h.ready op stage hh hbefore
    exact ⟨hmutex, hready.spared (spares_free hready hfree hh hs)⟩

theorem lock (h : s.Inv p) (hnone : s.holder = none) (hmutex : Driver.takesMutex op = true)
    (hsome : (s.driver.step p op).isSome = true) : Inv p { s with holder := some (op, .entered) } := by
  refine ⟨?_, h.loaded, h.rearmed, fun op' stage hh hbefore => ?_⟩
  · have hlinked := h.linked
    rw [Linked, hnone] at hlinked
    exact hlinked
  · cases hh
    exact ⟨hmutex, (Driver.ready_iff hmutex).mp hsome⟩

theorem atStage (h : s.Inv p) (hlinked : t.Linked p) (hhandler : t.handler = s.handler)
    (hrearmed : s.handler = .rearmed → t.pending = true)
    (hready : ∀ op stage, t.holder = some (op, stage) → stage.isBefore = true →
      Driver.takesMutex op = true ∧ t.driver.Ready op) : t.Inv p :=
  ⟨hlinked, hhandler ▸ h.loaded, hhandler ▸ hrearmed, hready⟩

/-- A stage behind the work does not depend on what the operation found. -/
theorem behind {op : Op} {stage : Stage} (h : s.Inv p) (hlinked : t.Linked p) (hhandler : t.handler = s.handler)
    (hrearmed : s.handler = .rearmed → t.pending = true) (hh : t.holder = some (op, stage))
    (hbehind : stage.isBefore = false) : t.Inv p := by
  refine h.atStage hlinked hhandler hrearmed fun op' stage' hh' hbefore => ?_
  rw [hh] at hh'
  cases hh'
  rw [hbehind] at hbefore
  cases hbefore

/-- The work leaves a timer as it is, or it finds none and has it started. -/
theorem work (h : s.Inv p) {was : Bool} (hh : s.holder = some (op, .working was)) (hs : s.work p op = some t) :
    t.Inv p := by
  obtain ⟨d, r, hstep, ht⟩ := work_cases hs
  have hlinked := h.linked
  rw [Linked, hh] at hlinked
  rcases ht with ⟨rfl, rfl⟩ | ⟨hne, hoff, hd, rfl⟩ | ⟨hne, hkeep, rfl⟩
  · refine h.behind ?_ rfl h.rearmed rfl rfl
    rcases hlinked with ⟨-, -, b, hcallback, hb, halive⟩ | ⟨hdeinits, -⟩ | ⟨hne, -⟩
    · cases hstep
      exact ⟨b, hcallback, hb, halive⟩
    · cases hdeinits
    · exact absurd rfl hne
  · refine h.behind ?_ rfl h.rearmed rfl rfl
    rcases hlinked with ⟨hop, -⟩ | ⟨-, hb⟩ | ⟨-, -, -, b, hb⟩
    · exact absurd hop hne
    · exact ⟨hb.1, rfl, hb.2.2⟩
    · obtain rfl : b = false := hb.2.1.symm.trans hoff
      exact ⟨hb.1, rfl, hb.2.2⟩
  · refine h.behind ?_ rfl h.rearmed rfl rfl
    obtain ⟨inits, hflag, -⟩ := timer_after_work (h.ready op _ hh rfl).1 hstep
    rcases hlinked with ⟨hop, -⟩ | ⟨-, hb⟩ | ⟨-, hdeinits, -, b, hb⟩
    · exact absurd hop hne
    · refine ⟨false, hb.1, ?_, hb.2.2⟩
      exact eq_false_of_ne_true fun hd => Bool.false_ne_true (hb.2.1.symm.trans (hkeep hd))
    · refine ⟨b, hb.1, ?_, hb.2.2⟩
      cases b with
      | false => exact eq_false_of_ne_true fun hd => Bool.false_ne_true (hb.2.1.symm.trans (hkeep hd))
      | true =>
        show d.timerInitialized = true
        rw [hflag, hb.2.1, hdeinits, Bool.not_false, Bool.and_true, Bool.or_true]

theorem hold (h : s.Inv p) (hs : s.hold p = some t) : t.Inv p := by
  obtain ⟨⟨op, stage⟩, hh, hs⟩ := Option.bind_eq_some_iff.mp hs
  have hlinked := h.linked
  rw [Linked, hh] at hlinked
  have hready := h.ready op stage hh
  cases stage with
  | entered =>
    obtain ⟨b, hb⟩ := hlinked
    simp only at hs
    split at hs <;> cases hs
    · rename_i hstop
      simp only [Bool.and_eq_true, Bool.or_eq_true, beq_iff_eq] at hstop
      obtain rfl : b = true := hb.2.1.symm.trans hstop.2
      exact h.atStage ⟨hstop.1.symm, hb⟩ rfl h.rearmed fun _ _ hh' _ => by cases hh'; exact hready rfl
    · rename_i hkeep
      simp only [Bool.and_eq_true, Bool.or_eq_true, beq_iff_eq, not_and, Bool.not_eq_true] at hkeep
      refine h.atStage ?_ rfl h.rearmed fun _ _ hh' _ => by cases hh'; exact hready rfl
      by_cases hreset : op = .resetCap
      · obtain rfl : b = false := hb.2.1.symm.trans (hkeep (Or.inr hreset))
        exact Or.inl ⟨hreset, rfl, false, hb⟩
      · cases hdeinits : s.driver.deinitsTimer p op with
        | true =>
          obtain rfl : b = false := hb.2.1.symm.trans (hkeep (Or.inl hdeinits))
          exact Or.inr (Or.inl ⟨hdeinits, hb⟩)
        | false => exact Or.inr (Or.inr ⟨hreset, hdeinits, rfl, b, hb⟩)
  | deleting =>
    obtain ⟨hop, hcallback, hflag, -⟩ := hlinked
    simp only at hs
    split at hs <;> cases hs
    rename_i hidle
    have hdead : ∀ {u : Interleaving}, u.handler = s.handler → u.pending = false → (u.Alive ↔ false = true) := by
      intro u hhandler hpending
      simp [Alive, hhandler, hidle, hpending]
    refine h.atStage ?_ rfl (fun hrearmed => ?_) fun op' stage hh' hbefore => ?_
    · by_cases hreset : op = .resetCap
      · rw [Linked, if_pos hreset]
        exact Or.inl ⟨hreset, rfl, true, hcallback, hflag, hdead rfl rfl⟩
      · rw [Linked, if_neg hreset]
        exact ⟨hop.resolve_left hreset, hcallback, hflag, hdead rfl rfl⟩
    · rw [hidle] at hrearmed
      cases hrearmed
    · cases hh'
      exact hready rfl
  | deleted =>
    cases hs
    obtain ⟨hdeinits, -, hflag, hdead⟩ := hlinked
    exact h.atStage ⟨hdeinits, rfl, hflag, hdead⟩ rfl h.rearmed fun _ _ hh' _ => by cases hh'; exact hready rfl
  | uncalled =>
    cases hs
    obtain ⟨hdeinits, hcallback, -, hdead⟩ := hlinked
    obtain ⟨hmutex, hr⟩ := hready rfl
    refine h.atStage (Or.inr (Or.inl ⟨hdeinits, hcallback, rfl, hdead⟩)) rfl h.rearmed fun _ _ hh' _ => ?_
    cases hh'
    exact ⟨hmutex, hr⟩
  | working was => exact h.work hh hs
  | installing r =>
    cases hs
    exact h.behind ⟨rfl, hlinked.2⟩ rfl h.rearmed rfl rfl
  | adding r =>
    cases hs
    refine h.behind ⟨hlinked.1, hlinked.2.1, ?_⟩ rfl (fun _ => rfl) rfl rfl
    exact iff_of_true (Or.inl rfl) rfl
  | added r =>
    cases hs
    obtain ⟨hcallback, -, halive⟩ := hlinked
    exact h.behind ⟨true, hcallback, rfl, halive⟩ rfl h.rearmed rfl rfl
  | restarting r =>
    cases hs
    obtain ⟨b, hcallback, hflag, halive⟩ := hlinked
    refine h.behind ⟨b, hcallback, hflag, ?_⟩ rfl (fun hrearmed => ?_) rfl rfl
    · simp only [Alive, Bool.false_eq_true, iff_false, not_or] at halive
      simp [Alive, hflag, halive.1, halive.2]
    · simp [h.rearmed hrearmed]
  | leaving r =>
    cases hs
    exact h.atStage hlinked rfl h.rearmed fun _ _ hh' _ => by cases hh'

theorem step (h : s.Inv p) (hs : Interleaving.step p s e = some t) : t.Inv p := by
  cases e with
  | lock op =>
    simp only [Interleaving.step, Option.ite_none_right_eq_some, Option.some.injEq] at hs
    obtain ⟨⟨hnone, hmutex, hsome⟩, rfl⟩ := hs
    exact h.lock hnone hmutex hsome
  | hold => exact h.hold hs
  | handle fuel => exact h.handle hs
  | free op =>
    simp only [Interleaving.step, Option.ite_none_right_eq_some] at hs
    obtain ⟨hfree, hs⟩ := hs
    obtain ⟨⟨d, r⟩, hstep, rfl⟩ := Option.map_eq_some_iff.mp hs
    exact h.free hfree hstep

end Inv

theorem inv (h : (interleaving p).Reachable s) : s.Inv p :=
  h.invariant (fun _ => Inv.init) fun _ _ _ h hs => h.step hs

/-! ### The kernel's timer -/

/-- What the timer's users rely on: no tick overlaps the work of a registration, a STOP or a reset, `add_timer` and
    the `mod_timer` of a reset find the timer neither pending nor in its handler, every expiry calls back, and without
    a holder of the mutex the timer is alive exactly when `timer_initialized` says so. -/
structure Orderly (p : Platform) (s : Interleaving) : Prop where
  work : ∀ op was, s.holder = some (op, .working was) → op = .resetCap ∨ s.driver.deinitsTimer p op = true → ¬s.Alive
  start : ∀ op r, s.holder = some (op, .adding r) ∨ s.holder = some (op, .restarting r) → ¬s.Alive
  call : ∀ callback, s.handler = .loaded callback → callback = true
  flag : s.holder = none → s.timerCallback = s.driver.timerInitialized ∧ (s.Alive ↔ s.driver.timerInitialized = true)

theorem orderly (h : (interleaving p).Reachable s) : s.Orderly p := by
  have hinv := inv h
  have hlinked := hinv.linked
  have hgone : ∀ {callback flag}, s.TimerIs callback flag false → ¬s.Alive :=
    fun h halive => Bool.false_ne_true (h.2.2.mp halive)
  refine ⟨fun op was hh hop => ?_, fun op r hh => ?_, hinv.loaded, fun hh => ?_⟩
  · rw [Linked, hh] at hlinked
    rcases hlinked with ⟨-, -, b, hb⟩ | ⟨-, hb⟩ | ⟨hne, hdeinits, -⟩
    · exact hgone hb
    · exact hgone hb
    · rcases hop with hop | hop
      · exact absurd hop hne
      · rw [hdeinits] at hop
        cases hop
  · rcases hh with hh | hh <;> rw [Linked, hh] at hlinked
    · exact hgone hlinked
    · obtain ⟨b, hb⟩ := hlinked
      exact hgone hb
  · rw [Linked, hh] at hlinked
    obtain ⟨b, hcallback, hflag, halive⟩ := hlinked
    exact ⟨hcallback.trans hflag.symm, hflag ▸ halive⟩

/-! ### A run -/

/-- START registers the only core and starts the timer, which expires at once. STOP comes while the handler runs, and
    waits for its tick. -/
def stopDuringTick : List InterleavingEvent :=
  [.free (.openFile 0 true), .lock (.ioctl 0 (.startCapture 10 ⟨true, some 64⟩)), .hold, .hold, .hold, .hold, .handle 0,
    .hold, .hold, .free (.dspWrite 4096 (IdspPrintf.bytes ⟨1, 0, 9, 0, 0, 0, 0, 0⟩)), .handle 0,
    .lock (.ioctl 0 .stopCapture), .hold]

def emptyInterleaving : Interleaving := ⟨Driver.empty, false, false, .idle, none⟩

theorem emptyInterleaving_initial : emptyInterleaving.Initial := ⟨Driver.empty_initial, rfl, rfl, rfl, rfl⟩

theorem exec_stopDuringTick : ∃ s, (interleaving (Platform.tiny 1 (by decide))).exec emptyInterleaving stopDuringTick = some s ∧
    s.holder = some (.ioctl 0 .stopCapture, .deleting) ∧ s.handler = .loaded true :=
  ⟨_, rfl, by decide +kernel, by decide +kernel⟩

/-- The tick is done, the handler returns, and the STOP has deleted the timer. -/
def stopWorks : List InterleavingEvent := stopDuringTick ++ [.handle 4, .handle 0, .handle 0, .hold, .hold, .hold]

theorem reachable_of_holder (es : List InterleavingEvent) (holder' : Option (Op × Stage))
    (h : ((interleaving p).exec emptyInterleaving es).map holder = some holder') :
    ∃ s, s.holder = holder' ∧ (interleaving p).Reachable s := by
  obtain ⟨s, hexec, hholder⟩ := Option.map_eq_some_iff.mp h
  exact ⟨s, hholder, .exec (.init emptyInterleaving_initial) hexec⟩

/-- The run where START adds the timer, where STOP works without one, and at its end. -/
theorem orderly_stopWorks : ∃ s t u : Interleaving,
    s.holder = some (.ioctl 0 (.startCapture 10 ⟨true, some 64⟩), .adding .done) ∧ s.Orderly (Platform.tiny 1 (by decide)) ∧
    t.holder = some (.ioctl 0 .stopCapture, .working true) ∧ t.Orderly (Platform.tiny 1 (by decide)) ∧
    u.holder = none ∧ u.Orderly (Platform.tiny 1 (by decide)) := by
  obtain ⟨s, hadding, hs⟩ := reachable_of_holder (p := Platform.tiny 1 (by decide)) (stopDuringTick.take 5)
    (some (.ioctl 0 (.startCapture 10 ⟨true, some 64⟩), .adding .done)) (by decide +kernel)
  obtain ⟨t, hworking, ht⟩ := reachable_of_holder (p := Platform.tiny 1 (by decide)) stopWorks
    (some (.ioctl 0 .stopCapture, .working true)) (by decide +kernel)
  obtain ⟨u, hnone, hu⟩ := reachable_of_holder (p := Platform.tiny 1 (by decide)) (stopWorks ++ [.hold, .hold]) none
    (by decide +kernel)
  exact ⟨s, t, u, hadding, orderly hs, hworking, orderly ht, hnone, orderly hu⟩

end Interleaving
end Dsplog
