import Dsplog.Lifetime
import Dsplog.Theorems.Ownership

/-! What the module holds over its whole life. It holds just its registrations, the contexts of the open files and the
    instances with their rings, each once, and nothing when it is not loaded, as long as no list is walked before it is
    initialised, the last part of `amba_dsplog_init` does not fail on a device in use, and the IAV driver does not call
    a module that is gone. -/

namespace Dsplog
open Bytes Machines Ledger

/-! ### The registrations -/

namespace Thing

/-- The things that `amba_dsplog_create_dev` makes. -/
def isDevice : Thing → Bool
  | .chrdevRegion | .cdev | .class_ | .device => true
  | .context _ | .capInfo _ | .ringbuf _ => false

theorem isDevice_iff {x : Thing} : x.isDevice = true ↔ x = .chrdevRegion ∨ x = .cdev ∨ x = .class_ ∨ x = .device := by
  cases x <;> simp [isDevice]

end Thing

section Device
variable {S : Thing → Prop}

/-- A failure is unwound: what was made before it is given back. -/
theorem createDev_books (hnone : ∀ x, x.isDevice = true → ¬S x) (answers : Answers) :
    Books Thing.needs S (ambaDsplogCreateDev answers).1 fun x =>
      (ambaDsplogCreateDev answers).2 = true ∧ x.isDevice = true ∨ S x := by
  have hregion := hnone .chrdevRegion rfl
  have hcdev := hnone .cdev rfl
  have hclass := hnone .class_ rfl
  have hdevice := hnone .device rfl
  have fails {es : List (Entry Thing)} (h : Books Thing.needs S es S) (hes : ambaDsplogCreateDev answers = (es, false)) :
      Books Thing.needs S (ambaDsplogCreateDev answers).1 fun x =>
        (ambaDsplogCreateDev answers).2 = true ∧ x.isDevice = true ∨ S x := by
    rw [hes]
    exact h.congr fun x => by simp
  obtain ⟨region, cdev, class_, device⟩ := answers
  have hregion' : ∀ y, S y → Thing.chrdevRegion ∉ y.needs := by
    intro y hy
    cases y <;> simp_all [Thing.needs]
  have hcdev' : ∀ y, y = .chrdevRegion ∨ S y → Thing.cdev ∉ y.needs := by
    intro y hy
    cases y <;> simp_all [Thing.needs]
  have hclass' : ∀ y, y = .cdev ∨ y = .chrdevRegion ∨ S y → Thing.class_ ∉ y.needs := by
    intro y hy
    cases y <;> simp_all [Thing.needs]
  cases region with
  | false => exact fails (.nil fun _ => Iff.rfl) rfl
  | true =>
    have unwindRegion {es : List (Entry Thing)} (h : Books Thing.needs (fun y => y = .chrdevRegion ∨ S y) es fun y =>
        y = .chrdevRegion ∨ S y) : Books Thing.needs S (.take .chrdevRegion :: (es ++ [.give .chrdevRegion])) S :=
      .unwind hregion (by simp [Thing.needs]) (by simp [Thing.needs]) hregion' h
    cases cdev with
    | false => exact fails (unwindRegion (.nil fun _ => Iff.rfl)) rfl
    | true =>
      have unwindCdev {es : List (Entry Thing)} (h : Books Thing.needs (fun y => y = .cdev ∨ y = .chrdevRegion ∨ S y) es
          fun y => y = .cdev ∨ y = .chrdevRegion ∨ S y) :
          Books Thing.needs (fun y => y = .chrdevRegion ∨ S y) (.take .cdev :: (es ++ [.give .cdev])) fun y =>
            y = .chrdevRegion ∨ S y :=
        .unwind (by simp [hcdev]) (by simp [Thing.needs]) (by simp [Thing.needs]) hcdev' h
      cases class_ with
      | false => exact fails (unwindRegion (unwindCdev (.nil fun _ => Iff.rfl))) rfl
      | true =>
        cases device with
        | false =>
          refine fails (unwindRegion (unwindCdev (.unwind ?_ ?_ ?_ hclass' (.nil fun _ => Iff.rfl)))) rfl
          · simp [hclass]
          · simp [Thing.needs]
          · simp [Thing.needs]
        | true =>
          refine .take hregion (by simp [Thing.needs]) (.take (by simp [hcdev]) (by simp [Thing.needs])
            (.take (by simp [hclass]) (by simp [Thing.needs]) (.take (by simp [hdevice]) (by simp [Thing.needs])
              (.nil fun x => ?_))))
          simp only [ambaDsplogCreateDev, Thing.isDevice_iff]
          cases x <;> simp

theorem removeDev_books (hdevice : ∀ x, x.isDevice = true → S x) (hclosed : ∀ f, ¬S (.context f)) :
    Books Thing.needs S ambaDsplogRemoveDev fun x => x.isDevice = false ∧ S x := by
  refine .give (hdevice .device rfl) ?_ (.give ⟨by simp, hdevice .class_ rfl⟩ ?_
    (.give ⟨by simp, by simp, hdevice .cdev rfl⟩ ?_
      (.give ⟨by simp, by simp, by simp, hdevice .chrdevRegion rfl⟩ ?_ (.nil fun x => ?_))))
  · intro y hy
    cases y <;> simp [Thing.needs]
    exact hclosed _ hy
  · rintro y ⟨hne, -⟩
    cases y <;> simp_all [Thing.needs]
  · rintro y ⟨-, hne, hy⟩
    cases y <;> simp_all [Thing.needs]
  · rintro y ⟨hne, -⟩
    cases y <;> simp_all [Thing.needs]
  · cases x <;> simp [Thing.isDevice]

end Device

/-! ### The instances and the open files -/

/-- The blocks of an instance. -/
def Thing.isInstance : Thing → Bool
  | .capInfo _ | .ringbuf _ => true
  | .chrdevRegion | .cdev | .class_ | .device | .context _ => false

/-- All instances are unregistered, each with its ring. -/
theorem unregister_books {S : Thing → Prop} {i n : Nat} (hcap : ∀ k, S (.capInfo k) ↔ i ≤ k ∧ k < i + n)
    (hring : ∀ k, S (.ringbuf k) ↔ i ≤ k ∧ k < i + n) :
    Books Thing.needs S ((List.range' i n).flatMap Driver.unregisterEntries) fun x => x.isInstance = false ∧ S x := by
  induction n generalizing i S with
  | zero =>
    refine .nil fun x => ⟨fun hx => ⟨?_, hx⟩, And.right⟩
    cases x with
    | capInfo k =>
      have hk := (hcap k).mp hx
      omega
    | ringbuf k =>
      have hk := (hring k).mp hx
      omega
    | _ => rfl
  | succ n ih =>
    rw [List.range'_succ, List.flatMap_cons]
    refine .give ((hring i).mpr (by omega)) ?_ (.give ⟨by simp, (hcap i).mpr (by omega)⟩ ?_ ?_)
    · intro y hy
      cases y <;> simp [Thing.needs]
    · rintro y ⟨hne, -⟩
      cases y with
      | ringbuf k =>
        have hki : i ≠ k := fun hik => hne (hik ▸ rfl)
        simp [Thing.needs, hki]
      | _ => simp [Thing.needs]
    · have hrest : Books Thing.needs (fun y => y ≠ .capInfo i ∧ y ≠ .ringbuf i ∧ S y) _ _ := ih (i := i + 1) ?_ ?_
      · refine hrest.congr fun x => ?_
        cases x <;> simp [Thing.isInstance]
      · intro k
        rw [hcap]
        simp
        omega
      · intro k
        rw [hring]
        simp
        omega

namespace Driver
variable {p : Platform} {d d' : Driver} {f : File} {r : Reply} {op : Op} {up : Prop}

/-- What the driver holds, on a device that is up: its registrations, the contexts of its open files, and its instances
    with their rings. -/
def Holds (up : Prop) (d : Driver) : Thing → Prop
  | .chrdevRegion | .cdev | .class_ | .device => up
  | .context f => (d.files f).isSome = true
  | .capInfo k | .ringbuf k => k < d.queue.length

/-- What an operation takes and gives back, and what has become of the driver. -/
inductive Deals (p : Platform) (d d' : Driver) (op : Op) : Prop
  | nothing : d.entries p op = [] → (∀ f, (d'.files f).isSome = (d.files f).isSome) →
      d'.queue.length = d.queue.length → Deals p d d' op
  | noRing : d.walks p op = true → d.entries p op = [.take (.capInfo d.queue.length), .give (.capInfo d.queue.length)] →
      (∀ f, (d'.files f).isSome = (d.files f).isSome) → d'.queue.length = d.queue.length → Deals p d d' op
  | instance_ : d.walks p op = true →
      d.entries p op = [.take (.capInfo d.queue.length), .take (.ringbuf d.queue.length)] →
      (∀ f, (d'.files f).isSome = (d.files f).isSome) → d'.queue.length = d.queue.length + 1 → Deals p d d' op
  | opened {f : File} : op = .openFile f true → d.files f = none →
      (∀ g, (d'.files g).isSome = true ↔ g = f ∨ (d.files g).isSome = true) → d'.queue.length = d.queue.length →
      Deals p d d' op
  | closed {f : File} : op = .close f → (d.files f).isSome = true →
      (∀ g, (d'.files g).isSome = true ↔ g ≠ f ∧ (d.files g).isSome = true) → d'.queue.length = d.queue.length →
      Deals p d d' op

theorem setFile_opened {d₁ : Driver} {context : Option Context} (hfiles : d₁.files = d.files) (hopen : (d.files f).isSome = true)
    (hcontext : context.isSome = true) (g : File) : ((d₁.setFile f context).files g).isSome = (d.files g).isSome := by
  show (Function.update d₁.files f context g).isSome = (d.files g).isSome
  rw [hfiles, Function.update_apply]
  split
  · rename_i hg
    rw [hg, hopen, hcontext]
  · rfl

theorem register_deals (d : Driver) (p : Platform) (filp : File) (pid : Nat) (dspId : UInt32) (alloc : Alloc) :
    (d.dsplogRegisterLogCap p filp pid dspId alloc).1.files = d.files ∧
      (d.registerEntries p dspId alloc = [] ∧
          (d.dsplogRegisterLogCap p filp pid dspId alloc).1.queue.length = d.queue.length ∨
        dspId.toNat < p.ucodeCoreNum ∧
          (d.registerEntries p dspId alloc = [.take (.capInfo d.queue.length), .give (.capInfo d.queue.length)] ∧
            (d.dsplogRegisterLogCap p filp pid dspId alloc).1.queue.length = d.queue.length ∨
          d.registerEntries p dspId alloc = [.take (.capInfo d.queue.length), .take (.ringbuf d.queue.length)] ∧
            (d.dsplogRegisterLogCap p filp pid dspId alloc).1.queue.length = d.queue.length + 1)) := by
  unfold registerEntries dsplogRegisterLogCap
  split
  · exact ⟨rfl, Or.inl ⟨rfl, rfl⟩⟩
  · rename_i hlt
    have hlt := Nat.lt_of_not_le hlt
    cases hfind : d.dspPrintkDeinitTimer.queue.findIdx? (·.dspId == dspId) with
    | none =>
      have hfind' : d.queue.findIdx? (·.dspId == dspId) = none := hfind
      simp only [hfind, hfind']
      obtain ⟨inst, ring⟩ := alloc
      cases inst with
      | false => exact ⟨rfl, Or.inl ⟨rfl, rfl⟩⟩
      | true =>
        cases ring with
        | none => exact ⟨rfl, Or.inr ⟨hlt, Or.inl ⟨rfl, rfl⟩⟩⟩
        | some ring => exact ⟨rfl, Or.inr ⟨hlt, Or.inr ⟨rfl, List.length_append⟩⟩⟩
    | some k =>
      have hfind' : d.queue.findIdx? (·.dspId == dspId) = some k := hfind
      simp only [hfind, hfind']
      split
      · exact ⟨rfl, Or.inl ⟨trivial, rfl⟩⟩
      · split
        · exact ⟨rfl, Or.inl ⟨trivial, rfl⟩⟩
        · exact ⟨rfl, Or.inl ⟨trivial, List.length_set⟩⟩

theorem ioctl_deals {context : Context} {cmd : Ioctl} (hf : d.files f = some context)
    (h : d.ambaDsplogIoctl p f context cmd = (d', r)) : Deals p d d' (.ioctl f cmd) := by
  have hopen : (d.files f).isSome = true := by rw [hf]; rfl
  cases cmd with
  | startCapture pid alloc =>
    rcases d.start_cases p f pid alloc context.dsplogPrivData with ⟨k, hpriv, hs⟩ | ⟨hpriv, hcores, hs⟩ |
      ⟨hpriv, hone, d₁, hreg⟩
    · simp only [ambaDsplogIoctl, hs] at h
      cases h
      refine .nothing ?_ (setFile_opened (d.startInstance_records p k).2 hopen rfl) ?_
      · simp [entries, hf, hpriv]
      · show (d.startInstance p k).queue.length = d.queue.length
        rw [startInstance_queue, List.length_modify]
    · simp only [ambaDsplogIoctl, hs] at h
      cases h
      refine .nothing ?_ (setFile_opened rfl hopen rfl) rfl
      simp [entries, hcores]
    · -- the one core's instance is registered first
      have hentries : d.entries p (.ioctl f (.startCapture pid alloc)) = d.registerEntries p 0 alloc := by
        simp [entries, hf, hpriv, hone]
      have hwalks : d.walks p (.ioctl f (.startCapture pid alloc)) = true := by simp [walks, hf, hone]
      obtain ⟨hfiles, hdeals⟩ := d.register_deals p f pid 0 alloc
      obtain ⟨hd₁, hfiles', hlength⟩ : (d.dsplogRegisterLogCap p f pid 0 alloc).1 = d₁ ∧
          (∀ g, (d'.files g).isSome = (d.files g).isSome) ∧ d'.queue.length = d₁.queue.length := by
        rcases hreg with ⟨hreg, hs⟩ | ⟨k, hreg, hs⟩ <;> rw [hreg] at hfiles <;> simp only [ambaDsplogIoctl, hs] at h <;> cases h
        · exact ⟨by rw [hreg], setFile_opened hfiles hopen rfl, rfl⟩
        · refine ⟨by rw [hreg], setFile_opened ((d₁.startInstance_records p k).2.trans hfiles) hopen rfl, ?_⟩
          show (d₁.startInstance p k).queue.length = d₁.queue.length
          rw [startInstance_queue, List.length_modify]
      rw [hd₁, ← hlength] at hdeals
      rcases hdeals with ⟨hnone, hlen⟩ | ⟨-, ⟨hgiven, hlen⟩ | ⟨hmade, hlen⟩⟩
      · exact .nothing (hentries.trans hnone) hfiles' hlen
      · exact .noRing hwalks (hentries.trans hgiven) hfiles' hlen
      · exact .instance_ hwalks (hentries.trans hmade) hfiles' hlen
  | stopCapture =>
    cases hpriv : context.dsplogPrivData <;> simp only [ambaDsplogIoctl, hpriv] at h <;> cases h
    · exact .nothing rfl (fun _ => rfl) rfl
    · exact .nothing rfl (fun _ => rfl) (List.length_modify ..)
  | setDspCore pid arg alloc =>
    cases arg with
    | none =>
      cases h
      exact .nothing rfl (fun _ => rfl) rfl
    | some dspId =>
      obtain ⟨hfiles, hdeals⟩ := d.register_deals p f pid dspId alloc
      obtain ⟨hfiles', hlength⟩ : (∀ g, (d'.files g).isSome = (d.files g).isSome) ∧
          d'.queue.length = (d.dsplogRegisterLogCap p f pid dspId alloc).1.queue.length := by
        rcases hreg : d.dsplogRegisterLogCap p f pid dspId alloc with ⟨d₁, _ | k⟩ <;> rw [hreg] at hfiles <;>
          simp only [ambaDsplogIoctl, dsplogSetDspCoreId, hreg] at h <;> cases h
        · exact ⟨fun g => by rw [hfiles], rfl⟩
        · exact ⟨setFile_opened hfiles hopen rfl, rfl⟩
      rw [← hlength] at hdeals
      rcases hdeals with ⟨hnone, hlen⟩ | ⟨hid, ⟨hgiven, hlen⟩ | ⟨hmade, hlen⟩⟩
      · exact .nothing hnone hfiles' hlen
      · exact .noRing (decide_eq_true hid) hgiven hfiles' hlen
      · exact .instance_ (decide_eq_true hid) hmade hfiles' hlen
  | getMemoryInfo copyOk =>
    cases hinfo : d.dsplogGetMemoryInfo context.dsplogPrivData <;> simp only [ambaDsplogIoctl, hinfo] at h <;> cases h <;>
      exact .nothing rfl (fun _ => rfl) rfl
  | dumpMemorySnapshot arg =>
    cases h
    exact .nothing rfl (setFile_opened rfl hopen rfl) rfl
  | setLogLevel | getLogLevel copyOk | parseLog | other =>
    cases h
    exact .nothing rfl (fun _ => rfl) rfl

theorem step_deals (h : d.step p op = some (d', r)) : Deals p d d' op := by
  have framed (hop : op.Frames) : d'.queue.length = d.queue.length := by
    simpa only [List.length_map] using congrArg List.length (step_frame h hop).2
  cases op with
  | openFile f allocOk =>
    simp only [step] at h
    split at h
    · cases h
    · rename_i hclosed
      split at h <;> rename_i hok <;> cases h
      · refine .opened (f := f) (by rw [hok]) (by simpa using hclosed) (fun g => ?_) rfl
        by_cases hg : g = f <;> simp [setFile, hg]
      · refine .nothing ?_ (fun _ => rfl) rfl
        simp [entries, hok]
  | ioctl f cmd =>
    obtain ⟨context, hf, hd⟩ := Option.map_eq_some_iff.mp h
    exact ioctl_deals hf hd
  | read f maxSize copyOk copy =>
    obtain ⟨context, hf, hd⟩ := Option.bind_eq_some_iff.mp h
    refine .nothing rfl ?_ (framed trivial)
    rcases read_cases hd with ⟨-, rfl⟩ | ⟨k, c, dump, -, -, hfiles, -⟩
    · exact fun _ => rfl
    · intro g
      rw [hfiles]
      exact setFile_opened rfl (by rw [hf]; rfl) rfl g
  | wake i interrupted =>
    refine .nothing rfl (fun g => ?_) (framed trivial)
    obtain ⟨d₁, hwake, hd⟩ := Option.map_eq_some_iff.mp h
    cases hd
    obtain ⟨rd, c, -, -, -, ⟨-, rfl⟩ | ⟨-, rfl⟩⟩ := wakeReader_cases hwake <;> rfl
  | resumeRead i copy =>
    refine .nothing rfl (fun g => ?_) (framed trivial)
    obtain ⟨rd, c, -, -, rfl, -⟩ := resumeReader_cases h
    rfl
  | close f =>
    simp only [step] at h
    split at h
    · rename_i hclose
      cases h
      refine .closed (f := f) rfl hclose.1 (fun g => ?_) (List.length_map ..)
      by_cases hg : g = f <;> simp [setFile, dsplogResetLogCapState, hg]
    · cases h
  | dspWrite a bs =>
    cases h
    exact .nothing rfl (fun _ => rfl) rfl
  | tick fuel =>
    refine .nothing rfl (fun g => ?_) (framed trivial)
    simp only [step] at h
    split at h
    · obtain ⟨services, -, hd⟩ := Option.map_eq_some_iff.mp h
      cases hd
      rfl
    · cases h
  | suspend | resume | resetCap =>
    cases h
    exact .nothing rfl (fun _ => rfl) (List.length_map ..)

theorem holds_congr (hfiles : ∀ f, (d'.files f).isSome = (d.files f).isSome) (hlen : d'.queue.length = d.queue.length)
    (x : Thing) : d.Holds up x ↔ d'.Holds up x := by
  cases x with
  | context f => simp only [Holds, hfiles]
  | capInfo k | ringbuf k => simp only [Holds, hlen]
  | _ => exact Iff.rfl

/-- An operation on a device that is up keeps its books. -/
theorem deals_books (h : Deals p d d' op) (hup : op.isOpen = true → up) :
    Books Thing.needs (d.Holds up) (d.entries p op) (d'.Holds up) := by
  cases h with
  | nothing hes hfiles hlen =>
    rw [hes]
    exact .nil (holds_congr hfiles hlen)
  | noRing hwalks hes hfiles hlen =>
    rw [hes]
    have hundone : Books Thing.needs (d.Holds up)
        (.take (.capInfo d.queue.length) :: ([] ++ [.give (.capInfo d.queue.length)])) (d.Holds up) := by
      refine .unwind (Nat.lt_irrefl _) (by simp [Thing.needs]) (by simp [Thing.needs]) (fun y hy => ?_)
        (.nil fun _ => Iff.rfl)
      cases y with
      | ringbuf k =>
        have hne : d.queue.length ≠ k := Nat.ne_of_gt hy
        simp [Thing.needs, hne]
      | _ => simp [Thing.needs]
    exact hundone.congr (holds_congr hfiles hlen)
  | instance_ hwalks hes hfiles hlen =>
    rw [hes]
    refine .take (Nat.lt_irrefl _) (by simp [Thing.needs]) (.take ?_ (by simp [Thing.needs]) (.nil fun x => ?_))
    · simp [Holds]
    · cases x <;> simp [Holds, hfiles, hlen] <;> omega
  | opened hop hclosed hfiles hlen =>
    subst hop
    refine .take (by simp [Holds, hclosed]) ?_ (.nil fun x => ?_)
    · simpa [Thing.needs, Holds] using hup rfl
    · cases x <;> simp [Holds, hfiles, hlen]
  | closed hop hopen hfiles hlen =>
    subst hop
    refine .give hopen ?_ (.nil fun x => ?_)
    · intro y hy
      cases y <;> simp [Thing.needs]
    · cases x <;> simp [Holds, hfiles, hlen]

/-! ### The driver of a loaded module -/

theorem unloaded_initial (m : Mem) : Initial (unloaded m) := ⟨rfl, rfl, fun _ => rfl, rfl⟩

/-- Before a file is opened, only the DSP writes its memory. -/
theorem unloaded_step {m : Mem} (h : (unloaded m).step p op = some (d', r)) (hopen : op.isOpen = false)
    (hiav : op.isOfIav = false) : d' = unloaded d'.mem := by
  cases op with
  | dspWrite a bs =>
    cases h
    rfl
  | openFile => cases hopen
  | suspend | resume | resetCap => cases hiav
  | ioctl | read | wake | resumeRead | close | tick => cases h

/-- What `dsplog_init` does to the memory is what the DSP could write there. -/
theorem clear_reachable (h : (driver p).Reachable d) (a n : Nat) : (driver p).Reachable { d with mem := d.mem.clear a n } := by
  have hstep : d.step p (.dspWrite a (List.replicate n 0)) = some ({ d with mem := d.mem.write a (List.replicate n 0) }, .done) :=
    rfl
  rw [d.mem.clear_eq_write]
  exact reachable_step h hstep

end Driver

namespace Lifetime
variable {p : Platform} {s t : Lifetime} {e : LifetimeEvent} {es : List (Entry Thing)} {events : List LifetimeEvent}

theorem booking_cases (s : Lifetime) (es : List (Entry Thing)) (t : Lifetime) :
    (∃ held, s.booking es t = { t with held := held }) ∨ s.booking es t = { s with crashed := true } := by
  unfold booking
  cases book Thing.needs s.held es with
  | none => exact Or.inr rfl
  | some held => exact Or.inl ⟨held, rfl⟩

/-- How the driver goes with the module: a module that is not loaded has no driver, a device that has just been made has
    no instance, and the driver of a module with a device is in one of its states. -/
structure Linked (p : Platform) (s : Lifetime) : Prop where
  absent : s.phase = .absent → s.driver = .unloaded s.driver.mem
  created : s.phase = .created → s.driver.queue = []
  driver : s.phase ≠ .absent → (Dsplog.driver p).Reachable s.driver

namespace Linked

theorem of_eq (h : Linked p s) (hphase : t.phase = s.phase) (hdriver : t.driver = s.driver) : Linked p t :=
  ⟨by rw [hphase, hdriver]; exact h.absent, by rw [hphase, hdriver]; exact h.created, by rw [hphase, hdriver]; exact h.driver⟩

theorem gone (s : Lifetime) : Linked p s.gone := ⟨fun _ => rfl, nofun, fun h => absurd rfl h⟩

theorem booking (h : Linked p s) (ht : Linked p t) (es : List (Entry Thing)) : Linked p (s.booking es t) := by
  rcases s.booking_cases es t with ⟨held, heq⟩ | heq <;> rw [heq]
  · exact ht.of_eq rfl rfl
  · exact h.of_eq rfl rfl

theorem init (h : Initial s) : Linked p s where
  absent _ := h.driver
  created hcreated := by
    rw [h.phase] at hcreated
    cases hcreated
  driver hphase := absurd h.phase hphase

theorem initLog (h : Linked p s) (hcreated : s.phase = .created) (m : Mem)
    (hm : (Dsplog.driver p).Reachable { s.driver with mem := m }) :
    Linked p { s with phase := .listed, driver := { s.driver with queue := [], mem := m } } where
  absent := nofun
  created := nofun
  driver _ := by rwa [← h.created hcreated]

theorem op {o : Op} {d : Driver} {r : Reply} (h : Linked p s) (hopen : o.isOpen = true → s.phase ≠ .absent)
    (hiav : o.isOfIav = true → s.phase = .live) (hwalks : s.driver.walks p o = true → s.phase ≠ .created)
    (hstep : s.driver.step p o = some (d, r)) : Linked p { s with driver := d } where
  absent habsent := by
    rw [h.absent habsent] at hstep
    refine Driver.unloaded_step hstep ?_ ?_
    · exact Bool.eq_false_iff.mpr fun hop => hopen hop habsent
    · refine Bool.eq_false_iff.mpr fun hop => ?_
      rw [hiav hop] at habsent
      cases habsent
  created hcreated := by
    have same (hlen : d.queue.length = s.driver.queue.length) : d.queue = [] := by
      rwa [h.created hcreated, List.length_nil, List.length_eq_zero_iff] at hlen
    cases Driver.step_deals hstep with
    | nothing _ _ hlen | noRing _ _ _ hlen | opened _ _ _ hlen | closed _ _ _ hlen => exact same hlen
    | instance_ hwalk => exact absurd hcreated (hwalks hwalk)
  driver hphase := Driver.reachable_step (h.driver hphase) hstep

theorem step (h : Linked p s) (hs : s.step p e = some t) : Linked p t := by
  simp only [Lifetime.step] at hs
  split at hs
  · cases hs
  · cases e with
    | createDev answers =>
      simp only at hs
      split at hs
      · rename_i habsent
        cases hs
        refine h.booking ?_ _
        split
        · exact ⟨nofun, fun _ => rfl, fun _ => .init (Driver.unloaded_initial _)⟩
        · exact h
      · cases hs
    | initLog cleanDsplogMemory =>
      simp only at hs
      split at hs
      · rename_i hcreated
        have hdriver : (Dsplog.driver p).Reachable s.driver := h.driver (by rw [hcreated]; decide)
        split at hs <;> cases hs
        · exact h.of_eq rfl rfl
        · refine h.initLog hcreated _ ?_
          split
          · exact Driver.clear_reachable hdriver _ _
          · exact hdriver
      · cases hs
    | registerOps ok =>
      simp only at hs
      split at hs
      · rename_i hlisted
        split at hs <;> cases hs
        · refine ⟨nofun, nofun, fun _ => h.driver ?_⟩
          rw [hlisted]
          decide
        · exact h.booking (gone s) _
      · cases hs
    | exit =>
      simp only at hs
      split at hs <;> cases hs
      exact h.booking (gone s) _
    | op o =>
      simp only at hs
      split at hs
      · cases hs
      · rename_i henabled
        obtain ⟨-, hopen⟩ := not_or.mp henabled
        split at hs
        · cases hs
          exact h.of_eq rfl rfl
        · rename_i hiav
          obtain ⟨⟨d, r⟩, hstep, rfl⟩ := Option.map_eq_some_iff.mp hs
          simp only
          split
          · exact h.of_eq rfl rfl
          · rename_i hwalks
            refine h.booking (h.op (fun hop habsent => hopen ⟨hop, habsent⟩) (fun hop => ?_) (fun hwalk hcreated => ?_) hstep) _
            · by_contra hne
              exact hiav ⟨hop, hne⟩
            · exact hwalks ⟨hwalk, hcreated⟩

end Linked

/-- Whatever loads, failing loads, unloads and operations there were, the driver of a module with a device is in a state
    that it reaches by its operations from the state after `dsplog_init`. -/
theorem driver_reachable (h : (lifetime p).Reachable s) (hphase : s.phase ≠ .absent) : (Dsplog.driver p).Reachable s.driver :=
  (h.invariant (fun _ => Linked.init) fun _ _ _ => Linked.step).driver hphase

def beforeLoad : Lifetime := ⟨.absent, false, .unloaded fun _ => 0, [], false⟩

theorem beforeLoad_initial : Initial beforeLoad := ⟨rfl, rfl, rfl, rfl, rfl⟩

/-- A load that fails at `class_create`, and one that does not; a file is opened before `dsplog_init`, captures, and is
    still open over a suspend. -/
def openedEarly : List LifetimeEvent :=
  [.createDev ⟨true, true, false, true⟩, .createDev ⟨true, true, true, true⟩, .op (.openFile 0 true), .initLog true,
    .registerOps true, .op (.ioctl 0 (.startCapture 7 ⟨true, some 64⟩)), .op .suspend, .op .resume]

theorem exec_openedEarly : ∃ s, (lifetime (Platform.tiny 1 Nat.one_pos)).exec beforeLoad openedEarly = some s ∧
    s.phase = .live ∧ s.driver.queue.length = 1 ∧ s.held.length = 7 := ⟨_, rfl, by decide +kernel, by decide +kernel, by decide +kernel⟩

theorem driver_reachable_openedEarly : ∃ s, (lifetime (Platform.tiny 1 Nat.one_pos)).exec beforeLoad openedEarly = some s ∧
    s.driver.queue.length = 1 ∧ (Dsplog.driver (Platform.tiny 1 Nat.one_pos)).Reachable s.driver := by
  obtain ⟨s, hs, hlive, hone, -⟩ := exec_openedEarly
  exact ⟨s, hs, hone, driver_reachable (Machine.Reachable.exec (.init beforeLoad_initial) hs) (by rw [hlive]; decide)⟩

/-! ### The books of the module -/

/-- There has been no fault, and the module holds just what its driver needs, each thing once; when it is not loaded, that
    is nothing. -/
structure Accounted (s : Lifetime) : Prop where
  sound : s.crashed = false
  held : Exactly s.held (s.driver.Holds (s.phase ≠ .absent))

/-- What the platform and the IAV driver owe the module: `dsplog_init` is not to clear a log region at the null pointer,
    the last part of `amba_dsplog_init` fails only before a file is opened and an instance made, the IAV driver calls a
    module that is loaded, and no list is walked before `dsplog_init`. -/
def Careful (p : Platform) (s : Lifetime) : LifetimeEvent → Prop
  | .createDev _ | .exit | .registerOps true => True
  | .initLog cleanDsplogMemory => cleanDsplogMemory = true → p.logBase ≠ 0
  | .registerOps false => s.driver.queue = [] ∧ ∀ x ∈ s.held, x.isContext = false
  | .op o => (o.isOfIav = true → s.phase = .live) ∧ (s.driver.walks p o = true → s.phase ≠ .created)

instance (p : Platform) (s : Lifetime) : (e : LifetimeEvent) → Decidable (Careful p s e)
  | .createDev _ | .exit | .registerOps true => inferInstanceAs (Decidable True)
  | .initLog cleanDsplogMemory => inferInstanceAs (Decidable (cleanDsplogMemory = true → p.logBase ≠ 0))
  | .registerOps false => inferInstanceAs (Decidable (s.driver.queue = [] ∧ ∀ x ∈ s.held, x.isContext = false))
  | .op o => inferInstanceAs (Decidable ((o.isOfIav = true → s.phase = .live) ∧
      (s.driver.walks p o = true → s.phase ≠ .created)))

namespace Accounted

theorem init (h : Initial s) : Accounted s := by
  refine ⟨h.crashed, ?_⟩
  rw [h.held, h.driver, h.phase]
  refine .nil fun x => ?_
  cases x <;> simp [Driver.Holds, Driver.unloaded]

theorem booking (h : Accounted s) (ht : t.crashed = false)
    (hb : Books Thing.needs (s.driver.Holds (s.phase ≠ .absent)) es (t.driver.Holds (t.phase ≠ .absent))) :
    Accounted (s.booking es t) := by
  obtain ⟨held, hbook, hheld⟩ := hb _ h.held
  simp only [Lifetime.booking, hbook]
  exact ⟨ht, hheld⟩

theorem no_context (h : Accounted s) (hclosed : ∀ x ∈ s.held, x.isContext = false) (f : File) :
    ¬s.driver.Holds (s.phase ≠ .absent) (.context f) := by
  intro hf
  have hcontext := hclosed _ ((h.held.mem _).mpr hf)
  cases hcontext

theorem createDev (h : Accounted s) (hl : Linked p s) (habsent : s.phase = .absent) (answers : Answers) :
    Accounted (s.booking (ambaDsplogCreateDev answers).1
      (if (ambaDsplogCreateDev answers).2 then { s.gone with phase := .created } else s)) := by
  have hnone : ∀ x, x.isDevice = true → ¬s.driver.Holds (s.phase ≠ .absent) x := by
    intro x hx
    cases x <;> simp_all [Thing.isDevice, Driver.Holds]
  refine h.booking ?_ ((createDev_books hnone answers).congr fun x => ?_)
  · split <;> exact h.sound
  · cases (ambaDsplogCreateDev answers).2 with
    | false => simp
    | true =>
      rw [hl.absent habsent]
      cases x <;> simp [Thing.isDevice, Driver.Holds, Driver.unloaded, gone]

/-- When no instance is left and no file is open, the registrations are all that is held. -/
theorem removeDev_gone {S : Thing → Prop} (hdevice : ∀ x, x.isDevice = true → S x) (hclosed : ∀ f, ¬S (.context f))
    (hcap : ∀ x, x.isInstance = true → ¬S x) :
    Books Thing.needs S ambaDsplogRemoveDev (s.gone.driver.Holds (s.gone.phase ≠ .absent)) := by
  refine (removeDev_books hdevice hclosed).congr fun x => ?_
  cases x with
  | context f => simpa [Thing.isDevice, Driver.Holds, gone, Driver.unloaded] using hclosed f
  | capInfo k => simpa [Thing.isDevice, Driver.Holds, gone, Driver.unloaded] using hcap _ rfl
  | ringbuf k => simpa [Thing.isDevice, Driver.Holds, gone, Driver.unloaded] using hcap _ rfl
  | _ => simp [Thing.isDevice, Driver.Holds, gone]

theorem holds_device (hphase : s.phase ≠ .absent) (x : Thing) (hx : x.isDevice = true) :
    s.driver.Holds (s.phase ≠ .absent) x := by
  cases x <;> first | exact hphase | cases hx

theorem remove (h : Accounted s) (hphase : s.phase ≠ .absent) (hqueue : s.driver.queue = [])
    (hclosed : ∀ x ∈ s.held, x.isContext = false) : Accounted (s.booking ambaDsplogRemoveDev s.gone) := by
  refine h.booking h.sound (removeDev_gone (holds_device hphase) (h.no_context hclosed) fun x hx => ?_)
  cases x <;> simp_all [Thing.isInstance, Driver.Holds]

theorem exit (h : Accounted s) (hphase : s.phase ≠ .absent) (hclosed : ∀ x ∈ s.held, x.isContext = false) :
    Accounted (s.booking (s.driver.deinitEntries ++ ambaDsplogRemoveDev) s.gone) := by
  have hdeinit : Books Thing.needs (s.driver.Holds (s.phase ≠ .absent)) s.driver.deinitEntries fun x =>
      x.isInstance = false ∧ s.driver.Holds (s.phase ≠ .absent) x := by
    rw [Driver.deinitEntries, List.range_eq_range']
    refine unregister_books (fun k => ?_) fun k => ?_ <;> simp [Driver.Holds]
  refine h.booking h.sound (hdeinit.append (removeDev_gone ?_ ?_ ?_))
  · intro x hx
    refine ⟨?_, holds_device hphase x hx⟩
    cases x <;> first | rfl | cases hx
  · exact fun f hf => h.no_context hclosed f hf.2
  · rintro x hx ⟨hno, -⟩
    rw [hx] at hno
    cases hno

theorem step (h : Accounted s) (hl : Linked p s) (hG : Careful p s e) (hs : s.step p e = some t) : Accounted t := by
  unfold Lifetime.step at hs
  rw [if_neg (Bool.eq_false_iff.mp h.sound)] at hs
  cases e with
  | createDev answers =>
    simp only at hs
    split at hs
    · rename_i habsent
      cases hs
      exact h.createDev hl habsent answers
    · cases hs
  | initLog cleanDsplogMemory =>
    simp only at hs
    split at hs
    · rename_i hcreated
      split at hs <;> cases hs
      · rename_i hnull
        exact absurd hnull.2 (hG hnull.1)
      · refine ⟨h.sound, h.held.congr fun x => ?_⟩
        cases x <;> simp [Driver.Holds, hcreated, hl.created hcreated]
    · cases hs
  | registerOps ok =>
    simp only at hs
    split at hs
    · rename_i hlisted
      cases ok with
      | true =>
        cases hs
        refine ⟨h.sound, h.held.congr fun x => ?_⟩
        cases x <;> simp [Driver.Holds, hlisted]
      | false =>
        cases hs
        exact h.remove (by rw [hlisted]; decide) hG.1 hG.2
    · cases hs
  | exit =>
    simp only at hs
    split at hs <;> cases hs
    rename_i hexit
    exact h.exit (by rw [hexit.1]; decide) hexit.2
  | op o =>
    simp only at hs
    split at hs
    · cases hs
    · rename_i henabled
      obtain ⟨-, hopen⟩ := not_or.mp henabled
      split at hs
      · rename_i hiav
        exact absurd (hG.1 hiav.1) hiav.2
      · obtain ⟨⟨d, r⟩, hstep, rfl⟩ := Option.map_eq_some_iff.mp hs
        simp only
        split
        · rename_i hwalks
          exact absurd hwalks.2 (hG.2 hwalks.1)
        · refine h.booking h.sound (Driver.deals_books (Driver.step_deals hstep) fun hop habsent => ?_)
          exact hopen ⟨hop, habsent⟩

end Accounted

/-- A step without care is a fault, or leaves an instance behind. -/
theorem breaks (h : Accounted s) (hG : ¬Careful p s e) (hs : s.step p e = some t) : ¬Accounted t := by
  have crashes {u : Lifetime} (hu : u.crashed = true) : ¬Accounted u := by
    intro hacc
    rw [hacc.sound] at hu
    cases hu
  unfold Lifetime.step at hs
  rw [if_neg (Bool.eq_false_iff.mp h.sound)] at hs
  cases e with
  | createDev answers => exact absurd trivial hG
  | exit => exact absurd trivial hG
  | initLog cleanDsplogMemory =>
    obtain ⟨hclean, hnull⟩ : cleanDsplogMemory = true ∧ p.logBase = 0 := by simpa [Careful] using hG
    simp only [hclean, hnull, and_self, if_true] at hs
    split at hs <;> cases hs
    exact crashes rfl
  | registerOps ok =>
    cases ok with
    | true => exact absurd trivial hG
    | false =>
      simp only at hs
      split at hs <;> cases hs
      rename_i hlisted
      by_cases hclosed : ∀ x ∈ s.held, x.isContext = false
      · -- an instance stays, and nothing names it any more
        have hqueue : s.driver.queue ≠ [] := fun hqueue => hG ⟨hqueue, hclosed⟩
        have hcap : Thing.capInfo 0 ∈ s.held := (h.held.mem _).mpr (List.length_pos_iff.mpr hqueue)
        unfold booking
        split
        · rename_i held hbook
          intro hacc
          have hlost := (hacc.held.mem _).mp (mem_of_book hbook hcap (by decide))
          exact absurd hlost (Nat.lt_irrefl 0)
        · exact crashes rfl
      · -- a file is open on the device
        obtain ⟨x, hx, hcontext⟩ : ∃ x ∈ s.held, x.isContext = true := by simpa using hclosed
        have hgive : enter Thing.needs s.held (.give .device) = none := by
          refine give_needed hx ?_
          cases x <;> first | exact List.mem_singleton_self _ | cases hcontext
        simp only [booking, ambaDsplogRemoveDev, book, hgive, Option.bind_none]
        exact crashes rfl
  | op o =>
    simp only at hs
    split at hs
    · cases hs
    · split at hs
      · cases hs
        exact crashes rfl
      · rename_i hiav
        obtain ⟨⟨d, r⟩, hstep, rfl⟩ := Option.map_eq_some_iff.mp hs
        have hwalks : s.driver.walks p o = true ∧ s.phase = .created := by
          by_contra hne
          refine hG ⟨fun hop => ?_, fun hwalk hcreated => hne ⟨hwalk, hcreated⟩⟩
          by_contra hphase
          exact hiav ⟨hop, hphase⟩
        simp only [hwalks, and_self, if_true]
        exact crashes rfl

/-- Over any run of the module, with loads that fail at any of their calls, operations on the device as soon as it is
    there, and unloads, the books are right in every state exactly when every step is careful. -/
theorem accounted_iff (hinit : Initial s) (he : (lifetime p).exec s events = some t) :
    (∀ x ∈ (lifetime p).visited s events, Accounted x) ↔ ∀ x ∈ (lifetime p).trace s events, Careful p x.1 x.2 := by
  refine Machine.forall_iff_guarded (I := fun s => Accounted s ∧ Linked p s) (fun s e t hI hG hs => ?_)
    (fun s hI => hI.1) (fun s e t hI hG hs => breaks hI.1 hG hs) ⟨.init hinit, .init hinit⟩ he
  exact ⟨hI.1.step hI.2 hG hs, hI.2.step hs⟩

/-- The capture ends with its file, and the module is unloaded and loaded again. -/
def loadedAgain : List LifetimeEvent :=
  openedEarly ++ [.op (.close 0), .exit, .createDev ⟨true, true, true, true⟩, .initLog false, .registerOps false]

theorem exec_loadedAgain : ∃ s, (lifetime (Platform.tiny 1 Nat.one_pos)).exec beforeLoad loadedAgain = some s ∧
    s.phase = .absent ∧ s.held = [] := ⟨_, rfl, by decide +kernel, by decide +kernel⟩

theorem accounted_iff_loadedAgain :
    ∃ s, (lifetime (Platform.tiny 1 Nat.one_pos)).exec beforeLoad loadedAgain = some s ∧ s.held = [] ∧
      ∀ x ∈ (lifetime (Platform.tiny 1 Nat.one_pos)).visited beforeLoad loadedAgain, Accounted x := by
  obtain ⟨s, hs, -, hheld⟩ := exec_loadedAgain
  exact ⟨s, hs, hheld, (accounted_iff beforeLoad_initial hs).mpr (by decide +kernel)⟩

end Lifetime
end Dsplog
