import Dsplog.Theorems.Control

/-! Who owns a core. An instance records its owner in `active` and `filp`, and the context of a file records
    its instance in `dsplog_priv_data`. What an instance records is right in every reachable state; STOP and a
    further SET_DSP_CORE change one of the two records and not the other. -/

namespace Dsplog
open Bytes Machines

namespace CapInfo
variable {c : CapInfo} {f : File}

/-- What an instance records about its owner. -/
def holder (c : CapInfo) : Bool × Option File := (c.active, c.filp)

theorem holder_release : (c.release f).holder = if c.filp = some f ∧ c.active = true then (false, none) else c.holder := by
  unfold release
  split <;> rfl

end CapInfo

namespace Driver
variable {p : Platform} {d d' : Driver} {f g : File} {k : Nat} {r : Reply} {op : Op} {ops : List Op}

/-! ### Both records -/

def holders (d : Driver) : List (Bool × Option File) := d.queue.map CapInfo.holder

/-- What the context of an open file records about its instance. -/
def links (d : Driver) (f : File) : Option (Option Nat) := (d.files f).map Context.dsplogPrivData

theorem links_eq_some_iff : d.links f = some (some k) ↔ ∃ context, d.files f = some context ∧
    context.dsplogPrivData = some k := Option.map_eq_some_iff

theorem holders_eq_some_iff {a : Bool} {filp : Option File} : d.holders[k]? = some (a, filp) ↔
    ∃ c, d.queue[k]? = some c ∧ c.active = a ∧ c.filp = filp := by
  rw [holders, List.getElem?_map, Option.map_eq_some_iff]
  simp only [CapInfo.holder, Prod.mk.injEq]

theorem links_of_files {context : Context} (hf : d.files f = some context) :
    d.links f = some context.dsplogPrivData := by
  rw [links, hf]
  rfl

theorem links_congr (h : d'.files = d.files) : d'.links = d.links := by
  funext f
  rw [links, links, h]

theorem links_setFile {context : Option Context} :
    (d.setFile f context).links = Function.update d.links f (context.map Context.dsplogPrivData) := by
  funext g
  by_cases hg : g = f
  · subst hg
    simp [links, setFile]
  · simp [links, setFile, hg]

theorem links_setFile_of_same {context context' : Context} (hf : d.files f = some context)
    (h : context'.dsplogPrivData = context.dsplogPrivData) : (d.setFile f (some context')).links = d.links := by
  rw [links_setFile, Option.map_some, h, ← links_of_files hf, Function.update_eq_self]

theorem holders_of_frame (h : d'.queue.map CapInfo.frame = d.queue.map CapInfo.frame) : d'.holders = d.holders :=
  map_eq_of_frame (fun _ => rfl) h

/-! ### What a step does to them -/

/-- A request for a core is refused: there is no such core, its instance is occupied, or it has none and none
    can be made. -/
def Refuses (p : Platform) (d : Driver) (dspId : UInt32) (alloc : Alloc) : Prop :=
  p.ucodeCoreNum ≤ dspId.toNat ∨ (∃ c ∈ d.queue, c.dspId = dspId ∧ c.active = true) ∨
    (∀ c ∈ d.queue, c.dspId ≠ dspId) ∧ (alloc.inst = false ∨ alloc.ring = none)

/-- A file that stops its capture, or is given a core, has no instance before. -/
def KeepsLink (p : Platform) (d : Driver) : Op → Prop
  | .ioctl f .stopCapture => ∀ k, d.links f ≠ some (some k)
  | .ioctl f (.setDspCore _ (some dspId) alloc) => (∀ k, d.links f ≠ some (some k)) ∨ Refuses p d dspId alloc
  | _ => True

/-- File `f` is given instance `k`, which nobody held. -/
structure Gives (d d' : Driver) (f : File) (k : Nat) : Prop where
  links : d'.links = Function.update d.links f (some (some k))
  taken : d'.holders[k]? = some (true, some f)
  others : ∀ j, j ≠ k → d'.holders[j]? = d.holders[j]?
  free : ∀ h, d.holders[k]? = some h → h.1 = false

/-- How a step changes the records of owners and instances. -/
inductive Moves (p : Platform) (d d' : Driver) : Op → Prop
  | keep {op : Op} : KeepsLink p d op → d'.holders = d.holders → d'.links = d.links → Moves p d d' op
  | opened {f : File} {ok : Bool} : d.links f = none → d'.holders = d.holders →
      d'.links = Function.update d.links f (some none) → Moves p d d' (.openFile f ok)
  | closed {f : File} : (∀ rd ∈ d.readers, rd.file ≠ f) →
      d'.holders = d.holders.map (fun h => if h.2 = some f ∧ h.1 = true then (false, none) else h) →
      d'.links = Function.update d.links f none → Moves p d d' (.close f)
  | given {f : File} {cmd : Ioctl} {k : Nat} {link : Option Nat} : d.links f = some link →
      (link = none ∨ ¬KeepsLink p d (.ioctl f cmd)) → Gives d d' f k → Moves p d d' (.ioctl f cmd)
  | stopped {f : File} {k : Nat} : d.links f = some (some k) → d'.links = d.links →
      d'.holders = d.holders.modify k (fun _ => (false, none)) → Moves p d d' (.ioctl f .stopCapture)

/-- The instance of a core is the only one. -/
theorem Registered.unique (h : Registered p d) {c c' : CapInfo} (hc : c ∈ d.queue) (hc' : c' ∈ d.queue)
    (hid : c.dspId = c'.dspId) : c = c' := List.inj_on_of_nodup_map h.distinct hc hc' hid

/-- A registration is refused, or it gives an instance that nobody held. -/
theorem register_gives (hreg : Registered p d) (filp : File) (pid : Nat) (dspId : UInt32) (alloc : Alloc) :
    Refuses p d dspId alloc ∧ (∃ d₁, d.dsplogRegisterLogCap p filp pid dspId alloc = (d₁, none) ∧
      d₁.holders = d.holders ∧ d₁.files = d.files) ∨
    ¬Refuses p d dspId alloc ∧ ∃ d₁ k, d.dsplogRegisterLogCap p filp pid dspId alloc = (d₁, some k) ∧
      d₁.files = d.files ∧ d₁.holders[k]? = some (true, some filp) ∧
      (∀ j, j ≠ k → d₁.holders[j]? = d.holders[j]?) ∧ ∀ h, d.holders[k]? = some h → h.1 = false := by
  unfold Refuses
  rcases d.register_cases p filp pid dspId alloc with ⟨hge, h⟩ | ⟨hlt, ⟨hfail, h⟩ | ⟨k, c, hc, hid, hinactive, h⟩ |
    ⟨ring, rfl, hnew, h⟩⟩ <;> rw [h]
  · exact Or.inl ⟨Or.inl hge, d, rfl, rfl, rfl⟩
  · exact Or.inl ⟨Or.inr hfail, _, rfl, rfl, rfl⟩
  · have hmem := List.mem_of_getElem? hc
    have hholder : d.holders[k]? = some (false, c.filp) := holders_eq_some_iff.mpr ⟨c, hc, hinactive, rfl⟩
    refine Or.inr ⟨?_, _, k, rfl, rfl, ?_, fun j hj => ?_, fun h hh => ?_⟩
    · rintro (hge | ⟨c', hc', hid', hactive⟩ | ⟨hnew, -⟩)
      · exact Nat.not_lt_of_le hge hlt
      · rw [hreg.unique hc' hmem (hid'.trans hid.symm), hinactive] at hactive
        cases hactive
      · exact hnew c hmem hid
    · have hk := (List.getElem?_eq_some_iff.mp hc).1
      exact holders_eq_some_iff.mpr ⟨_, List.getElem?_set_self hk, rfl, rfl⟩
    · simp only [holders, List.getElem?_map, setCap, dspPrintkDeinitTimer, List.getElem?_set_ne (Ne.symm hj)]
    · rw [hholder] at hh
      cases hh
      rfl
  · refine Or.inr ⟨?_, _, _, rfl, rfl, ?_, fun j hj => ?_, fun h hh => ?_⟩
    · rintro (hge | ⟨c', hc', hid', -⟩ | ⟨-, hfail | hfail⟩)
      · exact Nat.not_lt_of_le hge hlt
      · exact hnew c' hc' hid'
      · cases hfail
      · cases hfail
    · exact holders_eq_some_iff.mpr ⟨_, List.getElem?_concat_length, rfl, rfl⟩
    · simp only [holders, List.getElem?_map, List.getElem?_append, List.getElem?_singleton]
      rcases Nat.lt_or_gt_of_ne hj with hlt | hgt
      · rw [if_pos hlt]
      · rw [if_neg (by omega), if_neg (by omega), List.getElem?_eq_none (by omega)]
    · have hlt := (List.getElem?_eq_some_iff.mp hh).1
      rw [holders, List.length_map] at hlt
      exact absurd hlt (Nat.lt_irrefl _)

theorem startInstance_records (d : Driver) (p : Platform) (k : Nat) :
    (d.startInstance p k).holders = d.holders ∧ (d.startInstance p k).files = d.files := by
  constructor
  · rw [holders, startInstance_queue]
    exact map_modify_eq (g := CapInfo.holder) (f := CapInfo.start) (fun _ => rfl) d.queue k
  · unfold startInstance
    simp only
    split <;> rfl

theorem moves_start {context : Context} {pid : Nat} {alloc : Alloc} (hreg : Registered p d) (hf : d.files f = some context)
    (h : d.ambaDsplogIoctl p f context (.startCapture pid alloc) = (d', r)) :
    Moves p d d' (.ioctl f (.startCapture pid alloc)) := by
  rcases d.start_cases p f pid alloc context.dsplogPrivData with ⟨k, hpriv, hs⟩ | ⟨hpriv, -, hs⟩ |
    ⟨hpriv, -, d₁, ⟨hreg₁, hs⟩ | ⟨k, hreg₁, hs⟩⟩ <;> simp only [ambaDsplogIoctl, hs] at h <;> cases h
  · obtain ⟨hholders, hfiles⟩ := d.startInstance_records p k
    refine .keep trivial hholders ?_
    rw [links_setFile_of_same (hfiles ▸ hf) hpriv.symm, links_congr hfiles]
  · exact .keep trivial rfl (links_setFile_of_same hf hpriv.symm)
  · rcases register_gives hreg f pid 0 alloc with ⟨-, d₂, hreg₂, hholders, hfiles⟩ | ⟨-, d₂, k, hreg₂, -⟩ <;>
      rw [hreg₁] at hreg₂ <;> cases hreg₂
    refine .keep trivial hholders ?_
    rw [links_setFile_of_same (hfiles ▸ hf) hpriv.symm, links_congr hfiles]
  · rcases register_gives hreg f pid 0 alloc with ⟨-, d₂, hreg₂, -⟩ | ⟨-, d₂, k, hreg₂, hfiles, htaken, hothers, hfree⟩ <;>
      rw [hreg₁] at hreg₂ <;> cases hreg₂
    obtain ⟨hholders, hfiles'⟩ := d₁.startInstance_records p k
    refine .given (links_of_files hf) (Or.inl hpriv) ⟨?_, ?_, ?_, hfree⟩
    · rw [links_setFile, links_congr (hfiles'.trans hfiles)]
      rfl
    · exact hholders ▸ htaken
    · exact hholders ▸ hothers

theorem moves_setDspCore {context : Context} {pid : Nat} {arg : Option UInt32} {alloc : Alloc} (hreg : Registered p d)
    (hf : d.files f = some context) (h : d.dsplogSetDspCoreId p f context pid arg alloc = (d', r)) :
    Moves p d d' (.ioctl f (.setDspCore pid arg alloc)) := by
  cases arg with
  | none =>
    cases h
    exact .keep trivial rfl rfl
  | some dspId =>
    rcases register_gives hreg f pid dspId alloc with ⟨hrefused, d₁, hreg₁, hholders, hfiles⟩ |
      ⟨hgranted, d₁, k, hreg₁, hfiles, htaken, hothers, hfree⟩ <;>
      simp only [dsplogSetDspCoreId, hreg₁] at h <;> cases h
    · exact .keep (Or.inr hrefused) hholders (links_congr hfiles)
    · refine .given (links_of_files hf) ?_ ⟨?_, htaken, hothers, hfree⟩
      · cases hpriv : context.dsplogPrivData with
        | none => exact Or.inl rfl
        | some k₀ =>
          right
          rintro (hnone | hrefused)
          · exact hnone k₀ (hpriv ▸ links_of_files hf)
          · exact hgranted hrefused
      · rw [links_setFile, links_congr hfiles]
        rfl

theorem moves_stop {context : Context} (hf : d.files f = some context)
    (h : d.ambaDsplogIoctl p f context .stopCapture = (d', r)) : Moves p d d' (.ioctl f .stopCapture) := by
  have hlink := links_of_files hf
  cases hpriv : context.dsplogPrivData with
  | none =>
    simp only [ambaDsplogIoctl, hpriv] at h
    cases h
    refine .keep (fun k hk => ?_) rfl rfl
    rw [hlink, hpriv] at hk
    cases hk
  | some k =>
    simp only [ambaDsplogIoctl, hpriv] at h
    cases h
    have hmod := map_modify (g := CapInfo.holder) (f := CapInfo.stop) (h := fun _ => (false, none)) (fun _ => rfl) d.queue k
    exact .stopped (hpriv ▸ hlink) rfl hmod

/-- A read touches only the instance of its file, and no link. -/
theorem read_cases {context : Context} {maxSize : Nat} {copyOk : Bool} {copy : Copy}
    (h : d.ambaDsplogRead p f context maxSize copyOk copy = some (d', r)) :
    context.dsplogPrivData = none ∧ d' = d ∨ ∃ k c dump, context.dsplogPrivData = some k ∧ d'.queue = d.queue.set k c ∧
      d'.files = (d.setFile f (some { context with dumpMemSnapshot := dump })).files ∧
      (d'.readers = d.readers ∨ d'.readers = d.readers ++ [⟨f, k, false⟩]) := by
  unfold ambaDsplogRead at h
  split at h
  · rename_i hpriv
    cases h
    exact Or.inl ⟨hpriv, rfl⟩
  · rename_i k hpriv
    obtain ⟨c, hc, hd⟩ := Option.map_eq_some_iff.mp h
    rcases henter : c.readEnter p d.mem maxSize context.dumpMemSnapshot copyOk with ⟨c₁, dump, entered⟩
    simp only [henter] at hd
    refine Or.inr ⟨k, ?_⟩
    cases entered <;> cases hd
    · exact ⟨_, dump, hpriv, rfl, rfl, Or.inl rfl⟩
    · exact ⟨_, dump, hpriv, rfl, rfl, Or.inl rfl⟩
    · exact ⟨_, dump, hpriv, rfl, rfl, Or.inr rfl⟩

theorem step_moves (hreg : Registered p d) (h : d.step p op = some (d', r)) : Moves p d d' op := by
  cases op with
  | openFile f allocOk =>
    simp only [step] at h
    split at h
    · cases h
    · rename_i hclosed
      have hclosed : d.files f = none := by simpa using hclosed
      split at h <;> cases h
      · refine .opened ?_ rfl links_setFile
        rw [links, hclosed]
        rfl
      · exact .keep trivial rfl rfl
  | ioctl f cmd =>
    obtain ⟨context, hf, hd⟩ := Option.map_eq_some_iff.mp h
    cases cmd with
    | startCapture pid alloc => exact moves_start hreg hf hd
    | stopCapture => exact moves_stop hf hd
    | setDspCore pid arg alloc => exact moves_setDspCore hreg hf hd
    | getMemoryInfo copyOk =>
      cases hinfo : d.dsplogGetMemoryInfo context.dsplogPrivData <;> simp only [ambaDsplogIoctl, hinfo] at hd <;> cases hd <;>
        exact .keep trivial rfl rfl
    | dumpMemorySnapshot arg =>
      cases hd
      exact .keep trivial rfl (links_setFile_of_same hf rfl)
    | setLogLevel | getLogLevel copyOk | parseLog | other =>
      cases hd
      exact .keep trivial rfl rfl
  | read f maxSize copyOk copy =>
    obtain ⟨context, hf, hd⟩ := Option.bind_eq_some_iff.mp h
    refine .keep trivial (holders_of_frame (step_frame h trivial).2) ?_
    rcases read_cases hd with ⟨-, rfl⟩ | ⟨k, c, dump, -, -, hfiles, -⟩
    · rfl
    · rw [links_congr hfiles]
      exact links_setFile_of_same hf rfl
  | wake i interrupted =>
    refine .keep trivial (holders_of_frame (step_frame h trivial).2) ?_
    obtain ⟨d₁, hwake, hd⟩ := Option.map_eq_some_iff.mp h
    cases hd
    obtain ⟨rd, c, -, -, -, ⟨-, rfl⟩ | ⟨-, rfl⟩⟩ := wakeReader_cases hwake <;> rfl
  | resumeRead i copy =>
    refine .keep trivial (holders_of_frame (step_frame h trivial).2) ?_
    obtain ⟨rd, c, -, -, rfl, -⟩ := resumeReader_cases h
    rfl
  | dspWrite a bs =>
    cases h
    exact .keep trivial rfl rfl
  | tick fuel =>
    refine .keep trivial (holders_of_frame (step_frame h trivial).2) ?_
    simp only [step] at h
    split at h
    · obtain ⟨services, -, hd⟩ := Option.map_eq_some_iff.mp h
      cases hd
      rfl
    · cases h
  | close f =>
    simp only [step] at h
    split at h
    · rename_i hclose
      cases h
      refine .closed (fun rd hrd => ?_) ?_ links_setFile
      · simpa using List.all_eq_true.mp hclose.2 rd hrd
      · simp only [holders, setFile, dsplogResetLogCapState, List.map_map]
        exact List.map_congr_left fun c _ => CapInfo.holder_release
    · cases h
  | suspend | resume | resetCap =>
    cases h
    refine .keep trivial ?_ rfl
    simp only [holders, dsplogSuspend, dsplogResume, dsplogResetCap, List.map_map]
    rfl

/-! ### Occupied instances -/

/-- An instance is active exactly when it names a file, and the file that it names is open. -/
structure Occupied (d : Driver) : Prop where
  active_iff : ∀ (k : Nat) (a : Bool) (filp : Option File), d.holders[k]? = some (a, filp) → (a = true ↔ filp ≠ none)
  opened : ∀ (k : Nat) (a : Bool) (f : File), d.holders[k]? = some (a, some f) → d.links f ≠ none

namespace Occupied

theorem init (h : Initial d) : Occupied d := by
  have hnil : d.holders = [] := by
    rw [holders, h.queue]
    rfl
  constructor <;> simp [hnil]

theorem move (h : Occupied d) (hm : Moves p d d' op) : Occupied d' := by
  cases hm with
  | keep _ hholders hlinks =>
    constructor
    · exact hholders ▸ h.active_iff
    · exact hholders ▸ hlinks ▸ h.opened
  | @opened f ok hclosed hholders hlinks =>
    constructor
    · exact hholders ▸ h.active_iff
    · intro k a g hk
      rw [hholders] at hk
      have hopen := h.opened k a g hk
      rw [hlinks]
      by_cases hg : g = f
      · subst hg
        simp
      · rwa [Function.update_of_ne hg]
  | @closed f _ hholders hlinks =>
    have hcases : ∀ (k : Nat) (a : Bool) (filp : Option File), d'.holders[k]? = some (a, filp) → (a = false ∧ filp = none) ∨
        d.holders[k]? = some (a, filp) ∧ ¬(filp = some f ∧ a = true) := by
      intro k a filp hk
      rw [hholders, List.getElem?_map, Option.map_eq_some_iff] at hk
      obtain ⟨⟨a₀, filp₀⟩, hold, hk⟩ := hk
      split at hk
      · cases hk
        exact Or.inl ⟨rfl, rfl⟩
      · rename_i hne
        cases hk
        exact Or.inr ⟨hold, hne⟩
    constructor
    · intro k a filp hk
      rcases hcases k a filp hk with ⟨rfl, rfl⟩ | ⟨hold, -⟩
      · simp
      · exact h.active_iff k a filp hold
    · intro k a g hk
      rcases hcases k a (some g) hk with ⟨-, hnone⟩ | ⟨hold, hne⟩
      · cases hnone
      · have hg : g ≠ f := by
          rintro rfl
          exact hne ⟨rfl, (h.active_iff k a _ hold).mpr (by simp)⟩
        rw [hlinks, Function.update_of_ne hg]
        exact h.opened k a g hold
  | @given f cmd k link hf _ hgives =>
    constructor
    · intro j a filp hj
      by_cases hjk : j = k
      · subst hjk
        rw [hgives.taken] at hj
        cases hj
        simp
      · rw [hgives.others j hjk] at hj
        exact h.active_iff j a filp hj
    · intro j a g hj
      rw [hgives.links]
      by_cases hg : g = f
      · subst hg
        simp
      · rw [Function.update_of_ne hg]
        by_cases hjk : j = k
        · subst hjk
          rw [hgives.taken] at hj
          cases hj
          exact absurd rfl hg
        · rw [hgives.others j hjk] at hj
          exact h.opened j a g hj
  | @stopped f k hf hlinks hholders =>
    have hcases : ∀ (j : Nat) (a : Bool) (filp : Option File), d'.holders[j]? = some (a, filp) → (a = false ∧ filp = none) ∨
        d.holders[j]? = some (a, filp) := by
      intro j a filp hj
      by_cases hjk : k = j
      · subst hjk
        rw [hholders, List.getElem?_modify_eq, Option.map_eq_map, Option.map_eq_some_iff] at hj
        obtain ⟨-, -, hj⟩ := hj
        cases hj
        exact Or.inl ⟨rfl, rfl⟩
      · rw [hholders, List.getElem?_modify_ne _ _ hjk] at hj
        exact Or.inr hj
    constructor
    · intro j a filp hj
      rcases hcases j a filp hj with ⟨rfl, rfl⟩ | hold
      · simp
      · exact h.active_iff j a filp hold
    · intro j a g hj
      rcases hcases j a (some g) hj with ⟨-, hnone⟩ | hold
      · cases hnone
      · exact hlinks ▸ h.opened j a g hold

end Occupied

theorem occupied (h : (driver p).Reachable d) : Occupied d :=
  (reachable_invariant (I := fun d => Registered p d ∧ Occupied d) (fun _ hd => ⟨.init hd, .init hd⟩)
    (fun _ _ _ _ hd hs => ⟨hd.1.step hs, hd.2.move (step_moves hd.1 hs)⟩) h).2

theorem setDspCore_done {context : Context} {pid : Nat} {dspId : UInt32} {alloc : Alloc} (hreg : Registered p d)
    (hf : d.files f = some context) (hgranted : ¬Refuses p d dspId alloc) :
    ∃ d', d.step p (.ioctl f (.setDspCore pid (some dspId) alloc)) = some (d', .done) := by
  rcases register_gives hreg f pid dspId alloc with ⟨hrefused, -⟩ | ⟨-, d₁, k, hreg₁, -⟩
  · exact absurd hrefused hgranted
  · refine ⟨d₁.setFile f (some { context with dsplogPrivData := some k }), ?_⟩
    simp only [step, hf, Option.map_some, ambaDsplogIoctl, dsplogSetDspCoreId, hreg₁]

/-- The cores that a file occupied are free when it is closed. -/
theorem released_granted {alloc : Alloc} (hreg : Registered p d) (h : d.step p (.close f) = some (d', r))
    {c : CapInfo} (hc : c ∈ d.queue) (hown : c.filp = some f) : ¬Refuses p d' c.dspId alloc := by
  have hreg' := hreg.step h
  have hc' : c.release f ∈ d'.queue := by
    simp only [step] at h
    split at h <;> cases h
    exact List.mem_map_of_mem hc
  have hid : (c.release f).dspId = c.dspId := congrArg Place.dspId CapInfo.place_release
  have hfree : (c.release f).active = false := by
    unfold CapInfo.release
    split
    · rfl
    · rename_i hnot
      exact eq_false_of_ne_true fun hactive => hnot ⟨hown, hactive⟩
  rintro (hge | ⟨c', hmem, hid', hactive⟩ | ⟨hnew, -⟩)
  · exact Nat.not_lt_of_le hge (hreg.below c hc)
  · rw [hreg'.unique hmem hc' (hid'.trans hid.symm), hfree] at hactive
    cases hactive
  · exact hnew _ hc' hid

/-- An instance is active exactly when it names a file, which is open. Closing a file frees all cores that it
    occupies, and another file can have any of them. -/
theorem occupancy (hr : (driver p).Reachable d) :
    (∀ c ∈ d.queue, (c.active = true ↔ c.filp ≠ none) ∧ ∀ f, c.filp = some f → ∃ context, d.files f = some context) ∧
    ∀ f d' r, d.step p (.close f) = some (d', r) → (∀ c ∈ d'.queue, c.filp ≠ some f) ∧
      ∀ c ∈ d.queue, c.filp = some f → ∀ g context pid alloc, d'.files g = some context →
        ∃ d'', d'.step p (.ioctl g (.setDspCore pid (some c.dspId) alloc)) = some (d'', .done) := by
  have hreg := registered hr
  have hocc := occupied hr
  have hholder {d : Driver} {c : CapInfo} (hc : c ∈ d.queue) : ∃ k : Nat, d.holders[k]? = some (c.active, c.filp) := by
    obtain ⟨k, hk⟩ := List.mem_iff_getElem?.mp hc
    exact ⟨k, holders_eq_some_iff.mpr ⟨c, hk, rfl, rfl⟩⟩
  refine ⟨fun c hc => ?_, fun f d' r hclose => ⟨fun c hc hown => ?_, fun c hc hown g context pid alloc hg => ?_⟩⟩
  · obtain ⟨k, hk⟩ := hholder hc
    refine ⟨hocc.active_iff k _ _ hk, fun f hown => ?_⟩
    rw [hown] at hk
    have hopen := hocc.opened k _ f hk
    rw [links, Ne, Option.map_eq_none_iff] at hopen
    exact Option.ne_none_iff_exists'.mp hopen
  · have hocc' := occupied (reachable_step hr hclose)
    obtain ⟨k, hk⟩ := hholder hc
    rw [hown] at hk
    refine hocc'.opened k _ f hk ?_
    simp only [step] at hclose
    split at hclose <;> cases hclose
    simp [links, setFile]
  · exact setDspCore_done (hreg.step hclose) hg (released_granted hreg hclose hc hown)

def bothSelected : List Op :=
  [.openFile 0 true, .ioctl 0 (.setDspCore 10 (some 0) ⟨true, some 64⟩), .ioctl 0 (.setDspCore 10 (some 1) ⟨true, some 128⟩),
    .openFile 1 true]

theorem occupancy_both : ∃ d, (driver (Platform.tiny 2 (by decide))).exec empty bothSelected = some d ∧
    (∀ c ∈ d.queue, (c.active = true ↔ c.filp ≠ none) ∧ ∀ f, c.filp = some f → ∃ context, d.files f = some context) ∧
    ∀ f d' r, d.step (Platform.tiny 2 (by decide)) (.close f) = some (d', r) → (∀ c ∈ d'.queue, c.filp ≠ some f) ∧
      ∀ c ∈ d.queue, c.filp = some f → ∀ g context pid alloc, d'.files g = some context →
        ∃ d'', d'.step (Platform.tiny 2 (by decide)) (.ioctl g (.setDspCore pid (some c.dspId) alloc)) =
          some (d'', .done) :=
  ⟨_, rfl, occupancy (Machine.Reachable.exec (M := driver (Platform.tiny 2 (by decide))) (.init empty_initial)
    (rfl : Machine.exec _ empty bothSelected = some _))⟩

end Driver
end Dsplog
