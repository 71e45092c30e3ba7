import Dsplog.Theorems.Ownership

/-! Exclusive ownership. As long as no file stops its capture or is given a core while it has one, the records
    of files and instances agree, and the operations of a file stay away from the cores of others. The first
    step that does otherwise leaves a file with an instance that is not its own. -/

namespace Dsplog
open Bytes Machines

namespace Driver
variable {p : Platform} {d d' : Driver} {f g : File} {k : Nat} {r : Reply} {op : Op} {ops : List Op} {c : CapInfo}

/-- The operation is a read, or the rest of a read, or a STOP by file `f`. -/
def ByFile (d : Driver) (f : File) : Op → Prop
  | .read f' .. | .ioctl f' .stopCapture => f' = f
  | .wake i _ | .resumeRead i _ => ∃ rd, d.readers[i]? = some rd ∧ rd.file = f
  | _ => False

/-- The context of a file refers to an instance exactly when the instance is active and names the file: no two
    files refer to the same instance, an operation by one file leaves the instances of the others as they are,
    and every active instance has an owner that refers to it. -/
structure Exclusive (p : Platform) (d : Driver) : Prop where
  link : ∀ (f : File) (k : Nat), (∃ context, d.files f = some context ∧ context.dsplogPrivData = some k) ↔
    ∃ c, d.queue[k]? = some c ∧ c.active = true ∧ c.filp = some f
  apart : ∀ (f g : File) (k : Nat) (context context' : Context), d.files f = some context → d.files g = some context' →
    context.dsplogPrivData = some k → context'.dsplogPrivData = some k → f = g
  others : ∀ (f g : File) (op : Op) (d' : Driver) (r : Reply) (k : Nat) (c : CapInfo), ByFile d f op →
    d.step p op = some (d', r) → d.queue[k]? = some c → c.filp = some g → g ≠ f → d'.queue[k]? = some c
  owner : ∀ (k : Nat) (c : CapInfo), d.queue[k]? = some c → c.active = true →
    ∃ f context, c.filp = some f ∧ d.files f = some context ∧ context.dsplogPrivData = some k

/-- Both records agree, and a thread inside a read is there for the instance of its file. -/
structure Owned (p : Platform) (d : Driver) : Prop extends Registered p d, Occupied d where
  link : ∀ f k, d.links f = some (some k) ↔ d.holders[k]? = some (true, some f)
  readers : ∀ rd ∈ d.readers, d.links rd.file = some (some rd.cap)

/-! ### The readers -/

theorem register_readers (d : Driver) (p : Platform) (filp : File) (pid : Nat) (dspId : UInt32) (alloc : Alloc) :
    (d.dsplogRegisterLogCap p filp pid dspId alloc).1.readers = d.readers := by
  rcases d.register_cases p filp pid dspId alloc with ⟨-, h⟩ | ⟨-, ⟨-, h⟩ | ⟨k, c, -, -, -, h⟩ | ⟨ring, -, -, h⟩⟩ <;> rw [h] <;>
    rfl

theorem startInstance_readers (d : Driver) (p : Platform) (k : Nat) : (d.startInstance p k).readers = d.readers := by
  unfold startInstance
  simp only
  split <;> rfl

theorem ioctl_readers (d : Driver) (p : Platform) (f : File) (context : Context) (cmd : Ioctl) :
    (d.ambaDsplogIoctl p f context cmd).1.readers = d.readers := by
  cases cmd with
  | startCapture pid alloc =>
    have hregister := d.register_readers p f pid 0 alloc
    rcases d.start_cases p f pid alloc context.dsplogPrivData with ⟨k, -, h⟩ | ⟨-, -, h⟩ |
      ⟨-, -, d₁, ⟨hreg, h⟩ | ⟨k, hreg, h⟩⟩ <;> simp only [ambaDsplogIoctl, h]
    · exact d.startInstance_readers p k
    · rfl
    · rwa [hreg] at hregister
    · rw [hreg] at hregister
      exact (d₁.startInstance_readers p k).trans hregister
  | stopCapture => cases hpriv : context.dsplogPrivData <;> simp only [ambaDsplogIoctl, hpriv] <;> rfl
  | setDspCore pid arg alloc =>
    cases arg with
    | none => rfl
    | some dspId =>
      have hregister := d.register_readers p f pid dspId alloc
      rcases hreg : d.dsplogRegisterLogCap p f pid dspId alloc with ⟨d₁, _ | k⟩ <;> rw [hreg] at hregister <;>
        simp only [ambaDsplogIoctl, dsplogSetDspCoreId, hreg] <;> exact hregister
  | getMemoryInfo copyOk =>
    cases hinfo : d.dsplogGetMemoryInfo context.dsplogPrivData <;> simp only [ambaDsplogIoctl, hinfo]
  | setLogLevel | getLogLevel copyOk | parseLog | dumpMemorySnapshot arg | other => rfl

/-- A thread inside a read was there before, or its file has just begun to read its instance. -/
theorem step_readers (h : d.step p op = some (d', r)) {rd : Reader} (hrd : rd ∈ d'.readers) :
    (∃ rd₀ ∈ d.readers, rd₀.file = rd.file ∧ rd₀.cap = rd.cap) ∨
      (∃ maxSize copyOk copy, op = .read rd.file maxSize copyOk copy) ∧ d.links rd.file = some (some rd.cap) := by
  have same (heq : d'.readers = d.readers) : ∃ rd₀ ∈ d.readers, rd₀.file = rd.file ∧ rd₀.cap = rd.cap :=
    ⟨rd, heq ▸ hrd, rfl, rfl⟩
  cases op with
  | openFile f allocOk =>
    simp only [step] at h
    split at h
    · cases h
    · split at h <;> cases h <;> exact Or.inl (same rfl)
  | ioctl f cmd =>
    obtain ⟨context, -, hd⟩ := Option.map_eq_some_iff.mp h
    have hreaders := d.ioctl_readers p f context cmd
    rw [hd] at hreaders
    exact Or.inl (same hreaders)
  | read f maxSize copyOk copy =>
    obtain ⟨context, hf, hd⟩ := Option.bind_eq_some_iff.mp h
    rcases read_cases hd with ⟨-, rfl⟩ | ⟨k, c, dump, hpriv, -, -, hsame | hnew⟩
    · exact Or.inl (same rfl)
    · exact Or.inl (same hsame)
    · rw [hnew] at hrd
      rcases List.mem_append.mp hrd with hold | hlast
      · exact Or.inl ⟨rd, hold, rfl, rfl⟩
      · rw [List.mem_singleton.mp hlast]
        exact Or.inr ⟨⟨maxSize, copyOk, copy, rfl⟩, hpriv ▸ links_of_files hf⟩
  | wake i interrupted =>
    obtain ⟨d₁, hwake, hd⟩ := Option.map_eq_some_iff.mp h
    cases hd
    obtain ⟨rd₀, c, hi, -, -, ⟨-, rfl⟩ | ⟨-, rfl⟩⟩ := wakeReader_cases hwake
    all_goals
      rcases List.mem_or_eq_of_mem_set hrd with hold | rfl
      · exact Or.inl ⟨rd, hold, rfl, rfl⟩
      · exact Or.inl ⟨rd₀, List.mem_of_getElem? hi, rfl, rfl⟩
  | resumeRead i copy =>
    obtain ⟨rd₀, c, -, -, rfl, -⟩ := resumeReader_cases h
    exact Or.inl ⟨rd, List.mem_of_mem_eraseIdx hrd, rfl, rfl⟩
  | close f =>
    simp only [step] at h
    split at h <;> cases h
    exact Or.inl (same rfl)
  | tick fuel =>
    simp only [step] at h
    split at h
    · obtain ⟨services, -, hd⟩ := Option.map_eq_some_iff.mp h
      cases hd
      exact Or.inl (same rfl)
    · cases h
  | dspWrite | suspend | resume | resetCap =>
    cases h
    exact Or.inl (same rfl)

namespace Owned

theorem init (h : Initial d) : Owned p d := by
  have hnil : d.holders = [] := by
    rw [holders, h.queue]
    rfl
  refine ⟨.init h, .init h, fun f k => ?_, by simp [h.readers]⟩
  simp [links, h.files, hnil]

/-! ### A step that keeps the link -/

theorem link_move (h : Owned p d) (hG : KeepsLink p d op) (hm : Moves p d d' op) (f : File) (k : Nat) :
    d'.links f = some (some k) ↔ d'.holders[k]? = some (true, some f) := by
  cases hm with
  | keep _ hholders hlinks => rw [hholders, hlinks, h.link]
  | @opened f' ok hclosed hholders hlinks =>
    rw [hholders, hlinks, ← h.link]
    by_cases hf : f = f'
    · subst hf
      simp [hclosed]
    · rw [Function.update_of_ne hf]
  | @closed f' _ hholders hlinks =>
    rw [hholders, hlinks, List.getElem?_map, Option.map_eq_some_iff]
    by_cases hf : f = f'
    · subst hf
      refine iff_of_false (by simp) ?_
      rintro ⟨h, -, heq⟩
      split at heq
      · cases heq
      · rename_i hne
        exact hne ⟨by rw [heq], by rw [heq]⟩
    · rw [Function.update_of_ne hf, h.link]
      constructor
      · intro hk
        exact ⟨_, hk, if_neg fun hown => hf (Option.some.inj hown.1)⟩
      · rintro ⟨h, hk, heq⟩
        split at heq
        · cases heq
        · rw [hk, heq]
  | @given f' cmd k' link hf' hG' hgives =>
    obtain rfl : link = none := hG'.resolve_right (not_not_intro hG)
    rw [hgives.links]
    by_cases hf : f = f'
    · subst hf
      rw [Function.update_self]
      by_cases hk : k = k'
      · subst hk
        exact iff_of_true rfl hgives.taken
      · rw [hgives.others k hk, ← h.link, hf']
        simp [Ne.symm hk]
    · rw [Function.update_of_ne hf, h.link]
      by_cases hk : k = k'
      · subst hk
        refine iff_of_false (fun hown => ?_) (fun hown => ?_)
        · cases hgives.free _ hown
        · rw [hgives.taken] at hown
          cases hown
          exact hf rfl
      · rw [hgives.others k hk]
  | @stopped f' k' hf' hlinks hholders => exact absurd hf' (hG k')

theorem readers_step (h : Owned p d) (hG : KeepsLink p d op) (hs : d.step p op = some (d', r)) :
    ∀ rd ∈ d'.readers, d'.links rd.file = some (some rd.cap) := by
  intro rd hrd
  have hbefore : d.links rd.file = some (some rd.cap) := by
    rcases step_readers hs hrd with ⟨rd₀, hrd₀, hfile, hcap⟩ | ⟨-, hlink⟩
    · rw [← hfile, ← hcap]
      exact h.readers rd₀ hrd₀
    · exact hlink
  have keep {link : Option (Option Nat)} {f' : File} (hlinks : d'.links = Function.update d.links f' link)
      (hne : rd.file ≠ f') : d'.links rd.file = some (some rd.cap) := by
    rw [hlinks, Function.update_of_ne hne]
    exact hbefore
  cases step_moves h.toRegistered hs with
  | keep _ _ hlinks => exact hlinks ▸ hbefore
  | @opened f' _ hclosed _ hlinks =>
    refine keep hlinks fun hf => ?_
    rw [hf, hclosed] at hbefore
    cases hbefore
  | @closed f' hnone _ hlinks =>
    refine keep hlinks fun hf => ?_
    rcases step_readers hs hrd with ⟨rd₀, hrd₀, hfile, -⟩ | ⟨⟨_, _, _, hop⟩, -⟩
    · exact hnone rd₀ hrd₀ (hfile.trans hf)
    · cases hop
  | @given f' cmd k' link hf' hG' hgives =>
    refine keep hgives.links fun hf => ?_
    obtain rfl : link = none := hG'.resolve_right (not_not_intro hG)
    rw [hf, hf'] at hbefore
    cases hbefore
  | @stopped f' k' hf' _ _ => exact absurd hf' (hG k')

theorem step (h : Owned p d) (hG : KeepsLink p d op) (hs : d.step p op = some (d', r)) : Owned p d' :=
  ⟨h.toRegistered.step hs, h.toOccupied.move (step_moves h.toRegistered hs),
    h.link_move hG (step_moves h.toRegistered hs), h.readers_step hG hs⟩

/-! ### What the link gives -/

theorem others (h : Owned p d) (hby : ByFile d f op) (hs : d.step p op = some (d', r)) (hc : d.queue[k]? = some c)
    (hown : c.filp = some g) (hne : g ≠ f) : d'.queue[k]? = some c := by
  -- The operation works on the instance of its file, which names this file and no other.
  have away {j : Nat} (hlink : d.links f = some (some j)) : j ≠ k := by
    rintro rfl
    obtain ⟨c', hc', -, hown'⟩ := holders_eq_some_iff.mp ((h.link f j).mp hlink)
    rw [hc] at hc'
    cases hc'
    rw [hown] at hown'
    exact hne (Option.some.inj hown')
  cases op with
  | read f' maxSize copyOk copy =>
    obtain rfl : f' = f := hby
    obtain ⟨context, hf, hd⟩ := Option.bind_eq_some_iff.mp hs
    rcases read_cases hd with ⟨-, rfl⟩ | ⟨j, c', dump, hpriv, hqueue, -⟩
    · exact hc
    · rw [hqueue, List.getElem?_set_ne (away (hpriv ▸ links_of_files hf))]
      exact hc
  | ioctl f' cmd =>
    cases cmd with
    | stopCapture =>
      obtain rfl : f' = f := hby
      obtain ⟨context, hf, hd⟩ := Option.map_eq_some_iff.mp hs
      cases hpriv : context.dsplogPrivData with
      | none =>
        simp only [ambaDsplogIoctl, hpriv] at hd
        cases hd
        exact hc
      | some j =>
        simp only [ambaDsplogIoctl, hpriv] at hd
        cases hd
        exact (List.getElem?_modify_ne _ _ (away (hpriv ▸ links_of_files hf))).trans hc
    | startCapture | setDspCore | setLogLevel | getLogLevel | parseLog | getMemoryInfo | dumpMemorySnapshot | other =>
      exact hby.elim
  | wake i interrupted =>
    obtain ⟨rd, hrd, rfl⟩ := hby
    have haway := away (h.readers rd (List.mem_of_getElem? hrd))
    obtain ⟨d₁, hwake, hd⟩ := Option.map_eq_some_iff.mp hs
    cases hd
    obtain ⟨rd', c', hrd', -, -, ⟨-, rfl⟩ | ⟨-, rfl⟩⟩ := wakeReader_cases hwake
    · exact hc
    · rw [hrd] at hrd'
      cases hrd'
      exact (List.getElem?_set_ne haway).trans hc
  | resumeRead i copy =>
    obtain ⟨rd, hrd, rfl⟩ := hby
    have haway := away (h.readers rd (List.mem_of_getElem? hrd))
    obtain ⟨rd', c', hrd', -, rfl, -⟩ := resumeReader_cases hs
    rw [hrd] at hrd'
    cases hrd'
    exact (List.getElem?_set_ne haway).trans hc
  | openFile | close | dspWrite | tick | suspend | resume | resetCap => exact hby.elim

theorem exclusive (h : Owned p d) : Exclusive p d where
  link f k := by
    rw [← links_eq_some_iff, h.link, holders_eq_some_iff]
  apart f g k context context' hf hg hpriv hpriv' := by
    have hown := (h.link f k).mp (hpriv ▸ links_of_files hf)
    rw [(h.link g k).mp (hpriv' ▸ links_of_files hg)] at hown
    cases hown
    rfl
  others f g op d' r k c hby hs hc hown hne := h.others hby hs hc hown hne
  owner k c hc hactive := by
    have hholder : d.holders[k]? = some (c.active, c.filp) := holders_eq_some_iff.mpr ⟨c, hc, rfl, rfl⟩
    obtain ⟨f, hown⟩ := Option.ne_none_iff_exists'.mp ((h.active_iff k _ _ hholder).mp hactive)
    rw [hactive, hown] at hholder
    obtain ⟨context, hf, hpriv⟩ := links_eq_some_iff.mp ((h.link f k).mpr hholder)
    exact ⟨f, context, hown, hf, hpriv⟩

end Owned

/-! ### A step that breaks the link -/

theorem Owned.breaks (h : Owned p d) (hG : ¬KeepsLink p d op) (hs : d.step p op = some (d', r)) : ¬Exclusive p d' := by
  intro hex
  have hlink (f : File) (k : Nat) : d'.links f = some (some k) ↔ d'.holders[k]? = some (true, some f) := by
    rw [links_eq_some_iff, holders_eq_some_iff]
    exact hex.link f k
  cases step_moves h.toRegistered hs with
  | keep hkeeps => exact hG hkeeps
  | opened => exact hG trivial
  | closed => exact hG trivial
  | @given f cmd k link hf _ hgives =>
    cases link with
    | none =>
      -- Without an instance before, the step keeps the link.
      refine hG ?_
      cases cmd with
      | setDspCore pid arg alloc =>
        cases arg with
        | none => trivial
        | some dspId => exact Or.inl fun k hk => by rw [hf] at hk; cases hk
      | stopCapture => exact fun k hk => by rw [hf] at hk; cases hk
      | startCapture | setLogLevel | getLogLevel | parseLog | getMemoryInfo | dumpMemorySnapshot | other => trivial
    | some k₀ =>
      have hold := (h.link f k₀).mp hf
      have hne : k₀ ≠ k := by
        rintro rfl
        cases hgives.free _ hold
      have hnew : d'.links f = some (some k₀) := (hlink f k₀).mpr (by rw [hgives.others k₀ hne]; exact hold)
      rw [hgives.links, Function.update_self] at hnew
      cases hnew
      exact hne rfl
  | @stopped f k hf hlinks hholders =>
    have hold := (hlink f k).mp (hlinks ▸ hf)
    rw [hholders, List.getElem?_modify_eq, (h.link f k).mp hf] at hold
    cases hold

/-- Ownership stays exclusive along a run exactly when no file that has an instance stops it or is given
    another one. -/
theorem exclusive_iff (hinit : Initial d) (he : (driver p).exec d ops = some d') :
    (∀ x ∈ (driver p).visited d ops, Exclusive p x) ↔ ∀ x ∈ (driver p).trace d ops, KeepsLink p x.1 x.2 :=
  forall_iff_guarded (I := Owned p) (P := Exclusive p) (G := KeepsLink p) (fun _ _ _ _ hown hG hs => hown.step hG hs)
    (fun _ hown => hown.exclusive) (fun _ _ _ _ hown hG hs => hown.breaks hG hs) (.init hinit) he

/-- File 0 stops its capture, and file 1 takes the core. -/
def stoppedAndTaken : List Op :=
  [.openFile 0 true, .ioctl 0 (.setDspCore 10 (some 0) ⟨true, some 64⟩), .ioctl 0 .stopCapture, .openFile 1 true,
    .ioctl 1 (.setDspCore 11 (some 0) ⟨false, none⟩)]

/-- Both files refer to the instance, so file 0 can stop the capture of file 1 and read its records. -/
theorem two_files_one_instance : ¬∀ d, (driver (Platform.tiny 2 (by decide))).Reachable d →
    Exclusive (Platform.tiny 2 (by decide)) d := by
  intro h
  have hex := h _ (Machine.Reachable.exec (M := driver (Platform.tiny 2 (by decide))) (.init empty_initial)
    (rfl : Machine.exec _ empty stoppedAndTaken = some _))
  exact absurd (hex.apart 0 1 0 _ _ rfl rfl rfl rfl) (by decide)

theorem exclusive_iff_taken : ∃ d, (driver (Platform.tiny 2 (by decide))).exec empty stoppedAndTaken = some d ∧
    ((∀ x ∈ (driver (Platform.tiny 2 (by decide))).visited empty stoppedAndTaken,
        Exclusive (Platform.tiny 2 (by decide)) x) ↔
      ∀ x ∈ (driver (Platform.tiny 2 (by decide))).trace empty stoppedAndTaken,
        KeepsLink (Platform.tiny 2 (by decide)) x.1 x.2) :=
  ⟨_, rfl, exclusive_iff empty_initial rfl⟩

end Driver
end Dsplog
