import Mathlib.Tactic.Common

/-! Byte-addressed memory: reading, writing and clearing a range of bytes, and 32-bit words stored
    least significant byte first. -/

namespace Bytes

/-- The byte at each address. -/
abbrev Mem : Type := Nat → UInt8

namespace Mem

/-- The `n` bytes from address `a` on. -/
def read (m : Mem) (a n : Nat) : List UInt8 := (List.range n).map fun i => m (a + i)

/-- Stores `bs` from address `a` on. -/
def write (m : Mem) (a : Nat) (bs : List UInt8) : Mem := fun x =>
  if a ≤ x ∧ x < a + bs.length then bs.getD (x - a) 0 else m x

def clear (m : Mem) (a n : Nat) : Mem := fun x => if a ≤ x ∧ x < a + n then 0 else m x

/-- The word at address `a`. -/
def word (m : Mem) (a : Nat) : UInt32 :=
  UInt32.ofNat ((m a).toNat + 256 * (m (a + 1)).toNat + 65536 * (m (a + 2)).toNat + 16777216 * (m (a + 3)).toNat)

variable {m m' : Mem} {a b n k : Nat} {bs : List UInt8}

@[simp] theorem read_length : (m.read a n).length = n := by simp [read]

theorem read_append : m.read a (n + k) = m.read a n ++ m.read (a + n) k := by
  simp only [read, List.range_add, List.map_append, List.map_map]
  congr 1
  exact List.map_congr_left fun i _ => by simp [Nat.add_assoc]

theorem read_congr (h : ∀ x, a ≤ x → x < a + n → m x = m' x) : m.read a n = m'.read a n := by
  refine List.map_congr_left fun i hi => ?_
  have hi := List.mem_range.mp hi
  exact h (a + i) (by omega) (by omega)

theorem getElem?_read {i : Nat} (h : i < n) : (m.read a n)[i]? = some (m (a + i)) := by
  simp [read, h]

theorem write_of_lt {x : Nat} (h : x < a) : m.write a bs x = m x := by
  simp only [write]
  split <;> first | rfl | omega

theorem write_of_ge {x : Nat} (h : a + bs.length ≤ x) : m.write a bs x = m x := by
  simp only [write]
  split <;> first | rfl | omega

theorem read_write_of_disjoint (h : b + n ≤ a ∨ a + bs.length ≤ b) : (m.write a bs).read b n = m.read b n := by
  refine read_congr fun x hx hx' => ?_
  rcases h with h | h
  · exact write_of_lt (by omega)
  · exact write_of_ge (by omega)

theorem read_write_self : (m.write a bs).read a bs.length = bs := by
  apply List.ext_getElem (by simp)
  intro i hi hi'
  simp [read, write, hi']

theorem clear_of_mem {x : Nat} (h : a ≤ x) (h' : x < a + n) : m.clear a n x = 0 := by
  simp [clear, h, h']

theorem clear_eq_write (m : Mem) (a n : Nat) : m.clear a n = m.write a (List.replicate n 0) := by
  funext x
  simp only [clear, write, List.length_replicate]
  split
  · rename_i hx
    have hlt : x - a < n := by omega
    simp [hlt]
  · rfl

end Mem

/-- The bytes of a word, least significant first. -/
def ofWord (w : UInt32) : List UInt8 :=
  [UInt8.ofNat w.toNat, UInt8.ofNat (w.toNat / 256), UInt8.ofNat (w.toNat / 65536),
    UInt8.ofNat (w.toNat / 16777216)]

theorem word_of_bytes {m : Mem} {a : Nat} {w : UInt32} (h : ∀ i (hi : i < 4), m (a + i) = (ofWord w)[i]) :
    m.word a = w := by
  have h0 : m a = _ := h 0 (by omega)
  have h1 := h 1 (by omega)
  have h2 := h 2 (by omega)
  have h3 := h 3 (by omega)
  have hw := w.toNat_lt
  apply UInt32.toNat_inj.mp
  simp only [ofWord, List.getElem_cons_zero, List.getElem_cons_succ] at h0 h1 h2 h3
  simp only [Mem.word, h0, h1, h2, h3, UInt32.toNat_ofNat', UInt8.toNat_ofNat']
  omega

/-- A word in memory stands for the four bytes there. -/
theorem ofWord_word (m : Mem) (a : Nat) : ofWord (m.word a) = m.read a 4 := by
  have h0 := (m a).toNat_lt
  have h1 := (m (a + 1)).toNat_lt
  have h2 := (m (a + 2)).toNat_lt
  have h3 := (m (a + 3)).toNat_lt
  have byte {n : Nat} {b : UInt8} (h : n % 256 = b.toNat) : UInt8.ofNat n = b := by
    rw [← UInt8.toNat_inj, UInt8.toNat_ofNat']
    exact h
  have hword : (m.word a).toNat = (m a).toNat + 256 * (m (a + 1)).toNat + 65536 * (m (a + 2)).toNat +
      16777216 * (m (a + 3)).toNat := by
    rw [Mem.word, UInt32.toNat_ofNat']
    omega
  rw [ofWord, hword, byte (b := m a) (by omega), byte (b := m (a + 1)) (by omega), byte (b := m (a + 2)) (by omega),
    byte (b := m (a + 3)) (by omega)]
  rfl

/-- A read that starts with the bytes of a word: the word is there, and the other bytes come behind it. -/
theorem word_of_read {m : Mem} {a n : Nat} {w : UInt32} {bs : List UInt8} (h : m.read a (4 + n) = ofWord w ++ bs) :
    m.word a = w ∧ m.read (a + 4) n = bs := by
  rw [Mem.read_append] at h
  obtain ⟨hword, hrest⟩ := List.append_inj h Mem.read_length
  refine ⟨word_of_bytes fun i hi => ?_, hrest⟩
  have hget := Mem.getElem?_read (m := m) (a := a) hi
  rw [hword, List.getElem?_eq_getElem hi] at hget
  exact (Option.some.inj hget).symm

end Bytes
