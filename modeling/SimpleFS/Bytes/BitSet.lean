import SimpleFS.Bytes.Memory
import Mathlib.Data.Nat.Count
import Mathlib.Data.Set.Insert
import Mathlib.Tactic.IntervalCases

/-! # Byte memories as sets of bit numbers

Bit `i` of a memory is bit `i % 8` of byte `i / 8`. Every bit number has its own place, so setting or
clearing one bit is insertion into or removal from the set of bits that are on, and the set says all.
-/
namespace SimpleFS.Bytes

def bit (m : Mem) (i : ℕ) : Bool := (m (i / 8)).toNat.testBit (i % 8)

/-- The mask of bit `i` inside its byte. -/
def bitMask (i : ℕ) : UInt8 := UInt8.ofNat (2 ^ (i % 8))

def setBit (m : Mem) (i : ℕ) : Mem := Function.update m (i / 8) (m (i / 8) ||| bitMask i)
def clearBit (m : Mem) (i : ℕ) : Mem := Function.update m (i / 8) (m (i / 8) &&& ~~~bitMask i)

theorem bitMask_toNat (i : ℕ) : (bitMask i).toNat = 2 ^ (i % 8) := by
  have h : 2 ^ (i % 8) < 2 ^ 8 := Nat.pow_lt_pow_right (by omega) (Nat.mod_lt _ (by omega))
  rw [bitMask, UInt8.toNat_ofNat', Nat.mod_eq_of_lt h]

variable {m m' : Mem} {i j n : ℕ}

theorem bit_setBit : bit (setBit m i) j = (decide (j = i) || bit m j) := by
  unfold bit setBit
  by_cases hq : j / 8 = i / 8
  · rw [hq, Function.update_self, UInt8.toNat_or, Nat.testBit_or, bitMask_toNat, Nat.testBit_two_pow]
    have he : (i % 8 = j % 8) ↔ j = i := by omega
    simp only [he, Bool.or_comm]
  · rw [Function.update_of_ne hq]
    have hne : j ≠ i := fun h => hq (by rw [h])
    simp [hne]

theorem testBit_not (b : UInt8) {k : ℕ} (hk : k < 8) : (~~~b).toNat.testBit k = !b.toNat.testBit k := by
  rw [UInt8.toNat_not]
  have hb := b.toNat_lt
  have := Nat.testBit_two_pow_sub_succ hb k
  rw [show UInt8.size - 1 - b.toNat = 2 ^ 8 - (b.toNat + 1) by simp only [UInt8.size]; omega, this]
  simp [hk]

theorem bit_clearBit : bit (clearBit m i) j = (decide (j ≠ i) && bit m j) := by
  unfold bit clearBit
  by_cases hq : j / 8 = i / 8
  · rw [hq, Function.update_self, UInt8.toNat_and, Nat.testBit_and, testBit_not _ (Nat.mod_lt _ (by omega)),
      bitMask_toNat, Nat.testBit_two_pow]
    have he : (i % 8 = j % 8) ↔ j = i := by omega
    simp only [he, Bool.and_comm, decide_not]
  · rw [Function.update_of_ne hq]
    have hne : j ≠ i := fun h => hq (by rw [h])
    simp [hne]

@[simp] theorem bit_setBit_self : bit (setBit m i) i = true := by simp [bit_setBit]
@[simp] theorem bit_clearBit_self : bit (clearBit m i) i = false := by simp [bit_clearBit]
theorem bit_setBit_of_ne (h : j ≠ i) : bit (setBit m i) j = bit m j := by simp [bit_setBit, h]
theorem bit_clearBit_of_ne (h : j ≠ i) : bit (clearBit m i) j = bit m j := by simp [bit_clearBit, h]

/-! ## The set of bits that are on -/

def bits (m : Mem) : Set ℕ := {i | bit m i = true}

theorem mem_bits : i ∈ bits m ↔ bit m i = true := Iff.rfl

instance : Decidable (i ∈ bits m) := decidable_of_iff _ mem_bits.symm

/-- A byte is the set of its bits. -/
theorem byte_ext {a b : UInt8} (h : ∀ k < 8, a.toNat.testBit k = b.toNat.testBit k) : a = b := by
  have hout : ∀ (c : UInt8) (k : ℕ), 8 ≤ k → c.toNat.testBit k = false := fun c k hk =>
    Nat.testBit_lt_two_pow (lt_of_lt_of_le c.toNat_lt (Nat.pow_le_pow_right (by omega) hk))
  apply UInt8.toNat_inj.mp
  apply Nat.eq_of_testBit_eq
  intro k
  rcases Nat.lt_or_ge k 8 with hk | hk
  · exact h k hk
  · rw [hout a k hk, hout b k hk]

theorem bits_injective : Function.Injective bits := by
  intro m m' h
  funext a
  refine byte_ext (fun k hk => ?_)
  have hmem : 8 * a + k ∈ bits m ↔ 8 * a + k ∈ bits m' := by rw [h]
  have hdiv : (8 * a + k) / 8 = a := by omega
  have hmod : (8 * a + k) % 8 = k := by omega
  rw [mem_bits, mem_bits, bit, bit, hdiv, hmod] at hmem
  exact Bool.eq_iff_iff.mpr hmem

theorem bits_setBit : bits (setBit m i) = insert i (bits m) := by
  ext j
  simp [mem_bits, bit_setBit]

theorem bits_clearBit : bits (clearBit m i) = bits m \ {i} := by
  ext j
  simp [mem_bits, bit_clearBit, and_comm]

theorem clearBit_comm (m : Mem) (i j : ℕ) : clearBit (clearBit m i) j = clearBit (clearBit m j) i := by
  apply bits_injective
  rw [bits_clearBit, bits_clearBit, bits_clearBit, bits_clearBit, Set.sdiff_sdiff_comm]

theorem clearBit_setBit_self (h : bit m i = false) : clearBit (setBit m i) i = m := by
  have hi : i ∉ bits m := fun hn => by cases h.symm.trans hn
  apply bits_injective
  rw [bits_clearBit, bits_setBit, Set.insert_sdiff_self_of_notMem hi]

@[simp] theorem bit_zeros : bit zeros i = false := by simp [bit]

/-- The number of clear bits below `n`. -/
def clearCount (n : ℕ) (m : Mem) : ℕ := Nat.count (fun i => bit m i = false) n

theorem clearCount_congr (h : ∀ i < n, bit m i = bit m' i) : clearCount n m = clearCount n m' := by
  unfold clearCount
  rw [Nat.count_eq_card_filter_range, Nat.count_eq_card_filter_range]
  congr 1
  apply Finset.filter_congr
  intro i hi
  rw [h i (Finset.mem_range.mp hi)]

theorem clearCount_le : clearCount n m ≤ n := Nat.count_le _

/-- Setting a clear bit below `n` takes one from the count. -/
theorem clearCount_setBit (hi : i < n) (h : bit m i = false) : clearCount n (setBit m i) + 1 = clearCount n m := by
  unfold clearCount
  rw [Nat.count_eq_card_filter_range, Nat.count_eq_card_filter_range]
  have hm : i ∈ (Finset.range n).filter (fun i => bit m i = false) := by simp [hi, h]
  rw [← Finset.card_erase_add_one hm]
  congr 2
  ext j
  by_cases hj : j = i
  · simp [hj]
  · simp [hj, bit_setBit_of_ne hj]

/-- A set bit below `n` is not counted. -/
theorem clearCount_lt (hi : i < n) (h : bit m i = true) : clearCount n m < n := by
  have hcount := clearCount_setBit (m := clearBit m i) hi bit_clearBit_self
  have hsame : clearCount n (setBit (clearBit m i) i) = clearCount n m := clearCount_congr (fun j _ => by
    by_cases hj : j = i
    · simp [hj, h]
    · rw [bit_setBit_of_ne hj, bit_clearBit_of_ne hj])
  have hle := clearCount_le (n := n) (m := clearBit m i)
  omega

/-- Clearing a bit adds one at most, whatever its number and its old value. -/
theorem clearCount_clearBit_le : clearCount n (clearBit m i) ≤ clearCount n m + 1 := by
  unfold clearCount
  rw [Nat.count_eq_card_filter_range, Nat.count_eq_card_filter_range]
  refine (Finset.card_le_card ?_).trans (Finset.card_insert_le i _)
  intro j hj
  rw [Finset.mem_filter] at hj
  by_cases hji : j = i
  · exact hji ▸ Finset.mem_insert_self _ _
  · rw [bit_clearBit_of_ne hji] at hj
    exact Finset.mem_insert_of_mem (Finset.mem_filter.mpr hj)

end SimpleFS.Bytes
