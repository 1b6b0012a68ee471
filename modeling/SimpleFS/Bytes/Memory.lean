import Mathlib.Logic.Equiv.Basic
import Mathlib.Data.Nat.Bitwise
import Mathlib.Tactic.Ring

/-! # Byte memories and window writes

A memory is a byte for every address. A window write replaces the bytes of one address range and
leaves every other byte alone; all frame reasoning about buffers and devices is a case split on
whether an address lies inside the window.
-/
namespace SimpleFS.Bytes

/-- A byte for every address. A buffer of `n` bytes is such a function of which only the first `n`
values are looked at. -/
abbrev Mem := ℕ → UInt8

/-- The memory seen from address `a` on. -/
def Mem.shift (m : Mem) (a : ℕ) : Mem := fun i => m (a + i)

@[simp] theorem Mem.shift_apply (m : Mem) (a i : ℕ) : m.shift a i = m (a + i) := rfl

/-- The all-zero memory, what `memset(buf, 0, size)` leaves. -/
def zeros : Mem := fun _ => 0

@[simp] theorem zeros_apply (i : ℕ) : zeros i = 0 := rfl

/-- `splice m a n d` is `m` with the `n` bytes from address `a` on replaced by those of `d`. -/
def splice (m : Mem) (a n : ℕ) (d : Mem) : Mem :=
  fun i => if a ≤ i ∧ i < a + n then d (i - a) else m i

variable {m m' d : Mem} {a b n i : ℕ}

theorem splice_inside (h : a ≤ i) (h' : i < a + n) : splice m a n d i = d (i - a) := if_pos ⟨h,h'⟩

theorem splice_outside (h : i < a ∨ a + n ≤ i) : splice m a n d i = m i := if_neg (by omega)

theorem splice_shift (h : i < n) : splice m a n d (a + i) = d i := by
  rw [splice_inside (Nat.le_add_right a i) (by omega), Nat.add_sub_cancel_left]

@[simp] theorem splice_size_zero : splice m a 0 d = m := by
  funext i
  exact splice_outside (by omega)

/-- A second write to the same window covers the first. -/
theorem splice_splice {d' : Mem} : splice (splice m a n d) a n d' = splice m a n d' := by
  funext i
  unfold splice
  split <;> rfl

/-- Writes to windows that do not meet commute. -/
theorem splice_comm {k : ℕ} {d' : Mem} (h : a + n ≤ b ∨ b + k ≤ a) :
    splice (splice m a n d) b k d' = splice (splice m b k d') a n d := by
  funext i
  by_cases ha : a ≤ i ∧ i < a + n
  · rw [splice_outside (by omega), splice_inside ha.1 ha.2, splice_inside ha.1 ha.2]
  · rw [splice_outside (m := splice m b k d') (by omega)]
    unfold splice
    rw [if_neg ha]

/-- Two memories agree on the `n` bytes from `a` on. -/
def Agree (a n : ℕ) (m m' : Mem) : Prop := ∀ i, a ≤ i → i < a + n → m i = m' i

theorem Agree.refl (a n : ℕ) (m : Mem) : Agree a n m m := fun _ _ _ => rfl

theorem Agree.symm (h : Agree a n m m') : Agree a n m' m := fun i hi hi' => (h i hi hi').symm

theorem Agree.trans {m'' : Mem} (h : Agree a n m m') (h' : Agree a n m' m'') : Agree a n m m'' :=
  fun i hi hi' => (h i hi hi').trans (h' i hi hi')

theorem Agree.mono {k : ℕ} (h : Agree a n m m') (hb : a ≤ b) (hk : b + k ≤ a + n) : Agree b k m m' :=
  fun i hi hi' => h i (by omega) (by omega)

/-- A window write changes nothing on a range that the window misses. -/
theorem agree_splice_of_disjoint {k : ℕ} (h : b + k ≤ a ∨ a + n ≤ b) : Agree b k (splice m a n d) m :=
  fun i hi hi' => splice_outside (by omega)

/-- The window itself holds exactly what was written. -/
theorem agree_splice_self : Agree 0 n ((splice m a n d).shift a) d := by
  intro i _ hi
  simpa using splice_shift (by omega)

/-! ## Copies -/

/-- `count` bytes are copied to the start of a buffer of `cap` bytes. -/
structure Copy where
  cap : ℕ
  count : ℕ

/-- Every byte has an index inside the buffer. -/
def Copy.Inside (w : Copy) : Prop := ∀ i, i < w.count → i < w.cap

theorem Copy.inside_iff {w : Copy} : w.Inside ↔ w.count ≤ w.cap := by
  constructor
  · intro h
    by_contra hn
    exact Nat.lt_irrefl _ (h w.cap (Nat.not_le.mp hn))
  · exact fun h i hi => hi.trans_le h

/-- A zeroed buffer of which the copy leaves a byte. -/
def Copy.Terminated (w : Copy) : Prop := w.count < w.cap

/-! ## The start of a memory as a list -/

def Mem.take (m : Mem) (n : ℕ) : List UInt8 := (List.range n).map m

theorem Mem.length_take : (m.take n).length = n := by
  unfold Mem.take
  rw [List.length_map, List.length_range]

theorem Mem.take_congr (h : ∀ i < n, m i = m' i) : m.take n = m'.take n :=
  List.map_congr_left (fun i hi => h i (List.mem_range.mp hi))

theorem Mem.take_add : m.take (a + n) = m.take a ++ (m.shift a).take n := by
  unfold Mem.take
  rw [List.range_add, List.map_append, List.map_map]
  rfl

theorem Mem.take_succ : m.take (n + 1) = m 0 :: (m.shift 1).take n := by
  rw [Nat.add_comm, Mem.take_add]
  rfl

/-- A window behind `a` bytes. -/
theorem Mem.take_splice : Mem.take (splice m a n d) (a + n) = m.take a ++ d.take n := by
  rw [Mem.take_add]
  refine congrArg₂ _ (Mem.take_congr (fun i hi => splice_outside (by omega))) (Mem.take_congr (fun i hi => splice_shift hi))

/-- A buffer with these bytes. -/
def Mem.ofList (l : List UInt8) : Mem := fun i => l.getD i 0

theorem Mem.ofList_apply {l : List UInt8} (hi : i < l.length) : Mem.ofList l i = l[i] := List.getD_eq_getElem l 0 hi

theorem Mem.getElem_take {h : i < (m.take n).length} : (m.take n)[i] = m i :=
  (List.getElem_map m).trans (congrArg m (List.getElem_range _))

theorem Mem.take_ofList {l : List UInt8} (h : n ≤ l.length) : (Mem.ofList l).take n = l.take n := by
  refine List.ext_getElem (by rw [Mem.length_take, List.length_take, Nat.min_eq_left h]) (fun i hi hi' => ?_)
  have hin : i < n := by rwa [Mem.length_take] at hi
  rw [Mem.getElem_take, List.getElem_take]
  exact Mem.ofList_apply (by omega)

end SimpleFS.Bytes
