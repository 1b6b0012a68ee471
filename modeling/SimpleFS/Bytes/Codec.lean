import SimpleFS.Bytes.Memory

/-! # Fixed-size codecs

A codec lays a value out in a fixed number of bytes so that every value is read back and every byte
string of that length is the image of a value. Both directions matter here: the first one says that
a stored record is found again, the second one that a buffer written to a device and decoded later
has not lost a single byte, padding included. Codecs of records are assembled from those of their
fields by `pair`, `array` and `map`.
-/
namespace SimpleFS.Bytes

structure Codec (α : Type) where
  size : ℕ
  enc : α → Mem
  dec : Mem → α
  dec_of_agree : ∀ v m, Agree 0 size m (enc v) → dec m = v
  enc_dec : ∀ m i, i < size → enc (dec m) i = m i

namespace Codec
variable {α β : Type}

/-- Decoding looks at the first `size` bytes only. -/
theorem dec_congr (c : Codec α) {m m' : Mem} (h : Agree 0 c.size m m') : c.dec m = c.dec m' :=
  c.dec_of_agree _ _ (fun i hi hi' => (h i hi hi').trans (c.enc_dec m' i (by omega)).symm)

@[simp] theorem dec_enc (c : Codec α) (v : α) : c.dec (c.enc v) = v := c.dec_of_agree v _ (Agree.refl _ _ _)

/-- The value stored at address `a`. -/
def get (c : Codec α) (m : Mem) (a : ℕ) : α := c.dec (m.shift a)

/-- The memory with `v` stored at address `a`. -/
def put (c : Codec α) (m : Mem) (a : ℕ) (v : α) : Mem := splice m a c.size (c.enc v)

variable (c : Codec α) {m m' d : Mem} {a b n : ℕ} {v : α}

theorem get_congr (h : Agree a c.size m m') : c.get m a = c.get m' a :=
  c.dec_congr (fun i _ hi => h (a + i) (by omega) (by omega))

theorem get_shift (m : Mem) (a b : ℕ) : c.get (m.shift a) b = c.get m (a + b) :=
  c.dec_congr (fun i _ _ => by rw [Mem.shift_apply, Mem.shift_apply, Mem.shift_apply, Nat.add_assoc])

/-- Zero bytes hold what fresh memory holds. -/
theorem get_of_zero (h : ∀ i < c.size, m (a + i) = 0) : c.get m a = c.get zeros 0 :=
  c.dec_congr (fun i _ hi => h i (by omega))

@[simp] theorem get_put_self : c.get (c.put m a v) a = v :=
  c.dec_of_agree _ _ agree_splice_self

theorem get_splice_of_disjoint (h : b + c.size ≤ a ∨ a + n ≤ b) : c.get (splice m a n d) b = c.get m b :=
  c.get_congr (agree_splice_of_disjoint h)

/-- A record that lies wholly inside a written window is the one the written data holds there. -/
theorem get_splice_inside (h : a ≤ b) (h' : b + c.size ≤ a + n) :
    c.get (splice m a n d) b = c.get d (b - a) := by
  apply c.dec_congr
  intro i _ hi
  rw [Mem.shift_apply, Mem.shift_apply, splice_inside (by omega) (by omega), Nat.sub_add_comm h]

theorem get_put_of_disjoint (h : b + c.size ≤ a ∨ a + c.size ≤ b) : c.get (c.put m a v) b = c.get m b :=
  c.get_splice_of_disjoint h

theorem put_put {w : α} : c.put (c.put m a v) a w = c.put m a w := splice_splice

/-- Records of one array do not overlap: a write to one element leaves the others. -/
theorem get_put_elem (k j : ℕ) :
    c.get (c.put m (k * c.size) v) (j * c.size) = if j = k then v else c.get m (j * c.size) := by
  split
  · next h => rw [h, get_put_self]
  · next h =>
    have hstep : ∀ {p q : ℕ}, p < q → p * c.size + c.size ≤ q * c.size := by
      intro p q hpq
      have h := Nat.mul_le_mul_right c.size (Nat.succ_le_of_lt hpq)
      rwa [Nat.succ_mul] at h
    apply c.get_put_of_disjoint
    exact (Nat.lt_or_gt_of_ne h).imp hstep hstep

end Codec

section LittleEndian

/-- Byte `i` of `v`, least significant first. -/
def leByte (v i : ℕ) : UInt8 := UInt8.ofNat (v / 256 ^ i)

/-- The number held by the first `w` bytes, least significant first. -/
def leNat : ℕ → Mem → ℕ
  | 0, _ => 0
  | w + 1, m => (m 0).toNat + 256 * leNat w (m.shift 1)

theorem leNat_lt (w : ℕ) (m : Mem) : leNat w m < 256 ^ w := by
  induction w generalizing m with
  | zero => simp [leNat]
  | succ w ih =>
    have h := ih (m.shift 1)
    have hb := (m 0).toNat_lt
    rw [leNat, pow_succ]
    omega

theorem leNat_congr {w : ℕ} {m m' : Mem} (h : Agree 0 w m m') : leNat w m = leNat w m' := by
  induction w generalizing m m' with
  | zero => rfl
  | succ w ih =>
    have hs : leNat w (m.shift 1) = leNat w (m'.shift 1) :=
      ih (fun i _ hi => h (1 + i) (by omega) (by omega))
    rw [leNat, leNat, h 0 (by omega) (by omega), hs]

theorem leByte_succ (v i : ℕ) : leByte v (i + 1) = leByte (v / 256) i := by
  rw [leByte, leByte, pow_succ', Nat.div_div_eq_div_mul]

theorem leByte_zero_add (b : UInt8) (v : ℕ) : leByte (b.toNat + 256 * v) 0 = b := by
  apply UInt8.toNat_inj.mp
  have hb := b.toNat_lt
  simp only [leByte, pow_zero, Nat.div_one, UInt8.toNat_ofNat']
  omega

theorem leByte_leNat {w : ℕ} {m : Mem} {i : ℕ} (h : i < w) : leByte (leNat w m) i = m i := by
  induction w generalizing m i with
  | zero => omega
  | succ w ih =>
    cases i with
    | zero => exact leByte_zero_add (m 0) _
    | succ i =>
      have hb := (m 0).toNat_lt
      rw [leByte_succ, leNat, show ((m 0).toNat + 256 * leNat w (m.shift 1)) / 256 = leNat w (m.shift 1) by omega,
        ih (by omega), Mem.shift_apply, Nat.add_comm]

theorem leNat_leByte (w v : ℕ) : leNat w (leByte v) = v % 256 ^ w := by
  induction w generalizing v with
  | zero => simp [leNat, Nat.mod_one]
  | succ w ih =>
    have hs : Mem.shift (leByte v) 1 = leByte (v / 256) := by
      funext i
      rw [Mem.shift_apply, Nat.add_comm, leByte_succ]
    have h0 : (leByte v 0).toNat = v % 256 := by simp [leByte]
    rw [leNat, hs, ih, h0, pow_succ', Nat.mod_mul]

/-- A `w`-byte little-endian integer type, given by its value map and the inverse on the range. -/
def Codec.le {α : Type} (w : ℕ) (toNat : α → ℕ) (ofNat : ℕ → α) (hlt : ∀ v, toNat v < 256 ^ w)
    (hof : ∀ v, ofNat (toNat v) = v) (hto : ∀ n < 256 ^ w, toNat (ofNat n) = n) : Codec α where
  size := w
  enc v := leByte (toNat v)
  dec m := ofNat (leNat w m)
  dec_of_agree v m h := by
    rw [leNat_congr h, leNat_leByte, Nat.mod_eq_of_lt (hlt v), hof]
  enc_dec m i hi := by
    rw [hto _ (leNat_lt w m), leByte_leNat hi]

end LittleEndian

namespace Codec
variable {α β : Type}

/-- Two values one after the other. -/
def pair (c : Codec α) (d : Codec β) : Codec (α × β) where
  size := c.size + d.size
  enc p i := if i < c.size then c.enc p.1 i else d.enc p.2 (i - c.size)
  dec m := (c.dec m, d.dec (m.shift c.size))
  dec_of_agree v m h := by
    refine Prod.ext (c.dec_of_agree _ _ ?_) (d.dec_of_agree _ _ ?_)
    · intro i hi hi'
      exact (h i hi (by omega)).trans (if_pos (by omega))
    · intro i hi hi'
      have hd := (h (c.size + i) (by omega) (by omega)).trans (if_neg (by omega))
      rwa [Nat.add_sub_cancel_left] at hd
  enc_dec m i hi := by
    dsimp only
    split
    · next h => exact c.enc_dec m i h
    · next h =>
      rw [d.enc_dec _ _ (by omega), Mem.shift_apply]
      congr 1
      omega

/-- `n` values one after the other. -/
def array (c : Codec α) (n : ℕ) : Codec (Fin n → α) where
  size := n * c.size
  enc f i := if h : i / c.size < n then c.enc (f ⟨i / c.size,h⟩) (i % c.size) else 0
  dec m k := c.dec (m.shift (k.val * c.size))
  dec_of_agree v m h := by
    funext k
    apply c.dec_of_agree
    intro i _ hi
    have hpos : 0 < c.size := by omega
    have hk : k.val * c.size + i < n * c.size := by
      have := Nat.mul_le_mul_right c.size (Nat.succ_le_of_lt k.isLt)
      rw [Nat.succ_mul] at this
      omega
    have hq : (k.val * c.size + i) / c.size = k.val := by
      rw [Nat.add_comm, Nat.add_mul_div_right _ _ hpos, Nat.div_eq_of_lt (by omega), Nat.zero_add]
    have hr : (k.val * c.size + i) % c.size = i := by
      rw [Nat.add_comm, Nat.add_mul_mod_self_right, Nat.mod_eq_of_lt (by omega)]
    rw [Mem.shift_apply, h _ (by omega) (by omega)]
    simp only [hq, hr, k.isLt, ↓reduceDIte]
  enc_dec m i hi := by
    have hpos : 0 < c.size := Nat.pos_of_ne_zero (by rintro h; rw [h] at hi; omega)
    have hq : i / c.size < n := (Nat.div_lt_iff_lt_mul hpos).mpr hi
    rw [dif_pos hq, c.enc_dec _ _ (Nat.mod_lt _ hpos), Mem.shift_apply, Nat.div_add_mod']

/-- The same layout read as another type. -/
def map (c : Codec α) (e : α ≃ β) : Codec β where
  size := c.size
  enc v := c.enc (e.symm v)
  dec m := e (c.dec m)
  dec_of_agree v m h := by rw [c.dec_of_agree _ _ h, Equiv.apply_symm_apply]
  enc_dec m i hi := by rw [Equiv.symm_apply_apply, c.enc_dec m i hi]

end Codec

end SimpleFS.Bytes
