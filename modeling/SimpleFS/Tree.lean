import SimpleFS.Entries
import SimpleFS.Machine.SlotTreeOps

/-! # The directory tree of a volume

The books say which inodes are nodes and of which kind, the blocks of the directories hold their slots.
The changes of books and entries that the operations make are the changes of the tree.
-/
namespace SimpleFS
open Bytes Machine SlotTree

/-- The layout of the tree: the fixed number of slots, the root and the two dot names. -/
def shape : Shape ℕ (List UInt8) := ⟨lab4DirEntryNum,lab4RootIno,dotName,dotdotName⟩

theorem dot_ne_dotdot : shape.dot ≠ shape.dotdot := by decide

/-- What a used slot binds. -/
def DirEntry.binding (d : DirEntry) : Option (List UInt8 × ℕ) :=
  if d.dFlag = lab4DirUsed then some (cstr d.dFilename,d.dIno.toNat) else none

theorem binding_of_used {d : DirEntry} (h : d.dFlag = lab4DirUsed) : d.binding = some (cstr d.dFilename,d.dIno.toNat) :=
  if_pos h

theorem binding_of_not_used {d : DirEntry} (h : d.dFlag ≠ lab4DirUsed) : d.binding = none := if_neg h

namespace Books

def kind (c : Books) (k : ℕ) : Option Kind :=
  if c.Live k then some (if (c.inode k).iType = lab4TypeFile then .file else .dir) else none

/-- The number of the block that record `k` names. -/
def block (c : Books) (k : ℕ) : ℕ := c.addr k / c.clusterSize - 4

def slot (c : Books) (f : ℕ → ℕ → DirEntry) (D i : ℕ) : Option (List UInt8 × ℕ) :=
  if c.kind D = some .dir ∧ i < lab4DirEntryNum then (f (c.block D) i).binding else none

def tree (c : Books) (f : ℕ → ℕ → DirEntry) : SlotTree ℕ (List UInt8) := ⟨c.kind,c.slot f⟩

variable {c : Books} {f : ℕ → ℕ → DirEntry} {k l b D E i : ℕ} {v : Inode} {d : DirEntry}

theorem kind_eq_none : c.kind k = none ↔ ¬c.Live k := by
  unfold kind
  split <;> simp_all

theorem kind_eq_dir (h : c.Ledger) : c.kind k = some .dir ↔ c.Live k ∧ (c.inode k).iType = lab4TypeDirectory := by
  unfold kind
  split
  · next hl =>
    rcases (h.live k hl).type with ht | ht
    · simp [ht, lab4TypeFile, lab4TypeDirectory]
    · simp [ht, hl, lab4TypeFile, lab4TypeDirectory]
  · next hl => simp [hl]

theorem kind_eq_file : c.kind k = some .file ↔ c.Live k ∧ (c.inode k).iType = lab4TypeFile := by
  unfold kind
  split
  · next hl => by_cases ht : (c.inode k).iType = lab4TypeFile <;> simp [ht, hl]
  · next hl => simp [hl]

theorem Owns.block_eq (hcs : 0 < c.clusterSize) (h : c.Owns k b) : c.block k = b := by
  have : b * c.clusterSize + 4 * c.clusterSize = (b + 4) * c.clusterSize := by ring
  rw [block, h.addr, blockAddr, this, Nat.mul_div_cancel _ hcs, Nat.add_sub_cancel]

namespace Ledger
variable (h : c.Ledger)
include h

theorem kind_root : c.kind shape.root = some .dir := (kind_eq_dir h).mpr ⟨h.live_root,h.root⟩

theorem dir_size (hD : c.kind D = some .dir) : (c.inode D).iSize = 4096 :=
  (h.live D ((kind_eq_dir h).mp hD).1).dirSize ((kind_eq_dir h).mp hD).2

/-- A directory owns its block. -/
theorem owns_dir (hD : c.kind D = some .dir) :
    c.Owns D (c.block D) ∧ c.blockAddr (c.block D) + c.clusterSize ≤ 2^31 ∧ c.dbit (c.block D) = true := by
  have hl := ((kind_eq_dir h).mp hD).1
  obtain ⟨b,ho,hle,hb⟩ := h.own D hl (by rw [h.dir_size hD]; decide)
  rw [ho.block_eq h.clusterSize_pos]
  exact ⟨ho,hle,hb⟩

theorem block_inj (hD : c.kind D = some .dir) (hE : c.kind E = some .dir) (hb : c.block D = c.block E) : D = E :=
  h.distinct D E (c.block D) (h.owns_dir hD).1 (hb ▸ (h.owns_dir hE).1)

/-- A block of another record, or one whose bit is clear, is no directory's. -/
theorem block_ne_of_owns (hk : c.Owns k b) (hD : c.kind D = some .dir) (hne : D ≠ k) : c.block D ≠ b :=
  fun hb => hne (h.distinct D k b (hb ▸ (h.owns_dir hD).1) hk)

theorem block_ne_of_clear (hb : c.dbit b = false) (hD : c.kind D = some .dir) : c.block D ≠ b := by
  rintro rfl
  rw [(h.owns_dir hD).2.2] at hb
  cases hb

end Ledger

/-! ## Changes of the entries -/

theorem putEntry_of_le (hi : lab4DirEntryNum ≤ i) : putEntry f b i d = f := by
  funext c j
  exact if_neg (by omega)

theorem fillBlock_putEntry {g : ℕ → DirEntry} (hne : l ≠ b) :
    fillBlock (putEntry f b i d) l g = putEntry (fillBlock f l g) b i d := by
  funext c j
  unfold fillBlock putEntry
  by_cases hc : c = l
  · subst hc
    simp [hne]
  · simp [hc]

theorem tree_putEntry (h : c.Ledger) (hD : c.kind D = some .dir) (hi : i < lab4DirEntryNum) :
    c.tree (putEntry f (c.block D) i d) = (c.tree f).setSlot D i d.binding := by
  have hslot : c.slot (putEntry f (c.block D) i d) = ((c.tree f).setSlot D i d.binding).slot := by
    funext E j
    by_cases he : E = D ∧ j = i
    · obtain ⟨rfl,rfl⟩ := he
      rw [slot_setSlot_self, slot, if_pos ⟨hD,hi⟩, putEntry, if_pos ⟨rfl,rfl,hi⟩]
    · rw [slot_setSlot_of_ne (by tauto)]
      change c.slot _ E j = c.slot f E j
      unfold slot
      split
      · next hE =>
        rw [putEntry, if_neg]
        rintro ⟨hb,hj,_⟩
        exact he ⟨h.block_inj hE.1 hD hb,hj⟩
      · rfl
  unfold tree
  rw [hslot]
  rfl

theorem tree_fillBlock {g : ℕ → DirEntry} (hb : ∀ D, c.kind D = some .dir → c.block D ≠ b) :
    c.tree (fillBlock f b g) = c.tree f := by
  have hslot : c.slot (fillBlock f b g) = c.slot f := by
    funext E j
    unfold slot
    split
    · next hE => rw [fillBlock, if_neg (fun hc => hb E hE.1 hc.1)]
    · rfl
  unfold tree
  rw [hslot]

/-! ## Changes of the books -/

theorem kind_congr {c' : Books} (hl : c'.Live k ↔ c.Live k) (ht : (c'.inode k).iType = (c.inode k).iType) :
    c'.kind k = c.kind k := by
  unfold kind
  simp only [hl, ht]

theorem slot_congr {c' : Books} (hk : c'.kind D = c.kind D) (hb : c'.block D = c.block D) : c'.slot f D = c.slot f D := by
  funext i
  unfold slot
  rw [hk, hb]

/-- Storing a record with the old type and block. -/
theorem tree_store (ht : v.iType = (c.inode k).iType) (hb : v.iBlocks 0 = (c.inode k).iBlocks 0) :
    (c.store k v).tree f = c.tree f := by
  have hkind : (c.store k v).kind = c.kind := by
    funext l
    refine kind_congr Iff.rfl ?_
    by_cases hl : l = k
    · rw [hl, store_self, ht]
    · rw [store_of_ne hl]
  have hblock : ∀ l, (c.store k v).block l = c.block l := by
    intro l
    unfold block addr
    by_cases hl : l = k
    · rw [hl, store_self, hb]
      rfl
    · rw [store_of_ne hl]
      rfl
  unfold tree
  rw [hkind, show (c.store k v).slot f = c.slot f from funext fun l => slot_congr (congrFun hkind l) (hblock l)]

theorem tree_relink (g : UInt32 → UInt32) : (c.relink g k).tree f = c.tree f := tree_store rfl rfl

theorem kind_take (hk2 : 2 ≤ k) (hk : k < c.num) :
    (c.take k v).kind = Function.update c.kind k (some (if v.iType = lab4TypeFile then .file else .dir)) := by
  funext l
  by_cases hl : l = k
  · subst hl
    rw [Function.update_self, kind, if_pos (live_take.mpr (.inl ⟨rfl,hk2,hk⟩))]
    rw [show (c.take l v).inode l = v from store_self]
  · rw [Function.update_of_ne hl]
    refine kind_congr ?_ ?_
    · rw [live_take]
      simp [hl]
    · rw [show (c.take k v).inode l = c.inode l from store_of_ne hl]

theorem block_take (hl : l ≠ k) : (c.take k v).block l = c.block l := by
  unfold block addr
  rw [show (c.take k v).inode l = c.inode l from store_of_ne hl]
  rfl

theorem tree_take_file (hk2 : 2 ≤ k) (hk : k < c.num) (hv : v.iType = lab4TypeFile) (p : ℕ) :
    (c.take k v).tree f = newNode shape (c.tree f) .file k p := by
  have hkind : (c.take k v).kind = Function.update c.kind k (some .file) := by
    rw [kind_take hk2 hk, if_pos hv]
  have hslot : (c.take k v).slot f = Function.update (c.slot f) k (fun _ => none) := by
    funext l
    by_cases hl : l = k
    · subst hl
      rw [Function.update_self]
      funext i
      rw [slot, if_neg]
      rw [hkind, Function.update_self]
      simp
    · rw [Function.update_of_ne hl]
      exact slot_congr (by rw [hkind, Function.update_of_ne hl]) (block_take hl)
  unfold tree
  rw [hkind, hslot]
  rfl

theorem tree_release : (c.release k).tree f = (c.tree f).setNode k none (fun _ => none) := by
  have hkind : (c.release k).kind = Function.update c.kind k none := by
    funext l
    by_cases hl : l = k
    · subst hl
      rw [Function.update_self, kind_eq_none, live_release]
      simp
    · rw [Function.update_of_ne hl]
      refine kind_congr ?_ ?_
      · rw [live_release]
        simp [hl]
      · rw [show (c.release k).inode l = c.inode l from store_of_ne hl]
  have hslot : (c.release k).slot f = Function.update (c.slot f) k (fun _ => none) := by
    funext l
    by_cases hl : l = k
    · subst hl
      rw [Function.update_self]
      funext i
      rw [slot, if_neg]
      rw [hkind, Function.update_self]
      simp
    · rw [Function.update_of_ne hl]
      refine slot_congr (by rw [hkind, Function.update_of_ne hl]) ?_
      unfold block addr
      rw [show (c.release k).inode l = c.inode l from store_of_ne hl]
      rfl
  unfold tree
  rw [hkind, hslot]
  rfl

/-- The slots of a new directory's block. -/
theorem newDirArea_binding {p : ℕ} (hk : k < 2^32) (hp : p < 2^32) (hi : i < lab4DirEntryNum) :
    (entryAt (newDirArea (UInt32.ofNat k) (UInt32.ofNat p)) i).binding = freshDir shape k p i := by
  have hbind : ∀ (q : ℕ) (x : List UInt8), q < 2^32 → x.length < fnameSize → (0 : UInt8) ∉ x →
      (DirEntry.used (UInt32.ofNat q) 0 x).binding = some (x,q) := by
    intro q x hq hlen hnul
    rw [binding_of_used rfl]
    simp only [DirEntry.used, cstr_strcpyName hlen hnul, UInt32.toNat_ofNat_of_lt' hq]
  unfold entryAt newDirArea
  match i with
  | 0 =>
    rw [dirEntryCodec.get_put_of_disjoint (.inl (by decide))]
    exact (congrArg _ dirEntryCodec.get_put_self).trans (hbind k dotName hk (by decide) (by decide))
  | 1 => exact (congrArg _ dirEntryCodec.get_put_self).trans (hbind p dotdotName hp (by decide) (by decide))
  | i + 2 =>
    rw [dirEntryCodec.get_put_of_disjoint (.inr (by simp [lab4DirEntrySize]; omega)),
      dirEntryCodec.get_put_of_disjoint (.inr (by simp [lab4DirEntrySize])), get_zeros]
    rfl

theorem tree_take_dir {g : ℕ → DirEntry} {p : ℕ} (h : c.Ledger) (hk2 : 2 ≤ k) (hk : k < c.num)
    (hv : v.iType = lab4TypeDirectory) (haddr : (v.iBlocks 0).toNat = c.blockAddr b) (hb : c.dbit b = false)
    (hg : ∀ i < lab4DirEntryNum, (g i).binding = freshDir shape k p i) :
    (c.take k v).tree (fillBlock f b g) = newNode shape (c.tree f) .dir k p := by
  have hkind : (c.take k v).kind = Function.update c.kind k (some .dir) := by
    rw [kind_take hk2 hk, if_neg (by rw [hv]; decide)]
  have hblock : (c.take k v).block k = b := by
    have : b * c.clusterSize + 4 * c.clusterSize = (b + 4) * c.clusterSize := by ring
    unfold block addr
    rw [show (c.take k v).inode k = v from store_self, haddr, blockAddr, this]
    exact congrArg (· - 4) (Nat.mul_div_cancel _ h.clusterSize_pos)
  have hslot : (c.take k v).slot (fillBlock f b g) = Function.update (c.slot f) k (freshDir shape k p) := by
    funext l
    by_cases hl : l = k
    · subst hl
      rw [Function.update_self]
      funext i
      unfold slot
      split
      · next hi => rw [hblock, fillBlock, if_pos ⟨rfl,hi.2⟩, hg i hi.2]
      · next hi =>
        rw [hkind, Function.update_self] at hi
        have hi' : lab4DirEntryNum ≤ i := by
          by_contra hn
          exact hi ⟨rfl,by omega⟩
        obtain ⟨n,rfl⟩ : ∃ n, i = n + 2 := ⟨i - 2,by unfold lab4DirEntryNum lab4DirEntrySize at hi'; omega⟩
        rfl
    · rw [Function.update_of_ne hl]
      funext i
      have hk' : (c.take k v).kind l = c.kind l := by rw [hkind, Function.update_of_ne hl]
      rw [congrFun (slot_congr hk' (block_take hl)) i]
      unfold slot
      split
      · next hi => rw [fillBlock, if_neg (fun hc => h.block_ne_of_clear hb hi.1 hc.1)]
      · rfl
  unfold tree
  rw [hkind, hslot]
  rfl

end Books

/-- The directory tree. -/
def Iom.tree (m : Iom) : SlotTree ℕ (List UInt8) := m.books.tree m.entries

end SimpleFS
