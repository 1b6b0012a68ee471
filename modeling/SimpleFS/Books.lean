import SimpleFS.Remove
import SimpleFS.Write

/-! # The books: bitmaps and inode records

The part of the io manager that says which inodes and blocks are in use. Every operation changes it by
taking or releasing an inode, owning or giving up a block, or storing a record, and the ledger is what
these changes preserve: live records are sound, free ones are clear, and no two own one block.
-/
namespace SimpleFS
open Bytes

structure Books where
  clusterSize : ℕ
  inode : ℕ → Inode
  ibit : ℕ → Bool
  dbit : ℕ → Bool

def Iom.books (m : Iom) : Books := ⟨m.clusterSize,m.inode,m.ibit,m.dbit⟩

namespace Books

def num (c : Books) : ℕ := c.clusterSize / lab4InodeEntrySize
def addr (c : Books) (k : ℕ) : ℕ := ((c.inode k).iBlocks 0).toNat
def blockAddr (c : Books) (b : ℕ) : ℕ := b * c.clusterSize + 4 * c.clusterSize

/-- Inode `k` is in use: the root or a number behind it with its bit set. -/
def Live (c : Books) (k : ℕ) : Prop := 2 ≤ k ∧ k < c.num ∧ c.ibit k = true

instance (c : Books) (k : ℕ) : Decidable (c.Live k) := inferInstanceAs (Decidable (_ ∧ _ ∧ _))

/-- Inode `k` owns block `b`. -/
structure Owns (c : Books) (k b : ℕ) : Prop where
  live : c.Live k
  size : (c.inode k).iSize ≠ 0
  addr : c.addr k = c.blockAddr b

/-! ## Changes -/

def store (c : Books) (k : ℕ) (v : Inode) : Books := { c with inode := Function.update c.inode k v }
def take (c : Books) (k : ℕ) (v : Inode) : Books := { c.store k v with ibit := Function.update c.ibit k true }
def release (c : Books) (k : ℕ) : Books := { c.store k Inode.zero with ibit := Function.update c.ibit k false }
def withDbit (c : Books) (d : ℕ → Bool) : Books := ⟨c.clusterSize,c.inode,c.ibit,d⟩
def own (c : Books) (b : ℕ) : Books := c.withDbit (Function.update c.dbit b true)
def disown (c : Books) (b : ℕ) : Books := c.withDbit (Function.update c.dbit b false)
def relink (c : Books) (f : UInt32 → UInt32) (k : ℕ) : Books :=
  c.store k { c.inode k with iLinksCount := f (c.inode k).iLinksCount }

variable {c : Books} {k b : ℕ} {v : Inode}

/-- Releasing an inode right after it was taken leaves the books as they were, if its record was zero. -/
theorem release_take (hbit : c.ibit k = false) (hz : c.inode k = Inode.zero) : (c.take k v).release k = c := by
  have hin : Function.update (Function.update c.inode k v) k Inode.zero = c.inode := by
    rw [Function.update_idem, ← hz, Function.update_eq_self]
  have hib : Function.update (Function.update c.ibit k true) k false = c.ibit := by
    rw [Function.update_idem, ← hbit, Function.update_eq_self]
  show (⟨c.clusterSize,Function.update (Function.update c.inode k v) k Inode.zero,
    Function.update (Function.update c.ibit k true) k false,c.dbit⟩ : Books) = c
  rw [hin, hib]

theorem disown_own (hbit : c.dbit b = false) : (c.own b).disown b = c := by
  have hd : Function.update (Function.update c.dbit b true) b false = c.dbit := by
    rw [Function.update_idem, ← hbit, Function.update_eq_self]
  show (⟨c.clusterSize,c.inode,c.ibit,Function.update (Function.update c.dbit b true) b false⟩ : Books) = c
  rw [hd]

theorem store_take {w : Inode} : (c.take k v).store k w = c.take k w := by
  show (⟨c.clusterSize,Function.update (Function.update c.inode k v) k w,Function.update c.ibit k true,c.dbit⟩ : Books) = _
  rw [Function.update_idem]
  rfl

/-- A link that is counted and uncounted again. -/
theorem relink_relink {f g : UInt32 → UInt32} (hfg : ∀ n, g (f n) = n) : (c.relink f k).relink g k = c := by
  have hself : (Function.update c.inode k { c.inode k with iLinksCount := f (c.inode k).iLinksCount }) k =
      { c.inode k with iLinksCount := f (c.inode k).iLinksCount } := Function.update_self ..
  unfold relink store
  dsimp only
  rw [hself]
  dsimp only
  rw [hfg, Function.update_idem]
  exact congrArg (fun i => (⟨c.clusterSize,i,c.ibit,c.dbit⟩ : Books)) (Function.update_eq_self k c.inode)

theorem release_relink {f : UInt32 → UInt32} {l : ℕ} (hne : l ≠ k) :
    (c.relink f l).release k = (c.release k).relink f l := by
  have hl : (c.release k).inode l = c.inode l := Function.update_of_ne hne _ _
  unfold relink
  rw [hl]
  exact congrArg (fun i => (⟨c.clusterSize,i,Function.update c.ibit k false,c.dbit⟩ : Books))
    (Function.update_comm hne _ _ _)

/-- Taking an inode and a block and counting a link, all taken back. -/
theorem undo_makeDir {l : ℕ} (hne : l ≠ k) (hbit : c.ibit k = false) (hz : c.inode k = Inode.zero)
    (hb : c.dbit b = false) :
    (((((c.take k v).own b).relink (· + 1) l).release k).disown b).relink (· - 1) l = c := by
  rw [release_relink hne]
  change ((((c.take k v).release k).own b).disown b |>.relink (· + 1) l).relink (· - 1) l = c
  rw [release_take hbit hz, disown_own hb, relink_relink (fun n => UInt32.add_sub_cancel n 1)]

end Books

/-! ## The books of an operation -/

section Effects
variable (m : Iom) (k b a : ℕ) (v : Inode) (d : DirEntry) (f : UInt32 → UInt32)

theorem inode_setInode (j : ℕ) : (m.setInode k v).inode j = Function.update m.inode k v j := by
  rw [Function.update_apply]
  exact inodeCodec.get_put_elem k j

theorem books_setInode : (m.setInode k v).books = m.books.store k v := by
  unfold Iom.books Books.store
  rw [show (m.setInode k v).inode = Function.update m.inode k v from funext (inode_setInode m k v)]
  rfl

theorem bit_setBit_update (x : Mem) (i : ℕ) : bit (setBit x i) = Function.update (bit x) i true := by
  funext j
  by_cases h : j = i
  · subst h
    rw [bit_setBit_self, Function.update_self]
  · rw [bit_setBit_of_ne h, Function.update_of_ne h]

theorem bit_clearBit_update (x : Mem) (i : ℕ) : bit (clearBit x i) = Function.update (bit x) i false := by
  funext j
  by_cases h : j = i
  · subst h
    rw [bit_clearBit_self, Function.update_self]
  · rw [bit_clearBit_of_ne h, Function.update_of_ne h]

theorem books_takeInode : (m.takeInode k).books = { m.books with ibit := Function.update m.ibit k true } := by
  show (⟨m.clusterSize,m.inode,bit (setBit m.ibmap k),m.dbit⟩ : Books) = _
  rw [bit_setBit_update]
  rfl

theorem books_takeBlock : (m.takeBlock b).books = m.books.own b := by
  show (⟨m.clusterSize,m.inode,m.ibit,bit (setBit m.dbmap b)⟩ : Books) = _
  rw [bit_setBit_update]
  rfl

theorem books_freeBlock : (m.freeBlock b).books = m.books.disown b := by
  show (⟨m.clusterSize,m.inode,m.ibit,bit (clearBit m.dbmap b)⟩ : Books) = _
  rw [bit_clearBit_update]
  rfl

theorem books_freeInode : (m.freeInode k).books = m.books.release k := by
  show (⟨m.clusterSize,(m.setInode k Inode.zero).inode,bit (clearBit m.ibmap k),m.dbit⟩ : Books) = _
  rw [bit_clearBit_update, show (m.setInode k Inode.zero).inode = _ from funext (inode_setInode m k Inode.zero)]
  rfl

theorem books_addLink : (m.addLink f k).books = m.books.relink f k := books_setInode m k _

theorem books_writeDev (n : ℕ) (x : Mem) : (m.writeDev a n x).books = m.books := (rfl)
theorem books_flushAll : m.flushAll.books = m.books := (rfl)
theorem books_setFile (ft : FileTable) : (m.setFile k ft).books = m.books := (rfl)
theorem books_setBlknr : (m.setBlknr b).books = m.books := (rfl)

theorem books_createFile : (m.createFile k v a d).books = m.books.take k v := by
  show ((m.takeInode k).setInode k v).books = _
  rw [books_setInode, books_takeInode]
  rfl

theorem books_makeDir (par : UInt32) :
    (m.makeDir k b v a d par).books = ((m.books.take k v).own b).relink (· + 1) par.toNat := by
  rw [Iom.makeDir, books_flushAll, books_addLink]
  show ((((m.takeInode k).takeBlock b).setBlknr b).setInode k v).books.relink _ _ = _
  rw [books_setInode, books_setBlknr, books_takeBlock, books_takeInode]
  rfl

theorem books_unlinkEntry : (m.unlinkEntry a d).books = m.books := (rfl)

theorem books_unlinkEmpty : (m.unlinkEmpty k a d).books = m.books.release k := books_freeInode m k

theorem books_unlinkFile : (m.unlinkFile k b a d).books = (m.books.disown b).release k := by
  rw [Iom.unlinkFile, books_unlinkEntry, books_freeInode, Iom.wipeBlock, books_writeDev, books_freeBlock]

theorem books_removeDir (par : ℕ) :
    (m.removeDir k b a d par).books = ((m.books.release k).disown b).relink (· - 1) par := by
  rw [Iom.removeDir, books_flushAll, books_addLink, Iom.writeEntry, books_writeDev, Iom.wipeBlock, books_writeDev,
    books_freeBlock, books_freeInode]

theorem books_finishWrite : (m.finishWrite v).books = m.books.store v.iIno.toNat v := books_setInode m _ v

end Effects

end SimpleFS
