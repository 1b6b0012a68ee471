import SimpleFS.Grown
import SimpleFS.Zeroing

/-! # Removals and the kind of what they remove

Neither removal looks at the type of the record it removes. `do_rmdir` takes whatever shows no used slot
behind the dot entries, a dot entry among them; `do_unlink` counts one link down.
-/
namespace SimpleFS
open Bytes Machine Prog SlotTree

/-! ## What a removal leaves alone -/

/-- Bits are cleared inside the two ranges only, clusters zeroed only if they are the removed node's, and a
node that had an entry and stays has one. -/
structure Iom.KeepsRest (m m' : Iom) (k : ℕ) : Prop where
  ibits : ∀ l, m.ibit l = true → m'.ibit l = false → 2 ≤ l ∧ l < m.inodeNum
  dbits : ∀ b, m.dbit b = true → m'.dbit b = false → b < m.maxBlock
  zeroed : ∀ c, m'.ZeroAt (c * m.clusterSize) → ¬m.ZeroAt (c * m.clusterSize) →
    ∃ b, m.books.Owns k b ∧ c * m.clusterSize = m.blockAddr b
  held : ∀ l, IsHeld m.tree l → m'.tree.kind l ≠ none → IsHeld m'.tree l

/-- A slot that binds a name, a dot entry perhaps. -/
structure Iom.Named (m : Iom) (D i : ℕ) (x : List UInt8) (k : ℕ) : Prop where
  dir : m.tree.kind D = some .dir
  bound : m.tree.slot D i = some (x,k)

/-- No used slot behind the dot entries. -/
def Iom.NoEntries (m : Iom) (k : ℕ) : Prop := ∀ j, 2 ≤ j → m.tree.slot k j = none

/-- What a removal is for: `do_rmdir` for empty directories under a name of their own, `do_unlink` for the rest. -/
def Request.MeantFor (m : Iom) (k : ℕ) : Request → Prop
  | .rmdir _ x => m.tree.kind k = some .dir ∧ x ≠ dotName ∧ x ≠ dotdotName ∧ m.NoEntries k
  | .unlink _ _ => m.tree.kind k ≠ some .dir
  | .create _ _ _ => False
  | .mkdir _ _ => False

/-- What the removal is not meant for it refuses with an error and leaves where it is; it keeps to the object. -/
structure Request.Respected (q : Request) (m m' : Iom) (D i : ℕ) (x : List UInt8) (k : ℕ) (r : ℤ) : Prop where
  refused : ¬q.MeantFor m k → r < 0 ∧ m'.tree.slot D i = some (x,k) ∧ m'.tree.kind k = m.tree.kind k
  rest : m.KeepsRest m' k

/-- The removal of what slot `i` of `D` names ends, and so. -/
def Request.RespectsKind (e : Env) (s : Sys) (q : Request) (D i : ℕ) (x : List UInt8) (k : ℕ) : Prop :=
  ∃ r s', q.run e s = some (r,s') ∧ q.Respected s.iom s'.iom D i x k r

variable {m : Iom} {D k b i j : ℕ} {x : List UInt8} {d : DirEntry}

theorem Iom.KeepsRest.refl (m : Iom) (k : ℕ) : m.KeepsRest m k :=
  ⟨fun l h h' => absurd (h.symm.trans h') (by decide),fun b h h' => absurd (h.symm.trans h') (by decide),
    fun c h h' => absurd h h',fun l h _ => h⟩

/-- The bit of a released number was in range. -/
theorem Books.release_cleared {c : Books} {l : ℕ} (hk : c.Live k) (hl : c.ibit l = true)
    (hl' : (c.release k).ibit l = false) : 2 ≤ l ∧ l < c.num := by
  by_cases hlk : l = k
  · subst hlk
    exact ⟨hk.1,hk.2.1⟩
  · rw [show (c.release k).ibit l = c.ibit l from Function.update_of_ne hlk _ _, hl] at hl'
    cases hl'

namespace Iom.Grown
variable (h : m.Grown)
include h

theorem root_bit : m.dbit 0 = true := h.steady.sane.ledger.owned_bit h.neat.first

section Entry
variable (he : m.Entry D i x k)
include he

/-- A block of what an entry names lies in the data area. -/
theorem block_lt (ho : m.books.Owns k b) : b ≠ 0 ∧ b < m.maxBlock := by
  have hb : b ≠ 0 := by
    rintro rfl
    have := h.steady.sane.ledger.distinct k 2 0 ho h.neat.first
    have := (h.steady.sane.entry_live he).2
    omega
  have := h.neat.below k b ho
  exact ⟨hb,by omega⟩

theorem keeps_removeDir (hk : m.tree.kind k = some .dir) (hempty : m.usedScan k = some (false,j)) (ho : m.books.Owns k b) :
    m.KeepsRest (m.removeDir k b (slotAddr (m.inode D) i) d.deleted D) k := by
  have hs := h.steady.sane
  have hlive := (hs.entry_live he).1
  obtain ⟨hb0,hbm⟩ := h.block_lt he ho
  have hbooks := books_removeDir m k b (slotAddr (m.inode D) i) d.deleted D
  have hcs : (m.removeDir k b (slotAddr (m.inode D) i) d.deleted D).clusterSize = m.clusterSize :=
    fixed_cluster (fixed_removeDir _ _ _ _ _)
  have hdb : ∀ q, q ≠ b → (m.removeDir k b (slotAddr (m.inode D) i) d.deleted D).dbit q = m.dbit q :=
    fun q hq => (congrFun (congrArg Books.dbit hbooks) q).trans (Function.update_of_ne hq _ _)
  refine ⟨fun l hl hl' => ?_,fun q hq hq' => ?_,fun c hz hn => ?_,fun l hl hl' => ?_⟩
  · exact Books.release_cleared hlive hl ((congrFun (congrArg Books.ibit hbooks) l).symm.trans hl')
  · by_cases hqb : q = b
    · rwa [hqb]
    · rw [hdb q hqb, hq] at hq'
      cases hq'
  · rcases Nat.lt_or_ge c 4 with hc | hc
    · refine absurd hz ?_
      rw [← hcs]
      exact flushed_not_zero hs.mounted.freeInode.freeBlock.writeDev.writeEntry.addLink (hs.removeDir (d := d) he hk hempty ho D).ledger
        ((hdb 0 hb0.symm).trans h.root_bit) hc
    · have hwipe := zeroAt_of_entry hs he.dir he.lt hcs (fun p hp => hs.mounted.bytes_removeDir hp D) hc hz
      by_cases hcb : c = b + 4
      · refine ⟨b,ho,?_⟩
        rw [hcb, Iom.blockAddr]
        ring
      · refine absurd (fun q hq => ?_) hn
        rw [← hwipe q hq, splice_outside]
        have haddr : m.blockAddr b = (b + 4) * m.clusterSize := by
          rw [Iom.blockAddr]
          ring
        rw [haddr]
        exact cluster_apart hcb hq
  · rw [hs.tree_removeDir he hk hempty ho] at hl' ⊢
    refine hl.remove he.bound (fun q hq => Iom.Mounted.usedScan_empty hs.ledger hk hempty hq) (fun hlk => hl' ?_)
    rw [hlk]
    exact kind_setNode_self

end Entry

/-- Whatever slot names the file. -/
theorem keeps_unlinkEmpty (hn : m.Named D i x k) (hk : m.tree.kind k = some .file) :
    m.KeepsRest (m.unlinkEmpty k (slotAddr (m.inode D) i) d.deleted) k := by
  have hs := h.steady.sane
  have hi := (hs.sound.dir D i _ hn.bound).2
  have hlive := (Books.kind_eq_file.mp hk).1
  have hk3 : 3 ≤ k := by
    have hne : k ≠ 2 := by
      rintro rfl
      cases hs.sound.root.symm.trans hk
    have := hlive.1
    omega
  have hbooks := books_unlinkEmpty m k (slotAddr (m.inode D) i) d.deleted
  have hcs : (m.unlinkEmpty k (slotAddr (m.inode D) i) d.deleted).clusterSize = m.clusterSize :=
    fixed_cluster (fixed_unlinkEmpty _ _ _)
  have hdb : ∀ q, (m.unlinkEmpty k (slotAddr (m.inode D) i) d.deleted).dbit q = m.dbit q := fun q =>
    congrFun (congrArg Books.dbit hbooks) q
  refine ⟨fun l hl hl' => ?_,fun q hq hq' => ?_,fun c hz hz' => ?_,fun l hl hl' => ?_⟩
  · exact Books.release_cleared hlive hl ((congrFun (congrArg Books.ibit hbooks) l).symm.trans hl')
  · rw [hdb, hq] at hq'
    cases hq'
  · rcases Nat.lt_or_ge c 4 with hc | hc
    · refine absurd hz ?_
      have hledger : (m.unlinkEmpty k (slotAddr (m.inode D) i) d.deleted).books.Ledger := by
        rw [hbooks]
        exact hs.ledger.release_empty hk3
      rw [← hcs]
      exact flushed_not_zero hs.mounted.freeInode.writeEntry hledger ((hdb 0).trans h.root_bit) hc
    · exact absurd (zeroAt_of_entry hs hn.dir hi hcs (fun p hp => hs.mounted.bytes_unlinkEmpty hp) hc hz) hz'
  · rw [hs.tree_dropFile hn.dir hi] at hl' ⊢
    refine hl.remove hn.bound (fun j _ => hs.sound.slot_of_not_dir (by rw [hk]; decide)) (fun hlk => hl' ?_)
    rw [hlk]
    exact kind_setNode_self

/-- Clearing a dot entry. -/
theorem keeps_clearSlot (hD : m.tree.kind D = some .dir) (hi : i < 2) :
    m.KeepsRest (m.unlinkEntry (slotAddr (m.inode D) i) d.deleted) k := by
  have hs := h.steady.sane
  have hi' : i < lab4DirEntryNum := hi.trans_le (by decide)
  refine ⟨fun l hl hl' => absurd (hl.symm.trans hl') (by decide),fun q hq hq' => absurd (hq.symm.trans hq') (by decide),
    fun c hz hn => ?_,fun l hl _ => ?_⟩
  · rcases Nat.lt_or_ge c 4 with hc | hc
    · exact absurd hz (flushed_not_zero (m := m.writeEntry _ _) hs.mounted.writeEntry hs.ledger h.root_bit hc)
    · have hcs : (m.unlinkEntry (slotAddr (m.inode D) i) d.deleted).clusterSize = m.clusterSize := rfl
      exact absurd (zeroAt_of_entry hs hD hi' hcs (fun p hp => hs.mounted.bytes_unlinkEntry hp) hc hz) hn
  · rw [hs.tree_clearSlot hD hi']
    obtain ⟨E,q,y,hq,hb⟩ := hl
    refine ⟨E,q,y,hq,?_⟩
    rw [slot_setSlot_of_ne (by omega)]
    exact hb

/-! ## What a slot names -/

/-- The record of what is no directory is empty. -/
theorem empty_record (hk : m.tree.kind k ≠ some .dir) (hk2 : 2 ≤ k) (hkn : k < m.inodeNum) :
    (m.inode k).iSize = 0 ∧ (m.inode k).iBlocks 0 = 0 ∧ (m.inode k).iIno.toNat < m.inodeNum ∧
      (m.tree.kind k = none → m.inode k = Inode.zero) := by
  have hs := h.steady.sane
  cases hkind : m.tree.kind k with
  | none =>
    have hbit : m.ibit k = false := by
      by_contra hb
      exact Books.kind_eq_none.mp hkind ⟨hk2,hkn,Bool.not_eq_false _ ▸ hb⟩
    have hz : m.inode k = Inode.zero := h.neat.zero k (hs.ledger.behind_root hbit) hkn hbit
    rw [hz]
    exact ⟨rfl,rfl,(show 0 < k by omega).trans hkn,fun _ => rfl⟩
  | some c =>
    cases c with
    | dir => exact absurd hkind hk
    | file =>
      have hlive := (Books.kind_eq_file.mp hkind).1
      have hsize := h.steady.empty k hkind
      refine ⟨hsize,?_,?_,fun hn => by cases hn⟩
      · have haddr : ((m.inode k).iBlocks 0).toNat = 0 := h.steady.tidy.books.empty k hlive hsize
        exact UInt32.toNat_inj.mp haddr
      · have hino : (m.inode k).iIno.toNat = k := hs.ledger.ino_toNat hlive
        rw [hino]
        exact hkn

section Named
variable (hn : m.Named D i x k)
include hn

theorem named_lt : 2 ≤ k ∧ k < m.inodeNum ∧ i < lab4DirEntryNum :=
  have hs := h.slots D i x k hn.bound
  ⟨hs.2.1,hs.2.2,(h.steady.sane.sound.dir D i _ hn.bound).2⟩

theorem named_scan : m.scan (lookupTest x) (m.inode D).iIno.toNat = some (true,i) ∧ m.slotIno (m.inode D) i = k := by
  have hs := h.steady.sane
  have hi := (h.named_lt hn).2.2
  rw [Iom.slotIno, hs.ino_dir hn.dir]
  refine ⟨hs.mounted.scan_of_binds hs.ledger hn.dir h.unique (h.slots D i x k hn.bound).1 hn.bound,?_⟩
  have hb := hn.bound
  rw [Iom.Mounted.tree_slot hs.ledger hn.dir hi, DirEntry.binding] at hb
  split at hb
  · exact congrArg Prod.snd (Option.some.inj hb)
  · cases hb

theorem entry_of_named (hdot : x ≠ dotName) (hdd : x ≠ dotdotName) : m.Entry D i x k := by
  have hs := h.steady.sane
  refine ⟨hn.dir,?_,(h.named_lt hn).2.2,hn.bound⟩
  by_contra hlt
  rcases (show i = 0 ∨ i = 1 by omega) with rfl | rfl
  · have hself := hn.bound.symm.trans (hs.sound.self D hn.dir)
    exact hdot (Prod.mk.inj (Option.some.inj hself)).1
  · obtain ⟨p,hp⟩ := hs.sound.up D hn.dir
    exact hdd (Prod.mk.inj (Option.some.inj (hn.bound.symm.trans hp))).1

/-- What is no directory and no node is named by an entry for the parent. -/
theorem named_dotdot (hk : m.tree.kind k = none) : i = 1 := by
  have hs := h.steady.sane
  have h2 : i < 2 := by
    by_contra hlt
    exact (hs.sound.target D i x k (by omega) hn.bound).1 hk
  rcases (show i = 0 ∨ i = 1 by omega) with rfl | rfl
  · have hself := hn.bound.symm.trans (hs.sound.self D hn.dir)
    rw [(Prod.mk.inj (Option.some.inj hself)).2, hn.dir] at hk
    cases hk
  · rfl

end Named

end Iom.Grown

/-! ## Runs -/

variable {e : Env} {s : Sys} {Q : ℤ → Sys → Prop}

/-- Bit -4 of the data bitmap is not in its buffer. -/
theorem wp_deleteBlockInbmap_zero {v : Inode} {Q : Unit → Sys → Prop} (hm : s.iom.Mounted) (hz : v.iBlocks 0 = 0) :
    wp True (deleteBlockInbmap v) Q e s := by
  have hcs := hm.cluster_le
  have hsub : (((v.iBlocks 0).toNat : ℕ) : ℤ) - (s.iom.sbi.dareaStart : ℕ) = -4 * (s.iom.clusterSize : ℤ) := by
    rw [hz, hm.dareaStart]
    push_cast
    simp
  have hdiv : (-4 * (s.iom.clusterSize : ℤ)).tdiv (s.iom.sbi.clusterSize : ℕ) = -4 := by
    rw [hm.sbiCluster]
    exact Int.mul_tdiv_cancel _ (by omega)
  have hnr : toU32 (toS32 (-4)) >>> 3 = 2^29 - 1 := by decide
  simp only [deleteBlockInbmap, scanDeleteDbmap, Iom.blocknrInbmap, wp_bind, wp_getIom, hm.dbmap_eq, hsub, hdiv, hnr]
  rw [if_pos (by omega), wp_undefined]
  trivial

/-- A record without a block takes the removal out of the bitmap. -/
theorem wp_removeEmptyDir_zero {p v : Inode} {d : DirEntry} {n : ℕ} {z : ℤ} (hm : s.iom.Mounted)
    (hino : v.iIno.toNat < s.iom.inodeNum) (hz : v.iBlocks 0 = 0) : wp True (removeEmptyDir n p v d z) Q e s := by
  unfold removeEmptyDir
  rw [wp_bind]
  refine wp_deleteInode hm hino (fun _ => trivial) (fun s1 _ h1 => ?_)
  rw [if_neg (by decide), wp_bind]
  exact wp_deleteBlockInbmap_zero (h1 ▸ hm.freeInode) hz

namespace Iom.Grown
variable (he : e.Nominal) (h : s.iom.Grown) (hn : s.iom.Named D i x k)
include h hn

/-- The lookup finds the slot and nothing else. -/
theorem scan_eq {found : Bool} {l : ℕ} (hl : s.iom.scan (lookupTest x) (s.iom.inode D).iIno.toNat = some (found,l)) :
    found = true ∧ l = i := by
  rw [(h.named_scan hn).1] at hl
  have hp := Prod.mk.inj (Option.some.inj hl)
  exact ⟨hp.1.symm,hp.2.symm⟩

include he

/-- `do_rmdir` of what is no directory has no defined result. -/
theorem wp_rmdir_other (hk : s.iom.tree.kind k ≠ some .dir) : wp True (doRmdir (s.iom.inode D) x) Q e s := by
  have hs := h.steady.sane
  obtain ⟨hk2,hkn,_⟩ := h.named_lt hn
  have hslot := (h.named_scan hn).2
  obtain ⟨hsize,hz,hino,_⟩ := h.empty_record hk hk2 hkn
  have hD := dir_ino hs hn.dir
  refine wp_doRmdir_checked he.io hs.mounted (hs.parent hn.dir) (fun _ _ => trivial) (fun _ => trivial) (fun _ _ _ _ => trivial)
    (fun _ _ _ _ => trivial) (fun l _ hl _ _ => ?_) (fun s' _ hlow => ?_) (fun s' l _ hl hlow => ?_) (fun s' l _ _ _ hl => ?_)
    (fun s' l j _ hl hj => ?_) (fun s' l j hs' _ _ hl _ _ _ => ?_)
  · rw [(h.scan_eq hn hl).2, hslot, Iom.dataAddr, hz]
    decide
  · have := hlow he.malloc
    omega
  · rw [(h.scan_eq hn hl).2, hslot] at hlow
    rcases hlow with hlow | hlow
    · omega
    · exact absurd he.malloc hlow
  · cases (h.scan_eq hn hl).1
  · rw [(h.scan_eq hn hl).2, hslot] at hj
    have hhit := ((slotLoop_scan hj).1.hit rfl).1
    rw [hsize] at hhit
    exact absurd hhit (Int.not_lt.mpr (Int.natCast_nonneg _))
  · rw [(h.scan_eq hn hl).2, hslot]
    exact wp_removeEmptyDir_zero (hs' ▸ hs.mounted) (hs' ▸ hino) hz

/-- `do_rmdir` of a directory: with a used slot nothing changes, else it goes. -/
theorem wp_rmdir_dir {u : Prop} (hk : s.iom.tree.kind k = some .dir)
    (hu : (∀ j, 2 ≤ j → s.iom.tree.slot k j = none) → ¬(s.iom.InodeRoom 1 ∧ s.iom.BlockRoom 1) → u)
    (hused : ∀ s', s'.iom = s.iom → ¬(∀ j, 2 ≤ j → s.iom.tree.slot k j = none) → Q (-enotempty) s')
    (hok : ∀ s' j, s.iom.usedScan k = some (false,j) → s.iom.InodeRoom 1 → s.iom.BlockRoom 1 →
      s'.iom = s.iom.removeDir k (s.iom.books.block k) (slotAddr (s.iom.inode D) i) (s.iom.slotEntry D i).deleted D →
      Q lab4Success s') : wp u (doRmdir (s.iom.inode D) x) Q e s := by
  have hs := h.steady.sane
  obtain ⟨hk2,hkn,_⟩ := h.named_lt hn
  obtain ⟨hscan,hslot⟩ := h.named_scan hn
  obtain ⟨hino,hD2,hDn⟩ := dir_ino hs hn.dir
  obtain ⟨ho,hle,_⟩ := hs.ledger.owns_dir hk
  have hnear : s.iom.books.block k < 8 * s.iom.clusterSize := lt_of_lt_of_le (h.neat.below k _ ho) (Nat.min_le_right _ _)
  have haddr : s.iom.dataAddr k = s.iom.blockAddr (s.iom.books.block k) := ho.addr
  have hempty : ∀ j, s.iom.usedScan k = some (false,j) → ∀ q, 2 ≤ q → s.iom.tree.slot k q = none := fun j hj q hq =>
    Iom.Mounted.usedScan_empty hs.ledger hk hj hq
  refine wp_doRmdir_checked he.io hs.mounted (hs.parent hn.dir) (fun _ hb => ?_) (fun hb => ?_) (fun l _ hl hb => ?_)
    (fun l _ hl hb => ?_) (fun l _ hl _ _ => ?_) (fun s' _ hlow => ?_) (fun s' l _ hl hlow => ?_) (fun s' l _ _ _ hl => ?_)
    (fun s' l j hs' hl hj => ?_) (fun s' l j hs' _ _ hl _ _ hj => ?_)
  · omega
  · cases hscan.symm.trans hb
  · rw [(h.scan_eq hn hl).2, hslot] at hb
    omega
  · rw [(h.scan_eq hn hl).2, hslot] at hb
    exact absurd hb (Option.isSome_iff_ne_none.mp (hs.mounted.usedScan_isSome hs.ledger hk))
  · rw [(h.scan_eq hn hl).2, hslot, haddr]
    exact lt_of_lt_of_le (Nat.lt_add_of_pos_right hs.ledger.clusterSize_pos) hle
  · have := hlow he.malloc
    omega
  · rw [(h.scan_eq hn hl).2, hslot] at hlow
    rcases hlow with hlow | hlow
    · omega
    · exact absurd he.malloc hlow
  · cases (h.scan_eq hn hl).1
  · rw [(h.scan_eq hn hl).2, hslot] at hj
    obtain ⟨hj2,hne⟩ := Iom.Mounted.usedScan_used hs.ledger hk hj
    exact hused s' hs' (fun hall => hne (hall j hj2))
  · rw [(h.scan_eq hn hl).2, hslot] at hj ⊢
    refine wp_removeEmptyDir he.io hs' hs.mounted (scan_lt hs.mounted hscan) (hs.parent hn.dir).addr (hino.symm ▸ hDn)
      (hs.ledger.ino_toNat ho.live) hkn haddr hle (fun hno => hu (hempty j hj) (fun hroom => hno ?_))
      (fun s'' hin hbl hs'' => hok s'' j hj hin hbl ?_)
    · exact ⟨hroom.1,hroom.2,hnear,he.malloc⟩
    · rwa [hino] at hs''

/-- `do_unlink` ends in success whatever it was asked for. -/
theorem wp_unlink_named {u : Prop} (hu : s.iom.tree.kind k ≠ none → s.iom.tree.kind k ≠ some .dir → ¬s.iom.InodeRoom 1 → u)
    (hdir : s.iom.tree.kind k = some .dir → u)
    (hkeep : ∀ s', (s.iom.inode k).iLinksCount ≠ 1 →
      s'.iom = s.iom.unlinkEntry (slotAddr (s.iom.inode D) i) (s.iom.slotEntry D i).deleted → Q lab4Success s')
    (hempty : ∀ s', (s.iom.inode k).iLinksCount = 1 → s.iom.InodeRoom 1 → (s.iom.inode k).iSize = 0 →
      s'.iom = s.iom.unlinkEmpty k (slotAddr (s.iom.inode D) i) (s.iom.slotEntry D i).deleted → Q lab4Success s')
    (hdata : ∀ s', s.iom.tree.kind k = some .dir → Q lab4Success s') :
    wp u (doUnlink (s.iom.inode D) x) Q e s := by
  have hs := h.steady.sane
  obtain ⟨hk2,hkn,_⟩ := h.named_lt hn
  obtain ⟨hscan,hslot⟩ := h.named_scan hn
  obtain ⟨hino,hD2,hDn⟩ := dir_ino hs hn.dir
  have hlive : (s.iom.inode k).iLinksCount = 1 → s.iom.books.Live k := fun hl => by
    by_contra hnl
    have hz := (h.empty_record (by rw [show s.iom.tree.kind k = none from Books.kind_eq_none.mpr hnl]; decide) hk2 hkn).2.2.2
      (Books.kind_eq_none.mpr hnl)
    rw [hz] at hl
    exact absurd hl (by decide)
  refine wp_doUnlink he.io hs.mounted (hs.parent hn.dir) (fun _ hb => ?_) (fun hb => ?_) (fun l _ hl hb => ?_)
    (fun l _ hl h1 hb => ?_) (fun l _ hl _ _ h1 => ?_) (fun s' _ hlow => ?_) (fun s' l _ _ _ hl => ?_)
    (fun s' l k' d _ _ hl hk' _ _ hd hcase => ?_)
  · omega
  · cases hscan.symm.trans hb
  · rw [(h.scan_eq hn hl).2, hslot] at hb
    omega
  · rw [(h.scan_eq hn hl).2, hslot] at h1 hb
    by_cases hk : s.iom.tree.kind k = some .dir
    · exact hdir hk
    · have hsize := (h.empty_record hk hk2 hkn).1
      exact hu (fun hno => Books.kind_eq_none.mp hno (hlive h1)) hk
        (fun hroom => hb ⟨hroom,fun hz => absurd hsize hz,fun hz => absurd hsize hz⟩)
  · rw [(h.scan_eq hn hl).2, hslot] at h1 ⊢
    exact hs.recordOk (hlive h1)
  · obtain ⟨l,hl,hlt⟩ := hlow he.malloc (hino.symm ▸ hD2)
    rw [(h.scan_eq hn hl).2, hslot] at hlt
    omega
  · cases (h.scan_eq hn hl).1
  · rw [(h.scan_eq hn hl).2, hslot] at hk'
    rw [(h.scan_eq hn hl).2, hino] at hd
    rw [(h.scan_eq hn hl).2, ← hk', ← hd] at hcase
    rcases hcase with ⟨hl,hs'⟩ | ⟨hl,hz,hroom,hs'⟩ | ⟨hl,hz,_⟩
    · exact hkeep s' hl hs'
    · exact hempty s' hl hroom hz hs'
    · refine hdata s' ?_
      by_contra hk
      exact hz (h.empty_record hk hk2 hkn).1

/-! ## What decides -/

theorem respects_rmdir_iff : (Request.rmdir D x).RespectsKind e s D i x k ↔
    s.iom.tree.kind k = some .dir ∧
      (s.iom.NoEntries k → x ≠ dotName ∧ x ≠ dotdotName ∧ s.iom.InodeRoom 1 ∧ s.iom.BlockRoom 1) := by
  have hs := h.steady.sane
  constructor
  · rintro ⟨r,s',hrun,hresp⟩
    have hk : s.iom.tree.kind k = some .dir := by
      by_contra hk
      exact (Request.wp_rmdir.mpr (h.wp_rmdir_other (Q := fun _ _ => False) he hn hk)).elim hrun
    refine ⟨hk,fun hempty => ?_⟩
    obtain ⟨hr,hin,hbl⟩ := (Request.wp_rmdir.mpr (h.wp_rmdir_dir (u := True)
      (Q := fun r _ => r = lab4Success ∧ s.iom.InodeRoom 1 ∧ s.iom.BlockRoom 1) he hn hk (fun _ _ => trivial)
      (fun _ _ hne => absurd hempty hne) (fun _ _ _ hin hbl _ => ⟨rfl,hin,hbl⟩))).elim hrun
    have hmeant : (Request.rmdir D x).MeantFor s.iom k := by
      by_contra hno
      have hlt := (hresp.refused hno).1
      rw [hr] at hlt
      exact absurd hlt (by decide)
    exact ⟨hmeant.2.1,hmeant.2.2.1,hin,hbl⟩
  · rintro ⟨hk,hrooms⟩
    have hwp : wp False (doRmdir (s.iom.inode D) x) (fun r s' => (Request.rmdir D x).Respected s.iom s'.iom D i x k r) e s := by
      refine h.wp_rmdir_dir he hn hk (fun hempty hno => hno (hrooms hempty).2.2) (fun s' hs' _ => ?_) (fun s' j hj _ _ hs' => ?_)
      · rw [hs']
        exact ⟨fun _ => ⟨by decide,hn.bound,rfl⟩,Iom.KeepsRest.refl _ _⟩
      · have hempty : s.iom.NoEntries k := fun q hq => Iom.Mounted.usedScan_empty hs.ledger hk hj hq
        obtain ⟨hdot,hdd,_⟩ := hrooms hempty
        refine ⟨fun hno => absurd ⟨hk,hdot,hdd,hempty⟩ hno,?_⟩
        rw [hs']
        exact h.keeps_removeDir (h.entry_of_named hn hdot hdd) hk hj (hs.ledger.owns_dir hk).1
    exact wp_false.mp (Request.wp_rmdir.mpr hwp)

theorem respects_unlink_iff : (Request.unlink D x).RespectsKind e s D i x k ↔
    s.iom.tree.kind k ≠ some .dir ∧ (s.iom.tree.kind k = some .file → s.iom.InodeRoom 1) := by
  constructor
  · rintro ⟨r,s',hrun,hresp⟩
    have hr : r = lab4Success := (Request.wp_unlink.mpr (h.wp_unlink_named (u := True) (Q := fun r _ => r = lab4Success) he hn
      (fun _ _ _ => trivial) (fun _ => trivial) (fun _ _ _ => rfl) (fun _ _ _ _ _ => rfl) (fun _ _ => rfl))).elim hrun
    have hk : s.iom.tree.kind k ≠ some .dir := by
      by_contra hno
      have hlt := (hresp.refused (fun hm => hm hno)).1
      rw [hr] at hlt
      exact absurd hlt (by decide)
    refine ⟨hk,fun hfile => ?_⟩
    exact (Request.wp_unlink.mpr (h.wp_unlink_named (u := True) (Q := fun _ _ => s.iom.InodeRoom 1) he hn (fun _ _ _ => trivial)
      (fun _ => trivial) (fun _ hl _ => absurd (h.neat.links k hfile) hl) (fun _ _ hroom _ _ => hroom)
      (fun _ hd => absurd hd hk))).elim hrun
  · rintro ⟨hk,hroom⟩
    have hfile : s.iom.tree.kind k ≠ none → s.iom.tree.kind k = some .file := fun hne => by
      cases hkind : s.iom.tree.kind k with
      | none => exact absurd hkind hne
      | some c =>
        cases c with
        | dir => exact absurd hkind hk
        | file => rfl
    have hwp : wp False (doUnlink (s.iom.inode D) x) (fun r s' => (Request.unlink D x).Respected s.iom s'.iom D i x k r) e s := by
      refine h.wp_unlink_named he hn (fun hne _ hno => hno (hroom (hfile hne))) hk (fun s' hl hs' => ?_) (fun s' hl _ _ hs' => ?_)
        (fun _ hd => absurd hd hk)
      · have hnone : s.iom.tree.kind k = none := by
          by_contra hne
          exact hl (h.neat.links k (hfile hne))
        refine ⟨fun hno => absurd hk hno,?_⟩
        rw [hs']
        exact h.keeps_clearSlot hn.dir (by rw [h.named_dotdot hn hnone]; decide)
      · have hne : s.iom.tree.kind k ≠ none := fun hno => by
          obtain ⟨hk2,hkn,_⟩ := h.named_lt hn
          rw [(h.empty_record hk hk2 hkn).2.2.2 hno] at hl
          exact absurd hl (by decide)
        refine ⟨fun hno => absurd hk hno,?_⟩
        rw [hs']
        exact h.keeps_unlinkEmpty hn (hfile hne)
    exact wp_false.mp (Request.wp_unlink.mpr hwp)

end Iom.Grown

/-- In every state that successful calls reach, on every name of a directory: `do_rmdir` respects the kind of
the object exactly when the name is a directory's, and where that shows no used slot is no dot name and both
counters can count one more; `do_unlink` exactly when it is none, and the counter has room for a file's record. -/
theorem removal_respects_kind_iff {e e' : Env} {s s0 t : Sys} {ok : Bool} {D i k : ℕ} {x : List UInt8} (he : e.Nominal)
    (he' : e'.Nominal) (hsec : IsSector s.iom.dev.blksszget) (hrun : formatAndMount e s = some (ok,s0))
    (hr : Reached Request.run Succeeds s0 t) (hD : t.iom.tree.kind D = some .dir)
    (hx : t.iom.tree.slot D i = some (x,k)) :
    ((Request.rmdir D x).RespectsKind e' t D i x k ↔ t.iom.tree.kind k = some .dir ∧
      (t.iom.NoEntries k → x ≠ dotName ∧ x ≠ dotdotName ∧ t.iom.InodeRoom 1 ∧ t.iom.BlockRoom 1)) ∧
    ((Request.unlink D x).RespectsKind e' t D i x k ↔ t.iom.tree.kind k ≠ some .dir ∧
      (t.iom.tree.kind k = some .file → t.iom.InodeRoom 1)) :=
  have h := grown_of_reached he hsec hrun hr
  ⟨h.respects_rmdir_iff he' ⟨hD,hx⟩,h.respects_unlink_iff he' ⟨hD,hx⟩⟩

/-! ## A new volume with an empty file -/

set_option maxRecDepth 100000 in
theorem makeFile_run : ∃ s0 s, formatAndMount quietEnv (blankDisk 80) = some (true,s0) ∧
    Reached Request.run Succeeds s0 s ∧ s.iom.tree.kind 2 = some .dir ∧ s.iom.tree.slot 2 2 = some ([102],3) ∧
    s.iom.tree.slot 2 0 = some (dotName,2) ∧ s.iom.tree.kind 3 = some .file ∧ s.iom.InodeRoom 1 := by
  have h : ((formatAndMount >>= fun _ => (Request.create 2 [102] 0).run) quietEnv (blankDisk 80)).map (fun p =>
      (p.1,decide (p.2.iom.tree.slot 2 2 = some ([102],3) ∧ p.2.iom.tree.slot 2 0 = some (dotName,2)),
        decide (p.2.iom.tree.kind 2 = some .dir ∧ p.2.iom.tree.kind 3 = some .file),decide (p.2.iom.InodeRoom 1))) =
      some (lab4Success,true,true,true) := by decide +kernel
  obtain ⟨s0,hrun,hw⟩ := blankDisk_whole
  rw [bind_apply, hrun] at h
  obtain ⟨⟨r,s⟩,hmk,heq⟩ := Option.map_eq_some_iff.mp h
  simp only [Prod.mk.injEq, decide_eq_true_eq] at heq
  obtain ⟨rfl,⟨hslot,hdot⟩,⟨hroot,hkind⟩,hroom⟩ := heq
  have hadm : (Request.create 2 [102] 0).Admissible s0.iom := ⟨hw.sane.sound.root,by decide,by decide,by decide⟩
  exact ⟨s0,s,hrun,Reached.refl.call ⟨quietEnv_nominal,hadm,rfl⟩ hmk,hroot,hslot,hdot,hkind,hroom⟩

/-- The removal of the file as a directory leaves the bitmap, and the dot entry can be unlinked. -/
theorem removal_ignores_kind : ∃ s0 s, formatAndMount quietEnv (blankDisk 80) = some (true,s0) ∧
    Reached Request.run Succeeds s0 s ∧ s.iom.tree.slot 2 2 = some ([102],3) ∧ s.iom.tree.kind 3 = some .file ∧
    ¬(Request.rmdir 2 [102]).RespectsKind quietEnv s 2 2 [102] 3 ∧
    s.iom.tree.slot 2 0 = some (dotName,2) ∧ s.iom.tree.kind 2 = some .dir ∧
    ¬(Request.unlink 2 dotName).RespectsKind quietEnv s 2 0 dotName 2 := by
  obtain ⟨s0,s,hrun,hr,hroot,hslot,hdot,hfile,_⟩ := makeFile_run
  have h := grown_of_reached quietEnv_nominal (.inl rfl) hrun hr
  refine ⟨s0,s,hrun,hr,hslot,hfile,fun hresp => ?_,hdot,hroot,fun hresp => ?_⟩
  · have hk := ((h.respects_rmdir_iff quietEnv_nominal ⟨hroot,hslot⟩).mp hresp).1
    cases hfile.symm.trans hk
  · exact ((h.respects_unlink_iff quietEnv_nominal ⟨hroot,hdot⟩).mp hresp).1 hroot

/-- `do_unlink` takes the file and keeps to it; `do_rmdir` does not. -/
theorem removal_respects_kind_iff_file : ∃ s0 s, formatAndMount quietEnv (blankDisk 80) = some (true,s0) ∧
    Reached Request.run Succeeds s0 s ∧ (Request.unlink 2 [102]).RespectsKind quietEnv s 2 2 [102] 3 ∧
    ¬(Request.rmdir 2 [102]).RespectsKind quietEnv s 2 2 [102] 3 := by
  obtain ⟨s0,s,hrun,hr,hroot,hslot,_,hfile,hroom⟩ := makeFile_run
  obtain ⟨hrm,hun⟩ := removal_respects_kind_iff quietEnv_nominal quietEnv_nominal (.inl rfl) hrun hr hroot hslot
  refine ⟨s0,s,hrun,hr,hun.mpr ⟨?_,fun _ => hroom⟩,fun hresp => ?_⟩
  · rw [hfile]
    decide
  · cases hfile.symm.trans (hrm.mp hresp).1

end SimpleFS
