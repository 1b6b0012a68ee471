import SimpleFS.Whole
import SimpleFS.Requests

/-! # Consistency

What a consistent volume is, clause by clause, in terms of bitmap bits, inode records and the entries in
the blocks of the directories. It holds of a new file system and every directory operation keeps it.
-/
namespace SimpleFS
open Bytes Machine Prog SlotTree

variable {m : Iom} {D E k l i j b : ℕ} {x y : List UInt8}

/-- The root or a number behind it with its bit set. -/
def Iom.Allocated (m : Iom) (k : ℕ) : Prop := 2 ≤ k ∧ k < 32 ∧ m.ibit k = true

structure Iom.LiveDir (m : Iom) (D : ℕ) : Prop where
  allocated : m.Allocated D
  type : (m.inode D).iType = lab4TypeDirectory

/-- Slot `i` in the block of `D` is used, with name `x` and number `k`. -/
structure Iom.SlotNames (m : Iom) (D i : ℕ) (x : List UInt8) (k : ℕ) : Prop where
  lt : i < 32
  used : (m.slotEntry D i).dFlag = lab4DirUsed
  name : cstr (m.slotEntry D i).dFilename = x
  ino : (m.slotEntry D i).dIno.toNat = k

structure Iom.Consistent (m : Iom) : Prop where
  mounted : m.Mounted
  cluster : m.clusterSize = 4096
  blocks : 2 ≤ m.maxBlock ∧ m.maxBlock ≤ 8 * 4096
  reserved : m.ibit 0 = true ∧ m.ibit 1 = true ∧ m.ibit 2 = true ∧ m.dbit 0 = true
  ino : ∀ k, m.Allocated k → (m.inode k).iIno.toNat = k
  type : ∀ k, m.Allocated k → (m.inode k).iType = lab4TypeFile ∨ (m.inode k).iType = lab4TypeDirectory
  tail : ∀ k, m.Allocated k → ∀ j : Fin 15, j ≠ 0 → (m.inode k).iBlocks j = 0
  dirSize : ∀ D, m.LiveDir D → (m.inode D).iSize = 4096
  links : ∀ k, m.Allocated k → (m.inode k).iType = lab4TypeFile → (m.inode k).iLinksCount = 1
  free : ∀ k, 3 ≤ k → k < 32 → m.ibit k = false → m.inode k = Inode.zero
  root : m.LiveDir 2
  dot : ∀ D, m.LiveDir D → m.SlotNames D 0 dotName D
  rootUp : m.SlotNames 2 1 dotdotName 2
  up : ∀ D E i x, m.LiveDir D → m.LiveDir E → 2 ≤ i → m.SlotNames E i x D → m.SlotNames D 1 dotdotName E
  named : ∀ k, 3 ≤ k → m.Allocated k → ∃ D i x, m.LiveDir D ∧ 2 ≤ i ∧ m.SlotNames D i x k
  once : ∀ D E i j x y k, m.LiveDir D → m.LiveDir E → 2 ≤ i → 2 ≤ j → m.SlotNames D i x k → m.SlotNames E j y k →
    D = E ∧ i = j
  names : ∀ D i x k, m.LiveDir D → 2 ≤ i → m.SlotNames D i x k → 3 ≤ k ∧ m.Allocated k
  distinct : ∀ D i j x k l, m.LiveDir D → m.SlotNames D i x k → m.SlotNames D j x l → i = j
  owner : ∀ k, m.Allocated k → (m.inode k).iSize ≠ 0 → ∃ b, b < m.maxBlock ∧ m.dataAddr k = m.blockAddr b ∧ m.dbit b = true
  single : ∀ k l, m.Allocated k → m.Allocated l → (m.inode k).iSize ≠ 0 → (m.inode l).iSize ≠ 0 →
    m.dataAddr k = m.dataAddr l → k = l
  rootBlock : m.dataAddr 2 = m.blockAddr 0

/-- The part of consistency that accounts for every inode and every block. Link counts, the numbers in the
parent slots and the pointers of empty files are left open. -/
structure Iom.Accounted (m : Iom) : Prop where
  mounted : m.Mounted
  cluster : m.clusterSize = 4096
  blocks : m.maxBlock ≤ 8 * 4096
  reserved : ∀ k, k ≤ 2 → m.ibit k = true
  ino : ∀ k, m.Allocated k → (m.inode k).iIno.toNat = k
  type : ∀ k, m.Allocated k → (m.inode k).iType = lab4TypeFile ∨ (m.inode k).iType = lab4TypeDirectory
  tail : ∀ k, m.Allocated k → (m.inode k).iSize ≠ 0 → ∀ j : Fin 15, j ≠ 0 → (m.inode k).iBlocks j = 0
  dirSize : ∀ D, m.LiveDir D → (m.inode D).iSize = 4096
  free : ∀ k, 3 ≤ k → k < 32 → m.ibit k = false → m.inode k = Inode.zero
  root : m.LiveDir 2
  dot : ∀ D, m.LiveDir D → m.SlotNames D 0 dotName D
  dotdot : ∀ D, m.LiveDir D → ∃ p, m.SlotNames D 1 dotdotName p
  named : ∀ k, 3 ≤ k → m.Allocated k → ∃ D i x, m.LiveDir D ∧ 2 ≤ i ∧ m.SlotNames D i x k
  once : ∀ D E i j x y k, m.LiveDir D → m.LiveDir E → 2 ≤ i → 2 ≤ j → m.SlotNames D i x k → m.SlotNames E j y k →
    D = E ∧ i = j
  names : ∀ D i x k, m.LiveDir D → 2 ≤ i → m.SlotNames D i x k → 3 ≤ k ∧ m.Allocated k
  distinct : ∀ D i j x k l, m.LiveDir D → m.SlotNames D i x k → m.SlotNames D j x l → i = j
  owner : ∀ k, m.Allocated k → (m.inode k).iSize ≠ 0 → ∃ b, b < m.maxBlock ∧ m.dataAddr k = m.blockAddr b ∧ m.dbit b = true
  single : ∀ k l, m.Allocated k → m.Allocated l → (m.inode k).iSize ≠ 0 → (m.inode l).iSize ≠ 0 →
    m.dataAddr k = m.dataAddr l → k = l

/-! ## Consistent volumes are whole -/

namespace Iom

theorem slotNames_iff : m.SlotNames D i x k ↔ i < lab4DirEntryNum ∧ (m.slotEntry D i).binding = some (x,k) := by
  constructor
  · rintro ⟨hi,hu,rfl,rfl⟩
    exact ⟨hi,binding_of_used hu⟩
  · rintro ⟨hi,hb⟩
    by_cases hu : (m.slotEntry D i).dFlag = lab4DirUsed
    · rw [binding_of_used hu] at hb
      cases hb
      exact ⟨hi,hu,rfl,rfl⟩
    · rw [binding_of_not_used hu] at hb
      cases hb

theorem allocated_iff (hcs : m.clusterSize = 4096) : m.Allocated k ↔ m.books.Live k := by
  have hn : m.books.num = 32 := by
    rw [Books.num, show m.books.clusterSize = m.clusterSize from rfl, hcs]
    rfl
  rw [Iom.Allocated, Books.Live, hn]
  rfl

theorem liveDir_iff (hcs : m.clusterSize = 4096) (hl : m.books.Ledger) : m.LiveDir D ↔ m.tree.kind D = some .dir := by
  rw [kind_tree, Books.kind_eq_dir hl, ← allocated_iff hcs]
  exact ⟨fun h => ⟨h.1,h.2⟩,fun h => ⟨h.1,h.2⟩⟩

/-- The slots of the tree are the entries of the live directories. -/
theorem slot_iff (hcs : m.clusterSize = 4096) (hl : m.books.Ledger) :
    m.tree.slot D i = some (x,k) ↔ m.LiveDir D ∧ m.SlotNames D i x k := by
  rw [liveDir_iff hcs hl, slotNames_iff]
  constructor
  · intro h
    by_cases hD : m.tree.kind D = some .dir ∧ i < lab4DirEntryNum
    · exact ⟨hD.1,hD.2,(Mounted.tree_slot hl hD.1 hD.2).symm.trans h⟩
    · rw [show m.tree.slot D i = none from if_neg hD] at h
      cases h
  · rintro ⟨hD,hi,hb⟩
    rw [Mounted.tree_slot hl hD hi, hb]

namespace Accounted
variable (h : m.Accounted)
include h

theorem live_iff : m.books.Live k ↔ m.Allocated k := (allocated_iff h.cluster).symm

theorem owns_iff : m.books.Owns k b ↔ m.Allocated k ∧ (m.inode k).iSize ≠ 0 ∧ m.dataAddr k = m.blockAddr b :=
  ⟨fun ho => ⟨h.live_iff.mp ho.live,ho.size,ho.addr⟩,fun ⟨ha,hs,hb⟩ => ⟨h.live_iff.mpr ha,hs,hb⟩⟩

theorem ledger : m.books.Ledger := by
  refine ⟨h.mounted.cluster,fun k hk => ?_,fun k h2 hk hbit => ?_,fun k hk hs => ?_,fun k l b hk hl => ?_,fun k hk => ?_,
    h.root.type⟩
  · have ha := h.live_iff.mp hk
    exact ⟨UInt32.toNat.inj ((h.ino k ha).trans (UInt32.toNat_ofNat_of_lt' (ha.2.1.trans (by decide))).symm),
      h.type k ha,h.tail k ha,fun ht => h.dirSize k ⟨ha,ht⟩⟩
  · have hn : k < 32 := by
      rw [Books.num, show m.books.clusterSize = m.clusterSize from rfl, h.cluster] at hk
      exact hk
    have h3 : 3 ≤ k := by
      by_contra hlt
      obtain rfl : k = 2 := by omega
      cases hbit.symm.trans (h.reserved 2 le_rfl)
    change FreeRecord (m.inode k)
    rw [h.free k h3 hn hbit]
    exact ⟨rfl,rfl,rfl,rfl⟩
  · obtain ⟨b,hb,haddr,hbit⟩ := h.owner k (h.live_iff.mp hk) hs
    refine ⟨b,⟨hk,hs,haddr⟩,?_,hbit⟩
    have := h.blocks
    change m.blockAddr b + m.clusterSize ≤ 2^31
    unfold Iom.blockAddr
    rw [h.cluster]
    omega
  · obtain ⟨hak,hsk,hbk⟩ := h.owns_iff.mp hk
    obtain ⟨hal,hsl,hbl⟩ := h.owns_iff.mp hl
    exact h.single k l hak hal hsk hsl (hbk.trans hbl.symm)
  · exact h.reserved k hk

theorem kind_iff : m.tree.kind D = some .dir ↔ m.LiveDir D := (liveDir_iff h.cluster h.ledger).symm

theorem slot_iff : m.tree.slot D i = some (x,k) ↔ m.LiveDir D ∧ m.SlotNames D i x k := Iom.slot_iff h.cluster h.ledger

theorem kind_ne_none : m.tree.kind k ≠ none ↔ m.Allocated k := by
  rw [← h.live_iff]
  exact (Books.kind_eq_none (c := m.books)).not.trans not_not

theorem sound : Sound shape m.tree := by
  refine ⟨h.kind_iff.mpr h.root,fun D i o hs => ?_,fun D hD => ?_,fun D hD => ?_,fun D i x k hi hs => ?_,
    fun D i E j x y k hi hj hs hs' => ?_⟩
  · obtain ⟨hD,hn⟩ := h.slot_iff.mp hs
    exact ⟨h.kind_iff.mpr hD,hn.lt⟩
  · have hD := h.kind_iff.mp hD
    exact h.slot_iff.mpr ⟨hD,h.dot D hD⟩
  · have hD := h.kind_iff.mp hD
    obtain ⟨p,hp⟩ := h.dotdot D hD
    exact ⟨p,h.slot_iff.mpr ⟨hD,hp⟩⟩
  · obtain ⟨hD,hn⟩ := h.slot_iff.mp hs
    obtain ⟨h3,ha⟩ := h.names D i x k hD hi hn
    exact ⟨h.kind_ne_none.mpr ha,show k ≠ 2 by omega⟩
  · obtain ⟨hD,hn⟩ := h.slot_iff.mp hs
    obtain ⟨hE,hn'⟩ := h.slot_iff.mp hs'
    exact h.once D E i j x y k hD hE hi hj hn hn'

theorem sane : m.Sane := ⟨h.mounted,h.ledger,h.sound⟩

theorem unique : Unique m.tree := by
  intro D i j x k l hs hs'
  obtain ⟨hD,hn⟩ := h.slot_iff.mp hs
  exact h.distinct D i j x k l hD hn (h.slot_iff.mp hs').2

theorem free_zero (h3 : 3 ≤ k) (hk : k < m.books.num) (hb : m.ibit k = false) : m.inode k = Inode.zero := by
  refine h.free k h3 ?_ hb
  rw [Books.num, show m.books.clusterSize = m.clusterSize from rfl, h.cluster] at hk
  exact hk

end Accounted

namespace Consistent
variable (h : m.Consistent)
include h

theorem accounted : m.Accounted := by
  obtain ⟨h0,h1,h2,_⟩ := h.reserved
  refine
    { mounted := h.mounted, cluster := h.cluster, blocks := h.blocks.2, reserved := fun k hk => ?_, ino := h.ino
      type := h.type, tail := fun k hk _ => h.tail k hk, dirSize := h.dirSize, free := h.free, root := h.root
      dot := h.dot, dotdot := fun D hD => ?_, named := h.named, once := h.once, names := h.names
      distinct := h.distinct, owner := h.owner, single := h.single }
  · rcases (show k = 0 ∨ k = 1 ∨ k = 2 by omega) with rfl | rfl | rfl
    · exact h0
    · exact h1
    · exact h2
  · by_cases hr : D = 2
    · subst hr
      exact ⟨2,h.rootUp⟩
    · have h3 : 3 ≤ D := by
        have := hD.allocated.1
        omega
      obtain ⟨E,i,x,hE,hi,hn⟩ := h.named D h3 hD.allocated
      exact ⟨E,h.up D E i x hD hE hi hn⟩

theorem whole : m.Whole := by
  have hc := h.accounted
  refine ⟨hc.sane,h.cluster,h.blocks,hc.unique,fun k hk hr => ?_,⟨?_,?_⟩,
    ⟨fun k hk => ?_,fun k hk => ?_,fun k h3 hn hb => hc.free_zero h3 hn hb,fun k b ho => ?_,?_⟩⟩
  · have ha := hc.kind_ne_none.mp hk
    have h3 : 3 ≤ k := by
      have := ha.1
      have : k ≠ 2 := hr
      omega
    obtain ⟨D,i,x,hD,hi,hn⟩ := h.named k h3 ha
    exact ⟨D,i,x,hi,hc.slot_iff.mpr ⟨hD,hn⟩⟩
  · exact hc.slot_iff.mpr ⟨h.root,h.rootUp⟩
  · intro D i x k hi hs hk
    obtain ⟨hD,hn⟩ := hc.slot_iff.mp hs
    have hk := hc.kind_iff.mp hk
    exact hc.slot_iff.mpr ⟨hk,h.up k D i x hk hD hi hn⟩
  · obtain ⟨hl,ht⟩ := Books.kind_eq_file.mp hk
    exact h.links k (hc.live_iff.mp hl) ht
  · exact h.tail k (hc.live_iff.mp (Books.kind_eq_file.mp hk).1)
  · obtain ⟨ha,hs,haddr⟩ := hc.owns_iff.mp ho
    obtain ⟨c,hcm,hca,_⟩ := h.owner k ha hs
    rwa [ho.unique_block hc.ledger.clusterSize_pos ⟨ho.live,hs,hca⟩]
  · exact hc.owns_iff.mpr ⟨h.root.allocated,by rw [h.dirSize 2 h.root]; decide,h.rootBlock⟩

end Consistent

/-! ## Whole volumes are consistent -/

theorem Whole.consistent (h : m.Whole) : m.Consistent := by
  have hl := h.sane.ledger
  have hs := h.sane.sound
  have ha : ∀ {k}, m.Allocated k ↔ m.books.Live k := allocated_iff h.cluster
  have hdir : ∀ {D}, m.LiveDir D ↔ m.tree.kind D = some .dir := liveDir_iff h.cluster hl
  have hslot : ∀ {D i x k}, m.tree.slot D i = some (x,k) ↔ m.LiveDir D ∧ m.SlotNames D i x k := slot_iff h.cluster hl
  have hkind : ∀ {k}, m.tree.kind k ≠ none ↔ m.Allocated k := fun {k} => by
    rw [ha]
    exact (Books.kind_eq_none (c := m.books)).not.trans not_not
  have hown : ∀ {k b}, m.Allocated k → (m.inode k).iSize ≠ 0 → m.dataAddr k = m.blockAddr b → m.books.Owns k b :=
    fun hk hz hb => ⟨ha.mp hk,hz,hb⟩
  have hroot : m.LiveDir 2 := hdir.mpr hs.root
  refine
    { mounted := h.sane.mounted, cluster := h.cluster, blocks := h.blocks
      reserved := ⟨hl.reserved 0 (by omega),hl.reserved 1 (by omega),hl.reserved 2 le_rfl,?_⟩
      ino := fun k hk => hl.ino_toNat (ha.mp hk), type := fun k hk => (hl.live k (ha.mp hk)).type
      tail := fun k hk => ?_
      dirSize := fun D hD => (hl.live D (ha.mp hD.allocated)).dirSize hD.type
      links := fun k hk ht => h.neat.links k (Books.kind_eq_file.mpr ⟨ha.mp hk,ht⟩)
      free := fun k h3 hk hb => h.neat.zero k h3 ?_ hb
      root := hroot, dot := fun D hD => (hslot.mp (hs.self D (hdir.mp hD))).2, rootUp := (hslot.mp h.upward.root).2
      up := fun D E i x hD hE hi hn => (hslot.mp (h.upward.bound E i x D hi (hslot.mpr ⟨hE,hn⟩) (hdir.mp hD))).2
      named := fun k h3 hk => ?_, once := fun D E i j x y k hD hE hi hj hn hn' =>
        hs.once D i E j x y k hi hj (hslot.mpr ⟨hD,hn⟩) (hslot.mpr ⟨hE,hn'⟩)
      names := fun D i x k hD hi hn => ?_
      distinct := fun D i j x k l hD hn hn' => h.unique D i j x k l (hslot.mpr ⟨hD,hn⟩) (hslot.mpr ⟨hD,hn'⟩)
      owner := fun k hk hz => ?_, single := fun k l hk hl' hzk hzl he => ?_, rootBlock := h.neat.first.addr }
  · obtain ⟨b,hb,_,hset⟩ := hl.own 2 hl.live_root h.neat.first.size
    rwa [hb.unique_block hl.clusterSize_pos h.neat.first] at hset
  · have hlive := ha.mp hk
    rcases (hl.live k hlive).type with ht | ht
    · exact h.neat.tail k (Books.kind_eq_file.mpr ⟨hlive,ht⟩)
    · refine (hl.live k hlive).tail ?_
      rw [(hl.live k hlive).dirSize ht]
      decide
  · rw [Books.num, show m.books.clusterSize = m.clusterSize from rfl, h.cluster]
    exact hk
  · obtain ⟨D,i,x,hi,hn⟩ := h.held k (hkind.mpr hk) (show k ≠ 2 by omega)
    exact ⟨D,i,x,(hslot.mp hn).1,hi,(hslot.mp hn).2⟩
  · obtain ⟨hk,hr⟩ := hs.target D i x k hi (hslot.mpr ⟨hD,hn⟩)
    have hk := hkind.mp hk
    have : k ≠ 2 := hr
    exact ⟨by have := hk.1; omega,hk⟩
  · obtain ⟨b,hb,_,hset⟩ := hl.own k (ha.mp hk) hz
    exact ⟨b,h.neat.below k b hb,hb.addr,hset⟩
  · obtain ⟨b,hb,_⟩ := hl.own k (ha.mp hk) hzk
    exact hl.distinct k l b hb (hown hl' hzl (he.symm.trans hb.addr))

theorem consistent_iff : m.Consistent ↔ m.Whole := ⟨Consistent.whole,Whole.consistent⟩

end Iom

/-! ## Requests -/

/-- The parent is a live directory, the name fits, `do_unlink` is asked for a file and `do_rmdir` for a
directory. -/
def Request.Proper (m : Iom) : Request → Prop
  | create D x _ => m.LiveDir D ∧ ValidName x
  | mkdir D x => m.LiveDir D ∧ ValidName x
  | unlink D x => m.LiveDir D ∧ ValidName x ∧ ∀ i k, m.SlotNames D i x k → (m.inode k).iType = lab4TypeFile
  | rmdir D x => m.LiveDir D ∧ ValidName x ∧ x ≠ dotName ∧ x ≠ dotdotName ∧
      ∀ i k, m.SlotNames D i x k → (m.inode k).iType = lab4TypeDirectory

namespace Iom.Whole
variable (h : m.Whole)
include h

theorem liveDir : m.LiveDir D ↔ m.tree.kind D = some .dir := liveDir_iff h.cluster h.sane.ledger

/-- The parent slot of a directory names a directory. -/
theorem up_dir (hD : m.tree.kind D = some .dir) :
    ∃ p, m.tree.slot D 1 = some (dotdotName,p) ∧ m.tree.kind p = some .dir := by
  by_cases hr : D = shape.root
  · subst hr
    exact ⟨_,h.upward.root,hD⟩
  · obtain ⟨p,j,y,hj,hp⟩ := h.held D (by rw [hD]; exact Option.some_ne_none _) hr
    exact ⟨p,h.upward.bound p j y D hj hp hD,(h.sane.sound.dir p j _ hp).1⟩

/-- Every slot names a live node. -/
theorem bound_live (hs : m.tree.slot D i = some (x,k)) : m.tree.kind k ≠ none := by
  have hD := (h.sane.sound.dir D i _ hs).1
  match i with
  | 0 =>
    rw [h.sane.sound.self D hD] at hs
    cases hs
    rw [hD]
    exact Option.some_ne_none _
  | 1 =>
    obtain ⟨p,hp,hpd⟩ := h.up_dir hD
    rw [hp] at hs
    cases hs
    rw [hpd]
    exact Option.some_ne_none _
  | i + 2 => exact (h.sane.sound.target D (i + 2) x k (by omega) hs).1

/-- What the requests know of a name in a live directory, on the tree. -/
theorem binds_file (hn : ∀ i k, m.SlotNames D i x k → (m.inode k).iType = lab4TypeFile) :
    ∀ k, m.tree.Binds D x k → m.tree.kind k = some .file := by
  rintro k ⟨i,hs⟩
  exact Books.kind_eq_file.mpr ⟨live_of_kind (h.bound_live hs),hn i k ((slot_iff h.cluster h.sane.ledger).mp hs).2⟩

theorem binds_dir (hn : ∀ i k, m.SlotNames D i x k → (m.inode k).iType = lab4TypeDirectory) :
    ∀ k, m.tree.Binds D x k → m.tree.kind k = some .dir := by
  rintro k ⟨i,hs⟩
  exact (Books.kind_eq_dir h.sane.ledger).mpr
    ⟨live_of_kind (h.bound_live hs),hn i k ((slot_iff h.cluster h.sane.ledger).mp hs).2⟩

/-- Files are never bound to a dot name. -/
theorem not_dot (hD : m.tree.kind D = some .dir) (hn : ∀ k, m.tree.Binds D x k → m.tree.kind k = some .file) :
    x ≠ dotName ∧ x ≠ dotdotName := by
  constructor
  · rintro rfl
    cases hD.symm.trans (hn D ⟨0,h.sane.sound.self D hD⟩)
  · rintro rfl
    obtain ⟨p,hp,hpd⟩ := h.up_dir hD
    cases hpd.symm.trans (hn p ⟨1,hp⟩)

theorem ended {q : Request} {r : ℤ} {m' : Iom} (hq : q.Proper m) (he : m.Ended q r m') : m'.Whole := by
  cases he with
  | create hc => exact h.created (h.liveDir.mp hq.1) hq.2 hc
  | mkdir hc => exact h.madeDir (h.liveDir.mp hq.1) hq.2 hc
  | unlink hc => exact h.unlinked (h.binds_file hq.2.2) hc
  | rmdir hc => exact h.removedDir hc

end Iom.Whole

theorem Iom.Whole.admissible {q : Request} (h : m.Whole) (hq : q.Proper m) : q.Admissible m := by
  cases q with
  | create D x mode => exact ⟨h.liveDir.mp hq.1,hq.2⟩
  | mkdir D x => exact ⟨h.liveDir.mp hq.1,hq.2⟩
  | unlink D x =>
    have hD := h.liveDir.mp hq.1
    have hfile := h.binds_file hq.2.2
    exact ⟨hD,hq.2.1,(h.not_dot hD hfile).1,(h.not_dot hD hfile).2,hfile⟩
  | rmdir D x => exact ⟨h.liveDir.mp hq.1,hq.2.1,hq.2.2.1,hq.2.2.2.1,h.binds_dir hq.2.2.2.2⟩

/-! ## The invariant -/

/-- A device with 512-byte sectors and a nominal environment: what format and mount leave. -/
theorem whole_of_formatAndMount {e : Env} {s s' : Sys} {ok : Bool} (he : e.Nominal) (hsec : s.iom.dev.blksszget = 512)
    (hrun : formatAndMount e s = some (ok,s')) (hn : 2 ≤ s'.iom.maxBlock ∧ s'.iom.maxBlock ≤ 8 * 4096) :
    ok = true ∧ s'.iom.Whole := by
  refine (wp_formatAndMount (u := True) (Q := fun ok s' => 2 ≤ s'.iom.maxBlock ∧ s'.iom.maxBlock ≤ 8 * 4096 →
    ok = true ∧ s'.iom.Whole) he (.inl hsec) (fun s1 root a b hroot h1 hn1 => ⟨rfl,?_⟩)).elim hrun hn
  rw [h1] at hn1 ⊢
  exact fresh_whole hsec hroot hn1.1 hn1.2

theorem request_whole {e : Env} {s s' : Sys} {q : Request} {r : ℤ} (he : e.Nominal) (h : s.iom.Whole)
    (hq : q.Proper s.iom) (hrun : q.run e s = some (r,s')) : s'.iom.Whole :=
  (Request.wp_run (Q := fun _ s' => s'.iom.Whole) he h.sane (h.admissible hq) (fun _ _ _ hc hs' => hs' ▸ h.ended hq hc)).elim hrun

/-- Calls of the directory operations, whatever they return. -/
def Orderly (e : Env) (s : Sys) (q : Request) (_ : ℤ) : Prop := e.Nominal ∧ q.Proper s.iom

/-- Consistency holds after format and mount and is kept by every call, so it holds throughout every run. -/
theorem consistent_invariant {e : Env} {s s0 : Sys} {ok : Bool} (he : e.Nominal) (hsec : s.iom.dev.blksszget = 512)
    (hrun : formatAndMount e s = some (ok,s0)) (hn : 2 ≤ s0.iom.maxBlock ∧ s0.iom.maxBlock ≤ 8 * 4096) :
    s0.iom.Consistent ∧
      (∀ {e : Env} {t t' : Sys} {q : Request} {r : ℤ}, e.Nominal → t.iom.Consistent → q.Proper t.iom →
        q.run e t = some (r,t') → t'.iom.Consistent) ∧
      ∀ {t : Sys}, Reached Request.run Orderly s0 t → t.iom.Consistent := by
  have hstep : ∀ {e : Env} {t t' : Sys} {q : Request} {r : ℤ}, e.Nominal → t.iom.Consistent → q.Proper t.iom →
      q.run e t = some (r,t') → t'.iom.Consistent := fun he ht hq hr => (request_whole he ht.whole hq hr).consistent
  have h0 := (whole_of_formatAndMount he hsec hrun hn).2.consistent
  exact ⟨h0,hstep,fun hr => hr.invariant (I := fun t => t.iom.Consistent) h0
    (fun _ _ _ _ _ ht hP hq => hstep hP.1 ht hP.2 hq)⟩

/-! ## A small device -/

/-- An environment in which every call succeeds and fresh memory is zero. -/
def quietEnv : Env := ⟨fun _ => false,fun _ => false,fun _ => 0,fun _ => 0,fun _ => 0,fun _ => zeros,0,0,100⟩

theorem quietEnv_nominal : quietEnv.Nominal := ⟨fun _ => rfl,fun _ => rfl⟩

/-- A blank device of `n` sectors of 512 bytes. -/
def blankDisk (n : ℕ) : Sys := ⟨openDevice ⟨zeros,n,512⟩,0⟩

set_option maxRecDepth 100000 in
theorem blankDisk_mounts : ∃ s0, formatAndMount quietEnv (blankDisk 80) = some (true,s0) ∧ s0.iom.maxBlock = 6 := by
  have h : (formatAndMount quietEnv (blankDisk 80)).map (fun p => (p.1,p.2.iom.maxBlock)) = some (true,6) := by
    decide +kernel
  obtain ⟨⟨ok,s0⟩,hrun,hp⟩ := Option.map_eq_some_iff.mp h
  obtain ⟨rfl,hn⟩ := Prod.ext_iff.mp hp
  exact ⟨s0,hrun,hn⟩

/-- The mounted blank device is a new file system. -/
theorem blankDisk_fresh : ∃ s0 root a b, formatAndMount quietEnv (blankDisk 80) = some (true,s0) ∧
    DirRecord lab4RootIno (4 * (openDevice (blankDisk 80).iom.dev).clusterSize) root ∧
    s0.iom = freshIom (blankDisk 80).iom.dev root quietEnv.heap a b := by
  have hwp : wp False formatAndMount (fun ok s0 => ok = true ∧ ∃ root a b,
      DirRecord lab4RootIno (4 * (openDevice (blankDisk 80).iom.dev).clusterSize) root ∧
        s0.iom = freshIom (blankDisk 80).iom.dev root quietEnv.heap a b) quietEnv (blankDisk 80) :=
    wp_formatAndMount quietEnv_nominal (.inl rfl) (fun _ root a b hroot h => ⟨rfl,root,a,b,hroot,h⟩)
  obtain ⟨ok,s0,hrun,rfl,root,a,b,h⟩ := wp_false.mp hwp
  exact ⟨s0,root,a,b,hrun,h⟩

theorem blankDisk_whole : ∃ s0, formatAndMount quietEnv (blankDisk 80) = some (true,s0) ∧ s0.iom.Whole := by
  obtain ⟨s0,hrun,hn⟩ := blankDisk_mounts
  exact ⟨s0,hrun,(whole_of_formatAndMount quietEnv_nominal rfl hrun (by omega)).2⟩

set_option maxRecDepth 100000 in
/-- Two calls on a new file system: the directory "d" and the file "f". -/
theorem blankDisk_consistent : ∃ s0 s1 s2, formatAndMount quietEnv (blankDisk 80) = some (true,s0) ∧
    (Request.mkdir 2 [100]).run quietEnv s0 = some (lab4Success,s1) ∧
    (Request.create 2 [102] 0).run quietEnv s1 = some (lab4Success,s2) ∧ s2.iom.Consistent := by
  have h : ((do
      let _ ← formatAndMount
      let r ← (Request.mkdir 2 [100]).run
      let r' ← (Request.create 2 [102] 0).run
      return (r,r')) quietEnv (blankDisk 80)).map Prod.fst = some (lab4Success,lab4Success) := by decide +kernel
  obtain ⟨s0,hrun,hn⟩ := blankDisk_mounts
  obtain ⟨⟨⟨r,r'⟩,t⟩,hcalls,heq⟩ := Option.map_eq_some_iff.mp h
  obtain ⟨ok,s0',hfmt,hcalls⟩ := exists_of_bind hcalls
  cases hrun.symm.trans hfmt
  obtain ⟨r1,s1,hmkdir,hcalls⟩ := exists_of_bind hcalls
  obtain ⟨r2,s2,hcreate,hret⟩ := exists_of_bind hcalls
  cases hret
  obtain ⟨rfl,rfl⟩ := Prod.mk.inj heq
  obtain ⟨h0,hstep,hreached⟩ := consistent_invariant quietEnv_nominal rfl hrun (by omega)
  have hproper : (Request.mkdir 2 [100]).Proper s0.iom := ⟨h0.root,by decide,by decide,by decide⟩
  have h1 := hstep quietEnv_nominal h0 hproper hmkdir
  have hproper' : (Request.create 2 [102] 0).Proper s1.iom := ⟨h1.root,by decide,by decide,by decide⟩
  have hrun1 : Reached Request.run Orderly s0 s1 := Reached.refl.call ⟨quietEnv_nominal,hproper⟩ hmkdir
  exact ⟨s0,s1,t,hrun,hmkdir,hcreate,hreached (hrun1.call ⟨quietEnv_nominal,hproper'⟩ hcreate)⟩

end SimpleFS
