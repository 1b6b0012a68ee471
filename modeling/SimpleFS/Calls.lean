import SimpleFS.Lookup
import SimpleFS.Geometry

/-! # Rules for the shared calls when device transfers succeed

Each rule says what one function does to the io manager of a mounted volume, so that no later proof
opens its body. The clock of the state never matters: a rule asks for the postcondition at every state
with the right io manager. Allocations may fail except where `MallocOk` is assumed.
-/
namespace SimpleFS
open Bytes Machine Prog

variable {u : Prop} {e : Env} {s : Sys}

theorem wp_malloc_cases {Q : Bool → Sys → Prop}
    (h : ∀ b s', s'.iom = s.iom → (b = false → ¬e.MallocOk) → Q b s') : wp u malloc Q e s := by
  rw [wp_malloc]
  refine h _ _ rfl (fun hb hok => ?_)
  rw [hok s.clock] at hb
  cases hb

theorem wp_modifyIom_any {f : Iom → Iom} {Q : Unit → Sys → Prop} (h : ∀ s', s'.iom = f s.iom → Q () s') :
    wp u (modifyIom f) Q e s := by
  rw [wp_modifyIom]
  exact h _ rfl

theorem wp_timeNull_any {Q : UInt32 → Sys → Prop} (h : ∀ t s', s'.iom = s.iom → Q t s') : wp u timeNull Q e s := by
  rw [wp_timeNull]
  exact h _ _ rfl

theorem wp_indeterminate_any {Q : ℤ → Sys → Prop} (h : ∀ x s', s'.iom = s.iom → Q x s') :
    wp u indeterminate Q e s := by
  rw [wp_indeterminate]
  exact h _ _ rfl

theorem wp_pread_ok {cap size : ℕ} {buf : Mem} {offset : ℤ} {Q : ℤ × Mem → Sys → Prop} (hio : e.IoOk)
    (h0 : 0 ≤ offset) (hc : size ≤ cap)
    (h : ∀ s', s'.iom = s.iom → Q (toS32 size,splice buf 0 size (s.iom.dev.bytes.shift offset.toNat)) s') :
    wp u (pread cap buf size offset) Q e s := by
  rw [wp_pread, hio s.clock]
  refine ⟨fun hn => ?_,fun _ => ⟨fun hn => ?_,fun _ => h _ rfl⟩⟩
  · rcases hn with hn | hn
    · omega
    · cases hn
  · omega

/-- A transfer that may fail, and where nothing is known of its size. -/
theorem wp_pread_any {cap size : ℕ} {buf : Mem} {offset : ℤ} {Q : ℤ × Mem → Sys → Prop}
    (h : ∀ r s', s'.iom = s.iom → Q r s') : wp True (pread cap buf size offset) Q e s := by
  rw [wp_pread]
  exact ⟨fun _ => h _ _ rfl,fun _ => ⟨fun _ => trivial,fun _ => h _ _ rfl⟩⟩

theorem wp_pwrite_ok {data : Mem} {size : ℕ} {offset : ℤ} {Q : ℤ → Sys → Prop} (hio : e.IoOk) (h0 : 0 ≤ offset)
    (h : ∀ s', s'.iom = s.iom.writeDev offset.toNat size data → Q (toS32 size) s') :
    wp u (pwrite data size offset) Q e s := by
  rw [wp_pwrite, hio s.clock]
  refine ⟨fun hn => ?_,fun _ => h _ rfl⟩
  rcases hn with hn | hn
  · omega
  · cases hn

/-- A transfer that may fail. -/
theorem wp_pwrite_any {data : Mem} {size : ℕ} {offset : ℤ} {Q : ℤ → Sys → Prop}
    (h : ∀ r s', s.iom.OnDev s'.iom →
      (e.IoOk → 0 ≤ offset → r = toS32 size ∧ s'.iom = s.iom.writeDev offset.toNat size data) → Q r s') :
    wp u (pwrite data size offset) Q e s := by
  rw [wp_pwrite]
  refine ⟨fun hf => h _ _ (Iom.OnDev.refl s.iom) (fun hio h0 => ?_),fun _ => h _ _ (Iom.OnDev.writeDev _ _ _ _) (fun _ _ => ⟨rfl,rfl⟩)⟩
  rw [hio] at hf
  rcases hf with hf | hf
  · omega
  · cases hf

/-! ## Metadata clusters -/

theorem wp_flushCluster_any {buf : Mem} {start : ℕ} {Q : ℤ → Sys → Prop}
    (h : ∀ r s', s.iom.OnDev s'.iom → (e.IoOk → s'.iom = s.iom.writeDev start s.iom.sbi.clusterSize buf) → Q r s') :
    wp u (flushCluster (some buf) start) Q e s := by
  simp only [flushCluster, wp_bind, wp_getIom]
  apply wp_pwrite_any
  intro r s1 h1 hok
  have hok' := fun hio => (hok hio (Int.natCast_nonneg start)).2
  rw [Int.toNat_natCast] at hok'
  rw [wp_ite, wp_pure, wp_pure]
  exact ⟨fun _ => h _ s1 h1 hok',fun _ => h _ s1 h1 hok'⟩

section Any
variable {Q : ℤ → Sys → Prop}

theorem wp_updateSb_any (h : ∀ r s', s.iom.OnDev s'.iom → (e.IoOk → s'.iom = s.iom.flushSb) → Q r s') :
    wp u updateSb Q e s := by
  simp only [updateSb, wp_bind, wp_getIom]
  exact wp_flushCluster_any h

theorem wp_updateIbmap_any (hm : s.iom.Mounted)
    (h : ∀ r s', s.iom.OnDev s'.iom → (e.IoOk → s'.iom = s.iom.flushIbmap) → Q r s') : wp u updateIbmap Q e s := by
  simp only [updateIbmap, wp_bind, wp_getIom, hm.ibmap_eq]
  exact wp_flushCluster_any h

theorem wp_updateDbmap_any (hm : s.iom.Mounted)
    (h : ∀ r s', s.iom.OnDev s'.iom → (e.IoOk → s'.iom = s.iom.flushDbmap) → Q r s') : wp u updateDbmap Q e s := by
  simp only [updateDbmap, wp_bind, wp_getIom, hm.dbmap_eq]
  exact wp_flushCluster_any h

theorem wp_updateItble_any (h : ∀ r s', s.iom.OnDev s'.iom → (e.IoOk → s'.iom = s.iom.flushItble) → Q r s') :
    wp u updateItble Q e s := by
  simp only [updateItble, wp_bind, wp_getIom]
  exact wp_flushCluster_any h

theorem wp_updateMetadata_any {Q : Unit → Sys → Prop} (hm : s.iom.Mounted)
    (h : ∀ s', s.iom.OnDev s'.iom → (e.IoOk → s'.iom = s.iom.flushAll) → Q () s') : wp u updateMetadata Q e s := by
  simp only [updateMetadata, wp_bind]
  apply wp_updateSb_any
  intro _ s1 h1 hok1
  apply wp_updateIbmap_any (h1.mounted hm)
  intro _ s2 h2 hok2
  have h12 := h1.trans h2
  apply wp_updateDbmap_any (h12.mounted hm)
  intro _ s3 h3 hok3
  apply wp_updateItble_any
  intro _ s4 h4 hok4
  rw [wp_pure]
  refine h s4 (h12.trans (h3.trans h4)) (fun hio => ?_)
  rw [hok4 hio, hok3 hio, hok2 hio, hok1 hio]
  rfl

end Any

theorem wp_flushCluster {buf : Mem} {start : ℕ} {Q : ℤ → Sys → Prop} (hio : e.IoOk) (hm : s.iom.Mounted)
    (h : ∀ s', s'.iom = s.iom.writeDev start s.iom.sbi.clusterSize buf → Q lab4Success s') :
    wp u (flushCluster (some buf) start) Q e s := by
  have hne : toS32 s.iom.sbi.clusterSize ≠ lab4Error := by
    rw [hm.sbiCluster]
    exact hm.clusterSize_ne_error
  simp only [flushCluster, wp_bind, wp_getIom]
  apply wp_pwrite_ok hio (Int.natCast_nonneg start)
  intro s1 h1
  rw [if_neg hne, wp_pure]
  exact h s1 (by rw [h1, Int.toNat_natCast])

theorem wp_updateSb {Q : ℤ → Sys → Prop} (hio : e.IoOk) (hm : s.iom.Mounted)
    (h : ∀ s', s'.iom = s.iom.flushSb → Q lab4Success s') : wp u updateSb Q e s := by
  simp only [updateSb, wp_bind, wp_getIom]
  exact wp_flushCluster hio hm h

theorem wp_updateIbmap {Q : ℤ → Sys → Prop} (hio : e.IoOk) (hm : s.iom.Mounted)
    (h : ∀ s', s'.iom = s.iom.flushIbmap → Q lab4Success s') : wp u updateIbmap Q e s := by
  simp only [updateIbmap, wp_bind, wp_getIom, hm.ibmap_eq]
  exact wp_flushCluster hio hm h

theorem wp_updateDbmap {Q : ℤ → Sys → Prop} (hio : e.IoOk) (hm : s.iom.Mounted)
    (h : ∀ s', s'.iom = s.iom.flushDbmap → Q lab4Success s') : wp u updateDbmap Q e s := by
  simp only [updateDbmap, wp_bind, wp_getIom, hm.dbmap_eq]
  exact wp_flushCluster hio hm h

theorem wp_updateItble {Q : ℤ → Sys → Prop} (hio : e.IoOk) (hm : s.iom.Mounted)
    (h : ∀ s', s'.iom = s.iom.flushItble → Q lab4Success s') : wp u updateItble Q e s := by
  simp only [updateItble, wp_bind, wp_getIom]
  exact wp_flushCluster hio hm h

theorem wp_updateMetadata {Q : Unit → Sys → Prop} (hio : e.IoOk) (hm : s.iom.Mounted)
    (h : ∀ s', s'.iom = s.iom.flushAll → Q () s') : wp u updateMetadata Q e s :=
  wp_updateMetadata_any hm (fun s' _ hok => h s' (hok hio))

/-! ## Restoring -/

/-- What a restoring read leaves in its buffer: the cluster on the device, or what was there before. -/
def Iom.Reloads (m : Iom) (b : Mem) (start : ℕ) (r : ℤ) (b' : Mem) : Prop :=
  r = lab4Error ∧ b' = b ∨ r = lab4Success ∧ b' = splice b 0 m.clusterSize (m.dev.bytes.shift start)

theorem wp_reloadCluster {b : Mem} {start : ℕ} {store : Iom → Mem → Iom} {Q : ℤ → Sys → Prop} (hm : s.iom.Mounted)
    (h : ∀ r b' s', s.iom.Reloads b start r b' → s'.iom = store s.iom b' → Q r s') :
    wp u (reloadCluster (some b) start store) Q e s := by
  have hne := hm.clusterSize_ne_error
  simp only [reloadCluster, wp_bind, wp_getIom, hm.sbiCluster]
  rw [wp_pread]
  refine ⟨fun _ => ?_,fun _ => ⟨fun hn => absurd hn (Nat.lt_irrefl _),fun _ => ?_⟩⟩
  · apply wp_modifyIom_any
    intro s1 h1
    rw [if_pos rfl, wp_pure]
    exact h _ _ s1 (.inl ⟨rfl,rfl⟩) h1
  · apply wp_modifyIom_any
    intro s1 h1
    rw [if_neg hne, wp_pure]
    exact h _ _ s1 (.inr ⟨rfl,by rw [Int.toNat_natCast]⟩) h1

theorem wp_restoreIbmap {Q : ℤ → Sys → Prop} (hm : s.iom.Mounted)
    (h : ∀ r b s', s.iom.Reloads s.iom.ibmap s.iom.clusterSize r b → s'.iom = s.iom.setIbmap b → Q r s') :
    wp u restoreIbmap Q e s := by
  simp only [restoreIbmap, wp_bind, wp_getIom, hm.ibmap_eq, hm.ibitmapStart]
  exact wp_reloadCluster hm h

theorem wp_restoreDbmap {Q : ℤ → Sys → Prop} (hm : s.iom.Mounted)
    (h : ∀ r b s', s.iom.Reloads s.iom.dbmap (2 * s.iom.clusterSize) r b → s'.iom = s.iom.setDbmap b → Q r s') :
    wp u restoreDbmap Q e s := by
  simp only [restoreDbmap, wp_bind, wp_getIom, hm.dbmap_eq, hm.dbitmapStart]
  exact wp_reloadCluster hm h

theorem wp_restoreItble {Q : ℤ → Sys → Prop} (hm : s.iom.Mounted)
    (h : ∀ r b s', s.iom.Reloads s.iom.iomBufItble (3 * s.iom.clusterSize) r b → s'.iom = { s.iom with iomBufItble := b } →
      Q r s') : wp u restoreItble Q e s := by
  simp only [restoreItble, wp_bind, wp_getIom, hm.itableStart]
  exact wp_reloadCluster hm h

/-! ## Records -/

theorem wp_doReadInode {ino : UInt32} {Q : Option Inode → Sys → Prop}
    (hnone : ∀ s', s'.iom = s.iom → ino.toNat < 2 ∨ ¬e.MallocOk → Q none s')
    (hbig : 2 ≤ ino.toNat → s.iom.inodeNum ≤ ino.toNat → u)
    (hsome : ∀ s', s'.iom = s.iom → 2 ≤ ino.toNat → ino.toNat < s.iom.inodeNum →
      Q (some (s.iom.inode ino.toNat)) s') : wp u (doReadInode ino) Q e s := by
  simp only [doReadInode, wp_ite, wp_pure]
  refine ⟨fun hlow => hnone s rfl (.inl hlow),fun hlow => ?_⟩
  rw [lab4RootIno, Nat.not_lt] at hlow
  rw [wp_bind]
  apply wp_malloc_cases
  intro b s1 h1 hb
  cases b with
  | false =>
    rw [wp_ite, wp_pure]
    exact ⟨fun _ => hnone s1 h1 (.inr (hb rfl)),fun hn => absurd rfl hn⟩
  | true =>
    simp only [Bool.not_true, Bool.false_eq_true, ↓reduceIte, wp_bind, wp_getIom, h1, wp_ite, wp_undefined, wp_pure]
    exact ⟨hbig hlow,fun hn => hsome s1 h1 hlow (by omega)⟩

/-- A record of the table is read unless the allocation of its copy fails. -/
theorem wp_doReadInode_at {ino : UInt32} {Q : Option Inode → Sys → Prop} (hlo : 2 ≤ ino.toNat)
    (hhi : ino.toNat < s.iom.inodeNum) (hfail : e.mallocFails s.clock = true → Q none s.next)
    (hok : e.mallocFails s.clock = false → Q (some (s.iom.inode ino.toNat)) s.next) : wp u (doReadInode ino) Q e s := by
  have hroot : ¬ino.toNat < lab4RootIno := Nat.not_lt.mpr hlo
  unfold doReadInode
  rw [if_neg hroot, wp_bind, wp_malloc, wp_ite, wp_pure, wp_bind, wp_getIom, Sys.next_iom, if_neg (Nat.not_le.mpr hhi),
    wp_pure]
  exact ⟨fun hm => hfail (by simpa using hm),fun hm => hok (by simpa using hm)⟩

theorem newInoPos_le {m : Iom} {k : ℕ} (hm : m.Mounted) (hk : k < m.inodeNum) :
    ¬toS32 (k * lab4InodeEntrySize : ℕ) > m.sbi.clusterSize := by
  have hle := hm.cluster_le
  have hmul := hm.inodeNum_mul
  have hpos : k * lab4InodeEntrySize ≤ m.clusterSize := hmul ▸ Nat.mul_le_mul_right lab4InodeEntrySize hk.le
  rw [toS32_natCast (by omega), hm.sbiCluster]
  exact_mod_cast Nat.not_lt.mpr hpos

theorem wp_writeInodeToItble {v : Inode} {Q : ℤ → Sys → Prop} (hm : s.iom.Mounted)
    (hv : v.iIno.toNat < s.iom.inodeNum)
    (h : ∀ s', s'.iom = s.iom.setInode v.iIno.toNat v → Q lab4Success s') : wp u (writeInodeToItble v) Q e s := by
  have hpos := newInoPos_le hm hv
  push_cast at hpos
  unfold writeInodeToItble
  rw [wp_bind, wp_getIom, wp_ite]
  simp only [wp_ite, wp_bind, wp_pure, wp_setIom]
  exact ⟨fun hn => absurd hn hpos,fun _ => ⟨fun hn => absurd hn (Nat.not_le.mpr hv),fun _ => h _ rfl⟩⟩

theorem wp_bumpLink {f : UInt32 → UInt32} {k : UInt32} {Q : Unit → Sys → Prop} (hk : k.toNat < s.iom.inodeNum)
    (h : ∀ s', s'.iom = s.iom.addLink f k.toNat → Q () s') : wp u (bumpLink f k) Q e s := by
  simp only [bumpLink, wp_bind, wp_getIom, wp_ite, wp_setIom]
  exact ⟨fun hn => by omega,fun _ => h _ rfl⟩

/-- A number behind the table has no defined behaviour. -/
theorem wp_bumpLink_any {f : UInt32 → UInt32} {k : UInt32} {Q : Unit → Sys → Prop} (hu : ¬k.toNat < s.iom.inodeNum → u)
    (h : ∀ s', k.toNat < s.iom.inodeNum → s'.iom = s.iom.addLink f k.toNat → Q () s') : wp u (bumpLink f k) Q e s := by
  by_cases hk : k.toNat < s.iom.inodeNum
  · exact wp_bumpLink hk (fun s' => h s' hk)
  · simp only [bumpLink, wp_bind, wp_getIom, wp_ite, wp_undefined]
    exact ⟨fun _ => hu hk,fun hn => absurd (Nat.not_le.mp hn) hk⟩

end SimpleFS
