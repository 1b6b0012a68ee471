import SimpleFS.RenameEffects
import SimpleFS.Fuse

/-! # The outcomes of the directory operations

In a sane state each operation on a live directory ends in one of a few ways, told apart by whether the
directory binds the name. Each way is the change of the io manager it makes.
-/
namespace SimpleFS
open Bytes Machine Prog SlotTree

variable {m : Iom} {D k i : ℕ} {x : List UInt8}

/-- How `lab4_createfile` ends, with the record it hands out. -/
inductive Iom.Created (m : Iom) (D : ℕ) (x : List UInt8) : ℤ × Option Inode → Iom → Prop
  | exists {k : ℕ} (h : m.tree.Binds D x k) : Created m D x (-eexist,none) m
  | refused (h : ∀ k, ¬m.tree.Binds D x k) : Created m D x (lab4Error,none) m
  | done {k i : ℕ} {v : Inode} {found : Bool} (h : ∀ k, ¬m.tree.Binds D x k) (hk : k < m.inodeNum)
      (hbit : m.ibit k = false) (hv : FileRecord k v) (hf : m.freeScan (m.inode D) = some (found,i)) :
      Created m D x (lab4Success,some v)
        (m.createFile k v (slotAddr (m.inode D) i) (DirEntry.used (UInt32.ofNat k) 1 x))

/-- How `do_mkdir` ends. -/
inductive Iom.MadeDir (m : Iom) (D : ℕ) (x : List UInt8) : ℤ → Iom → Prop
  | exists {k : ℕ} (h : m.tree.Binds D x k) : MadeDir m D x (-eexist) m
  | done {k b i : ℕ} {v : Inode} {found : Bool} (h : ∀ k, ¬m.tree.Binds D x k) (hk : k < m.inodeNum)
      (hbit : m.ibit k = false) (hbm : b < m.maxBlock) (hb : m.dbit b = false)
      (hfirst : m.sbi.lastAllocatedBlknr < m.maxBlock → ∀ q, m.sbi.lastAllocatedBlknr ≤ q → q < b → m.dbit q = true)
      (hv : DirRecord k (m.blockAddr b) v) (hf : m.freeScan (m.inode D) = some (found,i)) :
      MadeDir m D x lab4Success
        (m.makeDir k b v (slotAddr (m.inode D) i) (DirEntry.used (UInt32.ofNat k) 0 x) (m.inode D).iIno)

/-- How `do_unlink` ends. -/
inductive Iom.Unlinked (m : Iom) (D : ℕ) (x : List UInt8) : ℤ → Iom → Prop
  | missing (h : ∀ k, ¬m.tree.Binds D x k) : Unlinked m D x (-enoent) m
  | refused {k : ℕ} (h : m.tree.Binds D x k) : Unlinked m D x lab4Error m
  /-- A link is left. -/
  | entry {k i : ℕ} (he : m.Entry D i x k) (hl : (m.inode k).iLinksCount ≠ 1) :
      Unlinked m D x lab4Success (m.unlinkEntry (slotAddr (m.inode D) i) (m.slotEntry D i).deleted)
  | empty {k i : ℕ} (he : m.Entry D i x k) (hl : (m.inode k).iLinksCount = 1) (hs : (m.inode k).iSize = 0) :
      Unlinked m D x lab4Success (m.unlinkEmpty k (slotAddr (m.inode D) i) (m.slotEntry D i).deleted)
  | data {k i b : ℕ} (he : m.Entry D i x k) (hl : (m.inode k).iLinksCount = 1) (ho : m.books.Owns k b) :
      Unlinked m D x lab4Success (m.unlinkFile k b (slotAddr (m.inode D) i) (m.slotEntry D i).deleted)

/-- How `do_rmdir` ends when the name belongs to a directory. -/
inductive Iom.RemovedDir (m : Iom) (D : ℕ) (x : List UInt8) : ℤ → Iom → Prop
  | missing (h : ∀ k, ¬m.tree.Binds D x k) : RemovedDir m D x (-enoent) m
  | refused {k : ℕ} {res : ℤ} (h : m.tree.Binds D x k) (hr : res = lab4Error ∨ res = -enotempty) : RemovedDir m D x res m
  | done {k i b j : ℕ} (he : m.Entry D i x k) (hk : m.tree.kind k = some .dir)
      (hempty : m.usedScan k = some (false,j)) (ho : m.books.Owns k b) :
      RemovedDir m D x lab4Success
        (m.removeDir k b (slotAddr (m.inode D) i) (m.slotEntry D i).deleted D)

variable {e : Env} {s : Sys}

section Rules
variable (he : e.Nominal) (h : s.iom.Sane) (hD : s.iom.tree.kind D = some .dir) (hx : ValidName x)
include he h hD hx

omit he hx in
/-- The number in the record of a directory is its index, and a table index. -/
theorem dir_ino : (s.iom.inode D).iIno.toNat = D ∧ 2 ≤ D ∧ D < s.iom.inodeNum :=
  ⟨h.ino_dir hD,Iom.Mounted.dir_live h.ledger hD⟩

omit he in
/-- The slots of a directory can be looked through. -/
theorem searchable : (s.iom.scan (lookupTest x) (s.iom.inode D).iIno.toNat).isSome ∧ (s.iom.freeScan (s.iom.inode D)).isSome := by
  obtain ⟨hino,_,_⟩ := dir_ino h hD
  rw [hino, h.mounted.freeScan_eq h.ledger hD]
  exact ⟨h.mounted.scan_isSome h.ledger hD (lookupTest_isSome hx.lt),h.mounted.scan_isSome h.ledger hD (fun _ => rfl)⟩

theorem wp_created_any {u : Prop} {mode : ℕ} {Q : ℤ × Option Inode → Sys → Prop}
    (hu : ¬(s.iom.InodeReady ∧ s.iom.InodeRoom (-2)) → u)
    (hQ : ∀ r m' s', s.iom.Created D x r m' → (r.1 = lab4Success → m'.InodeRoom 1) → s'.iom = m' → Q r s') :
    wp u (lab4Createfile (s.iom.inode D) x mode) Q e s := by
  obtain ⟨hino,hD2,hDn⟩ := dir_ino h hD
  have hmiss : (e.MallocOk → 2 ≤ (s.iom.inode D).iIno.toNat →
      ∃ j, s.iom.scan (lookupTest x) (s.iom.inode D).iIno.toNat = some (false,j)) → ∀ k, ¬s.iom.tree.Binds D x k := by
    intro hn
    rw [hino] at hn
    obtain ⟨j,hj⟩ := hn he.malloc hD2
    exact Iom.Mounted.scan_not_found h.ledger hD hx.lt hj
  have hhi : (s.iom.inode D).iIno.toNat < s.iom.inodeNum := hino.symm ▸ hDn
  obtain ⟨hlook,hfree⟩ := searchable h hD hx
  refine wp_lab4Createfile he.io h.mounted (h.parent hD)
    (fun hn => hu (fun hr => hn ⟨he.malloc,fun _ => hhi,fun _ => hlook,hr.1,hfree,hr.2⟩)) (fun _ _ hl => ?_)
    (fun s' i hs' _ _ hscan => ?_)
    (fun s' hs' _ hn => ?_) (fun _ hn => absurd he.malloc hn)
    (fun s' k v found i _ _ hn hk hbit hroom hroom' hv hf hs' => ?_)
  · have := hx.pos
    have := hx.lt
    omega
  · rw [hino] at hscan
    exact hQ _ _ _ (.exists ⟨i,(Iom.Mounted.scan_found h.ledger hD hx.lt hscan).2⟩) (fun hr => absurd hr (by decide)) hs'
  · exact hQ _ _ _ (.refused (hmiss hn)) (fun hr => absurd hr (by decide)) hs'
  · exact hQ _ _ _ (.done (hmiss hn) hk hbit hv hf) (fun _ => (inodeRoom_createFile hroom hroom').mpr hroom) hs'

theorem wp_created {mode : ℕ} {Q : ℤ × Option Inode → Sys → Prop}
    (hQ : ∀ r m' s', s.iom.Created D x r m' → (r.1 = lab4Success → m'.InodeRoom 1) → s'.iom = m' → Q r s') :
    wp True (lab4Createfile (s.iom.inode D) x mode) Q e s := wp_created_any he h hD hx (fun _ => trivial) hQ

theorem wp_madeDir_any {u : Prop} {Q : ℤ → Sys → Prop}
    (hu : (∀ k, ¬s.iom.tree.Binds D x k) → ¬(s.iom.InodeReady ∧ s.iom.BlockReady) → u)
    (hQ : ∀ r m' s', s.iom.MadeDir D x r m' → (r = lab4Success → s.iom.CountersFit → m'.InodeRoom 1 ∧ m'.BlockRoom 1) →
      s'.iom = m' → Q r s') :
    wp u (doMkdir (s.iom.inode D) x) Q e s := by
  obtain ⟨hino,hD2,hDn⟩ := dir_ino h hD
  have hlo : 2 ≤ (s.iom.inode D).iIno.toNat := hino.symm ▸ hD2
  have hhi : (s.iom.inode D).iIno.toNat < s.iom.inodeNum := hino.symm ▸ hDn
  obtain ⟨hlook,hfree⟩ := searchable h hD hx
  refine wp_doMkdir_any he.io h.mounted (h.parent hD)
    (fun hmiss hn => hu ?_ (fun hr => hn ⟨he.malloc,hhi,fun _ => hlook,hr.1,hr.2,hx.lt,hfree⟩))
    (fun s' i hs' _ _ hscan => ?_) (fun _ hn => absurd he.malloc hn)
    (fun s' k b v found i _ hn hk hbit hroom hbm hb hblocks hfirst hv hf _ hs' => ?_)
  · obtain ⟨⟨found,i⟩,hscan⟩ := Option.isSome_iff_exists.mp hlook
    cases found with
    | true => exact absurd hscan (hmiss hlo hhi he.malloc i)
    | false =>
      rw [hino] at hscan
      exact Iom.Mounted.scan_not_found h.ledger hD hx.lt hscan
  · rw [hino] at hscan
    exact hQ _ _ _ (.exists ⟨i,(Iom.Mounted.scan_found h.ledger hD hx.lt hscan).2⟩) (fun hr => absurd hr (by decide)) hs'
  · rw [hino] at hn
    obtain ⟨j,hj⟩ := hn he.malloc hD2
    exact hQ _ _ _ (.done (Iom.Mounted.scan_not_found h.ledger hD hx.lt hj) hk hbit hbm hb hfirst hv hf)
      (fun _ hfit => ⟨(inodeRoom_makeDir hroom).mpr hfit.inodeRoom,(blockRoom_makeDir hblocks).mpr hfit.blockRoom⟩) hs'

theorem wp_madeDir {Q : ℤ → Sys → Prop}
    (hQ : ∀ r m' s', s.iom.MadeDir D x r m' → (r = lab4Success → s.iom.CountersFit → m'.InodeRoom 1 ∧ m'.BlockRoom 1) →
      s'.iom = m' → Q r s') :
    wp True (doMkdir (s.iom.inode D) x) Q e s := wp_madeDir_any he h hD hx (fun _ _ => trivial) hQ

variable (hdot : x ≠ dotName) (hdd : x ≠ dotdotName)
include hdot hdd

omit he in
/-- The removal of a name stays inside the buffers when what it gives back has room. -/
theorem removable (hroom : ∀ k, s.iom.tree.Binds D x k → s.iom.Releasable (s.iom.inode k)) :
    s.iom.Removable (s.iom.inode D) x := by
  obtain ⟨hino,hD2,hDn⟩ := dir_ino h hD
  refine ⟨fun _ => by rw [hino]; exact hDn,?_,fun i _ hscan => ?_⟩
  · rw [hino]
    exact h.mounted.scan_isSome h.ledger hD (lookupTest_isSome hx.lt)
  · rw [hino] at hscan
    have hE := h.entry_of_scan hD hx hdot hdd hscan
    exact ⟨(h.entry_live hE).1.2.1,hroom _ ⟨i,hE.bound⟩⟩

theorem wp_unlinked {u : Prop} {Q : ℤ → Sys → Prop}
    (hu : ¬(∀ k, s.iom.tree.Binds D x k → s.iom.Releasable (s.iom.inode k)) → u)
    (hQ : ∀ r m' s', s.iom.Unlinked D x r m' → (∀ k, s.iom.tree.Binds D x k → r = lab4Success) → s'.iom = m' → Q r s') :
    wp u (doUnlink (s.iom.inode D) x) Q e s := by
  obtain ⟨hino,hD2,hDn⟩ := dir_ino h hD
  have hent : ∀ i, s.iom.scan (lookupTest x) D = some (true,i) → s.iom.Entry D i x (s.iom.slotIno (s.iom.inode D) i) :=
    fun i hi => h.entry_of_scan hD hx hdot hdd hi
  replace hu : ¬s.iom.Removable (s.iom.inode D) x → u := fun hn => hu (fun hr => hn (removable h hD hx hdot hdd hr))
  refine wp_doUnlink he.io h.mounted (h.parent hD) (fun h2 hn => hu (fun hr => Nat.not_le.mpr (hr.parent h2) hn))
    (fun hn => hu (fun hr => Option.isSome_iff_ne_none.mp hr.scan hn))
    (fun i hlo hscan hn => hu (fun hr => Nat.not_le.mpr (hr.target i hlo hscan).1 hn))
    (fun i hlo hscan _ hn => hu (fun hr => hn (hr.target i hlo hscan).2))
    (fun i _ hscan _ _ _ => ?_) (fun s' hs' hn => ?_) (fun s' i hs' _ _ hscan => ?_)
    (fun s' i k d _ _ hscan hk _ hkn hd hcase => ?_)
  · rw [hino] at hscan
    exact h.recordOk (h.entry_live (hent i hscan)).1
  · rw [hino] at hn
    obtain ⟨i,hi,hlow⟩ := hn he.malloc hD2
    have := (h.entry_live (hent i hi)).2
    omega
  · rw [hino] at hscan
    have hmiss := Iom.Mounted.scan_not_found h.ledger hD hx.lt hscan
    exact hQ _ _ _ (.missing hmiss) (fun k hk => absurd hk (hmiss k)) hs'
  · rw [hino] at hscan hd
    have hE := hent i hscan
    rw [hk] at hE
    subst hd
    rcases hcase with ⟨hl,hs'⟩ | ⟨hl,hz,_,hs'⟩ | ⟨hl,hz,b,hb,hs'⟩
    · exact hQ _ _ _ (.entry hE hl) (fun _ _ => rfl) hs'
    · exact hQ _ _ _ (.empty hE hl hz) (fun _ _ => rfl) hs'
    · exact hQ _ _ _ (.data hE hl ⟨(h.entry_live hE).1,hz,hb⟩) (fun _ _ => rfl) hs'

theorem wp_removedDir {u : Prop} {Q : ℤ → Sys → Prop}
    (hdirs : ∀ k, s.iom.tree.Binds D x k → s.iom.tree.kind k = some .dir)
    (hu : ¬(∀ k, s.iom.tree.Binds D x k → s.iom.Releasable (s.iom.inode k)) → u)
    (hQ : ∀ r m' s', s.iom.RemovedDir D x r m' →
      (∀ i k j, s.iom.scan (lookupTest x) D = some (true,i) → s.iom.Entry D i x k → s.iom.usedScan k = some (false,j) →
        r = lab4Success) → s'.iom = m' → Q r s') :
    wp u (doRmdir (s.iom.inode D) x) Q e s := by
  obtain ⟨hino,hD2,hDn⟩ := dir_ino h hD
  have hent : ∀ i, s.iom.scan (lookupTest x) D = some (true,i) → s.iom.Entry D i x (s.iom.slotIno (s.iom.inode D) i) :=
    fun i hi => h.entry_of_scan hD hx hdot hdd hi
  have hsize : ∀ k, s.iom.tree.kind k = some .dir → (s.iom.inode k).iSize ≠ 0 := by
    intro k hk
    rw [show (s.iom.inode k).iSize = 4096 from h.ledger.dir_size hk]
    decide
  refine wp_doRmdir he.io h.mounted (h.parent hD)
    (fun hn => hu (fun hr => hn ⟨removable h hD hx hdot hdd hr,he.malloc,fun i _ hscan => ?_⟩))
    (fun i _ hscan _ _ => ?_) (fun s' hs' hn => ?_) (fun s' i _ hscan hlow => ?_) (fun s' i hs' _ _ hscan => ?_)
    (fun s' i j hs' hscan hj => ?_) (fun s' i k b j d _ _ hscan hk _ _ hd hempty hb _ _ hs' => ?_)
  · rw [hino] at hscan
    exact h.mounted.usedScan_isSome h.ledger (hdirs _ ⟨i,(hent i hscan).bound⟩)
  · rw [hino] at hscan
    have hE := hent i hscan
    exact ⟨h.recordOk (h.entry_live hE).1,hsize _ (hdirs _ ⟨i,hE.bound⟩)⟩
  · have := hn he.malloc
    omega
  · rw [hino] at hscan
    have := (h.entry_live (hent i hscan)).2
    rcases hlow with hlow | hlow
    · omega
    · exact absurd he.malloc hlow
  · rw [hino] at hscan
    refine hQ _ _ _ (.missing (Iom.Mounted.scan_not_found h.ledger hD hx.lt hscan)) (fun i' k j hs _ _ => ?_) hs'
    cases hs.symm.trans hscan
  · rw [hino] at hscan
    refine hQ _ _ _ (.refused ⟨i,(hent i hscan).bound⟩ (.inr rfl)) (fun i' k j' hs hE hj' => ?_) hs'
    cases hs.symm.trans hscan
    have hk := hE.bound.symm.trans (hent i hscan).bound
    rw [Option.some.injEq, Prod.mk.injEq] at hk
    rw [← hk.2] at hj
    cases hj.symm.trans hj'
  · rw [hino] at hscan hd hs'
    have hE := hent i hscan
    rw [hk] at hE
    have hkind := hdirs k ⟨i,hE.bound⟩
    subst hd
    exact hQ _ _ _ (.done hE hkind hempty ⟨(h.entry_live hE).1,hsize k hkind,hb⟩) (fun _ _ _ _ _ _ => rfl) hs'

end Rules

end SimpleFS
