import SimpleFS.Requests
import SimpleFS.RenameEffects
import SimpleFS.Fixed
import SimpleFS.Tidy

/-! # Volumes on which nothing has been written

For any sector size, whatever the operations and renames have done to the directories: the tree is sound,
files are empty and every block that is in use has its owner.
-/
namespace SimpleFS
open Bytes Machine SlotTree

structure Iom.Steady (m : Iom) : Prop where
  sane : m.Sane
  empty : m.FilesEmpty
  tidy : m.Tidy

variable {m m' : Iom} {D E k b i j : ℕ} {x y : List UInt8} {v : Inode} {d : DirEntry} {found : Bool}

theorem Iom.filesEmpty_iff : m.FilesEmpty ↔ m.books.EachFile (fun v => v.iSize = 0) := Iff.rfl

namespace Iom.Steady
variable (h : m.Steady)
include h

theorem files : m.books.EachFile (fun v => v.iSize = 0) := filesEmpty_iff.mp h.empty

theorem tidy_of_fixed (hb : m'.books.Tidy) (hf : m'.fixed = m.fixed) : m'.Tidy := ⟨hb,(fixed_hint hf).trans h.tidy.hint⟩

/-- Only the directories change. -/
theorem entries (hs : m'.Sane) (hb : m'.books = m.books) (hf : m'.fixed = m.fixed) : m'.Steady := by
  refine ⟨hs,filesEmpty_iff.mpr ?_,h.tidy_of_fixed (by rw [hb]; exact h.tidy.books) hf⟩
  rw [hb]
  exact h.files

theorem createFile (hD : m.tree.kind D = some .dir) (hk : k < m.inodeNum) (hbit : m.ibit k = false)
    (hv : FileRecord k v) (hf : m.freeScan (m.inode D) = some (found,i)) (hd : d.binding = some (x,k)) :
    (m.createFile k v (slotAddr (m.inode D) i) d).Steady := by
  refine ⟨h.sane.createFile hD hk hbit hv hf hd,filesEmpty_iff.mpr ?_,h.tidy_of_fixed ?_ (fixed_createFile _ _ _ _)⟩
  · rw [books_createFile]
    exact Books.EachFile.take h.files (fun _ => hv.size)
  · rw [books_createFile]
    exact h.tidy.books.createFile h.sane.ledger hk hbit hv

theorem makeDir (hD : m.tree.kind D = some .dir) (hk : k < m.inodeNum) (hbit : m.ibit k = false)
    (hbm : b < m.maxBlock) (hb : m.dbit b = false)
    (hfirst : m.sbi.lastAllocatedBlknr < m.maxBlock → ∀ q, m.sbi.lastAllocatedBlknr ≤ q → q < b → m.dbit q = true)
    (hv : DirRecord k (m.blockAddr b) v) (hf : m.freeScan (m.inode D) = some (found,i)) (hd : d.binding = some (x,k)) :
    (m.makeDir k b v (slotAddr (m.inode D) i) d (m.inode D).iIno).Steady := by
  have hle := h.tidy.block_le h.sane.ledger hbm hfirst
  have hnew : m.books.kind k = none := Iom.Sane.kind_of_clear hbit
  refine ⟨h.sane.makeDir hD hk hbit hb hle hv hf hd,filesEmpty_iff.mpr ?_,h.tidy_of_fixed ?_ (fixed_makeDir _ _ _ _ _ _)⟩
  · rw [books_makeDir, h.sane.ino_dir hD]
    refine Books.EachFile.relink (c := (m.books.take k v).own b) ?_ ?_ _
    · exact Books.EachFile.take h.files (fun ht => absurd (hv.type.symm.trans ht) (by decide))
    · change (m.books.take k v).kind D ≠ some .file
      rw [Books.kind_take_of_ne (Iom.Sane.dir_ne_of_clear hD hbit), show m.books.kind D = some .dir from hD]
      decide
  · rw [books_makeDir]
    exact h.tidy.books.makeDir h.sane.ledger hk hbit (by rw [hv.size]; decide) (Iom.Sane.makeDir_addr hle hv) _

section Remove
variable (he : m.Entry D i x k)
include he

theorem unlinkEmpty (hk : m.tree.kind k = some .file) (hs : (m.inode k).iSize = 0) :
    (m.unlinkEmpty k (slotAddr (m.inode D) i) d.deleted).Steady := by
  refine ⟨h.sane.unlinkEmpty he hk,filesEmpty_iff.mpr ?_,h.tidy_of_fixed ?_ (fixed_unlinkEmpty _ _ _)⟩
  · rw [books_unlinkEmpty]
    exact Books.EachFile.release h.files
  · rw [books_unlinkEmpty]
    exact h.tidy.books.release_empty hs

theorem removeDir (hk : m.tree.kind k = some .dir) (hempty : m.usedScan k = some (false,j)) (hb : m.books.Owns k b) :
    (m.removeDir k b (slotAddr (m.inode D) i) d.deleted D).Steady := by
  refine ⟨h.sane.removeDir he hk hempty hb D,filesEmpty_iff.mpr ?_,h.tidy_of_fixed ?_ (fixed_removeDir _ _ _ _ _)⟩
  · rw [books_removeDir]
    refine Books.EachFile.relink (c := (m.books.release k).disown b) ?_ ?_ _
    · exact Books.EachFile.release h.files
    · change (m.books.release k).kind D ≠ some .file
      rw [Books.kind_release_of_ne (h.sane.leaf_dir he hk hempty).ne, show m.books.kind D = some .dir from he.dir]
      decide
  · rw [books_removeDir]
    exact (h.tidy.books.release_disown h.sane.ledger hb).relink _

end Remove

/-! ## Outcomes -/

theorem ended {q : Request} {r : ℤ} (hq : q.Admissible m) (he : m.Ended q r m') : m'.Steady := by
  cases he with
  | create hc =>
    cases hc with
    | «exists» _ => exact h
    | refused _ => exact h
    | done _ hk hbit hv hf => exact h.createFile hq.1 hk hbit hv hf (used_binding (h.sane.index_lt hk) hq.2)
  | mkdir hc =>
    cases hc with
    | «exists» _ => exact h
    | done _ hk hbit hbm hb hfirst hv hf =>
      exact h.makeDir hq.1 hk hbit hbm hb hfirst hv hf (used_binding (h.sane.index_lt hk) hq.2)
  | unlink hc =>
    have hfile := hq.2.2.2.2
    cases hc with
    | missing _ => exact h
    | refused _ => exact h
    | entry he _ => exact h.entries (h.sane.unlinkEntry he) (books_unlinkEntry _ _ _) (fixed_unlinkEntry _ _)
    | empty he _ hs => exact h.unlinkEmpty he (hfile _ ⟨_,he.bound⟩) hs
    | data he _ ho => exact absurd (h.empty _ (hfile _ ⟨_,he.bound⟩)) ho.size
  | rmdir hc =>
    cases hc with
    | missing _ => exact h
    | refused _ _ => exact h
    | done he hk hempty ho => exact h.removeDir he hk hempty ho

theorem renamed {fs ts : List (List UInt8)} {r : ℤ} (hp : RenamePaths fs x ts y) (hr : m.Renamed fs x ts y r m') :
    m'.Steady := by
  cases hr with
  | refused _ => exact h
  | inPlace _ he _ _ =>
    exact h.entries (h.sane.renameEntry he hp.name'.valid) (books_renameEntry _) (fixed_renameEntry _ _ _)
  | across _ he hE _ _ _ hs => exact h.entries (h.sane.moveEntry he hE hs) (books_moveEntry _ _) (fixed_moveEntry _ _ _ _ _)

/-! ## Distinct names -/

theorem ended_unique {q : Request} {r : ℤ} (hu : Unique m.tree) (hq : q.Admissible m) (he : m.Ended q r m') :
    Unique m'.tree := by
  cases he with
  | create hc =>
    cases hc with
    | «exists» _ => exact hu
    | refused _ => exact hu
    | @done k i v found hn hk hbit hv hf =>
      rw [h.sane.tree_createFile hq.1 hk hbit hv hf (used_binding (h.sane.index_lt hk) hq.2)]
      split
      · next hfound =>
        subst hfound
        exact (h.sane.vacant hq.1 hbit hf).unique dot_ne_dotdot hu hn
      · exact hu.newNode dot_ne_dotdot
  | mkdir hc =>
    cases hc with
    | «exists» _ => exact hu
    | @done k b i v found hn hk hbit hbm hb hfirst hv hf =>
      have hle := h.tidy.block_le h.sane.ledger hbm hfirst
      rw [h.sane.tree_makeDir hq.1 hk hbit hb hle hv hf (used_binding (h.sane.index_lt hk) hq.2)]
      split
      · next hfound =>
        subst hfound
        exact (h.sane.vacant hq.1 hbit hf).unique dot_ne_dotdot hu hn
      · exact hu.newNode dot_ne_dotdot
  | unlink hc =>
    have hfile := hq.2.2.2.2
    cases hc with
    | missing _ => exact hu
    | refused _ => exact hu
    | entry he _ =>
      rw [h.sane.tree_unlinkEntry he]
      exact hu.clear
    | empty he _ _ =>
      rw [h.sane.tree_unlinkEmpty he]
      exact Leaf.unique hu
    | data he _ ho => exact absurd (h.empty _ (hfile _ ⟨_,he.bound⟩)) ho.size
  | rmdir hc =>
    cases hc with
    | missing _ => exact hu
    | refused _ _ => exact hu
    | done he hk hempty ho =>
      rw [h.sane.tree_removeDir he hk hempty ho]
      exact Leaf.unique hu

/-- A rename keeps the names distinct if it stays in one directory, keeps the last name, or has an existing
target: then the name it looks for in the target directory is the one it writes there. -/
theorem renamed_unique {fs ts : List (List UInt8)} {r : ℤ} (hu : Unique m.tree) (hp : RenamePaths fs x ts y)
    (hc : fs = ts ∨ x = y ∨ ∃ l, Reach shape m.tree (y :: ts.reverse) l) (hr : m.Renamed fs x ts y r m') :
    Unique m'.tree := by
  cases hr with
  | refused _ => exact hu
  | @inPlace D i k _ he _ hnew =>
    rw [h.sane.tree_renameEntry he hp.name'.valid]
    exact Movable.unique hu (fun j l hs => absurd ⟨j,hs⟩ (hnew hu l))
  | @across D i k E j found z hfrom he hE hne hto hfree hs =>
    have hz : z = x := by
      rcases hto with ⟨rfl,hrE⟩ | ⟨hz,_⟩
      · rcases hc with rfl | rfl | ⟨l,hl⟩
        · exact absurd (hfrom.node_unique hu hrE) hne
        · rfl
        · cases hl with
          | @step _ B _ j' _ hB _ hb =>
            obtain rfl := hB.node_unique hu hrE
            exact absurd ⟨j',hb⟩ (hfree l)
      · exact hz
    subst hz
    rcases h.sane.insertScan_cases hE hs with ⟨rfl,_,hj,hn⟩ | ⟨rfl,_⟩
    · rw [h.sane.tree_moveEntry he hE hj hn]
      exact Movable.unique hu (fun j' l hb => absurd ⟨j',hb⟩ (hfree l))
    · rw [h.sane.tree_moveEntry_full he]
      exact hu.clear

end Iom.Steady

/-! ## A new volume -/

section Fresh
variable {dev : Device} {root : Inode} {heap : ℕ → Mem} {a c : ℤ} (hsec : IsSector dev.blksszget)
  (hroot : DirRecord lab4RootIno (4 * (openDevice dev).clusterSize) root)
include hsec hroot

theorem fresh_filesEmpty : (freshIom dev root heap a c).FilesEmpty := by
  intro k hk
  obtain rfl := (fresh_live hsec).mp (Books.kind_eq_file.mp hk).1
  have hs : (freshIom dev root heap a c).Sane := fresh_sane hsec hroot
  cases hs.sound.root.symm.trans hk

theorem fresh_tidy : (freshIom dev root heap a c).Tidy := by
  have ho : (freshIom dev root heap a c).books.Owns 2 0 := fresh_owns hsec hroot
  refine ⟨⟨fun b hb hset => ⟨2,?_⟩,fun k hk hs => ?_⟩,?_⟩
  · have hbit : (freshIom dev root heap a c).dbit b = decide (b = 0) := fresh_dbit hb
    have h0 : b = 0 := by simpa [hbit] using (show (freshIom dev root heap a c).dbit b = true from hset)
    rwa [h0]
  · obtain rfl := (fresh_live hsec).mp hk
    exact absurd hs ho.size
  · rw [fresh_sbi hsec]
    rfl

theorem fresh_steady : (freshIom dev root heap a c).Steady :=
  ⟨fresh_sane hsec hroot,fresh_filesEmpty hsec hroot,fresh_tidy hsec hroot⟩

end Fresh

end SimpleFS
