import SimpleFS.NameMoves
import SimpleFS.FullDirectory
import SimpleFS.Machine.SlotCount

/-! # Link counts and parents

`do_mkdir` and `do_rmdir` count the links of the parent, and `do_rename` counts nothing. While directories are
made where there is a slot for them and renamed within their parent only, the counts and the parent slots
follow the entries.
-/
namespace SimpleFS
open Bytes Machine Prog SlotTree

variable {e e' : Env} {s s' t : Sys} {m m' : Iom} {D E k b i j : ℕ} {x y : List UInt8} {fs ts : List (List UInt8)}
  {v : Inode} {d : DirEntry} {found : Bool}

/-! ## What the counts should be -/

/-- A directory in use. -/
def Iom.DirInUse (m : Iom) (D : ℕ) : Prop :=
  2 ≤ D ∧ D < m.inodeNum ∧ m.ibit D = true ∧ (m.inode D).iType = lab4TypeDirectory

/-- Slot `i` of `D` is used and names a directory. -/
def Iom.HoldsDir (m : Iom) (D i : ℕ) : Prop :=
  m.SlotUsed D i ∧ (m.inode (m.slotEntry D i).dIno.toNat).iType = lab4TypeDirectory

instance (m : Iom) (D : ℕ) : Decidable (m.DirInUse D) := inferInstanceAs (Decidable (_ ∧ _))
instance (m : Iom) (D i : ℕ) : Decidable (m.HoldsDir D i) := inferInstanceAs (Decidable (_ ∧ _))

/-- The number of used entries behind the dot entries that name a directory. -/
def Iom.dirEntries (m : Iom) (D : ℕ) : ℕ := ((Finset.Ico 2 lab4DirEntryNum).filter (m.HoldsDir D)).card

structure Iom.LinksFollow (m : Iom) : Prop where
  count : ∀ D, m.DirInUse D → (m.inode D).iLinksCount.toNat = 2 + m.dirEntries D
  /-- The ".." entry names a directory whose block holds the entry. -/
  parent : ∀ D, m.DirInUse D → D ≠ 2 → ∃ E i x, m.DirInUse E ∧ 2 ≤ i ∧ m.SlotNames E i x D ∧ m.SlotNames D 1 dotdotName E
  /-- It names every such directory. -/
  up : ∀ D E i x, m.DirInUse D → m.DirInUse E → 2 ≤ i → m.SlotNames E i x D → m.SlotNames D 1 dotdotName E

/-! ## The same on the tree -/

/-- The link counts of the records. -/
def Iom.links (m : Iom) (k : ℕ) : ℕ := (m.inode k).iLinksCount.toNat

namespace Iom.Sane
variable (h : m.Sane)
include h

theorem dirInUse_iff : m.DirInUse D ↔ m.tree.kind D = some .dir := by
  rw [kind_tree, Books.kind_eq_dir h.ledger]
  exact ⟨fun ⟨h1,h2,h3,h4⟩ => ⟨⟨h1,h2,h3⟩,h4⟩,fun ⟨⟨h1,h2,h3⟩,h4⟩ => ⟨h1,h2,h3,h4⟩⟩

theorem slot_names (hD : m.tree.kind D = some .dir) : m.tree.slot D i = some (x,k) ↔ m.SlotNames D i x k := by
  rw [Iom.slotNames_iff]
  constructor
  · intro hs
    have hi := (h.sound.dir D i _ hs).2
    rw [Iom.Mounted.tree_slot h.ledger hD hi] at hs
    exact ⟨hi,hs⟩
  · rintro ⟨hi,hb⟩
    rw [Iom.Mounted.tree_slot h.ledger hD hi]
    exact hb

theorem leadsDown_iff (hD : m.tree.kind D = some .dir) (hi : 2 ≤ i) (hn : i < lab4DirEntryNum) :
    m.tree.LeadsDown D i ↔ m.HoldsDir D i := by
  constructor
  · rintro ⟨⟨z,l⟩,ho,hk⟩
    have hs := (h.slot_names hD).mp ho
    refine ⟨hs.used,?_⟩
    rw [hs.ino]
    exact ((Books.kind_eq_dir h.ledger).mp hk).2
  · rintro ⟨hu,ht⟩
    have ho : m.tree.slot D i = some (cstr (m.slotEntry D i).dFilename,(m.slotEntry D i).dIno.toNat) :=
      (h.slot_names hD).mpr ⟨hn,hu,rfl,rfl⟩
    have hlive := Iom.live_of_kind (h.sound.target D i _ _ hi ho).1
    exact ⟨_,ho,(Books.kind_eq_dir h.ledger).mpr ⟨hlive,ht⟩⟩

theorem dirEntries_eq (hD : m.tree.kind D = some .dir) : m.dirEntries D = subdirs shape m.tree D := by
  unfold Iom.dirEntries subdirs
  congr 1
  exact Finset.filter_congr (fun i hi =>
    (h.leadsDown_iff hD (Finset.mem_Ico.mp hi).1 (Finset.mem_Ico.mp hi).2).symm)

theorem linksFollow (hl : Linked shape m.tree m.links) : m.LinksFollow := by
  refine ⟨fun D hD => ?_,fun D hD hr => ?_,fun D E i x hD hE hi hs => ?_⟩
  · have hD := h.dirInUse_iff.mp hD
    rw [h.dirEntries_eq hD]
    exact hl.count D hD
  · have hD := h.dirInUse_iff.mp hD
    obtain ⟨E,i,x,hi,hs⟩ := hl.held D hD hr
    have hE := (h.sound.dir E i _ hs).1
    exact ⟨E,i,x,h.dirInUse_iff.mpr hE,hi,(h.slot_names hE).mp hs,(h.slot_names hD).mp (hl.upward.bound E i x D hi hs hD)⟩
  · have hD := h.dirInUse_iff.mp hD
    have hE := h.dirInUse_iff.mp hE
    exact (h.slot_names hD).mp (hl.upward.bound E i x D hi ((h.slot_names hE).mpr hs) hD)

end Iom.Sane

/-! ## Operations -/

theorem links_of_books {c : Books} (hb : m'.books = c) (hi : c.inode k = m.inode k) : m'.links k = m.links k :=
  congrArg (fun v => v.iLinksCount.toNat) ((congrArg (fun c => c.inode k) hb).trans hi)

theorem links_lt (hl : Linked shape m.tree m.links) (hD : m.tree.kind D = some .dir) :
    2 ≤ m.links D ∧ m.links D + 1 < 2^32 := by
  have hc := hl.count D hD
  have hs : subdirs shape m.tree D ≤ lab4DirEntryNum := subdirs_le
  unfold lab4DirEntryNum lab4DirEntrySize at hs
  omega

namespace Iom.Steady
variable (h : m.Steady) (hl : Linked shape m.tree m.links)
include h hl

theorem linked_createFile (hD : m.tree.kind D = some .dir) (hk : k < m.inodeNum) (hbit : m.ibit k = false)
    (hv : FileRecord k v) (hf : m.freeScan (m.inode D) = some (found,i)) (hd : d.binding = some (x,k)) :
    Linked shape (m.createFile k v (slotAddr (m.inode D) i) d).tree (m.createFile k v (slotAddr (m.inode D) i) d).links := by
  have hlinks : ∀ E, E ≠ k → (m.createFile k v (slotAddr (m.inode D) i) d).links E = m.links E := fun E hE =>
    links_of_books (books_createFile m k _ v d) (Books.take_inode hE)
  rw [h.sane.tree_createFile hD hk hbit hv hf hd]
  cases found with
  | true => exact hl.addFile h.sane.sound (h.sane.vacant hD hbit hf) hlinks
  | false => exact hl.newFile (D := D) h.sane.sound (Iom.Sane.kind_of_clear hbit) hlinks

theorem linked_makeDir (hD : m.tree.kind D = some .dir) (hk : k < m.inodeNum) (hbit : m.ibit k = false)
    (hbm : b < m.maxBlock) (hb : m.dbit b = false)
    (hfirst : m.sbi.lastAllocatedBlknr < m.maxBlock → ∀ q, m.sbi.lastAllocatedBlknr ≤ q → q < b → m.dbit q = true)
    (hv : DirRecord k (m.blockAddr b) v) (hf : m.freeScan (m.inode D) = some (true,i)) (hd : d.binding = some (x,k)) :
    Linked shape (m.makeDir k b v (slotAddr (m.inode D) i) d (m.inode D).iIno).tree
      (m.makeDir k b v (slotAddr (m.inode D) i) d (m.inode D).iIno).links := by
  have hle := h.tidy.block_le h.sane.ledger hbm hfirst
  have hDk := Iom.Sane.dir_ne_of_clear hD hbit
  have hbooks : (m.makeDir k b v (slotAddr (m.inode D) i) d (m.inode D).iIno).books =
      ((m.books.take k v).own b).relink (· + 1) D := by rw [books_makeDir, h.sane.ino_dir hD]
  have htake : ∀ E, E ≠ k → ((m.books.take k v).own b).inode E = m.inode E := fun E hE => Books.take_inode hE
  rw [h.sane.tree_makeDir hD hk hbit hb hle hv hf hd, if_pos rfl]
  refine hl.addDir h.sane.sound (h.sane.vacant hD hbit hf) ?_ ?_ (fun E hEk hED => ?_)
  · have hi : (((m.books.take k v).own b).relink (· + 1) D).inode k = v :=
      (Books.relink_inode hDk.symm).trans Books.store_self
    change ((Iom.books _).inode k).iLinksCount.toNat = 2
    rw [hbooks, hi, hv.links]
    rfl
  · have hlt := (links_lt hl hD).2
    change ((Iom.books _).inode D).iLinksCount.toNat = (m.inode D).iLinksCount.toNat + 1
    rw [hbooks, Books.relink_self, htake D hDk, UInt32.toNat_add]
    exact Nat.mod_eq_of_lt hlt
  · exact links_of_books hbooks ((Books.relink_inode hED).trans (htake E hEk))

section Remove
variable (he : m.Entry D i x k)
include he

theorem linked_unlinkEmpty (hk : m.tree.kind k = some .file) :
    Linked shape (m.unlinkEmpty k (slotAddr (m.inode D) i) d.deleted).tree
      (m.unlinkEmpty k (slotAddr (m.inode D) i) d.deleted).links := by
  rw [h.sane.tree_unlinkEmpty he]
  exact hl.removeFile h.sane.sound (h.sane.leaf_file he hk) hk
    (fun E hE => links_of_books (books_unlinkEmpty _ _ _ _) (Books.release_inode hE))

theorem linked_removeDir (hk : m.tree.kind k = some .dir) (hempty : m.usedScan k = some (false,j)) (hb : m.books.Owns k b) :
    Linked shape (m.removeDir k b (slotAddr (m.inode D) i) d.deleted D).tree
      (m.removeDir k b (slotAddr (m.inode D) i) d.deleted D).links := by
  have hleaf := h.sane.leaf_dir he hk hempty
  have hbooks := books_removeDir m k b (slotAddr (m.inode D) i) d.deleted D
  have hrel : ∀ E, E ≠ k → ((m.books.release k).disown b).inode E = m.inode E := fun E hE => Books.release_inode hE
  rw [h.sane.tree_removeDir he hk hempty hb]
  refine hl.removeDir h.sane.sound hleaf hk ?_ (fun E hEk hED => ?_)
  · have hlo := (links_lt hl he.dir).1
    unfold Iom.links at hlo
    change ((Iom.books _).inode D).iLinksCount.toNat + 1 = (m.inode D).iLinksCount.toNat
    have hone : (1 : UInt32) ≤ (m.inode D).iLinksCount := UInt32.le_iff_toNat_le.mpr (by rw [UInt32.toNat_one]; omega)
    rw [hbooks, Books.relink_self, hrel D hleaf.ne, UInt32.toNat_sub_of_le _ _ hone, UInt32.toNat_one]
    omega
  · exact links_of_books hbooks ((Books.relink_inode hED).trans (hrel E hEk))

end Remove

/-- A creation or removal that succeeds, a directory being made where there is an unused slot. -/
theorem linked_ended {q : Request} {r : ℤ} (hq : q.Admissible m)
    (hroom : ∀ D x, q = .mkdir D x → ∃ j < lab4DirEntryNum, ¬m.SlotUsed D j) (he : m.Ended q r m') :
    Linked shape m'.tree m'.links := by
  cases he with
  | create hc =>
    cases hc with
    | «exists» _ => exact hl
    | refused _ => exact hl
    | done _ hk hbit hv hf => exact h.linked_createFile hl hq.1 hk hbit hv hf (used_binding (h.sane.index_lt hk) hq.2)
  | @mkdir D x _ _ hc =>
    cases hc with
    | «exists» _ => exact hl
    | @done k b i v found _ hk hbit hbm hb hfirst hv hf =>
      obtain rfl : found = true := by
        obtain ⟨j,hj,hn⟩ := hroom D x rfl
        rcases h.sane.mounted.freeScan_cases h.sane.ledger hq.1 h.sane.sound hf with ⟨ht,_⟩ | ⟨_,_,hfull⟩
        · exact ht
        · have hslot : m.tree.slot D j = none := by
            rw [Iom.Mounted.tree_slot h.sane.ledger hq.1 hj]
            exact binding_of_not_used hn
          exact absurd hslot (hfull j (h.sane.sound.behind_reserved hq.1 hslot) hj)
      exact h.linked_makeDir hl hq.1 hk hbit hbm hb hfirst hv hf (used_binding (h.sane.index_lt hk) hq.2)
  | unlink hc =>
    have hfile := hq.2.2.2.2
    cases hc with
    | missing _ => exact hl
    | refused _ => exact hl
    | entry he _ =>
      rw [h.sane.tree_unlinkEntry he]
      exact hl.clearFile he.lo he.bound (hfile _ ⟨_,he.bound⟩)
    | empty he _ _ => exact h.linked_unlinkEmpty hl he (hfile _ ⟨_,he.bound⟩)
    | data he _ ho => exact absurd (h.empty _ (hfile _ ⟨_,he.bound⟩)) ho.size
  | rmdir hc =>
    cases hc with
    | missing _ => exact hl
    | refused _ _ => exact hl
    | done he hk hempty ho => exact h.linked_removeDir hl he hk hempty ho

end Iom.Steady

/-! ## Renames -/

theorem links_of_sameBooks (hb : m'.books = m.books) : m'.links = m.links := by
  funext E
  exact links_of_books hb rfl

/-- The walk to the parent as `lab4_read_inode` reports it. -/
theorem Iom.LeadsTo.resolve {names : List (List UInt8)} (he : e.Nominal) (h : s.iom.Steady) (hd : s.iom.LeadsTo names D) :
    resolve e s names = some (lab4Success,some D) := by
  rw [resolve_eq he h.sane.mounted (h.tidy.addrOk h.sane.ledger) hd.read]
  exact congrArg (fun k => some (lab4Success,some k)) (h.sane.ledger.ino_toNat (Iom.live_of_kind (hd.reach.live h.sane.sound)))

/-- The slot that is found, as `lab4_lookup` reports it. -/
theorem lookupIn_of_entry (he : e.Nominal) (h : s.iom.Steady) (hi : s.iom.Entry D i x k)
    (hl : s.iom.lookupSlot (s.iom.inode D).iIno x = some (.ok i)) : lookupIn e s D x = some (lab4Success,k) := by
  have hscan : s.iom.scan (lookupTest x) D = some (true,i) := by
    unfold Iom.lookupSlot at hl
    rw [h.sane.ino_dir hi.dir] at hl
    split at hl
    · cases hl
    · split at hl
      · cases hl
      · split at hl
        · cases hl
        · cases hl
        · next hs =>
          cases hl
          exact hs
  rw [lookupIn_scan he h.sane hi.dir, hscan]
  exact congrArg (fun k => some (lab4Success,k)) (binding_eq_some (h.sane.slotEntry_binding hi)).2.2

/-- A rename that keeps directories within their parents. -/
theorem Iom.Steady.linked_renamed {r : ℤ} (he : e.Nominal) (h : s.iom.Steady) (hl : Linked shape s.iom.tree s.iom.links)
    (hp : RenamePaths fs x ts y)
    (hkeep : ∀ D k, resolve e s fs = some (lab4Success,some D) → SimpleFS.lookupIn e s D x = some (lab4Success,k) →
      (s.iom.inode k).iType = lab4TypeDirectory → fs = ts ∧ ∀ l, resolve e s (ts ++ [y]) ≠ some (lab4Success,some l))
    (hr : s.iom.RenameWalked fs x ts y r m') : Linked shape m'.tree m'.links := by
  cases hr with
  | refused _ => exact hl
  | inPlace hfrom hs hi _ _ =>
    rw [h.sane.tree_renameEntry hi hp.name'.valid, links_of_sameBooks (books_renameEntry _)]
    exact hl.rename (Iom.Sane.movable_self hi)
  | @across D i k E j found z hfrom hs hi hE hne hto hfree hscan =>
    -- a directory would have stayed in its parent
    have hfile : s.iom.tree.kind k = some .file := by
      match hk : s.iom.tree.kind k with
      | none => exact absurd hk (h.sane.sound.target D i _ k hi.lo hi.bound).1
      | some .file => rfl
      | some .dir =>
        obtain ⟨rfl,hmiss⟩ := hkeep D k (hfrom.resolve he h) (lookupIn_of_entry he h hi hs) ((Books.kind_eq_dir h.sane.ledger).mp hk).2
        rcases hto with ⟨_,htarget⟩ | ⟨_,htarget⟩
        · have hread := hfrom.read.symm.trans htarget.read
          simp only [Option.some.injEq, Except.ok.injEq] at hread
          have hino := congrArg (fun v => v.iIno.toNat) hread
          simp only [h.sane.ino_dir hi.dir, h.sane.ino_dir hE] at hino
          exact absurd hino hne
        · exact absurd (htarget.resolve he h) (hmiss E)
    rw [links_of_sameBooks (books_moveEntry _ _)]
    rcases h.sane.insertScan_cases hE hscan with ⟨rfl,hj2,hj,hn⟩ | ⟨rfl,_⟩
    · rw [h.sane.tree_moveEntry hi hE hj hn]
      exact hl.moveFile ⟨hi.lo,hi.bound,hE,hj2,hj,.inr hn⟩ hfile
    · rw [h.sane.tree_moveEntry_full hi]
      exact hl.clearFile hi.lo hi.bound hfile

/-! ## Runs -/

/-- A successful call that makes a directory where there is an unused slot, and renames a directory within its
parent. -/
def NamingCall.KeepsLinks (e : Env) (s : Sys) (q : NamingCall) (r : ℤ) : Prop := e.Nominal ∧ r = lab4Success ∧ match q with
  | .request q => q.Admissible s.iom ∧ ∀ D x, q = .mkdir D x → ∃ j < lab4DirEntryNum, ¬s.iom.SlotUsed D j
  | .rename fs x ts y => RenamePaths fs x ts y ∧ ∀ D k, resolve e s fs = some (lab4Success,some D) →
      lookupIn e s D x = some (lab4Success,k) → (s.iom.inode k).iType = lab4TypeDirectory →
        fs = ts ∧ ∀ l, resolve e s (ts ++ [y]) ≠ some (lab4Success,some l)

theorem NamingCall.linked_step {q : NamingCall} {r : ℤ} (h : s.iom.Steady) (hl : Linked shape s.iom.tree s.iom.links)
    (hq : KeepsLinks e s q r) (hrun : q.run e s = some (r,s')) : s'.iom.Steady ∧ Linked shape s'.iom.tree s'.iom.links := by
  cases q with
  | request q =>
    obtain ⟨he,_,hadm,hroom⟩ := hq
    refine (Request.wp_run (Q := fun _ s' => s'.iom.Steady ∧ Linked shape s'.iom.tree s'.iom.links) he h.sane hadm
      (fun r m' s' hend hs' => ?_)).elim hrun
    rw [hs']
    exact ⟨h.ended hadm hend,h.linked_ended hl hadm hroom hend⟩
  | rename fs x ts y =>
    obtain ⟨he,_,hp,hkeep⟩ := hq
    refine (wp_renameOutcome (u := True) (Q := fun _ s' => s'.iom.Steady ∧ Linked shape s'.iom.tree s'.iom.links) he h hp
      (fun _ => trivial) (fun r s' ho => ?_)).elim hrun
    have hw := h.sane.renameWalked h.empty hp ho
    exact ⟨h.renamed hp (h.sane.renamed h.empty hp ho),h.linked_renamed he hl hp hkeep hw⟩

theorem fresh_linked {s0 : Sys} {ok : Bool} (he : e.Nominal) (hsec : IsSector s.iom.dev.blksszget)
    (hrun : formatAndMount e s = some (ok,s0)) : s0.iom.Steady ∧ Linked shape s0.iom.tree s0.iom.links := by
  refine (wp_formatAndMount (u := True) (Q := fun _ s0 => s0.iom.Steady ∧ Linked shape s0.iom.tree s0.iom.links) he hsec
    (fun s1 root a c hroot h1 => ?_)).elim hrun
  rw [h1]
  refine ⟨fresh_steady hsec hroot,?_⟩
  rw [fresh_tree hsec hroot]
  refine rootTree_linked ?_
  change (Iom.inode _ 2).iLinksCount.toNat = 2
  rw [fresh_inode_root hsec, hroot.links]
  rfl

/-- In every state that successful calls reach from a formatted and mounted device, directories being made where there
is an unused slot and renamed within their parents, link counts and parent entries follow the entries. -/
theorem links_follow_tree {s0 : Sys} {ok : Bool} (he : e.Nominal) (hsec : IsSector s.iom.dev.blksszget)
    (hrun : formatAndMount e s = some (ok,s0)) (hr : Reached NamingCall.run NamingCall.KeepsLinks s0 t) :
    t.iom.LinksFollow := by
  have ht := hr.invariant (I := fun t => t.iom.Steady ∧ Linked shape t.iom.tree t.iom.links) (fresh_linked he hsec hrun)
    (fun _ _ _ _ _ hI hq hstep => NamingCall.linked_step hI.1 hI.2 hq hstep)
  exact ht.1.sane.linksFollow ht.2

/-! ## Two directories -/

/-- The directory "d", renamed to "e" in the root. -/
def makeAndRename : M (ℤ × ℤ) := do
  let r ← (NamingCall.request (.mkdir 2 [100])).run
  let r' ← (NamingCall.rename [] [100] [] [101]).run
  return (r,r')

/-- The directories "d" and "e", the first of which moves into the second. -/
def makeAndMove : M (ℤ × ℤ × ℤ) := do
  let r ← (NamingCall.request (.mkdir 2 [100])).run
  let r' ← (NamingCall.request (.mkdir 2 [101])).run
  let r'' ← (NamingCall.rename [] [100] [[101]] [100]).run
  return (r,r',r'')

theorem renamePaths_root {y z : UInt8} (hy : PlainName [y]) (hz : PlainName [z]) : RenamePaths [] [y] [] [z] := by
  refine ⟨fun a ha => ?_,fun a ha => ?_,by decide,by decide⟩
  · rwa [List.mem_singleton.mp ha]
  · rwa [List.mem_singleton.mp ha]

set_option maxRecDepth 100000 in
/-- After "d" has become "e". -/
theorem links_follow_blank : ∃ s0 s, formatAndMount quietEnv (blankDisk 80) = some (true,s0) ∧
    makeAndRename quietEnv s0 = some ((lab4Success,lab4Success),s) ∧ s.iom.LinksFollow := by
  have h : ((formatAndMount >>= fun _ => makeAndRename) quietEnv (blankDisk 80)).map Prod.fst =
      some (lab4Success,lab4Success) := by decide +kernel
  have hmiss : ((formatAndMount >>= fun _ => (NamingCall.request (.mkdir 2 [100])).run) quietEnv (blankDisk 80)).map
      (fun p => resolve quietEnv p.2 [[101]]) = some (some (-enoent,none)) := by decide +kernel
  have hroom : (formatAndMount quietEnv (blankDisk 80)).map (fun p => decide (p.2.iom.SlotUsed 2 2)) = some false := by
    decide +kernel
  obtain ⟨s0,hrun,_⟩ := blankDisk_whole
  rw [bind_apply, hrun] at h hmiss
  rw [hrun] at hroom
  simp only [Option.map_some, Option.some.injEq, decide_eq_false_iff_not] at hroom
  obtain ⟨⟨p,s⟩,hp,rfl⟩ := Option.map_eq_some_iff.mp h
  have hmake : makeAndRename quietEnv s0 = some ((lab4Success,lab4Success),s) := hp
  obtain ⟨r1,s1,hmk,hrest⟩ := exists_of_bind hmake
  obtain ⟨r2,s2,hren,hret⟩ := exists_of_bind hrest
  cases hret
  rw [Option.bind_some, hmk] at hmiss
  simp only [Option.map_some, Option.some.injEq] at hmiss
  have h0 := fresh_linked quietEnv_nominal (.inl rfl) hrun
  have hname : ∀ z : UInt8, z = 100 ∨ z = 101 → PlainName [z] := by
    rintro z (rfl | rfl) <;> exact ⟨⟨by decide,by decide,by decide⟩,by decide,by decide,by decide⟩
  have hc1 : NamingCall.KeepsLinks quietEnv s0 (.request (.mkdir 2 [100])) lab4Success := by
    refine ⟨quietEnv_nominal,rfl,⟨h0.1.sane.sound.root,by decide,by decide,by decide⟩,?_⟩
    rintro D x hq
    cases hq
    exact ⟨2,by decide,hroom⟩
  have hc2 : NamingCall.KeepsLinks quietEnv s1 (.rename [] [100] [] [101]) lab4Success := by
    refine ⟨quietEnv_nominal,rfl,renamePaths_root (hname 100 (.inl rfl)) (hname 101 (.inr rfl)),fun D k _ _ _ => ⟨rfl,fun l hl => ?_⟩⟩
    cases hl.symm.trans hmiss
  exact ⟨s0,s,hrun,hmake,links_follow_tree quietEnv_nominal (.inl rfl) hrun ((Reached.refl.call hc1 hmk).call hc2 hren)⟩

set_option maxRecDepth 100000 in
/-- After "d" has moved into "e" the root counts two directories and holds one. -/
theorem links_left_behind : ∃ s0 s, formatAndMount quietEnv (blankDisk 80) = some (true,s0) ∧
    makeAndMove quietEnv s0 = some ((lab4Success,lab4Success,lab4Success),s) ∧
    (s.iom.inode 2).iLinksCount = 4 ∧ s.iom.dirEntries 2 = 1 ∧ ¬s.iom.LinksFollow := by
  have h : ((formatAndMount >>= fun _ => makeAndMove) quietEnv (blankDisk 80)).map
      (fun p => (p.1,decide (p.2.iom.DirInUse 2),(p.2.iom.inode 2).iLinksCount,p.2.iom.dirEntries 2)) =
        some ((lab4Success,lab4Success,lab4Success),true,4,1) := by decide +kernel
  obtain ⟨s0,hrun,_⟩ := blankDisk_whole
  rw [bind_apply, hrun] at h
  obtain ⟨⟨p,s⟩,hp,heq⟩ := Option.map_eq_some_iff.mp h
  simp only [Prod.mk.injEq, decide_eq_true_eq] at heq
  obtain ⟨rfl,hdir,hlinks,hentries⟩ := heq
  refine ⟨s0,s,hrun,hp,hlinks,hentries,fun hf => ?_⟩
  have hc := hf.count 2 hdir
  rw [hlinks, hentries] at hc
  exact absurd hc (by decide)

end SimpleFS
