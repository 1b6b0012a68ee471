import SimpleFS.Steady
import SimpleFS.Listing

/-! # What a rename moves

The path of the entry is followed, the target is not there, its parent is, and has room. Then `do_rename`
succeeds. Within one directory it gives the entry its new name; into another directory the entry goes with
its old one.
-/
namespace SimpleFS
open Bytes Machine Prog SlotTree

variable {e : Env} {s : Sys} {m : Iom} {D E k i : ℕ} {x y : List UInt8} {fs ts names : List (List UInt8)}

/-! ## Resolution -/

/-- What `lab4_read_inode` returns for an absolute path, with the number in the record it hands out. -/
def resolve (e : Env) (s : Sys) (names : List (List UInt8)) : Option (ℤ × Option ℕ) :=
  (lab4ReadInode (mkPath names) none e s).map (fun p => (p.1.1,p.1.2.map (fun v => v.iIno.toNat)))

/-- Resolution returns what the chain of lookups finds. -/
theorem resolve_eq (he : e.Nominal) (hm : s.iom.Mounted) (haddr : s.iom.AddrOk) {r : Except ℤ (Option Inode)}
    (hr : s.iom.readInode (mkPath names) = some r) : resolve e s names = match r with
      | .error res => some (res,none)
      | .ok v => some (lab4Success,v.map (fun v => v.iIno.toNat)) := by
  have hwp : wp False (lab4ReadInode (mkPath names) none) (fun p _ => some (p.1,p.2.map (fun v => v.iIno.toNat)) =
      match r with
      | .error res => some (res,none)
      | .ok v => some (lab4Success,v.map (fun v => v.iIno.toNat))) e s := by
    refine wp_lab4ReadInode hm (fun hn => absurd ⟨he,haddr.walk _ _⟩ hn) (fun hn => ?_) (fun s' res _ h => ?_)
      (fun s' v _ _ h => ?_)
    · cases hn.symm.trans hr
    · cases hr.symm.trans h
      rfl
    · cases hr.symm.trans h
      rfl
  obtain ⟨p,s',hrun,hp⟩ := wp_false.mp hwp
  rw [← hp]
  unfold resolve
  rw [hrun]
  rfl

section Resolve
variable (he : e.Nominal) (h : s.iom.Steady) (hn : ∀ x ∈ names, PlainName x) (hlen : (mkPath names).length < 256)
include he h hn hlen

theorem resolve_cases : (∃ k, resolve e s names = some (lab4Success,some k) ∧ Reach shape s.iom.tree names.reverse k) ∨
    (resolve e s names = some (-enoent,none) ∧ (Unique s.iom.tree → ∀ k, ¬Reach shape s.iom.tree names.reverse k)) := by
  have haddr := h.tidy.addrOk h.sane.ledger
  rcases h.sane.readInode_reach h.empty hn hlen with ⟨k,hk,hr⟩ | ⟨hk,hr⟩
  · refine .inl ⟨k,?_,hr⟩
    rw [resolve_eq he h.sane.mounted haddr hk]
    exact congrArg (fun k => some (lab4Success,some k)) (h.sane.ledger.ino_toNat (Iom.live_of_kind (hr.live h.sane.sound)))
  · exact .inr ⟨resolve_eq he h.sane.mounted haddr hk,hr⟩

theorem reach_of_resolve (hr : resolve e s names = some (lab4Success,some k)) : Reach shape s.iom.tree names.reverse k := by
  rcases resolve_cases he h hn hlen with ⟨l,hl,hreach⟩ | ⟨hl,_⟩
  · cases hr.symm.trans hl
    exact hreach
  · cases hr.symm.trans hl

theorem resolve_of_reach (hu : Unique s.iom.tree) (hr : Reach shape s.iom.tree names.reverse k) :
    resolve e s names = some (lab4Success,some k) := by
  rcases resolve_cases he h hn hlen with ⟨l,hl,hreach⟩ | ⟨_,hnone⟩
  · rw [hl, hreach.node_unique hu hr]
  · exact absurd hr (hnone hu k)

end Resolve

/-! ## The outcome -/

/-- The path of the entry is there, the target is not, and its parent is a directory. -/
structure Iom.RenameNodes (m : Iom) (fs : List (List UInt8)) (x : List UInt8) (ts : List (List UInt8)) (y : List UInt8)
    (D k E : ℕ) : Prop where
  source : Reach shape m.tree fs.reverse D
  entry : Reach shape m.tree (x :: fs.reverse) k
  target : Reach shape m.tree ts.reverse E
  dir : m.tree.kind E = some .dir
  missing : ∀ l, ¬Reach shape m.tree (y :: ts.reverse) l

namespace Iom.RenameNodes
variable (hq : m.RenameNodes fs x ts y D k E) (h : m.Steady) (hu : Unique m.tree)
include hq hu

/-- The slot of the entry. -/
theorem slot : ∃ i, 2 ≤ i ∧ m.tree.slot D i = some (x,k) := by
  cases hq.entry with
  | @step _ A _ i _ hA hi hs =>
    obtain rfl := hA.node_unique hu hq.source
    exact ⟨i,hi,hs⟩

include h

omit hu in
/-- The new name is free. -/
theorem free (hy : PlainName y) : ∀ l, ¬m.tree.Binds E y l := by
  rintro l ⟨j,hj⟩
  have h2 : 2 ≤ j := by
    by_contra hlt
    rcases (show j = 0 ∨ j = 1 by omega) with rfl | rfl
    · rw [h.sane.sound.self E hq.dir] at hj
      exact hy.notDot (congrArg Prod.fst (Option.some.inj hj)).symm
    · obtain ⟨p,hp⟩ := h.sane.sound.up E hq.dir
      rw [hj] at hp
      exact hy.notDotdot (congrArg Prod.fst (Option.some.inj hp))
  exact hq.missing l (.step hq.target h2 hj)

/-- `do_rename` writes a new name in place, or moves the entry. -/
theorem outcome (hp : RenamePaths fs x ts y) : ∃ i, m.Entry D i x k ∧
    ((D = E ∧ m.renameOutcome (mkPath (fs ++ [x])) (mkPath (ts ++ [y])) =
        some (lab4Success,m.renameEntry (m.inode D) i y)) ∨
      D ≠ E ∧ ∃ found j, m.insertScan (m.inode E) = some (found,j) ∧
        m.renameOutcome (mkPath (fs ++ [x])) (mkPath (ts ++ [y])) =
          some (lab4Success,m.moveEntry (m.inode D) i (m.inode E) found j)) := by
  have hfrom : ∀ a ∈ fs, PlainName a := fun a ha => hp.plainFrom a (by simp [ha])
  have hto : ∀ a ∈ ts, PlainName a := fun a ha => hp.plainTo a (by simp [ha])
  have hlt := hp.name'.valid.lt
  have hlenF := hp.lenFrom
  have hlenT := hp.lenTo
  unfold fnameSize at *
  have hlen : (mkPath (ts ++ [y])).length < 256 := by
    rw [mkPath_append, List.length_append, List.length_cons]
    omega
  obtain ⟨i0,_,hs0⟩ := hq.slot hu
  have hD : m.tree.kind D = some .dir := (h.sane.sound.dir D i0 _ hs0).1
  have hDino := h.sane.ino_dir hD
  have hEino := h.sane.ino_dir hq.dir
  -- the four walks
  have hwalk : ∀ {names : List (List UInt8)} {A : ℕ}, (∀ a ∈ names, PlainName a) → (mkPath names).length < 256 →
      Reach shape m.tree names.reverse A → m.readInode (mkPath names) = some (.ok (some (m.inode A))) := by
    intro names A hn hl hr
    rcases h.sane.readInode_reach h.empty hn hl with ⟨B,hB,hreach⟩ | ⟨_,hnone⟩
    · rwa [hreach.node_unique hu hr] at hB
    · exact absurd hr (hnone hu A)
  have hsource := hwalk hfrom (by omega) hq.source
  have htarget := hwalk hto (by omega) hq.target
  have hmissing : m.readInode (mkPath (ts ++ [y])) = some (.error (-enoent)) := by
    rcases h.sane.readInode_reach h.empty hp.plainTo hlen with ⟨l,_,hr⟩ | ⟨hm,_⟩
    · rw [List.reverse_append] at hr
      exact absurd hr (hq.missing l)
    · exact hm
  obtain ⟨i,hl,he⟩ : ∃ i, m.lookupSlot (m.inode D).iIno x = some (.ok i) ∧ m.Entry D i x k := by
    rcases h.sane.lookupSlot_dir (D := (m.inode D).iIno) (by rw [hDino]; exact hD) hp.name with ⟨i,hl,he⟩ | ⟨_,hn⟩
    · rw [hDino] at he
      obtain rfl := hu D i i0 x _ k he.bound hs0
      cases he.bound.symm.trans hs0
      exact ⟨i,hl,he⟩
    · rw [hDino] at hn
      exact absurd ⟨i0,hs0⟩ (hn k)
  refine ⟨i,he,?_⟩
  unfold Iom.renameOutcome
  rw [mkPath_append fs, dirName_append hp.name.noSlash, lastName_append hp.name.noSlash, hsource]
  dsimp only
  rw [hl]
  dsimp only
  unfold Iom.targetOutcome
  rw [hmissing]
  dsimp only
  rw [if_neg (by decide), mkPath_append ts, dirName_append hp.name'.noSlash, lastName_append hp.name'.noSlash, htarget]
  dsimp only
  by_cases hDE : D = E
  · subst hDE
    exact .inl ⟨rfl,if_pos rfl⟩
  · have hino : (m.inode D).iIno ≠ (m.inode E).iIno := fun hc => hDE (by rw [← hDino, ← hEino, hc])
    rw [if_neg hino]
    have hlook : m.lookupSlot (m.inode E).iIno y = some (.error (-enoent)) := by
      rcases h.sane.lookupSlot_dir (D := (m.inode E).iIno) (by rw [hEino]; exact hq.dir) hp.name' with ⟨j,_,hj⟩ | ⟨hl,_⟩
      · rw [hEino] at hj
        exact absurd ⟨j,hj.bound⟩ (hq.free h hp.name' _)
      · exact hl
    have hfree : ∀ d, (freeTest d).isSome := fun _ => rfl
    obtain ⟨⟨found,j⟩,hs⟩ := Option.isSome_iff_exists.mp (h.sane.mounted.scan_isSome h.sane.ledger hq.dir hfree)
    rw [← Iom.Mounted.insertScan_eq] at hs
    have htype : (m.inode E).iType = lab4TypeDirectory := ((Books.kind_eq_dir h.sane.ledger).mp hq.dir).2
    refine .inr ⟨hDE,found,j,hs,?_⟩
    unfold Iom.intoOutcome
    rw [htype, if_pos rfl, hlook]
    dsimp only
    rw [if_neg (by decide), hs]

/-- With an unused slot in the target directory, the tree moves one binding: under its new name within one
directory, under its old one into another. -/
theorem moved (hp : RenamePaths fs x ts y) (hroom : ∃ j, j < lab4DirEntryNum ∧ m.tree.slot E j = none) :
    ∃ m' i j, Movable shape m.tree D i x k E j ∧
      m.renameOutcome (mkPath (fs ++ [x])) (mkPath (ts ++ [y])) = some (lab4Success,m') ∧ m'.Steady ∧
      m'.tree = m.tree.move D i E j (if D = E then y else x) k := by
  obtain ⟨i,he,hout⟩ := hq.outcome h hu hp
  rcases hout with ⟨rfl,hout⟩ | ⟨hDE,found,j,hs,hout⟩
  · refine ⟨_,i,i,Iom.Sane.movable_self he,hout,?_,?_⟩
    · exact h.entries (h.sane.renameEntry he hp.name'.valid) (books_renameEntry _) (fixed_renameEntry _ _ _)
    · rw [h.sane.tree_renameEntry he hp.name'.valid, if_pos rfl]
  · rcases h.sane.insertScan_cases hq.dir hs with ⟨rfl,hj2,hj,hn⟩ | ⟨rfl,hfull⟩
    · refine ⟨_,i,j,⟨he.lo,he.bound,hq.dir,hj2,hj,.inr hn⟩,hout,?_,?_⟩
      · exact h.entries (h.sane.moveEntry he hq.dir hs) (books_moveEntry _ _) (fixed_moveEntry _ _ _ _ _)
      · rw [h.sane.tree_moveEntry he hq.dir hj hn, if_neg hDE]
    · obtain ⟨l,hl,hn⟩ := hroom
      exact absurd hn (hfull l (h.sane.sound.behind_reserved hq.dir hn) hl)

end Iom.RenameNodes

end SimpleFS
