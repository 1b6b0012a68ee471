import SimpleFS.PathCalls
import SimpleFS.RenameEffects

/-! # Renames by their paths

On a regular volume files have data, so a path is followed only through directories. There a rename reports a source
that is missing and a target that is in the way, and moves the entry otherwise.
-/
namespace SimpleFS
open Bytes Machine Prog SlotTree

variable {u : Prop} {e : Env} {s : Sys} {m m' : Iom} {a : Files} {D E i k t : ℕ} {x y z : List UInt8} {p q r : List (List UInt8)}
  {res : ℤ}

/-! ## Where the two paths lead -/

namespace Iom.Regular
variable (h : m.Regular)
include h

/-- The directory of a path is one, or it is missing. -/
theorem readParent_view (hf : m.Followable (x :: p)) (hlen : (mkPath p.reverse).length < fnameSize) :
    (∃ D, m.readInode (mkPath p.reverse) = some (.ok (some (m.inode D))) ∧ Reach shape m.tree p D ∧ m.tree.kind D = some .dir) ∨
      (m.readInode (mkPath p.reverse) = some (.error (-enoent)) ∧ m.view p = none) := by
  rcases h.readInode_view hf.tail hf.tail.strtok (hlen.trans (by decide)) with ⟨D,hread,hD⟩ | hmiss
  · obtain ⟨v,hv⟩ := Option.ne_none_iff_exists'.mp (Iom.labelled D (hD.live h.sane.sound))
    obtain rfl := hf.way x p List.suffix_rfl v ((h.view_of_reach hD).trans hv)
    exact .inl ⟨D,hread,hD,Iom.kind_of_node_dir hv⟩
  · exact .inr hmiss

theorem sourceSlot_view (hf : m.Followable (x :: p)) (hlen : (mkPath p.reverse).length < fnameSize) :
    (m.sourceSlot (pathTo (x :: p)) = some (.error (-enoent)) ∧ m.view (x :: p) = none) ∨
      ∃ D i k, m.sourceSlot (pathTo (x :: p)) = some (.ok (m.inode D,i)) ∧ Reach shape m.tree p D ∧ m.Entry D i x k := by
  have hx := hf.plain x List.mem_cons_self
  unfold Iom.sourceSlot
  rw [pathTo_cons, dirName_append hx.noSlash, lastName_append hx.noSlash]
  rcases h.readParent_view hf hlen with ⟨D,hread,hD,hk⟩ | ⟨hread,hv⟩
  · have hino : (m.inode D).iIno.toNat = D := h.sane.ledger.ino_toNat (Iom.live_of_kind (hD.live h.sane.sound))
    rw [hread]
    rcases h.sane.lookupSlot_dir (by rw [hino]; exact hk) hx with ⟨i,hl,he⟩ | ⟨hl,hn⟩
    · rw [hino] at he
      dsimp only
      rw [hl]
      exact .inr ⟨D,i,_,rfl,hD,he⟩
    · rw [hino] at hn
      dsimp only
      rw [hl]
      exact .inl ⟨rfl,(h.view_binds hD hk hx).mpr hn⟩
  · rw [hread]
    exact .inl ⟨rfl,h.view_below (q := [x]) hv⟩

end Iom.Regular

/-! ## The move -/

namespace Iom.Shows
variable (hs : m.Shows a) (hD : Reach shape m.tree p D) (he : m.Entry D i x k)
include hs hD he

/-- The second half with a target record at hand: something is in the way, or the entry goes into the target. -/
theorem intoOutcome_shows (hx : PlainName x) (ht : Reach shape m.tree r t) (hz : PlainName z) :
    (m.intoOutcome (m.inode D) i (m.inode t) z = some (-eexist,m) ∧
      ((∃ data, a.names r = some (.file data)) ∨ a.names r = some .dir ∧ a.names (z :: r) ≠ none)) ∨
      ∃ m', m.intoOutcome (m.inode D) i (m.inode t) z = some (lab4Success,m') ∧ a.names r = some .dir ∧ a.names (z :: r) = none ∧
        (a.names (x :: r) = none → ¬x :: p <:+ r → m'.Shows (a.move (x :: p) (x :: r))) := by
  have hr := hs.regular
  have hlive := Iom.live_of_kind (ht.live hr.sane.sound)
  have hino : (m.inode t).iIno.toNat = t := hr.sane.ledger.ino_toNat hlive
  unfold Iom.intoOutcome
  by_cases hdir : (m.inode t).iType = lab4TypeDirectory
  · rw [if_pos hdir]
    have hkind : m.tree.kind t = some .dir := (Books.kind_eq_dir hr.sane.ledger).mpr ⟨hlive,hdir⟩
    have hnames := hs.names_dir ht hkind
    rcases hr.sane.lookupSlot_dir (by rw [hino]; exact hkind) hz with ⟨j,hl,he'⟩ | ⟨hl,hn⟩
    · rw [hino] at he'
      rw [hl]
      exact .inl ⟨rfl,.inr ⟨hnames,hs.present ht hkind hz ⟨j,he'.bound⟩⟩⟩
    · rw [hino] at hn
      have hsome : (m.scan freeTest t).isSome = true := hr.sane.mounted.scan_isSome hr.sane.ledger hkind (fun _ => rfl)
      obtain ⟨⟨found,j⟩,hscan⟩ := Option.isSome_iff_exists.mp hsome
      rw [← Iom.Mounted.insertScan_eq] at hscan
      rw [hl]
      dsimp only
      rw [if_neg (by decide), hscan]
      refine .inr ⟨_,rfl,hnames,(hs.missing ht hkind hz).mpr hn,fun hfree hout => ?_⟩
      have hxn := (hs.missing ht hkind hx).mp hfree
      exact hs.move (hr.moveEntry he hx.valid hkind hscan hxn hD ht hout) (hr.moves_moveEntry hD he ht hkind hscan hxn hout) hfree
  · rw [if_neg hdir]
    refine .inl ⟨rfl,.inl ⟨_,(hs.file_of_reach ht (fun hn => hdir ?_)).2⟩⟩
    have hkind := Iom.kind_of_node_dir ((hs.names_node ht).symm.trans hn)
    exact ((Books.kind_eq_dir hr.sane.ledger).mp hkind).2

/-- The rename behind the lookup of the source. -/
theorem targetOutcome_shows (hallow : a.Allowed (.rename p x q y)) :
    (m.targetOutcome (m.inode D) i (pathTo (x :: p)) (pathTo (y :: q)) = none ∧ a.names q = none) ∨
      ∃ res m', m.targetOutcome (m.inode D) i (pathTo (x :: p)) (pathTo (y :: q)) = some (res,m') ∧
        ∃ b, Files.Step a (.rename p x q y) (.code res) b ∧ m'.Shows b := by
  obtain ⟨hp,hq,hout,hself,hhide⟩ := hallow
  have hx := hp.1
  have hy := hq.1
  have hr := hs.regular
  have hfq := hs.followable hq
  have hsrc : a.names (x :: p) ≠ none := hs.present hD he.dir hx ⟨i,he.bound⟩
  have hlen : (pathTo (y :: q)).length < 256 := by
    have h1 := hq.2.length
    have h2 := hy.valid.lt
    unfold fnameSize at h1 h2
    rw [pathTo_cons, List.length_append, List.length_cons]
    omega
  unfold Iom.targetOutcome
  rw [pathTo_cons (x := x), lastName_append hx.noSlash]
  rcases hr.readInode_view hfq hfq.strtok_pathTo hlen with ⟨t,hread,ht⟩ | ⟨hread,hmiss⟩
  · -- the target is there, so the entry goes into it under its old name
    rw [hread]
    dsimp only
    rcases hs.intoOutcome_shows hD he hx ht hx with ⟨ho,hway⟩ | ⟨m',ho,hdir,hfree,hmove⟩
    · exact .inr ⟨_,_,ho,a,.renameExists hsrc hway,hs⟩
    · have hnew : a.newPath p x q y = x :: y :: q := if_pos hdir
      have hout' : ¬x :: p <:+ y :: q := by
        rw [List.suffix_cons_iff, not_or]
        exact ⟨fun heq => hself heq.symm (heq ▸ hdir),hout⟩
      exact .inr ⟨_,_,ho,_,.renamed hsrc (.inr ⟨hdir,hfree⟩),hnew ▸ hmove hfree hout'⟩
  · rw [hread]
    dsimp only
    rw [if_neg (by decide), pathTo_cons, dirName_append hy.noSlash, lastName_append hy.noSlash]
    have hnone : a.names (y :: q) = none := hs.names ▸ hmiss
    have hndir : ¬a.names (y :: q) = some .dir := fun hn => by cases hnone.symm.trans hn
    rcases hr.readParent_view hfq hq.2.length with ⟨E,hreadE,hE,hkE⟩ | ⟨hreadE,hmissing⟩
    · rw [hreadE]
      dsimp only
      have hdirE := hs.names_dir hE hkE
      have hstep := Files.Step.renamed (q := q) hsrc (.inl ⟨hnone,hdirE⟩)
      have hino : ∀ {l}, m.tree.kind l = some .dir → (m.inode l).iIno.toNat = l :=
        fun hl => hr.sane.ledger.ino_toNat (Iom.live_of_kind (by rw [hl]; exact Option.some_ne_none _))
      by_cases heq : (m.inode D).iIno = (m.inode E).iIno
      · -- the same directory: the entry gets the new name in place
        have hDE : D = E := by rw [← hino he.dir, ← hino hkE, heq]
        subst hDE
        obtain rfl := hD.path_unique hr.sane.sound hE
        have hyn := (hs.missing hD hkE hy).mp hnone
        have hnew : a.newPath p x p y = y :: p := by rw [Files.newPath, if_neg hndir, if_pos rfl]
        refine .inr ⟨_,_,if_pos rfl,_,hstep,?_⟩
        rw [hnew]
        exact hs.move (hr.renameEntry he hy.valid hyn) (hr.moves_renameEntry hD he hy.valid hyn) hnone
      · have hpq : p ≠ q := by
          rintro rfl
          exact heq (congrArg (fun l => (m.inode l).iIno) (hD.node_unique hr.unique hE))
        rw [if_neg heq]
        rcases hs.intoOutcome_shows hD he hx hE hy with ⟨_,⟨data,hdata⟩ | ⟨_,hthere⟩⟩ | ⟨m',ho,_,_,hmove⟩
        · cases hdata.symm.trans hdirE
        · exact absurd hnone hthere
        · have hnew : a.newPath p x q y = x :: q := by rw [Files.newPath, if_neg hndir, if_neg hpq]
          exact .inr ⟨_,_,ho,_,hstep,hnew ▸ hmove (hhide hnone hpq) hout⟩
    · rw [hreadE]
      exact .inl ⟨rfl,hs.names ▸ hmissing⟩

end Iom.Shows

/-! ## The program -/

/-- A rename into a directory that is missing goes wrong, unless there is nothing to rename. -/
theorem answered_rename (he : e.Nominal) (hs : s.iom.Shows a) (hallow : a.Allowed (.rename p x q y))
    (hu : a.names q = none → u) :
    wp u (lab4Rename (pathTo (x :: p)) (pathTo (y :: q))) (fun r s' => a.Answered (.rename p x q y) (.code r) s') e s := by
  have hr := hs.regular
  have hsource := hr.sourceSlot_view (hs.followable hallow.1) hallow.1.2.length
  unfold lab4Rename
  rw [pathTo_checked, pathTo_checked]
  refine wp_doRename he.io hr.sane.mounted hr.addrOk (fun hn => absurd he.malloc hn)
    (fun hn => absurd (pathOk_pathTo hallow.1.1 hallow.1.2.length) hn)
    (fun hn _ _ => absurd (pathOk_pathTo hallow.2.1.1 hallow.2.1.2.length) hn)
    (fun hn => ?_) (fun s1 res h1 herr => ?_) (fun s1 v i res _ hok _ ho => ?_)
  · rcases hsource with ⟨hsrc,_⟩ | ⟨D,i,k,hsrc,hD,hE⟩
    · rw [renameOutcome_source hsrc] at hn
      cases hn
    · rw [renameOutcome_source hsrc] at hn
      rcases hs.targetOutcome_shows hD hE hallow with ⟨_,hmiss⟩ | ⟨res,m',ho,_⟩
      · exact hu hmiss
      · cases ho.symm.trans hn
  · rcases hsource with ⟨hsrc,hmiss⟩ | ⟨D,i,k,hsrc,_⟩
    · cases herr.symm.trans hsrc
      exact ⟨a,.renameMissing (hs.names ▸ hmiss),h1 ▸ hs⟩
    · cases herr.symm.trans hsrc
  · rcases hsource with ⟨hsrc,_⟩ | ⟨D,j,k,hsrc,hD,hE⟩
    · cases hok.symm.trans hsrc
    · cases hok.symm.trans hsrc
      rcases hs.targetOutcome_shows hD hE hallow with ⟨hnone,_⟩ | ⟨res',m',ho',b,hstep,hb⟩
      · cases hnone.symm.trans ho
      · cases ho'.symm.trans ho
        exact ⟨b,hstep,hb⟩

end SimpleFS
