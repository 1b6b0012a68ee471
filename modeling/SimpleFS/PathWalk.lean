import SimpleFS.ViewChanges
import SimpleFS.Rename

/-! # Following paths on a regular volume

A path of plain names with no file on the way leads to the record of its end or is reported missing. Unlike on a
volume of empty files a file may have data, so a path through one is not followed.
-/
namespace SimpleFS
open Bytes Machine Prog SlotTree

variable {u : Prop} {e : Env} {s : Sys} {m : Iom} {D : UInt32} {k : ℕ} {x : List UInt8} {p q names : List (List UInt8)}

/-- The path as the program gets it. -/
def pathTo (p : List (List UInt8)) : List UInt8 := if p = [] then [slash] else mkPath p.reverse

theorem pathTo_cons : pathTo (x :: p) = mkPath p.reverse ++ slash :: x := by
  rw [pathTo, if_neg (List.cons_ne_nil x p), List.reverse_cons, mkPath_append]

theorem slash_mem_pathTo : slash ∈ pathTo p := by
  cases p with
  | nil => exact List.mem_singleton_self slash
  | cons x p =>
    rw [pathTo_cons]
    exact List.mem_append_right _ List.mem_cons_self

/-- The names are plain, and whatever lies on the way to the end is a directory. -/
structure Iom.Followable (m : Iom) (p : List (List UInt8)) : Prop where
  plain : ∀ x ∈ p, PlainName x
  way : ∀ x q, x :: q <:+ p → ∀ v, m.view q = some v → v = .dir

theorem Iom.Followable.tail (h : m.Followable (x :: p)) : m.Followable p :=
  ⟨fun y hy => h.plain y (List.mem_cons_of_mem x hy),fun y q hq => h.way y q (hq.trans (List.suffix_cons x p))⟩

theorem Iom.Followable.strtok (h : m.Followable p) : strtok (mkPath p.reverse) = p.reverse :=
  strtok_mkPath (fun x hx => (h.plain x (List.mem_reverse.mp hx)).path)

theorem Iom.Followable.strtok_pathTo (h : m.Followable p) : SimpleFS.strtok (pathTo p) = p.reverse := by
  unfold pathTo
  split
  · next hp =>
    subst hp
    rfl
  · exact h.strtok

namespace Iom.Regular
variable (h : m.Regular)
include h

/-- Resolution follows the tree, one directory after the other. -/
theorem walk_view (hf : m.Followable (names.reverse ++ p)) (hD : Reach shape m.tree p D.toNat) :
    (∃ E, m.walk names D = some (.ok E) ∧ Reach shape m.tree (names.reverse ++ p) E.toNat) ∨
      (m.walk names D = some (.error (-enoent)) ∧ m.view (names.reverse ++ p) = none) := by
  induction names generalizing D p with
  | nil => exact .inl ⟨D,rfl,hD⟩
  | cons x rest ih =>
    have hrev : (x :: rest).reverse ++ p = rest.reverse ++ x :: p := by simp
    rw [hrev] at hf ⊢
    have hx : PlainName x := hf.plain x (by simp)
    -- a node on the way with something behind it is no file
    have hkind : m.tree.kind D.toNat = some .dir := by
      obtain ⟨v,hv⟩ := Option.ne_none_iff_exists'.mp (Iom.labelled D.toNat (hD.live h.sane.sound))
      obtain rfl := hf.way x p (List.suffix_append _ _) v ((h.view_of_reach hD).trans hv)
      exact Iom.kind_of_node_dir hv
    rcases h.sane.lookupSlot_dir hkind hx with ⟨i,hl,he⟩ | ⟨hl,hnone⟩
    · have hw : m.walk (x :: rest) D = m.walk rest (m.slotEntry D.toNat i).dIno := by rw [Iom.walk, hl]
      rw [hw]
      exact ih hf (.step hD he.lo he.bound)
    · exact .inr ⟨by rw [Iom.walk, hl],h.view_below ((h.view_binds hD hkind hx).mpr hnone)⟩

/-- The record at the end, or the failure to get there. -/
theorem readInode_view {path : List UInt8} (hf : m.Followable p) (ht : strtok path = p.reverse) (hlen : path.length < 256) :
    (∃ k, m.readInode path = some (.ok (some (m.inode k))) ∧ Reach shape m.tree p k) ∨
      (m.readInode path = some (.error (-enoent)) ∧ m.view p = none) := by
  have hw := @walk_view m _ [] p.reverse h (by rwa [List.reverse_reverse, List.append_nil]) h.sane.root_reach
  rw [List.reverse_reverse, List.append_nil] at hw
  rcases hw with ⟨E,hE,hr⟩ | ⟨he,hr⟩
  · have hl := Iom.live_of_kind (hr.live h.sane.sound)
    have hlo : 2 ≤ E.toNat := hl.1
    have hhi : E.toNat < m.inodeNum := hl.2.1
    refine .inl ⟨E.toNat,?_,hr⟩
    rw [readInode_of_walk hlen (ht.symm ▸ hE)]
    dsimp only
    rw [if_neg (by omega), if_neg (by omega)]
  · exact .inr ⟨readInode_of_walk hlen (ht.symm ▸ he),hr⟩

end Iom.Regular

/-! ## The programs -/

section Rules
variable (he : e.Nominal) (h : s.iom.Regular)
include he h

theorem wp_readPath {path : List UInt8} {Q : ℤ × Option Inode → Sys → Prop} (hf : s.iom.Followable p)
    (ht : strtok path = p.reverse) (hlen : path.length < 256)
    (hmiss : ∀ s', s'.iom = s.iom → s.iom.view p = none → Q (-enoent,none) s')
    (hok : ∀ s' k, s'.iom = s.iom → Reach shape s.iom.tree p k → Q (lab4Success,some (s.iom.inode k)) s') :
    wp u (lab4ReadInode path none) Q e s := by
  have hread := h.readInode_view hf ht hlen
  refine wp_lab4ReadInode h.sane.mounted (fun hn => absurd ⟨he,h.addrOk.walk _ _⟩ hn) (fun hn => ?_)
    (fun s' res hs' hr => ?_) (fun s' v hs' _ hr => ?_)
  · rcases hread with ⟨k,hk,_⟩ | ⟨hk,_⟩
    · cases hk.symm.trans hn
    · cases hk.symm.trans hn
  · rcases hread with ⟨k,hk,_⟩ | ⟨hk,hnone⟩
    · cases hk.symm.trans hr
    · cases hk.symm.trans hr
      exact hmiss s' hs' hnone
  · rcases hread with ⟨k,hk,hreach⟩ | ⟨hk,_⟩
    · cases hk.symm.trans hr
      exact hok s' k hs' hreach
    · cases hk.symm.trans hr

omit h he in
theorem pathOk_pathTo (hx : PlainName x) (hlen : (mkPath p.reverse).length < fnameSize) : PathOk (pathTo (x :: p)) := by
  refine ⟨slash_mem_pathTo,?_,?_⟩
  · rw [pathTo_cons, lastName_append hx.noSlash]
    exact hx.valid.lt
  · rwa [pathTo_cons, dirName_append hx.noSlash]

omit h in
/-- The two parts of a path. -/
theorem wp_splitName {Q : NameBuf × NameBuf → Sys → Prop} (hx : PlainName x) (hlen : (mkPath p.reverse).length < fnameSize)
    (hQ : ∀ s' f d, s'.iom = s.iom → f.bytes = x → d.bytes = mkPath p.reverse → Q (f,d) s') :
    wp u (getNameFromPath (pathTo (x :: p))) Q e s := by
  have hlast : lastName (pathTo (x :: p)) = x := by rw [pathTo_cons, lastName_append hx.noSlash]
  have hdir : dirName (pathTo (x :: p)) = mkPath p.reverse := by rw [pathTo_cons, dirName_append hx.noSlash]
  refine wp_getNameFromPath (fun hn => ?_) (fun s1 f d h1 _ hfb hdb => hQ s1 f d h1 (hlast ▸ hfb) (hdir ▸ hdb))
  rcases hn with hn | hn
  · exact absurd he.malloc hn
  · exact absurd (pathOk_pathTo hx hlen) hn

/-- The record of the directory part. -/
theorem wp_readParent {Q : ℤ × Option Inode → Sys → Prop} (hf : s.iom.Followable (x :: p))
    (hlen : (mkPath p.reverse).length < fnameSize) (hmiss : ∀ s', s'.iom = s.iom → s.iom.view p = none → Q (-enoent,none) s')
    (hok : ∀ s' D, s'.iom = s.iom → Reach shape s.iom.tree p D → s.iom.tree.kind D = some .dir →
      Q (lab4Success,some (s.iom.inode D)) s') :
    wp u (lab4ReadInode (mkPath p.reverse) none) Q e s := by
  refine wp_readPath he h hf.tail hf.tail.strtok (hlen.trans (by decide)) hmiss (fun s1 D h1 hD => hok s1 D h1 hD ?_)
  obtain ⟨v,hv⟩ := Option.ne_none_iff_exists'.mp (Iom.labelled D (hD.live h.sane.sound))
  obtain rfl := hf.way x p List.suffix_rfl v ((h.view_of_reach hD).trans hv)
  exact Iom.kind_of_node_dir hv

/-- The directory of a path and its last name. -/
theorem wp_splitParent {Q : ℤ × Option Inode × NameBuf → Sys → Prop} (hf : s.iom.Followable (x :: p))
    (hlen : (mkPath p.reverse).length < fnameSize)
    (hmiss : ∀ s' f, s'.iom = s.iom → f.bytes = x → s.iom.view p = none → Q (-enoent,none,f) s')
    (hok : ∀ s' D f, s'.iom = s.iom → f.bytes = x → Reach shape s.iom.tree p D → s.iom.tree.kind D = some .dir →
      Q (lab4Success,some (s.iom.inode D),f) s') :
    wp u (splitParent (pathTo (x :: p))) Q e s := by
  unfold splitParent
  rw [wp_bind]
  refine wp_splitName he (hf.plain x List.mem_cons_self) hlen (fun s1 f d h1 hfb hdb => ?_)
  rw [← h1] at h hf hmiss hok
  dsimp only
  rw [wp_bind]
  refine wp_cstr hdb (fun hn => absurd hlen hn) (fun _ => ?_)
  rw [wp_bind]
  refine wp_readParent he h hf hlen (fun s2 h2 hv => ?_) (fun s2 D h2 hD hk => ?_)
  · rw [wp_pure]
    exact hmiss s2 f h2 hfb hv
  · rw [wp_pure]
    exact hok s2 D f h2 hfb hD hk

end Rules

end SimpleFS
