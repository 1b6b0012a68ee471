import SimpleFS.RemoveEffects
import SimpleFS.Machine.SlotReach

/-! # Path resolution on the tree

While files are empty a lookup inside a file finds nothing, so a chain of lookups follows the bindings of
directories, and the path of a plain name list is the one through the tree.
-/
namespace SimpleFS
open Bytes Machine SlotTree

/-- A component: a name without a slash that is none of the dot names. -/
structure PlainName (x : List UInt8) : Prop where
  valid : ValidName x
  noSlash : slash ∉ x
  notDot : x ≠ dotName
  notDotdot : x ≠ dotdotName

theorem PlainName.path {x : List UInt8} (h : PlainName x) : PathName x :=
  ⟨fun hn => by have := h.valid.pos; rw [hn] at this; exact absurd this (by decide),h.noSlash⟩

/-- Nothing has been written to a file. -/
def Iom.FilesEmpty (m : Iom) : Prop := ∀ k, m.tree.kind k = some .file → (m.inode k).iSize = 0

variable {m : Iom} {D E : UInt32} {k i : ℕ} {x : List UInt8} {names : List (List UInt8)}

theorem Iom.live_of_kind (hk : m.tree.kind k ≠ none) : m.books.Live k := by
  by_contra hn
  exact hk (Books.kind_eq_none.mpr hn)

theorem Iom.FilesEmpty.lookupSlot (hf : m.FilesEmpty) (hD : m.tree.kind D.toNat = some .file) :
    m.lookupSlot D x = some (.error (-enoent)) := by
  have hlive := ((Books.kind_eq_file).mp hD).1
  have hlo : 2 ≤ D.toNat := hlive.1
  have hhi : D.toNat < m.inodeNum := hlive.2.1
  have hs : m.scan (lookupTest x) D.toNat = some (false,0) := by
    unfold Iom.scan
    rw [hf _ hD]
    cases m.clusterSize / lab4DirEntrySize with
    | zero => rfl
    | succ n => exact if_neg (by decide)
  exact lookupSlot_of_scan (by omega) (by omega) hs

namespace Iom.Sane
variable (h : m.Sane) (hf : m.FilesEmpty)
include h

/-- What a lookup of a plain name finds in a directory. -/
theorem lookupSlot_dir (hD : m.tree.kind D.toNat = some .dir) (hx : PlainName x) :
    (∃ i, m.lookupSlot D x = some (.ok i) ∧ m.Entry D.toNat i x (m.slotEntry D.toNat i).dIno.toNat) ∨
      (m.lookupSlot D x = some (.error (-enoent)) ∧ ∀ k, ¬m.tree.Binds D.toNat x k) := by
  obtain ⟨hlo,hhi⟩ := Iom.Mounted.dir_live h.ledger hD
  obtain ⟨⟨found,i⟩,hs⟩ := Option.isSome_iff_exists.mp
    (h.mounted.scan_isSome h.ledger hD (lookupTest_isSome hx.valid.lt))
  rw [lookupSlot_of_scan hlo hhi hs]
  cases found with
  | true =>
    have he := h.entry_of_scan hD hx.valid hx.notDot hx.notDotdot hs
    rw [Iom.slotIno, h.ino_dir hD] at he
    exact .inl ⟨i,rfl,he⟩
  | false => exact .inr ⟨rfl,Iom.Mounted.scan_not_found h.ledger hD hx.valid.lt hs⟩

include hf

/-- Resolution never leaves the tree. -/
theorem walk_reach (hn : ∀ x ∈ names, PlainName x) {ps : List (List UInt8)} (hD : Reach shape m.tree ps D.toNat) :
    (∃ E, m.walk names D = some (.ok E) ∧ Reach shape m.tree (names.reverse ++ ps) E.toNat) ∨
      (m.walk names D = some (.error (-enoent)) ∧
        (Unique m.tree → ∀ k, ¬Reach shape m.tree (names.reverse ++ ps) k)) := by
  induction names generalizing D ps with
  | nil => exact .inl ⟨D,rfl,hD⟩
  | cons x rest ih =>
    have hx := hn x List.mem_cons_self
    have hrev : (x :: rest).reverse ++ ps = rest.reverse ++ x :: ps := by simp
    rw [hrev]
    -- a path through a missing component would need a binding of it
    have hmiss : (∀ k, ¬m.tree.Binds D.toNat x k) → Unique m.tree →
        ∀ k, ¬Reach shape m.tree (rest.reverse ++ x :: ps) k := by
      intro hnone hu k hr
      obtain ⟨B,hB⟩ := hr.of_append
      cases hB with
      | @step _ A _ j _ hA hj hs =>
        obtain rfl := hA.node_unique hu hD
        exact hnone B ⟨j,hs⟩
    match hkind : m.tree.kind D.toNat with
    | none => exact absurd hkind (hD.live h.sound)
    | some .file =>
      refine .inr ⟨by rw [Iom.walk, hf.lookupSlot hkind],hmiss (fun k ⟨j,hs⟩ => ?_)⟩
      rw [h.sound.slot_of_not_dir (by rw [hkind]; decide)] at hs
      cases hs
    | some .dir =>
      rcases h.lookupSlot_dir hkind hx with ⟨i,hl,he⟩ | ⟨hl,hnone⟩
      · have hw : m.walk (x :: rest) D = m.walk rest (m.slotEntry D.toNat i).dIno := by rw [Iom.walk, hl]
        rw [hw]
        exact ih (fun y hy => hn y (List.mem_cons_of_mem x hy)) (.step hD he.lo he.bound)
      · exact .inr ⟨by rw [Iom.walk, hl],hmiss hnone⟩

omit hf in
theorem root_reach : Reach shape m.tree [] m.sbi.rootIno.toNat := by
  have : m.sbi.rootIno.toNat = shape.root := by rw [h.mounted.rootIno]; rfl
  rw [this]
  exact .root

/-- The record a plain path leads to, and the failure to reach one. -/
theorem readInode_reach (hn : ∀ x ∈ names, PlainName x) (hlen : (mkPath names).length < 256) :
    (∃ k, m.readInode (mkPath names) = some (.ok (some (m.inode k))) ∧ Reach shape m.tree names.reverse k) ∨
      (m.readInode (mkPath names) = some (.error (-enoent)) ∧
        (Unique m.tree → ∀ k, ¬Reach shape m.tree names.reverse k)) := by
  have htok := strtok_mkPath (fun x hx => (hn x hx).path)
  have hw := h.walk_reach hf hn h.root_reach
  rw [List.append_nil] at hw
  rcases hw with ⟨E,hE,hr⟩ | ⟨he,hr⟩
  · have hl := Iom.live_of_kind (hr.live h.sound)
    have hlo : 2 ≤ E.toNat := hl.1
    have hhi : E.toNat < m.inodeNum := hl.2.1
    refine .inl ⟨E.toNat,?_,hr⟩
    rw [readInode_of_walk hlen (htok.symm ▸ hE)]
    dsimp only
    rw [if_neg (by omega), if_neg (by omega)]
  · exact .inr ⟨readInode_of_walk hlen (htok.symm ▸ he),hr⟩

end Iom.Sane

end SimpleFS
