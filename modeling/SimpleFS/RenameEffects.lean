import SimpleFS.Walk

/-! # Renames on the tree

A successful rename writes a new name into the slot of the entry, or moves the entry to a free slot of
another directory. There the entry keeps its old name, whatever the target path says, and where the
directory has no free slot the entry is lost.
-/
namespace SimpleFS
open Bytes Machine SlotTree

variable {m m' : Iom} {D E k i j : ℕ} {x y z : List UInt8} {found : Bool} {res : ℤ}

theorem binding_eq_some {d : DirEntry} (h : d.binding = some (x,k)) :
    d.dFlag = lab4DirUsed ∧ cstr d.dFilename = x ∧ d.dIno.toNat = k := by
  unfold DirEntry.binding at h
  split at h
  · next hf =>
    cases h
    exact ⟨hf,rfl,rfl⟩
  · cases h

theorem books_renameEntry (p : Inode) : (m.renameEntry p i y).books = m.books := (rfl)

theorem books_moveEntry (p t : Inode) : (m.moveEntry p i t found j).books = m.books := by
  unfold Iom.moveEntry
  cases found <;> rfl

theorem Iom.Mounted.moveEntry (hm : m.Mounted) (p t : Inode) : (m.moveEntry p i t found j).Mounted := by
  unfold Iom.moveEntry
  cases found with
  | false => exact hm.writeEntry
  | true => exact hm.writeEntry.writeEntry

namespace Iom.Sane
variable (h : m.Sane) (he : m.Entry D i x k)
include h he

theorem slotEntry_binding : (m.slotEntry D i).binding = some (x,k) :=
  (Iom.Mounted.tree_slot h.ledger he.dir he.lt).symm.trans he.bound

theorem tree_renameEntry (hy : ValidName y) : (m.renameEntry (m.inode D) i y).tree = m.tree.move D i D i y k := by
  obtain ⟨_,_,hk⟩ := binding_eq_some (h.slotEntry_binding he)
  have hb : ({ m.slotEntry D i with dFlag := lab4DirUsed, dFilename := strcpyName y } : DirEntry).binding = some (y,k) := by
    rw [binding_of_used rfl]
    simp only [cstr_strcpyName hy.lt hy.noNul, hk]
  rw [Iom.tree, books_renameEntry, Iom.renameEntry, h.ino_dir he.dir, h.slotAddr_eq he.dir,
    h.mounted.entries_writeEntry (h.entry_slot_lt he), Books.tree_putEntry h.ledger he.dir he.lt, hb, move,
    setSlot_setSlot]
  rfl

theorem tree_moveEntry_full (t : Inode) : (m.moveEntry (m.inode D) i t false j).tree = m.tree.setSlot D i none := by
  rw [Iom.tree, books_moveEntry, Iom.moveEntry, if_neg (by decide), h.slotAddr_eq he.dir,
    h.mounted.entries_writeEntry (h.entry_slot_lt he), Books.tree_putEntry h.ledger he.dir he.lt, deleted_binding]
  rfl

theorem tree_moveEntry (hE : m.tree.kind E = some .dir) (hj : j < lab4DirEntryNum) (hn : m.tree.slot E j = none) :
    (m.moveEntry (m.inode D) i (m.inode E) true j).tree = m.tree.move D i E j x k := by
  obtain ⟨_,hx,hk⟩ := binding_eq_some (h.slotEntry_binding he)
  have hb : ({ m.slotEntry D i with dFlag := lab4DirUsed } : DirEntry).binding = some (x,k) := by
    rw [binding_of_used rfl]
    simp only [hx, hk]
  have hne : ¬(D = E ∧ i = j) := by
    rintro ⟨rfl,rfl⟩
    rw [he.bound] at hn
    cases hn
  have hjs := hj.trans_le h.mounted.dirEntryNum_le
  have hw := h.mounted.writeEntry (a := slotAddr (m.inode E) j) (d := { m.slotEntry D i with dFlag := lab4DirUsed })
  rw [move, setSlot_comm hne, Iom.tree, books_moveEntry, Iom.moveEntry, if_pos rfl, h.ino_dir he.dir]
  have hent : ((m.writeEntry (slotAddr (m.inode E) j) { m.slotEntry D i with dFlag := lab4DirUsed }).writeEntry
      (slotAddr (m.inode D) i) (m.slotEntry D i).deleted).entries =
      putEntry (putEntry m.entries (m.books.block E) j { m.slotEntry D i with dFlag := lab4DirUsed })
        (m.books.block D) i (m.slotEntry D i).deleted := by
    rw [h.slotAddr_eq he.dir]
    refine (hw.entries_writeEntry (h.entry_slot_lt he)).trans ?_
    rw [h.slotAddr_eq hE, h.mounted.entries_writeEntry hjs]
  rw [hent, Books.tree_putEntry h.ledger he.dir he.lt, deleted_binding, Books.tree_putEntry h.ledger hE hj, hb]
  rfl

omit h in
theorem movable_self : Movable shape m.tree D i x k D i := ⟨he.lo,he.bound,he.dir,he.lo,he.lt,.inl ⟨rfl,rfl⟩⟩

theorem renameEntry (hy : ValidName y) : (m.renameEntry (m.inode D) i y).Sane :=
  ⟨h.mounted.writeEntry,h.ledger,by rw [h.tree_renameEntry he hy]; exact (movable_self he).sound h.sound⟩

end Iom.Sane

/-- Where the slot loop of a rename stops in the target directory. -/
theorem Iom.Sane.insertScan_cases (h : m.Sane) (hE : m.tree.kind E = some .dir)
    (hs : m.insertScan (m.inode E) = some (found,j)) :
    (found = true ∧ 2 ≤ j ∧ j < lab4DirEntryNum ∧ m.tree.slot E j = none) ∨
      (found = false ∧ ∀ j, 2 ≤ j → j < lab4DirEntryNum → m.tree.slot E j ≠ none) := by
  rw [Iom.Mounted.insertScan_eq, ← h.mounted.freeScan_eq h.ledger hE] at hs
  rcases h.mounted.freeScan_cases h.ledger hE h.sound hs with hc | ⟨hf,_,hc⟩
  · exact .inl hc
  · exact .inr ⟨hf,hc⟩

theorem Iom.Sane.moveEntry (h : m.Sane) (he : m.Entry D i x k) (hE : m.tree.kind E = some .dir)
    (hs : m.insertScan (m.inode E) = some (found,j)) : (m.moveEntry (m.inode D) i (m.inode E) found j).Sane := by
  refine ⟨h.mounted.moveEntry _ _,by rw [books_moveEntry]; exact h.ledger,?_⟩
  rcases h.insertScan_cases hE hs with ⟨rfl,hj,hjn,hn⟩ | ⟨rfl,_⟩
  · rw [h.tree_moveEntry he hE hjn hn]
    exact Movable.sound ⟨he.lo,he.bound,hE,hj,hjn,.inr hn⟩ h.sound
  · rw [h.tree_moveEntry_full he]
    exact h.sound.clear he.lo

/-! ## The outcomes -/

/-- A rename of plain paths: the two parents and the two last components. -/
structure RenamePaths (fs : List (List UInt8)) (x : List UInt8) (ts : List (List UInt8)) (y : List UInt8) : Prop where
  plainFrom : ∀ a ∈ fs ++ [x], PlainName a
  plainTo : ∀ a ∈ ts ++ [y], PlainName a
  lenFrom : (mkPath fs).length < fnameSize
  lenTo : (mkPath ts).length < fnameSize

namespace RenamePaths
variable {fs ts : List (List UInt8)} (hp : RenamePaths fs x ts y)
include hp

theorem name : PlainName x := hp.plainFrom x (by simp)
theorem name' : PlainName y := hp.plainTo y (by simp)

theorem pathOk : PathOk (mkPath (fs ++ [x])) ∧ PathOk (mkPath (ts ++ [y])) := by
  rw [mkPath_append, mkPath_append]
  refine ⟨⟨by simp,?_,?_⟩,⟨by simp,?_,?_⟩⟩
  · rw [lastName_append hp.name.noSlash]
    exact hp.name.valid.lt
  · rw [dirName_append hp.name.noSlash]
    exact hp.lenFrom
  · rw [lastName_append hp.name'.noSlash]
    exact hp.name'.valid.lt
  · rw [dirName_append hp.name'.noSlash]
    exact hp.lenTo

end RenamePaths

/-- What a rename that returns has done. -/
inductive Iom.Renamed (m : Iom) (fs : List (List UInt8)) (x : List UInt8) (ts : List (List UInt8)) (y : List UInt8) :
    ℤ → Iom → Prop
  | refused {res : ℤ} (h : res ≠ lab4Success) : Renamed m fs x ts y res m
  /-- The target does not exist and has the same parent. -/
  | inPlace {D i k : ℕ} (hfrom : Reach shape m.tree fs.reverse D) (he : m.Entry D i x k)
      (hto : Reach shape m.tree ts.reverse D) (hnew : Unique m.tree → ∀ l, ¬m.tree.Binds D y l) :
      Renamed m fs x ts y lab4Success (m.renameEntry (m.inode D) i y)
  /-- The entry goes to another directory, the parent of the target or the target itself. -/
  | across {D i k E j : ℕ} {found : Bool} {z : List UInt8} (hfrom : Reach shape m.tree fs.reverse D)
      (he : m.Entry D i x k) (hE : m.tree.kind E = some .dir) (hne : D ≠ E)
      (hto : (z = y ∧ Reach shape m.tree ts.reverse E) ∨ (z = x ∧ Reach shape m.tree (y :: ts.reverse) E))
      (hfree : ∀ l, ¬m.tree.Binds E z l) (hs : m.insertScan (m.inode E) = some (found,j)) :
      Renamed m fs x ts y lab4Success (m.moveEntry (m.inode D) i (m.inode E) found j)

/-- The walk along a path and the node of the tree it ends at. -/
structure Iom.LeadsTo (m : Iom) (names : List (List UInt8)) (D : ℕ) : Prop where
  read : m.readInode (mkPath names) = some (.ok (some (m.inode D)))
  reach : Reach shape m.tree names.reverse D

/-- What a rename that returns has done, with the walks that led it there. -/
inductive Iom.RenameWalked (m : Iom) (fs : List (List UInt8)) (x : List UInt8) (ts : List (List UInt8)) (y : List UInt8) :
    ℤ → Iom → Prop
  | refused {res : ℤ} (h : res ≠ lab4Success) : RenameWalked m fs x ts y res m
  | inPlace {D i k : ℕ} (hfrom : m.LeadsTo fs D) (hl : m.lookupSlot (m.inode D).iIno x = some (.ok i)) (he : m.Entry D i x k)
      (hto : m.LeadsTo ts D) (hnew : Unique m.tree → ∀ l, ¬m.tree.Binds D y l) :
      RenameWalked m fs x ts y lab4Success (m.renameEntry (m.inode D) i y)
  | across {D i k E j : ℕ} {found : Bool} {z : List UInt8} (hfrom : m.LeadsTo fs D)
      (hl : m.lookupSlot (m.inode D).iIno x = some (.ok i)) (he : m.Entry D i x k) (hE : m.tree.kind E = some .dir) (hne : D ≠ E)
      (hto : (z = y ∧ m.LeadsTo ts E) ∨ (z = x ∧ m.LeadsTo (ts ++ [y]) E))
      (hfree : ∀ l, ¬m.tree.Binds E z l) (hs : m.insertScan (m.inode E) = some (found,j)) :
      RenameWalked m fs x ts y lab4Success (m.moveEntry (m.inode D) i (m.inode E) found j)

namespace Iom.Sane
variable (h : m.Sane)
include h

theorem intoOutcome_cases {t : ℕ} (ht : m.tree.kind t ≠ none) (hz : PlainName z) {p : Inode}
    (ho : m.intoOutcome p i (m.inode t) z = some (res,m')) :
    (m' = m ∧ res ≠ lab4Success) ∨ (res = lab4Success ∧ m.tree.kind t = some .dir ∧ (∀ l, ¬m.tree.Binds t z l) ∧
      ∃ found j, m.insertScan (m.inode t) = some (found,j) ∧ m' = m.moveEntry p i (m.inode t) found j) := by
  have hlive := Iom.live_of_kind ht
  have hino : (m.inode t).iIno.toNat = t := h.ledger.ino_toNat hlive
  unfold Iom.intoOutcome at ho
  split at ho
  · next hdir =>
    have hkind : m.tree.kind t = some .dir := (Books.kind_eq_dir h.ledger).mpr ⟨hlive,hdir⟩
    rcases h.lookupSlot_dir (D := (m.inode t).iIno) (by rw [hino]; exact hkind) hz with ⟨j,hl,_⟩ | ⟨hl,hn⟩
    · rw [hl] at ho
      cases ho
      exact .inl ⟨rfl,by decide⟩
    · rw [hino] at hn
      rw [hl] at ho
      dsimp only at ho
      rw [if_neg (by decide)] at ho
      split at ho
      · cases ho
      · next found j hs =>
        cases ho
        exact .inr ⟨rfl,hkind,hn,found,j,hs,rfl⟩
  · cases ho
    exact .inl ⟨rfl,by decide⟩

/-- Every outcome of a rename of plain paths is one of the three. -/
theorem renameWalked (hf : m.FilesEmpty) {fs ts : List (List UInt8)} (hp : RenamePaths fs x ts y)
    (ho : m.renameOutcome (mkPath (fs ++ [x])) (mkPath (ts ++ [y])) = some (res,m')) : m.RenameWalked fs x ts y res m' := by
  have hfrom : ∀ a ∈ fs, PlainName a := fun a ha => hp.plainFrom a (by simp [ha])
  have hto : ∀ a ∈ ts, PlainName a := fun a ha => hp.plainTo a (by simp [ha])
  have hlt := hp.name'.valid.lt
  have hlenF := hp.lenFrom
  have hlenT := hp.lenTo
  unfold fnameSize at *
  have hlen : (mkPath (ts ++ [y])).length < 256 := by
    rw [mkPath_append, List.length_append, List.length_cons]
    omega
  unfold Iom.renameOutcome at ho
  rw [mkPath_append, dirName_append hp.name.noSlash, lastName_append hp.name.noSlash] at ho
  rcases h.readInode_reach hf hfrom (by omega) with ⟨D,hD,hreach⟩ | ⟨hD,_⟩
  · rw [hD] at ho
    dsimp only at ho
    have hino := h.ledger.ino_toNat (Iom.live_of_kind (hreach.live h.sound))
    have hDino : (m.inode D).iIno.toNat = D := hino
    match hkind : m.tree.kind D with
    | none => exact absurd hkind (hreach.live h.sound)
    | some .file =>
      rw [hf.lookupSlot (by rw [hDino]; exact hkind)] at ho
      cases ho
      exact .refused (by decide)
    | some .dir =>
      rcases h.lookupSlot_dir (D := (m.inode D).iIno) (by rw [hDino]; exact hkind) hp.name with ⟨i,hl,he⟩ | ⟨hl,_⟩
      · rw [hDino] at he
        rw [hl] at ho
        dsimp only at ho
        unfold Iom.targetOutcome at ho
        rcases h.readInode_reach hf hp.plainTo hlen with ⟨t,ht,hrt⟩ | ⟨ht,hnt⟩
        · rw [List.reverse_append] at hrt
          rw [ht] at ho
          dsimp only at ho
          rw [lastName_append hp.name.noSlash] at ho
          rcases h.intoOutcome_cases (hrt.live h.sound) hp.name ho with ⟨rfl,hr⟩ | ⟨rfl,hdir,hfree,found,j,hs,rfl⟩
          · exact .refused hr
          · refine .across ⟨hD,hreach⟩ hl he hdir ?_ (.inr ⟨rfl,ht,by rw [List.reverse_append]; exact hrt⟩) hfree hs
            rintro rfl
            exact hfree _ ⟨i,he.bound⟩
        · rw [List.reverse_append] at hnt
          rw [ht] at ho
          dsimp only at ho
          rw [if_neg (by decide), mkPath_append ts, dirName_append hp.name'.noSlash,
            lastName_append hp.name'.noSlash] at ho
          rcases h.readInode_reach hf hto (by omega) with ⟨E,hE,hrE⟩ | ⟨hE,_⟩
          · rw [hE] at ho
            dsimp only at ho
            split at ho
            · next heq =>
              have hEino := h.ledger.ino_toNat (Iom.live_of_kind (hrE.live h.sound))
              have hDE : D = E := by rw [← hino, ← hEino]; exact congrArg UInt32.toNat heq
              subst hDE
              cases ho
              refine .inPlace ⟨hD,hreach⟩ hl he ⟨hE,hrE⟩ (fun hu l ⟨j,hj⟩ => ?_)
              have hj2 : 2 ≤ j := by
                by_contra hlt
                rcases (show j = 0 ∨ j = 1 by omega) with rfl | rfl
                · rw [h.sound.self D hkind] at hj
                  exact hp.name'.notDot (congrArg Prod.fst (Option.some.inj hj)).symm
                · obtain ⟨q,hq⟩ := h.sound.up D hkind
                  rw [hj] at hq
                  exact hp.name'.notDotdot (congrArg Prod.fst (Option.some.inj hq))
              exact hnt hu l (.step hrE hj2 hj)
            · next hne =>
              rcases h.intoOutcome_cases (hrE.live h.sound) hp.name' ho with ⟨rfl,hr⟩ | ⟨rfl,hdir,hfree,found,j,hs,rfl⟩
              · exact .refused hr
              · refine .across ⟨hD,hreach⟩ hl he hdir ?_ (.inl ⟨rfl,hE,hrE⟩) hfree hs
                rintro rfl
                exact hne rfl
          · rw [hE] at ho
            cases ho
      · rw [hl] at ho
        cases ho
        exact .refused (by decide)
  · rw [hD] at ho
    cases ho
    exact .refused (by decide)

theorem renamed (hf : m.FilesEmpty) {fs ts : List (List UInt8)} (hp : RenamePaths fs x ts y)
    (ho : m.renameOutcome (mkPath (fs ++ [x])) (mkPath (ts ++ [y])) = some (res,m')) : m.Renamed fs x ts y res m' := by
  cases h.renameWalked hf hp ho with
  | refused hr => exact .refused hr
  | inPlace hfrom _ he hto hnew => exact .inPlace hfrom.reach he hto.reach hnew
  | across hfrom _ he hE hne hto hfree hs =>
    refine .across hfrom.reach he hE hne (hto.imp (fun ⟨hz,ht⟩ => ⟨hz,ht.reach⟩) (fun ⟨hz,ht⟩ => ⟨hz,?_⟩)) hfree hs
    have hr := ht.reach
    rwa [List.reverse_append] at hr

end Iom.Sane

end SimpleFS
