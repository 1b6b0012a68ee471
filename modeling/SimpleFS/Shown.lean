import SimpleFS.ViewChanges

/-! # What a volume shows

A regular volume shows a client the map of its paths and the files that are open. Each way an operation ends changes
what is shown as the call says.
-/
namespace SimpleFS
open Bytes Machine SlotTree

variable {m m' : Iom} {a : Files} {fid : ℕ} {p q : List (List UInt8)} {o : Option (ℕ × Node)} {h : Handle} {ft : FileTable}
  {bytes : List UInt8}

/-- Slot `fid` of the open file table belongs to the file that `h` names. -/
structure Iom.Holds (m : Iom) (fid : ℕ) (h : Handle) : Prop where
  lo : 3 ≤ fid
  hi : fid < 16
  used : (m.sbi.fileTable fid).used = true
  size : (m.sbi.fileTable fid).size = h.size
  nonneg : 0 ≤ h.size
  le : h.size ≤ 4096
  ino : m.ids h.path = some (m.sbi.fileTable fid).ino.toNat
  file : ∃ data, m.view h.path = some (.file data)

structure Iom.Shows (m : Iom) (a : Files) : Prop where
  regular : m.Regular
  names : m.view = a.names
  free : ∀ fid, 3 ≤ fid → fid < 16 → a.handle fid = none → (m.sbi.fileTable fid).used = false
  held : ∀ fid h, a.handle fid = some h → m.Holds fid h

/-- The same slot, and the path leads to the same inode, still a file. -/
theorem Iom.Holds.congr {h' : Handle} (hh : m.Holds fid h) (hft : m'.sbi.fileTable fid = m.sbi.fileTable fid)
    (hs : h'.size = h.size) (hids : m'.ids h'.path = m.ids h.path) (hv : m'.view h'.path = m.view h.path) : m'.Holds fid h' := by
  refine ⟨hh.lo,hh.hi,?_,?_,hs ▸ hh.nonneg,hs ▸ hh.le,?_,?_⟩
  · rw [hft]
    exact hh.used
  · rw [hft, hs]
    exact hh.size
  · rw [hids, hft]
    exact hh.ino
  · rw [hv]
    exact hh.file

theorem view_setFile : (m.setFile fid ft).view = m.view := by
  have ht : (m.setFile fid ft).tree = m.tree := by
    rw [Iom.tree, entries_setFile]
    rfl
  have hn : (m.setFile fid ft).node = m.node := by
    funext k
    unfold Iom.node
    rw [ht]
    rfl
  rw [Iom.view, ht, hn, Iom.view]

theorem ids_setFile : (m.setFile fid ft).ids = m.ids := by
  have ht : (m.setFile fid ft).tree = m.tree := by
    rw [Iom.tree, entries_setFile]
    rfl
  rw [Iom.ids, ht, Iom.ids]

namespace Iom.Shows
variable (hs : m.Shows a)
include hs

/-- Nothing is open where there is no file. -/
theorem closed (hp : ∀ data, a.names p ≠ some (.file data)) : a.Closed p := by
  rintro fid h hh rfl
  obtain ⟨data,hd⟩ := (hs.held fid h hh).file
  exact hp data (hs.names ▸ hd)

/-- The file behind a handle. -/
theorem file_of_handle (hh : a.handle fid = some h) (hd : a.names h.path = some (.file bytes)) :
    ∃ k, Reach shape m.tree h.path k ∧ m.tree.kind k = some .file ∧ (m.sbi.fileTable fid).ino.toNat = k ∧ m.content k = bytes := by
  have hheld := hs.held fid h hh
  have hreach := hs.regular.ids_eq_some.mp hheld.ino
  rw [← hs.names] at hd
  obtain ⟨l,hl,hkind,hbytes⟩ := hs.regular.view_file.mp hd
  obtain rfl := hl.node_unique hs.regular.unique hreach
  exact ⟨_,hreach,hkind,rfl,hbytes.symm⟩

/-! ## Changes -/

theorem put (hr : m'.Regular) (hp : m.Puts m' p o) (hc : a.Closed p) : m'.Shows (a.put p (o.map Prod.snd)) := by
  refine ⟨hr,?_,fun fid hlo hhi hn => ?_,fun fid h hh => ?_⟩
  · rw [hp.view, hs.names]
    rfl
  · rw [hp.handles]
    exact hs.free fid hlo hhi hn
  · have hne : h.path ≠ p := hc fid h hh
    refine (hs.held fid h hh).congr (congrFun hp.handles fid) rfl ?_ ?_
    · rw [hp.ids, Function.update_of_ne hne]
    · rw [hp.view, Function.update_of_ne hne]

theorem move (hr : m'.Regular) (hm : m.Moves m' p q) (hq : a.names q = none) : m'.Shows (a.move p q) := by
  refine ⟨hr,?_,fun fid hlo hhi hn => ?_,fun fid h' hh => ?_⟩
  · rw [hm.view, hs.names]
    rfl
  · rw [hm.handles]
    exact hs.free fid hlo hhi (Option.map_eq_none_iff.mp hn)
  · obtain ⟨h,hold,rfl⟩ := Option.map_eq_some_iff.mp hh
    have hheld := hs.held fid h hold
    have hft := congrFun hm.handles fid
    unfold Files.relocate
    split
    · next hin =>
      obtain ⟨r,hr'⟩ := hin
      have hpath : h.path.take (h.path.length - p.length) ++ q = r ++ q := by
        rw [← hr', List.length_append, Nat.add_sub_cancel, List.take_left]
      refine hheld.congr hft rfl ?_ ?_
      · rw [hm.ids, hpath, Namespace.move_inside, hr']
      · rw [hm.view, hpath, Namespace.move_inside, hr']
    · next hout =>
      -- an open file does not lie below a path that leads nowhere
      have hq' : ¬q <:+ h.path := by
        rintro ⟨r,hr'⟩
        obtain ⟨data,hd⟩ := hheld.file
        rw [← hr', hs.regular.view_below (hs.names ▸ hq)] at hd
        cases hd
      refine hheld.congr hft rfl ?_ ?_
      · rw [hm.ids, Namespace.move_outside hq' hout]
      · rw [hm.view, Namespace.move_outside hq' hout]

theorem rewrite (hr : m'.Regular) (hw : m.Rewrites m' h.path fid bytes) (hh : a.handle fid = some h)
    (hlen : bytes.length ≤ 4096) :
    m'.Shows ((a.put h.path (some (.file bytes))).setHandle fid (some ⟨h.path,bytes.length⟩)) := by
  have hheld := hs.held fid h hh
  refine ⟨hr,?_,fun j hlo hhi hn => ?_,fun j h' hj => ?_⟩
  · rw [hw.view, hs.names]
    rfl
  · have hne : j ≠ fid := by
      rintro rfl
      rw [Files.setHandle_self] at hn
      cases hn
    rw [Files.setHandle_of_ne hne] at hn
    rw [hw.handles j hne]
    exact hs.free j hlo hhi hn
  · by_cases hne : j = fid
    · subst hne
      rw [Files.setHandle_self] at hj
      obtain rfl := Option.some.inj hj
      refine ⟨hheld.lo,hheld.hi,?_,hw.size,Int.natCast_nonneg _,Int.ofNat_le.mpr hlen,?_,bytes,?_⟩
      · rw [hw.used]
        exact hheld.used
      · rw [hw.ids, hw.ino]
        exact hheld.ino
      · rw [hw.view, Function.update_self]
    · rw [Files.setHandle_of_ne hne] at hj
      have hold := hs.held j h' hj
      by_cases hp : h'.path = h.path
      · -- the same file through another handle
        refine ⟨hold.lo,hold.hi,?_,?_,hold.nonneg,hold.le,?_,bytes,?_⟩
        · rw [hw.handles j hne]
          exact hold.used
        · rw [hw.handles j hne]
          exact hold.size
        · rw [hw.ids, hw.handles j hne]
          exact hold.ino
        · rw [hw.view, hp, Function.update_self]
      · refine hold.congr (hw.handles j hne) rfl ?_ ?_
        · rw [hw.ids]
        · rw [hw.view, Function.update_of_ne hp]

/-! ## Handles -/

/-- Another slot `fid` of the open file table. -/
theorem setFile {g : Option Handle} (hfree : g = none → ft.used = false) (hheld : ∀ h, g = some h → (m.setFile fid ft).Holds fid h) :
    (m.setFile fid ft).Shows (a.setHandle fid g) := by
  have hother : ∀ j, j ≠ fid → (m.setFile fid ft).sbi.fileTable j = m.sbi.fileTable j := fun j hj => Function.update_of_ne hj _ _
  refine ⟨hs.regular.setFile fid ft,view_setFile.trans hs.names,fun j hlo hhi hn => ?_,fun j h hj => ?_⟩
  · by_cases hne : j = fid
    · subst hne
      rw [Files.setHandle_self] at hn
      rw [setFile_fileTable_self]
      exact hfree hn
    · rw [Files.setHandle_of_ne hne] at hn
      rw [hother j hne]
      exact hs.free j hlo hhi hn
  · by_cases hne : j = fid
    · subst hne
      rw [Files.setHandle_self] at hj
      exact hheld h hj
    · rw [Files.setHandle_of_ne hne] at hj
      exact (hs.held j h hj).congr (hother j hne) rfl (congrFun ids_setFile _) (congrFun view_setFile _)

theorem release : (m.setFile fid FileTable.empty).Shows (a.setHandle fid none) :=
  hs.setFile (fun _ => rfl) (fun h hn => by cases hn)

/-- A file is opened. -/
theorem openFile {k : ℕ} (hlo : 3 ≤ fid) (hhi : fid < 16) (hp : Reach shape m.tree p k) (hk : m.tree.kind k = some .file)
    (hused : ft.used = true) (hino : ft.ino.toNat = k) (hsize : ft.size = (m.content k).length) :
    (m.setFile fid ft).Shows (a.setHandle fid (some ⟨p,(m.content k).length⟩)) := by
  refine hs.setFile (fun hn => by cases hn) (fun h hh => ?_)
  obtain rfl := Option.some.inj hh
  have hft : (m.setFile fid ft).sbi.fileTable fid = ft := setFile_fileTable_self
  have hle := (hs.regular.size_le hk).1
  rw [hs.regular.cluster] at hle
  have hlen : (m.content k).length ≤ 4096 := by
    rw [Iom.Regular.length_content]
    exact hle
  refine ⟨hlo,hhi,?_,?_,Int.natCast_nonneg _,Int.ofNat_le.mpr hlen,?_,m.content k,?_⟩
  · rw [hft]
    exact hused
  · rw [hft]
    exact hsize
  · rw [ids_setFile, hft, hino]
    exact hs.regular.ids_eq_some.mpr hp
  · rw [view_setFile]
    exact hs.regular.view_file.mpr ⟨k,hp,hk,rfl⟩

/-- Where the next read or write starts is not shown. -/
theorem seek (hh : a.handle fid = some h) (hused : ft.used = (m.sbi.fileTable fid).used) (hino : ft.ino = (m.sbi.fileTable fid).ino)
    (hsize : ft.size = (m.sbi.fileTable fid).size) : (m.setFile fid ft).Shows a := by
  have hft : (m.setFile fid ft).sbi.fileTable fid = ft := setFile_fileTable_self
  have hsame : a.setHandle fid (a.handle fid) = a := congrArg (Files.mk a.names) (Function.update_eq_self fid a.handle)
  have hshow : (m.setFile fid ft).Shows (a.setHandle fid (a.handle fid)) := by
    refine hs.setFile (fun hn => by cases hh.symm.trans hn) (fun h hh => ?_)
    have hheld := hs.held fid h hh
    refine ⟨hheld.lo,hheld.hi,?_,?_,hheld.nonneg,hheld.le,?_,?_⟩
    · rw [hft, hused]
      exact hheld.used
    · rw [hft, hsize]
      exact hheld.size
    · rw [ids_setFile, hft, hino]
      exact hheld.ino
    · rw [view_setFile]
      exact hheld.file
  rwa [hsame] at hshow

end Iom.Shows

end SimpleFS
