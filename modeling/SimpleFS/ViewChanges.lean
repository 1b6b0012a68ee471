import SimpleFS.View

/-! # What an operation does to the paths

A new entry changes what one path leads to, a removal too, and a rename moves a path with all below it. Paths and
the inodes behind them change together.
-/
namespace SimpleFS
open Bytes Machine SlotTree

variable {m m1 m' : Iom} {D E k b i j n offset fid : ℕ} {x y : List UInt8} {p q : List (List UInt8)} {v : Inode}
  {d : DirEntry} {found : Bool} {data : Mem} {z : ℤ} {ft : FileTable}

/-- Path `p` leads to `o`, an inode with what it is, and to nothing for `none`; all other paths lead where they led. -/
structure Iom.Puts (m m' : Iom) (p : List (List UInt8)) (o : Option (ℕ × Node)) : Prop where
  view : m'.view = Function.update m.view p (o.map Prod.snd)
  ids : m'.ids = Function.update m.ids p (o.map Prod.fst)
  handles : m'.sbi.fileTable = m.sbi.fileTable

/-- What lay at `p` and below it lies at `q`. -/
structure Iom.Moves (m m' : Iom) (p q : List (List UInt8)) : Prop where
  view : m'.view = m.view.move p q
  ids : m'.ids = m.ids.move p q
  handles : m'.sbi.fileTable = m.sbi.fileTable

/-- The file at `p` has these bytes, and the handle it was written through knows their number. -/
structure Iom.Rewrites (m m' : Iom) (p : List (List UInt8)) (fid : ℕ) (bytes : List UInt8) : Prop where
  view : m'.view = Function.update m.view p (some (.file bytes))
  ids : m'.ids = m.ids
  used : (m'.sbi.fileTable fid).used = (m.sbi.fileTable fid).used
  ino : (m'.sbi.fileTable fid).ino = (m.sbi.fileTable fid).ino
  size : (m'.sbi.fileTable fid).size = bytes.length
  handles : ∀ j, j ≠ fid → m'.sbi.fileTable j = m.sbi.fileTable j

namespace Iom.Regular
variable (h : m.Regular)
include h

/-! ## One path -/

theorem puts_add {c : Kind} (hv : Vacant shape m.tree k D i) (hD : Reach shape m.tree p D) (hx : ∀ l, ¬m.tree.Binds D x l)
    (ht : m'.tree = add shape m.tree c k D i x) (hs : ∀ l, l ≠ k → m.Spares m' l) {w : Node} (hw : m'.node k = some w)
    (hh : m'.sbi.fileTable = m.sbi.fileTable) : m.Puts m' (x :: p) (some (k,w)) := by
  refine ⟨?_,?_,hh⟩
  · rw [Iom.view, ht, names_add h.sane.sound h.unique dot_ne_dotdot hv hD hx (fun l hl => h.node_spared (hs l hl)), hw]
    rfl
  · rw [Iom.ids, ht, names_add h.sane.sound h.unique dot_ne_dotdot hv hD hx (fun _ _ => rfl)]
    rfl

theorem puts_remove (hl : Leaf m.tree k D i x) (hD : Reach shape m.tree p D) (ht : m'.tree = m.tree.remove k D i)
    (hs : ∀ l, l ≠ k → m.Spares m' l) (hh : m'.sbi.fileTable = m.sbi.fileTable) : m.Puts m' (x :: p) none := by
  refine ⟨?_,?_,hh⟩
  · rw [Iom.view, ht, names_remove h.sane.sound h.unique hl hD (fun l hl => h.node_spared (hs l hl))]
    rfl
  · rw [Iom.ids, ht, names_remove h.sane.sound h.unique hl hD (fun _ _ => rfl)]
    rfl

theorem moves_move (hm : Movable shape m.tree D i x k E j) (hD : Reach shape m.tree p D) (hE : Reach shape m.tree q E)
    (hout : ¬x :: p <:+ q) (hy : ∀ l, ¬m.tree.Binds E y l) (ht : m'.tree = m.tree.move D i E j y k)
    (hs : ∀ l, m.Spares m' l) (hh : m'.sbi.fileTable = m.sbi.fileTable) : m.Moves m' (x :: p) (y :: q) := by
  refine ⟨?_,?_,hh⟩
  · rw [Iom.view, ht, names_move h.sane.sound h.unique hm hD hE hout hy (fun l => h.node_spared (hs l))]
    rfl
  · rw [Iom.ids, ht, names_move h.sane.sound h.unique hm hD hE hout hy (fun _ => rfl)]
    rfl

/-! ## The operations -/

section Create
variable (hD : Reach shape m.tree p D) (hkind : m.tree.kind D = some .dir) (hk : k < m.inodeNum) (hbit : m.ibit k = false)
  (hf : m.freeScan (m.inode D) = some (found,i)) (hd : d.binding = some (x,k)) (hx : ∀ l, ¬m.tree.Binds D x l)
include hD hkind hk hbit hf hd hx

theorem puts_createFile (hv : FileRecord k v) :
    m.Puts (m.createFile k v (slotAddr (m.inode D) i) d) (x :: p) (some (k,.file [])) := by
  have ht := h.tree_createFile hkind hk hbit hf hd hv
  refine h.puts_add (h.vacant hkind hbit hf) hD hx ht (fun l hl => h.spares_createFile hkind hk hbit hf hd hv hl) ?_ rfl
  have hkind' : (m.createFile k v (slotAddr (m.inode D) i) d).tree.kind k = some .file := by rw [ht, add_kind_self]
  have hrec : (m.createFile k v (slotAddr (m.inode D) i) d).inode k = v := by
    rw [show (m.createFile k v (slotAddr (m.inode D) i) d).inode = _ from congrArg Books.inode (books_createFile _ _ _ _ _)]
    exact Books.store_self
  rw [Iom.node_file hkind', Iom.content_eq, hrec, hv.size]
  rfl

theorem puts_makeDir (hbm : b < m.maxBlock) (hb : m.dbit b = false) (hv : DirRecord k (m.blockAddr b) v) :
    m.Puts (m.makeDir k b v (slotAddr (m.inode D) i) d (m.inode D).iIno) (x :: p) (some (k,.dir)) := by
  have ht := h.tree_makeDir hkind hk hbit hf hd hbm hb hv
  refine h.puts_add (h.vacant hkind hbit hf) hD hx ht (fun l hl => h.spares_makeDir hkind hk hbit hf hd hbm hb hv hl) ?_ rfl
  refine Iom.node_dir ?_
  rw [ht, add_kind_self]

end Create

section Remove
variable (hD : Reach shape m.tree p D) (he : m.Entry D i x k)
include hD he

theorem puts_unlinkEmpty (hk : m.tree.kind k = some .file) :
    m.Puts (m.unlinkEmpty k (slotAddr (m.inode D) i) d.deleted) (x :: p) none :=
  h.puts_remove (h.sane.leaf_file he hk) hD (h.sane.tree_unlinkEmpty he) (fun _ hl => h.spares_unlinkEmpty he hl) rfl

theorem puts_unlinkFile (hk : m.tree.kind k = some .file) (hb : m.books.Owns k b) :
    m.Puts (m.unlinkFile k b (slotAddr (m.inode D) i) d.deleted) (x :: p) none :=
  h.puts_remove (h.sane.leaf_file he hk) hD (h.sane.tree_unlinkFile he hk hb) (fun _ hl => h.spares_unlinkFile he hk hb hl) rfl

theorem puts_removeDir (hk : m.tree.kind k = some .dir) (hempty : m.usedScan k = some (false,j)) (hb : m.books.Owns k b) :
    m.Puts (m.removeDir k b (slotAddr (m.inode D) i) d.deleted D) (x :: p) none :=
  h.puts_remove (h.sane.leaf_dir he hk hempty) hD (h.sane.tree_removeDir he hk hempty hb D)
    (fun _ hl => h.spares_removeDir he hk hempty hb hl) rfl

/-- The entry gets another name in its directory. -/
theorem moves_renameEntry (hy : ValidName y) (hn : ∀ l, ¬m.tree.Binds D y l) :
    m.Moves (m.renameEntry (m.inode D) i y) (x :: p) (y :: p) :=
  h.moves_move (Iom.Sane.movable_self he) hD hD (fun hs => by simpa using hs.length_le) hn (h.sane.tree_renameEntry he hy)
    (fun _ => h.spares_renameEntry he hy) rfl

/-- The entry goes into another directory. -/
theorem moves_moveEntry (hE : Reach shape m.tree q E) (hkind : m.tree.kind E = some .dir)
    (hs : m.insertScan (m.inode E) = some (found,j)) (hn : ∀ l, ¬m.tree.Binds E x l) (hout : ¬x :: p <:+ q) :
    m.Moves (m.moveEntry (m.inode D) i (m.inode E) found j) (x :: p) (x :: q) := by
  obtain ⟨rfl,hlo,hj,hnone⟩ := h.insertScan_found hkind hs
  exact h.moves_move ⟨he.lo,he.bound,hkind,hlo,hj,.inr hnone⟩ hD hE hout hn (h.sane.tree_moveEntry he hkind hj hnone)
    (fun _ => h.spares_moveEntry he hkind hj hnone) rfl

end Remove

/-! ## Writing -/

section Write
variable (hp : Reach shape m.tree p k) (hk : m.tree.kind k = some .file) (hm : m.Prepared m1 b)
  (hin : offset + n ≤ m.clusterSize) (hb : b < m.maxBlock) (hlo : 1 ≤ z) (hhi : z ≤ 4096)
  (hfree : m.books.Owns k b ∨ (m.inode k).iSize = 0 ∧ m.dbit b = false)
include hp hk hm hin hb hlo hhi hfree

/-- The file has other bytes, and every path leads where it led. -/
theorem view_storeData :
    (m1.storeData (m.blockAddr b + offset) n data fid ft (m.inode k) z (m.blockAddr b)).view = Function.update m.view p
      (some (.file (Mem.take (splice (m.dev.bytes.shift (m.blockAddr b)) offset n data) z.toNat))) ∧
    (m1.storeData (m.blockAddr b + offset) n data fid ft (m.inode k) z (m.blockAddr b)).ids = m.ids := by
  obtain ⟨hreg,ht⟩ := @storeData m m1 k b n offset fid data z ft h hk hm hin hb hlo hhi hfree
  refine ⟨?_,by rw [Iom.ids, ht, Iom.ids]⟩
  rw [Iom.view, ht, names_label h.sane.sound h.unique hp (f := m.node) (fun l hl => ?_), Iom.node_file (by rw [ht]; exact hk),
    h.content_storeData hk hm hb (by omega) hhi]
  · rfl
  · unfold Iom.node
    rw [ht]
    split
    · rfl
    · rfl
    · next hfile => rw [h.content_storeData_of_ne hk hm hin (hfree.imp_right And.right) hfile hl]

end Write

omit h in
/-- How many bytes a file has. -/
theorem length_content : (m.content k).length = (m.inode k).iSize.toInt.toNat := Mem.length_take

omit h in
theorem content_eq_nil (hz : (m.inode k).iSize = 0) : m.content k = [] :=
  List.length_eq_zero_iff.mp (by rw [length_content, hz]; rfl)

/-- The size in a record is the size a client knows. -/
theorem node_size {v : Node} (hv : m.node k = some v) : (m.inode k).iSize.toInt = v.size := by
  match v, hv with
  | .dir, hv =>
    have h4096 : (m.inode k).iSize = 4096 := h.sane.ledger.dir_size (kind_of_node_dir hv)
    rw [h4096]
    decide
  | .file bytes, hv =>
    obtain ⟨hfile,hbytes⟩ := kind_of_node_file hv
    have hnn := (h.size_le hfile).2
    rw [Node.size, hbytes, length_content, Int.toNat_of_nonneg hnn]

omit h in
/-- The bytes of a file are the start of its block. -/
theorem content_owned (ho : m.books.Owns k b) : m.content k = (m.dev.bytes.shift (m.blockAddr b)).take (m.content k).length := by
  rw [length_content]
  exact (congrArg (fun a => (m.dev.bytes.shift a).take (m.inode k).iSize.toInt.toNat) ho.addr)

omit h in
theorem storeData_handle {a c : ℕ} : (m1.storeData a n data fid ft v z c).sbi.fileTable fid = ft :=
  setFile_fileTable_self (m := m1.writeDev a n data)

omit h in
theorem storeData_handle_of_ne {a c : ℕ} (hj : j ≠ fid) :
    (m1.storeData a n data fid ft v z c).sbi.fileTable j = m1.sbi.fileTable j := Function.update_of_ne hj _ _

section Wrote
variable {buf : Mem} {size : ℕ} {r : ℤ} (hp : Reach shape m.tree p k) (hk : m.tree.kind k = some .file)
  (hw : m.Wrote fid k buf size offset r m') (hsize : 1 ≤ size) (hin : offset + size ≤ m.clusterSize)
include hp hk hw hsize hin

/-- A write at the end of the data. -/
theorem wrote_append (ho : offset = (m.content k).length) (hft : (m.sbi.fileTable fid).size ≤ (offset + size : ℕ)) :
    r = (size : ℕ) ∧ m'.Regular ∧ m.Rewrites m' p fid (m.content k ++ buf.take size) := by
  have hcl := h.cluster
  rw [length_content] at ho
  have hnn := (h.size_le hk).2
  cases hw with
  | @append b m1 hm hb hfree hfile hle =>
    have hz : m.appendSize fid size offset = (offset + size : ℕ) := by
      unfold Iom.appendSize
      split
      · rfl
      · omega
    rw [hz]
    obtain ⟨hv,hi⟩ := @view_storeData m m1 k b size offset fid p buf (offset + size : ℕ)
      { m.sbi.fileTable fid with rwoffset := (offset + size : ℕ), size := (offset + size : ℕ) } h hp hk hm hin hb
      (by omega) (by omega) hfree
    have hold : (m.dev.bytes.shift (m.blockAddr b)).take offset = m.content k := by
      rcases hfree with hown | ⟨hzero,_⟩
      · rw [content_owned hown, length_content, ← ho]
      · have hlen : offset = 0 := by rw [ho, hzero]; rfl
        have hempty : m.content k = [] := List.length_eq_zero_iff.mp (by rw [length_content, ← ho, hlen])
        rw [hempty, hlen]
        rfl
    rw [Int.toNat_natCast, Mem.take_splice, hold] at hv
    refine ⟨rfl,(h.storeData hk hm hin hb (by omega) (by omega) hfree).1,hv,hi,?_,?_,?_,fun j hj => ?_⟩
    · rw [storeData_handle]
    · rw [storeData_handle]
    · rw [storeData_handle]
      rw [List.length_append, Mem.length_take, length_content, ← ho]
    · rw [storeData_handle_of_ne hj, hfile j hj]
  | copy _ hlt => omega

/-- A write at the start of a file that has data. -/
theorem wrote_copy (ho : offset = 0) (hne : m.content k ≠ []) :
    r = (m.clusterSize : ℕ) ∧ m'.Regular ∧ m.Rewrites m' p fid ((strncpyBuf buf size).take size) := by
  have hcl := h.cluster
  have hnn := (h.size_le hk).2
  have hpos := List.length_pos_iff.mpr hne
  rw [length_content] at hpos
  subst ho
  cases hw with
  | append _ _ _ _ hle => omega
  | @copy b hown hlt =>
    have hm : m.Prepared (m.seekFile fid 0) b := h.prepared_seek hown
    have hb := h.neat.below k b hown
    have hin' : 0 + m.clusterSize ≤ m.clusterSize := by omega
    obtain ⟨hv,hi⟩ := @view_storeData m (m.seekFile fid 0) k b m.clusterSize 0 fid p (strncpyBuf buf size) (size : ℕ)
      { m.sbi.fileTable fid with rwoffset := size, size := size } h hp hk hm hin' hb (by omega) (by omega) (.inl hown)
    have hbytes : Mem.take (splice (m.dev.bytes.shift (m.blockAddr b)) 0 m.clusterSize (strncpyBuf buf size)) size =
        (strncpyBuf buf size).take size := by
      refine Mem.take_congr (fun i hi => ?_)
      rw [splice_inside (Nat.zero_le i) (by omega), Nat.sub_zero]
    rw [Int.toNat_natCast, hbytes] at hv
    refine ⟨rfl,(h.storeData hk hm hin' hb (by omega) (by omega) (.inl hown)).1,hv,hi,?_,?_,?_,fun j hj => ?_⟩
    · rw [storeData_handle]
    · rw [storeData_handle]
    · rw [storeData_handle]
      rw [Mem.length_take]
    · rw [storeData_handle_of_ne hj, seekFile_fileTable hj]

end Wrote

end Iom.Regular

end SimpleFS
