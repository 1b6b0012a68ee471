import SimpleFS.Shown

/-! # Mounting a volume again

A mount reads into fresh buffers what the device holds. As far as records and bits count, they hold what the old ones
held when the metadata was on the device, so every path leads where it led.
-/
namespace SimpleFS
open Bytes Machine Prog SlotTree

variable {e : Env} {s : Sys} {m m' : Iom} {a : Files} {n k b : ℕ} {heap : ℕ → Mem} {y z : ℤ}

/-! ## Books that count alike -/

/-- The same records and bits below the limits. -/
structure Books.Alike (c c' : Books) (n : ℕ) : Prop where
  clusterSize : c'.clusterSize = c.clusterSize
  inode : ∀ k < c.num, c'.inode k = c.inode k
  ibit : ∀ k < c.num, c'.ibit k = c.ibit k
  dbit : ∀ b < n, c'.dbit b = c.dbit b

namespace Books.Alike
variable {c c' : Books} {f : ℕ → ℕ → DirEntry} (h : c.Alike c' n)
include h

theorem num : c'.num = c.num := by rw [Books.num, h.clusterSize, Books.num]

theorem blockAddr : c'.blockAddr b = c.blockAddr b := by rw [Books.blockAddr, h.clusterSize, Books.blockAddr]

theorem live : c'.Live k ↔ c.Live k := by
  unfold Books.Live
  rw [h.num]
  constructor
  · exact fun ⟨h2,hk,hb⟩ => ⟨h2,hk,h.ibit k hk ▸ hb⟩
  · exact fun ⟨h2,hk,hb⟩ => ⟨h2,hk,(h.ibit k hk).symm ▸ hb⟩

theorem inode_live (hk : c.Live k) : c'.inode k = c.inode k := h.inode k hk.2.1

theorem owns : c'.Owns k b ↔ c.Owns k b := by
  constructor
  · intro ho
    have hk := h.live.mp ho.live
    exact (Books.owns_congr h.live (h.inode_live hk) h.clusterSize).mp ho
  · intro ho
    exact (Books.owns_congr h.live (h.inode_live ho.live) h.clusterSize).mpr ho

theorem kind : c'.kind = c.kind := by
  funext k
  by_cases hk : c.Live k
  · exact Books.kind_congr h.live (congrArg Inode.iType (h.inode_live hk))
  · rw [Books.kind_eq_none.mpr hk, Books.kind_eq_none.mpr (fun hn => hk (h.live.mp hn))]

theorem tree : c'.tree f = c.tree f := by
  have hslot : c'.slot f = c.slot f := by
    funext D
    by_cases hD : c.Live D
    · refine Books.slot_congr (congrFun h.kind D) ?_
      rw [Books.block, Books.addr, h.inode_live hD, h.clusterSize]
      rfl
    · funext i
      have hk : c.kind D = none := Books.kind_eq_none.mpr hD
      unfold Books.slot
      rw [h.kind, hk, if_neg (fun hn => by cases hn.1), if_neg (fun hn => by cases hn.1)]
  rw [Books.tree, h.kind, hslot, Books.tree]

theorem ledger (hl : c.Ledger) (hn : c.Neat n) : c'.Ledger := by
  have hnum := hl.num_le
  refine ⟨h.clusterSize.symm ▸ hl.cluster,fun k hk => ?_,fun k h2 hk hb => ?_,fun k hk hs => ?_,fun k l b hk hb => ?_,
    fun k hk => ?_,?_⟩
  · have hk := h.live.mp hk
    rw [h.inode_live hk]
    exact hl.live k hk
  · rw [h.num] at hk
    rw [h.ibit k hk] at hb
    rw [h.inode k hk]
    exact hl.free k h2 hk hb
  · have hk := h.live.mp hk
    rw [h.inode_live hk] at hs
    obtain ⟨b,ho,hle,hset⟩ := hl.own k hk hs
    refine ⟨b,h.owns.mpr ho,?_,?_⟩
    · rw [h.blockAddr, h.clusterSize]
      exact hle
    · rw [h.dbit b (hn.below k b ho)]
      exact hset
  · exact hl.distinct k l b (h.owns.mp hk) (h.owns.mp hb)
  · rw [h.ibit k (by omega)]
    exact hl.reserved k hk
  · rw [h.inode 2 (by omega)]
    exact hl.root

theorem neat (hn : c.Neat n) : c'.Neat n := by
  have hfile : ∀ {P : Inode → Prop}, c.EachFile P → c'.EachFile P := fun hP k hk => by
    rw [h.kind] at hk
    rw [h.inode_live (Books.kind_eq_file.mp hk).1]
    exact hP k hk
  refine ⟨hfile hn.links,hfile hn.tail,fun k h3 hk hb => ?_,fun k b ho => hn.below k b (h.owns.mp ho),h.owns.mpr hn.first⟩
  rw [h.num] at hk
  rw [h.ibit k hk] at hb
  rw [h.inode k hk]
  exact hn.zero k h3 hk hb

theorem attributed (ha : c.Attributed n) : c'.Attributed n := fun b hb hbit => by
  rw [h.dbit b hb] at hbit
  obtain ⟨k,ho⟩ := ha b hb hbit
  exact ⟨k,h.owns.mpr ho⟩

theorem eachLive {P : Inode → Prop} (hP : c.EachLive P) : c'.EachLive P := fun k hk => by
  have hk := h.live.mp hk
  rw [h.inode_live hk]
  exact hP k hk

end Books.Alike

/-! ## The mount -/

namespace Iom.Regular
variable (h : m.Regular)
include h

omit h in
theorem bit_congr {x x' : Mem} {i n : ℕ} (hx : ∀ j < n, x' j = x j) (hi : i < 8 * n) : bit x' i = bit x i := by
  unfold bit
  rw [hx (i / 8) (by omega)]

theorem alike_mountIom : m.books.Alike (mountIom m.dev heap y z).books m.maxBlock := by
  have hcs : (mountIom m.dev heap y z).clusterSize = m.clusterSize := h.hinted.opened
  have hmir : (mountIom m.dev heap y z).Mirrored := mirrored_mountIom
  have hdev : (mountIom m.dev heap y z).dev = m.dev := rfl
  have hcl := h.cluster
  have hmul := h.sane.mounted.inodeNum_mul
  have hnum := h.sane.ledger.num_le
  have hitble : ∀ j < m.clusterSize, (mountIom m.dev heap y z).iomBufItble j = m.iomBufItble j := fun j hj => by
    have := hmir.itble j (hcs ▸ hj)
    rw [hcs, hdev, h.mirrored.itble j hj] at this
    exact this.symm
  have hibmap : ∀ j < m.clusterSize, (mountIom m.dev heap y z).ibmap j = m.ibmap j := fun j hj => by
    have := hmir.ibmap j (hcs ▸ hj)
    rw [hcs, hdev, h.mirrored.ibmap j hj] at this
    exact this.symm
  have hdbmap : ∀ j < m.clusterSize, (mountIom m.dev heap y z).dbmap j = m.dbmap j := fun j hj => by
    have := hmir.dbmap j (hcs ▸ hj)
    rw [hcs, hdev, h.mirrored.dbmap j hj] at this
    exact this.symm
  refine ⟨hcs,fun k hk => ?_,fun k hk => bit_congr hibmap (by omega),fun b hb => bit_congr hdbmap ?_⟩
  · refine inodeCodec.get_congr (fun i hlo hi => ?_)
    rw [inodeCodec_size] at hi
    have hk' : k < m.inodeNum := hk
    have hle := Nat.mul_le_mul_right lab4InodeEntrySize (Nat.succ_le_of_lt hk')
    rw [Nat.succ_mul] at hle
    exact hitble i (by unfold lab4InodeEntrySize at *; omega)
  · have hmax := h.blocks
    omega

theorem tree_mountIom : (mountIom m.dev heap y z).tree = m.tree := by
  have hent : (mountIom m.dev heap y z).entries = m.entries := entries_congr rfl h.hinted.opened
  rw [Iom.tree, hent]
  exact h.alike_mountIom.tree

theorem hintKept_mountIom : (mountIom m.dev heap y z).HintKept m.maxBlock :=
  h.hintKept.dev.mount h.sane.mounted.cluster h.hinted.opened

theorem mountIom : (mountIom m.dev heap y z).Regular := by
  have hkept : (SimpleFS.mountIom m.dev heap y z).HintKept m.maxBlock := h.hintKept_mountIom
  have ha : m.books.Alike (SimpleFS.mountIom m.dev heap y z).books m.maxBlock := h.alike_mountIom
  have ht : (SimpleFS.mountIom m.dev heap y z).tree = m.tree := h.tree_mountIom
  have hmax : (SimpleFS.mountIom m.dev heap y z).maxBlock = m.maxBlock := hkept.mem.maxBlock
  have hnum : (SimpleFS.mountIom m.dev heap y z).inodeNum = m.inodeNum := ha.num
  refine ⟨⟨hkept.mem.mounted,ha.ledger h.sane.ledger h.neat,?_⟩,ha.clusterSize.trans h.cluster,?_,?_,?_,?_,?_,?_,
    ha.eachLive h.bounded,?_,mirrored_mountIom⟩
  · rw [ht]
    exact h.sane.sound
  · rw [hmax]
    exact h.blocks
  · rw [ht]
    exact h.unique
  · rw [ht]
    exact h.grounded
  · rw [ht, hnum]
    exact h.slots
  · rw [hmax]
    exact ha.neat h.neat
  · rw [hmax]
    exact ha.attributed h.attributed
  · rw [hmax]
    exact hkept.mem

theorem node_mountIom : (SimpleFS.mountIom m.dev heap y z).node = m.node := by
  funext k
  unfold Iom.node
  rw [h.tree_mountIom]
  split
  · rfl
  · rfl
  · next hk =>
    have hlive := (h.file_live hk).2.1
    rw [h.content_congr hk (h.alike_mountIom.inode_live hlive) (fun _ _ _ _ => rfl)]

theorem view_mountIom : (SimpleFS.mountIom m.dev heap y z).view = m.view := by
  rw [Iom.view, h.tree_mountIom, h.node_mountIom, Iom.view]

end Iom.Regular

/-- All is there again, and no file is open. -/
theorem Iom.Shows.mountIom (hs : m.Shows a) : (SimpleFS.mountIom m.dev heap y z).Shows { a with handle := fun _ => none } :=
  ⟨hs.regular.mountIom,hs.regular.view_mountIom.trans hs.names,fun _ _ _ _ => rfl,fun _ _ hn => by cases hn⟩

/-- A mount of the device succeeds. -/
theorem wp_mount_regular {u : Prop} {Q : Bool → Sys → Prop} (he : e.Nominal) (h : s.iom.Regular)
    (hQ : ∀ s' y z, s'.iom = SimpleFS.mountIom s.iom.dev e.heap y z → Q true s') : wp u mount Q e s := by
  have hc : IsCluster (openDevice s.iom.dev).clusterSize := h.hinted.opened ▸ h.sane.mounted.cluster
  refine wp_mount he.io he.malloc hc (fun s1 y z _ h1 => hQ s1 y z h1) (fun s1 hsig => ?_)
  have hkept : (SimpleFS.mountIom s.iom.dev e.heap 0 0).HintKept s.iom.maxBlock := h.hintKept_mountIom
  exact absurd hkept.mem.sb.signature hsig

theorem answered_remount {u : Prop} (he : e.Nominal) (hs : s.iom.Shows a) : wp u mount (fun ok s' => ok = true ∧
    s'.iom.Shows { a with handle := fun _ => none }) e s :=
  wp_mount_regular he hs.regular (fun _ _ _ h1 => ⟨rfl,h1 ▸ hs.mountIom⟩)

end SimpleFS
