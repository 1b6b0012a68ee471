import SimpleFS.PathCalls

/-! # Looking at a path

Attributes, listings and the setting of times leave what is shown as it is. A listing says of every name in the
directory whether it is that of a directory.
-/
namespace SimpleFS
open Bytes Machine Prog SlotTree

variable {u : Prop} {e : Env} {s s' : Sys} {m : Iom} {a : Files} {D k i : ℕ} {x y : List UInt8} {p q : List (List UInt8)}

theorem doFillInode_size (v : Inode) : (doFillInode v).stSize = v.iSize.toInt := rfl

/-- What a client sees of a listing. -/
def Filled.shown (f : Filled) : List UInt8 × Bool := (f.name,decide (f.stMode = dtDir <<< 12))

/-- What a binding looks like in a listing. -/
def Iom.shownSlot (m : Iom) (o : List UInt8 × ℕ) : List UInt8 × Bool := (o.1,decide ((m.inode o.2).iType = lab4TypeDirectory))

theorem filled_shown (m : Iom) (d : DirEntry) : (m.filled d).map Filled.shown = d.binding.map m.shownSlot := by
  unfold Iom.filled DirEntry.binding
  split
  · unfold Filled.shown Iom.shownSlot
    simp only [Option.map_some, Option.some.injEq, Prod.mk.injEq, true_and, decide_eq_decide]
    split
    · next h => simp [h]
    · next h => simp [h,dtDir,dtReg]
  · rfl

/-- The names in the slots of a directory are those that are listed. -/
def Iom.shownDir (m : Iom) (D : ℕ) : List (List UInt8 × Bool) :=
  (List.range lab4DirEntryNum).filterMap (fun i => (m.tree.slot D i).map m.shownSlot)

/-! ## Listings -/

namespace Iom.Regular
variable (h : m.Regular)
include h

theorem mem_shownDir {o : List UInt8 × Bool} :
    o ∈ m.shownDir D ↔ ∃ i x k, m.tree.slot D i = some (x,k) ∧ o = m.shownSlot (x,k) := by
  unfold Iom.shownDir
  rw [List.mem_filterMap]
  constructor
  · rintro ⟨i,_,hi⟩
    obtain ⟨⟨x,k⟩,hs,rfl⟩ := Option.map_eq_some_iff.mp hi
    exact ⟨i,x,k,hs,rfl⟩
  · rintro ⟨i,x,k,hs,rfl⟩
    exact ⟨i,List.mem_range.mpr (h.sane.sound.dir D i _ hs).2,Option.map_eq_some_iff.mpr ⟨(x,k),hs,rfl⟩⟩

/-- No name is listed twice. -/
theorem nodup_shownDir : ((m.shownDir D).map Prod.fst).Nodup := by
  unfold Iom.shownDir
  rw [List.map_filterMap]
  refine List.Nodup.filterMap (fun i j x hi hj => ?_) List.nodup_range
  obtain ⟨b,hb,rfl⟩ := Option.map_eq_some_iff.mp hi
  obtain ⟨⟨x,k⟩,hs,rfl⟩ := Option.map_eq_some_iff.mp hb
  obtain ⟨c,hc,hx⟩ := Option.map_eq_some_iff.mp hj
  obtain ⟨⟨y,l⟩,hs',rfl⟩ := Option.map_eq_some_iff.mp hc
  obtain rfl : y = x := hx
  exact h.unique D i j _ _ _ hs hs'

omit h in
theorem wp_doReaddir_shown {Q : ℤ × List Filled → Sys → Prop} (he : e.Nominal) (hr : s.iom.Regular)
    (hD : s.iom.tree.kind D = some .dir)
    (hQ : ∀ s' filled, s'.iom = s.iom → filled.map Filled.shown = s.iom.shownDir D → Q (lab4Success,filled) s') :
    wp u (doReaddir (s.iom.inode D) 0) Q e s := by
  have hsize : (s.iom.inode D).iSize.toInt = (lab4DirEntrySize * lab4DirEntryNum : ℕ) := by
    have h4096 : (s.iom.inode D).iSize = 4096 := hr.sane.ledger.dir_size hD
    rw [h4096]
    decide
  have hslot : ∀ i < lab4DirEntryNum, (s.iom.blockEntry (s.iom.inode D) i).binding = s.iom.tree.slot D i := fun i hi =>
    (Iom.Mounted.tree_slot hr.sane.ledger hD hi).symm
  refine wp_doReaddir_rounds (k := 0) he hsize (by decide) (Nat.zero_le _) (fun hn => absurd (fun i hi hf => ?_) hn)
    (fun s' _ hs' => hQ s' _ hs' ?_)
  · have hb := (hslot i hi).symm.trans (binding_of_used hf)
    obtain ⟨hlen,hlo,hhi⟩ := hr.slots D i _ _ hb
    exact ⟨hlo,hhi,hlen⟩
  · rw [Iom.listed, Iom.filledSlots, List.map_filterMap, Iom.shownDir, List.range_eq_range']
    refine List.filterMap_congr (fun i hi => ?_)
    rw [filled_shown]
    exact congrArg _ (hslot i (by simpa using (List.mem_range'_1.mp hi).2))

end Iom.Regular

/-- The listing of a directory. -/
theorem Iom.Shows.lists (hs : m.Shows a) (hD : Reach shape m.tree p D) (hk : m.tree.kind D = some .dir) :
    a.Lists p (m.shownDir D) := by
  have hsound := hs.regular.sane.sound
  have hmem : ∀ {i x k}, m.tree.slot D i = some (x,k) → x ∈ (m.shownDir D).map Prod.fst := fun hi =>
    List.mem_map.mpr ⟨_,hs.regular.mem_shownDir.mpr ⟨_,_,_,hi,rfl⟩,rfl⟩
  refine ⟨hs.regular.nodup_shownDir,⟨hmem (hsound.self D hk),?_⟩,fun x b hdot hdd => ?_⟩
  · obtain ⟨q,hq⟩ := hsound.up D hk
    exact hmem hq
  -- a node's label says whether it is a directory
  have hlabel : ∀ {k v}, m.node k = some v → (decide ((m.inode k).iType = lab4TypeDirectory) = decide (v = .dir)) := by
    intro k v hv
    rw [decide_eq_decide]
    constructor
    · intro ht
      have hlive : m.books.Live k := Iom.live_of_kind (fun hn => by
        unfold Iom.node at hv
        rw [hn] at hv
        cases hv)
      have hkind : m.tree.kind k = some .dir := (Books.kind_eq_dir hs.regular.sane.ledger).mpr ⟨hlive,ht⟩
      exact Option.some.inj (hv.symm.trans (node_dir hkind))
    · rintro rfl
      exact ((Books.kind_eq_dir hs.regular.sane.ledger).mp (kind_of_node_dir hv)).2
  rw [hs.regular.mem_shownDir]
  constructor
  · rintro ⟨i,y,k,hi,ho⟩
    obtain ⟨rfl,rfl⟩ := Prod.mk.inj ho
    have hlo : 2 ≤ i := by
      by_contra hlt
      rcases (show i = 0 ∨ i = 1 by omega) with rfl | rfl
      · rw [hsound.self D hk] at hi
        exact hdot (congrArg Prod.fst (Option.some.inj hi)).symm
      · obtain ⟨q,hq⟩ := hsound.up D hk
        rw [hq] at hi
        exact hdd (congrArg Prod.fst (Option.some.inj hi)).symm
    have hp : Reach shape m.tree (x :: p) k := .step hD hlo hi
    obtain ⟨v,hv⟩ := Option.ne_none_iff_exists'.mp (Iom.labelled k (hp.live hsound))
    exact ⟨v,(hs.names_node hp).trans hv,hlabel hv⟩
  · rintro ⟨v,hv,rfl⟩
    rw [← hs.names] at hv
    obtain ⟨k,hp,hn⟩ := (names_eq_some hs.regular.unique).mp hv
    obtain ⟨i,_,hi⟩ := (reach_cons hs.regular.unique hD).mp hp
    exact ⟨i,x,k,hi,Prod.ext rfl (hlabel hn).symm⟩

/-! ## The calls -/

section Calls
variable (he : e.Nominal) (hs : s.iom.Shows a) (hp : a.Plain p)
include he hs hp

/-- The record at the end of a path. -/
theorem wp_readEnd {Q : ℤ × Option Inode → Sys → Prop}
    (hmiss : ∀ s', s'.iom.Shows a → a.names p = none → Q (-enoent,none) s')
    (hok : ∀ s' k, s'.iom = s.iom → Reach shape s.iom.tree p k → Q (lab4Success,some (s.iom.inode k)) s') :
    wp u (lab4ReadInode (pathTo p) none) Q e s := by
  have hf := hs.followable hp
  refine wp_readPath he hs.regular hf hf.strtok_pathTo ?_ (fun s' h' hv => hmiss s' (h' ▸ hs) (hs.names ▸ hv)) hok
  cases p with
  | nil => decide
  | cons x p =>
    have hx := hp.1.valid.lt
    have hlen := hp.2.length
    rw [pathTo_cons, List.length_append, List.length_cons]
    unfold fnameSize at hx hlen
    omega

/-- What is reported of a path is the size of what is there. -/
theorem answered_getattr {st : Stat} (hst : st.stSize = 0) :
    wp u (lab4Getattr (pathTo p) st) (fun r s' => a.Answered (.getattr p) (.attr r.1 r.2.stSize) s') e s := by
  unfold lab4Getattr
  rw [pathTo_checked, wp_bind]
  refine wp_readEnd he hs hp (fun s1 h1 hn => ?_) (fun s1 k h1 hk => ?_)
  · dsimp only
    rw [if_neg (by decide), if_pos rfl, wp_pure]
    dsimp only
    rw [hst]
    exact ⟨a,.getattrMissing hn,h1⟩
  · dsimp only
    rw [if_neg (by decide), if_neg (by decide), wp_pure]
    obtain ⟨v,hv⟩ := Option.ne_none_iff_exists'.mp (Iom.labelled k (hk.live hs.regular.sane.sound))
    rw [doFillInode_size, hs.regular.node_size hv]
    exact ⟨a,.getattr ((hs.names_node hk).trans hv),h1 ▸ hs⟩

theorem answered_readdir (hn : ∀ data, a.names p ≠ some (.file data)) :
    wp u (lab4Readdir (pathTo p) 0) (fun r s' => a.Answered (.readdir p) (.entries r.1 (r.2.map Filled.shown)) s') e s := by
  unfold lab4Readdir
  rw [pathTo_checked, wp_bind]
  refine wp_readEnd he hs hp (fun s1 h1 hn => ?_) (fun s1 D h1 hD => ?_)
  · dsimp only
    rw [if_neg (by decide), if_pos rfl, wp_pure]
    exact ⟨a,.readdirMissing hn,h1⟩
  · have hk := hs.dir_of_reach hD hn
    rw [← h1] at hs hD hk ⊢
    dsimp only
    rw [if_neg (by decide), if_neg (by decide), wp_bind]
    refine Iom.Regular.wp_doReaddir_shown he hs.regular hk (fun s2 filled h2 hfilled => ?_)
    dsimp only
    rw [if_neg (by decide), wp_pure]
    dsimp only
    rw [hfilled]
    exact ⟨a,.readdir (hs.names_dir hD hk) (hs.lists hD hk),h2 ▸ hs⟩

/-- Times are set in a copy of the record. -/
theorem answered_utimens {t t' : ℤ} :
    wp u (lab4Utimens (pathTo p) t t') (fun r s' => a.Answered (.utimens p t t') (.code r) s') e s := by
  cases p with
  | nil =>
    unfold lab4Utimens doUtimens
    rw [wp_bind, if_pos (show pathTo [] = [slash] from rfl), wp_pure, if_neg (by decide), wp_pure]
    exact ⟨a,.utimens,hs⟩
  | cons x p =>
    have hx := hp.1
    have hne : pathTo (x :: p) ≠ [slash] := by
      intro hn
      have hlen := congrArg List.length hn
      have hpos := hx.valid.pos
      rw [pathTo_cons, List.length_append, List.length_cons] at hlen
      simp at hlen
      omega
    have hfits : PathFits (pathTo (x :: p)) := by
      rw [PathFits, pathTo_cons, lastName_append hx.noSlash, dirName_append hx.noSlash]
      exact ⟨hx.valid.lt.le,hp.2.length.le⟩
    have hwp : wp u (lab4ReadInode (pathTo (x :: p)) none >>= utimensResult)
        (fun r s' => a.Answered (.utimens (x :: p) t t') (.code r) s') e s.next := by
      have hs' : s.next.iom.Shows a := hs
      rw [wp_bind]
      refine wp_readEnd he hs' hp (fun s1 h1 _ => ?_) (fun s1 k h1 _ => ?_)
      · unfold utimensResult
        rw [if_neg (by decide), if_pos rfl, wp_pure]
        exact ⟨a,.utimens,h1⟩
      · unfold utimensResult
        dsimp only
        rw [if_neg (by decide), if_neg (by decide), wp_pure]
        exact ⟨a,.utimens,h1 ▸ hs'⟩
    unfold wp at hwp ⊢
    rwa [lab4Utimens_fits he.malloc hne slash_mem_pathTo hfits]

end Calls

end SimpleFS
