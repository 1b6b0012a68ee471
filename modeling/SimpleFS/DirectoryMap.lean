import SimpleFS.Listing

/-! # The directory operations as a finite map

From (directory, name) to inode: a creation adds one pair, a removal takes one away, an operation that
finds the map already as it is asked to make it says so, and a listing shows the map.
-/
namespace SimpleFS
open Bytes Machine Prog SlotTree

variable {e : Env} {s : Sys} {m m' : Iom} {D k : ℕ} {x : List UInt8}

/-! ## Requests that change nothing -/

section Unchanged
variable (he : e.Nominal) (h : s.iom.Whole) (hD : s.iom.tree.kind D = some .dir)
include he h hD

theorem run_createfile_exists {mode : ℕ} (hx : ValidName x) (hb : s.iom.tree.Binds D x k) :
    ∃ s', lab4Createfile (s.iom.inode D) x mode e s = some ((-eexist,none),s') := by
  have hwp : wp False (lab4Createfile (s.iom.inode D) x mode) (fun r _ => r = (-eexist,none)) e s := by
    unfold lab4Createfile
    have hlen := hx.pos
    have hlt := hx.lt
    rw [if_neg (by omega), wp_bind]
    refine wp_lookup he h.sane (h.sane.ino_dir hD) hD hx.lt (fun s1 i l _ _ _ => ?_) (fun _ _ hn => absurd hb (hn k))
    rw [lookupResult_keep _ _ _ (by decide)]
    dsimp only
    rw [if_pos rfl, wp_pure]
  obtain ⟨r,s',hrun,rfl⟩ := wp_false.mp hwp
  exact ⟨s',hrun⟩

theorem run_mkdir_exists (hx : ValidName x) (hb : s.iom.tree.Binds D x k) :
    ∃ s', doMkdir (s.iom.inode D) x e s = some (-eexist,s') := by
  have hwp : wp False (doMkdir (s.iom.inode D) x) (fun r _ => r = -eexist) e s := by
    unfold doMkdir
    rw [wp_bind]
    refine wp_lookup he h.sane (h.sane.ino_dir hD) hD hx.lt (fun s1 i l _ _ _ => ?_) (fun _ _ hn => absurd hb (hn k))
    rw [lookupResult_keep _ _ _ (by decide)]
    dsimp only
    rw [if_pos rfl, wp_pure]
  obtain ⟨r,s',hrun,rfl⟩ := wp_false.mp hwp
  exact ⟨s',hrun⟩

theorem run_unlink_missing (hx : ValidName x) (hb : ∀ k, ¬s.iom.tree.Binds D x k) :
    ∃ s', doUnlink (s.iom.inode D) x e s = some (-enoent,s') := by
  have hwp : wp False (doUnlink (s.iom.inode D) x) (fun r _ => r = -enoent) e s := by
    unfold doUnlink
    rw [wp_bind]
    refine wp_lookup he h.sane (h.sane.ino_dir hD) hD hx.lt (fun s1 i l _ hs _ => absurd ⟨i,hs⟩ (hb l)) (fun s1 _ _ => ?_)
    dsimp only
    rw [if_neg (by decide), if_pos rfl, wp_pure]
  obtain ⟨r,s',hrun,rfl⟩ := wp_false.mp hwp
  exact ⟨s',hrun⟩

theorem run_rmdir_missing (hx : ValidName x) (hb : ∀ k, ¬s.iom.tree.Binds D x k) :
    ∃ s', doRmdir (s.iom.inode D) x e s = some (-enoent,s') := by
  have hwp : wp False (doRmdir (s.iom.inode D) x) (fun r _ => r = -enoent) e s := by
    unfold doRmdir
    rw [wp_bind, wp_getIom, wp_bind]
    refine wp_lookup he h.sane (h.sane.ino_dir hD) hD hx.lt (fun s1 i l _ hs _ => absurd ⟨i,hs⟩ (hb l)) (fun s1 _ _ => ?_)
    dsimp only
    rw [if_neg (by decide), if_pos rfl, wp_pure]
  obtain ⟨r,s',hrun,rfl⟩ := wp_false.mp hwp
  exact ⟨s',hrun⟩

end Unchanged

/-! ## Successful requests on the tree -/

/-- A successful creation binds a vacant number. -/
structure Iom.Added (m m' : Iom) (c : Kind) (k D : ℕ) (x : List UInt8) : Prop where
  free : ∀ l, ¬m.tree.Binds D x l
  new : m.ibit k = false
  tree : ∃ i, Vacant shape m.tree k D i ∧ m'.tree = add shape m.tree c k D i x

/-- A successful removal takes a leaf away. -/
def Iom.Removed (m m' : Iom) (k D : ℕ) (x : List UInt8) : Prop :=
  ∃ i, Leaf m.tree k D i x ∧ m'.tree = m.tree.remove k D i

namespace Iom.Whole
variable (h : m.Whole)
include h

theorem created_cases {r : ℤ × Option Inode} (hD : m.tree.kind D = some .dir) (hx : ValidName x) (hc : m.Created D x r m') :
    (r.1 ≠ lab4Success ∧ m' = m) ∨ ∃ v, r = (lab4Success,some v) ∧ m.Added m' .file v.iIno.toNat D x := by
  cases hc with
  | «exists» _ => exact .inl ⟨by decide,rfl⟩
  | refused _ => exact .inl ⟨by decide,rfl⟩
  | @done k i v found hn hk hbit hv hf =>
    obtain rfl := h.found_slot hD hf
    have hino : v.iIno.toNat = k := by
      rw [hv.ino]
      exact UInt32.toNat_ofNat_of_lt' (h.sane.index_lt hk)
    refine .inr ⟨v,rfl,hn,by rw [hino]; exact hbit,i,by rw [hino]; exact h.sane.vacant hD hbit hf,?_⟩
    rw [hino]
    exact (h.sane.tree_createFile hD hk hbit hv hf (used_binding (h.sane.index_lt hk) hx)).trans (if_pos rfl)

theorem madeDir_cases {r : ℤ} (hD : m.tree.kind D = some .dir) (hx : ValidName x) (hc : m.MadeDir D x r m') :
    (r ≠ lab4Success ∧ m' = m) ∨ r = lab4Success ∧ ∃ k, m.Added m' .dir k D x := by
  cases hc with
  | «exists» _ => exact .inl ⟨by decide,rfl⟩
  | @done k b i v found hn hk hbit hbm hb _ hv hf =>
    obtain rfl := h.found_slot hD hf
    refine .inr ⟨rfl,k,hn,hbit,i,h.sane.vacant hD hbit hf,?_⟩
    exact (h.sane.tree_makeDir hD hk hbit hb (h.block_le hbm) hv hf (used_binding (h.sane.index_lt hk) hx)).trans (if_pos rfl)

theorem unlinked_cases {r : ℤ} (hfiles : ∀ k, m.tree.Binds D x k → m.tree.kind k = some .file) (hc : m.Unlinked D x r m') :
    (r ≠ lab4Success ∧ m' = m) ∨ r = lab4Success ∧ ∃ k, m.Removed m' k D x := by
  cases hc with
  | missing _ => exact .inl ⟨by decide,rfl⟩
  | refused _ => exact .inl ⟨by decide,rfl⟩
  | entry he hl => exact absurd (h.neat.links _ (hfiles _ ⟨_,he.bound⟩)) hl
  | empty he _ _ => exact .inr ⟨rfl,_,_,h.sane.leaf_file he (hfiles _ ⟨_,he.bound⟩),h.sane.tree_unlinkEmpty he⟩
  | data he _ ho =>
    have hk := hfiles _ ⟨_,he.bound⟩
    exact .inr ⟨rfl,_,_,h.sane.leaf_file he hk,h.sane.tree_unlinkFile he hk ho⟩

theorem removedDir_cases {r : ℤ} (hc : m.RemovedDir D x r m') :
    (r ≠ lab4Success ∧ m' = m) ∨ r = lab4Success ∧ ∃ k, m.Removed m' k D x := by
  cases hc with
  | missing _ => exact .inl ⟨by decide,rfl⟩
  | refused _ hres =>
    refine .inl ⟨?_,rfl⟩
    rcases hres with rfl | rfl <;> decide
  | done he hk hempty ho => exact .inr ⟨rfl,_,_,h.sane.leaf_dir he hk hempty,h.sane.tree_removeDir he hk hempty ho D⟩

end Iom.Whole

/-! ## Lookups after a request -/

section After
variable {e' : Env} {s' : Sys} (he : e.Nominal) (he' : e'.Nominal) (h : s.iom.Whole) (h' : s'.iom.Whole)
include he he' h h'

/-- A creation changes one lookup. -/
theorem Iom.Added.lookups {c : Kind} (ha : s.iom.Added s'.iom c k D x) (hx : ValidName x) :
    lookupIn e' s' D x = some (lab4Success,k) ∧
      ∀ E y, s.iom.tree.kind E = some .dir → y.length < fnameSize → (E,y) ≠ (D,x) → lookupIn e' s' E y = lookupIn e s E y := by
  obtain ⟨i,hv,ht⟩ := ha.tree
  have hkind : ∀ E, s.iom.tree.kind E = some .dir → E ≠ k ∧ s'.iom.tree.kind E = some .dir := by
    intro E hE
    have hEk : E ≠ k := by
      rintro rfl
      cases hE.symm.trans hv.new
    refine ⟨hEk,?_⟩
    rw [ht, add, kind_setSlot, kind_newNode, Function.update_of_ne hEk]
    exact hE
  refine ⟨?_,fun E y hE hy hne => ?_⟩
  · rw [lookupIn_success he' h'.sane h'.unique (hkind D hv.dir).2 hx.lt, ht, hv.binds]
    exact .inl ⟨rfl,rfl,rfl⟩
  · refine lookupIn_congr he he' h.sane h'.sane h'.unique hE (hkind E hE).2 hy (fun l => ?_)
    rw [ht, hv.binds]
    constructor
    · rintro (⟨rfl,rfl,_⟩ | ⟨_,hb⟩ | ⟨rfl,_⟩)
      · exact absurd rfl hne
      · exact hb
      · exact absurd rfl (hkind E hE).1
    · exact fun hb => .inr (.inl ⟨(hkind E hE).1,hb⟩)

omit he h in
/-- A new directory binds the two dot names and nothing else. -/
theorem Iom.Added.dirLookups (ha : s.iom.Added s'.iom .dir k D x) :
    s'.iom.tree.kind k = some .dir ∧ lookupIn e' s' k dotName = some (lab4Success,k) ∧
      lookupIn e' s' k dotdotName = some (lab4Success,D) ∧
      ∀ y, y.length < fnameSize → y ≠ dotName → y ≠ dotdotName → lookupIn e' s' k y = some (-enoent,0) := by
  obtain ⟨i,hv,ht⟩ := ha.tree
  have hk : s'.iom.tree.kind k = some .dir := by
    rw [ht, add, kind_setSlot, kind_newNode, Function.update_self]
  refine ⟨hk,?_,?_,fun y hy hdot hdd => ?_⟩
  · rw [lookupIn_success he' h'.sane h'.unique hk (by decide), ht, hv.binds]
    exact .inr (.inr ⟨rfl,rfl,.inl ⟨rfl,rfl⟩⟩)
  · rw [lookupIn_success he' h'.sane h'.unique hk (by decide), ht, hv.binds]
    exact .inr (.inr ⟨rfl,rfl,.inr ⟨rfl,rfl⟩⟩)
  · rw [lookupIn_enoent he' h'.sane hk hy]
    intro l hl
    rw [ht, hv.binds] at hl
    rcases hl with ⟨rfl,_⟩ | ⟨hne,_⟩ | ⟨_,_,⟨rfl,_⟩ | ⟨rfl,_⟩⟩
    · exact hv.ne rfl
    · exact hne rfl
    · exact hdot rfl
    · exact hdd rfl

/-- A removal takes one lookup away. -/
theorem Iom.Removed.lookups (hr : s.iom.Removed s'.iom k D x) (hx : ValidName x) :
    lookupIn e' s' D x = some (-enoent,0) ∧
      ∀ E y, s'.iom.tree.kind E = some .dir → y.length < fnameSize → (E,y) ≠ (D,x) → lookupIn e' s' E y = lookupIn e s E y := by
  obtain ⟨i,hl,ht⟩ := hr
  have hkind : ∀ E, s'.iom.tree.kind E = some .dir ↔ E ≠ k ∧ s.iom.tree.kind E = some .dir := by
    intro E
    rw [ht, remove]
    by_cases hEk : E = k
    · subst hEk
      rw [kind_setNode_self]
      simp
    · rw [kind_setNode_of_ne hEk, kind_setSlot]
      simp [hEk]
  have hD : s.iom.tree.kind D = some .dir := (h.sane.sound.dir D i _ hl.bound).1
  refine ⟨?_,fun E y hE hy hne => ?_⟩
  · rw [lookupIn_enoent he' h'.sane ((hkind D).mpr ⟨hl.ne,hD⟩) hx.lt]
    intro l hb
    rw [ht, hl.binds h.unique] at hb
    exact hb.2.1 ⟨rfl,rfl⟩
  · obtain ⟨hEk,hE0⟩ := (hkind E).mp hE
    refine lookupIn_congr he he' h.sane h'.sane h'.unique hE0 hE hy (fun l => ?_)
    rw [ht, hl.binds h.unique]
    exact ⟨fun hb => hb.2.2,fun hb => ⟨hEk,fun hc => hne (Prod.ext hc.1 hc.2),hb⟩⟩

end After

/-! ## Names -/

theorem Iom.Added.namesFit {c : Kind} (ha : m.Added m' c k D x) (hx : ValidName x) (hf : m.NamesFit) : m'.NamesFit := by
  obtain ⟨i,hv,ht⟩ := ha.tree
  intro E y l hb
  rw [ht, hv.binds] at hb
  rcases hb with ⟨_,rfl,_⟩ | ⟨_,hb⟩ | ⟨_,_,⟨rfl,_⟩ | ⟨rfl,_⟩⟩
  · exact hx.lt
  · exact hf E y l hb
  · decide
  · decide

theorem Iom.Removed.namesFit (hr : m.Removed m' k D x) (hu : Unique m.tree) (hf : m.NamesFit) : m'.NamesFit := by
  obtain ⟨i,hl,ht⟩ := hr
  intro E y l hb
  rw [ht, hl.binds hu] at hb
  exact hf E y l hb.2.2

theorem Iom.Whole.ended_namesFit {q : Request} {r : ℤ} (h : m.Whole) (hf : m.NamesFit) (hq : q.Proper m)
    (he : m.Ended q r m') : m'.NamesFit := by
  cases he with
  | create hc =>
    rcases h.created_cases (h.liveDir.mp hq.1) hq.2 hc with ⟨_,rfl⟩ | ⟨_,_,ha⟩
    · exact hf
    · exact ha.namesFit hq.2 hf
  | mkdir hc =>
    rcases h.madeDir_cases (h.liveDir.mp hq.1) hq.2 hc with ⟨_,rfl⟩ | ⟨_,_,ha⟩
    · exact hf
    · exact ha.namesFit hq.2 hf
  | unlink hc =>
    rcases h.unlinked_cases (h.binds_file hq.2.2) hc with ⟨_,rfl⟩ | ⟨_,_,hr⟩
    · exact hf
    · exact hr.namesFit h.unique hf
  | rmdir hc =>
    rcases h.removedDir_cases hc with ⟨_,rfl⟩ | ⟨_,_,hr⟩
    · exact hf
    · exact hr.namesFit h.unique hf

/-- The names of a new file system are the two dot names. -/
theorem namesFit_of_formatAndMount {s0 : Sys} {ok : Bool} (he : e.Nominal) (hsec : s.iom.dev.blksszget = 512)
    (hrun : formatAndMount e s = some (ok,s0)) : s0.iom.NamesFit := by
  refine (wp_formatAndMount (u := True) (Q := fun _ s' => s'.iom.NamesFit) he (.inl hsec)
    (fun s1 root a b hroot h1 => ?_)).elim hrun
  rw [h1]
  rintro D x k ⟨i,hs⟩
  rw [fresh_tree (.inl hsec) hroot] at hs
  have hd := (rootTree_slot hs).2
  match i with
  | 0 =>
    cases hd
    decide
  | 1 =>
    cases hd
    decide

/-! ## The map -/

/-- What the directory operations do in a state, in terms of lookups before and after. -/
structure MapsNames (s : Sys) : Prop where
  create : ∀ {e e' : Env} {D : ℕ} {x : List UInt8} {mode : ℕ}, e.Nominal → e'.Nominal → s.iom.LiveDir D → ValidName x →
    ((∃ o s', lab4Createfile (s.iom.inode D) x mode e s = some ((-eexist,o),s')) ↔ ∃ k, lookupIn e' s D x = some (lab4Success,k)) ∧
      ∀ o s', lab4Createfile (s.iom.inode D) x mode e s = some ((lab4Success,o),s') →
        ∃ v, o = some v ∧ s.iom.ibit v.iIno.toNat = false ∧ lookupIn e' s' D x = some (lab4Success,v.iIno.toNat) ∧
          ∀ E y, s.iom.LiveDir E → y.length < fnameSize → (E,y) ≠ (D,x) → lookupIn e' s' E y = lookupIn e' s E y
  mkdir : ∀ {e e' : Env} {D : ℕ} {x : List UInt8}, e.Nominal → e'.Nominal → s.iom.LiveDir D → ValidName x →
    ((∃ s', doMkdir (s.iom.inode D) x e s = some (-eexist,s')) ↔ ∃ k, lookupIn e' s D x = some (lab4Success,k)) ∧
      ∀ s', doMkdir (s.iom.inode D) x e s = some (lab4Success,s') →
        ∃ k, s.iom.ibit k = false ∧ s'.iom.LiveDir k ∧ lookupIn e' s' D x = some (lab4Success,k) ∧
          (∀ E y, s.iom.LiveDir E → y.length < fnameSize → (E,y) ≠ (D,x) → lookupIn e' s' E y = lookupIn e' s E y) ∧
          lookupIn e' s' k dotName = some (lab4Success,k) ∧ lookupIn e' s' k dotdotName = some (lab4Success,D) ∧
          ∀ y, y.length < fnameSize → y ≠ dotName → y ≠ dotdotName → lookupIn e' s' k y = some (-enoent,0)
  unlink : ∀ {e e' : Env} {D : ℕ} {x : List UInt8}, e.Nominal → e'.Nominal → (Request.unlink D x).Proper s.iom →
    ((∃ s', doUnlink (s.iom.inode D) x e s = some (-enoent,s')) ↔ lookupIn e' s D x = some (-enoent,0)) ∧
      ∀ s', doUnlink (s.iom.inode D) x e s = some (lab4Success,s') → lookupIn e' s' D x = some (-enoent,0) ∧
        ∀ E y, s'.iom.LiveDir E → y.length < fnameSize → (E,y) ≠ (D,x) → lookupIn e' s' E y = lookupIn e' s E y
  rmdir : ∀ {e e' : Env} {D : ℕ} {x : List UInt8}, e.Nominal → e'.Nominal → (Request.rmdir D x).Proper s.iom →
    ((∃ s', doRmdir (s.iom.inode D) x e s = some (-enoent,s')) ↔ lookupIn e' s D x = some (-enoent,0)) ∧
      ∀ s', doRmdir (s.iom.inode D) x e s = some (lab4Success,s') → lookupIn e' s' D x = some (-enoent,0) ∧
        ∀ E y, s'.iom.LiveDir E → y.length < fnameSize → (E,y) ≠ (D,x) → lookupIn e' s' E y = lookupIn e' s E y
  readdir : ∀ {e e' : Env} {D : ℕ}, e.Nominal → e'.Nominal → s.iom.LiveDir D →
    ∃ filled s', doReaddir (s.iom.inode D) 0 e s = some ((lab4Success,filled),s') ∧ s'.iom = s.iom ∧
      (filled.map Filled.name).Nodup ∧
      ∀ x k, (∃ f ∈ filled, f.name = x ∧ f.stIno.toNat = k) ↔ x.length < fnameSize ∧ lookupIn e' s D x = some (lab4Success,k)

section Maps
variable {e' : Env} (he : e.Nominal) (he' : e'.Nominal) (h : s.iom.Whole)
include he he' h

theorem maps_create {mode : ℕ} (hD : s.iom.tree.kind D = some .dir) (hx : ValidName x) :
    ((∃ o s', lab4Createfile (s.iom.inode D) x mode e s = some ((-eexist,o),s')) ↔
        ∃ k, lookupIn e' s D x = some (lab4Success,k)) ∧
      ∀ o s', lab4Createfile (s.iom.inode D) x mode e s = some ((lab4Success,o),s') →
        ∃ v, o = some v ∧ s'.iom.Whole ∧ s.iom.Added s'.iom .file v.iIno.toNat D x := by
  have hrun : ∀ {r s'}, lab4Createfile (s.iom.inode D) x mode e s = some (r,s') → s.iom.Created D x r s'.iom :=
    fun {r s'} hr => (wp_created (Q := fun r s' => s.iom.Created D x r s'.iom) he h.sane hD hx
      (fun _ _ _ hc _ hs' => hs' ▸ hc)).elim hr
  simp only [lookupIn_success he' h.sane h.unique hD hx.lt]
  refine ⟨⟨fun ⟨o,s',hr⟩ => ?_,fun ⟨k,hb⟩ => ?_⟩,fun o s' hr => ?_⟩
  · have hc := hrun hr
    generalize hres : (-eexist,o) = r at hc
    generalize s'.iom = m' at hc
    cases hc with
    | «exists» hb => exact ⟨_,hb⟩
    | refused _ => exact absurd (congrArg Prod.fst hres) (by show -eexist ≠ lab4Error; decide)
    | done => exact absurd (congrArg Prod.fst hres) (by show -eexist ≠ lab4Success; decide)
  · exact ⟨none,run_createfile_exists he h hD hx hb⟩
  · have hc := hrun hr
    rcases h.created_cases hD hx hc with ⟨hne,_⟩ | ⟨v,hv,ha⟩
    · exact absurd rfl hne
    · cases hv
      exact ⟨v,rfl,h.created hD hx hc,ha⟩

theorem maps_mkdir (hD : s.iom.tree.kind D = some .dir) (hx : ValidName x) :
    ((∃ s', doMkdir (s.iom.inode D) x e s = some (-eexist,s')) ↔ ∃ k, lookupIn e' s D x = some (lab4Success,k)) ∧
      ∀ s', doMkdir (s.iom.inode D) x e s = some (lab4Success,s') →
        ∃ k, s'.iom.Whole ∧ s.iom.Added s'.iom .dir k D x := by
  have hrun : ∀ {r s'}, doMkdir (s.iom.inode D) x e s = some (r,s') → s.iom.MadeDir D x r s'.iom :=
    fun {r s'} hr => (wp_madeDir (Q := fun r s' => s.iom.MadeDir D x r s'.iom) he h.sane hD hx
      (fun _ _ _ hc _ hs' => hs' ▸ hc)).elim hr
  simp only [lookupIn_success he' h.sane h.unique hD hx.lt]
  refine ⟨⟨fun ⟨s',hr⟩ => ?_,fun ⟨k,hb⟩ => run_mkdir_exists he h hD hx hb⟩,fun s' hr => ?_⟩
  · have hc := hrun hr
    generalize hres : -eexist = r at hc
    generalize s'.iom = m' at hc
    cases hc with
    | «exists» hb => exact ⟨_,hb⟩
    | done => exact absurd hres (by decide)
  · have hc := hrun hr
    rcases h.madeDir_cases hD hx hc with ⟨hne,_⟩ | ⟨_,k,ha⟩
    · exact absurd rfl hne
    · exact ⟨k,h.madeDir hD hx hc,ha⟩

theorem maps_unlink (hD : s.iom.tree.kind D = some .dir) (hx : ValidName x)
    (hfiles : ∀ k, s.iom.tree.Binds D x k → s.iom.tree.kind k = some .file) :
    ((∃ s', doUnlink (s.iom.inode D) x e s = some (-enoent,s')) ↔ lookupIn e' s D x = some (-enoent,0)) ∧
      ∀ s', doUnlink (s.iom.inode D) x e s = some (lab4Success,s') → ∃ k, s'.iom.Whole ∧ s.iom.Removed s'.iom k D x := by
  have hdot := h.not_dot hD hfiles
  have hrun : ∀ {r s'}, doUnlink (s.iom.inode D) x e s = some (r,s') → s.iom.Unlinked D x r s'.iom :=
    fun {r s'} hr => (wp_unlinked (Q := fun r s' => s.iom.Unlinked D x r s'.iom) he h.sane hD hx hdot.1 hdot.2
      (fun _ => trivial) (fun _ _ _ hc _ hs' => hs' ▸ hc)).elim hr
  rw [lookupIn_enoent he' h.sane hD hx.lt]
  refine ⟨⟨fun ⟨s',hr⟩ => ?_,fun hb => run_unlink_missing he h hD hx hb⟩,fun s' hr => ?_⟩
  · have hc := hrun hr
    generalize hres : -enoent = r at hc
    generalize s'.iom = m' at hc
    cases hc with
    | missing hn => exact hn
    | _ => exact absurd hres (by decide)
  · have hc := hrun hr
    rcases h.unlinked_cases hfiles hc with ⟨hne,_⟩ | ⟨_,k,hk⟩
    · exact absurd rfl hne
    · exact ⟨k,h.unlinked hfiles hc,hk⟩

theorem maps_rmdir (hD : s.iom.tree.kind D = some .dir) (hx : ValidName x) (hdot : x ≠ dotName) (hdd : x ≠ dotdotName)
    (hdirs : ∀ k, s.iom.tree.Binds D x k → s.iom.tree.kind k = some .dir) :
    ((∃ s', doRmdir (s.iom.inode D) x e s = some (-enoent,s')) ↔ lookupIn e' s D x = some (-enoent,0)) ∧
      ∀ s', doRmdir (s.iom.inode D) x e s = some (lab4Success,s') → ∃ k, s'.iom.Whole ∧ s.iom.Removed s'.iom k D x := by
  have hrun : ∀ {r s'}, doRmdir (s.iom.inode D) x e s = some (r,s') → s.iom.RemovedDir D x r s'.iom :=
    fun {r s'} hr => (wp_removedDir (Q := fun r s' => s.iom.RemovedDir D x r s'.iom) he h.sane hD hx hdot hdd hdirs
      (fun _ => trivial) (fun _ _ _ hc _ hs' => hs' ▸ hc)).elim hr
  rw [lookupIn_enoent he' h.sane hD hx.lt]
  refine ⟨⟨fun ⟨s',hr⟩ => ?_,fun hb => run_rmdir_missing he h hD hx hb⟩,fun s' hr => ?_⟩
  · have hc := hrun hr
    generalize hres : -enoent = r at hc
    generalize s'.iom = m' at hc
    cases hc with
    | missing hn => exact hn
    | refused _ hr' =>
      subst hres
      rcases hr' with hr' | hr'
      · exact absurd hr' (by decide)
      · exact absurd hr' (by decide)
    | done => exact absurd hres (by decide)
  · have hc := hrun hr
    rcases h.removedDir_cases hc with ⟨hne,_⟩ | ⟨_,k,hk⟩
    · exact absurd rfl hne
    · exact ⟨k,h.removedDir hc,hk⟩

theorem maps_readdir (hf : s.iom.NamesFit) (hD : s.iom.tree.kind D = some .dir) :
    ∃ filled s', doReaddir (s.iom.inode D) 0 e s = some ((lab4Success,filled),s') ∧ s'.iom = s.iom ∧
      (filled.map Filled.name).Nodup ∧ ∀ x k, (∃ f ∈ filled, f.name = x ∧ f.stIno.toNat = k) ↔
        x.length < fnameSize ∧ lookupIn e' s D x = some (lab4Success,k) := by
  have hwp : wp False (doReaddir (s.iom.inode D) 0) (fun r s' => s'.iom = s.iom ∧ r.1 = lab4Success ∧
      r.2.map (fun f => (f.name,f.stIno.toNat)) = (List.range lab4DirEntryNum).filterMap (s.iom.tree.slot D)) e s :=
    wp_doReaddir he h hf hD (fun s' filled hs' hfill => ⟨hs',rfl,hfill⟩)
  obtain ⟨⟨res,filled⟩,s',hrun,hs',hres,hfill⟩ := wp_false.mp hwp
  obtain rfl : res = lab4Success := hres
  have hmem : ∀ x k, (∃ f ∈ filled, f.name = x ∧ f.stIno.toNat = k) ↔ s.iom.tree.Binds D x k := by
    intro x k
    have hmap : (∃ f ∈ filled, f.name = x ∧ f.stIno.toNat = k) ↔ (x,k) ∈ filled.map (fun f => (f.name,f.stIno.toNat)) := by
      simp [Prod.ext_iff]
    rw [hmap, hfill, List.mem_filterMap]
    constructor
    · rintro ⟨i,_,hi⟩
      exact ⟨i,hi⟩
    · rintro ⟨i,hi⟩
      exact ⟨i,List.mem_range.mpr (h.sane.sound.dir D i _ hi).2,hi⟩
  refine ⟨filled,s',hrun,hs',?_,fun x k => ?_⟩
  · -- two entries of one name would be one slot
    have hnames : filled.map Filled.name = ((List.range lab4DirEntryNum).filterMap (s.iom.tree.slot D)).map Prod.fst := by
      rw [← hfill, List.map_map]
      rfl
    rw [hnames, List.map_filterMap]
    refine List.Nodup.filterMap (fun i j y hi hj => ?_) List.nodup_range
    simp only [Option.mem_def, Option.map_eq_some_iff] at hi hj
    obtain ⟨⟨_,k⟩,hi,rfl⟩ := hi
    obtain ⟨⟨_,l⟩,hj,rfl⟩ := hj
    exact h.unique D i j _ k l hi hj
  · rw [hmem]
    refine ⟨fun hb => ⟨hf D x k hb,(lookupIn_success he' h.sane h.unique hD (hf D x k hb)).mpr hb⟩,fun ⟨hx,hl⟩ => ?_⟩
    exact (lookupIn_success he' h.sane h.unique hD hx).mp hl

end Maps

theorem Iom.Whole.mapsNames (h : s.iom.Whole) (hf : s.iom.NamesFit) : MapsNames s where
  create := fun {e e' D x mode} he he' hD hx => by
    have hD := h.liveDir.mp hD
    obtain ⟨hexist,hok⟩ := @maps_create e s D x e' he he' h mode hD hx
    refine ⟨hexist,fun o s' hr => ?_⟩
    obtain ⟨v,ho,h',ha⟩ := hok o s' hr
    obtain ⟨hl,hframe⟩ := ha.lookups he' he' h h' hx
    exact ⟨v,ho,ha.new,hl,fun E y hE hy hne => hframe E y (h.liveDir.mp hE) hy hne⟩
  mkdir := fun {e e' D x} he he' hD hx => by
    obtain ⟨hexist,hok⟩ := maps_mkdir he he' h (h.liveDir.mp hD) hx
    refine ⟨hexist,fun s' hr => ?_⟩
    obtain ⟨k,h',ha⟩ := hok s' hr
    obtain ⟨hl,hframe⟩ := ha.lookups he' he' h h' hx
    obtain ⟨hk,hdots⟩ := ha.dirLookups he' h'
    exact ⟨k,ha.new,h'.liveDir.mpr hk,hl,fun E y hE hy hne => hframe E y (h.liveDir.mp hE) hy hne,hdots⟩
  unlink := fun {e e' D x} he he' hq => by
    obtain ⟨hmiss,hok⟩ := maps_unlink he he' h (h.liveDir.mp hq.1) hq.2.1 (h.binds_file hq.2.2)
    refine ⟨hmiss,fun s' hr => ?_⟩
    obtain ⟨k,h',hrem⟩ := hok s' hr
    obtain ⟨hl,hframe⟩ := hrem.lookups he' he' h h' hq.2.1
    exact ⟨hl,fun E y hE hy hne => hframe E y (h'.liveDir.mp hE) hy hne⟩
  rmdir := fun {e e' D x} he he' hq => by
    obtain ⟨hmiss,hok⟩ := maps_rmdir he he' h (h.liveDir.mp hq.1) hq.2.1 hq.2.2.1 hq.2.2.2.1 (h.binds_dir hq.2.2.2.2)
    refine ⟨hmiss,fun s' hr => ?_⟩
    obtain ⟨k,h',hrem⟩ := hok s' hr
    obtain ⟨hl,hframe⟩ := hrem.lookups he' he' h h' hq.2.1
    exact ⟨hl,fun E y hE hy hne => hframe E y (h'.liveDir.mp hE) hy hne⟩
  readdir := fun he he' hD => maps_readdir he he' h hf (h.liveDir.mp hD)

/-- In every state of every run from format and mount the directory operations implement the map. -/
theorem directory_operations_map_names {s0 : Sys} {ok : Bool} (he : e.Nominal) (hsec : s.iom.dev.blksszget = 512)
    (hrun : formatAndMount e s = some (ok,s0)) (hn : 2 ≤ s0.iom.maxBlock ∧ s0.iom.maxBlock ≤ 8 * 4096) {t : Sys}
    (hr : Reached Request.run Orderly s0 t) : MapsNames t := by
  have h0 := (whole_of_formatAndMount he hsec hrun hn).2
  have hinv : t.iom.Whole ∧ t.iom.NamesFit := by
    refine hr.invariant (I := fun t => t.iom.Whole ∧ t.iom.NamesFit) ⟨h0,namesFit_of_formatAndMount he hsec hrun⟩
      (fun e' t1 q r t2 ht hP hq => ?_)
    exact (Request.wp_run (Q := fun _ t2 => t2.iom.Whole ∧ t2.iom.NamesFit) hP.1 ht.1.sane (ht.1.admissible hP.2)
      (fun r m' s' hc hs' => hs' ▸ ⟨ht.1.ended hP.2 hc,ht.1.ended_namesFit ht.2 hP.2 hc⟩)).elim hq
  exact hinv.1.mapsNames hinv.2

set_option maxRecDepth 100000 in
/-- On a blank device, after a file has been created. -/
theorem directory_operations_map_names_created : ∃ s0 t, formatAndMount quietEnv (blankDisk 80) = some (true,s0) ∧
    (Request.create 2 [97] 0).run quietEnv s0 = some (lab4Success,t) ∧ MapsNames t := by
  obtain ⟨s0,hrun,hn⟩ := blankDisk_mounts
  have h : ((formatAndMount >>= fun _ => (Request.create 2 [97] 0).run) quietEnv (blankDisk 80)).map Prod.fst =
      some lab4Success := by decide +kernel
  obtain ⟨⟨r,t⟩,hq,rfl⟩ := Option.map_eq_some_iff.mp h
  obtain ⟨ok,s1,hrun1,hq⟩ := exists_of_bind hq
  obtain ⟨rfl,rfl⟩ := Prod.ext_iff.mp (Option.some.inj (hrun.symm.trans hrun1))
  have hw := (whole_of_formatAndMount quietEnv_nominal rfl hrun (by omega)).2
  refine ⟨s0,t,hrun,hq,directory_operations_map_names quietEnv_nominal rfl hrun (by omega) (Reached.refl.call ?_ hq)⟩
  exact ⟨quietEnv_nominal,hw.consistent.root,⟨by decide,by decide,by decide⟩⟩

end SimpleFS
