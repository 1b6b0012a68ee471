import SimpleFS.Renaming
import SimpleFS.Resuming
import SimpleFS.Commuting

/-! # Renames move one binding

Of a volume made by creations, removals and renames. A rename to a missing target writes the new name only in
place. Into another directory the entry goes under its old name.
-/
namespace SimpleFS
open Bytes Machine Prog SlotTree

variable {e e' : Env} {s s' t : Sys} {m : Iom} {D E k : ℕ} {x y : List UInt8} {fs ts : List (List UInt8)}

/-! ## What a rename is asked for -/

/-- `from` names inode `k` in directory `D`, the target is not there, its parent `E` is a directory with an unused
slot, and lies outside `from`. -/
structure RenameAsked (e : Env) (s : Sys) (fs : List (List UInt8)) (x : List UInt8) (ts : List (List UInt8))
    (y : List UInt8) (D k E : ℕ) : Prop where
  paths : RenamePaths fs x ts y
  parent : resolve e s fs = some (lab4Success,some D)
  source : resolve e s (fs ++ [x]) = some (lab4Success,some k)
  missing : ∀ l, resolve e s (ts ++ [y]) ≠ some (lab4Success,some l)
  target : resolve e s ts = some (lab4Success,some E)
  dir : (s.iom.inode E).iType = lab4TypeDirectory
  room : ∃ j < lab4DirEntryNum, (s.iom.slotEntry E j).dFlag ≠ lab4DirUsed
  outside : ¬fs ++ [x] <+: ts

/-- The entry is found under its new name and not under its old path, every other lookup answers as before, and
the names in every directory differ. -/
structure MovesBinding (e e' : Env) (s s' : Sys) (fs : List (List UInt8)) (x y : List UInt8) (D k E : ℕ) : Prop where
  found : lookupIn e' s' E y = some (lab4Success,k)
  gone : resolve e' s' (fs ++ [x]) = some (-enoent,none)
  others : ∀ A z, s.iom.tree.kind A = some .dir → z.length < fnameSize → ¬(A = D ∧ z = x) → ¬(A = E ∧ z = y) →
    lookupIn e' s' A z = lookupIn e s A z
  distinct : ∀ A, s'.iom.tree.kind A = some .dir → s'.iom.DistinctNames (s'.iom.inode A) lab4DirEntryNum

namespace RenamePaths
variable (hp : RenamePaths fs x ts y)
include hp

theorem lengths : (mkPath fs).length < 256 ∧ (mkPath (fs ++ [x])).length < 256 ∧ (mkPath ts).length < 256 ∧
    (mkPath (ts ++ [y])).length < 256 := by
  have hx := hp.name.valid.lt
  have hy := hp.name'.valid.lt
  have hF := hp.lenFrom
  have hT := hp.lenTo
  unfold fnameSize at *
  rw [mkPath_append, mkPath_append, List.length_append, List.length_cons, List.length_append, List.length_cons]
  omega

theorem plain : (∀ a ∈ fs, PlainName a) ∧ ∀ a ∈ ts, PlainName a :=
  ⟨fun a ha => hp.plainFrom a (by simp [ha]),fun a ha => hp.plainTo a (by simp [ha])⟩

end RenamePaths

/-- `do_rename` between plain paths ends as `renameOutcome` says. -/
theorem wp_renameOutcome {u : Prop} {Q : ℤ → Sys → Prop} (he : e.Nominal) (h : s.iom.Steady) (hp : RenamePaths fs x ts y)
    (hu : s.iom.renameOutcome (mkPath (fs ++ [x])) (mkPath (ts ++ [y])) = none → u)
    (hQ : ∀ r s', s.iom.renameOutcome (mkPath (fs ++ [x])) (mkPath (ts ++ [y])) = some (r,s'.iom) → Q r s') :
    wp u (doRename (mkPath (fs ++ [x])) (mkPath (ts ++ [y]))) Q e s := by
  refine wp_doRename he.io h.sane.mounted (h.tidy.addrOk h.sane.ledger) (fun hn => absurd he.malloc hn)
    (fun hn => absurd hp.pathOk.1 hn) (fun hn _ _ => absurd hp.pathOk.2 hn) hu (fun s' res h1 herr => ?_)
    (fun s' p i res _ hsource _ ho => ?_)
  · refine hQ res s' ?_
    rw [h1]
    exact renameOutcome_source herr
  · exact hQ res s' ((renameOutcome_source hsource).trans ho)

/-! ## Names -/

/-- In a tree that binds names once the names of a directory differ. -/
theorem distinctNames (h : m.Steady) (hu : Unique m.tree) (hD : m.tree.kind D = some .dir) :
    m.DistinctNames (m.inode D) lab4DirEntryNum := by
  have hslot : ∀ i < lab4DirEntryNum, (m.blockEntry (m.inode D) i).dFlag = lab4DirUsed → m.tree.slot D i =
      some (cstr (m.blockEntry (m.inode D) i).dFilename,(m.blockEntry (m.inode D) i).dIno.toNat) := by
    intro i hi hf
    rw [Iom.Mounted.tree_slot h.sane.ledger hD hi]
    exact binding_of_used hf
  intro i hi j hj hui huj heq
  have hsi := hslot i hi hui
  rw [heq] at hsi
  exact hu D i j _ _ _ hsi (hslot j hj huj)

namespace RenameAsked
variable (he : e.Nominal) (h : s.iom.Steady) (hu : Unique s.iom.tree) (hq : RenameAsked e s fs x ts y D k E)
include he h hu hq

theorem nodes : s.iom.RenameNodes fs x ts y D k E := by
  obtain ⟨hF,hX,hT,hY⟩ := hq.paths.lengths
  have hsource := reach_of_resolve he h hq.paths.plainFrom hX hq.source
  have htarget := reach_of_resolve he h hq.paths.plain.2 hT hq.target
  rw [List.reverse_append] at hsource
  refine ⟨reach_of_resolve he h hq.paths.plain.1 hF hq.parent,hsource,htarget,?_,fun l hl => ?_⟩
  · exact (Books.kind_eq_dir h.sane.ledger).mpr ⟨Iom.live_of_kind (htarget.live h.sane.sound),hq.dir⟩
  · refine hq.missing l (resolve_of_reach he h hq.paths.plainTo hY hu ?_)
    rw [List.reverse_append]
    exact hl

/-- The two parents are one directory exactly when the paths to them are the same. -/
theorem parent_eq_iff : D = E ↔ fs = ts := by
  have hn := nodes he h hu hq
  constructor
  · rintro rfl
    exact List.reverse_injective (hn.source.path_unique h.sane.sound hn.target)
  · rintro rfl
    exact hn.source.node_unique hu hn.target

/-- What the rename has done to the names. -/
structure Effect (m m' : Iom) (fs : List (List UInt8)) (x y : List UInt8) (D k E : ℕ) : Prop where
  steady : m'.Steady
  kind : m'.tree.kind = m.tree.kind
  binds : ∀ A z l, m'.tree.Binds A z l ↔
    (A = E ∧ z = (if D = E then y else x) ∧ l = k) ∨ (¬(A = D ∧ z = x) ∧ m.tree.Binds A z l)
  unique : D = E ∨ x = y → Unique m'.tree
  parent : Reach shape m'.tree fs.reverse D

theorem effect (he2 : e'.Nominal) : ∃ t, doRename (mkPath (fs ++ [x])) (mkPath (ts ++ [y])) e' s = some (lab4Success,t) ∧
    Effect s.iom t.iom fs x y D k E := by
  have hn := nodes he h hu hq
  obtain ⟨j,hj,hfree⟩ := hq.room
  obtain ⟨m',i,j,hm,hout,hs',htree⟩ := hn.moved h hu hq.paths
    ⟨j,hj,by rw [Iom.Mounted.tree_slot h.sane.ledger hn.dir hj, binding_of_not_used hfree]⟩
  have heffect : Effect s.iom m' fs x y D k E := by
    refine ⟨hs',by rw [htree]; rfl,fun A z l => by rw [htree]; exact hm.binds hu,fun hc => ?_,?_⟩
    · have hname : (if D = E then y else x) = y := by
        rcases hc with rfl | rfl
        · exact if_pos rfl
        · exact ite_self _
      rw [htree, hname]
      exact Movable.unique hu (fun j' l hb => absurd ⟨j',hb⟩ (hn.free h hq.paths.name' l))
    · rw [htree]
      exact hm.reach h.sane.sound hn.source
  have hwp : wp False (doRename (mkPath (fs ++ [x])) (mkPath (ts ++ [y])))
      (fun r t => r = lab4Success ∧ Effect s.iom t.iom fs x y D k E) e' s := by
    refine wp_renameOutcome he2 h hq.paths (fun hnone => ?_) (fun r t ho => ?_)
    · cases hnone.symm.trans hout
    · rw [hout] at ho
      simp only [Option.some.injEq, Prod.mk.injEq] at ho
      obtain ⟨rfl,ht⟩ := ho
      exact ⟨rfl,ht ▸ heffect⟩
  obtain ⟨r,t,hrun,rfl,ht⟩ := wp_false.mp hwp
  exact ⟨t,hrun,ht⟩

/-- With the new name in the entry the binding has moved. -/
theorem moves (he' : e'.Nominal) (ht : Effect s.iom t.iom fs x y D k E) (hc : D = E ∨ x = y) :
    MovesBinding e e' s t fs x y D k E := by
  have hn := nodes he h hu hq
  have hfree := hn.free h hq.paths.name'
  have hu' := ht.unique hc
  have hname : (if D = E then y else x) = y := by
    rcases hc with rfl | rfl
    · exact if_pos rfl
    · exact ite_self _
  have hkind : ∀ A, s.iom.tree.kind A = some .dir → t.iom.tree.kind A = some .dir := fun A hA => by rwa [ht.kind]
  refine ⟨?_,?_,fun A z hA hz hxz hyz => ?_,fun A hA => distinctNames ht.steady hu' hA⟩
  · refine (lookupIn_success he' ht.steady.sane hu' (hkind E hn.dir) hq.paths.name'.valid.lt).mpr ?_
    exact (ht.binds E y k).mpr (.inl ⟨rfl,hname.symm,rfl⟩)
  · rcases resolve_cases he' ht.steady hq.paths.plainFrom hq.paths.lengths.2.1 with ⟨l,_,hl⟩ | ⟨hl,_⟩
    · rw [List.reverse_append] at hl
      cases hl with
      | @step _ A _ i _ hA _ hs =>
        obtain rfl := hA.node_unique hu' ht.parent
        rcases (ht.binds A x l).mp ⟨i,hs⟩ with ⟨rfl,hxy,rfl⟩ | ⟨hne,_⟩
        · obtain ⟨i',_,hi'⟩ := hn.slot hu
          rw [if_pos rfl] at hxy
          subst hxy
          exact absurd ⟨i',hi'⟩ (hfree _)
        · exact absurd ⟨rfl,rfl⟩ hne
    · exact hl
  · refine lookupIn_congr he he' h.sane ht.steady.sane hu' hA (hkind A hA) hz (fun l => ?_)
    rw [ht.binds A z l, hname]
    constructor
    · rintro (⟨rfl,rfl,_⟩ | ⟨_,hb⟩)
      · exact absurd ⟨rfl,rfl⟩ hyz
      · exact hb
    · exact fun hb => .inr ⟨hxz,hb⟩

/-- Another directory gets the old name. -/
theorem not_found (he' : e'.Nominal) (ht : Effect s.iom t.iom fs x y D k E) (hDE : D ≠ E) (hxy : x ≠ y) :
    lookupIn e' t E y = some (-enoent,0) := by
  have hn := nodes he h hu hq
  have hE : t.iom.tree.kind E = some .dir := by
    rw [ht.kind]
    exact hn.dir
  refine (lookupIn_enoent he' ht.steady.sane hE hq.paths.name'.valid.lt).mpr (fun l hb => ?_)
  rcases (ht.binds E y l).mp hb with ⟨_,hy,_⟩ | ⟨_,hb⟩
  · rw [if_neg hDE] at hy
    exact hxy hy.symm
  · exact hn.free h hq.paths.name' l hb

/-- The rename succeeds, and it moves the binding exactly when it stays in one directory or keeps the last name. -/
theorem moves_iff (he2 : e'.Nominal) : ∃ t, doRename (mkPath (fs ++ [x])) (mkPath (ts ++ [y])) e' s = some (lab4Success,t) ∧
    (MovesBinding e e' s t fs x y D k E ↔ fs = ts ∨ x = y) := by
  obtain ⟨t,hrun,ht⟩ := effect he h hu hq he2
  refine ⟨t,hrun,fun hmoves => ?_,fun hc => moves he h hu hq he2 ht ?_⟩
  · by_contra hne
    push Not at hne
    have hfound := hmoves.found
    rw [not_found he h hu hq he2 ht (fun hDE => hne.1 ((parent_eq_iff he h hu hq).mp hDE)) hne.2] at hfound
    cases hfound
  · exact hc.imp_left (parent_eq_iff he h hu hq).mpr

end RenameAsked

/-! ## Runs -/

/-- A creation, a removal or a rename. -/
inductive NamingCall
  | request (q : Request)
  | rename (fs : List (List UInt8)) (x : List UInt8) (ts : List (List UInt8)) (y : List UInt8)

namespace NamingCall

def run : NamingCall → M ℤ
  | request q => q.run
  | rename fs x ts y => doRename (mkPath (fs ++ [x])) (mkPath (ts ++ [y]))

/-- Creations and removals are meant for what they find. A rename to a missing target stays in one directory or
keeps the last name. -/
def Counts (e : Env) (s : Sys) (q : NamingCall) (_ : ℤ) : Prop := e.Nominal ∧ match q with
  | request q => q.Admissible s.iom
  | rename fs x ts y => RenamePaths fs x ts y ∧ (fs = ts ∨ x = y ∨ ∃ l, resolve e s (ts ++ [y]) = some (lab4Success,some l))

theorem steady_step {q : NamingCall} {r : ℤ} (h : s.iom.Steady) (hu : Unique s.iom.tree) (hq : Counts e s q r)
    (hrun : q.run e s = some (r,s')) : s'.iom.Steady ∧ Unique s'.iom.tree := by
  cases q with
  | request q =>
    refine (Request.wp_run (Q := fun _ s' => s'.iom.Steady ∧ Unique s'.iom.tree) hq.1 h.sane hq.2
      (fun r m' s' hend hs' => ?_)).elim hrun
    rw [hs']
    exact ⟨h.ended hq.2 hend,h.ended_unique hu hq.2 hend⟩
  | rename fs x ts y =>
    obtain ⟨he,hp,hc⟩ := hq
    have hc' : fs = ts ∨ x = y ∨ ∃ l, Reach shape s.iom.tree (y :: ts.reverse) l := by
      refine hc.imp_right (Or.imp_right (fun ⟨l,hl⟩ => ⟨l,?_⟩))
      have hr := reach_of_resolve he h hp.plainTo hp.lengths.2.2.2 hl
      rwa [List.reverse_append] at hr
    refine (wp_renameOutcome (u := True) (Q := fun _ s' => s'.iom.Steady ∧ Unique s'.iom.tree) he h hp (fun _ => trivial)
      (fun r s' ho => ?_)).elim hrun
    have hr := h.sane.renamed h.empty hp ho
    exact ⟨h.renamed hp hr,h.renamed_unique hu hp hc' hr⟩

end NamingCall

theorem fresh_named {s0 : Sys} {ok : Bool} (he : e.Nominal) (hsec : IsSector s.iom.dev.blksszget)
    (hrun : formatAndMount e s = some (ok,s0)) : s0.iom.Steady ∧ Unique s0.iom.tree := by
  refine (wp_formatAndMount (u := True) (Q := fun _ s0 => s0.iom.Steady ∧ Unique s0.iom.tree) he hsec
    (fun s1 root a c hroot h1 => ?_)).elim hrun
  rw [h1]
  refine ⟨fresh_steady hsec hroot,?_⟩
  rw [fresh_tree hsec hroot]
  exact rootTree_unique dot_ne_dotdot

theorem named_of_reached {s0 : Sys} {ok : Bool} (he : e.Nominal) (hsec : IsSector s.iom.dev.blksszget)
    (hrun : formatAndMount e s = some (ok,s0)) (hr : Reached NamingCall.run NamingCall.Counts s0 t) :
    t.iom.Steady ∧ Unique t.iom.tree :=
  hr.invariant (I := fun t => t.iom.Steady ∧ Unique t.iom.tree) (fresh_named he hsec hrun)
    (fun _ _ _ _ _ hI hq hstep => NamingCall.steady_step hI.1 hI.2 hq hstep)

/-- After every run of creations, removals and renames, none of which gives an entry a new name in another directory,
a rename that is asked for succeeds. It moves the one binding exactly when its parents are the same or its last names
are. -/
theorem rename_moves_binding_iff {s0 : Sys} {ok : Bool} {e1 e2 : Env} (he : e.Nominal) (hsec : IsSector s.iom.dev.blksszget)
    (hrun : formatAndMount e s = some (ok,s0)) (hr : Reached NamingCall.run NamingCall.Counts s0 t) (he1 : e1.Nominal)
    (he2 : e2.Nominal) (hq : RenameAsked e1 t fs x ts y D k E) :
    ∃ t', doRename (mkPath (fs ++ [x])) (mkPath (ts ++ [y])) e2 t = some (lab4Success,t') ∧
      (MovesBinding e1 e2 t t' fs x y D k E ↔ fs = ts ∨ x = y) :=
  have ht := named_of_reached he hsec hrun hr
  hq.moves_iff he1 ht.1 ht.2 he2

/-! ## A directory and a file -/

/-- The paths that `makeTwo` leaves. -/
def TwoPaths (s : Sys) : Prop := resolve quietEnv s [] = some (lab4Success,some 2) ∧
  resolve quietEnv s [[102]] = some (lab4Success,some 4) ∧ resolve quietEnv s [[100]] = some (lab4Success,some 3) ∧
  resolve quietEnv s [[100],[102]] = some (-enoent,none) ∧ resolve quietEnv s [[100],[103]] = some (-enoent,none) ∧
  (s.iom.slotEntry 3 2).dFlag ≠ lab4DirUsed

instance (s : Sys) : Decidable (TwoPaths s) := inferInstanceAs (Decidable (_ ∧ _))

theorem renamePaths_blank {z : UInt8} (hz : PlainName [z]) : RenamePaths [] [102] [[100]] [z] := by
  refine ⟨fun a ha => ?_,fun a ha => ?_,by decide,by decide⟩
  · obtain rfl := List.mem_singleton.mp ha
    exact ⟨⟨by decide,by decide,by decide⟩,by decide,by decide,by decide⟩
  · rcases List.mem_cons.mp ha with rfl | ha
    · exact ⟨⟨by decide,by decide,by decide⟩,by decide,by decide,by decide⟩
    · rwa [List.mem_singleton.mp ha]

set_option maxRecDepth 100000 in
/-- "/f" can be asked to become "/d/f", and "/d/g". -/
theorem makeTwo_named : ∃ s0 s, formatAndMount quietEnv (blankDisk 80) = some (true,s0) ∧
    Reached NamingCall.run NamingCall.Counts s0 s ∧
    RenameAsked quietEnv s [] [102] [[100]] [102] 2 4 3 ∧ RenameAsked quietEnv s [] [102] [[100]] [103] 2 4 3 := by
  have h : ((formatAndMount >>= fun _ => makeTwo) quietEnv (blankDisk 80)).map
      (fun p => (p.1,decide (TwoPaths p.2),(p.2.iom.inode 3).iType)) =
        some ((lab4Success,lab4Success),true,lab4TypeDirectory) := by decide +kernel
  obtain ⟨s0,hrun,_⟩ := blankDisk_whole
  rw [bind_apply, hrun] at h
  obtain ⟨⟨p,s⟩,hp,heq⟩ := Option.map_eq_some_iff.mp h
  simp only [Prod.mk.injEq, decide_eq_true_eq] at heq
  obtain ⟨rfl,⟨hroot,hf,hd,hdf,hdg,hslot⟩,htype⟩ := heq
  have hmake : makeTwo quietEnv s0 = some ((lab4Success,lab4Success),s) := hp
  obtain ⟨r1,s1,hmk,hrest⟩ := exists_of_bind hmake
  obtain ⟨r2,s2,hcr,hret⟩ := exists_of_bind hrest
  cases hret
  have hn := fresh_named quietEnv_nominal (.inl rfl) hrun
  have hc1 : NamingCall.Counts quietEnv s0 (.request (.mkdir 2 [100])) lab4Success :=
    ⟨quietEnv_nominal,hn.1.sane.sound.root,by decide,by decide,by decide⟩
  have hn1 := NamingCall.steady_step hn.1 hn.2 hc1 hmk
  have hc2 : NamingCall.Counts quietEnv s1 (.request (.create 2 [102] 0)) lab4Success :=
    ⟨quietEnv_nominal,hn1.1.sane.sound.root,by decide,by decide,by decide⟩
  have hasked : ∀ z, PlainName [z] → resolve quietEnv s [[100],[z]] = some (-enoent,none) →
      RenameAsked quietEnv s [] [102] [[100]] [z] 2 4 3 := fun z hz hmissing => by
    refine ⟨renamePaths_blank hz,hroot,hf,fun l hl => ?_,hd,htype,⟨2,by decide,hslot⟩,by decide⟩
    cases hl.symm.trans hmissing
  refine ⟨s0,s,hrun,?_,hasked 102 ?_ hdf,hasked 103 ?_ hdg⟩
  · exact (Reached.refl.call hc1 hmk).call hc2 hcr
  · exact ⟨⟨by decide,by decide,by decide⟩,by decide,by decide,by decide⟩
  · exact ⟨⟨by decide,by decide,by decide⟩,by decide,by decide,by decide⟩

/-- "/f" becomes "/d/f" as it should, and "/d/g" it does not become. -/
theorem rename_moves_blank : ∃ s0 s t u, formatAndMount quietEnv (blankDisk 80) = some (true,s0) ∧
    Reached NamingCall.run NamingCall.Counts s0 s ∧
    doRename [47,102] [47,100,47,102] quietEnv s = some (lab4Success,t) ∧ MovesBinding quietEnv quietEnv s t [] [102] [102] 2 4 3 ∧
    doRename [47,102] [47,100,47,103] quietEnv s = some (lab4Success,u) ∧
    ¬MovesBinding quietEnv quietEnv s u [] [102] [103] 2 4 3 := by
  obtain ⟨s0,s,hrun,hr,hf,hg⟩ := makeTwo_named
  obtain ⟨t,ht,hiff⟩ := rename_moves_binding_iff quietEnv_nominal (.inl rfl) hrun hr quietEnv_nominal quietEnv_nominal hf
  obtain ⟨u,hu,hiff'⟩ := rename_moves_binding_iff quietEnv_nominal (.inl rfl) hrun hr quietEnv_nominal quietEnv_nominal hg
  exact ⟨s0,s,t,u,hrun,hr,ht,hiff.mpr (.inr rfl),hu,fun h => absurd (hiff'.mp h) (by decide)⟩

/-- The rename of "/f" to "/d/g" succeeds, and there is no "/d/g" after it. -/
theorem rename_loses_name : ∃ s0 s t, formatAndMount quietEnv (blankDisk 80) = some (true,s0) ∧
    Reached NamingCall.run NamingCall.Counts s0 s ∧ RenameAsked quietEnv s [] [102] [[100]] [103] 2 4 3 ∧
    doRename [47,102] [47,100,47,103] quietEnv s = some (lab4Success,t) ∧ lookupIn quietEnv t 3 [103] = some (-enoent,0) ∧
    ¬MovesBinding quietEnv quietEnv s t [] [102] [103] 2 4 3 := by
  obtain ⟨s0,s,hrun,hr,_,hg⟩ := makeTwo_named
  have hn := named_of_reached quietEnv_nominal (.inl rfl) hrun hr
  obtain ⟨t,ht,heffect⟩ := hg.effect quietEnv_nominal hn.1 hn.2 quietEnv_nominal
  have hnot := hg.not_found quietEnv_nominal hn.1 hn.2 quietEnv_nominal heffect (by decide) (by decide)
  refine ⟨s0,s,t,hrun,hr,hg,ht,hnot,fun h => ?_⟩
  cases h.found.symm.trans hnot

end SimpleFS
