import SimpleFS.PathWalk
import SimpleFS.Shown
import SimpleFS.Times

/-! # Calls on paths

What a volume shows after a call on a path is what the call says, and the answer too.
-/
namespace SimpleFS
open Bytes Machine Prog SlotTree

variable {u : Prop} {e : Env} {s s' : Sys} {m : Iom} {a : Files} {D k i : ℕ} {x y : List UInt8} {p q : List (List UInt8)}
  {c : FileCall} {r : Answer}

/-- The answer is one that the call may give, and what is shown afterwards is what the call then leaves. -/
def Files.Answered (a : Files) (c : FileCall) (r : Answer) (s : Sys) : Prop := ∃ b, Files.Step a c r b ∧ s.iom.Shows b

theorem pathTo_checked {α : Type} {f g : M α} {Q : α → Sys → Prop} :
    wp u (if doPathCheck (pathTo p) = lab4Error then f else g) Q e s ↔ wp u g Q e s := by
  rw [if_neg (fun hn => doPathCheck_eq_error.mp hn slash_mem_pathTo)]

namespace Iom.Shows

theorem followable (hs : m.Shows a) (hp : a.Plain p) : m.Followable p := by
  cases p with
  | nil => exact ⟨fun x hx => absurd hx List.not_mem_nil,fun x q hq => absurd (List.suffix_nil.mp hq) (List.cons_ne_nil x q)⟩
  | cons x p =>
    refine ⟨fun y hy => ?_,fun y q hq v hv => ?_⟩
    · rcases List.mem_cons.mp hy with rfl | hy
      · exact hp.1
      · exact hp.2.plain y hy
    · rw [hs.names] at hv
      refine hp.2.through q ?_ v hv
      rcases List.suffix_cons_iff.mp hq with heq | hq
      · rw [(List.cons.inj heq).2]
      · exact (List.suffix_cons y q).trans hq

/-- A name is missing exactly if the directory does not bind it. -/
theorem missing (hs : m.Shows a) (hD : Reach shape m.tree p D) (hk : m.tree.kind D = some .dir) (hx : PlainName x) :
    a.names (x :: p) = none ↔ ∀ k, ¬m.tree.Binds D x k := by
  rw [← hs.names]
  exact hs.regular.view_binds hD hk hx

theorem present (hs : m.Shows a) (hD : Reach shape m.tree p D) (hk : m.tree.kind D = some .dir) (hx : PlainName x)
    (hb : m.tree.Binds D x k) : a.names (x :: p) ≠ none := fun hn => (hs.missing hD hk hx).mp hn k hb

theorem names_dir (hs : m.Shows a) (hD : Reach shape m.tree p D) (hk : m.tree.kind D = some .dir) : a.names p = some .dir := by
  rw [← hs.names]
  exact hs.regular.view_dir.mpr ⟨D,hD,hk⟩

/-- What a path leads to. -/
theorem names_node (hs : m.Shows a) (hp : Reach shape m.tree p k) : a.names p = m.node k := by
  rw [← hs.names]
  exact hs.regular.view_of_reach hp

/-- No directory, so a file. -/
theorem file_of_reach (hs : m.Shows a) (hp : Reach shape m.tree p k) (hn : a.names p ≠ some .dir) :
    m.tree.kind k = some .file ∧ a.names p = some (.file (m.content k)) := by
  rw [hs.names_node hp] at hn ⊢
  match hk : m.tree.kind k with
  | none => exact absurd hk (hp.live hs.regular.sane.sound)
  | some .dir => exact absurd (node_dir hk) hn
  | some .file => exact ⟨rfl,node_file hk⟩

/-- No file, so a directory. -/
theorem dir_of_reach (hs : m.Shows a) (hp : Reach shape m.tree p k) (hn : ∀ data, a.names p ≠ some (.file data)) :
    m.tree.kind k = some .dir := by
  match hk : m.tree.kind k with
  | none => exact absurd hk (hp.live hs.regular.sane.sound)
  | some .dir => rfl
  | some .file => exact absurd ((hs.names_node hp).trans (node_file hk)) (hn _)

/-- What a removal gives back has room. -/
theorem releasable (hs : m.Shows a) (hroom : m.InodeRoom 1 ∧ m.BlockRoom 1) (hD : Reach shape m.tree p D)
    (hk : m.tree.kind D = some .dir) (hx : PlainName x) : ∀ l, m.tree.Binds D x l → m.Releasable (m.inode l) := fun _ hb =>
  hs.regular.releasable (Iom.live_of_kind ((hs.regular.reach_binds hD hk hx hb).live hs.regular.sane.sound)) hroom

theorem names_below (hs : m.Shows a) (hn : m.view p = none) : a.names (x :: p) = none := by
  rw [← hs.names]
  exact hs.regular.view_below (q := [x]) hn

end Iom.Shows

section Calls
variable (he : e.Nominal) (hs : s.iom.Shows a)
include he hs

theorem answered_mkdir (hp : a.Plain (x :: p))
    (hu : a.names p ≠ none → a.names (x :: p) = none → ¬(s.iom.InodeReady ∧ s.iom.BlockReady) → u) :
    wp u (lab4Mkdir (pathTo (x :: p))) (fun r s' => a.Answered (.mkdir p x) (.code r) s') e s := by
  unfold lab4Mkdir
  rw [pathTo_checked, wp_bind]
  refine wp_splitParent he hs.regular (hs.followable hp) hp.2.length (fun s1 f h1 _ hv => ?_) (fun s1 D f h1 hf hD hk => ?_)
  · dsimp only [mkdirIn]
    rw [if_neg (by decide), if_pos rfl, wp_pure]
    exact ⟨a,.mkdirNoParent (hs.names ▸ hv),h1 ▸ hs⟩
  · rw [← h1] at hs hD hk hu ⊢
    dsimp only [mkdirIn]
    rw [if_neg (by decide), if_neg (by decide), wp_bind]
    have hx := hp.1.valid
    have hparent : a.names p ≠ none := by
      rw [hs.names_dir hD hk]
      exact Option.some_ne_none _
    refine wp_cstr hf (fun hn => absurd hx.lt hn) (fun _ => ?_)
    rw [if_neg (by have := hx.pos; have := hx.lt; omega), wp_bind]
    refine wp_madeDir_any he hs.regular.sane hk hx (fun hno => hu hparent ((hs.missing hD hk hp.1).mpr hno))
      (fun r m' s2 hmade _ h2 => ?_)
    cases hmade with
    | «exists» h =>
      rw [if_neg (by decide), if_pos rfl, wp_pure]
      exact ⟨a,.mkdirExists (hs.present hD hk hp.1 h),h2 ▸ hs⟩
    | @done k b i v found h hkn hbit hbm hb _ hv hf =>
      rw [if_neg (by decide), if_neg (by decide), wp_pure]
      have hd : (DirEntry.used (UInt32.ofNat k) 0 x).binding = some (x,k) := used_binding (hs.regular.sane.index_lt hkn) hx
      have hnone := (hs.missing hD hk hp.1).mpr h
      refine ⟨_,.made (hs.names_dir hD hk) hnone,?_⟩
      rw [h2]
      exact hs.put (hs.regular.makeDir hk hkn hbit hf hd hbm hb hv hx h)
        (hs.regular.puts_makeDir hD hk hkn hbit hf hd h hbm hb hv) (hs.closed (fun data hn => by cases hnone.symm.trans hn))

theorem answered_unlink (hp : a.Plain (x :: p)) (hn : a.names (x :: p) ≠ some .dir) (hc : a.Closed (x :: p))
    (hu : ¬(s.iom.InodeRoom 1 ∧ s.iom.BlockRoom 1) → u) :
    wp u (lab4Unlink (pathTo (x :: p))) (fun r s' => a.Answered (.unlink p x) (.code r) s') e s := by
  unfold lab4Unlink
  rw [pathTo_checked, wp_bind]
  refine wp_splitParent he hs.regular (hs.followable hp) hp.2.length (fun s1 f h1 _ hv => ?_) (fun s1 D f h1 hf hD hk => ?_)
  · dsimp only [unlinkIn]
    rw [if_neg (by decide), if_pos rfl, wp_pure]
    exact ⟨a,.unlinkMissing (hs.names_below hv),h1 ▸ hs⟩
  · rw [← h1] at hs hD hk hu ⊢
    dsimp only [unlinkIn]
    rw [if_neg (by decide), if_neg (by decide), wp_bind]
    refine wp_cstr hf (fun hn => absurd hp.1.valid.lt hn) (fun _ => ?_)
    refine wp_unlinked he hs.regular.sane hk hp.1.valid hp.1.notDot hp.1.notDotdot
      (fun hn => hu (fun hroom => hn (hs.releasable hroom hD hk hp.1))) (fun r m' s2 hdone hr h2 => ?_)
    -- the name is that of a file, which has one link
    have hfile : ∀ {i k}, s1.iom.Entry D i x k → s1.iom.tree.kind k = some .file ∧
        a.names (x :: p) = some (.file (s1.iom.content k)) := fun hE => hs.file_of_reach (.step hD hE.lo hE.bound) hn
    cases hdone with
    | missing h => exact ⟨a,.unlinkMissing ((hs.missing hD hk hp.1).mpr h),h2 ▸ hs⟩
    | refused h => exact absurd (hr _ h) (by decide)
    | entry hE hl => exact absurd (hs.regular.neat.links _ (hfile hE).1) hl
    | empty hE _ hz =>
      refine ⟨_,.unlinked (hfile hE).2,?_⟩
      rw [h2]
      exact hs.put (hs.regular.unlinkEmpty hE (hfile hE).1 hz) (hs.regular.puts_unlinkEmpty hD hE (hfile hE).1) hc
    | data hE _ ho =>
      refine ⟨_,.unlinked (hfile hE).2,?_⟩
      rw [h2]
      exact hs.put (hs.regular.unlinkFile hE (hfile hE).1 ho) (hs.regular.puts_unlinkFile hD hE (hfile hE).1 ho) hc

omit he in
/-- With an entry behind the dot entries a directory has something in it. -/
theorem childless_iff (hE : s.iom.Entry D i x k) (hD : Reach shape s.iom.tree p D) :
    a.names.Childless (x :: p) ↔ ∀ j, 2 ≤ j → s.iom.tree.slot k j = none := by
  rw [← hs.names]
  exact names_childless hs.regular.sane.sound hs.regular.unique Iom.labelled (.step hD hE.lo hE.bound)

omit hs in
/-- With allocations and transfers succeeding `do_rmdir` has no error of its own. -/
theorem wp_doRmdir_ne_error (h : s.iom.Sane) (hD : s.iom.tree.kind D = some .dir) (hx : PlainName x)
    (hdirs : ∀ k, s.iom.tree.Binds D x k → s.iom.tree.kind k = some .dir)
    (hu : ¬(∀ k, s.iom.tree.Binds D x k → s.iom.Releasable (s.iom.inode k)) → u) :
    wp u (doRmdir (s.iom.inode D) x) (fun r _ => r ≠ lab4Error) e s := by
  obtain ⟨hino,hD2,_⟩ := dir_ino h hD
  have hent : ∀ i, s.iom.scan (lookupTest x) D = some (true,i) → s.iom.Entry D i x (s.iom.slotIno (s.iom.inode D) i) :=
    fun i hi => h.entry_of_scan hD hx.valid hx.notDot hx.notDotdot hi
  refine wp_doRmdir he.io h.mounted (h.parent hD)
    (fun hn => hu (fun hr => hn ⟨removable h hD hx.valid hx.notDot hx.notDotdot hr,he.malloc,fun i _ hscan => ?_⟩))
    (fun i _ hscan _ _ => ?_) (fun s' _ hn => ?_)
    (fun s' i _ hscan hlow => ?_) (fun _ _ _ _ _ _ => by decide) (fun _ _ _ _ _ _ => by decide)
    (fun _ _ _ _ _ _ _ _ _ _ _ _ _ _ _ _ _ _ => by decide)
  · rw [hino] at hscan
    exact h.mounted.usedScan_isSome h.ledger (hdirs _ ⟨i,(hent i hscan).bound⟩)
  · rw [hino] at hscan
    have hE := hent i hscan
    refine ⟨h.recordOk (h.entry_live hE).1,?_⟩
    rw [show (s.iom.inode (s.iom.slotIno (s.iom.inode D) i)).iSize = 4096 from h.ledger.dir_size (hdirs _ ⟨i,hE.bound⟩)]
    decide
  · have := hn he.malloc
    omega
  · rw [hino] at hscan
    have := (h.entry_live (hent i hscan)).2
    rcases hlow with hlow | hlow
    · omega
    · exact absurd he.malloc hlow

theorem answered_rmdir (hp : a.Plain (x :: p)) (hn : ∀ data, a.names (x :: p) ≠ some (.file data))
    (hu : ¬(s.iom.InodeRoom 1 ∧ s.iom.BlockRoom 1) → u) :
    wp u (lab4Rmdir (pathTo (x :: p))) (fun r s' => a.Answered (.rmdir p x) (.code r) s') e s := by
  unfold lab4Rmdir
  rw [pathTo_checked, wp_bind]
  refine wp_splitParent he hs.regular (hs.followable hp) hp.2.length (fun s1 f h1 _ hv => ?_) (fun s1 D f h1 hf hD hk => ?_)
  · dsimp only [rmdirIn]
    rw [if_neg (by decide), if_pos rfl, wp_pure]
    exact ⟨a,.rmdirMissing (hs.names_below hv),h1 ▸ hs⟩
  · rw [← h1] at hs hD hk hu ⊢
    dsimp only [rmdirIn]
    rw [if_neg (by decide), if_neg (by decide), wp_bind]
    have hx := hp.1
    refine wp_cstr hf (fun hn => absurd hx.valid.lt hn) (fun _ => ?_)
    rw [wp_bind]
    have hdirs : ∀ k, s1.iom.tree.Binds D x k → s1.iom.tree.kind k = some .dir :=
      fun k hb => hs.dir_of_reach (hs.regular.reach_binds hD hk hx hb) hn
    have hsane := hs.regular.sane
    have hrel : ¬(∀ l, s1.iom.tree.Binds D x l → s1.iom.Releasable (s1.iom.inode l)) → u :=
      fun hn => hu (fun hroom => hn (hs.releasable hroom hD hk hx))
    refine ((wp_removedDir he hsane hk hx.valid hx.notDot hx.notDotdot hdirs hrel
      (Q := fun r s' => ∃ m', s1.iom.RemovedDir D x r m' ∧ (∀ i k j, s1.iom.scan (lookupTest x) D = some (true,i) →
        s1.iom.Entry D i x k → s1.iom.usedScan k = some (false,j) → r = lab4Success) ∧ s'.iom = m')
      (fun r m' s' h hr h' => ⟨m',h,hr,h'⟩)).and (wp_doRmdir_ne_error he hsane hk hx hdirs hrel)).mono ?_
    rintro r s2 ⟨⟨m',hdone,hr,h2⟩,hne⟩
    rw [if_neg hne]
    cases hdone with
    | missing h =>
      rw [if_pos rfl, wp_pure]
      exact ⟨a,.rmdirMissing ((hs.missing hD hk hx).mpr h),h2 ▸ hs⟩
    | @refused k r hb hcase =>
      obtain rfl := hcase.resolve_left hne
      rw [if_neg (by decide), if_pos rfl, wp_pure]
      obtain ⟨⟨found,i⟩,hscan⟩ := Option.isSome_iff_exists.mp
        (hsane.mounted.scan_isSome hsane.ledger hk (lookupTest_isSome hx.valid.lt))
      cases found with
      | false => exact absurd hb (Iom.Mounted.scan_not_found hsane.ledger hk hx.valid.lt hscan k)
      | true =>
        have hE := hsane.entry_of_scan hk hx.valid hx.notDot hx.notDotdot hscan
        have hkind := hdirs _ ⟨i,hE.bound⟩
        refine ⟨a,.rmdirNotEmpty (hs.names_dir (.step hD hE.lo hE.bound) hkind) (fun hchild => ?_),h2 ▸ hs⟩
        obtain ⟨⟨used,j⟩,hused⟩ := Option.isSome_iff_exists.mp (hsane.mounted.usedScan_isSome hsane.ledger hkind)
        cases used with
        | false => exact absurd (hr i _ j hscan hE hused) (by decide)
        | true =>
          obtain ⟨hj,hslot⟩ := Iom.Mounted.usedScan_used hsane.ledger hkind hused
          exact hslot ((childless_iff hs hE hD).mp hchild j hj)
    | done hE hkind hempty ho =>
      rw [if_neg (by decide), if_neg (by decide), wp_pure]
      have hdir := hs.names_dir (.step hD hE.lo hE.bound) hkind
      refine ⟨_,.rmdirDone hdir ((childless_iff hs hE hD).mpr (hsane.leaf_dir hE hkind hempty).empty),?_⟩
      rw [h2]
      exact hs.put (hs.regular.removeDir hE hkind hempty ho) (hs.regular.puts_removeDir hD hE hkind hempty ho)
        (hs.closed (fun data hn => by cases hdir.symm.trans hn))

end Calls

end SimpleFS
