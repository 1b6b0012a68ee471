import SimpleFS.RenameCalls
import SimpleFS.PathReads
import SimpleFS.HandleCalls
import SimpleFS.Remounting

/-! # The file system over whole runs

A client makes its calls one after the other on a formatted and mounted device and sees what the specification says,
whatever it calls in which order, with mounts in between.
-/
namespace SimpleFS
open Bytes Machine Prog SlotTree

/-! ## The calls as programs -/

/-- No attributes yet. -/
def Stat.zero : Stat := ⟨0,0,0,0,0,0,0,0,(0,0)⟩

/-- The program behind a call. A client reads from the start of a file and hands out cleared buffers. -/
def FileCall.run : FileCall → M Answer
  | .mkdir p x => do return .code (← lab4Mkdir (pathTo (x :: p)))
  | .unlink p x => do return .code (← lab4Unlink (pathTo (x :: p)))
  | .rmdir p x => do return .code (← lab4Rmdir (pathTo (x :: p)))
  | .rename p x q y => do return .code (← lab4Rename (pathTo (x :: p)) (pathTo (y :: q)))
  | .openFile p x flags mode => do
    -- `lab4_open` is the case of mode 0
    let (r,fh) ← lab4Create (pathTo (x :: p)) flags mode 0
    return .code (if r = lab4Success then fh else r)
  | .release fid => do return .code (← lab4Release fid)
  | .write path fid data offset => do return .code (← lab4Write path (Mem.ofList data) data.length offset fid)
  | .read path fid size => do
    let (r,buf) ← lab4Read path zeros size 0 fid
    return .data r (buf.take r.toNat)
  | .getattr p => do
    let (r,stbuf) ← lab4Getattr (pathTo p) Stat.zero
    return .attr r stbuf.stSize
  | .readdir p => do
    let (r,filled) ← lab4Readdir (pathTo p) 0
    return .entries r (filled.map Filled.shown)
  | .utimens p atime mtime => do return .code (← lab4Utimens (pathTo p) atime mtime)
  | .remount => do return .code (if ← mount then lab4Success else lab4Error)

/-- Device calls and allocations succeed, and an error number is not negative. -/
structure Env.Quiet (e : Env) : Prop where
  nominal : e.Nominal
  errno : ∀ t, 0 ≤ e.errno t

/-- What a call needs to come to an end: an inode and a block for what is new, counters with room for what is given back,
the directory a rename goes to, a round for each transfer, and a text that ends before the block does. -/
def FileCall.Returns (e : Env) (m : Iom) (a : Files) : FileCall → Prop
  | .mkdir p x => a.names p ≠ none → a.names (x :: p) = none → m.InodeReady ∧ m.BlockReady
  | .unlink _ _ | .rmdir _ _ => m.InodeRoom 1 ∧ m.BlockRoom 1
  | .rename _ _ q _ => a.names q ≠ none
  | .openFile p x flags _ => flags &&& oRdwr ≠ 0 ∨ flags &&& oCreat ≠ 0 → a.names (x :: p) = none →
      m.InodeReady ∧ m.InodeRoom (-2)
  | .write _ fid _ _ => 0 < e.fuel ∧ ∀ h, a.handle fid = some h → a.names h.path = some (.file []) → m.BlockReady
  | .read _ fid size => 1 < e.fuel ∧ ∀ h data, a.handle fid = some h → a.names h.path = some (.file data) →
      ((data.take size).takeWhile (· ≠ 0)).length < 4096
  | .release _ | .getattr _ | .readdir _ | .utimens _ _ _ | .remount => True

variable {u : Prop} {e : Env} {s s0 t : Sys} {a b : Files} {c : FileCall} {r : Answer} {ok : Bool} {l : List (FileCall × Answer)}

theorem answered_call (he : e.Quiet) (hs : s.iom.Shows a) (hc : a.Allowed c) (hu : ¬c.Returns e s.iom a → u) :
    wp u c.run (fun r s' => a.Answered c r s') e s := by
  have hn := he.nominal
  cases c with
  | mkdir p x =>
    refine (wp_bind _).mpr ((answered_mkdir hn hs hc (fun hp hx hno => hu (fun h => hno (h hp hx)))).mono (fun r s' h => ?_))
    rwa [wp_pure]
  | unlink p x =>
    refine (wp_bind _).mpr ((answered_unlink hn hs hc.1 hc.2.1 hc.2.2 hu).mono (fun r s' h => ?_))
    rwa [wp_pure]
  | rmdir p x =>
    refine (wp_bind _).mpr ((answered_rmdir hn hs hc.1 hc.2 hu).mono (fun r s' h => ?_))
    rwa [wp_pure]
  | rename p x q y =>
    refine (wp_bind _).mpr ((answered_rename hn hs hc (fun hq => hu (fun h => h hq))).mono (fun r s' h => ?_))
    rwa [wp_pure]
  | openFile p x flags mode =>
    refine (wp_bind _).mpr ((answered_openFile hn hs he.errno hc.1 hc.2
      (fun hf hx hno => hu (fun h => hno (h hf hx)))).mono (fun r s' h => ?_))
    rwa [wp_pure]
  | release fid =>
    refine (wp_bind _).mpr ((answered_release hs hc).mono (fun r s' h => ?_))
    rwa [wp_pure]
  | write path fid data offset =>
    refine (wp_bind _).mpr ((answered_write hn hs hc.1 hc.2 hu).mono (fun r s' h => ?_))
    rwa [wp_pure]
  | read path fid size =>
    obtain ⟨hpath,hpos,h,data,hh,hd,hsize⟩ := hc
    refine (wp_bind _).mpr ((answered_read hn hs hpath (Nat.ne_of_gt hpos) hh hd hsize
      (fun hno => hu (fun h => hno ⟨h.1,h.2 _ _ hh hd⟩))).mono (fun r s' h => ?_))
    rwa [wp_pure]
  | getattr p =>
    refine (wp_bind _).mpr ((answered_getattr hn hs hc rfl).mono (fun r s' h => ?_))
    rwa [wp_pure]
  | readdir p =>
    refine (wp_bind _).mpr ((answered_readdir hn hs hc.1 hc.2).mono (fun r s' h => ?_))
    rwa [wp_pure]
  | utimens p atime mtime =>
    refine (wp_bind _).mpr ((answered_utimens hn hs hc).mono (fun r s' h => ?_))
    rwa [wp_pure]
  | remount =>
    refine (wp_bind _).mpr ((answered_remount hn hs).mono ?_)
    rintro ok s' ⟨rfl,hshow⟩
    rw [wp_pure]
    exact ⟨_,.remounted,hshow⟩

/-! ## A new volume -/

theorem fresh_regular {d : Device} {root : Inode} {heap : ℕ → Mem} {x y : ℤ} (hsec : d.blksszget = 512)
    (hroot : DirRecord lab4RootIno (4 * (openDevice d).clusterSize) root)
    (hlo : 2 ≤ (freshIom d root heap x y).maxBlock) (hhi : (freshIom d root heap x y).maxBlock ≤ 8 * 4096) :
    (freshIom d root heap x y).Regular := by
  have hs : IsSector d.blksszget := .inl hsec
  have hw := fresh_whole hsec hroot hlo hhi
  have hlive : ∀ k, (freshIom d root heap x y).books.Live k ↔ k = 2 := fun k => fresh_live hs
  have hmax : ∀ x' y', (freshIom d root heap x' y').maxBlock = (freshIom d root heap x y).maxBlock :=
    fun _ _ => fresh_maxBlock hs x y
  have hcs : (openDevice d).clusterSize = 4096 := by rw [(openDevice_cluster hs).1, hsec]
  refine ⟨hw.sane,hw.cluster,hhi,hw.unique,?_,?_,hw.neat,fun b hb hbit => ?_,fun k hk => ?_,?_,mirrored_mountIom⟩
  · rw [fresh_tree hs hroot]
    exact rootTree_grounded
  · have hdots := slotted_dots (m := freshIom d root heap x y) (k := 2) le_rfl ((hlive 2).mpr rfl).2.1
    rw [fresh_tree hs hroot]
    exact rootTree_every hdots.1 hdots.2
  · -- only the block of the root is in use
    have hzero := (fresh_dbit (k := b) (by omega)).symm.trans hbit
    obtain rfl := of_decide_eq_true hzero
    exact ⟨2,fresh_owns hs hroot⟩
  · obtain rfl := (hlive k).mp hk
    have hinode : (freshIom d root heap x y).books.inode 2 = root := fresh_inode_root hs
    rw [hinode]
    exact hroot.bounded
  · exact ((formatted_hinted hs hroot hmax hlo).mount hs.cluster rfl).mem

theorem fresh_shows {d : Device} {root : Inode} {heap : ℕ → Mem} {x y : ℤ} (hsec : d.blksszget = 512)
    (hroot : DirRecord lab4RootIno (4 * (openDevice d).clusterSize) root)
    (hlo : 2 ≤ (freshIom d root heap x y).maxBlock) (hhi : (freshIom d root heap x y).maxBlock ≤ 8 * 4096) :
    (freshIom d root heap x y).Shows .empty := by
  have hr := fresh_regular hsec hroot hlo hhi
  refine ⟨hr,?_,fun fid _ _ _ => rfl,fun fid h hh => by cases hh⟩
  rw [Iom.view, fresh_tree (.inl hsec) hroot]
  exact names_rootTree (Iom.node_dir hr.sane.sound.root)

theorem shows_of_formatAndMount (he : e.Nominal) (hsec : s.iom.dev.blksszget = 512)
    (hrun : formatAndMount e s = some (ok,s0)) (hn : 2 ≤ s0.iom.maxBlock ∧ s0.iom.maxBlock ≤ 8 * 4096) :
    ok = true ∧ s0.iom.Shows .empty := by
  refine (wp_formatAndMount (u := True) (Q := fun ok s' => 2 ≤ s'.iom.maxBlock ∧ s'.iom.maxBlock ≤ 8 * 4096 →
    ok = true ∧ s'.iom.Shows .empty) he (.inl hsec) (fun s1 root x y hroot h1 hn1 => ⟨rfl,?_⟩)).elim hrun hn
  rw [h1] at hn1 ⊢
  exact fresh_shows hsec hroot hn1.1 hn1.2

/-! ## Runs -/

/-- The calls a client has made and what each was answered. -/
abbrev Served (s : Sys) (l : List (FileCall × Answer)) (t : Sys) : Prop := Traced FileCall.run Env.Quiet s l t

theorem shows_step {e : Env} {s t : Sys} {a : Files} {c : FileCall} {r : Answer} (he : e.Quiet) (hs : s.iom.Shows a)
    (hc : Files.spec.allowed a c) (hrun : c.run e s = some (r,t)) : ∃ b, Files.spec.step a c r b ∧ t.iom.Shows b :=
  (answered_call he hs hc (fun _ => trivial)).elim hrun

theorem Served.shows (h : Served s l t) (hs : s.iom.Shows a) (hl : Files.spec.Permits a l) :
    ∃ b, Files.spec.Run a l b ∧ t.iom.Shows b :=
  Traced.simulates (Q := fun (s : Sys) a => s.iom.Shows a) shows_step h hs hl

end SimpleFS
