import SimpleFS.PathCalls
import SimpleFS.Opening
import SimpleFS.Reading

/-! # Calls on open files

An open hands out the first handle that is not in use, and a handle leads to its file until it is released. Reads
and writes see and change the bytes of that file.
-/
namespace SimpleFS
open Bytes Machine Prog SlotTree

variable {u : Prop} {e : Env} {s s' : Sys} {m : Iom} {a : Files} {D k i n fid : ℕ} {x y path : List UInt8}
  {p q : List (List UInt8)} {buf blk : Mem} {h : Handle} {data : List UInt8}

/-! ## Text -/

/-- The text at the start of a buffer, as a list. -/
theorem take_textLen : blk.take (textLen blk n) = (blk.take n).takeWhile (· ≠ 0) := by
  have hle : textLen blk n ≤ n := textLen_le
  have htext : ∀ c ∈ blk.take (textLen blk n), decide (c ≠ 0) = true := by
    intro c hc
    obtain ⟨i,hi,rfl⟩ := List.mem_map.mp hc
    exact decide_eq_true (textLen_text (List.mem_range.mp hi))
  obtain ⟨r,hr⟩ : ∃ r, n = textLen blk n + r := ⟨n - textLen blk n,by omega⟩
  have hrest : ((blk.shift (textLen blk n)).take r).takeWhile (· ≠ 0) = [] := by
    cases r with
    | zero => rfl
    | succ r =>
      have h0 : blk (textLen blk n) = 0 := (@textLen_end n blk).resolve_left (by omega)
      rw [Mem.take_succ, Mem.shift_apply, Nat.add_zero, h0]
      rfl
  conv_rhs => rw [hr, Mem.take_add, List.takeWhile_append_of_pos htext, hrest, List.append_nil]

/-- What a string copy puts into the block. -/
theorem take_strncpyBuf : (strncpyBuf (Mem.ofList data) data.length).take data.length = textOf data := by
  have hle : textLen (Mem.ofList data) data.length ≤ data.length := textLen_le
  have htext : (Mem.ofList data).take (textLen (Mem.ofList data) data.length) = data.takeWhile (· ≠ 0) := by
    rw [take_textLen, Mem.take_ofList le_rfl, List.take_length]
  have hlen : (data.takeWhile (· ≠ 0)).length = textLen (Mem.ofList data) data.length := by rw [← htext, Mem.length_take]
  unfold textOf
  rw [hlen, ← htext]
  generalize ht : textLen (Mem.ofList data) data.length = t at hle
  obtain ⟨r,hr⟩ := Nat.exists_eq_add_of_le hle
  conv_lhs => rw [hr, Mem.take_add]
  rw [show data.length - t = r by omega]
  congr 1
  · refine Mem.take_congr (fun i hi => if_pos ⟨by omega,fun j hj => ?_⟩)
    exact @textLen_text data.length _ _ (by omega)
  · -- behind the text there is a NUL, or the buffer ends
    refine List.eq_replicate_of_mem (fun c hc => ?_) |>.trans (by rw [Mem.length_take])
    obtain ⟨i,hi,rfl⟩ := List.mem_map.mp hc
    have hir := List.mem_range.mp hi
    rw [Mem.shift_apply]
    refine if_neg (fun hn => ?_)
    rcases @textLen_end data.length (Mem.ofList data) with hend | hend
    · omega
    · exact hn.2 t (by omega) (ht ▸ hend)

/-! ## Handles -/

theorem unusedSlot_cases {ft : ℕ → FileTable} {count i : ℕ} :
    (unusedSlot ft count i = -1 ∧ ∀ j, i ≤ j → j < i + count → (ft j).used = true) ∨
      ∃ f, unusedSlot ft count i = (f : ℕ) ∧ i ≤ f ∧ f < i + count ∧ (ft f).used = false ∧ ∀ j, i ≤ j → j < f → (ft j).used = true := by
  induction count generalizing i with
  | zero => exact .inl ⟨rfl,fun j hi hj => by omega⟩
  | succ count ih =>
    rw [unusedSlot]
    split
    · next hi => exact .inr ⟨i,rfl,le_rfl,by omega,hi,fun j hlo hhi => by omega⟩
    · next hi =>
      have hused : (ft i).used = true := by simpa using hi
      have hmore : ∀ {b}, (∀ j, i + 1 ≤ j → j < b → (ft j).used = true) → ∀ j, i ≤ j → j < b → (ft j).used = true := by
        intro b hall j hlo hhi
        rcases Nat.eq_or_lt_of_le hlo with rfl | hlt
        · exact hused
        · exact hall j hlt hhi
      rcases ih (i := i + 1) with ⟨hn,hall⟩ | ⟨f,hf,hlo,hhi,hfree,hall⟩
      · exact .inl ⟨hn,hmore (fun j hlo hhi => hall j hlo (by omega))⟩
      · exact .inr ⟨f,hf,by omega,by omega,hfree,hmore hall⟩

/-- The scan of the open file table finds the first free handle. -/
theorem Iom.Shows.unusedSlot (hs : m.Shows a) :
    (SimpleFS.unusedSlot m.sbi.fileTable (maxOpenFile - startOpenFile) startOpenFile = -1 ∧ a.Exhausted) ∨
      ∃ f, SimpleFS.unusedSlot m.sbi.fileTable (maxOpenFile - startOpenFile) startOpenFile = (f : ℕ) ∧ a.FirstFree f := by
  have hheld : ∀ {j}, 3 ≤ j → j < 16 → (m.sbi.fileTable j).used = true → a.handle j ≠ none := fun hlo hhi hused hn => by
    rw [hs.free _ hlo hhi hn] at hused
    cases hused
  rcases @unusedSlot_cases m.sbi.fileTable (maxOpenFile - startOpenFile) startOpenFile with
    ⟨hn,hall⟩ | ⟨f,hf,hlo,hhi,hfree,hall⟩
  · exact .inl ⟨hn,fun j hlo hhi => hheld hlo hhi (hall j hlo hhi)⟩
  · refine .inr ⟨f,hf,hlo,hhi,?_,fun j hj hjf => hheld hj (hjf.trans hhi) (hall j hj hjf)⟩
    by_contra hn
    obtain ⟨h,hh⟩ := Option.ne_none_iff_exists'.mp hn
    cases hfree.symm.trans (hs.held f h hh).used

/-! ## Opening -/

section Open
variable (he : e.Nominal) (hs : s.iom.Shows a) (hD : Reach shape s.iom.tree p D) (hk : s.iom.tree.kind D = some .dir)
  (hx : PlainName x)
include he hs hD hk hx

/-- The record an open goes on with. Nothing has happened then, or a file is new. -/
theorem wp_findOrCreate_shown {flags mode : ℕ} {Q : Except ℤ (Option Inode) → Sys → Prop}
    (hu : flags &&& oRdwr ≠ 0 ∨ flags &&& oCreat ≠ 0 → a.names (x :: p) = none →
      ¬(s.iom.InodeReady ∧ s.iom.InodeRoom (-2)) → u)
    (herr : ∀ s', s'.iom.Shows a → a.names (x :: p) = none → Q (.error lab4Error) s')
    (hold : ∀ s' k, s'.iom = s.iom → Reach shape s.iom.tree (x :: p) k → Q (.ok (some (s.iom.inode k))) s')
    (hnew : ∀ s' k v, flags &&& oRdwr ≠ 0 ∨ flags &&& oCreat ≠ 0 → a.names (x :: p) = none → FileRecord k v → k < 2^32 →
      s'.iom.Shows (a.put (x :: p) (some (.file []))) → Reach shape s'.iom.tree (x :: p) k → s'.iom.tree.kind k = some .file →
      s'.iom.content k = [] → Q (.ok (some v)) s') :
    wp u (findOrCreate (s.iom.inode D) x flags mode) Q e s := by
  obtain ⟨hino,_,_⟩ := dir_ino hs.regular.sane hk
  unfold findOrCreate
  rw [wp_bind]
  refine wp_lookup he hs.regular.sane hino hk hx.valid.lt (fun s1 i k h1 hslot hnum => ?_) (fun s1 h1 hmiss => ?_)
  · rw [lookupResult_keep _ _ _ (by decide)]
    dsimp only
    rw [if_neg (by decide), if_neg (by decide), wp_bind]
    have hreach := hs.regular.reach_binds hD hk hx ⟨i,hslot⟩
    have hlive := Iom.live_of_kind (hreach.live hs.regular.sane.sound)
    have hlo : 2 ≤ k := hlive.1
    have hhi : k < s.iom.inodeNum := hlive.2.1
    refine wp_doReadInode (fun s2 h2 hn => ?_) (fun _ hbig => ?_) (fun s2 h2 _ _ => ?_)
    · rcases hn with hn | hn
      · omega
      · exact absurd he.malloc hn
    · rw [h1, hnum] at hbig
      omega
    · rw [wp_pure, h1, hnum]
      exact hold s2 k (h2.trans h1) hreach
  · have hnone := (hs.missing hD hk hx).mpr hmiss
    dsimp only
    rw [if_neg (by decide), if_pos rfl, wp_ite, wp_pure]
    refine ⟨fun hflags => ?_,fun _ => herr s1 (h1 ▸ hs) hnone⟩
    rw [← h1] at hs hD hk hu hmiss ⊢
    rw [wp_bind]
    refine wp_created_any he hs.regular.sane hk hx.valid (hu hflags hnone) (fun r m' s2 hc _ h2 => ?_)
    cases hc with
    | «exists» h => exact absurd h (hmiss _)
    | refused h =>
      dsimp only
      rw [if_pos rfl, wp_pure]
      exact herr s2 (h2 ▸ hs) hnone
    | @done k i v found h hkn hbit hv hf =>
      dsimp only
      rw [if_neg (by decide), wp_pure]
      have hd : (DirEntry.used (UInt32.ofNat k) 1 x).binding = some (x,k) := used_binding (hs.regular.sane.index_lt hkn) hx.valid
      have hreg := hs.regular.createFile hk hkn hbit hf hd hv hx.valid h
      have hputs := hs.regular.puts_createFile hD hk hkn hbit hf hd h hv
      have hclosed : a.Closed (x :: p) := hs.closed (fun data hn => by cases hnone.symm.trans hn)
      rw [← h2] at hreg hputs
      have hshow := hs.put hreg hputs hclosed
      have hreach : Reach shape s2.iom.tree (x :: p) k := by
        refine hreg.ids_eq_some.mp ?_
        rw [hputs.ids, Function.update_self]
        rfl
      have hnode : s2.iom.node k = some (.file []) := by
        rw [← hreg.view_of_reach hreach, hputs.view, Function.update_self]
        rfl
      obtain ⟨hkind,hbytes⟩ := Iom.kind_of_node_file hnode
      exact hnew s2 k v hflags hnone hv (hs.regular.sane.index_lt hkn) hshow hreach hkind hbytes.symm

omit he hD hk hx in
/-- The handle of a file that is there, or the refusal when there is none left. -/
theorem wp_allocate {flags k : ℕ} {v : Inode} {Q : ℤ → Sys → Prop} (hreach : Reach shape s.iom.tree (x :: p) k)
    (hfile : s.iom.tree.kind k = some .file) (hino : v.iIno.toNat = k) (hsize : v.iSize.toInt = (s.iom.content k).length)
    (hfull : a.Exhausted → Q (-1) s)
    (hok : ∀ s' f, a.FirstFree f → s'.iom.Shows (a.setHandle f (some ⟨x :: p,(s.iom.content k).length⟩)) → Q (f : ℕ) s') :
    wp u (do
      let fid ← lab4AllocateOpenFileTable
      if fid < 0 then return fid
      modifyIom (fun m => m.setFile fid.toNat (openedFile v flags))
      return fid) Q e s := by
  unfold lab4AllocateOpenFileTable
  simp only [wp_bind, wp_getIom, wp_pure, wp_ite, wp_modifyIom]
  rcases hs.unusedSlot with ⟨hn,hex⟩ | ⟨f,hf,hfree⟩
  · rw [hn]
    exact ⟨fun _ => hfull hex,fun hc => absurd (by decide) hc⟩
  · rw [hf, Int.toNat_natCast]
    refine ⟨fun hc => absurd hc (by omega),fun _ => hok _ f hfree ?_⟩
    refine hs.openFile hfree.lo hfree.hi hreach hfile ?_ ?_ ?_
    all_goals
      unfold openedFile lab4Seek
      split
    · rfl
    · rfl
    · exact hino
    · exact hino
    · exact hsize
    · exact hsize

/-- An open ends with a handle, or with -1 and whatever a refusal leaves. -/
theorem wp_doOpenfile_shown {flags mode : ℕ} (hu : flags &&& oRdwr ≠ 0 ∨ flags &&& oCreat ≠ 0 →
      a.names (x :: p) = none → ¬(s.iom.InodeReady ∧ s.iom.InodeRoom (-2)) → u) :
    wp u (doOpenfile (s.iom.inode D) x flags mode) (fun r s' =>
      r = -1 ∧ (∃ b, (∀ r' ≤ 0, Files.Step a (.openFile p x flags mode) (.code r') b) ∧ s'.iom.Shows b) ∨
        0 ≤ r ∧ a.Answered (.openFile p x flags mode) (.code r) s') e s := by
  unfold doOpenfile
  rw [wp_bind]
  refine wp_findOrCreate_shown he hs hD hk hx hu (fun s1 h1 hnone => ?_) (fun s1 k h1 hreach => ?_)
    (fun s1 k v hflags hnone hv hk32 h1 hreach hkind hempty => ?_)
  · dsimp only
    rw [wp_pure]
    exact .inl ⟨rfl,a,fun r' hr' => .openRefused hr' (.inl hnone),h1⟩
  · obtain ⟨v,hv⟩ := Option.ne_none_iff_exists'.mp (Iom.labelled k (hreach.live hs.regular.sane.sound))
    have hnames := (hs.names_node hreach).trans hv
    rw [← h1] at hs hreach hv ⊢
    dsimp only
    rw [wp_ite, wp_pure]
    refine ⟨fun hdir => .inl ⟨rfl,a,fun r' hr' => .openRefused hr' (.inr (.inl ?_)),hs⟩,fun htype => ?_⟩
    · cases v with
      | dir => exact hnames
      | file bytes =>
        obtain ⟨hfile,_⟩ := Iom.kind_of_node_file hv
        exact absurd (hs.regular.file_live hfile).2.2 hdir
    · rw [not_not] at htype
      have hfile : s1.iom.tree.kind k = some .file := by
        rw [Iom.tree]
        exact Books.kind_eq_file.mpr ⟨Iom.live_of_kind (hreach.live hs.regular.sane.sound),htype⟩
      have hcontent : a.names (x :: p) = some (.file (s1.iom.content k)) := (hs.names_node hreach).trans (Iom.node_file hfile)
      have hsize : (s1.iom.inode k).iSize.toInt = (s1.iom.content k).length := hs.regular.node_size (Iom.node_file hfile)
      refine wp_allocate hs hreach hfile (hs.regular.file_ino hfile) hsize (fun hex => ?_) (fun s2 f hf h2 => ?_)
      · exact .inl ⟨rfl,a,fun r' hr' => .openRefused hr' (.inr (.inr hex)),hs⟩
      · exact .inr ⟨Int.natCast_nonneg f,_,.opened hcontent hf,h2⟩
  · dsimp only
    rw [if_neg (not_not.mpr hv.type)]
    have hino : v.iIno.toNat = k := by rw [hv.ino, UInt32.toNat_ofNat_of_lt' hk32]
    have hsize : v.iSize.toInt = (s1.iom.content k).length := by
      rw [hv.size, hempty]
      rfl
    refine wp_allocate h1 hreach hkind hino hsize (fun hex => ?_) (fun s2 f hf h2 => ?_)
    · exact .inl ⟨rfl,_,fun r' hr' => .createdOnly hr' hflags hnone hex,h1⟩
    · refine .inr ⟨Int.natCast_nonneg f,_,.created hflags hnone ⟨hf.lo,hf.hi,hf.free,hf.first⟩,?_⟩
      rw [hempty] at h2
      exact h2

end Open

section Calls
variable (he : e.Nominal) (hs : s.iom.Shows a)
include he hs

/-- `lab4_create`, and `lab4_open` with mode 0. -/
theorem answered_openFile {flags mode : ℕ} (herr : ∀ t, 0 ≤ e.errno t) (hp : a.Plain (x :: p)) (hparent : a.names p ≠ none)
    (hu : flags &&& oRdwr ≠ 0 ∨ flags &&& oCreat ≠ 0 → a.names (x :: p) = none →
      ¬(s.iom.InodeReady ∧ s.iom.InodeRoom (-2)) → u) :
    wp u (lab4Create (pathTo (x :: p)) flags mode 0) (fun r s' =>
      a.Answered (.openFile p x flags mode) (.code (if r.1 = lab4Success then r.2 else r.1)) s') e s := by
  unfold lab4Create openHandle lab4DoOpen
  rw [wp_bind, pathTo_checked, wp_bind]
  refine wp_splitName he hp.1 hp.2.length (fun s1 f d h1 hf hd => ?_)
  rw [← h1] at hs hu
  dsimp only
  rw [wp_bind]
  refine wp_cstr hd (fun hn => absurd hp.2.length hn) (fun _ => ?_)
  rw [wp_bind]
  refine wp_readParent he hs.regular (hs.followable hp) hp.2.length (fun s2 _ hv => ?_) (fun s2 D h2 hD hk => ?_)
  · exact absurd (hs.names ▸ hv) hparent
  · rw [← h2] at hs hD hk hu ⊢
    dsimp only
    rw [if_neg (by decide), if_neg (by decide), wp_bind]
    refine wp_cstr hf (fun hn => absurd hp.1.valid.lt hn) (fun _ => ?_)
    refine (wp_doOpenfile_shown he hs hD hk hp.1 hu).mono (fun r s3 hr => ?_)
    rw [wp_ite]
    rcases hr with ⟨rfl,b,hstep,hb⟩ | ⟨h0,hans⟩
    · refine ⟨fun _ => ?_,fun hn => absurd rfl hn⟩
      rw [wp_bind, wp_errno, wp_pure]
      have hneg : (if -e.errno s3.clock = lab4Success then (0 : ℤ) else -e.errno s3.clock) ≤ 0 := by
        have := herr s3.clock
        split <;> omega
      exact ⟨b,hstep _ hneg,hb⟩
    · refine ⟨fun hn => ?_,fun _ => ?_⟩
      · rw [hn] at h0
        exact absurd h0 (by decide)
      · rw [wp_pure]
        exact hans

omit he in
theorem answered_release (hh : a.handle fid ≠ none) :
    wp u (lab4Release fid) (fun r s' => a.Answered (.release fid) (.code r) s') e s := by
  obtain ⟨h,hh⟩ := Option.ne_none_iff_exists'.mp hh
  have hheld := hs.held fid h hh
  have hlt : fid < maxOpenFile := hheld.hi
  unfold lab4Release lab4DoClose
  rw [wp_bind, if_neg (by omega), wp_modifyIom, wp_pure, Int.toNat_natCast]
  exact ⟨_,.released,hs.release⟩

/-- A write replaces the bytes of the file or adds to them. -/
theorem answered_write {offset : ℕ} (hpath : slash ∈ path) (hw : a.Writable fid data offset)
    (hu : ¬(0 < e.fuel ∧ ∀ h, a.handle fid = some h → a.names h.path = some (.file []) → s.iom.BlockReady) → u) :
    wp u (lab4Write path (Mem.ofList data) data.length offset fid)
      (fun r s' => a.Answered (.write path fid data offset) (.code r) s') e s := by
  obtain ⟨h,old,hh,hn,hplace⟩ := hw.place
  obtain ⟨k,hreach,hk,hino,rfl⟩ := hs.file_of_handle hh hn
  have hheld := hs.held fid h hh
  have hcl := hs.regular.cluster
  have hsize : 1 ≤ data.length := List.length_pos_iff.mpr hw.some
  have hin : offset + data.length ≤ s.iom.clusterSize := hcl ▸ hw.fits
  have hnn := hheld.nonneg
  have hle := hheld.le
  unfold lab4Write
  rw [if_neg (fun hc => doPathCheck_eq_error.mp hc hpath), if_neg (by omega), Int.toNat_natCast]
  refine hs.regular.wp_wrote he hk hheld.used hino hheld.hi hsize hin (by rw [hheld.size]; omega) (by rw [hheld.size]; omega)
    (fun hn' => hu (fun hr => hn' ⟨hr.1,fun hz => hr.2 h hh ?_⟩)) (fun r s1 hwrote => ?_)
  · rw [hn, Iom.Regular.content_eq_nil hz]
  rcases hplace with ⟨hoff,hft⟩ | ⟨rfl,hne⟩
  · obtain ⟨rfl,hreg,hrew⟩ := hs.regular.wrote_append hreach hk hwrote hsize hin hoff (by rw [hheld.size]; exact hft)
    rw [Mem.take_ofList le_rfl, List.take_length] at hrew
    have hlen : (s.iom.content k ++ data).length = offset + data.length := by rw [List.length_append, hoff]
    have hshow := hs.rewrite hreg hrew hh (by rw [hlen]; exact hw.fits)
    rw [hlen] at hshow
    exact ⟨_,.appended hh hn hoff,hshow⟩
  · obtain ⟨rfl,hreg,hrew⟩ := hs.regular.wrote_copy hreach hk hwrote hsize hin rfl hne
    have hlen : ((strncpyBuf (Mem.ofList data) data.length).take data.length).length = data.length := Mem.length_take
    have hshow := hs.rewrite hreg hrew hh (by rw [hlen]; exact (Nat.zero_add data.length) ▸ hw.fits)
    rw [hlen, take_strncpyBuf] at hshow
    rw [hcl]
    exact ⟨_,.replaced hh hn hne,hshow⟩

end Calls

/-! ## Reading -/

/-- The one round of a read from the start. -/
theorem wp_readLoop_start {v : Inode} {fuel b : ℕ} {r : ℤ} (hio : e.IoOk) (hn : n ≠ 0) (hcs : n ≤ s.iom.clusterSize)
    (hcl : s.iom.clusterSize = 4096) (hrw : (s.iom.sbi.fileTable fid).rwoffset = 0) (hpos : 0 < v.iSize.toInt)
    (hu : ¬(1 < fuel ∧ textLen (s.iom.dev.bytes.shift b) n < 4096) → u) :
    wp u (readLoop fid v b fuel n buf r) (fun q s' =>
      q = (((textLen (s.iom.dev.bytes.shift b) n : ℕ) : ℤ),
        splice buf 0 (textLen (s.iom.dev.bytes.shift b) n) (s.iom.dev.bytes.shift b)) ∧
      ∃ pos, s'.iom = s.iom.setFile fid { s.iom.sbi.fileTable fid with rwoffset := pos }) e s := by
  cases fuel with
  | zero =>
    rw [readLoop, wp_undefined]
    exact hu (fun hr => absurd hr.1 (by omega))
  | succ fuel =>
    rw [readLoop, wp_bind, wp_getIom]
    dsimp only
    rw [hrw, if_neg (by omega), wp_bind]
    refine wp_pread_ok hio (Int.natCast_nonneg b) hcs (fun s1 h1 => ?_)
    have hle : textLen (s.iom.dev.bytes.shift b) n ≤ n := textLen_le
    rw [Int.toNat_natCast, wp_bind, strlen_read hcs, wp_lift]
    -- a text that fills the buffer has no end there
    refine ⟨fun hfull => hu (fun hr => ?_),fun l hl => ?_⟩
    · rw [if_neg (by omega)] at hfull
      cases hfull
    split at hl
    · cases hl
    cases hl
    have hcut : (if lab4ClusterSize - ((0 : ℤ) % lab4ClusterSize).toNat > n then n
        else lab4ClusterSize - ((0 : ℤ) % lab4ClusterSize).toNat) = n := by
      unfold lab4ClusterSize
      split <;> omega
    rw [hcut, splice_read hle, wp_bind, wp_modifyIom, Nat.sub_self]
    cases fuel with
    | zero =>
      rw [readLoop, wp_undefined]
      exact hu (fun hr => absurd hr.1 (by omega))
    | succ fuel =>
      rw [readLoop, wp_bind, wp_getIom]
      dsimp only
      rw [if_pos (.inl rfl), wp_pure, h1]
      exact ⟨rfl,_,rfl⟩

section Read
variable (he : e.Nominal) (hs : s.iom.Shows a)
include he hs

/-- A read hands out the text at the start of the file. -/
theorem answered_read (hpath : slash ∈ path) (hn : n ≠ 0) (hh : a.handle fid = some h) (hd : a.names h.path = some (.file data))
    (hsize : data = [] ∨ n ≤ data.length) (hu : ¬(1 < e.fuel ∧ ((data.take n).takeWhile (· ≠ 0)).length < 4096) → u) :
    wp u (lab4Read path buf n 0 fid) (fun r s' => a.Answered (.read path fid n) (.data r.1 (r.2.take r.1.toNat)) s') e s := by
  obtain ⟨k,hreach,hk,hino,rfl⟩ := hs.file_of_handle hh hd
  have hheld := hs.held fid h hh
  have hcl := hs.regular.cluster
  obtain ⟨hle,hnn⟩ := hs.regular.size_le hk
  have hfid : fid < maxOpenFile := hheld.hi
  obtain ⟨h3,hlive,_⟩ := hs.regular.file_live hk
  have hseek : (s.iom.setFile fid { s.iom.sbi.fileTable fid with rwoffset := (0 : ℕ) }).Shows a := hs.seek hh rfl rfl rfl
  unfold lab4Read
  rw [if_neg (fun hc => doPathCheck_eq_error.mp hc hpath), if_neg (by omega), Int.toNat_natCast]
  have hlo : 2 ≤ (s.iom.sbi.fileTable fid).ino.toNat := hino ▸ hlive.1
  have hhi : (s.iom.sbi.fileTable fid).ino.toNat < s.iom.inodeNum := hino ▸ hlive.2.1
  by_cases hz : (s.iom.inode k).iSize = 0
  · have hempty : s.iom.content k = [] := Iom.Regular.content_eq_nil hz
    unfold doRead
    rw [wp_bind, wp_getIom]
    dsimp only
    rw [if_neg (Nat.not_le.mpr hfid), wp_bind, wp_modifyIom, wp_bind]
    refine wp_doReadInode (fun s1 h1 hc => ?_) (fun _ hbig => absurd hhi (Nat.not_lt.mpr hbig)) (fun s1 h1 _ _ => ?_)
    · rcases hc with hc | hc
      · omega
      · exact absurd he.malloc hc
    · have hrec : ∀ ft, (s.iom.setFile fid ft).inode (s.iom.sbi.fileTable fid).ino.toNat = s.iom.inode k := fun _ => by
        rw [hino]
        rfl
      dsimp only
      rw [hrec, if_pos hz, wp_pure]
      have hstep : a.Step (.read path fid n) _ a := .read hh hd
      rw [hempty] at hstep
      rw [List.take_nil, List.takeWhile_nil] at hstep
      exact ⟨a,hstep,h1 ▸ hseek⟩
  · have hne : s.iom.content k ≠ [] := by
      intro hn
      have hlen := congrArg List.length hn
      rw [Iom.Regular.length_content] at hlen
      refine hz (Int64.toInt_inj.mp ?_)
      rw [List.length_nil] at hlen
      rw [show (0 : Int64).toInt = 0 from rfl]
      omega
    have hn' := hsize.resolve_left hne
    rw [Iom.Regular.length_content] at hn'
    have hpos : 0 < (s.iom.inode k).iSize.toInt := by omega
    have ho : s.iom.OpenOn fid (s.iom.inode k) := ⟨hfid,hlo,hhi,by rw [hino]⟩
    refine wp_doRead ho hpos he (fun t r ht _ => ?_)
    have hdev : t.iom.dev = s.iom.dev := by
      rw [ht]
      rfl
    have hcs : t.iom.clusterSize = 4096 := by
      rw [ht]
      exact hcl
    have hrw : (t.iom.sbi.fileTable fid).rwoffset = 0 := by
      rw [ht, setFile_fileTable_self]
      rfl
    have hstart : (s.iom.content k).take n = (s.iom.dev.bytes.shift (s.iom.dataAddr k)).take n := by
      rw [Iom.content_eq]
      unfold Mem.take
      rw [← List.map_take, List.take_range, Nat.min_eq_left hn']
    have hlen : ((s.iom.content k).take n).takeWhile (· ≠ 0) = (s.iom.dev.bytes.shift (s.iom.dataAddr k)).take
        (textLen (s.iom.dev.bytes.shift (s.iom.dataAddr k)) n) := by rw [hstart, take_textLen]
    refine (wp_readLoop_start he.io hn (by omega) hcs hrw hpos (fun hno => hu (fun hr => hno ⟨hr.1,?_⟩))).mono ?_
    · have hshort := hr.2
      rw [hlen, Mem.length_take] at hshort
      rw [hdev]
      exact hshort
    rintro q s2 ⟨rfl,pos,h2⟩
    have htext : (splice buf 0 (textLen (t.iom.dev.bytes.shift (s.iom.dataAddr k)) n) (t.iom.dev.bytes.shift (s.iom.dataAddr k))).take
        (textLen (t.iom.dev.bytes.shift (s.iom.dataAddr k)) n) = ((s.iom.content k).take n).takeWhile (· ≠ 0) := by
      rw [hlen, hdev]
      refine Mem.take_congr (fun i hi => ?_)
      rw [splice_inside (Nat.zero_le i) (by omega), Nat.sub_zero]
    have hshow : s2.iom.Shows a := by
      rw [h2]
      have hsame : t.iom.Shows a := ht ▸ hseek
      exact hsame.seek hh rfl rfl rfl
    have hstep : a.Step (.read path fid n) _ a := .read hh hd
    rw [← htext, Mem.length_take] at hstep
    exact ⟨a,hstep,hshow⟩

end Read

end SimpleFS
