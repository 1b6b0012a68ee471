import SimpleFS.FullDirectory

/-! # What opening a file does to the names

An open that does not find the name creates it, before it looks for a slot of the open file table and
whenever the file is to be opened for reading and writing. Everything else it does leaves bitmaps, inode
table and data area alone.
-/
namespace SimpleFS
open Bytes Machine Prog

/-- A slot of the open file table is left. -/
def Iom.SlotLeft (m : Iom) : Prop := ∃ i, startOpenFile ≤ i ∧ i < maxOpenFile ∧ (m.sbi.fileTable i).used = false

/-- A name that `do_openfile` does not find in `p`, with flags for which it creates it, and nothing that
stops the creation. -/
structure Iom.NewFile (m : Iom) (p : Inode) (name : List UInt8) (flags : ℕ) : Prop where
  missing : m.lookupSlot p.iIno name = some (.error (-enoent))
  flags : flags &&& oRdwr ≠ 0 ∨ flags &&& oCreat ≠ 0
  pos : 1 ≤ name.length
  fits : name.length < fnameSize
  links : p.iLinksCount ≠ maxFilesPerDir
  parent : m.Parent p
  creatable : m.Creatable p name

/-- The same for a path. -/
structure Iom.OpensNew (m : Iom) (path : List UInt8) (flags : ℕ) : Prop where
  ok : PathOk path
  addr : m.WalkAddr (strtok (dirName path)) m.sbi.rootIno
  new : ∃ p, m.readInode (dirName path) = some (.ok (some p)) ∧ m.NewFile p (lastName path) flags

/-- An open with these flags leaves the names alone when it fails, and without `O_CREAT` always. An open without a
result counts as one that does; a part of the path that does not fit `f_name` or `d_name` has none. -/
structure OpenKeeps (s : Sys) (path : List UInt8) (flags : ℕ) : Prop where
  failing : ∀ {e : Env} {mode : ℕ} {r : ℤ} {s' : Sys}, lab4DoOpen path flags mode e s = some (r,s') → r < 0 →
    s.iom.Untouched s'.iom
  uninvited : flags &&& oCreat = 0 → ∀ {e : Env} {mode : ℕ} {r : ℤ} {s' : Sys},
    lab4DoOpen path flags mode e s = some (r,s') → s.iom.Untouched s'.iom

variable {u : Prop} {e : Env} {s : Sys} {m : Iom} {p v : Inode} {name path : List UInt8} {flags mode k i : ℕ} {found : Bool}

theorem Iom.Untouched.refl (m : Iom) : m.Untouched m := ⟨rfl,rfl,rfl,fun _ _ => rfl⟩

theorem Iom.Untouched.setFile (m : Iom) (fid : ℕ) (ft : FileTable) : m.Untouched (m.setFile fid ft) :=
  ⟨rfl,rfl,rfl,fun _ _ => rfl⟩

/-! ## The open file table -/

theorem unusedSlot_none {ft : ℕ → FileTable} {count i : ℕ} (h : ∀ j, i ≤ j → j < i + count → (ft j).used = true) :
    unusedSlot ft count i = -1 := by
  induction count generalizing i with
  | zero => rfl
  | succ count ih =>
    have hi : ¬(ft i).used = false := by
      rw [h i le_rfl (by omega)]
      simp
    rw [unusedSlot, if_neg hi]
    exact ih (fun j hj hlt => h j (by omega) (by omega))

theorem unusedSlot_some {ft : ℕ → FileTable} {count i j : ℕ} (hij : i ≤ j) (hj : j < i + count)
    (h : (ft j).used = false) : 0 ≤ unusedSlot ft count i := by
  induction count generalizing i with
  | zero => omega
  | succ count ih =>
    rw [unusedSlot]
    split
    · exact Int.natCast_nonneg i
    · next hi =>
      have hne : i ≠ j := by
        rintro rfl
        exact hi h
      exact ih (by omega) (by omega)

theorem slot_of_left (h : m.SlotLeft) : 0 ≤ unusedSlot m.sbi.fileTable (maxOpenFile - startOpenFile) startOpenFile := by
  obtain ⟨j,hlo,hhi,hj⟩ := h
  exact unusedSlot_some hlo (by rwa [Nat.add_sub_cancel' (by decide)]) hj

theorem slot_of_not_left (h : ¬m.SlotLeft) :
    unusedSlot m.sbi.fileTable (maxOpenFile - startOpenFile) startOpenFile = -1 := by
  refine unusedSlot_none (fun j hlo hhi => ?_)
  by_contra hn
  exact h ⟨j,hlo,by rwa [Nat.add_sub_cancel' (by decide)] at hhi,by simpa using hn⟩

/-! ## Creating on the way -/

/-- A creation that came through met nothing that stops one. -/
theorem Iom.Creation.newFile (h : m.Creation p name k v found i) (hmiss : m.lookupSlot p.iIno name = some (.error (-enoent)))
    (hf : flags &&& oRdwr ≠ 0 ∨ flags &&& oCreat ≠ 0) (ha : m.AddrAt p.iIno) (hm : m.Mounted) : m.NewFile p name flags := by
  have hle := hm.cluster_le
  have hnonneg : 0 ≤ p.iSize.toInt := by
    have hbits : p.iSize.toInt = (p.iSize.toUInt64.toNat : ℤ).bmod (2^64) := BitVec.toInt_eq_toNat_bmod p.iSize.toBitVec
    have hsize := h.size
    rw [hbits, Int.bmod_def]
    omega
  have hsize := h.size
  have hscan := h.scan
  rw [Int64.toUInt64_toNat hnonneg] at hsize hscan
  refine ⟨hmiss,hf,h.pos,h.fits,h.links,⟨hnonneg,by omega,h.addr,ha⟩,⟨fun hlo => ?_,fun hlo => ?_,h.ready,?_,h.room⟩⟩
  · by_contra hn
    unfold Iom.lookupSlot at hmiss
    rw [if_neg (by omega), if_pos (Nat.not_lt.mp hn)] at hmiss
    cases hmiss
  · rw [Option.isSome_iff_ne_none]
    intro hn
    unfold Iom.lookupSlot at hmiss
    rw [if_neg (by omega), hn] at hmiss
    split at hmiss <;> cases hmiss
  · exact Option.isSome_iff_exists.mpr ⟨_,hscan⟩

theorem ibit_createFile {a : ℕ} {d : DirEntry} : (m.createFile k v a d).ibit k = true := by
  have hb : (m.createFile k v a d).ibit = (m.books.take k v).ibit := congrArg Books.ibit (books_createFile ..)
  rw [hb]
  exact Function.update_self k true m.books.ibit

/-- The outcomes of `findOrCreate`: nothing is written, or a file is new. -/
theorem wp_findOrCreate {Q : Except ℤ (Option Inode) → Sys → Prop} (hm : s.iom.Mounted)
    (hu : ¬(e.Nominal ∧ s.iom.NewFile p name flags) → u)
    (herr : ∀ r s', s'.iom = s.iom → ¬(e.Nominal ∧ s.iom.NewFile p name flags) → Q (.error r) s')
    (hnone : ∀ s', ¬(e.Nominal ∧ s.iom.NewFile p name flags) → Q (.ok none) s')
    (hold : ∀ v s', s'.iom = s.iom → ¬(e.Nominal ∧ s.iom.NewFile p name flags) → Q (.ok (some v)) s')
    (hnew : ∀ k v s', s.iom.NewFile p name flags → s.iom.ibit k = false → v.iType = lab4TypeFile →
      s'.iom.sbi.fileTable = s.iom.sbi.fileTable → (e.IoOk → s'.iom.ibit k = true) → Q (.ok (some v)) s') :
    wp u (findOrCreate p name flags mode) Q e s := by
  unfold findOrCreate
  rw [wp_bind]
  refine wp_lab4Lookup_slot hm ?_ ?_ ?_ ?_
  · intro hn s1 h1
    dsimp only
    rw [if_pos rfl, wp_pure]
    exact herr _ s1 h1 (fun hc => hn ⟨hc.1,hc.2.parent.lookup⟩)
  · intro hl
    refine hu (fun hc => ?_)
    cases hl.symm.trans hc.2.missing
  · intro s1 res h1 ha hl
    dsimp only
    rcases lookupSlot_error hl with rfl | rfl
    · rw [if_pos rfl, wp_pure]
      refine herr _ s1 h1 (fun hc => ?_)
      cases hl.symm.trans hc.2.missing
    rw [if_neg (by decide), if_pos rfl, wp_ite]
    refine ⟨fun hf => ?_,fun hf => ?_⟩
    · rw [wp_bind]
      refine wp_lab4Createfile_any (h1 ▸ hm) (fun hn => ?_) (fun s2 h2 hlen => ?_) (fun s2 i h2 hlo hhi hscan => ?_)
        (fun s2 h2 hlinks _ => ?_) (fun s2 hn => ?_) (fun s2 k v found i hc _ hft hdone => ?_)
      · exact hu (fun hc => hn ⟨hc.1,h1 ▸ hc.2.parent,h1 ▸ hc.2.creatable⟩)
      · dsimp only
        rw [if_neg (by decide), wp_pure]
        refine hnone s2 (fun hc => ?_)
        have := hc.2.pos
        have := hc.2.fits
        omega
      · rw [h1] at hhi hscan
        cases (lookupSlot_of_scan hlo hhi hscan).symm.trans hl
      · dsimp only
        rw [if_pos rfl, wp_pure]
        exact herr _ s2 (h2.trans h1) (fun hc => hc.2.links hlinks)
      · dsimp only
        rw [if_neg (by decide), wp_pure]
        exact hnone s2 (fun hc => hn ⟨hc.1,hc.2.parent.addr⟩)
      · rw [h1] at hc hft hdone
        dsimp only
        rw [if_neg (by decide), wp_pure]
        refine hnew k v s2 (hc.newFile hl hf ha hm) hc.clear hc.record.type hft (fun hio => ?_)
        rw [hdone hio]
        exact ibit_createFile
    · rw [wp_pure]
      exact herr _ s1 h1 (fun hc => hf hc.2.flags)
  · intro s1 i h1 _ _ _ hl _
    have hmiss : ¬(e.Nominal ∧ s.iom.NewFile p name flags) := fun hc => by cases hl.symm.trans hc.2.missing
    rw [lookupResult_keep _ _ _ (by decide)]
    dsimp only
    rw [if_neg (by decide), if_neg (by decide), wp_bind]
    refine wp_doReadInode (fun s2 h2 _ => ?_) (fun _ _ => hu hmiss) (fun s2 h2 _ _ => ?_)
    · rw [wp_pure]
      exact hnone s2 hmiss
    · rw [wp_pure]
      exact hold _ s2 (h2.trans h1) hmiss

/-! ## Opening -/

/-- The outcomes of `do_openfile`. Whether a file table slot is left shows only behind a creation. -/
theorem wp_doOpenfile {Q : ℤ → Sys → Prop} (hm : s.iom.Mounted) (hu : ¬(e.Nominal ∧ s.iom.NewFile p name flags) → u)
    (hkeep : ∀ r s', s.iom.Untouched s'.iom → ¬(e.Nominal ∧ s.iom.NewFile p name flags) → Q r s')
    (hnew : ∀ r k s', s.iom.NewFile p name flags → (s.iom.SlotLeft ↔ 0 ≤ r) → s.iom.ibit k = false →
      (e.IoOk → s'.iom.ibit k = true) → Q r s') : wp u (doOpenfile p name flags mode) Q e s := by
  unfold doOpenfile
  rw [wp_bind]
  refine wp_findOrCreate hm hu (fun r s1 h1 hn => ?_) (fun s1 hn => ?_) (fun v s1 h1 hn => ?_) (fun k v s1 hc hclear ht hft hset => ?_)
  · rw [wp_pure]
    exact hkeep r s1 (h1 ▸ Iom.Untouched.refl s.iom) hn
  · rw [wp_undefined]
    exact hu hn
  · have hsame : s.iom.Untouched s1.iom := h1 ▸ Iom.Untouched.refl s.iom
    dsimp only
    rw [wp_ite, wp_pure]
    refine ⟨fun _ => hkeep _ s1 hsame hn,fun _ => ?_⟩
    simp only [lab4AllocateOpenFileTable, wp_bind, wp_getIom, wp_pure, wp_ite, wp_modifyIom]
    refine ⟨fun _ => hkeep _ s1 hsame hn,fun _ => hkeep _ _ ?_ hn⟩
    rw [h1]
    exact Iom.Untouched.setFile _ _ _
  · dsimp only
    rw [if_neg (not_not.mpr ht)]
    simp only [lab4AllocateOpenFileTable, wp_bind, wp_getIom, wp_pure, wp_ite, wp_modifyIom, hft]
    refine ⟨fun hneg => ?_,fun hpos => ?_⟩
    · refine hnew _ k s1 hc ⟨fun hl => ?_,fun hl => absurd hneg (Int.not_lt.mpr hl)⟩ hclear hset
      exact slot_of_left hl
    · refine hnew _ k _ hc ⟨fun hl => slot_of_left hl,fun hl => ?_⟩ hclear (fun hio => hset hio)
      by_contra hn
      rw [slot_of_not_left hn] at hl
      omega

/-- The outcomes of `lab4_do_open`. -/
theorem wp_lab4DoOpen {Q : ℤ → Sys → Prop} (hm : s.iom.Mounted) (hu : ¬(e.Nominal ∧ s.iom.OpensNew path flags) → u)
    (hkeep : ∀ r s', s.iom.Untouched s'.iom → ¬(e.Nominal ∧ s.iom.OpensNew path flags) → Q r s')
    (hnew : ∀ r k s', s.iom.OpensNew path flags → (s.iom.SlotLeft ↔ 0 ≤ r) → s.iom.ibit k = false →
      (e.IoOk → s'.iom.ibit k = true) → Q r s') : wp u (lab4DoOpen path flags mode) Q e s := by
  unfold lab4DoOpen
  rw [wp_ite, wp_pure]
  refine ⟨fun hp => hkeep _ s (Iom.Untouched.refl s.iom) (fun hc => ?_),fun hp => ?_⟩
  · rw [doPathCheck, if_pos hc.2.ok.slash] at hp
    cases hp
  rw [wp_bind]
  refine wp_getNameFromPath (fun hn => hu (fun hc => ?_)) (fun s1 f d h1 hslash hf hd => ?_)
  · rcases hn with hn | hn
    · exact hn hc.1.malloc
    · exact hn hc.2.ok
  have hsame : ∀ {s' : Sys}, s'.iom = s1.iom → s.iom.Untouched s'.iom := fun h => h.trans h1 ▸ Iom.Untouched.refl s.iom
  dsimp only
  rw [wp_bind]
  refine wp_cstr hd (fun hn => hu (fun hc => hn hc.2.ok.dir)) (fun hdir => ?_)
  rw [wp_bind]
  refine wp_lab4ReadInode (h1 ▸ hm) (fun hn s2 res h2 hres => ?_) (fun hr => ?_) (fun s2 res h2 hr => ?_) (fun s2 v h2 hwa hr => ?_)
  · have hno : ¬(e.Nominal ∧ s.iom.OpensNew path flags) := fun hc => hn ⟨hc.1,h1 ▸ hc.2.addr⟩
    dsimp only
    rcases hres with rfl | rfl
    · rw [if_neg (by decide), if_pos rfl, wp_pure]
      exact hkeep _ s2 (hsame h2) hno
    · rw [if_neg (by decide), if_neg (by decide), wp_undefined]
      exact hu hno
  · refine hu (fun hc => ?_)
    obtain ⟨p,hp,_⟩ := hc.2.new
    rw [h1] at hr
    cases hr.symm.trans hp
  · have hno : ¬(e.Nominal ∧ s.iom.OpensNew path flags) := fun hc => by
      obtain ⟨p,hp,_⟩ := hc.2.new
      rw [h1] at hr
      cases hr.symm.trans hp
    dsimp only
    rcases readInode_error hr with rfl | rfl
    · rw [if_neg (by decide), if_pos rfl, wp_pure]
      exact hkeep _ s2 (hsame h2) hno
    · rw [if_pos rfl, wp_pure]
      exact hkeep _ s2 (hsame h2) hno
  rw [h1] at h2 hwa hr
  dsimp only
  rw [if_neg (by decide), if_neg (by decide)]
  cases v with
  | none =>
    rw [wp_undefined]
    refine hu (fun hc => ?_)
    obtain ⟨p,hp,_⟩ := hc.2.new
    cases hr.symm.trans hp
  | some p =>
    dsimp only
    rw [wp_bind]
    refine wp_cstr hf (fun hn => hu (fun hc => hn hc.2.ok.last)) (fun hlast => ?_)
    have hopens : s.iom.OpensNew path flags ↔ s2.iom.NewFile p (lastName path) flags := by
      rw [h2]
      refine ⟨fun hc => ?_,fun hc => ⟨⟨hslash,hlast,hdir⟩,hwa,p,hr,hc⟩⟩
      obtain ⟨q,hq,hnew⟩ := hc.new
      cases hr.symm.trans hq
      exact hnew
    have hset : s2.iom.SlotLeft ↔ s.iom.SlotLeft := by rw [h2]
    rw [hopens] at hu hkeep
    refine wp_doOpenfile (h2 ▸ hm) hu (fun r s3 h3 hn => hkeep r s3 (h2 ▸ h3) hn) (fun r k s3 hc hslot hclear hio => ?_)
    exact hnew r k s3 (hopens.mpr hc) (hset.symm.trans hslot) (h2 ▸ hclear) hio

/-- Opening keeps the names exactly if an open that creates was asked to and finds a slot for the file. -/
theorem opening_keeps_names (hm : s.iom.Mounted) : OpenKeeps s path flags ↔
    (s.iom.OpensNew path flags → flags &&& oCreat ≠ 0 ∧ s.iom.SlotLeft) := by
  constructor
  · intro hk hnew
    have hwp : wp False (lab4DoOpen path flags 0) (fun r s' => (s.iom.SlotLeft ↔ 0 ≤ r) ∧ ¬s.iom.Untouched s'.iom) quietEnv s := by
      refine wp_lab4DoOpen hm (fun hn => hn ⟨quietEnv_nominal,hnew⟩) (fun _ _ _ hn => absurd ⟨quietEnv_nominal,hnew⟩ hn)
        (fun r k s' _ hslot hclear hset => ⟨hslot,fun hu => ?_⟩)
      cases hclear.symm.trans ((congrFun hu.ibit k).symm.trans (hset quietEnv_nominal.io))
    obtain ⟨r,s',hrun,hslot,hchanged⟩ := wp_false.mp hwp
    refine ⟨fun hf => hchanged (hk.uninvited hf hrun),?_⟩
    by_contra hn
    exact hchanged (hk.failing hrun (Int.not_le.mp (fun h0 => hn (hslot.mpr h0))))
  · intro h
    have hwp : ∀ e mode, wp True (lab4DoOpen path flags mode) (fun r s' => s.iom.Untouched s'.iom ∨
        0 ≤ r ∧ flags &&& oCreat ≠ 0) e s := fun e mode =>
      wp_lab4DoOpen hm (fun _ => trivial) (fun _ _ hu _ => .inl hu)
        (fun r k s' hnew hslot _ _ => .inr ⟨hslot.mp (h hnew).2,(h hnew).1⟩)
    constructor
    · intro e mode r s' hrun hneg
      rcases (hwp e mode).elim hrun with hu | hu
      · exact hu
      · exact absurd hneg (Int.not_lt.mpr hu.1)
    · intro hf e mode r s' hrun
      rcases (hwp e mode).elim hrun with hu | hu
      · exact hu
      · exact absurd hf hu.2

/-- Creating a file on a blank device by opening it. -/
theorem opening_keeps_names_blank : ∃ s0, formatAndMount quietEnv (blankDisk 80) = some (true,s0) ∧
    OpenKeeps s0 [47,102] oCreat := by
  have h : (formatAndMount quietEnv (blankDisk 80)).map (fun p =>
      (p.2.iom.mountedTest,(p.2.iom.sbi.fileTable startOpenFile).used)) = some (true,false) := by decide +kernel
  obtain ⟨s0,hrun,_⟩ := blankDisk_mounts
  rw [hrun] at h
  simp only [Option.map_some, Option.some.injEq, Prod.mk.injEq] at h
  exact ⟨s0,hrun,(opening_keeps_names (mounted_of_test h.1)).mpr
    (fun _ => ⟨by decide,startOpenFile,le_rfl,by decide,h.2⟩)⟩

set_option maxRecDepth 100000 in
/-- Opening a file that is not there for reading and writing, without `O_CREAT`: there is one afterwards. -/
theorem opening_without_creat_creates : ∃ s0 s1, formatAndMount quietEnv (blankDisk 80) = some (true,s0) ∧
    oRdwr &&& oCreat = 0 ∧ lookupIn quietEnv s0 2 [102] = some (-enoent,0) ∧
    lab4DoOpen [47,102] oRdwr 0 quietEnv s0 = some (3,s1) ∧ lookupIn quietEnv s1 2 [102] = some (lab4Success,3) ∧
    ¬OpenKeeps s0 [47,102] oRdwr := by
  have h : ((formatAndMount >>= fun _ => lab4DoOpen [47,102] oRdwr 0) quietEnv (blankDisk 80)).map (fun p =>
      (p.1,lookupIn quietEnv p.2 2 [102],p.2.iom.ibit 3)) = some (3,some (lab4Success,3),true) := by decide +kernel
  have h0 : (formatAndMount quietEnv (blankDisk 80)).map (fun p => (lookupIn quietEnv p.2 2 [102],p.2.iom.ibit 3)) =
      some (some (-enoent,0),false) := by decide +kernel
  obtain ⟨s0,hrun,_⟩ := blankDisk_mounts
  obtain ⟨⟨r,s1⟩,hopen,hr⟩ := Option.map_eq_some_iff.mp h
  rw [bind_apply, hrun] at hopen
  rw [hrun] at h0
  simp only [Option.map_some, Option.some.injEq, Prod.mk.injEq] at h0 hr
  obtain ⟨rfl,hfound,hset⟩ := hr
  refine ⟨s0,s1,hrun,by decide,h0.1,hopen,hfound,fun hk => ?_⟩
  have hu := hk.uninvited (by decide) hopen
  cases h0.2.symm.trans ((congrFun hu.ibit 3).symm.trans hset)

end SimpleFS
