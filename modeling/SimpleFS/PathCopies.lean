import SimpleFS.Consistency
import SimpleFS.Fuse
import SimpleFS.Machine.Logging

/-! # The copies of a path

Every call that takes a path copies it, whole or in parts, to buffers of three sizes. Here the calls log
their copies; without the log they are the calls. `get_name_from_path` copies the path with its terminator to
an allocation that is as long as the path without it. The copies that the other buffers receive fit whenever
the model follows the run at all.
-/
namespace SimpleFS
open Bytes Machine Prog Logged

/-! ## Calls that log their copies -/

/-- The allocation of `get_name_from_path`, its two name buffers, and `tmp_path` of `lab4_read_inode`. -/
inductive CopyDest
  | heap
  | name
  | stack
deriving DecidableEq

structure PathCopy where
  dest : CopyDest
  copy : Copy

abbrev Copying : Type → Type := Logged PathCopy Env Sys

/-- Without an allocation there is no byte to copy to. -/
def heapCopy (ok : Bool) (b : PathBuf) : PathCopy := ⟨.heap,if ok then b.copied else ⟨0,b.copied.count⟩⟩

def getNameFromPathLogged (path : List UInt8) : Copying (NameBuf × NameBuf) := do
  let ok ← quiet malloc
  let tmpPath := heapPath path
  tell (heapCopy ok tmpPath)
  if !ok then quiet undefined
  else
    let fPtr := fPtrLoop (tmpPath.text.length + 1) tmpPath.text
    tell ⟨.name,NameBuf.copied fPtr⟩
    let fName ← quiet (lift (NameBuf.copy fPtr))
    if slash ∈ path then
      let dPart := tmpPath.text.take (tmpPath.text.length - fPtr.length - 1)
      tell ⟨.name,NameBuf.copied dPart⟩
      let dName ← quiet (lift (NameBuf.copy dPart))
      return (fName,dName)
    else quiet undefined

def lab4ReadInodeLogged (path : List UInt8) (inode : Option Inode) : Copying (ℤ × Option Inode) := do
  let m ← quiet getIom
  if path = [slash] then return (lab4Success,← quiet (doReadInode m.sbi.rootIno))
  let tmpPath := stackPath path
  tell ⟨.stack,tmpPath.copied⟩
  if tmpPath.cap ≤ tmpPath.text.length then quiet undefined
  else
    let (res,curIno) ← quiet (walkPath (strtok tmpPath.text) m.sbi.rootIno 0)
    if res = lab4Error then return (lab4Error,inode)
    if res = -enoent then return (-enoent,inode)
    return (lab4Success,← quiet (doReadInode curIno))

def splitParentLogged (path : List UInt8) : Copying (ℤ × Option Inode × NameBuf) := do
  let (fName,dName) ← getNameFromPathLogged path
  let (res,dirInode) ← lab4ReadInodeLogged (← quiet (lift dName.cstr)) none
  return (res,dirInode,fName)

/-- `lab4_mkdir`, `lab4_unlink` and `lab4_rmdir` go on differently behind the lookup of the parent. -/
def wrapperLogged (rest : ℤ → Option Inode → NameBuf → M ℤ) (path : List UInt8) : Copying ℤ := do
  if doPathCheck path = lab4Error then return lab4Error
  let (res,dirInode,fName) ← splitParentLogged path
  quiet (rest res dirInode fName)

def renameTargetLogged (delDirInode : Inode) (delEntry : DirEntry) (isdelete : ℤ) (fName : NameBuf)
    (toPath : List UInt8) : Copying ℤ := do
  let (res,renameDir) ← lab4ReadInodeLogged toPath none
  if res = lab4Error then return lab4Error
  if res = -enoent then
    let (fName,dName) ← getNameFromPathLogged toPath
    let (_,renameDir) ← lab4ReadInodeLogged (← quiet (lift dName.cstr)) renameDir
    match renameDir with
    | none => quiet undefined
    | some renameDirInode =>
      let fName ← quiet (lift fName.cstr)
      if delDirInode.iIno = renameDirInode.iIno then
        let renameEntry := { delEntry with dFlag := lab4DirUsed, dFilename := strcpyName fName }
        let _ ← quiet (pwrite (dirEntryCodec.enc renameEntry) lab4DirEntrySize (entryOffset delDirInode isdelete))
        return lab4Success
      quiet (renameInto delDirInode delEntry isdelete renameDirInode fName)
  else
    match renameDir with
    | none => quiet undefined
    | some renameDirInode =>
      quiet (renameInto delDirInode delEntry isdelete renameDirInode (← quiet (lift fName.cstr)))

def doRenameLogged (fromPath toPath : List UInt8) : Copying ℤ := do
  let (fName,dName) ← getNameFromPathLogged fromPath
  let (res,delDir) ← lab4ReadInodeLogged (← quiet (lift dName.cstr)) none
  if res = lab4Error then return lab4Error
  if res = -enoent then return -enoent
  match delDir with
  | none => quiet undefined
  | some delDirInode =>
    let (res,delEntry,isdelete) ← quiet (lab4Lookup delDirInode.iIno DirEntry.zero (← quiet (lift fName.cstr)) 1)
    if res = lab4Error then return lab4Error
    if res = -enoent then return -enoent
    renameTargetLogged delDirInode delEntry isdelete fName toPath

def lab4DoOpenLogged (path : List UInt8) (flags mode : ℕ) : Copying ℤ := do
  if doPathCheck path = lab4Error then return lab4Error
  let (fName,dName) ← getNameFromPathLogged path
  let (res,parentInode) ← lab4ReadInodeLogged (← quiet (lift dName.cstr)) none
  if res = -enoent then return res
  if res = lab4Error then return res
  match parentInode with
  | none => quiet undefined
  | some parentInode => quiet (doOpenfile parentInode (← quiet (lift fName.cstr)) flags mode)

def doUtimensLogged (path : List UInt8) (atime mtime : ℤ) : Copying ℤ := do
  if path = [slash] then return lab4Success
  if doPathCheck path = lab4Error then return lab4Error
  let _ ← getNameFromPathLogged path
  let (res,inode) ← lab4ReadInodeLogged path none
  if res = lab4Error then return lab4Error
  if res = -enoent then return -enoent
  match inode with
  | none => quiet undefined
  | some inode =>
    let _copy := { inode with iAtime := UInt32.ofNat (toU32 atime), iMtime := UInt32.ofNat (toU32 mtime) }
    return lab4Success

inductive PathCall
  | mkdir (path : List UInt8)
  | unlink (path : List UInt8)
  | rmdir (path : List UInt8)
  | rename (fromPath toPath : List UInt8)
  | doOpen (path : List UInt8) (flags mode : ℕ)
  | utimens (path : List UInt8) (atime mtime : ℤ)

namespace PathCall

def run : PathCall → M ℤ
  | mkdir path => lab4Mkdir path
  | unlink path => lab4Unlink path
  | rmdir path => lab4Rmdir path
  | rename fromPath toPath => doRename fromPath toPath
  | doOpen path flags mode => lab4DoOpen path flags mode
  | utimens path atime mtime => doUtimens path atime mtime

def logged : PathCall → Copying ℤ
  | mkdir path => wrapperLogged mkdirIn path
  | unlink path => wrapperLogged unlinkIn path
  | rmdir path => wrapperLogged rmdirIn path
  | rename fromPath toPath => doRenameLogged fromPath toPath
  | doOpen path flags mode => lab4DoOpenLogged path flags mode
  | utimens path atime mtime => doUtimensLogged path atime mtime

def paths : PathCall → List (List UInt8)
  | mkdir path => [path]
  | unlink path => [path]
  | rmdir path => [path]
  | rename fromPath toPath => [fromPath,toPath]
  | doOpen path _ _ => [path]
  | utimens path _ _ => [path]

/-- `do_path_check` lets every path of the call through. -/
def Accepted (c : PathCall) : Prop := ∀ path ∈ c.paths, doPathCheck path = lab4Success

/-- Every copy stays inside its buffer, both names end in one, and a component that no entry can hold is refused. -/
structure Safe (c : PathCall) (e : Env) (s : Sys) : Prop where
  inside : ∀ w ∈ c.logged.log e s, w.copy.Inside
  terminated : ∀ w ∈ c.logged.log e s, w.dest = .name → w.copy.Terminated
  refuses : (∃ path ∈ c.paths, ∃ x ∈ strtok path, fnameSize ≤ x.length) →
    ∃ r s', c.run e s = some (r,s') ∧ r < 0 ∧ s'.iom = s.iom

end PathCall

variable {c : PathCall} {e : Env} {s s' : Sys} {path : List UInt8} {r : ℤ}

/-! ## Without the log -/

theorem erase_getNameFromPath : (getNameFromPathLogged path).erase = getNameFromPath path := by
  unfold getNameFromPathLogged
  refine erase_bind_of rfl (fun ok => ?_)
  rw [erase_tell]
  refine erase_ite_of rfl ?_
  rw [erase_tell]
  refine erase_bind_of rfl (fun fName => erase_ite_of ?_ rfl)
  rw [erase_tell]
  exact erase_bind_of rfl (fun _ => rfl)

theorem erase_lab4ReadInode {v : Option Inode} : (lab4ReadInodeLogged path v).erase = lab4ReadInode path v := by
  unfold lab4ReadInodeLogged
  refine erase_bind_of rfl (fun m => erase_ite_of (erase_bind_of rfl (fun _ => rfl)) ?_)
  rw [erase_tell]
  refine erase_ite_of rfl (erase_bind_of rfl ?_)
  rintro ⟨res,curIno⟩
  exact erase_ite_of rfl (erase_ite_of rfl (erase_bind_of rfl (fun _ => rfl)))

theorem erase_splitParent : (splitParentLogged path).erase = splitParent path := by
  refine erase_bind_of erase_getNameFromPath ?_
  rintro ⟨fName,dName⟩
  exact erase_bind_of rfl (fun d => erase_bind_of erase_lab4ReadInode (fun _ => rfl))

theorem erase_wrapper {f : List UInt8 → M ℤ} {rest : ℤ → Option Inode → NameBuf → M ℤ}
    (hf : f path = if doPathCheck path = lab4Error then pure lab4Error else
      splitParent path >>= fun p => rest p.1 p.2.1 p.2.2) : (wrapperLogged rest path).erase = f path := by
  rw [hf]
  exact erase_ite_of rfl (erase_bind_of erase_splitParent (fun _ => rfl))

theorem erase_renameTarget {v : Inode} {d : DirEntry} {isdelete : ℤ} {f : NameBuf} :
    (renameTargetLogged v d isdelete f path).erase = renameTarget v d isdelete f path := by
  unfold renameTargetLogged renameTarget
  refine erase_bind_of erase_lab4ReadInode ?_
  rintro ⟨res,renameDir⟩
  refine erase_ite_of rfl (erase_ite_of (erase_bind_of erase_getNameFromPath ?_) ?_)
  · rintro ⟨fName,dName⟩
    refine erase_bind_of rfl (fun d => erase_bind_of erase_lab4ReadInode ?_)
    rintro ⟨_,renameDir⟩
    cases renameDir with
    | none => rfl
    | some y => exact erase_bind_of rfl (fun f => erase_ite_of (erase_bind_of rfl (fun _ => rfl)) rfl)
  · cases renameDir with
    | none => rfl
    | some y => exact erase_bind_of rfl (fun f => rfl)

theorem erase_doRename {fromPath toPath : List UInt8} : (doRenameLogged fromPath toPath).erase = doRename fromPath toPath := by
  unfold doRenameLogged doRename
  refine erase_bind_of erase_getNameFromPath ?_
  rintro ⟨fName,dName⟩
  refine erase_bind_of rfl (fun d => erase_bind_of erase_lab4ReadInode ?_)
  rintro ⟨res,delDir⟩
  refine erase_ite_of rfl (erase_ite_of rfl ?_)
  cases delDir with
  | none => rfl
  | some v =>
    refine erase_bind_of rfl (fun f => erase_bind_of rfl ?_)
    rintro ⟨res,delEntry,isdelete⟩
    exact erase_ite_of rfl (erase_ite_of rfl erase_renameTarget)

theorem erase_lab4DoOpen {flags mode : ℕ} : (lab4DoOpenLogged path flags mode).erase = lab4DoOpen path flags mode := by
  unfold lab4DoOpenLogged lab4DoOpen
  refine erase_ite_of rfl (erase_bind_of erase_getNameFromPath ?_)
  rintro ⟨fName,dName⟩
  refine erase_bind_of rfl (fun d => erase_bind_of erase_lab4ReadInode ?_)
  rintro ⟨res,parentInode⟩
  refine erase_ite_of rfl (erase_ite_of rfl ?_)
  cases parentInode with
  | none => rfl
  | some v => exact erase_bind_of rfl (fun f => rfl)

theorem erase_doUtimens {atime mtime : ℤ} : (doUtimensLogged path atime mtime).erase = doUtimens path atime mtime := by
  unfold doUtimensLogged doUtimens
  refine erase_ite_of rfl (erase_ite_of rfl (erase_bind_of erase_getNameFromPath (fun _ => erase_bind_of erase_lab4ReadInode ?_)))
  rintro ⟨res,inode⟩
  refine erase_ite_of rfl (erase_ite_of rfl ?_)
  cases inode with
  | none => rfl
  | some v => rfl

/-- Without its log a call is the call. -/
theorem PathCall.erase_logged (c : PathCall) : c.logged.erase = c.run := by
  cases c with
  | mkdir path => exact erase_wrapper (f := lab4Mkdir) rfl
  | unlink path => exact erase_wrapper (f := lab4Unlink) rfl
  | rmdir path => exact erase_wrapper (f := lab4Rmdir) rfl
  | rename fromPath toPath => exact erase_doRename
  | doOpen path flags mode => exact erase_lab4DoOpen
  | utimens path atime mtime => exact @erase_doUtimens path atime mtime

/-! ## The allocation -/

/-- The terminator is one character too many. -/
theorem not_inside_heapCopy {ok : Bool} : ¬(heapCopy ok (heapPath path)).copy.Inside := by
  rw [Copy.inside_iff]
  unfold heapCopy PathBuf.copied heapPath
  cases ok <;> simp

/-- Wherever a path is split, the first copy is the one to the allocation. -/
theorem getNameFromPath_heapCopy (path : List UInt8) (e : Env) (s : Sys) :
    ∃ ok, heapCopy ok (heapPath path) ∈ (getNameFromPathLogged path).log e s := by
  refine ⟨!e.mallocFails s.clock,?_⟩
  unfold getNameFromPathLogged
  rw [log_bind_of_eq (show (quiet malloc : Copying Bool).erase e s = some (!e.mallocFails s.clock,s.next) from rfl), log_tell]
  exact List.mem_append_right _ List.mem_cons_self

theorem mem_log_checked {β : Type} {x : Copying β} {w : PathCopy} {y : β} (hc : doPathCheck path = lab4Success)
    (h : w ∈ x.log e s) : w ∈ (if doPathCheck path = lab4Error then Pure.pure y else x).log e s := by
  rwa [if_neg (by rw [hc]; decide)]

/-- A call that splits a path makes that copy: all do, except one that is given the root and does not look at it. -/
theorem PathCall.exists_heapCopy (hc : c.Accepted) (hn : ¬∃ atime mtime, c = .utimens [slash] atime mtime) :
    ∃ path ok, heapCopy ok (heapPath path) ∈ c.logged.log e s := by
  have hwrapper : ∀ (rest : ℤ → Option Inode → NameBuf → M ℤ) path, doPathCheck path = lab4Success →
      ∃ ok, heapCopy ok (heapPath path) ∈ (wrapperLogged rest path).log e s := by
    intro rest path hp
    obtain ⟨ok,h⟩ := getNameFromPath_heapCopy path e s
    exact ⟨ok,mem_log_checked hp (mem_log_bind (mem_log_bind h))⟩
  cases c with
  | mkdir path => exact ⟨path,hwrapper mkdirIn path (hc path (List.mem_singleton_self _))⟩
  | unlink path => exact ⟨path,hwrapper unlinkIn path (hc path (List.mem_singleton_self _))⟩
  | rmdir path => exact ⟨path,hwrapper rmdirIn path (hc path (List.mem_singleton_self _))⟩
  | rename fromPath toPath =>
    obtain ⟨ok,h⟩ := getNameFromPath_heapCopy fromPath e s
    exact ⟨fromPath,ok,mem_log_bind h⟩
  | doOpen path flags mode =>
    obtain ⟨ok,h⟩ := getNameFromPath_heapCopy path e s
    exact ⟨path,ok,mem_log_checked (hc path (List.mem_singleton_self _)) (mem_log_bind h)⟩
  | utimens path atime mtime =>
    obtain ⟨ok,h⟩ := getNameFromPath_heapCopy path e s
    have hp : path ≠ [slash] := fun hp => hn ⟨atime,mtime,by rw [hp]⟩
    refine ⟨path,ok,?_⟩
    change _ ∈ (doUtimensLogged path atime mtime).log e s
    unfold doUtimensLogged
    rw [if_neg hp]
    exact mem_log_checked (hc path (List.mem_singleton_self _)) (mem_log_bind h)

/-- The copies of a call are safe exactly when it makes none: when it sets the times of the root. -/
theorem path_copies_safe_iff (hc : c.Accepted) : c.Safe e s ↔ ∃ atime mtime, c = .utimens [slash] atime mtime := by
  constructor
  · intro h
    by_contra hn
    obtain ⟨path,ok,hw⟩ := PathCall.exists_heapCopy hc hn
    exact not_inside_heapCopy (h.inside _ hw)
  · rintro ⟨atime,mtime,rfl⟩
    have hlog : (PathCall.utimens [slash] atime mtime).logged.log e s = [] := rfl
    refine ⟨?_,?_,?_⟩
    · rw [hlog]
      exact fun w hw => nomatch hw
    · rw [hlog]
      exact fun w hw => nomatch hw
    · rintro ⟨path,hp,x,hx,_⟩
      obtain rfl := List.mem_singleton.mp hp
      cases hx

/-! ## The other buffers -/

/-- A copy to a name buffer or to the walker's buffer stays inside it; if `u`, a name keeps its terminator. -/
structure PathCopy.Sound (u : Prop) (w : PathCopy) : Prop where
  inside : w.dest ≠ .heap → w.copy.Inside
  terminated : u → w.dest = .name → w.copy.Terminated

theorem heapCopy_sound {u : Prop} {ok : Bool} {b : PathBuf} : (heapCopy ok b).Sound u :=
  ⟨fun h => absurd rfl h,fun _ h => nomatch h⟩

theorem PathOk.length_lt (h : PathOk path) : path.length < 256 ∧ (dirName path).length < 256 := by
  have hlen : path.length = (dirName path).length + ((lastName path).length + 1) := by
    have hsplit := congrArg List.length (path_split h.slash).1
    rwa [List.length_append, List.length_cons] at hsplit
  have hlast := h.last
  have hdir := h.dir
  unfold fnameSize at hlast hdir
  omega

/-- What is read behind a split is the directory part. -/
theorem dirPart_eq {f d : NameBuf} {x : List UInt8} {e' : Env} {s1 s2 s3 : Sys}
    (hname : (getNameFromPathLogged path).erase e s = some ((f,d),s1))
    (hx : (quiet (lift d.cstr) : Copying (List UInt8)).erase e' s2 = some (x,s3)) : x = dirName path := by
  rw [erase_getNameFromPath] at hname
  have hd : d.bytes = dirName path :=
    (wp_getNameFromPath (u := True) (Q := fun p _ => p.2.bytes = dirName path) (fun _ => trivial)
      (fun _ _ _ _ _ _ hd => hd)).elim hname
  obtain ⟨y,hy,heq⟩ := Option.map_eq_some_iff.mp hx
  obtain ⟨rfl,_⟩ := Prod.mk.inj heq
  exact (NameBuf.cstr_eq_some hy).1.trans hd

section Buffers
variable {u : Prop}

/-- The copy that is too long ends the run. -/
theorem sound_name {bytes : List UInt8} {β : Type} {g : NameBuf → Copying β} (h : u → bytes.length < fnameSize) (e s)
    (hrun : (quiet (lift (NameBuf.copy bytes)) >>= g : Copying β).erase e s ≠ none ∨ u) :
    PathCopy.Sound u ⟨.name,NameBuf.copied bytes⟩ := by
  refine ⟨fun _ => Copy.inside_iff.mpr ?_,fun hu _ => h hu⟩
  rcases hrun with hrun | hu
  · by_contra hlong
    have hnone : NameBuf.copy bytes = none := dif_neg hlong
    rw [hnone] at hrun
    exact hrun rfl
  · exact (h hu).le

theorem logs_lab4ReadInode {v : Option Inode} (h : u → path.length < 256) :
    Logs u (PathCopy.Sound u) (lab4ReadInodeLogged path v) := by
  unfold lab4ReadInodeLogged
  refine .bind (.quiet _) (fun m _ _ _ _ => .ite (fun _ => .bind (.quiet _) (fun _ _ _ _ _ => .pure _)) (fun _ => ?_))
  refine .tell (fun e s hrun => ⟨fun _ => Copy.inside_iff.mpr ?_,fun _ hn => nomatch hn⟩)
    (.ite (fun _ => .quiet _) (fun _ => .bind (.quiet _) ?_))
  · rcases hrun with hrun | hu
    · by_contra hlong
      have hle : (stackPath path).cap ≤ (stackPath path).text.length := Nat.not_lt.mp hlong
      rw [if_pos hle] at hrun
      exact hrun rfl
    · exact h hu
  · rintro ⟨res,curIno⟩ _ _ _ _
    exact .ite (fun _ => .pure _) (fun _ => .ite (fun _ => .pure _) (fun _ => .bind (.quiet _) (fun _ _ _ _ _ => .pure _)))

variable (h : u → PathOk path)
include h

theorem logs_getNameFromPath : Logs u (PathCopy.Sound u) (getNameFromPathLogged path) := by
  unfold getNameFromPathLogged
  refine .bind (.quiet _) (fun ok _ _ _ _ => .tell (fun _ _ _ => heapCopy_sound) (.ite (fun _ => .quiet _) (fun _ => ?_)))
  refine .tell (sound_name fun hu => (h hu).last) (.bind (.quiet _) (fun fName _ _ _ _ => .ite (fun _ => ?_) (fun _ => .quiet _)))
  exact .tell (sound_name fun hu => (h hu).dir) (.bind (.quiet _) (fun _ _ _ _ _ => .pure _))

/-- The lookup of the parent behind a split. -/
theorem logs_readParent {f d : NameBuf} {v : Option Inode} {s1 : Sys} {β : Type} {g : ℤ × Option Inode → Copying β}
    (hname : (getNameFromPathLogged path).erase e s = some ((f,d),s1)) (hg : ∀ p, Logs u (PathCopy.Sound u) (g p)) :
    Logs u (PathCopy.Sound u) (quiet (lift d.cstr) >>= fun x => lab4ReadInodeLogged x v >>= g) := by
  refine .bind (.quiet _) (fun x _ _ _ hx => ?_)
  obtain rfl := dirPart_eq hname hx
  exact .bind (logs_lab4ReadInode fun hu => (h hu).length_lt.2) (fun p _ _ _ _ => hg p)

theorem logs_wrapper {rest : ℤ → Option Inode → NameBuf → M ℤ} : Logs u (PathCopy.Sound u) (wrapperLogged rest path) := by
  refine .ite (fun _ => .pure _) (fun _ => .bind (.bind (logs_getNameFromPath h) ?_) (fun _ _ _ _ _ => .quiet _))
  rintro ⟨f,d⟩ _ _ _ hname
  exact logs_readParent h hname (fun _ => .pure _)

theorem logs_renameTarget {v : Inode} {d : DirEntry} {isdelete : ℤ} {f : NameBuf} :
    Logs u (PathCopy.Sound u) (renameTargetLogged v d isdelete f path) := by
  unfold renameTargetLogged
  refine .bind (logs_lab4ReadInode fun hu => (h hu).length_lt.1) ?_
  rintro ⟨res,renameDir⟩ _ _ _ _
  refine .ite (fun _ => .pure _) (fun _ => .ite (fun _ => .bind (logs_getNameFromPath h) ?_) (fun _ => ?_))
  · rintro ⟨fName,dName⟩ _ _ _ hname
    refine logs_readParent h hname ?_
    rintro ⟨_,renameDir⟩
    cases renameDir with
    | none => exact .quiet _
    | some y =>
      exact .bind (.quiet _) (fun f _ _ _ _ => .ite (fun _ => .bind (.quiet _) (fun _ _ _ _ _ => .pure _)) (fun _ => .quiet _))
  · cases renameDir with
    | none => exact .quiet _
    | some y => exact .bind (.quiet _) (fun _ _ _ _ _ => .quiet _)

theorem logs_doRename {toPath : List UInt8} (hto : u → PathOk toPath) :
    Logs u (PathCopy.Sound u) (doRenameLogged path toPath) := by
  unfold doRenameLogged
  refine .bind (logs_getNameFromPath h) ?_
  rintro ⟨fName,dName⟩ _ _ _ hname
  refine logs_readParent h hname ?_
  rintro ⟨res,delDir⟩
  refine .ite (fun _ => .pure _) (fun _ => .ite (fun _ => .pure _) (fun _ => ?_))
  cases delDir with
  | none => exact .quiet _
  | some v =>
    refine .bind (.quiet _) (fun f _ _ _ _ => .bind (.quiet _) ?_)
    rintro ⟨res,delEntry,isdelete⟩ _ _ _ _
    exact .ite (fun _ => .pure _) (fun _ => .ite (fun _ => .pure _) (fun _ => logs_renameTarget hto))

theorem logs_lab4DoOpen {flags mode : ℕ} : Logs u (PathCopy.Sound u) (lab4DoOpenLogged path flags mode) := by
  unfold lab4DoOpenLogged
  refine .ite (fun _ => .pure _) (fun _ => .bind (logs_getNameFromPath h) ?_)
  rintro ⟨fName,dName⟩ _ _ _ hname
  refine logs_readParent h hname ?_
  rintro ⟨res,parentInode⟩
  refine .ite (fun _ => .pure _) (fun _ => .ite (fun _ => .pure _) (fun _ => ?_))
  cases parentInode with
  | none => exact .quiet _
  | some v => exact .bind (.quiet _) (fun _ _ _ _ _ => .quiet _)

theorem logs_doUtimens {atime mtime : ℤ} : Logs u (PathCopy.Sound u) (doUtimensLogged path atime mtime) := by
  unfold doUtimensLogged
  refine .ite (fun _ => .pure _) (fun _ => .ite (fun _ => .pure _) (fun _ => .bind (logs_getNameFromPath h) (fun _ _ _ _ _ =>
    .bind (logs_lab4ReadInode fun hu => (h hu).length_lt.1) ?_)))
  rintro ⟨res,inode⟩ _ _ _ _
  refine .ite (fun _ => .pure _) (fun _ => .ite (fun _ => .pure _) (fun _ => ?_))
  cases inode with
  | none => exact .quiet _
  | some v => exact .pure _

end Buffers

theorem PathCall.logs {u : Prop} (h : u → ∀ path ∈ c.paths, PathOk path) : Logs u (PathCopy.Sound u) c.logged := by
  cases c with
  | mkdir path => exact logs_wrapper fun hu => h hu path (List.mem_singleton_self _)
  | unlink path => exact logs_wrapper fun hu => h hu path (List.mem_singleton_self _)
  | rmdir path => exact logs_wrapper fun hu => h hu path (List.mem_singleton_self _)
  | rename fromPath toPath =>
    exact logs_doRename (fun hu => h hu fromPath (by simp [paths])) (fun hu => h hu toPath (by simp [paths]))
  | doOpen path flags mode => exact logs_lab4DoOpen fun hu => h hu path (List.mem_singleton_self _)
  | utimens path atime mtime =>
    exact @logs_doUtimens path _ (fun hu => h hu path (List.mem_singleton_self _)) atime mtime

/-- A run that the model follows copies nothing outside the name buffers and the walker's buffer. -/
theorem PathCall.inside_of_run (h : c.run e s = some (r,s')) : ∀ w ∈ c.logged.log e s, w.dest ≠ .heap → w.copy.Inside := by
  have hrun : c.logged.erase e s ≠ none := by
    rw [c.erase_logged, h]
    exact Option.some_ne_none _
  exact fun w hw => (PathCall.logs (u := False) (fun hu => hu.elim) e s (.inl hrun) w hw).inside

/-- With parts shorter than the name buffers every copy but those to the allocation is safe, whatever the run does. -/
theorem PathCall.sound_of_short (h : ∀ path ∈ c.paths, PathOk path) : ∀ w ∈ c.logged.log e s, w.Sound True :=
  PathCall.logs (fun _ => h) e s (.inr trivial)

/-! ## Two calls -/

/-- `mkdir("/a")` on a new file system. -/
theorem path_copies_not_safe : ∃ s0, formatAndMount quietEnv (blankDisk 80) = some (true,s0) ∧
    (PathCall.mkdir [47,97]).Accepted ∧ ¬(PathCall.mkdir [47,97]).Safe quietEnv s0 := by
  obtain ⟨s0,hrun,_⟩ := blankDisk_whole
  have hc : (PathCall.mkdir [47,97]).Accepted := by
    intro path hp
    obtain rfl := List.mem_singleton.mp hp
    rfl
  obtain ⟨path,ok,hw⟩ := PathCall.exists_heapCopy (e := quietEnv) (s := s0) hc (by rintro ⟨_,_,h⟩; cases h)
  exact ⟨s0,hrun,hc,fun h => not_inside_heapCopy (h.inside _ hw)⟩

theorem path_copies_safe_iff_blank : ∃ s0, formatAndMount quietEnv (blankDisk 80) = some (true,s0) ∧
    (PathCall.utimens [47] 1 2).Accepted ∧ (PathCall.utimens [47] 1 2).Safe quietEnv s0 := by
  obtain ⟨s0,hrun,_⟩ := blankDisk_whole
  have hc : (PathCall.utimens [47] 1 2).Accepted := by
    intro path hp
    obtain rfl := List.mem_singleton.mp hp
    rfl
  exact ⟨s0,hrun,hc,(path_copies_safe_iff hc).mpr ⟨1,2,rfl⟩⟩

end SimpleFS
