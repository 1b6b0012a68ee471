import SimpleFS.Consistency
import SimpleFS.Machine.Observing

/-! # Splitting a path and walking it

`get_name_from_path` cuts a path at its last slash with `strchr`, `lab4_read_inode` cuts it at every slash
with `strtok`. Resolving the whole path and resolving the directory part first, then looking up the last
component in the directory found, come to the same. No volume invariant is used: the walk is followed as a
function of the io manager, undefined runs and failing devices included.
-/
namespace SimpleFS
open Bytes Machine Prog

/-- Allocations succeed and the device either works or does not. -/
structure Env.Uniform (e : Env) : Prop where
  malloc : e.MallocOk
  io : ∀ t, e.ioFails t = e.ioFails 0

theorem Env.Nominal.uniform {e : Env} (he : e.Nominal) : e.Uniform := ⟨he.malloc,fun t => (he.io t).trans (he.io 0).symm⟩

/-- `k` is behind the reserved numbers, and its record holds it. -/
structure Iom.OwnNumber (m : Iom) (k : UInt32) : Prop where
  lo : 2 ≤ k.toNat
  lt : k.toNat < m.inodeNum
  ino : (m.inode k.toNat).iIno = k

/-- The root and every entry that a lookup can return have their own number in their records. -/
structure Iom.EntriesNumbered (m : Iom) : Prop where
  root : m.OwnNumber m.sbi.rootIno
  entry : ∀ {e : Env} {t : ℕ} {D : UInt32} {fileEntry d : DirEntry} {filename : List UInt8} {isdelete i : ℤ} {s' : Sys},
    lab4Lookup D fileEntry filename isdelete e ⟨m,t⟩ = some ((lab4Success,d,i),s') → m.OwnNumber d.dIno

/-- The record of `f` in the directory `d`: the path to the directory is read, `f` is looked up in it, and the
record of the entry is read. -/
def readThrough (d f : List UInt8) (fileEntry : DirEntry) (isdelete : ℤ) : M (ℤ × Option Inode) := do
  let (res,dirInode) ← lab4ReadInode d none
  if res = lab4Error then return (lab4Error,none)
  if res = -enoent then return (-enoent,none)
  match dirInode with
  | none => undefined
  | some dirInode =>
    let (res,entry,_) ← lab4Lookup dirInode.iIno fileEntry f isdelete
    if res = lab4Error then return (lab4Error,none)
    if res = -enoent then return (-enoent,none)
    return (lab4Success,← doReadInode entry.dIno)

variable {e : Env} {m : Iom} {s : Sys} {D k : UInt32} {filename x : List UInt8} {names : List (List UInt8)} {r : ℤ}
  {fileEntry : DirEntry} {isdelete : ℤ}

/-! ## Looking -/

/-- The block that a lookup in record `D` reads. -/
def Iom.readBlock (m : Iom) (D : UInt32) : Mem :=
  splice zeros 0 m.clusterSize (m.dev.bytes.shift (m.inode D.toNat).blocknr.toNat)

/-- The transfer of that block fails, or its length is taken for a failure. -/
def Iom.Unread (e : Env) (m : Iom) (D : UInt32) : Prop :=
  (m.inode D.toNat).blocknr < 0 ∨ e.ioFails 0 = true ∨ toS32 m.clusterSize = lab4Error

instance : Decidable (m.Unread e D) := inferInstanceAs (Decidable (_ ∨ _ ∨ _))

/-- The slot `lab4_lookup` finds or the error it returns. -/
def Iom.lookupIn (e : Env) (m : Iom) (D : UInt32) (filename : List UInt8) : Option (Except ℤ ℕ) :=
  if D.toNat < lab4RootIno then some (.error lab4Error)
  else if m.inodeNum ≤ D.toNat then none
  else if m.Unread e D then some (.error lab4Error)
  else (slotLoop (lookupTest filename) (m.inode D.toNat).iSize.toInt (m.readBlock D) (m.clusterSize / lab4DirEntrySize) 0).map
    (fun p => if p.1 = true then .ok p.2 else .error (-enoent))

/-- The three out-values. -/
def Iom.lookupOut (m : Iom) (D : UInt32) (fileEntry : DirEntry) (isdelete : ℤ) : Except ℤ ℕ → ℤ × DirEntry × ℤ
  | .error r => (r,fileEntry,isdelete)
  | .ok i =>
    if isdelete = 1 then (lab4Success,(entryAt (m.readBlock D) i).deleted,toS32 (lab4DirEntrySize * i : ℕ))
    else (lab4Success,entryAt (m.readBlock D) i,-1)

theorem observes_getIom : Observes Sys.iom e getIom some := fun _ => rfl

theorem observes_doReadInode (he : e.Uniform) (D : UInt32) : Observes Sys.iom e (doReadInode D) (fun m =>
    if D.toNat < lab4RootIno then some none else if m.inodeNum ≤ D.toNat then none else some (some (m.inode D.toNat))) := by
  intro s
  by_cases hlo : D.toNat < lab4RootIno
  · simp [doReadInode,hlo]
  · by_cases hhi : s.iom.inodeNum ≤ D.toNat
    · simp [doReadInode,malloc,getIom,he.malloc s.clock,hlo,hhi]
    · simp [doReadInode,malloc,getIom,he.malloc s.clock,hlo,hhi]

theorem observes_lab4Lookup (he : e.Uniform) (D : UInt32) (fileEntry : DirEntry) (filename : List UInt8) (isdelete : ℤ) :
    Observes Sys.iom e (lab4Lookup D fileEntry filename isdelete)
      (fun m => (m.lookupIn e D filename).map (m.lookupOut D fileEntry isdelete)) := by
  intro s
  by_cases hlo : D.toNat < lab4RootIno
  · simp [lab4Lookup,doReadInode,Iom.lookupIn,Iom.lookupOut,hlo]
  have hfirst : e.mallocFails s.clock = false := he.malloc _
  by_cases hhi : s.iom.inodeNum ≤ D.toNat
  · simp [lab4Lookup,doReadInode,malloc,getIom,Iom.lookupIn,hfirst,hlo,hhi]
  have hsecond : e.mallocFails s.next.clock = false := he.malloc _
  have hio : e.ioFails s.next.next.clock = e.ioFails 0 := he.io _
  by_cases hneg : (s.iom.inode D.toNat).blocknr < 0 ∨ e.ioFails 0 = true
  · have hun : s.iom.Unread e D := hneg.imp_right .inl
    simp [lab4Lookup,doReadInode,malloc,getIom,pread,Iom.lookupIn,Iom.lookupOut,hfirst,hsecond,hio,hlo,hhi,hneg,hun]
  by_cases hcs : toS32 s.iom.clusterSize = lab4Error
  · have hun : s.iom.Unread e D := .inr (.inr hcs)
    simp [lab4Lookup,doReadInode,malloc,getIom,pread,Iom.lookupIn,Iom.lookupOut,hfirst,hsecond,hio,hlo,hhi,hneg,hun,hcs]
  have hun : ¬s.iom.Unread e D := by
    rintro (h | h | h)
    · exact hneg (.inl h)
    · exact hneg (.inr h)
    · exact hcs h
  -- the block is in the buffer
  cases hscan : slotLoop (lookupTest filename) (s.iom.inode D.toNat).iSize.toInt (splice zeros 0 s.iom.clusterSize
      (s.iom.dev.bytes.shift (s.iom.inode D.toNat).blocknr.toNat)) (s.iom.clusterSize / lab4DirEntrySize) 0 with
  | none =>
    simp [lab4Lookup,doReadInode,malloc,getIom,pread,Iom.lookupIn,Iom.readBlock,hfirst,hsecond,hio,hlo,hhi,hneg,hun,hcs,hscan]
  | some p =>
    obtain ⟨found,i⟩ := p
    cases found with
    | false =>
      simp [lab4Lookup,doReadInode,malloc,getIom,pread,Iom.lookupIn,Iom.lookupOut,Iom.readBlock,hfirst,hsecond,hio,hlo,hhi,
        hneg,hun,hcs,hscan]
    | true =>
      by_cases hd : isdelete = 1
      · simp [lab4Lookup,doReadInode,malloc,getIom,pread,Iom.lookupIn,Iom.lookupOut,Iom.readBlock,DirEntry.deleted,hfirst,
          hsecond,hio,hlo,hhi,hneg,hun,hcs,hscan,hd]
      · simp [lab4Lookup,doReadInode,malloc,getIom,pread,Iom.lookupIn,Iom.lookupOut,Iom.readBlock,hfirst,hsecond,hio,hlo,hhi,
          hneg,hun,hcs,hscan,hd]

theorem lookupIn_error (h : m.lookupIn e D filename = some (.error r)) : r = lab4Error ∨ r = -enoent := by
  unfold Iom.lookupIn at h
  split at h
  · cases h
    exact .inl rfl
  split at h
  · cases h
  split at h
  · cases h
    exact .inl rfl
  obtain ⟨⟨found,i⟩,_,hp⟩ := Option.map_eq_some_iff.mp h
  cases found with
  | false =>
    cases hp
    exact .inr rfl
  | true => cases hp

/-- An entry that a lookup finds is numbered. -/
theorem Iom.EntriesNumbered.found (h : m.EntriesNumbered) (he : e.Uniform) {i : ℕ}
    (hl : m.lookupIn e D filename = some (.ok i)) : m.OwnNumber (entryAt (m.readBlock D) i).dIno := by
  have hout : ((m.lookupIn e D filename).map (m.lookupOut D DirEntry.zero 0)) =
      some (lab4Success,entryAt (m.readBlock D) i,-1) := by
    simp [hl,Iom.lookupOut]
  have hobs := observes_lab4Lookup he D DirEntry.zero filename 0
  have hrun := hobs.run (s := ⟨m,0⟩) (v := m) (a := (lab4Success,entryAt (m.readBlock D) i,-1)) rfl
  obtain ⟨s',hs',_⟩ := hrun hout
  exact h.entry hs'

/-! ## Walking -/

/-- What `lab4_read_inode` gets from the components of the path: the result and the last number. -/
def Iom.walkIn (e : Env) (m : Iom) : List (List UInt8) → UInt32 → Option (ℤ × UInt32)
  | [], D => some (lab4Success,D)
  | filename :: rest, D =>
    (m.lookupIn e D filename).bind (fun o => match o with
      | .error r => some (r,D)
      | .ok i => m.walkIn e rest (entryAt (m.readBlock D) i).dIno)

theorem lookupOut_keep (hd : isdelete ≠ 1) (i : ℕ) :
    m.lookupOut D fileEntry isdelete (.ok i) = (lab4Success,entryAt (m.readBlock D) i,-1) := if_neg hd

theorem observes_walkPath (he : e.Uniform) (hd : isdelete ≠ 1) :
    Observes Sys.iom e (walkPath names D isdelete) (fun m => m.walkIn e names D) := by
  induction names generalizing D isdelete with
  | nil => exact Observes.pure _
  | cons filename rest ih =>
    refine ((observes_lab4Lookup he D DirEntry.zero filename isdelete).bind (g := fun o m =>
      if o.1 = lab4Error then some (lab4Error,D) else if o.1 = -enoent then some (-enoent,D)
      else m.walkIn e rest o.2.1.dIno) (fun m o ho => ?_)).congr (fun m => ?_)
    · obtain ⟨res,entry,isdelete'⟩ := o
      refine Observes.ite _ (fun _ => Observes.pure _) (fun h1 => Observes.ite _ (fun _ => Observes.pure _) (fun h2 => ih ?_))
      obtain ⟨out,hl,hout⟩ := Option.map_eq_some_iff.mp ho
      cases out with
      | error r =>
        cases hout
        rcases lookupIn_error hl with rfl | rfl
        · exact absurd rfl h1
        · exact absurd rfl h2
      | ok i =>
        rw [lookupOut_keep hd] at hout
        cases hout
        decide
    · rw [Iom.walkIn]
      cases hl : m.lookupIn e D filename with
      | none => rfl
      | some out =>
        cases out with
        | error r => rcases lookupIn_error hl with rfl | rfl <;> rfl
        | ok i => simp [lookupOut_keep hd,lab4Success,lab4Error,enoent]

/-- A walk ends in one of three ways. -/
theorem walkIn_result (h : m.walkIn e names D = some (r,k)) : r = lab4Success ∨ r = lab4Error ∨ r = -enoent := by
  induction names generalizing D with
  | nil =>
    cases h
    exact .inl rfl
  | cons filename rest ih =>
    rw [Iom.walkIn] at h
    obtain ⟨out,hl,hout⟩ := Option.bind_eq_some_iff.mp h
    cases out with
    | error r' =>
      cases hout
      exact .inr (lookupIn_error hl)
    | ok i => exact ih hout

/-- A walk along one more component goes on from the last number. -/
theorem walkIn_append (x : List UInt8) : m.walkIn e (names ++ [x]) D =
    (m.walkIn e names D).bind (fun p => if p.1 = lab4Success then m.walkIn e [x] p.2 else some p) := by
  induction names generalizing D with
  | nil => rfl
  | cons filename rest ih =>
    rw [List.cons_append, Iom.walkIn, Iom.walkIn]
    cases hl : m.lookupIn e D filename with
    | none => rfl
    | some out =>
      cases out with
      | error r => rcases lookupIn_error hl with rfl | rfl <;> rfl
      | ok i => exact ih

/-- Where numbers are their records' own, a walk ends at such a number. -/
theorem Iom.EntriesNumbered.walked (h : m.EntriesNumbered) (he : e.Uniform) (hD : m.OwnNumber D)
    (hw : m.walkIn e names D = some (lab4Success,k)) : m.OwnNumber k := by
  induction names generalizing D with
  | nil =>
    cases hw
    exact hD
  | cons filename rest ih =>
    rw [Iom.walkIn] at hw
    obtain ⟨out,hl,hout⟩ := Option.bind_eq_some_iff.mp hw
    cases out with
    | error r =>
      cases hout
      rcases lookupIn_error hl with hr | hr <;> exact absurd hr (by decide)
    | ok i => exact ih (h.found he hl) hout

/-! ## Reading the record of a path -/

/-- The copy that `do_read_inode` makes. -/
def Iom.recordIn (m : Iom) (D : UInt32) : Option (Option Inode) :=
  if D.toNat < lab4RootIno then some none else if m.inodeNum ≤ D.toNat then none else some (some (m.inode D.toNat))

def Iom.readIn (e : Env) (m : Iom) (path : List UInt8) : Option (ℤ × Option Inode) :=
  if 256 ≤ path.length then none
  else (m.walkIn e (strtok path) m.sbi.rootIno).bind (fun p =>
    if p.1 = lab4Success then (m.recordIn p.2).map (fun v => (lab4Success,v)) else some (p.1,none))

theorem Iom.OwnNumber.recordIn (h : m.OwnNumber k) : m.recordIn k = some (some (m.inode k.toNat)) :=
  (if_neg (Nat.not_lt.mpr h.lo)).trans (if_neg (Nat.not_le.mpr h.lt))

theorem observes_record (he : e.Uniform) (D : UInt32) :
    Observes Sys.iom e (do return (lab4Success,← doReadInode D) : M (ℤ × Option Inode))
      (fun m => (m.recordIn D).map (fun v => (lab4Success,v))) :=
  ((observes_doReadInode he D).bind (fun _ v _ => Observes.pure (lab4Success,v))).congr (fun m => by
    rw [← Iom.recordIn]
    cases m.recordIn D <;> rfl)

theorem observes_lab4ReadInode (he : e.Uniform) (path : List UInt8) :
    Observes Sys.iom e (lab4ReadInode path none) (fun m => m.readIn e path) := by
  refine (observes_getIom.bind (g := fun m' m =>
    if path = [slash] then (m.recordIn m'.sbi.rootIno).map (fun v => (lab4Success,v))
    else if 256 ≤ path.length then none
    else (m.walkIn e (strtok path) m'.sbi.rootIno).bind (fun p =>
      if p.1 = lab4Error then some (lab4Error,none) else if p.1 = -enoent then some (-enoent,none)
      else (m.recordIn p.2).map (fun v => (lab4Success,v)))) (fun _ m' _ => ?_)).congr (fun m => ?_)
  · refine Observes.ite _ (fun _ => observes_record he _) (fun _ => Observes.ite _ (fun _ => Observes.undefined) (fun _ => ?_))
    refine (observes_walkPath he (by decide)).bind (fun _ p _ => ?_)
    exact Observes.ite _ (fun _ => Observes.pure _) (fun _ => Observes.ite _ (fun _ => Observes.pure _) (fun _ => observes_record he _))
  · by_cases hp : path = [slash]
    · subst hp
      have hw : m.walkIn e (strtok [slash]) m.sbi.rootIno = some (lab4Success,m.sbi.rootIno) := rfl
      simp [Iom.readIn,hw]
    by_cases hlen : 256 ≤ path.length
    · simp [Iom.readIn,hp,hlen]
    cases hw : m.walkIn e (strtok path) m.sbi.rootIno with
    | none => simp [Iom.readIn,hp,hlen,hw]
    | some p =>
      obtain ⟨r,k⟩ := p
      rcases walkIn_result hw with rfl | rfl | rfl
      · simp [Iom.readIn,hp,hlen,hw,lab4Success,lab4Error,enoent]
      · simp [Iom.readIn,hp,hlen,hw,lab4Success,lab4Error]
      · simp [Iom.readIn,hp,hlen,hw,lab4Success,lab4Error,enoent]

/-- The same for the directory part and the last component. -/
def Iom.throughIn (e : Env) (m : Iom) (d f : List UInt8) : Option (ℤ × Option Inode) :=
  (m.readIn e d).bind (fun p => match p with
    | (r,none) => if r = lab4Success then none else some (r,none)
    | (_,some v) => (m.lookupIn e v.iIno f).bind (fun o => match o with
      | .error r => some (r,none)
      | .ok i => (m.recordIn (entryAt (m.readBlock v.iIno) i).dIno).map (fun w => (lab4Success,w))))

theorem readIn_result {p : ℤ × Option Inode} (h : m.readIn e x = some p) :
    p.1 = lab4Success ∨ p = (lab4Error,none) ∨ p = (-enoent,none) := by
  unfold Iom.readIn at h
  split at h
  · cases h
  obtain ⟨⟨r,k⟩,hw,hp⟩ := Option.bind_eq_some_iff.mp h
  split at hp
  · obtain ⟨v,_,rfl⟩ := Option.map_eq_some_iff.mp hp
    exact .inl rfl
  · next hr =>
    cases hp
    rcases walkIn_result hw with rfl | rfl | rfl
    · exact absurd rfl hr
    · exact .inr (.inl rfl)
    · exact .inr (.inr rfl)

theorem observes_readThrough (he : e.Uniform) (d f : List UInt8) (fileEntry : DirEntry) (isdelete : ℤ) :
    Observes Sys.iom e (readThrough d f fileEntry isdelete) (fun m => m.throughIn e d f) := by
  refine ((observes_lab4ReadInode he d).bind (g := fun p m =>
    if p.1 = lab4Error then some (lab4Error,none) else if p.1 = -enoent then some (-enoent,none)
    else match p.2 with
    | none => none
    | some v => ((m.lookupIn e v.iIno f).map (m.lookupOut v.iIno fileEntry isdelete)).bind (fun o =>
      if o.1 = lab4Error then some (lab4Error,none) else if o.1 = -enoent then some (-enoent,none)
      else (m.recordIn o.2.1.dIno).map (fun w => (lab4Success,w)))) (fun _ p _ => ?_)).congr (fun m => ?_)
  · obtain ⟨r,v⟩ := p
    refine Observes.ite _ (fun _ => Observes.pure _) (fun _ => Observes.ite _ (fun _ => Observes.pure _) (fun _ => ?_))
    cases v with
    | none => exact Observes.undefined
    | some v =>
      refine (observes_lab4Lookup he v.iIno fileEntry f isdelete).bind (fun _ o _ => ?_)
      exact Observes.ite _ (fun _ => Observes.pure _) (fun _ => Observes.ite _ (fun _ => Observes.pure _) (fun _ => observes_record he _))
  · unfold Iom.throughIn
    cases hr : m.readIn e d with
    | none => rfl
    | some p =>
      obtain ⟨r,v⟩ := p
      rcases readIn_result hr with h | h | h
      · obtain rfl : r = lab4Success := h
        cases v with
        | none => rfl
        | some v =>
          cases hl : m.lookupIn e v.iIno f with
          | none => simp [hl,lab4Success,lab4Error,enoent]
          | some out =>
            cases out with
            | error r => 
              rcases lookupIn_error hl with rfl | rfl
              · simp [hl,Iom.lookupOut,lab4Success,lab4Error,enoent]
              · simp [hl,Iom.lookupOut,lab4Success,lab4Error,enoent]
            | ok i =>
              by_cases hd : isdelete = 1
              · simp [hl,Iom.lookupOut,DirEntry.deleted,hd,lab4Success,lab4Error,enoent]
              · simp [hl,Iom.lookupOut,hd,lab4Success,lab4Error,enoent]
      · cases h
        rfl
      · cases h
        rfl

/-! ## Agreement -/

section Agreement
variable {d f path : List UInt8}

/-- `strtok` finds the last component behind those of the directory part, and the walk to the directory ends at a
number whose record holds it. -/
theorem readIn_append (h : m.EntriesNumbered) (he : e.Uniform) (hslash : slash ∉ f) (hne : f ≠ [])
    (hlen : (d ++ slash :: f).length < 256) : m.readIn e (d ++ slash :: f) = m.throughIn e d f := by
  have hd : ¬256 ≤ d.length := by
    rw [List.length_append] at hlen
    omega
  have hcut : strtok (d ++ slash :: f) = strtok d ++ [f] := by rw [strtok_append hslash, if_neg hne]
  have hpath : m.readIn e (d ++ slash :: f) = (m.walkIn e (strtok d ++ [f]) m.sbi.rootIno).bind (fun p =>
      if p.1 = lab4Success then (m.recordIn p.2).map (fun v => (lab4Success,v)) else some (p.1,none)) := by
    rw [← hcut]
    exact if_neg (Nat.not_le.mpr hlen)
  have hdir : m.readIn e d = (m.walkIn e (strtok d) m.sbi.rootIno).bind (fun p =>
      if p.1 = lab4Success then (m.recordIn p.2).map (fun v => (lab4Success,v)) else some (p.1,none)) := if_neg hd
  rw [hpath, walkIn_append, Iom.throughIn, hdir]
  cases hw : m.walkIn e (strtok d) m.sbi.rootIno with
  | none => rfl
  | some p =>
    obtain ⟨r,k⟩ := p
    by_cases hr : r = lab4Success
    · subst hr
      have hown : m.OwnNumber k := h.walked he h.root hw
      simp only [Option.bind_some,↓reduceIte,hown.recordIn,Option.map_some,hown.ino,Iom.walkIn]
      cases hl : m.lookupIn e k f with
      | none => rfl
      | some out =>
        cases out with
        | error r => rcases lookupIn_error hl with rfl | rfl <;> rfl
        | ok i => rfl
    · simp [hr]

/-- The last component of a path without empty components is not empty. -/
theorem last_ne_nil (hslash : slash ∉ f) (habs : (d ++ slash :: f).head? = some slash)
    (hcomp : ∀ x ∈ (d ++ slash :: f).tail.splitOn slash, x ≠ []) : f ≠ [] := by
  cases d with
  | nil =>
    rw [List.nil_append, List.tail_cons, List.splitOn_eq_singleton hslash] at hcomp
    exact hcomp f (by simp)
  | cons a d =>
    rw [List.cons_append, List.tail_cons, List.splitOn_append_cons_self] at hcomp
    exact hcomp f (by simp [List.splitOn_eq_singleton hslash])

/-- Both algorithms cut a path without empty components at the same places: the last component `f` and what is
before it are the two names, and reading the path is reading the directory part and looking up `f` there. -/
theorem splitting_agrees_with_walking (hpath : path = d ++ slash :: f) (hslash : slash ∉ f)
    (habs : path.head? = some slash) (hcomp : ∀ x ∈ path.tail.splitOn slash, x ≠ []) (hf : f.length < fnameSize)
    (hd : d.length < fnameSize) :
    (∀ {e : Env} {s : Sys}, e.MallocOk → ∃ fName dName s', getNameFromPath path e s = some ((fName,dName),s') ∧
      fName.cstr = some f ∧ dName.cstr = some d ∧ s'.iom = s.iom) ∧
    (∀ {e : Env} {s : Sys}, e.Uniform → s.iom.EntriesNumbered → ∀ (fileEntry : DirEntry) (isdelete : ℤ),
      (lab4ReadInode path none e s).map (fun p => (p.1,p.2.iom)) =
        (readThrough d f fileEntry isdelete e s).map (fun p => (p.1,p.2.iom))) := by
  subst hpath
  have hne : f ≠ [] := last_ne_nil hslash habs hcomp
  have hlast : lastName (d ++ slash :: f) = f := lastName_append hslash
  have hdir : dirName (d ++ slash :: f) = d := dirName_append hslash
  refine ⟨fun {e s} he => ?_,fun {e s} he h fileEntry isdelete => ?_⟩
  · have hok : PathOk (d ++ slash :: f) := ⟨by simp,by rwa [hlast],by rwa [hdir]⟩
    have hwp : wp False (getNameFromPath (d ++ slash :: f)) (fun p s' => p.1.bytes = f ∧ p.2.bytes = d ∧ s'.iom = s.iom) e s := by
      refine wp_getNameFromPath ?_ (fun s' fName dName hs' _ h1 h2 => ⟨h1.trans hlast,h2.trans hdir,hs'⟩)
      rintro (hn | hn)
      · exact hn he
      · exact hn hok
    obtain ⟨⟨fName,dName⟩,s',hrun,h1,h2,hs'⟩ := wp_false.mp hwp
    refine ⟨fName,dName,s',hrun,?_,?_,hs'⟩
    · rw [NameBuf.cstr, if_pos (by rwa [h1]), h1]
    · rw [NameBuf.cstr, if_pos (by rwa [h2]), h2]
  · have hlen : (d ++ slash :: f).length < 256 := by
      unfold fnameSize at hf hd
      rw [List.length_append, List.length_cons]
      omega
    have hread := observes_lab4ReadInode he (d ++ slash :: f) s
    have hthrough := observes_readThrough he d f fileEntry isdelete s
    have hsame : s.iom.readIn e (d ++ slash :: f) = s.iom.throughIn e d f := readIn_append h he hslash hne hlen
    exact hread.trans ((congrArg (Option.map (fun p => (p,s.iom))) hsame).trans hthrough.symm)

end Agreement

/-! ## Numbered entries -/

/-- A live node of a whole volume has its own number. -/
theorem Iom.Whole.ownNumber (h : m.Whole) (hk : m.books.Live k.toNat) : m.OwnNumber k := by
  have hino : (m.inode k.toNat).iIno = UInt32.ofNat k.toNat := (h.sane.ledger.live k.toNat hk).ino
  exact ⟨hk.1,hk.2.1,hino.trans UInt32.ofNat_toNat⟩

/-- The entries of a whole volume are numbered, if its files are empty: the block of a file with data can be taken
for the block of a directory. -/
theorem Iom.Whole.entriesNumbered (h : m.Whole) (hempty : ∀ k, m.tree.kind k = some .file → (m.inode k).iSize = 0) :
    m.EntriesNumbered := by
  refine ⟨?_,fun {e t D fileEntry d filename isdelete i s'} hrun => ?_⟩
  · rw [h.sane.mounted.rootIno]
    exact h.ownNumber h.sane.ledger.live_root
  have herr : ∀ res, res = lab4Error ∨ res = -enoent → res = lab4Success → m.OwnNumber fileEntry.dIno := by
    rintro res (rfl | rfl) hr
    · cases hr
    · cases hr
  refine (wp_lab4Lookup_ticks (s := ⟨m,t⟩) (Q := fun p _ => p.1 = lab4Success → m.OwnNumber p.2.1.dIno) h.sane.mounted
    (fun _ => herr _ (.inl rfl)) (fun _ _ _ => herr _ (.inl rfl)) (fun _ _ _ _ _ _ => herr _ (.inl rfl)) (fun _ _ => trivial)
    (fun _ _ _ => trivial) (fun s' j _ _ _ _ hlo hhi hscan _ => ?_) (fun _ _ _ _ _ _ _ _ _ => herr _ (.inr rfl))).elim hrun rfl
  obtain ⟨hj,htest⟩ := (slotLoop_scan hscan).1.hit rfl
  have hsize : (m.inode D.toNat).iSize ≠ 0 := by
    intro h0
    rw [show (m.inode D.toNat).iSize.toInt = 0 by rw [h0]; rfl] at hj
    omega
  -- a record with a size is a live one
  have hlive : m.books.Live D.toNat := by
    by_contra hn
    have hbit : m.books.ibit D.toNat = false := by
      by_contra hb
      exact hn ⟨hlo,hhi,by simpa using hb⟩
    have h3 : 3 ≤ D.toNat := h.sane.ledger.behind_root hbit
    have hz : m.inode D.toNat = Inode.zero := h.neat.zero D.toNat h3 hhi hbit
    rw [hz] at hsize
    exact hsize rfl
  have hD : m.tree.kind D.toNat = some .dir := by
    rcases (h.sane.ledger.live D.toNat hlive).type with hf | hd
    · exact absurd (hempty _ (Books.kind_eq_file.mpr ⟨hlive,hf⟩)) hsize
    · exact (Books.kind_eq_dir h.sane.ledger).mpr ⟨hlive,hd⟩
  have hused : (m.slotEntry D.toNat j).dFlag = lab4DirUsed := by
    by_contra hu
    have hfalse : lookupTest filename (m.slotEntry D.toNat j) = some false := if_neg hu
    rw [show entryAt (m.dev.bytes.shift (m.dataAddr D.toNat)) j = m.slotEntry D.toNat j from rfl, hfalse] at htest
    cases htest
  have hslot : m.tree.slot D.toNat j = some (cstr (m.slotEntry D.toNat j).dFilename,(m.slotEntry D.toNat j).dIno.toNat) := by
    rw [Iom.Mounted.tree_slot h.sane.ledger hD ((Iom.Mounted.scan_bound h.sane.ledger hD hscan).1 rfl)]
    exact binding_of_used hused
  have hown : m.OwnNumber (m.slotEntry D.toNat j).dIno := by
    refine h.ownNumber ?_
    by_contra hn
    exact h.sane.sound.bound h.held h.upward hslot (Books.kind_eq_none.mpr hn)
  unfold Iom.lookupResult
  split
  · exact hown
  · exact hown

theorem splitting_agrees_with_walking_blank : ∃ s0, formatAndMount quietEnv (blankDisk 80) = some (true,s0) ∧
    (∃ fName dName s', getNameFromPath [47,46,47,97] quietEnv s0 = some ((fName,dName),s') ∧
      fName.cstr = some [97] ∧ dName.cstr = some [47,46] ∧ s'.iom = s0.iom) ∧
    (lab4ReadInode [47,46,47,97] none quietEnv s0).map (fun p => (p.1,p.2.iom)) =
      (readThrough [47,46] [97] DirEntry.zero 0 quietEnv s0).map (fun p => (p.1,p.2.iom)) := by
  obtain ⟨s0,root,a,b,hrun,hroot,hs0⟩ := blankDisk_fresh
  obtain ⟨t0,hrun',hw⟩ := blankDisk_whole
  obtain ⟨-,rfl⟩ := Prod.mk.inj (Option.some.inj (hrun'.symm.trans hrun))
  obtain ⟨hname,hwalk⟩ := splitting_agrees_with_walking (d := [47,46]) (f := [97]) rfl (by decide) rfl (by decide) (by decide)
    (by decide)
  refine ⟨t0,hrun,hname quietEnv_nominal.malloc,hwalk quietEnv_nominal.uniform (hw.entriesNumbered (fun k hk => ?_)) _ _⟩
  have hroot' : k = 2 := by
    have hlive := (Books.kind_eq_file.mp hk).1
    rw [hs0] at hlive
    exact (fresh_live (.inl rfl)).mp hlive
  subst hroot'
  have hdir : t0.iom.tree.kind 2 = some .dir := hw.sane.sound.root
  rw [hdir] at hk
  cases hk

end SimpleFS
