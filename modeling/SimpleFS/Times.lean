import SimpleFS.Splitting
import SimpleFS.Fuse

/-! # Setting the times of a file

`do_utimens` walks to the record and sets the times in a private copy, which is never written back, and
`lab4_utimens` reports a missing file as a success. So the times take effect where they are there already.
-/
namespace SimpleFS
open Bytes Machine Prog

/-! ## What the call is for -/

/-- The path passes the check and the walk ends at record `v`. -/
def Iom.Resolves (m : Iom) (path : List UInt8) (v : Inode) : Prop :=
  doPathCheck path = lab4Success ∧ ∃ e t s', e.Nominal ∧ lab4ReadInode path none e ⟨m,t⟩ = some ((lab4Success,some v),s')

/-- `lab4_getattr` of the path reports `st`. -/
def Iom.Reports (m : Iom) (path : List UInt8) (st : Stat) : Prop :=
  ∀ {e : Env} {t : ℕ} {stbuf : Stat}, e.Nominal → ∃ s', lab4Getattr path stbuf e ⟨m,t⟩ = some ((lab4Success,st),s')

/-- Attributes with new access and modification times. -/
def Stat.withTimes (st : Stat) (atime mtime : UInt32) : Stat := { st with stAtime := atime.toNat, stMtime := mtime.toNat }

/-- From `m` to `m'` the attributes of the path have got the new times, and every record but that of `v` is as it was. -/
structure Iom.SetTimes (m m' : Iom) (path : List UInt8) (v : Inode) (atime mtime : UInt32) : Prop where
  reports : m'.Reports path ((doFillInode v).withTimes atime mtime)
  others : ∀ k, k ≠ v.iIno.toNat → m'.inode k = m.inode k

/-- A path that resolves: the run is defined, and behind a success the times are set, now and on every remounted volume,
where the rest is as on the volume that is remounted without the call. A path that does not resolve: an error. -/
structure TimesTakeEffect (e : Env) (s : Sys) (path : List UInt8) (atime mtime : UInt32) : Prop where
  resolved : ∀ v, s.iom.Resolves path v → ∃ r s', lab4Utimens path atime.toNat mtime.toNat e s = some (r,s') ∧
    (r = lab4Success → s.iom.SetTimes s'.iom path v atime mtime ∧
      ∀ {e' : Env} {t : ℕ} {s1 : Sys}, e'.Nominal → mount e' ⟨s'.iom,t⟩ = some (true,s1) →
        ∃ s0 w, mount e' ⟨s.iom,t⟩ = some (true,s0) ∧ s0.iom.Resolves path w ∧
          s0.iom.SetTimes s1.iom path w atime mtime)
  unresolved : (∀ v, ¬s.iom.Resolves path v) → ∃ r s', lab4Utimens path atime.toNat mtime.toNat e s = some (r,s') ∧ r < 0

/-! ## What it depends on -/

/-- Both parts of the path fit the name buffers. -/
def PathFits (path : List UInt8) : Prop := (lastName path).length ≤ fnameSize ∧ (dirName path).length ≤ fnameSize

instance (path : List UInt8) : Decidable (PathFits path) := inferInstanceAs (Decidable (_ ∧ _))

/-- The times are there already, in memory and on every remounted volume. -/
structure Iom.TimesThere (m : Iom) (path : List UInt8) (v : Inode) (atime mtime : UInt32) : Prop where
  now : v.iAtime = atime ∧ v.iMtime = mtime
  remounted : ∀ {e : Env} {t : ℕ} {s1 : Sys}, e.Nominal → mount e ⟨m,t⟩ = some (true,s1) →
    ∃ w, s1.iom.Resolves path w ∧ w.iAtime = atime ∧ w.iMtime = mtime

/-- The check or the walk fails with `LAB4_ERROR`, and `errno` is positive behind it. -/
def WalkFails (e : Env) (s : Sys) (path : List UInt8) : Prop :=
  if slash ∈ path then PathFits path ∧
    ∃ t, lab4ReadInode path none e s.next = some ((lab4Error,none),t) ∧ 0 < e.errno t.clock
  else 0 < e.errno s.clock

variable {e e' : Env} {m : Iom} {s s' : Sys} {path : List UInt8} {v w : Inode} {atime mtime : UInt32} {st : Stat}

/-! ## Walks when transfers succeed -/

theorem lookupIn_nominal (he : e.Nominal) (he' : e'.Nominal) (D : UInt32) (x : List UInt8) :
    m.lookupIn e D x = m.lookupIn e' D x := by
  unfold Iom.lookupIn Iom.Unread
  simp only [he.io 0,he'.io 0]

theorem walkIn_nominal (he : e.Nominal) (he' : e'.Nominal) (names : List (List UInt8)) (D : UInt32) :
    m.walkIn e names D = m.walkIn e' names D := by
  induction names generalizing D with
  | nil => rfl
  | cons x rest ih => simp only [Iom.walkIn,lookupIn_nominal he he',ih]

theorem readIn_nominal (he : e.Nominal) (he' : e'.Nominal) (path : List UInt8) : m.readIn e path = m.readIn e' path := by
  unfold Iom.readIn
  rw [walkIn_nominal he he']

theorem resolves_iff (he : e.Nominal) :
    m.Resolves path v ↔ doPathCheck path = lab4Success ∧ m.readIn e path = some (lab4Success,some v) := by
  constructor
  · rintro ⟨hc,e',t,s',he',hrun⟩
    refine ⟨hc,?_⟩
    rw [readIn_nominal he he']
    exact ((observes_lab4ReadInode he'.uniform path).result hrun).1
  · rintro ⟨hc,hr⟩
    obtain ⟨s',hrun,_⟩ := (observes_lab4ReadInode he.uniform path).run (s := ⟨m,0⟩) (a := (lab4Success,some v)) rfl hr
    exact ⟨hc,e,0,s',he,hrun⟩

theorem Iom.Resolves.unique (h : m.Resolves path v) (h' : m.Resolves path w) : v = w := by
  obtain ⟨e,_,_,he,_⟩ := h.2
  have hv := ((resolves_iff he).mp h).2
  rw [((resolves_iff he).mp h').2] at hv
  cases hv
  rfl

theorem doPathCheck_eq_success : doPathCheck path = lab4Success ↔ slash ∈ path := by
  unfold doPathCheck
  split
  · next h => simp [h]
  · next h => simp [h,lab4Error,lab4Success]

theorem doPathCheck_eq_error : doPathCheck path = lab4Error ↔ slash ∉ path := by
  unfold doPathCheck
  split
  · next h => simp [h,lab4Error,lab4Success]
  · next h => simp [h]

/-! ## The getter -/

/-- The attributes reported are those of the record. -/
theorem reports_iff (hr : m.Resolves path v) : m.Reports path st ↔ st = doFillInode v := by
  have hrun : ∀ {e : Env} (t : ℕ) (stbuf : Stat), e.Nominal →
      ∃ s', lab4Getattr path stbuf e ⟨m,t⟩ = some ((lab4Success,doFillInode v),s') := by
    intro e t stbuf he
    have hread := ((resolves_iff he).mp hr).2
    obtain ⟨s',hrun,_⟩ := (observes_lab4ReadInode he.uniform path).run (s := ⟨m,t⟩) (a := (lab4Success,some v)) rfl hread
    refine ⟨s',?_⟩
    have hc : ¬doPathCheck path = lab4Error := by
      rw [hr.1]
      decide
    unfold lab4Getattr
    rw [if_neg hc]
    simp [hrun,lab4Success,lab4Error,enoent]
  constructor
  · intro h
    obtain ⟨e,t,_,he,_⟩ := hr.2
    obtain ⟨s1,h1⟩ : ∃ s', lab4Getattr path st e ⟨m,t⟩ = some ((lab4Success,st),s') := h he
    obtain ⟨s2,h2⟩ := hrun t st he
    rw [h1] at h2
    cases h2
    rfl
  · rintro rfl e t stbuf he
    exact hrun t stbuf he

theorem withTimes_eq_iff : (doFillInode v).withTimes atime mtime = doFillInode v ↔ v.iAtime = atime ∧ v.iMtime = mtime := by
  constructor
  · intro h
    have ha : atime.toNat = v.iAtime.toNat := congrArg Stat.stAtime h
    have hm : mtime.toNat = v.iMtime.toNat := congrArg Stat.stMtime h
    exact ⟨(UInt32.toNat_inj.mp ha).symm,(UInt32.toNat_inj.mp hm).symm⟩
  · rintro ⟨rfl,rfl⟩
    rfl

/-- A call that leaves the io manager alone has set the times if they were there. -/
theorem setTimes_self (hr : m.Resolves path v) : m.SetTimes m path v atime mtime ↔ v.iAtime = atime ∧ v.iMtime = mtime := by
  constructor
  · intro h
    exact withTimes_eq_iff.mp ((reports_iff hr).mp h.reports)
  · intro h
    exact ⟨(reports_iff hr).mpr (withTimes_eq_iff.mpr h),fun _ _ => rfl⟩

/-! ## The setter -/

section Setter
variable {a b : ℤ}

theorem getNameFromPath_fits (he : e.MallocOk) (hs : slash ∈ path) (hf : PathFits path) :
    ∃ p, getNameFromPath path e s = some (p,s.next) := by
  have hlast : NameBuf.copy (fPtrLoop (path.length + 1) path) = some ⟨lastName path,hf.1⟩ := dif_pos hf.1
  have hdir : NameBuf.copy (path.take (path.length - (fPtrLoop (path.length + 1) path).length - 1)) =
      some ⟨dirName path,hf.2⟩ := dif_pos hf.2
  exact ⟨_,by simp [getNameFromPath,malloc,he s.clock,hlast,hdir,hs]; rfl⟩

theorem getNameFromPath_long (hf : ¬PathFits path) : getNameFromPath path e s = none := by
  cases h : getNameFromPath path e s with
  | none => rfl
  | some p =>
    refine absurd ?_ hf
    exact (wp_getNameFromPath (u := True) (Q := fun _ _ => PathFits path) (fun _ => trivial)
      (fun _ f d _ _ h1 h2 => ⟨h1 ▸ f.fits,h2 ▸ d.fits⟩)).elim h

/-- Without a slash the check fails. -/
theorem lab4Utimens_unchecked (hs : slash ∉ path) : lab4Utimens path a b e s = some (-(e.errno s.clock),s.next) := by
  have hp : path ≠ [slash] := by
    rintro rfl
    exact hs (by simp)
  have hc := doPathCheck_eq_error.mpr hs
  simp [lab4Utimens,doUtimens,errno,hp,hc]

theorem lab4Utimens_long (hp : path ≠ [slash]) (hs : slash ∈ path) (hf : ¬PathFits path) :
    lab4Utimens path a b e s = none := by
  have hc : ¬doPathCheck path = lab4Error := fun h => doPathCheck_eq_error.mp h hs
  simp [lab4Utimens,doUtimens,hp,hc,getNameFromPath_long hf]

/-- The wrapper behind the walk. -/
def utimensResult (p : ℤ × Option Inode) : M ℤ :=
  if p.1 = lab4Error then do return -(← errno)
  else if p.1 = -enoent then pure lab4Success
  else match p.2 with
    | none => undefined
    | some _ => pure lab4Success

theorem lab4Utimens_fits (he : e.MallocOk) (hp : path ≠ [slash]) (hs : slash ∈ path) (hf : PathFits path) :
    lab4Utimens path a b e s = (lab4ReadInode path none >>= utimensResult) e s.next := by
  have hc : ¬doPathCheck path = lab4Error := fun h => doPathCheck_eq_error.mp h hs
  obtain ⟨p,hname⟩ := getNameFromPath_fits (s := s) he hs hf
  unfold lab4Utimens doUtimens
  simp only [bind_apply,if_neg hp,if_neg hc,hname,Option.bind_some]
  cases hread : lab4ReadInode path none e s.next with
  | none => rfl
  | some q =>
    obtain ⟨⟨res,v⟩,t⟩ := q
    have hnoent : ¬-enoent = lab4Error := by decide
    have hsuccess : ¬lab4Success = lab4Error := by decide
    by_cases h1 : res = lab4Error
    · simp [h1,utimensResult]
    by_cases h2 : res = -enoent
    · simp [h2,hnoent,utimensResult]
    cases v with
    | none => simp [h1,h2,utimensResult]
    | some v => simp [h1,h2,hsuccess,utimensResult]

end Setter

/-! ## The law -/

/-- Where the walk ends at a record, the call succeeds and changes nothing. -/
theorem lab4Utimens_resolves (atime mtime : UInt32) (he : e.Nominal) (hp : path ≠ [slash]) (hf : PathFits path) (hr : s.iom.Resolves path v) :
    ∃ s', lab4Utimens path atime.toNat mtime.toNat e s = some (lab4Success,s') ∧ s'.iom = s.iom := by
  have hs := doPathCheck_eq_success.mp hr.1
  obtain ⟨t,hread,ht⟩ := (observes_lab4ReadInode he.uniform path).run (s := s.next) (a := (lab4Success,some v)) rfl
    ((resolves_iff he).mp hr).2
  refine ⟨t,?_,ht⟩
  rw [lab4Utimens_fits he.malloc hp hs hf, bind_apply, hread]
  rfl

theorem resolved_iff (he : e.Nominal) (hp : path ≠ [slash]) (hr : s.iom.Resolves path v) :
    TimesTakeEffect e s path atime mtime ↔ PathFits path ∧ s.iom.TimesThere path v atime mtime := by
  have hs := doPathCheck_eq_success.mp hr.1
  constructor
  · intro h
    obtain ⟨r,s',hrun,hset⟩ := h.resolved v hr
    have hf : PathFits path := by
      by_contra hn
      rw [lab4Utimens_long hp hs hn] at hrun
      cases hrun
    obtain ⟨t,hrun',ht⟩ := lab4Utimens_resolves atime mtime he hp hf hr
    obtain ⟨rfl,rfl⟩ := Prod.mk.inj (Option.some.inj (hrun'.symm.trans hrun))
    obtain ⟨hnow,hlater⟩ := hset rfl
    rw [ht] at hnow
    refine ⟨hf,(setTimes_self hr).mp hnow,fun {e' t' s1} he' hm => ?_⟩
    rw [← ht] at hm
    obtain ⟨s0,w,hm0,hw,hset0⟩ := hlater he' hm
    rw [← ht] at hm0
    obtain ⟨_,rfl⟩ := Prod.mk.inj (Option.some.inj (hm0.symm.trans hm))
    exact ⟨w,hw,(setTimes_self hw).mp hset0⟩
  · rintro ⟨hf,hnow,hlater⟩
    obtain ⟨t,hrun,ht⟩ := lab4Utimens_resolves atime mtime he hp hf hr
    refine ⟨fun w hw => ⟨lab4Success,t,hrun,fun _ => ?_⟩,fun hn => absurd hr (hn v)⟩
    obtain rfl := hr.unique hw
    rw [ht]
    refine ⟨(setTimes_self hr).mpr hnow,fun {e' t' s1} he' hm => ?_⟩
    obtain ⟨w,hw',hset⟩ := hlater he' hm
    exact ⟨s1,w,hm,hw',(setTimes_self hw').mpr hset⟩

/-- Where it does not, the call returns an error exactly when the check or the walk fails with one. -/
theorem unresolved_iff (he : e.Nominal) (hp : path ≠ [slash]) (hr : ∀ v, ¬s.iom.Resolves path v) :
    TimesTakeEffect e s path atime mtime ↔ WalkFails e s path := by
  have heffect : TimesTakeEffect e s path atime mtime ↔
      ∃ r s', lab4Utimens path atime.toNat mtime.toNat e s = some (r,s') ∧ r < 0 :=
    ⟨fun h => h.unresolved hr,fun h => ⟨fun v hv => absurd hv (hr v),fun _ => h⟩⟩
  rw [heffect]
  unfold WalkFails
  by_cases hs : slash ∈ path
  · rw [if_pos hs]
    by_cases hf : PathFits path
    · rw [lab4Utimens_fits he.malloc hp hs hf, bind_apply]
      cases hread : lab4ReadInode path none e s.next with
      | none => simp
      | some q =>
        obtain ⟨p,t⟩ := q
        have hvalue := ((observes_lab4ReadInode he.uniform path).result hread).1
        rcases readIn_result hvalue with h1 | rfl | rfl
        · -- a success without a record has no result
          obtain ⟨r,v⟩ := p
          obtain rfl : r = lab4Success := h1
          cases v with
          | none => simp [utimensResult,lab4Success,lab4Error,enoent]
          | some v => exact absurd ((resolves_iff he).mpr ⟨doPathCheck_eq_success.mpr hs,hvalue⟩) (hr v)
        · simp [utimensResult,errno,hf]
        · simp [utimensResult,lab4Success,lab4Error,enoent]
    · rw [lab4Utimens_long hp hs hf]
      simp [hf]
  · rw [if_neg hs, lab4Utimens_unchecked hs]
    simp

/-- Setting the times of a path other than the root takes effect exactly if they are there already, in memory and on
a remounted volume, or if the path does not resolve because the walk itself fails. -/
theorem set_times_iff (he : e.Nominal) (hp : path ≠ [slash]) : TimesTakeEffect e s path atime mtime ↔
    (∀ v, s.iom.Resolves path v → PathFits path ∧ s.iom.TimesThere path v atime mtime) ∧
    ((∀ v, ¬s.iom.Resolves path v) → WalkFails e s path) := by
  by_cases hr : ∃ v, s.iom.Resolves path v
  · obtain ⟨v,hv⟩ := hr
    rw [resolved_iff he hp hv]
    constructor
    · intro h
      refine ⟨fun w hw => ?_,fun hn => absurd hv (hn v)⟩
      obtain rfl := hv.unique hw
      exact h
    · exact fun h => h.1 v hv
  · have hn : ∀ v, ¬s.iom.Resolves path v := fun v hv => hr ⟨v,hv⟩
    rw [unresolved_iff he hp hn]
    exact ⟨fun h => ⟨fun v hv => absurd hv (hn v),fun _ => h⟩,fun h => h.2 hn⟩

/-! ## Two calls -/

/-- Reading the path "/a" on a new file system, before or after it is made: what came out so far, and the access time. -/
def timesTest (made : Bool) : M (Bool × ℤ × ℤ × Option UInt32) := do
  let ok ← formatAndMount
  let res ← if made then lab4Mkdir [47,97] else pure lab4Success
  let (res',v) ← lab4ReadInode [47,97] none
  return (ok,res,res',v.map Inode.iAtime)

/-- A directory that was made at time 0 is to have the times 1 and 2. -/
theorem set_times_fails : ∃ s0 s1, formatAndMount quietEnv (blankDisk 80) = some (true,s0) ∧
    lab4Mkdir [47,97] quietEnv s0 = some (lab4Success,s1) ∧ ¬TimesTakeEffect quietEnv s1 [47,97] 1 2 := by
  have h : (timesTest true quietEnv (blankDisk 80)).map Prod.fst = some (true,lab4Success,lab4Success,some 0) := by
    decide +kernel
  obtain ⟨⟨p,t⟩,htest,hp⟩ := Option.map_eq_some_iff.mp h
  obtain ⟨ok,s0,hrun,htest⟩ := exists_of_bind htest
  obtain ⟨res,s1,hmake,htest⟩ := exists_of_bind htest
  obtain ⟨⟨res',v⟩,s2,hread,htest⟩ := exists_of_bind htest
  obtain ⟨rfl,_⟩ := Prod.mk.inj (Option.some.inj htest)
  simp only [Prod.mk.injEq] at hp
  obtain ⟨rfl,rfl,rfl,hv⟩ := hp
  obtain ⟨w,rfl,hw⟩ := Option.map_eq_some_iff.mp hv
  refine ⟨s0,s1,hrun,hmake,fun ht => ?_⟩
  have hr : s1.iom.Resolves [47,97] w := ⟨rfl,quietEnv,s1.clock,s2,quietEnv_nominal,hread⟩
  have hnow := ((resolved_iff quietEnv_nominal (by decide) hr).mp ht).2.now.1
  rw [hw] at hnow
  exact absurd hnow (by decide)

/-- Setting the times of a path that is not there is reported as a success. -/
theorem set_times_iff_missing : ∃ s0, formatAndMount quietEnv (blankDisk 80) = some (true,s0) ∧
    ¬TimesTakeEffect quietEnv s0 [47,97] 1 2 := by
  have h : (timesTest false quietEnv (blankDisk 80)).map Prod.fst = some (true,lab4Success,-enoent,none) := by
    decide +kernel
  obtain ⟨⟨p,t⟩,htest,hp⟩ := Option.map_eq_some_iff.mp h
  obtain ⟨ok,s0,hrun,htest⟩ := exists_of_bind htest
  obtain ⟨res,s1,hnone,htest⟩ := exists_of_bind htest
  obtain ⟨⟨res',v⟩,s2,hread,htest⟩ := exists_of_bind htest
  obtain ⟨rfl,_⟩ := Prod.mk.inj (Option.some.inj htest)
  simp only [Prod.mk.injEq] at hp
  obtain ⟨rfl,_,rfl,_⟩ := hp
  obtain ⟨_,rfl⟩ := Prod.mk.inj (Option.some.inj hnone)
  have hvalue := ((observes_lab4ReadInode quietEnv_nominal.uniform [47,97]).result hread).1
  refine ⟨s0,hrun,fun ht => ?_⟩
  have hmissing : ∀ w, ¬s0.iom.Resolves [47,97] w := by
    intro w hw
    have := ((resolves_iff quietEnv_nominal).mp hw).2
    rw [hvalue] at this
    cases this
  obtain ⟨_,t1,hfail,_⟩ := ((set_times_iff quietEnv_nominal (by decide)).mp ht).2 hmissing
  have := ((observes_lab4ReadInode quietEnv_nominal.uniform [47,97]).result hfail).1
  rw [Sys.next_iom, hvalue] at this
  cases this

end SimpleFS
