import SimpleFS.FileRuns

/-! # What histories keep

A closed file keeps its bytes and an open handle stays in use until a call is about it. Nothing else a client does in
between matters, not even a mount.
-/
namespace SimpleFS
open Bytes Machine Prog SlotTree

variable {s s1 t : Sys} {m : Iom} {a b : Files} {c : FileCall} {r : Answer} {l : List (FileCall × Answer)} {fid : ℕ}
  {x y data : List UInt8} {p q : List (List UInt8)}

/-! ## What nobody is about -/

/-- At `p` and below it there is what `n` says, and nothing of it is open. -/
structure Files.Kept (a : Files) (p : List (List UInt8)) (n : Namespace (List UInt8) Node) : Prop where
  names : ∀ r, p <:+ r → a.names r = n r
  closed : ∀ fid g, a.handle fid = some g → ¬p <:+ g.path

/-- The call makes, opens and removes nothing at `p` or below it, and moves nothing to or from there, nor `p` itself. -/
def FileCall.Spares (p : List (List UInt8)) : FileCall → Prop
  | .mkdir q x | .unlink q x | .rmdir q x | .openFile q x _ _ => ¬p <:+ x :: q
  | .rename q x q' y => ¬x :: q <:+ p ∧ ¬p <:+ x :: q ∧ ¬p <:+ x :: q' ∧ ¬p <:+ x :: y :: q'
  | _ => True

theorem Iom.Shows.under (hs : m.Shows a) (hn : a.names q = none) (hp : a.names p ≠ none) : ¬q <:+ p := by
  rintro ⟨r,rfl⟩
  rw [← hs.names] at hn hp
  exact hp (hs.regular.view_below hn)

/-- Where a rename puts the entry there was nothing, and it is not at `p` or below it. -/
theorem Files.newPath_free {q' : List (List UInt8)} (hc : a.Allowed (.rename q x q' y))
    (hp : ¬p <:+ x :: q' ∧ ¬p <:+ x :: y :: q')
    (h : a.names (y :: q') = none ∧ a.names q' = some .dir ∨ a.names (y :: q') = some .dir ∧ a.names (x :: y :: q') = none) :
    a.names (a.newPath q x q' y) = none ∧ ¬p <:+ a.newPath q x q' y := by
  unfold Files.newPath
  rcases h with ⟨hn,_⟩ | ⟨hd,hn⟩
  · rw [if_neg (fun hd => by cases hn.symm.trans hd)]
    split
    · exact ⟨hn,fun h => hp.2 (h.trans (List.suffix_cons x _))⟩
    · next hne => exact ⟨hc.2.2.2.2 hn hne,hp.1⟩
  · rw [if_pos hd]
    exact ⟨hn,hp.2⟩

namespace Files.Kept
variable {n : Namespace (List UInt8) Node} (h : a.Kept p n)
include h

/-- Something else comes or goes. -/
theorem put (hq : ¬p <:+ q) (v : Option Node) : (a.put q v).Kept p n := by
  refine ⟨fun r hr => ?_,h.closed⟩
  have hne : r ≠ q := by
    rintro rfl
    exact hq hr
  rw [put_of_ne hne]
  exact h.names r hr

theorem setHandle {g : Option Handle} (hg : ∀ k, g = some k → ¬p <:+ k.path) : (a.setHandle fid g).Kept p n := by
  refine ⟨h.names,fun j k hk => ?_⟩
  by_cases hj : j = fid
  · subst hj
    rw [setHandle_self] at hk
    exact hg k hk
  · rw [setHandle_of_ne hj] at hk
    exact h.closed j k hk

theorem move {v w : List (List UInt8)} (hv : ¬v <:+ p ∧ ¬p <:+ v) (hw : ¬w <:+ p ∧ ¬p <:+ w) : (a.move v w).Kept p n := by
  -- of two paths above a third one is above the other
  have hout : ∀ {u r : List (List UInt8)}, ¬u <:+ p ∧ ¬p <:+ u → p <:+ r → ¬u <:+ r := fun hu hr hn =>
    (List.suffix_or_suffix_of_suffix hn hr).elim hu.1 hu.2
  refine ⟨fun r hr => (Namespace.move_outside (hout hw hr) (hout hv hr)).trans (h.names r hr),fun j k hk => ?_⟩
  obtain ⟨k',hk',rfl⟩ := Option.map_eq_some_iff.mp hk
  unfold Files.relocate
  split
  · exact fun hn => hout hw hn (List.suffix_append _ w)
  · exact h.closed j k' hk'

/-- Whatever a call that spares it does. -/
theorem step (hsome : n p ≠ none) (hs : m.Shows a) (hc : a.Allowed c) (hp : c.Spares p) (hstep : Files.Step a c r b) :
    b.Kept p n := by
  cases hstep with
  | mkdirNoParent | mkdirExists | unlinkMissing | rmdirMissing | rmdirNotEmpty | renameMissing | renameExists | openRefused
  | read | getattrMissing | getattr | readdirMissing | readdir | utimens => exact h
  | made | unlinked | rmdirDone | createdOnly => exact h.put hp _
  | renamed _ hy =>
    obtain ⟨hnew,hout⟩ := newPath_free hc hp.2.2 hy
    have hhere : a.names p ≠ none := by rwa [h.names p List.suffix_rfl]
    exact h.move ⟨hp.1,hp.2.1⟩ ⟨hs.under hnew hhere,hout⟩
  | opened =>
    refine h.setHandle (fun k hk => ?_)
    obtain rfl := Option.some.inj hk
    exact hp
  | created =>
    refine (h.put hp _).setHandle (fun k hk => ?_)
    obtain rfl := Option.some.inj hk
    exact hp
  | released => exact h.setHandle (fun k hk => by cases hk)
  | appended hh _ _ | replaced hh _ _ =>
    have hne := h.closed _ _ hh
    refine (h.put hne _).setHandle (fun k hk => ?_)
    obtain rfl := Option.some.inj hk
    exact hne
  | remounted => exact ⟨h.names,fun _ _ hk => by cases hk⟩

end Files.Kept

/-! ## Calls that fail -/

/-- The result is an error. -/
def Answer.Failed : Answer → Prop
  | .code r | .attr r _ | .data r _ | .entries r _ => r < 0

/-- A call that fails has done nothing, unless it was to open a file that was not there. -/
theorem Files.Step.failed (hstep : Files.Step a c r b) (hr : r.Failed)
    (hc : ∀ p x flags mode, c = .openFile p x flags mode → a.names (x :: p) ≠ none) : b = a := by
  cases hstep with
  | mkdirNoParent | mkdirExists | unlinkMissing | rmdirMissing | rmdirNotEmpty | renameMissing | renameExists | openRefused
  | read | getattrMissing | getattr | readdirMissing | readdir | utimens => rfl
  | made | unlinked | rmdirDone | renamed | released | remounted => exact absurd hr (lt_irrefl (0 : ℤ))
  | opened | created | appended | replaced => exact absurd hr (Int.not_lt.mpr (Int.natCast_nonneg _))
  | createdOnly _ _ hn _ => exact absurd hn (hc _ _ _ _ rfl)

/-! ## Opening -/

namespace Files.Step
variable {flags mode : ℕ} {z : ℤ} (hstep : Files.Step a (.openFile p x flags mode) (.code z) b) (hz : 0 < z)
include hstep hz

/-- A file that was not there is new. -/
theorem open_new (hn : a.names (x :: p) = none) : ∃ fid : ℕ, z = fid ∧ a.FirstFree fid ∧
    b = (a.put (x :: p) (some (.file []))).setHandle fid (some ⟨x :: p,0⟩) := by
  cases hstep with
  | openRefused hr _ => omega
  | opened hd _ => cases hn.symm.trans hd
  | created _ _ hf => exact ⟨_,rfl,hf,rfl⟩
  | createdOnly hr _ _ _ => omega

theorem open_old (hd : a.names (x :: p) = some (.file data)) : ∃ fid : ℕ, z = fid ∧ a.FirstFree fid ∧
    b = a.setHandle fid (some ⟨x :: p,data.length⟩) := by
  cases hstep with
  | openRefused hr _ => omega
  | opened hd' hf =>
    obtain rfl := Node.file.inj (Option.some.inj (hd.symm.trans hd'))
    exact ⟨_,rfl,hf,rfl⟩
  | created _ hn _ => cases hn.symm.trans hd
  | createdOnly hr _ _ _ => omega

/-- The handle was free. -/
theorem open_fresh : ∃ fid : ℕ, z = fid ∧ a.handle fid = none ∧ b.handle fid ≠ none := by
  cases hstep with
  | openRefused hr _ => omega
  | opened _ hf =>
    refine ⟨_,rfl,hf.free,?_⟩
    rw [setHandle_self]
    exact Option.some_ne_none _
  | created _ _ hf =>
    refine ⟨_,rfl,hf.free,?_⟩
    rw [setHandle_self]
    exact Option.some_ne_none _
  | createdOnly hr _ _ _ => omega

end Files.Step

/-! ## Over a run -/

/-- The first call of a run, and what comes after it. -/
theorem Served.first (h : Served s ((c,r) :: l) t) (hs : s.iom.Shows a) (hl : Files.spec.Permits a ((c,r) :: l)) :
    a.Allowed c ∧ ∃ s1 b, Files.Step a c r b ∧ s1.iom.Shows b ∧ Served s1 l t ∧ Files.spec.Permits b l := by
  cases h with
  | cons he hq ht =>
    cases hl with
    | cons hc hrest =>
      obtain ⟨b,hstep,hb⟩ := shows_step he hs hc hq
      exact ⟨hc,_,b,hstep,hb,ht,hrest b hstep⟩

theorem Served.kept {n : Namespace (List UInt8) Node} (h : Served s l t) (hs : s.iom.Shows a) (hl : Files.spec.Permits a l)
    (hp : ∀ q ∈ l, q.1.Spares p) (hn : n p ≠ none) (ha : a.Kept p n) :
    ∃ b, Files.spec.Run a l b ∧ t.iom.Shows b ∧ b.Kept p n := by
  have hkeep : ∀ {s : Sys} {a : Files} {q : FileCall} {r : Answer} {b : Files} {t : Sys}, s.iom.Shows a → t.iom.Shows b →
      Files.spec.allowed a q → q.Spares p → Files.spec.step a q r b → a.Kept p n → b.Kept p n :=
    fun hs _ hc hp hstep ha => ha.step hn hs hc hp hstep
  exact Traced.keeps (Q := fun (s : Sys) a => s.iom.Shows a) shows_step hkeep h hs hl hp ha

/-- A run of calls that fail. -/
theorem Served.failed (h : Served s l t) (hs : s.iom.Shows a) (hl : Files.spec.Permits a l) (hr : ∀ q ∈ l, q.2.Failed)
    (hc : ∀ q ∈ l, ∀ p x flags mode, q.1 = .openFile p x flags mode → a.names (x :: p) ≠ none) : t.iom.Shows a := by
  have hkeep : ∀ {s : Sys} {b : Files} {q : FileCall} {r : Answer} {b' : Files} {t : Sys}, s.iom.Shows b → t.iom.Shows b' →
      Files.spec.allowed b q → (r.Failed ∧ ∀ p x flags mode, q = .openFile p x flags mode → a.names (x :: p) ≠ none) →
      Files.spec.step b q r b' → b = a → b' = a := by
    rintro s b q r b' t _ _ _ ⟨hr,hc⟩ hstep rfl
    exact Files.Step.failed hstep hr hc
  obtain ⟨b,_,hb,rfl⟩ := Traced.keeps (Q := fun (s : Sys) a => s.iom.Shows a) shows_step hkeep h hs hl
    (fun q hq => ⟨hr q hq,hc q hq⟩) rfl
  exact hb

/-! ## Handles -/

/-- A handle stays in use until it is released or the device mounted. -/
theorem Files.Step.handle_kept (hstep : Files.Step a c r b) (hc : c ≠ .release fid ∧ c ≠ .remount) (h : a.handle fid ≠ none) :
    b.handle fid ≠ none := by
  have hset : ∀ {a : Files} {j : ℕ} {g : Option Handle}, a.handle fid ≠ none → (j = fid → g ≠ none) →
      (a.setHandle j g).handle fid ≠ none := fun {a j g} ha hg => by
    by_cases hj : fid = j
    · subst hj
      rw [setHandle_self]
      exact hg rfl
    · rwa [setHandle_of_ne hj]
  cases hstep with
  | mkdirNoParent | mkdirExists | unlinkMissing | rmdirMissing | rmdirNotEmpty | renameMissing | renameExists | openRefused
  | read | getattrMissing | getattr | readdirMissing | readdir | utimens | made | unlinked | rmdirDone | createdOnly => exact h
  | renamed => exact fun hn => h (Option.map_eq_none_iff.mp hn)
  | opened | created | appended | replaced => exact hset h (fun _ => Option.some_ne_none _)
  | @released j =>
    refine hset h (fun hj => ?_)
    subst hj
    exact absurd rfl hc.1
  | remounted => exact absurd rfl hc.2

theorem Served.handle_kept (h : Served s l t) (hs : s.iom.Shows a) (hl : Files.spec.Permits a l)
    (hc : ∀ q ∈ l, q.1 ≠ .release fid ∧ q.1 ≠ .remount) (hh : a.handle fid ≠ none) :
    ∃ b, Files.spec.Run a l b ∧ t.iom.Shows b ∧ b.handle fid ≠ none := by
  have hkeep : ∀ {s : Sys} {a : Files} {q : FileCall} {r : Answer} {b : Files} {t : Sys}, s.iom.Shows a → t.iom.Shows b →
      Files.spec.allowed a q → (q ≠ .release fid ∧ q ≠ .remount) → Files.spec.step a q r b → a.handle fid ≠ none →
      b.handle fid ≠ none := fun _ _ _ hq hstep ha => Files.Step.handle_kept hstep hq ha
  exact Traced.keeps (Q := fun (s : Sys) a => s.iom.Shows a) shows_step hkeep h hs hl hc hh

/-- Between two opens with the same handle it has been given back. -/
theorem Served.given_back {flags mode flags' mode' : ℕ} {l' : List (FileCall × Answer)}
    (h : Served s ((.openFile p x flags mode,.code fid) :: (l ++ (.openFile q y flags' mode',.code fid) :: l')) t)
    (hs : s.iom.Shows a) (hfid : 0 < fid)
    (hl : Files.spec.Permits a ((.openFile p x flags mode,.code fid) :: (l ++ (.openFile q y flags' mode',.code fid) :: l'))) :
    ∃ c ∈ l, c.1 = .release fid ∨ c.1 = .remount := by
  by_contra hno
  push Not at hno
  obtain ⟨_,s1,b1,hopen,hs1,ht1,hl1⟩ := h.first hs hl
  obtain ⟨j,hj,_,hused⟩ := hopen.open_fresh (Int.natCast_pos.mpr hfid)
  obtain rfl : fid = j := Int.ofNat.inj hj
  obtain ⟨s2,ht2,ht3⟩ := ht1.split
  obtain ⟨b2,hrun,hs2,hkept⟩ := Served.handle_kept ht2 hs1 hl1.before hno hused
  obtain ⟨_,_,_,hagain,_⟩ := Served.first ht3 hs2 (hl1.after hrun)
  obtain ⟨j,hj,hfree,_⟩ := hagain.open_fresh (Int.natCast_pos.mpr hfid)
  obtain rfl : fid = j := Int.ofNat.inj hj
  exact hkept hfree

/-! ## Renames taken back -/

section Undo
variable {v w : List (List UInt8)}

theorem Files.relocate_relocate {g : Handle} (hw : ¬w <:+ g.path) : relocate w v (relocate v w g) = g := by
  have htake : ∀ (r z : List (List UInt8)), (r ++ z).take ((r ++ z).length - z.length) = r := fun r z => by
    rw [List.length_append, Nat.add_sub_cancel, List.take_left]
  by_cases hv : v <:+ g.path
  · obtain ⟨r,hr⟩ := hv
    have hin : relocate v w g = { g with path := r ++ w } := by
      rw [relocate, if_pos ⟨r,hr⟩, ← hr, htake]
    have hback : w <:+ r ++ w := List.suffix_append r w
    rw [hin, relocate, if_pos hback]
    dsimp only
    rw [htake, hr]
  · rw [show relocate v w g = g from if_neg hv]
    exact if_neg hw

/-- What was moved to a place where there was nothing is moved back. -/
theorem Iom.Shows.move_move (hs : m.Shows a) (hw : a.names w = none) : (a.move v w).move w v = a := by
  have hbelow : ∀ {r}, w <:+ r → a.names r = none := fun {r} hr => by
    by_contra hn
    exact hs.under hw hn hr
  have hnames : (a.names.move v w).move w v = a.names := by
    funext r
    by_cases hv : v <:+ r
    · obtain ⟨z,rfl⟩ := hv
      rw [Namespace.move_inside, Namespace.move_inside]
    · by_cases hr : w <:+ r
      · rw [Namespace.move_gone hv hr, hbelow hr]
      · rw [Namespace.move_outside hv hr, Namespace.move_outside hr hv]
  have hhandle : (fun fid => ((a.handle fid).map (Files.relocate v w)).map (Files.relocate w v)) = a.handle := by
    funext fid
    cases hg : a.handle fid with
    | none => rfl
    | some g =>
      obtain ⟨data,hd⟩ := (hs.held fid g hg).file
      have hout : ¬w <:+ g.path := fun hn => by
        rw [hs.names, hbelow hn] at hd
        cases hd
      exact congrArg some (Files.relocate_relocate hout)
  show (⟨(a.names.move v w).move w v,_⟩ : Files) = a
  rw [hnames]
  exact congrArg (Files.mk a.names) hhandle

/-- A rename that succeeds, where the target is not there. -/
theorem Files.Step.moved (hstep : Files.Step a (.rename p x q y) (.code lab4Success) b) (hy : a.names (y :: q) = none) :
    a.names (x :: p) ≠ none ∧ b = a.move (x :: p) (if p = q then y :: q else x :: q) := by
  generalize hz : lab4Success = z at hstep
  cases hstep with
  | renameMissing | renameExists => exact absurd hz (by decide)
  | renamed hsrc _ =>
    rw [newPath, if_neg (fun hd => by cases hy.symm.trans hd)]
    exact ⟨hsrc,rfl⟩

/-- A rename in place, or into another directory under the same name, and the way back. -/
theorem Served.rename_back
    (h : Served s [(.rename p x q y,.code lab4Success),(.rename q y p x,.code lab4Success)] t) (hs : s.iom.Shows a)
    (hl : Files.spec.Permits a [(.rename p x q y,.code lab4Success),(.rename q y p x,.code lab4Success)])
    (hname : p = q ∨ y = x) (hy : a.names (y :: q) = none) : t.iom.Shows a := by
  obtain ⟨hc,s1,b1,hfirst,hs1,ht1,hl1⟩ := h.first hs hl
  have hnew : (if p = q then y :: q else x :: q) = y :: q := by
    split
    · rfl
    · next hne => rw [hname.resolve_left hne]
  have hold : (if q = p then x :: p else y :: p) = x :: p := by
    split
    · rfl
    · next hne => rw [hname.resolve_left (fun hpq => hne hpq.symm)]
  obtain ⟨hsrc,rfl⟩ := hfirst.moved hy
  rw [hnew] at hs1 hl1
  have hgone : (a.move (x :: p) (y :: q)).names (x :: p) = none := Namespace.move_gone (hs.under hy hsrc) List.suffix_rfl
  obtain ⟨_,s2,b2,hsecond,hs2,ht2,_⟩ := ht1.first hs1 hl1
  obtain ⟨_,rfl⟩ := hsecond.moved hgone
  rw [hold, hs.move_move hy] at hs2
  cases ht2
  exact hs2

end Undo

/-! ## Reading back -/

/-- A new file with its data, closed again. -/
theorem Served.written {path : List UInt8} {flags mode : ℕ} {w z : Answer}
    (h : Served s ((.openFile p x flags mode,.code fid) :: (.write path fid data 0,w) :: (.release fid,z) :: l) t)
    (hs : s.iom.Shows a) (hnew : a.names (x :: p) = none) (hfid : 0 < fid)
    (hl : Files.spec.Permits a ((.openFile p x flags mode,.code fid) :: (.write path fid data 0,w) :: (.release fid,z) :: l)) :
    data ≠ [] ∧ ∃ s1 b, s1.iom.Shows b ∧ b.names (x :: p) = some (.file data) ∧ b.Kept (x :: p) b.names ∧ Served s1 l t ∧
      Files.spec.Permits b l := by
  have hclosed : ∀ k g, a.handle k = some g → ¬x :: p <:+ g.path := fun k g hg => by
    obtain ⟨old,hold⟩ := (hs.held k g hg).file
    exact hs.under hnew (by rw [← hs.names, hold]; exact Option.some_ne_none _)
  obtain ⟨_,s1,b1,hopen,hs1,ht1,hl1⟩ := h.first hs hl
  obtain ⟨j,hj,_,rfl⟩ := hopen.open_new (Int.natCast_pos.mpr hfid) hnew
  obtain rfl : fid = j := Int.ofNat.inj hj
  obtain ⟨hw,s2,b2,hwrite,hs2,ht2,hl2⟩ := ht1.first hs1 hl1
  have hhandle : ((a.put (x :: p) (some (.file []))).setHandle fid (some ⟨x :: p,0⟩)).handle fid = some ⟨x :: p,0⟩ :=
    Files.setHandle_self
  have hfile : ((a.put (x :: p) (some (.file []))).setHandle fid (some ⟨x :: p,0⟩)).names (x :: p) = some (.file []) :=
    Files.put_self
  obtain ⟨_,s3,b3,hrelease,hs3,ht3,hl3⟩ := ht2.first hs2 hl2
  refine ⟨hw.2.some,s3,b3,hs3,?_⟩
  cases hrelease
  cases hwrite with
  | appended hh hn _ =>
    obtain rfl := Option.some.inj (hhandle.symm.trans hh)
    obtain rfl := Node.file.inj (Option.some.inj (hfile.symm.trans hn))
    refine ⟨Files.put_self,⟨fun _ _ => rfl,fun k g hk => ?_⟩,ht3,hl3⟩
    by_cases hkf : k = fid
    · subst hkf
      rw [Files.setHandle_self] at hk
      cases hk
    · rw [Files.setHandle_of_ne hkf, Files.setHandle_of_ne hkf] at hk
      exact hclosed k g ((Files.setHandle_of_ne hkf).symm.trans hk)
  | replaced hh hn ho =>
    obtain rfl := Option.some.inj (hhandle.symm.trans hh)
    obtain rfl := Node.file.inj (Option.some.inj (hfile.symm.trans hn))
    exact absurd rfl ho

/-- Whoever opens a file reads its bytes, up to the first zero. -/
theorem Served.read_bytes {path bytes : List UInt8} {flags mode size : ℕ} {n : ℤ}
    (h : Served s [(.openFile p x flags mode,.code fid),(.read path fid size,.data n bytes)] t) (hs : s.iom.Shows a)
    (hst : a.names (x :: p) = some (.file data)) (hfid : 0 < fid) (hsome : data ≠ [])
    (hl : Files.spec.Permits a [(.openFile p x flags mode,.code fid),(.read path fid size,.data n bytes)]) :
    size ≤ data.length ∧ bytes = (data.take size).takeWhile (· ≠ 0) ∧ n = bytes.length := by
  obtain ⟨_,s1,b1,hopen,hs1,ht1,hl1⟩ := h.first hs hl
  obtain ⟨j,hj,_,rfl⟩ := hopen.open_old (Int.natCast_pos.mpr hfid) hst
  obtain rfl : fid = j := Int.ofNat.inj hj
  obtain ⟨hr,s2,b2,hread,_⟩ := ht1.first hs1 hl1
  have hhandle : (a.setHandle fid (some ⟨x :: p,data.length⟩)).handle fid = some ⟨x :: p,data.length⟩ := Files.setHandle_self
  have hfile : (a.setHandle fid (some ⟨x :: p,data.length⟩)).names (x :: p) = some (.file data) := hst
  obtain ⟨_,_,g,d,hg,hd,hsize⟩ := hr
  obtain rfl := Option.some.inj (hhandle.symm.trans hg)
  obtain rfl := Node.file.inj (Option.some.inj (hfile.symm.trans hd))
  refine ⟨hsize.resolve_left hsome,?_⟩
  cases hread with
  | read hh hn =>
    obtain rfl := Option.some.inj (hhandle.symm.trans hh)
    obtain rfl := Node.file.inj (Option.some.inj (hfile.symm.trans hn))
    exact ⟨rfl,rfl⟩

end SimpleFS
