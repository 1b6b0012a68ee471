import SimpleFS.Directory

/-! # Paths on a mounted volume

What path resolution returns when transfers and allocations succeed, as a function of the io manager,
and how a path falls apart into a parent and a last component.
-/
namespace SimpleFS
open Bytes Machine Prog

/-! ## The last component -/

def lastName (path : List UInt8) : List UInt8 := fPtrLoop (path.length + 1) path
def dirName (path : List UInt8) : List UInt8 := path.take (path.length - (lastName path).length - 1)

theorem strchr_none {l : List UInt8} (h : slash ∉ l) : strchr slash l = none := by
  induction l with
  | nil => rfl
  | cons a l ih =>
    rw [List.mem_cons, not_or] at h
    rw [strchr, if_neg (Ne.symm h.1), ih h.2]

theorem strchr_append {a l : List UInt8} (h : slash ∉ a) : strchr slash (a ++ slash :: l) = some (slash :: l) := by
  induction a with
  | nil => exact if_pos rfl
  | cons c a ih =>
    rw [List.mem_cons, not_or] at h
    rw [List.cons_append, strchr, if_neg (Ne.symm h.1), ih h.2]

/-- Behind the last slash the loop stops, however many slashes came before. -/
theorem fPtrLoop_append {a x : List UInt8} (hx : slash ∉ x) {fuel : ℕ} (hf : a.length < fuel) :
    fPtrLoop fuel (a ++ slash :: x) = x := by
  induction fuel generalizing a with
  | zero => omega
  | succ fuel ih =>
    by_cases ha : slash ∈ a
    · obtain ⟨b,c,rfl,hb⟩ := List.eq_append_cons_of_mem ha
      rw [List.append_assoc, List.cons_append, fPtrLoop, strchr_append hb]
      refine ih ?_
      rw [List.length_append, List.length_cons] at hf
      omega
    · rw [fPtrLoop, strchr_append ha]
      cases fuel with
      | zero => rfl
      | succ fuel =>
        dsimp only
        rw [List.tail_cons, fPtrLoop, strchr_none hx]

theorem lastName_append {a x : List UInt8} (hx : slash ∉ x) : lastName (a ++ slash :: x) = x :=
  fPtrLoop_append hx (by rw [List.length_append, List.length_cons]; omega)

theorem dirName_append {a x : List UInt8} (hx : slash ∉ x) : dirName (a ++ slash :: x) = a := by
  have hlen : (a ++ slash :: x).length - x.length - 1 = a.length := by
    rw [List.length_append, List.length_cons]
    omega
  rw [dirName, lastName_append hx, hlen, List.take_left]

/-- A path with a slash is its directory part, a slash and its last component. -/
theorem path_split {path : List UInt8} (h : slash ∈ path) :
    path = dirName path ++ slash :: lastName path ∧ slash ∉ lastName path := by
  obtain ⟨b,c,hbc,hb⟩ := List.eq_append_cons_of_mem (List.mem_reverse.mpr h)
  have hpath : path = c.reverse ++ slash :: b.reverse := by
    rw [← List.reverse_reverse path, hbc]
    simp
  have hx : slash ∉ b.reverse := by rwa [List.mem_reverse]
  rw [hpath, dirName_append hx, lastName_append hx]
  exact ⟨rfl,hx⟩

theorem strtok_append {a x : List UInt8} (hx : slash ∉ x) :
    strtok (a ++ slash :: x) = strtok a ++ if x = [] then [] else [x] := by
  unfold strtok
  rw [List.splitOn_append_cons_self, List.splitOn_eq_singleton hx, List.filter_append]
  split
  · next h => simp [h]
  · next h => simp [h]

/-- The absolute path with the given components. -/
def mkPath (names : List (List UInt8)) : List UInt8 := names.flatMap (slash :: ·)

theorem mkPath_append (names : List (List UInt8)) (x : List UInt8) :
    mkPath (names ++ [x]) = mkPath names ++ slash :: x := by
  simp [mkPath, List.flatMap_append]

/-- A component that a path can hold. -/
structure PathName (x : List UInt8) : Prop where
  pos : x ≠ []
  noSlash : slash ∉ x

theorem strtok_mkPath {names : List (List UInt8)} (h : ∀ x ∈ names, PathName x) : strtok (mkPath names) = names := by
  induction names using List.reverseRecOn with
  | nil => rfl
  | append_singleton names x ih =>
    have hx : PathName x := h x (by simp)
    rw [mkPath_append, strtok_append hx.noSlash, if_neg hx.pos, ih (fun y hy => h y (by simp [hy]))]

variable {u : Prop} {e : Env} {s : Sys}

/-- Both parts of the path fit their buffers with a terminator. -/
structure PathOk (path : List UInt8) : Prop where
  slash : slash ∈ path
  last : (lastName path).length < fnameSize
  dir : (dirName path).length < fnameSize

theorem NameBuf.copy_eq_some {bytes : List UInt8} {b : NameBuf} (h : NameBuf.copy bytes = some b) : b.bytes = bytes := by
  unfold NameBuf.copy at h
  split at h
  · cases h
    rfl
  · cases h

theorem NameBuf.cstr_eq_some {b : NameBuf} {x : List UInt8} (h : b.cstr = some x) :
    x = b.bytes ∧ b.bytes.length < fnameSize := by
  unfold NameBuf.cstr at h
  split at h
  · next hb =>
    cases h
    exact ⟨rfl,hb⟩
  · cases h

theorem wp_getNameFromPath {path : List UInt8} {Q : NameBuf × NameBuf → Sys → Prop}
    (hbad : ¬e.MallocOk ∨ ¬PathOk path → u)
    (h : ∀ s' f d, s'.iom = s.iom → slash ∈ path → f.bytes = lastName path → d.bytes = dirName path → Q (f,d) s') :
    wp u (getNameFromPath path) Q e s := by
  unfold getNameFromPath
  rw [wp_bind]
  apply wp_malloc_cases
  intro c s1 h1 hc
  cases c with
  | false =>
    rw [if_pos (by decide), wp_undefined]
    exact hbad (.inl (hc rfl))
  | true =>
    rw [if_neg (by decide)]
    dsimp only
    rw [heapPath_text, wp_bind, wp_lift]
    refine ⟨fun hf => hbad (.inr fun hp => ?_),fun f hf => ?_⟩
    · have hlast := hp.last
      unfold lastName at hlast
      rw [NameBuf.copy, dif_pos hlast.le] at hf
      cases hf
    rw [wp_ite, wp_undefined]
    refine ⟨fun hs => ?_,fun hs => hbad (.inr fun hp => hs hp.slash)⟩
    rw [wp_bind, wp_lift]
    refine ⟨fun hd => hbad (.inr fun hp => ?_),fun d hd => ?_⟩
    · have hdir := hp.dir
      unfold dirName lastName at hdir
      rw [NameBuf.copy, dif_pos hdir.le] at hd
      cases hd
    · rw [wp_pure]
      exact h s1 f d h1 hs (NameBuf.copy_eq_some hf) (NameBuf.copy_eq_some hd)

/-! ## Resolution -/

/-- The slot a lookup finds or the error it returns; `none` where the lookup is undefined. -/
def Iom.lookupSlot (m : Iom) (D : UInt32) (filename : List UInt8) : Option (Except ℤ ℕ) :=
  if D.toNat < 2 then some (.error lab4Error)
  else if m.inodeNum ≤ D.toNat then none
  else match m.scan (lookupTest filename) D.toNat with
    | none => none
    | some (false,_) => some (.error (-enoent))
    | some (true,i) => some (.ok i)

/-- `lab4_read_inode` behind the tokenizer: the number at the end of a chain of lookups. -/
def Iom.walk (m : Iom) : List (List UInt8) → UInt32 → Option (Except ℤ UInt32)
  | [], D => some (.ok D)
  | filename :: rest, D =>
    match m.lookupSlot D filename with
    | none => none
    | some (.error res) => some (.error res)
    | some (.ok i) => m.walk rest (m.slotEntry D.toNat i).dIno

/-- The record a path leads to. -/
def Iom.readInode (m : Iom) (path : List UInt8) : Option (Except ℤ (Option Inode)) :=
  if 256 ≤ path.length then none
  else match m.walk (strtok path) m.sbi.rootIno with
    | none => none
    | some (.error res) => some (.error res)
    | some (.ok D) =>
      if D.toNat < 2 then some (.ok none)
      else if m.inodeNum ≤ D.toNat then none
      else some (.ok (some (m.inode D.toNat)))

/-- Every record of the table has a block address that fits an `int`. -/
def Iom.AddrOk (m : Iom) : Prop := ∀ k, 2 ≤ k → k < m.inodeNum → m.dataAddr k < 2^31

/-- The records that the chain of lookups reads have such an address. -/
def Iom.WalkAddr (m : Iom) : List (List UInt8) → UInt32 → Prop
  | [], _ => True
  | filename :: rest, D =>
    m.AddrAt D ∧ ∀ i, m.lookupSlot D filename = some (.ok i) → m.WalkAddr rest (m.slotEntry D.toNat i).dIno

theorem Iom.AddrOk.walk {m : Iom} (h : m.AddrOk) (names : List (List UInt8)) (D : UInt32) : m.WalkAddr names D := by
  induction names generalizing D with
  | nil => trivial
  | cons filename rest ih => exact ⟨h D.toNat,fun i _ => ih _⟩

theorem lookupSlot_error {m : Iom} {D : UInt32} {filename : List UInt8} {res : ℤ}
    (h : m.lookupSlot D filename = some (.error res)) : res = lab4Error ∨ res = -enoent := by
  unfold Iom.lookupSlot at h
  split at h
  · cases h
    exact .inl rfl
  · split at h
    · cases h
    · split at h
      · cases h
      · cases h
        exact .inr rfl
      · cases h

theorem walk_error {m : Iom} {names : List (List UInt8)} {D : UInt32} {res : ℤ}
    (h : m.walk names D = some (.error res)) : res = lab4Error ∨ res = -enoent := by
  induction names generalizing D with
  | nil => cases h
  | cons filename rest ih =>
    rw [Iom.walk] at h
    split at h
    · cases h
    · next res' hl =>
      cases h
      exact lookupSlot_error hl
    · exact ih h

theorem readInode_error {m : Iom} {path : List UInt8} {res : ℤ} (h : m.readInode path = some (.error res)) :
    res = lab4Error ∨ res = -enoent := by
  unfold Iom.readInode at h
  split at h
  · cases h
  · split at h
    · cases h
    · next hw =>
      cases h
      exact walk_error hw
    · split at h
      · cases h
      · split at h <;> cases h

theorem readInode_record {m : Iom} {path : List UInt8} {v : Inode} (h : m.readInode path = some (.ok (some v))) :
    ∃ k, 2 ≤ k ∧ k < m.inodeNum ∧ v = m.inode k ∧ ∃ D, D.toNat = k ∧ m.walk (strtok path) m.sbi.rootIno = some (.ok D) := by
  unfold Iom.readInode at h
  split at h
  · cases h
  · split at h
    · cases h
    · cases h
    · next D hw =>
      split at h
      · cases h
      · split at h
        · cases h
        · cases h
          exact ⟨D.toNat,by omega,by omega,rfl,D,rfl,hw⟩

theorem lookupSlot_of_scan {m : Iom} {D : UInt32} {filename : List UInt8} {r : Option (Bool × ℕ)} (hlo : 2 ≤ D.toNat)
    (hhi : D.toNat < m.inodeNum) : m.scan (lookupTest filename) D.toNat = r →
    m.lookupSlot D filename = match r with
      | none => none
      | some (false,_) => some (.error (-enoent))
      | some (true,i) => some (.ok i) := by
  rintro rfl
  unfold Iom.lookupSlot
  have hlo' : ¬D.toNat < 2 := by omega
  exact (if_neg hlo').trans (if_neg (Nat.not_le.mpr hhi))

theorem readInode_of_walk {m : Iom} {path : List UInt8} {r : Option (Except ℤ UInt32)} (hlen : path.length < 256) :
    m.walk (strtok path) m.sbi.rootIno = r → m.readInode path = match r with
      | none => none
      | some (.error res) => some (.error res)
      | some (.ok D) => if D.toNat < 2 then some (.ok none) else if m.inodeNum ≤ D.toNat then none
          else some (.ok (some (m.inode D.toNat))) := by
  rintro rfl
  exact if_neg (Nat.not_le.mpr hlen)

/-- The rule of `lab4_lookup` in one piece. -/
theorem wp_lab4Lookup_slot {D : UInt32} {fileEntry : DirEntry} {filename : List UInt8} {isdelete : ℤ}
    {Q : ℤ × DirEntry × ℤ → Sys → Prop} (hm : s.iom.Mounted)
    (hbad : ¬(e.Nominal ∧ s.iom.AddrAt D) → ∀ s', s'.iom = s.iom → Q (lab4Error,fileEntry,isdelete) s')
    (hu : s.iom.lookupSlot D filename = none → u)
    (herr : ∀ s' res, s'.iom = s.iom → s.iom.AddrAt D → s.iom.lookupSlot D filename = some (.error res) →
      Q (res,fileEntry,isdelete) s')
    (hok : ∀ s' i, s'.iom = s.iom → s.iom.AddrAt D → 2 ≤ D.toNat → D.toNat < s.iom.inodeNum →
      s.iom.lookupSlot D filename = some (.ok i) → s.iom.scan (lookupTest filename) D.toNat = some (true,i) →
      Q (s.iom.lookupResult D.toNat i isdelete) s') :
    wp u (lab4Lookup D fileEntry filename isdelete) Q e s := by
  refine wp_lab4Lookup_ticks hm (fun hlow => herr s _ rfl (fun hlo => absurd hlow (by omega)) (if_pos hlow)) (fun s' hs' hn => ?_)
    (fun s' hs' _ hlo hhi hf => ?_) ?_ ?_ ?_ ?_
  · exact hbad (fun he => hn he.1.malloc) s' hs'
  · refine hbad (fun he => ?_) s' hs'
    have ha := he.2 hlo hhi
    rw [he.1.io] at hf
    rcases hf with hf | hf
    · cases hf
    · omega
  · intro hlo hhi
    exact hu (by rw [Iom.lookupSlot, if_neg (by omega), if_pos hhi])
  · exact fun hlo hhi hscan => hu (lookupSlot_of_scan hlo hhi hscan)
  · exact fun s' i hs' _ _ ha hlo hhi hscan => hok s' i hs' (fun _ _ => ha) hlo hhi (lookupSlot_of_scan hlo hhi hscan) hscan
  · exact fun s' i hs' _ _ ha hlo hhi hscan => herr s' _ hs' (fun _ _ => ha) (lookupSlot_of_scan hlo hhi hscan)

theorem wp_walkPath {names : List (List UInt8)} {D : UInt32} {isdelete : ℤ} {Q : ℤ × UInt32 → Sys → Prop}
    (hm : s.iom.Mounted) (hisd : isdelete ≠ 1)
    (hbad : ¬(e.Nominal ∧ s.iom.WalkAddr names D) → ∀ s' D', s'.iom = s.iom → Q (lab4Error,D') s')
    (hu : s.iom.walk names D = none → u)
    (herr : ∀ s' res D', s'.iom = s.iom → s.iom.walk names D = some (.error res) → Q (res,D') s')
    (hok : ∀ s' D', s'.iom = s.iom → s.iom.WalkAddr names D → s.iom.walk names D = some (.ok D') →
      Q (lab4Success,D') s') :
    wp u (walkPath names D isdelete) Q e s := by
  induction names generalizing D isdelete s with
  | nil =>
    rw [walkPath, wp_pure]
    exact hok s D rfl trivial rfl
  | cons filename rest ih =>
    rw [walkPath, wp_bind]
    refine wp_lab4Lookup_slot hm ?_ ?_ ?_ ?_
    · intro hn s1 h1
      dsimp only
      rw [if_pos rfl, wp_pure]
      exact hbad (fun he => hn ⟨he.1,he.2.1⟩) s1 D h1
    · intro hl
      exact hu (by rw [Iom.walk, hl])
    · intro s1 res h1 _ hl
      have hw : s.iom.walk (filename :: rest) D = some (.error res) := by rw [Iom.walk, hl]
      dsimp only
      rcases lookupSlot_error hl with rfl | rfl
      · rw [if_pos rfl, wp_pure]
        exact herr s1 _ D h1 hw
      · rw [if_neg (by decide), if_pos rfl, wp_pure]
        exact herr s1 _ D h1 hw
    · intro s1 i h1 ha _ _ hl _
      have hw : s.iom.walk (filename :: rest) D = s.iom.walk rest (s.iom.slotEntry D.toNat i).dIno := by
        rw [Iom.walk, hl]
      rw [hw] at hu herr hok
      rw [lookupResult_keep _ _ _ hisd]
      dsimp only
      rw [if_neg (by decide), if_neg (by decide)]
      have hbad' : ¬(e.Nominal ∧ s.iom.WalkAddr rest (s.iom.slotEntry D.toNat i).dIno) → ∀ s' D', s'.iom = s.iom →
          Q (lab4Error,D') s' := by
        refine fun hn => hbad (fun he => hn ⟨he.1,?_⟩)
        exact he.2.2 i hl
      have hok' : ∀ s' D', s'.iom = s.iom → s.iom.WalkAddr rest (s.iom.slotEntry D.toNat i).dIno →
          s.iom.walk rest (s.iom.slotEntry D.toNat i).dIno = some (.ok D') → Q (lab4Success,D') s' := by
        refine fun s' D' h hwa => hok s' D' h ⟨ha,fun j hj => ?_⟩
        cases hl.symm.trans hj
        exact hwa
      rw [← h1] at hm hbad' hu herr hok' ⊢
      exact ih hm (by decide) hbad' hu herr hok'

theorem wp_lab4ReadInode {path : List UInt8} {Q : ℤ × Option Inode → Sys → Prop} (hm : s.iom.Mounted)
    (hbad : ¬(e.Nominal ∧ s.iom.WalkAddr (strtok path) s.iom.sbi.rootIno) → ∀ s' res, s'.iom = s.iom → res = lab4Error ∨ res = lab4Success → Q (res,none) s')
    (hu : s.iom.readInode path = none → u)
    (herr : ∀ s' res, s'.iom = s.iom → s.iom.readInode path = some (.error res) → Q (res,none) s')
    (hok : ∀ s' v, s'.iom = s.iom → s.iom.WalkAddr (strtok path) s.iom.sbi.rootIno →
      s.iom.readInode path = some (.ok v) → Q (lab4Success,v) s') :
    wp u (lab4ReadInode path none) Q e s := by
  have hn := hm.inodeNum_le
  have hroot : s.iom.sbi.rootIno.toNat = 2 := by rw [hm.rootIno]; rfl
  -- reading the record at the end of the chain
  have hread : ∀ s1 D, s1.iom = s.iom → path.length < 256 → s.iom.WalkAddr (strtok path) s.iom.sbi.rootIno → s.iom.walk (strtok path) s.iom.sbi.rootIno = some (.ok D) →
      wp u (doReadInode D) (fun v s' => Q (lab4Success,v) s') e s1 := by
    intro s1 D h1 hlen hwa hw
    have hpath : s.iom.readInode path = if D.toNat < 2 then some (.ok none)
        else if s.iom.inodeNum ≤ D.toNat then none else some (.ok (some (s.iom.inode D.toNat))) :=
      readInode_of_walk hlen hw
    refine wp_doReadInode (fun s2 h2 hc => ?_) (fun hlo hhi => ?_) (fun s2 h2 hlo hhi => ?_)
    · rcases hc with hc | hc
      · exact hok s2 none (h2.trans h1) hwa (by rw [hpath, if_pos hc])
      · exact hbad (fun he => hc he.1.malloc) s2 _ (h2.trans h1) (.inr rfl)
    · exact hu (by rw [hpath, if_neg (by omega), if_pos (h1 ▸ hhi)])
    · rw [h1] at hhi ⊢
      exact hok s2 _ (h2.trans h1) hwa (by rw [hpath, if_neg (by omega), if_neg (by omega)])
  unfold lab4ReadInode
  rw [wp_bind, wp_getIom, wp_ite]
  refine ⟨fun hs => ?_,fun _ => ?_⟩
  · simp only [wp_bind, wp_pure]
    exact hread s _ rfl (by rw [hs]; decide) (by rw [hs]; trivial) (by rw [hs]; rfl)
  dsimp only
  rw [stackPath_cap, stackPath_text, wp_ite, wp_undefined]
  refine ⟨fun hlen => hu (if_pos hlen),fun hlen => ?_⟩
  rw [wp_bind]
  refine wp_walkPath hm (by decide) ?_ ?_ ?_ ?_
  · intro hno s1 D h1
    dsimp only
    rw [if_pos rfl, wp_pure]
    exact hbad hno s1 _ h1 (.inl rfl)
  · intro hw
    exact hu (readInode_of_walk (by omega) hw)
  · intro s1 res D h1 hw
    have hp : s.iom.readInode path = some (.error res) := readInode_of_walk (by omega) hw
    dsimp only
    rcases walk_error hw with rfl | rfl
    · rw [if_pos rfl, wp_pure]
      exact herr s1 _ h1 hp
    · rw [if_neg (by decide), if_pos rfl, wp_pure]
      exact herr s1 _ h1 hp
  · intro s1 D h1 hwa hw
    dsimp only
    rw [if_neg (by decide), if_neg (by decide), wp_bind]
    simp only [wp_pure]
    exact hread s1 D h1 (by omega) hwa hw

end SimpleFS
