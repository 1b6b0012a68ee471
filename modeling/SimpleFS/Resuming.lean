import SimpleFS.Listing

/-! # Resuming a listing

`do_readdir` starts its byte position at the offset but its entry pointer at slot 0, so from offset `k` it
reports the first `n - k` slots in place of the last ones.
-/
namespace SimpleFS
open Bytes Machine Prog

variable {e : Env} {s : Sys} {p : Inode} {n k : ℕ}

/-! ## Windows of slots -/

/-- Two windows of equal length show the same sequence of pairwise different values exactly when every value lies
in both or in neither. -/
theorem filterMap_windows {α : Type} {f : ℕ → Option α} (hk : k ≤ n)
    (hinj : ∀ i < n, ∀ j < n, ∀ a, f i = some a → f j = some a → i = j) :
    (List.range' 0 (n - k)).filterMap f = (List.range' k (n - k)).filterMap f ↔
      ∀ i < n, (f i).isSome → (i < n - k ↔ k ≤ i) := by
  constructor
  · intro h i hi hsome
    obtain ⟨a,ha⟩ := Option.isSome_iff_exists.mp hsome
    have hmem : ∀ j c, a ∈ (List.range' j c).filterMap f → j + c ≤ n → j ≤ i ∧ i < j + c := fun j c hm hc => by
      obtain ⟨l,hl,hfl⟩ := List.mem_filterMap.mp hm
      have hlr := List.mem_range'_1.mp hl
      obtain rfl := hinj i hi l (by omega) a ha hfl
      exact hlr
    have hin : ∀ j c, j ≤ i → i < j + c → a ∈ (List.range' j c).filterMap f := fun j c hj hc =>
      List.mem_filterMap.mpr ⟨i,List.mem_range'_1.mpr ⟨hj,hc⟩,ha⟩
    constructor
    · intro hlt
      have hm := hin 0 (n - k) (Nat.zero_le i) (by omega)
      rw [h] at hm
      exact (hmem k (n - k) hm (by omega)).1
    · intro hle
      have hm := hin k (n - k) hle (by omega)
      rw [← h] at hm
      have := (hmem 0 (n - k) hm (by omega)).2
      omega
  · intro h
    -- outside the common part of the windows no slot holds a value
    have hdrop : ∀ i < n, ¬(k ≤ i ∧ i < n - k) → (i < n - k ∨ k ≤ i) → f i = none := fun i hi hout hor => by
      by_contra hne
      have hiff := h i hi (Option.isSome_iff_ne_none.mpr hne)
      rcases hor with hlt | hle
      · exact hout ⟨hiff.mp hlt,hlt⟩
      · exact hout ⟨hle,hiff.mpr hle⟩
    have hnone : ∀ j c, j + c ≤ n → (∀ i, j ≤ i → i < j + c → f i = none) → (List.range' j c).filterMap f = [] :=
      fun j c _ hall => List.filterMap_eq_nil_iff.mpr (fun i hi => by
        have := List.mem_range'_1.mp hi
        exact hall i this.1 this.2)
    rcases Nat.lt_or_ge (n - k) k with hlt | hge
    · rw [hnone 0 (n - k) (by omega) (fun i _ hi => hdrop i (by omega) (by omega) (.inl (by omega))),
        hnone k (n - k) (by omega) (fun i hi hi' => hdrop i (by omega) (by omega) (.inr hi))]
    · have hleft : List.range' 0 (n - k) = List.range' 0 k ++ List.range' k (n - k - k) := by
        have happ := List.range'_append_1 (s := 0) (m := k) (n := n - k - k)
        rw [Nat.zero_add] at happ
        rw [happ]
        congr 1
        omega
      have hright : List.range' k (n - k) = List.range' k (n - k - k) ++ List.range' (n - k) k := by
        have happ := List.range'_append_1 (s := k) (m := n - k - k) (n := k)
        rw [show k + (n - k - k) = n - k by omega] at happ
        rw [happ]
        congr 1
        omega
      rw [hleft, hright, List.filterMap_append, List.filterMap_append,
        hnone 0 k (by omega) (fun i _ hi => hdrop i (by omega) (by omega) (.inl (by omega))),
        hnone (n - k) k (by omega) (fun i hi hi' => hdrop i (by omega) (by omega) (.inr (by omega))), List.nil_append,
        List.append_nil]

/-! ## The two listings -/

/-- The listing from offset `k` of a block of `n` slots is what the slots from `k` on hold, and continues what the
slots before hold to the whole listing. -/
structure ListingResumes (e : Env) (s : Sys) (p : Inode) (n k : ℕ) : Prop where
  exact : ∃ s', doReaddir p k e s = some ((lab4Success,s.iom.listed p k (n - k)),s')
  joined : ∃ whole rest s0 sk, doReaddir p 0 e s = some ((lab4Success,whole),s0) ∧
    doReaddir p k e s = some ((lab4Success,rest),sk) ∧ s.iom.listed p 0 k ++ rest = whole

/-- Slots in a row. -/
theorem listed_append (m : Iom) (p : Inode) (hk : k ≤ n) : m.listed p 0 k ++ m.listed p k (n - k) = m.listed p 0 n := by
  have happ := List.range'_append_1 (s := 0) (m := k) (n := n - k)
  rw [Nat.zero_add, Nat.add_sub_cancel' hk] at happ
  unfold Iom.listed Iom.filledSlots
  rw [← List.filterMap_append, happ]

section Resumes
variable (he : e.Nominal) (hsize : p.iSize.toInt = (lab4DirEntrySize * n : ℕ)) (hn : lab4DirEntrySize * n < 2^31) (hk : k ≤ n)
include he hsize hn hk

/-- What the code lists. -/
theorem doReaddir_run (hr : ∀ i < n - k, s.iom.Reportable (s.iom.blockEntry p i)) :
    ∃ s', doReaddir p k e s = some ((lab4Success,s.iom.listed p 0 (n - k)),s') := by
  have hrun : wp False (doReaddir p k) (fun r _ => r = (lab4Success,s.iom.listed p 0 (n - k))) e s :=
    wp_doReaddir_rounds he hsize hn hk (fun hn => hn hr) (fun _ _ _ => rfl)
  obtain ⟨r,s',hrun,rfl⟩ := wp_false.mp hrun
  exact ⟨s',hrun⟩

/-- A listing that ends was of entries it could hand on. -/
theorem reportable_of_run {r : ℤ × List Filled} {s' : Sys} (hrun : doReaddir p k e s = some (r,s')) :
    (∀ i < n - k, s.iom.Reportable (s.iom.blockEntry p i)) ∧ r = (lab4Success,s.iom.listed p 0 (n - k)) := by
  have hwp : wp True (doReaddir p k) (fun r _ => (∀ i < n - k, s.iom.Reportable (s.iom.blockEntry p i)) ∧
      r = (lab4Success,s.iom.listed p 0 (n - k))) e s :=
    wp_doReaddir_rounds he hsize hn hk (fun _ => trivial) (fun _ hr _ => ⟨hr,rfl⟩)
  exact hwp.elim hrun

theorem resumes_iff : ListingResumes e s p n k ↔
    (∀ i < n, s.iom.Reportable (s.iom.blockEntry p i)) ∧ s.iom.listed p 0 (n - k) = s.iom.listed p k (n - k) := by
  constructor
  · rintro ⟨⟨s1,hexact⟩,whole,rest,s0,sk,hwhole,_,_⟩
    refine ⟨(reportable_of_run (k := 0) he hsize hn (Nat.zero_le n) hwhole).1,?_⟩
    exact (congrArg Prod.snd (reportable_of_run he hsize hn hk hexact).2).symm
  · rintro ⟨hr,hsame⟩
    obtain ⟨s0,h0⟩ := doReaddir_run (k := 0) he hsize hn (Nat.zero_le n) hr
    obtain ⟨s1,h1⟩ := doReaddir_run he hsize hn hk (fun i hi => hr i (by omega))
    refine ⟨⟨s1,hsame ▸ h1⟩,_,_,s0,s1,h0,h1,?_⟩
    rw [hsame, listed_append s.iom p hk]
    rfl

end Resumes

/-- The names of the used slots differ. -/
def Iom.DistinctNames (m : Iom) (p : Inode) (n : ℕ) : Prop := ∀ i < n, ∀ j < n, (m.blockEntry p i).dFlag = lab4DirUsed →
  (m.blockEntry p j).dFlag = lab4DirUsed → cstr (m.blockEntry p i).dFilename = cstr (m.blockEntry p j).dFilename → i = j

theorem filled_name {m : Iom} {d : DirEntry} {f : Filled} (h : m.filled d = some f) :
    d.dFlag = lab4DirUsed ∧ f.name = cstr d.dFilename := by
  unfold Iom.filled at h
  split at h
  · next hf =>
    cases h
    exact ⟨hf,rfl⟩
  · cases h

/-- With distinct names the first and the last slots hold the same where every used slot is in both. -/
theorem listed_eq_iff {m : Iom} (hk : k ≤ n) (hd : m.DistinctNames p n) :
    m.listed p 0 (n - k) = m.listed p k (n - k) ↔
      ∀ i < n, (m.blockEntry p i).dFlag = lab4DirUsed → (i < n - k ↔ k ≤ i) := by
  refine (filterMap_windows hk (fun i hi j hj f hfi hfj => ?_)).trans ?_
  · obtain ⟨hui,hni⟩ := filled_name hfi
    obtain ⟨huj,hnj⟩ := filled_name hfj
    exact hd i hi j hj hui huj (hni.symm.trans hnj)
  · have hused : ∀ i, (m.filled (m.blockEntry p i)).isSome ↔ (m.blockEntry p i).dFlag = lab4DirUsed := fun i => by
      unfold Iom.filled
      split <;> simp [*]
    exact forall_congr' (fun i => forall_congr' (fun _ => by rw [← hused i]; rfl))

/-- A listing resumes at slot `k` exactly when it can hand on every used entry and the first `n - k` slots hold the
same used entries in the same order as the slots from `k` on; with distinct names, when a used slot is among the
first `n - k` exactly if it is at `k` or behind. -/
theorem listing_resumes_iff (he : e.Nominal) (hsize : p.iSize.toInt = (lab4DirEntrySize * n : ℕ))
    (hn : lab4DirEntrySize * n < 2^31) (hk : k ≤ n) :
    (ListingResumes e s p n k ↔
      (∀ i < n, s.iom.Reportable (s.iom.blockEntry p i)) ∧ s.iom.listed p 0 (n - k) = s.iom.listed p k (n - k)) ∧
    (s.iom.DistinctNames p n → (ListingResumes e s p n k ↔ (∀ i < n, s.iom.Reportable (s.iom.blockEntry p i)) ∧
      ∀ i < n, (s.iom.blockEntry p i).dFlag = lab4DirUsed → (i < n - k ↔ k ≤ i))) := by
  have h := resumes_iff (s := s) he hsize hn hk
  refine ⟨h,fun hd => h.trans ?_⟩
  rw [listed_eq_iff hk hd]

set_option maxRecDepth 100000 in
/-- The root of a new volume holds "." and "..", and the record of each can be read. -/
theorem blankDisk_root : ∃ s0, formatAndMount quietEnv (blankDisk 80) = some (true,s0) ∧
    (s0.iom.inode 2).iSize.toInt = (lab4DirEntrySize * 32 : ℕ) ∧
    (∀ i < 32, s0.iom.Reportable (s0.iom.blockEntry (s0.iom.inode 2) i)) ∧
    (s0.iom.listed (s0.iom.inode 2) 0 31).length = 2 ∧ (s0.iom.listed (s0.iom.inode 2) 1 31).length = 1 := by
  have h : (formatAndMount quietEnv (blankDisk 80)).map (fun p => (p.1,(p.2.iom.inode 2).iSize.toInt,
      decide (∀ i : ℕ, i < 32 → p.2.iom.Reportable (p.2.iom.blockEntry (p.2.iom.inode 2) i)),
      (p.2.iom.listed (p.2.iom.inode 2) 0 31).length,(p.2.iom.listed (p.2.iom.inode 2) 1 31).length)) =
        some (true,4096,true,2,1) := by decide +kernel
  obtain ⟨⟨ok,s0⟩,hrun,hp⟩ := Option.map_eq_some_iff.mp h
  simp only [Prod.mk.injEq, decide_eq_true_eq] at hp
  obtain ⟨rfl,hsize,hr,h0,h1⟩ := hp
  exact ⟨s0,hrun,hsize,hr,h0,h1⟩

/-- From offset 1 the root of a new volume lists both its entries in place of the second. -/
theorem listing_not_resumed : ∃ s0, formatAndMount quietEnv (blankDisk 80) = some (true,s0) ∧
    ¬ListingResumes quietEnv s0 (s0.iom.inode 2) 32 1 := by
  obtain ⟨s0,hrun,hsize,_,h0,h1⟩ := blankDisk_root
  refine ⟨s0,hrun,fun h => ?_⟩
  have hsame := ((resumes_iff quietEnv_nominal hsize (by decide) (by decide)).mp h).2
  have hlen := congrArg List.length hsame
  rw [h0, h1] at hlen
  exact absurd hlen (by decide)

/-- It resumes at its start, and not at offset 1. -/
theorem listing_resumes_at_start : ∃ s0, formatAndMount quietEnv (blankDisk 80) = some (true,s0) ∧
    ListingResumes quietEnv s0 (s0.iom.inode 2) 32 0 ∧ ¬ListingResumes quietEnv s0 (s0.iom.inode 2) 32 1 := by
  obtain ⟨s0,hrun,hsize,hr,h0,h1⟩ := blankDisk_root
  refine ⟨s0,hrun,(listing_resumes_iff quietEnv_nominal hsize (by decide) (by decide)).1.mpr ⟨hr,rfl⟩,fun h => ?_⟩
  have hsame := ((listing_resumes_iff quietEnv_nominal hsize (by decide) (by decide)).1.mp h).2
  have hlen := congrArg List.length hsame
  rw [h0, h1] at hlen
  exact absurd hlen (by decide)

end SimpleFS
