import SimpleFS.Histories
import SimpleFS.InodeAllocation
import Mathlib.Data.List.TakeWhile
import Mathlib.Data.Set.Card

/-! # What a client can rely on

On a device with sectors of 512 bytes, formatted and mounted, and for every history of calls that the specification
permits.
-/
namespace SimpleFS
open Bytes Machine Prog SlotTree

/-- A volume right after format and mount. -/
structure NewVolume (s0 : Sys) : Prop where
  formatted : ∃ e s ok, e.Nominal ∧ s.iom.dev.blksszget = 512 ∧ formatAndMount e s = some (ok,s0)
  blocks : 2 ≤ s0.iom.maxBlock ∧ s0.iom.maxBlock ≤ 8 * 4096

variable {s0 s t : Sys} {m : Iom} {a : Files} {l l' : List (FileCall × Answer)} {fid : ℕ} {x y data : List UInt8}
  {p q : List (List UInt8)}

theorem NewVolume.shows (h : NewVolume s0) : s0.iom.Shows .empty := by
  obtain ⟨e,s,ok,he,hsec,hrun⟩ := h.formatted
  exact (shows_of_formatAndMount he hsec hrun h.blocks).2

/-! ## Inodes and blocks -/

namespace Iom.Regular
variable (h : m.Regular)
include h

/-- The inodes in use are those that paths lead to. -/
theorem ibit_iff {k : ℕ} (h2 : 2 ≤ k) (hk : k < m.inodeNum) : m.ibit k = true ↔ ∃ p, m.ids p = some k := by
  constructor
  · intro hbit
    have hlive : m.books.Live k := ⟨h2,hk,hbit⟩
    obtain ⟨p,hp⟩ := h.grounded k (fun hn => Books.kind_eq_none.mp hn hlive)
    exact ⟨p,h.ids_eq_some.mpr hp⟩
  · rintro ⟨p,hp⟩
    exact (Iom.live_of_kind ((h.ids_eq_some.mp hp).live h.sane.sound)).2.2

theorem owns_iff {k b : ℕ} {p : List (List UInt8)} (hp : m.ids p = some k) :
    m.books.Owns k b ↔ (m.inode k).iSize ≠ 0 ∧ m.dataAddr k = m.blockAddr b :=
  ⟨fun ho => ⟨ho.size,ho.addr⟩,fun ho => ⟨Iom.live_of_kind ((h.ids_eq_some.mp hp).live h.sane.sound),ho.1,ho.2⟩⟩

/-- The blocks in use are those with the data of a path. -/
theorem dbit_iff {b : ℕ} (hb : b < m.maxBlock) :
    m.dbit b = true ↔ ∃ p k, m.ids p = some k ∧ (m.inode k).iSize ≠ 0 ∧ m.dataAddr k = m.blockAddr b := by
  constructor
  · intro hbit
    obtain ⟨k,ho⟩ := h.attributed b hb hbit
    obtain ⟨p,hp⟩ := h.grounded k (fun hn => Books.kind_eq_none.mp hn ho.live)
    exact ⟨p,k,h.ids_eq_some.mpr hp,ho.size,ho.addr⟩
  · rintro ⟨p,k,hp,ho⟩
    have ho := (h.owns_iff hp).mpr ho
    obtain ⟨b',ho',_,hbit⟩ := h.sane.ledger.own k ho.live ho.size
    rwa [ho.unique_block h.sane.ledger.clusterSize_pos ho']

/-- Two paths have neither an inode nor a block in common. -/
theorem apart {k k' : ℕ} (hp : m.ids p = some k) (hq : m.ids q = some k') (hpq : p ≠ q) :
    k ≠ k' ∧ ((m.inode k).iSize ≠ 0 → (m.inode k').iSize ≠ 0 → m.dataAddr k ≠ m.dataAddr k') := by
  have hne : k ≠ k' := by
    rintro rfl
    exact hpq ((h.ids_eq_some.mp hp).path_unique h.sane.sound (h.ids_eq_some.mp hq))
  refine ⟨hne,fun hk hk' heq => ?_⟩
  obtain ⟨b,ho,_,_⟩ := h.sane.ledger.own k (Iom.live_of_kind ((h.ids_eq_some.mp hp).live h.sane.sound)) hk
  exact hne (h.sane.ledger.distinct k k' b ho ((h.owns_iff hq).mpr ⟨hk',heq.symm.trans ho.addr⟩))

/-- There are as many inodes in use as paths that lead somewhere. -/
theorem inodes_in_use : {k | 2 ≤ k ∧ k < m.inodeNum ∧ m.ibit k = true}.ncard = {p | m.view p ≠ none}.ncard := by
  have hid : ∀ k ∈ {k | 2 ≤ k ∧ k < m.inodeNum ∧ m.ibit k = true}, ∃ p, m.ids p = some k :=
    fun k ⟨h2,hk,hbit⟩ => (h.ibit_iff h2 hk).mp hbit
  choose f hf using hid
  refine Set.ncard_congr f (fun k hk => ?_) (fun k k' hk hk' heq => ?_) (fun p hp => ?_)
  · exact fun hn => h.view_eq_none.mp hn k (h.ids_eq_some.mp (hf k hk))
  · exact Option.some.inj ((hf k hk).symm.trans (heq ▸ hf k' hk'))
  · obtain ⟨k,hk⟩ := not_forall_not.mp (fun hn => hp (h.view_eq_none.mpr hn))
    have hlive := Iom.live_of_kind (hk.live h.sane.sound)
    refine ⟨k,hlive,?_⟩
    exact (h.ids_eq_some.mp (hf k hlive)).path_unique h.sane.sound hk

/-- There are as many blocks in use as directories and files with data. -/
theorem blocks_in_use :
    {b | b < m.maxBlock ∧ m.dbit b = true}.ncard = {p | m.view p ≠ none ∧ m.view p ≠ some (.file [])}.ncard := by
  have hid : ∀ b ∈ {b | b < m.maxBlock ∧ m.dbit b = true}, ∃ p k, m.ids p = some k ∧ m.books.Owns k b := fun b ⟨hb,hbit⟩ => by
    obtain ⟨p,k,hk,ho⟩ := (h.dbit_iff hb).mp hbit
    exact ⟨p,k,hk,(h.owns_iff hk).mpr ho⟩
  choose f g hg ho using hid
  have hview : ∀ {p k}, m.ids p = some k → ∃ v, m.view p = some v ∧ (m.inode k).iSize.toInt = v.size := fun {p k} hk => by
    have hr := h.ids_eq_some.mp hk
    obtain ⟨v,hv⟩ := Option.ne_none_iff_exists'.mp (Iom.labelled k (hr.live h.sane.sound))
    exact ⟨v,(h.view_of_reach hr).trans hv,h.node_size hv⟩
  refine Set.ncard_congr f (fun b hb => ?_) (fun b b' hb hb' heq => ?_) (fun p hp => ?_)
  · obtain ⟨v,hv,hsize⟩ := hview (hg b hb)
    refine ⟨hv ▸ Option.some_ne_none v,fun hn => (ho b hb).size ?_⟩
    obtain rfl := Option.some.inj (hv.symm.trans hn)
    exact Int64.toInt_inj.mp hsize
  · have hgg : g b hb = g b' hb' := Option.some.inj ((hg b hb).symm.trans (heq ▸ hg b' hb'))
    exact (ho b hb).unique_block h.sane.ledger.clusterSize_pos (hgg ▸ ho b' hb')
  · obtain ⟨k,hk⟩ := not_forall_not.mp (fun hn => hp.1 (h.view_eq_none.mpr hn))
    obtain ⟨v,hv,hsize⟩ := hview (h.ids_eq_some.mpr hk)
    have hne : (m.inode k).iSize ≠ 0 := by
      intro hz
      rw [hz] at hsize
      match v, hsize with
      | .dir, hsize => cases hsize
      | .file data, hsize =>
        have hlen : data.length = 0 := Int.ofNat.inj hsize.symm
        exact hp.2 (by rw [hv, List.length_eq_zero_iff.mp hlen])
    obtain ⟨b,hob,_,hbit⟩ := h.sane.ledger.own k (Iom.live_of_kind (hk.live h.sane.sound)) hne
    have hb := h.neat.below k b hob
    have hkk : g b ⟨hb,hbit⟩ = k := h.sane.ledger.distinct _ _ b (ho b ⟨hb,hbit⟩) hob
    exact ⟨b,⟨hb,hbit⟩,(h.ids_eq_some.mp (hkk ▸ hg b ⟨hb,hbit⟩)).path_unique h.sane.sound hk⟩

end Iom.Regular

/-! ## A history -/

/-- All calls one after the other, with their answers. -/
def FileCall.history : List FileCall → M (List (FileCall × Answer))
  | [] => return []
  | c :: l => do
    let r ← c.run
    return (c,r) :: (← history l)

theorem served_of_history {e : Env} {cs : List FileCall} (he : e.Quiet) (h : FileCall.history cs e s = some (l,t)) :
    Served s l t := by
  induction cs generalizing s l with
  | nil =>
    cases h
    exact .nil
  | cons c cs ih =>
    obtain ⟨r,s1,hc,h⟩ := exists_of_bind h
    obtain ⟨l1,s2,hl,h⟩ := exists_of_bind h
    cases h
    exact .cons he hc (ih hl)

namespace Sample

/-- A file is written and closed, and a directory comes up. -/
def start : List (FileCall × Answer) :=
  [(.openFile [] [102] 2 0,.code 3),(.write [slash] 3 [104,105] 0,.code 2),(.release 3,.code 0),(.remount,.code 0),
    (.mkdir [] [100],.code 0)]

/-- The directory gets another name and the old one back. -/
def renames : List (FileCall × Answer) := [(.rename [] [100] [] [101],.code 0),(.rename [] [101] [] [100],.code 0)]

/-- A directory that is there, and one that is not. -/
def refused : List (FileCall × Answer) := [(.mkdir [] [100],.code (-17)),(.rmdir [] [101],.code (-2))]

/-- The file is read. -/
def finish : List (FileCall × Answer) := [(.openFile [] [102] 2 0,.code 3),(.read [slash] 3 2,.data 2 [104,105])]

def whole : List (FileCall × Answer) := start ++ (renames ++ (refused ++ finish))

theorem quietEnv_quiet : quietEnv.Quiet := ⟨quietEnv_nominal,fun _ => le_rfl⟩

set_option maxRecDepth 100000 in
theorem served : ∃ s0 t, NewVolume s0 ∧ Served s0 whole t := by
  have hrun : ((formatAndMount >>= fun _ => FileCall.history (whole.map Prod.fst)) quietEnv (blankDisk 80)).map (fun p => p.1) =
      some whole := by decide +kernel
  obtain ⟨⟨l,t⟩,h,rfl⟩ := Option.map_eq_some_iff.mp hrun
  obtain ⟨ok,s0,hfmt,h⟩ := exists_of_bind h
  obtain ⟨s1,h1,hn⟩ := blankDisk_mounts
  obtain rfl : s1 = s0 := congrArg Prod.snd (Option.some.inj (h1.symm.trans hfmt))
  exact ⟨s1,t,⟨⟨_,_,_,quietEnv_nominal,rfl,hfmt⟩,by omega⟩,served_of_history quietEnv_quiet h⟩

theorem plain_top (hx : PlainName x) (ha : a.names [] = some .dir) : a.Plain [x] := by
  refine ⟨hx,fun y hy => absurd hy List.not_mem_nil,by decide,fun q hq b hb => ?_⟩
  obtain rfl := List.suffix_nil.mp hq
  exact Option.some.inj (hb.symm.trans ha)

theorem plainNames : PlainName [100] ∧ PlainName [101] ∧ PlainName [102] :=
  ⟨⟨⟨by decide,by decide,by decide⟩,by decide,by decide,by decide⟩,⟨⟨by decide,by decide,by decide⟩,by decide,by decide,by decide⟩,
    ⟨⟨by decide,by decide,by decide⟩,by decide,by decide,by decide⟩⟩

/-- The file, and nothing open. -/
def closed : Files := ⟨Function.update (Namespace.bare .dir) [[102]] (some (.file [104,105])),fun _ => none⟩

/-- The directory besides. -/
def both : Files := closed.put [[100]] (some .dir)

theorem start_leads : Files.spec.Leads .empty start (· = both) := by
  refine .cons ⟨plain_top plainNames.2.2 rfl,by decide⟩ (fun b hb => ?_)
  obtain ⟨j,hj,_,rfl⟩ := hb.open_new (by decide) (by decide)
  obtain rfl : 3 = j := Int.ofNat.inj hj
  have hfile : ((Files.empty.put [[102]] (some (.file []))).setHandle 3 (some ⟨[[102]],0⟩)).names [[102]] = some (.file []) := by
    show (Files.empty.put [[102]] (some (.file []))).names [[102]] = _
    rw [Files.put_self]
  refine .cons ⟨List.mem_singleton_self _,by decide,by decide,_,_,Files.setHandle_self,hfile,.inl ⟨rfl,by decide⟩⟩
    (fun b hb => ?_)
  generalize hz : Answer.code 2 = z at hb
  cases hb with
  | replaced _ _ _ => cases hz
  | appended hh hn _ =>
    obtain rfl := Option.some.inj (Files.setHandle_self.symm.trans hh)
    obtain rfl := Node.file.inj (Option.some.inj (hfile.symm.trans hn))
    have hopen : ((((Files.empty.put [[102]] (some (.file []))).setHandle 3 (some ⟨[[102]],0⟩)).put [[102]]
        (some (.file ([] ++ [104,105])))).setHandle 3 (some ⟨[[102]],2⟩)).handle 3 ≠ none := by
      rw [Files.setHandle_self]
      exact Option.some_ne_none _
    refine .cons hopen (fun b hb => ?_)
    cases hb
    refine .cons trivial (fun b hb => ?_)
    cases hb
    refine .cons (plain_top plainNames.1 rfl) (fun b hb => ?_)
    generalize hz : Answer.code 0 = z at hb
    cases hb with
    | mkdirNoParent | mkdirExists => cases hz
    | made _ _ =>
      have hnames : Function.update (Function.update (Namespace.bare Node.dir) [[102]] (some (.file []))) [[102]]
          (some (.file ([] ++ [104,105]))) = closed.names := Function.update_idem _ _ _
      have hboth := congrArg (fun v : Namespace (List UInt8) Node => (Files.mk v (fun _ => none)).put [[100]] (some .dir)) hnames
      exact .nil hboth

theorem allowed_rename {v : Files} (hx : PlainName x) (hy : PlainName y) (hroot : v.names [] = some .dir) (hne : [y] ≠ [x]) :
    v.Allowed (.rename [] x [] y) :=
  ⟨plain_top hx hroot,plain_top hy hroot,fun hs => List.cons_ne_nil _ _ (List.suffix_nil.mp hs),fun hn => absurd hn hne,
    fun _ hn => absurd rfl hn⟩

/-- Before and after the renames. -/
def Ready (v : Files) : Prop := v.names [] = some .dir ∧ v.names [[101]] = none ∧ v.names [[102]] = some (.file [104,105])

theorem renames_lead : Files.spec.Leads both renames Ready := by
  refine .cons (allowed_rename plainNames.1 plainNames.2.1 rfl (by decide)) (fun b hb => ?_)
  obtain ⟨_,rfl⟩ := hb.moved (by decide)
  refine .cons (allowed_rename plainNames.2.1 plainNames.1 (by decide) (by decide)) (fun b hb => ?_)
  obtain ⟨_,rfl⟩ := hb.moved (by decide)
  exact .nil ⟨by decide,by decide,by decide⟩

/-- They leave the file alone. -/
theorem spares : ∀ c ∈ renames ++ refused, c.1.Spares [[102]] := by
  refine List.forall_mem_cons.mpr ⟨?_,List.forall_mem_cons.mpr ⟨?_,List.forall_mem_cons.mpr ⟨?_,List.forall_mem_singleton.mpr ?_⟩⟩⟩
  all_goals
    dsimp only [FileCall.Spares]
    decide

theorem refused_lead {v : Files} (h : Ready v) : Files.spec.Leads v refused Ready := by
  refine .cons (plain_top plainNames.1 h.1) (fun b hb => ?_)
  generalize hz : Answer.code (-17) = z at hb
  cases hb with
  | mkdirNoParent | made => cases hz
  | mkdirExists _ =>
    refine .cons ⟨plain_top plainNames.2.1 h.1,fun data hd => by cases h.2.1.symm.trans hd⟩ (fun b hb => ?_)
    generalize hz : Answer.code (-2) = z at hb
    cases hb with
    | rmdirNotEmpty | rmdirDone => cases hz
    | rmdirMissing _ => exact .nil h

theorem finish_leads {v : Files} (h : Ready v) : Files.spec.Leads v finish (fun _ => True) := by
  refine .cons ⟨plain_top plainNames.2.2 h.1,by rw [h.1]; exact Option.some_ne_none _⟩ (fun b hb => ?_)
  obtain ⟨j,hj,_,rfl⟩ := hb.open_old (by decide) h.2.2
  obtain rfl : 3 = j := Int.ofNat.inj hj
  refine .cons ⟨List.mem_singleton_self _,by decide,_,_,Files.setHandle_self,h.2.2,.inr (by decide)⟩ (fun b hb => .nil trivial)

theorem permitted : Files.spec.Permits .empty whole := by
  have hrest : Files.spec.Leads both (renames ++ (refused ++ finish)) (fun _ => True) :=
    renames_lead.append (fun _ hv => (refused_lead hv).append (fun _ => finish_leads))
  exact (start_leads.append (fun b hb => hb ▸ hrest)).permits

theorem started : ∃ s0 s t, NewVolume s0 ∧ Served s0 start s ∧ s.iom.Shows both ∧
    Served s (renames ++ (refused ++ finish)) t := by
  obtain ⟨s0,t,h0,h⟩ := served
  obtain ⟨s,hs,ht⟩ := h.split
  obtain ⟨b,hrun,hb⟩ := Served.shows hs h0.shows permitted.before
  obtain rfl := start_leads.ends b hrun
  exact ⟨s0,s,t,h0,hs,hb,ht⟩

set_option maxRecDepth 100000 in
/-- Behind the start there is room for one more directory. -/
theorem start_ready : ∃ s0 s, NewVolume s0 ∧ Served s0 start s ∧ s.iom.InodeReady ∧ s.iom.BlockReady := by
  have hrun : ((formatAndMount >>= fun _ => FileCall.history (start.map Prod.fst)) quietEnv (blankDisk 80)).map
      (fun p => (p.1,decide (p.2.iom.inodeScan = some (true,5) ∧ 5 < p.2.iom.inodeNum ∧ p.2.iom.InodeRoom (-1)),
        decide (p.2.iom.blockScan = some (true,3) ∧ 3 < p.2.iom.maxBlock ∧ p.2.iom.BlockRoom (-1)))) =
      some (start,true,true) := by decide +kernel
  obtain ⟨⟨l,s⟩,h,heq⟩ := Option.map_eq_some_iff.mp hrun
  simp only [Prod.mk.injEq, decide_eq_true_eq] at heq
  obtain ⟨rfl,⟨hino,hk,hiroom⟩,hblock,hb,hbroom⟩ := heq
  obtain ⟨ok,s0,hfmt,h⟩ := exists_of_bind h
  obtain ⟨s1,h1,hn⟩ := blankDisk_mounts
  obtain rfl : s1 = s0 := congrArg Prod.snd (Option.some.inj (h1.symm.trans hfmt))
  exact ⟨s1,s,⟨⟨_,_,_,quietEnv_nominal,rfl,hfmt⟩,by omega⟩,served_of_history quietEnv_quiet h,⟨⟨5,hino,hk⟩,hiroom⟩,
    ⟨⟨3,hblock,hb⟩,hbroom⟩⟩

end Sample

/-! ## The guarantees -/

/-- Every answer is one that the specification gives. -/
theorem served_as_specified (h0 : NewVolume s0) (h : Served s0 l t) (hl : Files.spec.Permits .empty l) :
    ∃ b, Files.spec.Run .empty l b ∧ t.iom.Shows b := h.shows h0.shows hl

theorem served_as_specified_sample : ∃ s0 t b, Served s0 Sample.whole t ∧ Files.spec.Run .empty Sample.whole b ∧
    t.iom.Shows b := by
  obtain ⟨s0,t,h0,h⟩ := Sample.served
  obtain ⟨b,hb⟩ := served_as_specified h0 h Sample.permitted
  exact ⟨s0,t,b,h,hb⟩

/-- No inode and no block is lost or shared. -/
theorem nothing_leaks (h0 : NewVolume s0) (h : Served s0 l t) (hl : Files.spec.Permits .empty l) :
    (∀ k, 2 ≤ k → k < t.iom.inodeNum → (t.iom.ibit k = true ↔ ∃ p, t.iom.ids p = some k)) ∧
      (∀ b, b < t.iom.maxBlock → (t.iom.dbit b = true ↔
        ∃ p k, t.iom.ids p = some k ∧ (t.iom.inode k).iSize ≠ 0 ∧ t.iom.dataAddr k = t.iom.blockAddr b)) ∧
      ∀ p q k k', t.iom.ids p = some k → t.iom.ids q = some k' → p ≠ q →
        k ≠ k' ∧ ((t.iom.inode k).iSize ≠ 0 → (t.iom.inode k').iSize ≠ 0 → t.iom.dataAddr k ≠ t.iom.dataAddr k') := by
  obtain ⟨b,_,hb⟩ := h.shows h0.shows hl
  have hr := hb.regular
  exact ⟨fun k => hr.ibit_iff,fun b => hr.dbit_iff,fun p q k k' => hr.apart⟩

theorem nothing_leaks_sample : ∃ s0 t, Served s0 Sample.whole t ∧
    ∀ k, 2 ≤ k → k < t.iom.inodeNum → (t.iom.ibit k = true ↔ ∃ p, t.iom.ids p = some k) := by
  obtain ⟨s0,t,h0,h⟩ := Sample.served
  exact ⟨s0,t,h,(nothing_leaks h0 h Sample.permitted).1⟩

/-- The space in use is what the names need: one inode for each, and one block for each but the empty files. -/
theorem space_follows_names (h0 : NewVolume s0) (h : Served s0 l t) (hl : Files.spec.Permits .empty l) :
    {k | 2 ≤ k ∧ k < t.iom.inodeNum ∧ t.iom.ibit k = true}.ncard = {p | t.iom.view p ≠ none}.ncard ∧
      {b | b < t.iom.maxBlock ∧ t.iom.dbit b = true}.ncard =
        {p | t.iom.view p ≠ none ∧ t.iom.view p ≠ some (.file [])}.ncard := by
  obtain ⟨b,_,hb⟩ := h.shows h0.shows hl
  exact ⟨hb.regular.inodes_in_use,hb.regular.blocks_in_use⟩

theorem space_follows_names_sample : ∃ s0 t, Served s0 Sample.whole t ∧
    {b | b < t.iom.maxBlock ∧ t.iom.dbit b = true}.ncard =
      {p | t.iom.view p ≠ none ∧ t.iom.view p ≠ some (.file [])}.ncard := by
  obtain ⟨s0,t,h0,h⟩ := Sample.served
  exact ⟨s0,t,h,(space_follows_names h0 h Sample.permitted).2⟩

/-- After every call the device has it all: a mount finds the names, the data, the records and the bitmaps. -/
theorem remount_restores (h0 : NewVolume s0) (h : Served s0 l t) (hl : Files.spec.Permits .empty l) {e : Env} (he : e.Nominal) :
    ∃ t', mount e t = some (true,t') ∧ t'.iom.view = t.iom.view ∧ t'.iom.ids = t.iom.ids ∧
      (∀ k, k < t.iom.inodeNum → t'.iom.inode k = t.iom.inode k ∧ t'.iom.ibit k = t.iom.ibit k) ∧
      ∀ b, b < t.iom.maxBlock → t'.iom.dbit b = t.iom.dbit b := by
  obtain ⟨b,_,hb⟩ := h.shows h0.shows hl
  have hmount : wp False mount (fun ok t' => ok = true ∧ ∃ y z, t'.iom = mountIom t.iom.dev e.heap y z) e t :=
    wp_mount_regular he hb.regular (fun t' y z ht => ⟨rfl,y,z,ht⟩)
  obtain ⟨_,t',hrun,rfl,y,z,hm⟩ := wp_false.mp hmount
  have ha : t.iom.books.Alike t'.iom.books t.iom.maxBlock := hm ▸ hb.regular.alike_mountIom
  refine ⟨t',hrun,?_,?_,fun k hk => ⟨ha.inode k hk,ha.ibit k hk⟩,fun b hb => ha.dbit b hb⟩
  · rw [hm, hb.regular.view_mountIom]
  · rw [hm, Iom.ids, hb.regular.tree_mountIom, Iom.ids]

theorem remount_restores_sample : ∃ s0 t t', Served s0 Sample.whole t ∧ mount quietEnv t = some (true,t') ∧
    t'.iom.view = t.iom.view := by
  obtain ⟨s0,t,h0,h⟩ := Sample.served
  obtain ⟨t',hrun,hview,_⟩ := remount_restores h0 h Sample.permitted quietEnv_nominal
  exact ⟨s0,t,t',h,hrun,hview⟩

/-- A call that has what it needs comes to an end, with an answer that the specification gives. -/
theorem calls_return (h0 : NewVolume s0) (h : Served s0 l t) (hl : Files.spec.Permits .empty l) :
    ∃ b, Files.spec.Run .empty l b ∧ t.iom.Shows b ∧ ∀ e c, e.Quiet → b.Allowed c → c.Returns e t.iom b →
      ∃ r t', c.run e t = some (r,t') ∧ b.Answered c r t' := by
  obtain ⟨b,hrun,hb⟩ := h.shows h0.shows hl
  exact ⟨b,hrun,hb,fun e c he hc hr => wp_false.mp (answered_call he hb hc (fun hn => hn hr))⟩

/-- One more directory. -/
theorem calls_return_sample : ∃ s0 t, Served s0 Sample.start t ∧ ∃ r t', (FileCall.mkdir [] [101]).run quietEnv t = some (r,t') ∧
    Sample.both.Answered (.mkdir [] [101]) r t' := by
  obtain ⟨s0,t,h0,h,hino,hblock⟩ := Sample.start_ready
  obtain ⟨b,hrun,_,hret⟩ := calls_return h0 h Sample.permitted.before
  obtain rfl := Sample.start_leads.ends b hrun
  obtain ⟨r,t',hcall,hans⟩ := hret quietEnv (.mkdir [] [101]) Sample.quietEnv_quiet (Sample.plain_top Sample.plainNames.2.1 rfl)
    (fun _ _ => ⟨hino,hblock⟩)
  exact ⟨s0,t,h,r,t',hcall,hans⟩

/-- Calls that fail change nothing, unless one has made the file it could not open. -/
theorem failures_change_nothing (h0 : NewVolume s0) {l0 : List (FileCall × Answer)} (h : Served s0 l0 s) (h' : Served s l t)
    (hl : Files.spec.Permits .empty (l0 ++ l)) (hr : ∀ c ∈ l, c.2.Failed)
    (hc : ∀ c ∈ l, ∀ p x flags mode, c.1 = .openFile p x flags mode → s.iom.view (x :: p) ≠ none) :
    t.iom.view = s.iom.view ∧ ∃ a, s.iom.Shows a ∧ t.iom.Shows a := by
  obtain ⟨a,hrun,hs⟩ := h.shows h0.shows hl.before
  have ht := Served.failed h' hs (hl.after hrun) hr (fun c hcl p x flags mode hcall => hs.names ▸ hc c hcl p x flags mode hcall)
  exact ⟨ht.names.trans hs.names.symm,a,hs,ht⟩

theorem failures_change_nothing_sample : ∃ s0 s t, Served s0 (Sample.start ++ Sample.renames) s ∧ Served s Sample.refused t ∧
    t.iom.view = s.iom.view := by
  obtain ⟨s0,t,h0,h⟩ := Sample.served
  have hwhole : Sample.whole = (Sample.start ++ Sample.renames) ++ (Sample.refused ++ Sample.finish) := rfl
  obtain ⟨s,hs,ht⟩ := (hwhole ▸ h).split
  obtain ⟨t,ht,_⟩ := ht.split
  have hall : Files.spec.Permits .empty (((Sample.start ++ Sample.renames) ++ Sample.refused) ++ Sample.finish) := Sample.permitted
  have hfail : ∀ c ∈ Sample.refused, c.2.Failed ∧ ∀ p x flags mode, c.1 ≠ .openFile p x flags mode :=
    List.forall_mem_cons.mpr ⟨⟨by show (-17 : ℤ) < 0; decide,nofun⟩,
      List.forall_mem_singleton.mpr ⟨by show (-2 : ℤ) < 0; decide,nofun⟩⟩
  exact ⟨s0,s,t,hs,ht,(failures_change_nothing h0 hs ht hall.before (fun c hc => (hfail c hc).1)
    (fun c hc p x flags mode h => absurd h ((hfail c hc).2 p x flags mode))).1⟩

/-- What is done elsewhere leaves a directory and all below it as they are, with mounts or without. -/
theorem elsewhere_changes_nothing (h0 : NewVolume s0) {l0 : List (FileCall × Answer)} (h : Served s0 l0 s)
    (hl : Files.spec.Permits .empty (l0 ++ l)) :
    ∃ a, Files.spec.Run .empty l0 a ∧ s.iom.Shows a ∧ ∀ t p, Served s l t → s.iom.view p ≠ none →
      (∀ fid g, a.handle fid = some g → ¬p <:+ g.path) → (∀ c ∈ l, c.1.Spares p) →
        ∀ r, p <:+ r → t.iom.view r = s.iom.view r := by
  obtain ⟨a,hrun,hs⟩ := h.shows h0.shows hl.before
  refine ⟨a,hrun,hs,fun t p ht hp hopen hspare r hr => ?_⟩
  obtain ⟨b,_,hb,hk⟩ := Served.kept ht hs (hl.after hrun) hspare (hs.names ▸ hp) ⟨fun _ _ => rfl,hopen⟩
  rw [hb.names, hs.names]
  exact hk.names r hr

theorem elsewhere_changes_nothing_sample : ∃ s0 s t, Served s0 Sample.start s ∧ Served s Sample.renames t ∧
    ∀ r, [[102]] <:+ r → t.iom.view r = s.iom.view r := by
  obtain ⟨s0,s,t,h0,hs,hb,ht⟩ := Sample.started
  obtain ⟨t,ht,_⟩ := ht.split
  have hl : Files.spec.Permits .empty ((Sample.start ++ Sample.renames) ++ (Sample.refused ++ Sample.finish)) := Sample.permitted
  obtain ⟨a,hrun,_,hkeep⟩ := elsewhere_changes_nothing h0 hs hl.before
  obtain rfl := Sample.start_leads.ends a hrun
  refine ⟨s0,s,t,hs,ht,hkeep t [[102]] ht ?_ (fun fid g hg => by cases hg) ?_⟩
  · rw [hb.names]
    decide
  · exact fun c hc => Sample.spares c (List.mem_append_left _ hc)

/-- A handle is not handed out twice without a release or a mount in between. -/
theorem handle_handed_out_once (h0 : NewVolume s0) {flags mode flags' mode' : ℕ} {l0 : List (FileCall × Answer)} (hfid : 0 < fid)
    (h : Served s0 (l0 ++ (.openFile p x flags mode,.code fid) :: (l ++ (.openFile q y flags' mode',.code fid) :: l')) t)
    (hl : Files.spec.Permits .empty
      (l0 ++ (.openFile p x flags mode,.code fid) :: (l ++ (.openFile q y flags' mode',.code fid) :: l'))) :
    ∃ c ∈ l, c.1 = .release fid ∨ c.1 = .remount := by
  obtain ⟨s,h1,h2⟩ := h.split
  obtain ⟨b,hrun,hb⟩ := Served.shows h1 h0.shows hl.before
  exact Served.given_back h2 hb hfid (hl.after hrun)

theorem handle_handed_out_once_sample : ∃ c ∈ Sample.start.tail ++ (Sample.renames ++ Sample.refused),
    c.1 = .release 3 ∨ c.1 = .remount := by
  obtain ⟨s0,t,h0,h⟩ := Sample.served
  have hwhole : Sample.whole = [] ++ (.openFile [] [102] 2 0,.code (3 : ℕ)) :: ((Sample.start.tail ++
      (Sample.renames ++ Sample.refused)) ++ (.openFile [] [102] 2 0,.code (3 : ℕ)) :: Sample.finish.tail) := rfl
  exact handle_handed_out_once h0 (by decide) (hwhole ▸ h) (hwhole ▸ Sample.permitted)

/-- What was written to a new file is what the next reader gets, whatever happened elsewhere, with mounts. -/
theorem new_file_reads_back (h0 : NewVolume s0) {flags mode flags' mode' fid' size : ℕ} {path path' bytes : List UInt8}
    {w z : Answer} {n : ℤ} {l0 : List (FileCall × Answer)} (h : Served s0 l0 s) (hnew : s.iom.view (x :: p) = none)
    (h' : Served s ((.openFile p x flags mode,.code fid) :: (.write path fid data 0,w) :: (.release fid,z) ::
      (l ++ [(.openFile p x flags' mode',.code fid'),(.read path' fid' size,.data n bytes)])) t)
    (hl : Files.spec.Permits .empty (l0 ++ ((.openFile p x flags mode,.code fid) :: (.write path fid data 0,w) ::
      (.release fid,z) :: (l ++ [(.openFile p x flags' mode',.code fid'),(.read path' fid' size,.data n bytes)]))))
    (hspare : ∀ c ∈ l, c.1.Spares (x :: p)) (hzero : 0 ∉ data) (hfid : 0 < fid) (hfid' : 0 < fid') :
    n = size ∧ bytes = data.take size := by
  obtain ⟨a,hrun,hs⟩ := h.shows h0.shows hl.before
  obtain ⟨hsome,s1,b,hs1,hst,hk,ht1,hl1⟩ := Served.written h' hs (hs.names ▸ hnew) hfid (hl.after hrun)
  obtain ⟨s2,ht2,ht3⟩ := ht1.split
  obtain ⟨b2,hrun2,hs2,hk2⟩ := Served.kept ht2 hs1 hl1.before hspare (hst ▸ Option.some_ne_none _) hk
  have hst2 := (hk2.names _ List.suffix_rfl).trans hst
  obtain ⟨hle,rfl,rfl⟩ := Served.read_bytes ht3 hs2 hst2 hfid' hsome (hl1.after hrun2)
  have htext : (data.take size).takeWhile (· ≠ 0) = data.take size := by
    refine List.takeWhile_eq_self_iff.mpr (fun u hu => ?_)
    have hne : u ≠ 0 := by
      rintro rfl
      exact hzero (List.mem_of_mem_take hu)
    simpa using hne
  rw [htext, List.length_take, Nat.min_eq_left hle]
  exact ⟨rfl,rfl⟩

theorem new_file_reads_back_sample : ∃ s0 t, Served s0 Sample.whole t ∧ (2 : ℤ) = (2 : ℕ) ∧
    [104,105] = ([104,105] : List UInt8).take 2 := by
  obtain ⟨s0,t,h0,h⟩ := Sample.served
  have hwhole : Sample.whole = [] ++ ((.openFile [] [102] 2 0,.code (3 : ℕ)) :: (.write [slash] 3 [104,105] 0,.code 2) ::
      (.release 3,.code 0) :: ((.remount,.code 0) :: (.mkdir [] [100],.code 0) :: (Sample.renames ++ Sample.refused) ++
        [(.openFile [] [102] 2 0,.code (3 : ℕ)),(.read [slash] 3 2,.data 2 [104,105])])) := rfl
  have hnew : s0.iom.view [[102]] = none := by
    rw [h0.shows.names]
    rfl
  have hspare : ∀ c ∈ (FileCall.remount,Answer.code 0) :: (.mkdir [] [100],.code 0) :: (Sample.renames ++ Sample.refused),
      c.1.Spares [[102]] := by
    refine List.forall_mem_cons.mpr ⟨trivial,List.forall_mem_cons.mpr ⟨?_,Sample.spares⟩⟩
    dsimp only [FileCall.Spares]
    decide
  exact ⟨s0,t,h,new_file_reads_back h0 .nil hnew (hwhole ▸ h) (hwhole ▸ Sample.permitted) hspare (by decide) (by decide)
    (by decide)⟩

/-- A rename taken back leaves every path and every handle as it was. -/
theorem rename_taken_back (h0 : NewVolume s0) {l0 : List (FileCall × Answer)} (h : Served s0 l0 s)
    (h' : Served s [(.rename p x q y,.code lab4Success),(.rename q y p x,.code lab4Success)] t)
    (hl : Files.spec.Permits .empty
      (l0 ++ [(.rename p x q y,.code lab4Success),(.rename q y p x,.code lab4Success)]))
    (hname : p = q ∨ y = x) (hnew : s.iom.view (y :: q) = none) :
    t.iom.view = s.iom.view ∧ ∃ a, s.iom.Shows a ∧ t.iom.Shows a := by
  obtain ⟨a,hrun,hs⟩ := h.shows h0.shows hl.before
  have ht := Served.rename_back h' hs (hl.after hrun) hname (hs.names ▸ hnew)
  exact ⟨ht.names.trans hs.names.symm,a,hs,ht⟩

theorem rename_taken_back_sample : ∃ s0 s t, Served s0 Sample.start s ∧ Served s Sample.renames t ∧ t.iom.view = s.iom.view := by
  obtain ⟨s0,s,t,h0,hs,hb,ht⟩ := Sample.started
  obtain ⟨t,ht,_⟩ := ht.split
  have hl : Files.spec.Permits .empty ((Sample.start ++ Sample.renames) ++ (Sample.refused ++ Sample.finish)) := Sample.permitted
  have hnew : s.iom.view [[101]] = none := by
    rw [hb.names]
    decide
  exact ⟨s0,s,t,hs,ht,(rename_taken_back h0 hs ht hl.before (.inl rfl) hnew).1⟩

end SimpleFS
