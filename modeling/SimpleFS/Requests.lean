import SimpleFS.Outcomes
import SimpleFS.Machine.Run

/-! # Requests

One call of a directory operation on a directory given by its inode number. In a sane state a call that
names what it is meant for ends in one of the ways of its operation.
-/
namespace SimpleFS
open Bytes Machine Prog SlotTree

variable {m : Iom}

/-- A call of one of the directory operations on the directory with inode `D`. -/
inductive Request
  | create (D : ℕ) (name : List UInt8) (mode : ℕ)
  | mkdir (D : ℕ) (name : List UInt8)
  | unlink (D : ℕ) (name : List UInt8)
  | rmdir (D : ℕ) (name : List UInt8)

namespace Request

/-- The parent record is the one in the table. -/
def run : Request → M ℤ
  | create D name mode => do
    let m ← getIom
    let (res,_) ← lab4Createfile (m.inode D) name mode
    return res
  | mkdir D name => do
    let m ← getIom
    doMkdir (m.inode D) name
  | unlink D name => do
    let m ← getIom
    doUnlink (m.inode D) name
  | rmdir D name => do
    let m ← getIom
    doRmdir (m.inode D) name

section Rules
variable {u : Prop} {e : Env} {s : Sys} {Q : ℤ → Sys → Prop} {D mode : ℕ} {x : List UInt8}

theorem wp_create : wp u (create D x mode).run Q e s ↔
    wp u (lab4Createfile (s.iom.inode D) x mode) (fun r s' => Q r.1 s') e s := by
  unfold run
  simp only [wp_bind, wp_getIom, wp_pure]

theorem wp_mkdir : wp u (mkdir D x).run Q e s ↔ wp u (doMkdir (s.iom.inode D) x) Q e s := by
  unfold run
  rw [wp_bind, wp_getIom]

theorem wp_unlink : wp u (unlink D x).run Q e s ↔ wp u (doUnlink (s.iom.inode D) x) Q e s := by
  unfold run
  rw [wp_bind, wp_getIom]

theorem wp_rmdir : wp u (rmdir D x).run Q e s ↔ wp u (doRmdir (s.iom.inode D) x) Q e s := by
  unfold run
  rw [wp_bind, wp_getIom]

end Rules

/-- The parent is a directory, the name fits, `do_unlink` is asked for a file and `do_rmdir` for a directory,
neither of them for a dot entry. -/
def Admissible (m : Iom) : Request → Prop
  | create D x _ => m.tree.kind D = some .dir ∧ ValidName x
  | mkdir D x => m.tree.kind D = some .dir ∧ ValidName x
  | unlink D x => m.tree.kind D = some .dir ∧ ValidName x ∧ x ≠ dotName ∧ x ≠ dotdotName ∧
      ∀ k, m.tree.Binds D x k → m.tree.kind k = some .file
  | rmdir D x => m.tree.kind D = some .dir ∧ ValidName x ∧ x ≠ dotName ∧ x ≠ dotdotName ∧
      ∀ k, m.tree.Binds D x k → m.tree.kind k = some .dir

end Request

/-- How a request ends. -/
inductive Iom.Ended (m : Iom) : Request → ℤ → Iom → Prop
  | create {D : ℕ} {x : List UInt8} {mode : ℕ} {r : ℤ × Option Inode} {m' : Iom} (h : m.Created D x r m') :
      Ended m (.create D x mode) r.1 m'
  | mkdir {D : ℕ} {x : List UInt8} {r : ℤ} {m' : Iom} (h : m.MadeDir D x r m') : Ended m (.mkdir D x) r m'
  | unlink {D : ℕ} {x : List UInt8} {r : ℤ} {m' : Iom} (h : m.Unlinked D x r m') : Ended m (.unlink D x) r m'
  | rmdir {D : ℕ} {x : List UInt8} {r : ℤ} {m' : Iom} (h : m.RemovedDir D x r m') : Ended m (.rmdir D x) r m'

theorem Request.wp_run {e : Env} {s : Sys} {q : Request} {Q : ℤ → Sys → Prop} (he : e.Nominal) (h : s.iom.Sane)
    (hq : q.Admissible s.iom) (hQ : ∀ r m' s', s.iom.Ended q r m' → s'.iom = m' → Q r s') : wp True q.run Q e s := by
  cases q with
  | create D x mode =>
    exact Request.wp_create.mpr (wp_created he h hq.1 hq.2 (fun r m' s' hc _ hs' => hQ r.1 m' s' (.create hc) hs'))
  | mkdir D x => exact Request.wp_mkdir.mpr (wp_madeDir he h hq.1 hq.2 (fun r m' s' hc _ hs' => hQ r m' s' (.mkdir hc) hs'))
  | unlink D x =>
    exact Request.wp_unlink.mpr (wp_unlinked he h hq.1 hq.2.1 hq.2.2.1 hq.2.2.2.1 (fun _ => trivial)
      (fun r m' s' hc _ hs' => hQ r m' s' (.unlink hc) hs'))
  | rmdir D x =>
    exact Request.wp_rmdir.mpr (wp_removedDir he h hq.1 hq.2.1 hq.2.2.1 hq.2.2.2.1 hq.2.2.2.2 (fun _ => trivial)
      (fun r m' s' hc _ hs' => hQ r m' s' (.rmdir hc) hs'))

end SimpleFS
