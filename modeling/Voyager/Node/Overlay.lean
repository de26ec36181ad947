import Voyager.Infinity.Address

/-!
# The node's overlay across restarts

`InitStateStore` (`part_001:22-30`) opens the state store under the data directory,
at `filepath.Join(dataDir, "statestore")`, or, for an empty data directory, an
in-memory store that nothing persists. `CheckOverlayWithStore` (`part_001:34-48`)
stores the overlay under `overlayKey` when the store holds none, and otherwise fails
unless the stored overlay is the one given.

The node starts many times over one disk (`starts`). The stored overlay, once written,
is never rewritten (`starts_stable`). So whenever two starts whose state stores lie at
one path pass the check, they have the same overlay (`starts_agree`). A start with an
empty data directory checks against a fresh store and passes with any overlay.
-/

namespace Voyager.Node
open Voyager.Infinity

/-- `overlayKey`. -/
def overlayKey : String := "overlay"

/-- Why a start fails: `leveldb.NewStateStore`'s error, the store's `Get` failing with
an error other than `storage.ErrNotFound`, its `Put` failing, or
`"overlay address changed. was %s before but now is %s"` with both overlays. -/
inductive OverlayError where
  | newStateStore
  | get
  | put
  | changed (was now : Address)
  deriving DecidableEq, Repr

/-- What the state store answers at one start: whether `leveldb.NewStateStore` fails,
whether `Get` fails with an error other than `storage.ErrNotFound`, and whether `Put`
fails. -/
structure StoreAnswers where
  openFails : Bool
  getFails : Bool
  putFails : Bool

/-- `CheckOverlayWithStore` (`part_001:35`) on a store holding `stored` under
`overlayKey`: what it holds after, and the result. -/
def checkOverlayWithStore (a : StoreAnswers) (overlay : Address) (stored : Option Address) :
    Option Address × Except OverlayError Unit :=
  if a.getFails then (stored, .error .get)
  else match stored with
    | none => if a.putFails then (stored, .error .put) else (some overlay, .ok ())
    | some s => if s = overlay then (stored, .ok ()) else (stored, .error (.changed s overlay))

/-- One start of the node: its data directory and overlay, and the store's answers. -/
structure Start where
  dataDir : String
  overlay : Address
  answers : StoreAnswers

/-- `InitStateStore` and then `CheckOverlayWithStore`, on a disk holding the overlay
stored at each store path; `path` is `filepath.Join(·, "statestore")`. The in-memory
store of an empty data directory is fresh: its `Get` finds nothing and its `Put`
succeeds. -/
def start (path : String → String) (disk : String → Option Address) (s : Start) :
    (String → Option Address) × Except OverlayError Unit :=
  if s.dataDir = "" then (disk, (checkOverlayWithStore ⟨false, false, false⟩ s.overlay none).2)
  else if s.answers.openFails then (disk, .error .newStateStore)
  else
    let r := checkOverlayWithStore s.answers s.overlay (disk (path s.dataDir))
    (Function.update disk (path s.dataDir) r.1, r.2)

/-- Starts one after another over one disk, each with its result. -/
def starts (path : String → String) : (String → Option Address) → List Start →
    List (Start × Except OverlayError Unit)
  | _, [] => []
  | disk, s :: ss => (s, (start path disk s).2) :: starts path (start path disk s).1 ss

section
variable (path : String → String)

/-- A check never rewrites a stored overlay, and passes only for it. -/
theorem checkOverlayWithStore_stored (a : StoreAnswers) (overlay o : Address) :
    (checkOverlayWithStore a overlay (some o)).1 = some o ∧
      ((checkOverlayWithStore a overlay (some o)).2 = .ok () → overlay = o) := by
  unfold checkOverlayWithStore
  by_cases hg : a.getFails
  · simp [hg]
  · simp only [hg, Bool.false_eq_true, if_false]
    by_cases ho : o = overlay <;> simp [ho]

/-- A start that passes with a persistent store leaves its overlay stored there. -/
theorem start_ok_stored {disk : String → Option Address} {s : Start} (hd : s.dataDir ≠ "")
    (h : (start path disk s).2 = .ok ()) : (start path disk s).1 (path s.dataDir) = some s.overlay := by
  unfold start at h ⊢
  rw [if_neg hd] at h ⊢
  by_cases hopen : s.answers.openFails
  · rw [if_pos hopen] at h; cases h
  rw [if_neg hopen] at h ⊢
  dsimp only at h ⊢
  rw [Function.update_same]
  cases hs : disk (path s.dataDir) with
  | none =>
    rw [hs] at h
    unfold checkOverlayWithStore at h ⊢
    by_cases hg : s.answers.getFails
    · simp [hg] at h
    · by_cases hp : s.answers.putFails <;> simp_all
  | some o =>
    rw [hs] at h
    rw [(checkOverlayWithStore_stored s.answers s.overlay o).1,
      (checkOverlayWithStore_stored s.answers s.overlay o).2 h]

/-- A start leaves an overlay stored at any path as it was. -/
theorem start_keeps {disk : String → Option Address} (s : Start) {p : String} {o : Address}
    (hp : disk p = some o) : (start path disk s).1 p = some o := by
  unfold start
  split
  · exact hp
  split
  · exact hp
  dsimp only
  by_cases hpath : p = path s.dataDir
  · subst hpath
    rw [Function.update_same, hp]
    exact (checkOverlayWithStore_stored s.answers s.overlay o).1
  · rw [Function.update_noteq hpath]; exact hp

/-- Once an overlay is stored at a path, it stays, and every later start at that path
that passes has it. -/
theorem starts_stable {p : String} {o : Address} : ∀ {disk : String → Option Address} (ss : List Start),
    disk p = some o → ∀ r ∈ starts path disk ss, r.1.dataDir ≠ "" → path r.1.dataDir = p →
      r.2 = .ok () → r.1.overlay = o
  | _, [], _, _, hr, _, _, _ => nomatch hr
  | disk, s :: ss, hp, r, hr, hd, hpath, hok => by
    rcases List.mem_cons.1 hr with rfl | hr
    · have := start_ok_stored path hd hok
      rw [hpath, start_keeps path _ hp, Option.some_inj] at this
      exact this.symm
    · exact starts_stable ss (start_keeps path s hp) r hr hd hpath hok

end

/-- **A data directory pins the node's overlay.** Over any starts of a node on one
disk, with any answers of the state stores, two starts that both pass the overlay
check with state stores at the same path have the same overlay. -/
theorem starts_agree (path : String → String) : ∀ (disk : String → Option Address) (ss : List Start),
    ∀ r ∈ starts path disk ss, ∀ r' ∈ starts path disk ss,
      r.1.dataDir ≠ "" → r'.1.dataDir ≠ "" → path r.1.dataDir = path r'.1.dataDir →
      r.2 = .ok () → r'.2 = .ok () → r.1.overlay = r'.1.overlay
  | _, [] => fun _ h => nomatch h
  | disk, s :: ss => by
    intro r hr r' hr' hd hd' hpath h h'
    -- a passing start stores its overlay, and the later starts at its path have it
    have later : s.dataDir ≠ "" → (start path disk s).2 = .ok () →
        ∀ q ∈ starts path (start path disk s).1 ss, q.1.dataDir ≠ "" →
          path q.1.dataDir = path s.dataDir → q.2 = .ok () → q.1.overlay = s.overlay :=
      fun hs hok => starts_stable path ss (start_ok_stored path hs hok)
    rcases List.mem_cons.1 hr with rfl | hr <;> rcases List.mem_cons.1 hr' with rfl | hr'
    · rfl
    · exact (later hd h r' hr' hd' hpath.symm h').symm
    · exact later hd' h' r hr hd hpath h
    · exact starts_agree path _ ss r hr r' hr' hd hd' hpath h h'

/-- Two starts with one data directory: the first stores its overlay, and a restart with
the same overlay passes. -/
theorem starts_agree_restart :
    let s : Start := ⟨"data", Address.ofHead 1, ⟨false, false, false⟩⟩
    let runs := starts id (fun _ => none) [s, s]
    ∃ r ∈ runs, ∃ r' ∈ runs, r.1.dataDir ≠ "" ∧ r'.1.dataDir ≠ "" ∧
      id r.1.dataDir = id r'.1.dataDir ∧ r.2 = .ok () ∧ r'.2 = .ok () ∧
      r.1.overlay = r'.1.overlay := by
  intro s runs
  have hr : (s, Except.ok ()) ∈ runs := List.Mem.head _
  have hr' : (s, Except.ok ()) ∈ runs := List.Mem.tail _ (List.Mem.head _)
  have hd : s.dataDir ≠ "" := by decide
  exact ⟨_, hr, _, hr', hd, hd, rfl, rfl, rfl,
    starts_agree id (fun _ => none) [s, s] _ hr _ hr' hd hd rfl rfl rfl⟩

end Voyager.Node
