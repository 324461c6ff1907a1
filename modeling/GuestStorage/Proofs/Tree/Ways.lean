import GuestStorage.Tree.Walk
import Mathlib.Data.List.Basic

namespace GuestStorage.Tree

/-- The directories that are passed on a way down, each with the place at which it is listed. -/
abbrev Way (D : Type) := List (Nat × DirectoryView D)

namespace Way

variable {D : Type}

def places (way : Way D) : List Nat := way.map (·.1)

def passed (way : Way D) : List (DirectoryView D) := way.map (·.2)

def last (dir : DirectoryView D) (way : Way D) : DirectoryView D := (way.getLast?.map (·.2)).getD dir

variable {dir sub : DirectoryView D} {way : Way D} {place : Nat}

@[simp] theorem last_nil : last dir [] = dir := rfl

@[simp] theorem last_cons : last dir ((place, sub) :: way) = last sub way := by
  cases way with
  | nil => rfl
  | cons step rest =>
    rw [last, last, List.getLast?_cons_cons, List.getLast?_cons]
    rfl

theorem last_append {rest : Way D} : last dir (way ++ rest) = last (last dir way) rest := by
  induction way generalizing dir with
  | nil => rfl
  | cons step others ih => rw [List.cons_append, last_cons, last_cons, ih]

end Way

namespace DirectoryView

variable {σ F D : Type} [Backing σ F D] {s : σ} {dir sub : DirectoryView D} {way rest : Way D} {depth place : Nat}

/-- Each directory of a way is listed at its place in the one before. -/
def Leads (s : σ) : DirectoryView D → Way D → Prop
  | _, [] => True
  | dir, (place, sub) :: rest => (dir.subdirectories s)[place]? = some sub ∧ Leads s sub rest

theorem leads_append : dir.Leads s (way ++ rest) ↔ dir.Leads s way ∧ (Way.last dir way).Leads s rest := by
  induction way generalizing dir with
  | nil => simp [Leads]
  | cons step others ih =>
    rw [List.cons_append, Leads, Leads, ih, and_assoc, Way.last_cons]

/-- All ways from a directory down to a depth, each before those that lead on from it. -/
def walk (s : σ) : Nat → DirectoryView D → List (Way D)
  | 0, _ => []
  | depth + 1, dir => (dir.subdirectories s).zipIdx.flatMap fun (sub, place) =>
      [(place, sub)] :: (walk s depth sub).map ((place, sub) :: ·)

section Survey

variable {α : Type}

end Survey

end DirectoryView

end GuestStorage.Tree
