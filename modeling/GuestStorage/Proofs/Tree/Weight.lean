import GuestStorage.Proofs.Tree.Ground

namespace GuestStorage.Tree

variable {σ F D : Type} [Backing σ F D]

/-- All files at and below the listed directories have so many bytes together. -/
inductive Weighs (s : σ) : List (DirectoryView D) → Nat → Prop
  | nil : Weighs s [] 0
  | cons {dir : DirectoryView D} {rest : List (DirectoryView D)} {inside others : Nat} :
      Weighs s (dir.subdirectories s) inside → Weighs s rest others →
        Weighs s (dir :: rest) (((dir.files s).map (·.size s)).sum + inside + others)

namespace Weighs

variable {s : σ} {dirs rest : List (DirectoryView D)} {total other : Nat}

theorem unique (one : Weighs s dirs total) (also : Weighs s dirs other) : total = other := by
  induction one generalizing other with
  | nil =>
    cases also
    rfl
  | cons _ _ below beside =>
    cases also with
    | cons inside others => rw [below inside, beside others]

theorem append_one {dir : DirectoryView D} (one : Weighs s [dir] total) (others : Weighs s rest other) :
    Weighs s (dir :: rest) (total + other) := by
  cases one with
  | cons inside none =>
    cases none
    exact .cons inside others

theorem of_each {weight : DirectoryView D → Nat} (each : ∀ dir ∈ dirs, Weighs s [dir] (weight dir)) :
    Weighs s dirs (dirs.map weight).sum := by
  induction dirs with
  | nil => exact .nil
  | cons dir rest ih =>
    rw [List.map_cons, List.sum_cons]
    exact (each dir List.mem_cons_self).append_one (ih fun other among => each other (List.mem_cons_of_mem _ among))

theorem of_bare {dir : DirectoryView D} (files : dir.files s = []) (subdirectories : dir.subdirectories s = [])
    (depth : Nat) : Weighs s [dir] (dir.sizeWithin s depth) := by
  have none : Weighs s [dir] (((dir.files s).map (·.size s)).sum + 0 + 0) := .cons (subdirectories ▸ .nil) .nil
  cases depth with
  | zero =>
    change Weighs s [dir] 0
    simpa [files] using none
  | succ depth => simpa [DirectoryView.sizeWithin_succ, files, subdirectories] using none

end Weighs

namespace Ground

variable {root : DirectoryView D} {s : σ} {dir : DirectoryView D} {names : List String}

theorem weighs_sizeWithin (ground : Ground σ root) (holds : ground.holds s) (depth : Nat)
    (reached : root.descend? s names = some dir)
    (short : ∀ more sub, dir.descend? s more = some sub → more.length < depth) :
    Weighs s [dir] (dir.sizeWithin s depth) := by
  induction depth generalizing names dir with
  | zero => exact absurd (short [] dir rfl) (Nat.not_lt_zero _)
  | succ depth ih =>
    rw [DirectoryView.sizeWithin_succ]
    refine .cons (.of_each fun sub listed => ?_) .nil
    rcases ground.listed holds reached listed with found | ⟨files, subdirectories⟩
    · have led : root.descend? s (names ++ [sub.name s]) = some sub := by
        rw [DirectoryView.descend?_concat, reached, Option.bind_some, found]
      refine ih led fun more inner further => ?_
      have longer : dir.descend? s (sub.name s :: more) = some inner := by
        rw [DirectoryView.descend?, List.foldlM_cons, found]
        exact further
      exact Nat.lt_of_succ_lt_succ (short _ _ longer)
    · exact .of_bare files subdirectories depth

theorem weighs_size (ground : Ground σ root) (holds : ground.holds s)
    (reached : root.descend? s names = some dir) : Weighs s [dir] (dir.size s) :=
  ground.weighs_sizeWithin holds _ reached fun _ _ further => ground.short holds reached further

end Ground

end GuestStorage.Tree
