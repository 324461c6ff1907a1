import GuestStorage.Tree.Walk
import Mathlib.Algebra.GroupWithZero.Nat

namespace GuestStorage.Tree.DirectoryView

variable {σ α : Type} {step : σ → α → Bool × σ} {items : List α} {s : σ}

theorem forEach_keeps (kept : σ → Prop) (next : ∀ s, ∀ x ∈ items, kept s → kept (step s x).2)
    (start : kept s) : kept (forEach step items s).2 := by
  induction items generalizing s with
  | nil => exact start
  | cons x rest ih =>
    have first := next s x List.mem_cons_self start
    exact ih (fun s y there => next s y (List.mem_cons_of_mem x there)) first

theorem forEach_congr (step other : σ → α → Bool × σ) (items : List α) (kept : σ → Prop)
    (next : ∀ s, ∀ x ∈ items, kept s → other s x = step s x ∧ kept (step s x).2) (start : kept s) :
    forEach other items s = forEach step items s ∧ kept (forEach step items s).2 := by
  refine ⟨?_, forEach_keeps kept (fun s x there before => (next s x there before).2) start⟩
  induction items generalizing s with
  | nil => rfl
  | cons x rest ih =>
    obtain ⟨same, after⟩ := next s x List.mem_cons_self start
    have others := ih (fun s y there => next s y (List.mem_cons_of_mem x there)) after
    simp only [forEach, same, others]

theorem forEach_completes (step : σ → α → Bool × σ) (items : List α) (left : List α → σ → Prop)
    (next : ∀ s x rest, left (x :: rest) s → (step s x).1 = true ∧ left rest (step s x).2)
    (start : left items s) : (forEach step items s).1 = true ∧ left [] (forEach step items s).2 := by
  induction items generalizing s with
  | nil => exact ⟨rfl, start⟩
  | cons x rest ih =>
    obtain ⟨done, further⟩ := next s x rest start
    have others := ih further
    exact ⟨by simp [forEach, done, others.1], others.2⟩

theorem forEach_each (step : σ → α → Bool × σ) (items : List α) (kept : σ → Prop) (finished : α → σ → Prop)
    (next : ∀ s, ∀ x ∈ items, kept s → kept (step s x).2 ∧ ((step s x).1 = true → finished x (step s x).2))
    (stays : ∀ s, ∀ x ∈ items, ∀ y, kept s → finished y s → finished y (step s x).2)
    (start : kept s) (succeeded : (forEach step items s).1 = true) :
    ∀ x ∈ items, finished x (forEach step items s).2 := by
  suffices all : ∀ todo s, (∀ x ∈ todo, x ∈ items) → kept s → (forEach step todo s).1 = true →
      (∀ y, finished y s → finished y (forEach step todo s).2) ∧
        ∀ x ∈ todo, finished x (forEach step todo s).2 from (all items s (fun _ => id) start succeeded).2
  intro todo
  induction todo with
  | nil => exact fun s _ _ _ => ⟨fun _ => id, by simp⟩
  | cons x rest ih =>
    intro s within before succeeded
    simp only [forEach, Bool.and_eq_true] at succeeded ⊢
    have here := within x List.mem_cons_self
    obtain ⟨after, own⟩ := next s x here before
    obtain ⟨keeps, others⟩ := ih (step s x).2 (fun y there => within y (List.mem_cons_of_mem x there)) after
      succeeded.2
    refine ⟨fun y done => keeps y (stays s x here y before done), fun y among => ?_⟩
    rcases List.mem_cons.mp among with rfl | later
    · exact keeps y (own succeeded.1)
    · exact others y later

theorem forEachUntil_cases (step : σ → α → Bool × σ) (items : List α) (after : List α → σ → Prop)
    (stopped : σ → Prop)
    (next : ∀ done x rest s, items = done ++ x :: rest → after done s →
      (∃ s', step s x = (true, s') ∧ after (done ++ [x]) s') ∨
        ∃ s', step s x = (false, s') ∧ stopped s')
    (start : after [] s) :
    (∃ s', forEachUntil step items s = (true, s') ∧ after items s') ∨
      ∃ s', forEachUntil step items s = (false, s') ∧ stopped s' := by
  suffices all : ∀ todo done s, items = done ++ todo → after done s →
      (∃ s', forEachUntil step todo s = (true, s') ∧ after items s') ∨
        ∃ s', forEachUntil step todo s = (false, s') ∧ stopped s' from all items [] s rfl start
  intro todo
  induction todo with
  | nil =>
    intro done s parts reached
    rw [List.append_nil] at parts
    exact .inl ⟨s, rfl, parts ▸ reached⟩
  | cons x rest ih =>
    intro done s parts reached
    rcases next done x rest s parts reached with ⟨s', succeeded, further⟩ | ⟨s', failed, halted⟩
    · simp only [forEachUntil, succeeded]
      exact ih (done ++ [x]) s' (by simpa using parts) further
    · exact .inr ⟨s', by simp only [forEachUntil, failed], halted⟩

theorem forEachUntil_keeps (kept : σ → Prop) (next : ∀ s, ∀ x ∈ items, kept s → kept (step s x).2)
    (start : kept s) : kept (forEachUntil step items s).2 := by
  induction items generalizing s with
  | nil => exact start
  | cons x rest ih =>
    have first := next s x List.mem_cons_self start
    rw [forEachUntil]
    split
    · rename_i s' failed
      rw [failed] at first
      exact first
    · rename_i s' done
      rw [done] at first
      exact ih (fun s y there => next s y (List.mem_cons_of_mem x there)) first

theorem forEachUntil_congr (step other : σ → α → Bool × σ) (items : List α) (kept : σ → Prop)
    (next : ∀ s, ∀ x ∈ items, kept s → other s x = step s x ∧ kept (step s x).2) (start : kept s) :
    forEachUntil other items s = forEachUntil step items s ∧ kept (forEachUntil step items s).2 := by
  refine ⟨?_, forEachUntil_keeps kept (fun s x there before => (next s x there before).2) start⟩
  induction items generalizing s with
  | nil => rfl
  | cons x rest ih =>
    obtain ⟨same, after⟩ := next s x List.mem_cons_self start
    rw [forEachUntil, forEachUntil, same]
    split
    · rfl
    · rename_i s' done
      rw [done] at after
      exact ih (fun s y there => next s y (List.mem_cons_of_mem x there)) after

theorem forEachUntil_completes (step : σ → α → Bool × σ) (items : List α) (after : List α → σ → Prop)
    (next : ∀ done x rest s, items = done ++ x :: rest → after done s →
      ∃ s', step s x = (true, s') ∧ after (done ++ [x]) s')
    (start : after [] s) : ∃ s', forEachUntil step items s = (true, s') ∧ after items s' := by
  rcases forEachUntil_cases step items after (fun _ => False)
    (fun done x rest s parts reached => .inl (next done x rest s parts reached)) start with
    whole | ⟨_, _, never⟩
  · exact whole
  · exact never.elim

theorem forEach_map {β : Type} (step : σ → β → Bool × σ) (f : α → β) (items : List α) (s : σ) :
    forEach step (items.map f) s = forEach (fun s x => step s (f x)) items s := by
  induction items generalizing s with
  | nil => rfl
  | cons x rest ih => simp only [List.map_cons, forEach, ih]

theorem forEachUntil_map {β : Type} (step : σ → β → Bool × σ) (f : α → β) (items : List α) (s : σ) :
    forEachUntil step (items.map f) s = forEachUntil (fun s x => step s (f x)) items s := by
  induction items generalizing s with
  | nil => rfl
  | cons x rest ih => simp only [List.map_cons, forEachUntil, ih]

theorem sizeWithin_succ {F D : Type} [Backing σ F D] (s : σ) (depth : Nat) (dir : DirectoryView D) :
    dir.sizeWithin s (depth + 1) =
      ((dir.files s).map (·.size s)).sum + ((dir.subdirectories s).map (·.sizeWithin s depth)).sum := rfl

section Levels

variable {F D : Type} [Backing σ F D]

def dropFile (dir : DirectoryView D) (s : σ) (file : FileView F) : Bool × σ := dir.deleteFile s (file.name s)

def dropSubdirectory (depth : Nat) (dir : DirectoryView D) (s : σ) (sub : DirectoryView D) : Bool × σ :=
  match cleanWithin depth s dir (sub.name s) with
  | (true, s') => dir.deleteSubdirectory s' (sub.name s)
  | (false, s') => (false, s')

theorem cleanWithin_succ (depth : Nat) {dir inner : DirectoryView D} {name : String}
    (writable : dir.readOnly = false) (found : dir.subdirectory? s name = some inner) :
    cleanWithin (depth + 1) s dir name =
      let files := forEach (dropFile inner) (inner.files s) s
      let directories := forEach (dropSubdirectory depth inner) (inner.subdirectories files.2) files.2
      (files.1 && directories.1, directories.2) := by
  rw [cleanWithin, writable, found]
  rfl

def copyInto (copy : σ → DirectoryView D → DirectoryView D → Bool × σ) (target : DirectoryView D) (s : σ)
    (sub : DirectoryView D) : Bool × σ :=
  match target.createSubdirectory s (sub.name s) with
  | (none, s') => (false, s')
  | (some new, s') => copy s' sub new

variable {depth : Nat} {s' : σ} {source target : DirectoryView D}

theorem copyTreeWithin_of_stopped
    (stopped : forEachUntil (fun s file => target.placeFile s (file.name s) (FileView.readAll s file))
      (source.files s) s = (false, s')) :
    copyTreeWithin (depth + 1) s source target = (false, s') := by rw [copyTreeWithin, stopped]

theorem copyTreeWithin_of_placed
    (placed : forEachUntil (fun s file => target.placeFile s (file.name s) (FileView.readAll s file))
      (source.files s) s = (true, s')) :
    copyTreeWithin (depth + 1) s source target =
      forEachUntil (copyInto (copyTreeWithin depth) target) (source.subdirectories s') s' := by
  rw [copyTreeWithin, placed]
  rfl

end Levels

end GuestStorage.Tree.DirectoryView
