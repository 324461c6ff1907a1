import GuestStorage.Proofs.Memory.Move
import GuestStorage.Proofs.Text.Joined
import GuestStorage.Proofs.Tree.Addressing

namespace GuestStorage.Tree.Mount

open Memory (plainNames)

variable {σ F D : Type} [storage : Backing σ F D] {s : σ} {mount : Mount D} {p q path : String} {dir : D} {name : String}

theorem normalize_eq (path : String) : normalize path =
    if ".." ∈ Path.components path then .error .invalidArgument else .ok (plainNames path) := by
  have dots : (plainNames path).contains ".." = true ↔ ".." ∈ Path.components path := by
    rw [List.contains_iff_mem, plainNames, List.mem_filter]
    exact and_iff_left rfl
  exact if_congr dots rfl rfl

theorem normalize_congr (same : plainNames p = plainNames q) : normalize p = normalize q :=
  congrArg (fun names : List String => if names.contains ".." then _ else Except.ok names) same

theorem normalize_of_dots (dots : ".." ∈ Path.components path) : normalize path = .error .invalidArgument := by
  rw [normalize_eq, if_pos dots]

theorem locate_congr (same : plainNames p = plainNames q) : mount.locate s p = mount.locate s q := by
  rw [locate, normalize_congr same, locate]

theorem locate_of_dots (dots : ".." ∈ Path.components path) : mount.locate s path = .error .invalidArgument := by
  rw [locate, normalize_of_dots dots]
  rfl

theorem renameDirectory_of_dots {source target : String}
    (dots : ".." ∈ Path.components source ∨ ".." ∈ Path.components target) :
    mount.renameDirectory s source target = (.error .invalidArgument, s) := by
  rw [renameDirectory]
  by_cases first : ".." ∈ Path.components source
  · rw [normalize_of_dots first]
  · rw [normalize_eq source, if_neg first, normalize_of_dots (dots.resolve_left first)]

theorem along_iff : mount.Along s path dir name ↔
    ".." ∉ Path.components path ∧ mount.root.Along s (plainNames path) dir name := by
  rw [Along, normalize_eq]
  split <;> simp_all

theorem ends_iff : mount.Ends s path dir name ↔
    ".." ∉ Path.components path ∧ mount.root.Ends s (plainNames path) dir name := by
  rw [Ends, normalize_eq]
  split <;> simp_all

section Texts

/-- Where a path leads, told from its text: its names are joined by slashes, what stands before the last slash is looked
    up as a path, and what stands behind it is the name. -/
def locateText (s : σ) (mount : Mount D) (path : String) : Except Error (DirectoryView D × String) :=
  ((normalize path).map Path.join).bind fun text =>
    if text = "" then .error .invalidArgument
    else
      match mount.root.directoryAt? s (Path.splitParent text).1 with
      | none => .error .entityNotFound
      | some holder => .ok (holder, (Path.splitParent text).2)

/-- What is done with a path's text comes to what is done with its names: where the text is normalized once more, where
    it leads, and where it is compared with that of another path or tried as the beginning of it. -/
structure ReadsText (s : σ) (mount : Mount D) (path : String) : Prop where
  again : plainNames (Path.join (plainNames path)) = plainNames path
  located : mount.locateText s path = mount.locate s path
  same : ∀ other, Path.join (plainNames path) = Path.join (plainNames other) ↔ plainNames path = plainNames other
  inside : ∀ other, (∃ rest, Path.join (plainNames other) = Path.join (plainNames path) ++ ("/" ++ rest)) ↔
    plainNames path ≠ [] ∧ plainNames path <+: plainNames other ∧ plainNames path ≠ plainNames other

theorem isName_of_mem_plainNames (listed : name ∈ plainNames path) : Path.IsName name :=
  Path.isName_of_mem_components (List.mem_of_mem_filter listed)

theorem plainNames_join (path : String) : plainNames (Path.join (plainNames path)) = plainNames path := by
  have cut := Path.components_join fun name (listed : name ∈ plainNames path) => isName_of_mem_plainNames listed
  rw [plainNames, cut, plainNames, List.filter_filter]
  exact List.filter_congr fun _ _ => Bool.and_self _

theorem locateText_eq (s : σ) (mount : Mount D) (path : String) : mount.locateText s path = mount.locate s path := by
  unfold locateText locate
  cases normal : normalize path with
  | error e => rfl
  | ok names =>
    obtain ⟨-, clean⟩ := Memory.normalize_ok normal
    rcases List.eq_nil_or_concat' names with rfl | ⟨front, last, rfl⟩
    · rfl
    · have own := clean last (List.mem_append_right front List.mem_cons_self)
      have proper : Path.join (front ++ [last]) ≠ "" := fun empty =>
        List.append_ne_nil_of_right_ne_nil front (List.cons_ne_nil last [])
          ((Path.join_injective clean fun name listed => absurd listed List.not_mem_nil).mp empty)
      have cut := Path.components_join fun name listed => clean name (List.mem_append_left [last] listed)
      -- with the outcome known, the two readings can be compared case by case
      cases reached : mount.root.descend? s front <;>
        simp only [Except.map, Except.bind, proper, if_false, Path.splitParent_join front own,
          DirectoryView.directoryAt?, cut, locateAlong, List.getLast?_concat, List.dropLast_concat, reached]

theorem readsText (s : σ) (mount : Mount D) (path : String) : mount.ReadsText s path where
  again := plainNames_join path
  located := locateText_eq s mount path
  same _ := Path.join_injective (fun _ => isName_of_mem_plainNames) fun _ => isName_of_mem_plainNames
  inside _ := Path.join_slash_prefix_iff (fun _ => isName_of_mem_plainNames) fun _ => isName_of_mem_plainNames

end Texts

end GuestStorage.Tree.Mount
