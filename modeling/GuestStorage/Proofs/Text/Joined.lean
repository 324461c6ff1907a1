import GuestStorage.Proofs.Path
import Mathlib.Data.List.TakeWhile

namespace GuestStorage.Path

variable {front last : String} {names others : List String}

theorem slash_notMem_of_isName (clean : IsName last) : '/' ∉ last.toList := by
  intro held
  have plain := clean.2 _ held
  cases plain

theorem splitParent_of_notMem (plain : '/' ∉ last.toList) : splitParent last = ("", last) := by
  have nothing : last.toList.reverse.dropWhile (· != '/') = [] :=
    List.dropWhile_eq_nil_iff.mpr fun c held =>
      bne_iff_ne.mpr (ne_of_mem_of_not_mem (List.mem_reverse.mp held) plain)
  rw [splitParent, nothing]

theorem splitParent_append (front : String) (plain : '/' ∉ last.toList) :
    splitParent (front ++ ("/" ++ last)) = (front, last) := by
  have text : (front ++ ("/" ++ last)).toList.reverse =
      last.toList.reverse ++ '/' :: front.toList.reverse := by
    simp only [String.toList_append, List.reverse_append, List.append_assoc]
    rfl
  have behind : ∀ c ∈ last.toList.reverse, (c != '/') = true :=
    fun c held => bne_iff_ne.mpr (ne_of_mem_of_not_mem (List.mem_reverse.mp held) plain)
  rw [splitParent, text, List.dropWhile_append_of_pos behind, List.takeWhile_append_of_pos behind]
  simp

theorem splitParent_join (names : List String) (own : IsName last) :
    splitParent (join (names ++ [last])) = (join names, last) := by
  by_cases top : names = []
  · rw [top, List.nil_append, join, String.intercalate_singleton, splitParent_of_notMem (slash_notMem_of_isName own)]
    rfl
  · rw [join_append top (List.cons_ne_nil _ _), ← splitParent_append (join names) (slash_notMem_of_isName own), join,
      join, String.intercalate_singleton]

theorem join_injective (clean : ∀ name ∈ names, IsName name) (alsoClean : ∀ name ∈ others, IsName name) :
    join names = join others ↔ names = others :=
  ⟨fun same => join_append_injective clean alsoClean (show join ([] ++ names) = join ([] ++ others) from same),
    congrArg join⟩

theorem join_ne_slash_append (clean : ∀ name ∈ names, IsName name) (rest : String) : join names ≠ "/" ++ rest := by
  intro slash
  cases names with
  | nil =>
    have lengths := congrArg (fun text => text.toList.length) slash
    simp [join] at lengths
  | cons name more =>
    obtain ⟨tail, whole⟩ : ∃ tail, join (name :: more) = name ++ tail := by
      by_cases last : more = []
      · exact ⟨"", by rw [last, join, String.intercalate_singleton, String.append_empty]⟩
      · exact ⟨_, (String.intercalate_cons_of_ne_nil last).trans (String.append_assoc ..)⟩
    have own := clean name List.mem_cons_self
    have lists := congrArg String.toList (whole.symm.trans slash)
    rw [String.toList_append, String.toList_append] at lists
    cases begins : name.toList with
    | nil => exact own.1 (String.toList_inj.mp begins)
    | cons c rest =>
      rw [begins] at lists
      have first : c = '/' := (List.cons.inj lists).1
      exact slash_notMem_of_isName own (by rw [begins, first]; exact List.mem_cons_self)

theorem join_slash_prefix_iff (clean : ∀ name ∈ names, IsName name) (alsoClean : ∀ name ∈ others, IsName name) :
    (∃ rest, join others = join names ++ ("/" ++ rest)) ↔ names ≠ [] ∧ names <+: others ∧ names ≠ others := by
  constructor
  · rintro ⟨rest, whole⟩
    refine ⟨?_, ?_, ?_⟩
    · rintro rfl
      exact join_ne_slash_append alsoClean rest (whole.trans (String.empty_append ..))
    · have cut := congrArg components whole
      rw [components_join alsoClean, ← String.append_assoc, components_join_append, components_join clean] at cut
      exact ⟨_, cut.symm⟩
    · rintro rfl
      have lengths := congrArg (fun text => text.toList.length) whole
      simp at lengths
  · rintro ⟨some_, ⟨rest, rfl⟩, more⟩
    refine ⟨join rest, join_append some_ ?_⟩
    rintro rfl
    exact more (List.append_nil names).symm

end GuestStorage.Path
