import GuestStorage.Path
import Mathlib.Data.List.Induction

namespace GuestStorage.Text

theorem cut_eq_singleton {separates : Char → Bool} {piece : List Char}
    (plain : ∀ c ∈ piece, separates c = false) : cut separates piece = [piece] := by
  induction piece with
  | nil => rfl
  | cons c rest ih =>
    rw [cut, plain c List.mem_cons_self, ih fun d there => plain d (List.mem_cons_of_mem c there)]
    simp

end GuestStorage.Text

namespace GuestStorage.Path

def IsName (name : String) : Prop := name ≠ "" ∧ ∀ c ∈ name.toList, isSeparator c = false

-- only the name's own characters are looked at, not all there are
instance : DecidablePred IsName := fun name =>
  have : Decidable (∀ c ∈ name.toList, isSeparator c = false) := List.decidableBAll _ _
  inferInstanceAs (Decidable (_ ∧ _))

/-- Names that every storage takes for a new entry. -/
structure Usable (name : String) : Prop where
  isName : IsName name
  proper : name ≠ "." ∧ name ≠ ".."
  clean : '\x00' ∉ name.toList
  short : name.utf8ByteSize ≤ 255

theorem isName_of_mem_components {path name : String} (listed : name ∈ components path) :
    IsName name := by
  obtain ⟨piece, among, rfl⟩ := List.mem_map.mp listed
  obtain ⟨among, some⟩ := List.mem_filter.mp among
  refine ⟨?_, ?_⟩
  · intro empty
    have bare := congrArg String.toList empty
    simp only [String.toList_ofList, String.toList_empty] at bare
    simp [bare] at some
  · intro c held
    rw [String.toList_ofList] at held
    exact Text.not_separates_of_mem_cut among held

theorem components_of_isName {name : String} (clean : IsName name) : components name = [name] := by
  have some : name.toList.isEmpty = false := by simpa using clean.1
  rw [components, Text.cut_eq_singleton clean.2, List.filter_cons_of_pos (by simp [some])]
  simp

theorem components_join_append {first rest : String} :
    components (first ++ "/" ++ rest) = components first ++ components rest := by
  have parts : isSeparator '/' = true := rfl
  rw [components, String.toList_append, String.toList_append, List.append_assoc]
  rw [show "/".toList ++ rest.toList = '/' :: rest.toList from rfl, Text.cut_append_cons parts,
    List.filter_append, List.map_append, components, components]

theorem components_join {names : List String} (clean : ∀ name ∈ names, IsName name) :
    components (join names) = names := by
  induction names with
  | nil => rfl
  | cons name rest ih =>
    have own := components_of_isName (clean name List.mem_cons_self)
    have others := ih fun other there => clean other (List.mem_cons_of_mem name there)
    by_cases last : rest = []
    · subst last
      rw [join, String.intercalate_singleton, own]
    · rw [join, String.intercalate_cons_of_ne_nil last, components_join_append, own, ← join, others]
      rfl

theorem join_append {first rest : List String} (some_ : first ≠ []) (also : rest ≠ []) :
    join (first ++ rest) = join first ++ ("/" ++ join rest) :=
  (String.intercalate_append_of_ne_nil some_ also).trans (String.append_assoc ..)

theorem join_append_injective {first names others : List String} (clean : ∀ name ∈ names, IsName name)
    (alsoClean : ∀ name ∈ others, IsName name) (same : join (first ++ names) = join (first ++ others)) :
    names = others := by
  by_cases top : first = []
  · rw [top, List.nil_append, List.nil_append] at same
    rw [← components_join clean, same, components_join alsoClean]
  · have longer : ∀ {more}, more ≠ [] → join (first ++ more) ≠ join first := by
      intro more some_ equal
      rw [join_append top some_] at equal
      have lengths := congrArg (fun text => text.toList.length) equal
      simp at lengths
    by_cases one : names = [] <;> by_cases other : others = []
    · rw [one, other]
    · rw [one, List.append_nil] at same
      exact absurd same.symm (longer other)
    · rw [other, List.append_nil] at same
      exact absurd same (longer one)
    · rw [join_append top one, join_append top other] at same
      have lists := congrArg String.toList same
      simp only [String.toList_append] at lists
      have equal := String.toList_inj.mp (List.append_cancel_left (List.append_cancel_left lists))
      rw [← components_join clean, equal, components_join alsoClean]

def separatorAfter (directory : String) : String :=
  if directory.toList.getLast? == some '/' then "" else "/"

theorem child_eq_append (directory name : String) :
    child directory name = directory ++ separatorAfter directory ++ name := by
  rw [child, separatorAfter]
  split <;> simp

theorem separatorAfter_child {directory name : String} (clean : IsName name) :
    separatorAfter (child directory name) = "/" := by
  have some : name.toList ≠ [] := by simpa using clean.1
  have last : (child directory name).toList.getLast? = name.toList.getLast? := by
    rw [child_eq_append, String.toList_append, List.getLast?_append, List.getLast?_eq_some_getLast some,
      Option.some_or]
  rw [separatorAfter, last, List.getLast?_eq_some_getLast some, if_neg]
  intro slash
  have plain := clean.2 _ (List.getLast_mem some)
  rw [beq_iff_eq, Option.some.injEq] at slash
  rw [slash] at plain
  cases plain

theorem foldl_child (directory : String) {names : List String} (proper : names ≠ [])
    (clean : ∀ name ∈ names, IsName name) :
    names.foldl child directory = child directory (join names) := by
  induction names generalizing directory with
  | nil => exact absurd rfl proper
  | cons name rest ih =>
    rw [List.foldl_cons]
    by_cases last : rest = []
    · subst last
      rw [join, String.intercalate_singleton]
      rfl
    · rw [ih _ last fun other there => clean other (List.mem_cons_of_mem name there),
        child_eq_append (child directory name), separatorAfter_child (clean name List.mem_cons_self),
        child_eq_append, child_eq_append, join, join, String.intercalate_cons_of_ne_nil last]
      simp only [String.append_assoc]

theorem foldl_child_injective {directory : String} {names others : List String}
    (clean : ∀ name ∈ names, IsName name) (alsoClean : ∀ name ∈ others, IsName name)
    (same : names.foldl child directory = others.foldl child directory) : names = others := by
  have joined : ∀ {chain : List String}, (∀ name ∈ chain, IsName name) →
      directory ≠ child directory (join chain) ∨ chain = [] := by
    intro chain clean
    by_cases empty : chain = []
    · exact .inr empty
    · left
      intro equal
      have lengths := congrArg (fun text => text.toList.length) equal
      simp only [child_eq_append, String.toList_append, List.length_append] at lengths
      have nothing : join chain = "" := by
        rw [← String.toList_eq_nil_iff, ← List.length_eq_zero_iff]
        omega
      have cut := components_join clean
      rw [nothing] at cut
      exact empty cut.symm
  by_cases first : names = [] <;> by_cases second : others = []
  · rw [first, second]
  · rw [first, List.foldl_nil, foldl_child directory second alsoClean] at same
    rcases joined alsoClean with different | empty
    · exact absurd same different
    · exact absurd empty second
  · rw [second, List.foldl_nil, foldl_child directory first clean] at same
    rcases joined clean with different | empty
    · exact absurd same.symm different
    · exact absurd empty first
  · rw [foldl_child directory first clean, foldl_child directory second alsoClean, child_eq_append,
      child_eq_append] at same
    have equal : join names = join others := by
      have lists := congrArg String.toList same
      simp only [String.toList_append] at lists
      exact String.toList_inj.mp (List.append_cancel_left lists)
    rw [← components_join clean, equal, components_join alsoClean]

end GuestStorage.Path
