import GuestStorage.Proofs.Path
import Mathlib.Data.List.TakeWhile

namespace GuestStorage.Path

def Gap (text : String) : Prop := ∀ c ∈ text.toList, isSeparator c = true

/-- Names with one or more separators between any two, and any number of them at both ends. -/
inductive Spells : List String → String → Prop
  | nil {gap : String} (only : Gap gap) : Spells [] gap
  | cons {gap name text : String} {rest : List String} (before : Gap gap)
      (parted : rest ≠ [] → ∃ c, text.toList.head? = some c ∧ isSeparator c = true) (others : Spells rest text) :
      Spells (name :: rest) (gap ++ name ++ text)

variable {gap name text : String} {names : List String} {c : Char} {chars front : List Char}

def pieces (chars : List Char) : List String :=
  ((Text.cut isSeparator chars).filter (!·.isEmpty)).map String.ofList

theorem components_eq_pieces (path : String) : components path = pieces path.toList := rfl

theorem pieces_append_cons (separates : isSeparator c = true) (front chars : List Char) :
    pieces (front ++ c :: chars) = pieces front ++ pieces chars := by
  rw [pieces, Text.cut_append_cons separates, List.filter_append, List.map_append, pieces, pieces]

theorem pieces_cons (separates : isSeparator c = true) (chars : List Char) : pieces (c :: chars) = pieces chars :=
  pieces_append_cons separates [] chars

theorem pieces_gap_append (before : ∀ c ∈ front, isSeparator c = true) (chars : List Char) :
    pieces (front ++ chars) = pieces chars := by
  induction front with
  | nil => rfl
  | cons c front ih =>
    rw [List.cons_append, pieces_cons (before c List.mem_cons_self),
      ih fun other listed => before other (List.mem_cons_of_mem c listed)]

theorem pieces_name_append (clean : IsName name) (parted : ∀ c, chars.head? = some c → isSeparator c = true) :
    pieces (name.toList ++ chars) = name :: pieces chars := by
  have own : pieces name.toList = [name] := components_of_isName clean
  cases chars with
  | nil => rw [List.append_nil, own]; rfl
  | cons c chars =>
    have separates := parted c rfl
    rw [pieces_append_cons separates, own, pieces_cons separates]
    rfl

theorem components_of_spells (spells : Spells names text) (clean : ∀ name ∈ names, IsName name) :
    components text = names := by
  rw [components_eq_pieces]
  induction spells with
  | nil only =>
    have bare := pieces_gap_append only []
    rwa [List.append_nil] at bare
  | @cons gap name text rest before parted others ih =>
    have own := clean name List.mem_cons_self
    have cut := ih fun other listed => clean other (List.mem_cons_of_mem name listed)
    have ends : ∀ c, text.toList.head? = some c → isSeparator c = true := by
      intro c first
      cases others with
      | nil only => exact only c (List.mem_of_mem_head? first)
      | cons =>
        obtain ⟨c', first', separates⟩ := parted (List.cons_ne_nil _ _)
        rw [first, Option.some.injEq] at first'
        rwa [first']
    rw [String.toList_append, String.toList_append, List.append_assoc, pieces_gap_append before,
      pieces_name_append own ends, cut]

theorem Spells.gap_append {before : String} (only : Gap before) (spells : Spells names text) :
    Spells names (before ++ text) := by
  have joined : ∀ {gap}, Gap gap → Gap (before ++ gap) := by
    intro gap also c listed
    rw [String.toList_append, List.mem_append] at listed
    exact listed.elim (only c) (also c)
  cases spells with
  | nil gap => exact .nil (joined gap)
  | cons gap parted others =>
    rw [← String.append_assoc, ← String.append_assoc]
    exact .cons (joined gap) parted others

theorem exists_name_append (plainly : isSeparator c = false) (chars : List Char) :
    ∃ name tail, IsName name ∧ c :: chars = name.toList ++ tail ∧ tail.length ≤ chars.length ∧
      ∀ other, tail.head? = some other → isSeparator other = true := by
  refine ⟨String.ofList (c :: chars.takeWhile (!isSeparator ·)), chars.dropWhile (!isSeparator ·),
    ⟨fun empty => ?_, fun other listed => ?_⟩, ?_, List.length_dropWhile_le _ chars, fun other first => ?_⟩
  · have chars := congrArg String.toList empty
    simp at chars
  · rw [String.toList_ofList, List.mem_cons] at listed
    rcases listed with rfl | listed
    · exact plainly
    · simpa using List.mem_takeWhile_imp listed
  · rw [String.toList_ofList, List.cons_append, List.takeWhile_append_dropWhile]
  · have stops := List.head?_dropWhile_not (!isSeparator ·) chars
    rw [first] at stops
    simpa using stops

theorem spells_pieces : ∀ chars : List Char, Spells (pieces chars) (String.ofList chars)
  | [] => .nil fun c listed => absurd listed List.not_mem_nil
  | c :: chars => by
    cases separates : isSeparator c with
    | true =>
      have gap : Gap (String.singleton c) := fun other listed => by
        rw [String.toList_singleton, List.mem_singleton] at listed
        rwa [listed]
      rw [pieces_cons separates, String.ofList_cons]
      exact (spells_pieces chars).gap_append gap
    | false =>
      obtain ⟨name, tail, clean, whole, short, parted⟩ := exists_name_append separates chars
      have others := spells_pieces tail
      rw [whole, pieces_name_append clean parted, String.ofList_append, String.ofList_toList,
        ← String.empty_append (s := name)]
      refine .cons (fun other listed => absurd listed List.not_mem_nil) (fun more => ?_) others
      rw [String.toList_ofList]
      cases begins : tail with
      | nil => exact absurd (congrArg pieces begins) more
      | cons first rest => exact ⟨first, rfl, parted first (by rw [begins]; rfl)⟩
termination_by chars => chars.length
decreasing_by
  · exact Nat.lt_succ_of_le short
  · exact Nat.lt_succ_self _

theorem components_eq_iff : components text = names ↔ Spells names text ∧ ∀ name ∈ names, IsName name := by
  refine ⟨?_, fun ⟨spells, clean⟩ => components_of_spells spells clean⟩
  rintro rfl
  refine ⟨?_, fun name => isName_of_mem_components⟩
  have spells := spells_pieces text.toList
  rwa [String.ofList_toList] at spells

end GuestStorage.Path
