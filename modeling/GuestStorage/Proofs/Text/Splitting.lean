import GuestStorage.Proofs.Text.Joined
import GuestStorage.Proofs.Text.Runs
import GuestStorage.Proofs.Text.Utf8

namespace GuestStorage.Path

variable {path text : String} {names front : List String} {last : String}

section Components

theorem components_eq_iff_runsOf :
    components path = names ↔ Text.RunsOf isSeparator path.toList (names.map String.toList) := by
  have listed : String.toList ∘ String.ofList = id := funext fun _ => String.toList_ofList
  have written : String.ofList ∘ String.toList = id := funext fun _ => String.ofList_toList
  rw [Text.runsOf_iff, components]
  constructor
  · rintro rfl
    rw [List.map_map, listed, List.map_id]
  · intro cut
    rw [cut, List.map_map, written, List.map_id]

theorem components_join_pair (first second : String) :
    components (join [first, second]) = components first ++ components second := by
  rw [join, String.intercalate_cons_of_ne_nil (List.cons_ne_nil second []), String.intercalate_singleton,
    components_join_append]

theorem components_sanitize (path : String) : components (sanitize path) = components path :=
  components_join fun _ => isName_of_mem_components

theorem sanitize_congr (same : components path = components text) : sanitize path = sanitize text :=
  congrArg join same

theorem sanitize_join (clean : ∀ name ∈ names, IsName name) : sanitize (join names) = join names :=
  congrArg join (components_join clean)

theorem isName_of_components_eq (whole : components path = names) : ∀ name ∈ names, IsName name :=
  fun _ listed => isName_of_mem_components (whole ▸ listed)

theorem splitParent_sanitize (whole : components path = front ++ [last]) :
    splitParent (sanitize path) = (sanitize (join front), last) := by
  have clean := isName_of_components_eq whole
  have own := clean last (List.mem_append_right front List.mem_cons_self)
  have others := sanitize_join fun name listed => clean name (List.mem_append_left [last] listed)
  rw [sanitize, whole, splitParent_join front own, others]

theorem components_join_splitParent (whole : components path = front ++ [last]) :
    components (join [(splitParent (sanitize path)).1, (splitParent (sanitize path)).2]) = components path := by
  have clean := isName_of_components_eq whole
  have own := components_of_isName (clean last (List.mem_append_right front List.mem_cons_self))
  have others := components_join fun name listed => clean name (List.mem_append_left [last] listed)
  rw [splitParent_sanitize whole, components_join_pair, components_sanitize, others, own, whole]

end Components

section Laws

/-- A path is cut into its maximal runs of characters other than separators. Written anew it has the same ones, and is
    parted into the last of them and what is written of the others. -/
theorem splitting_lawful (path : String) :
    (∀ names, components path = names ↔ Text.RunsOf isSeparator path.toList (names.map String.toList)) ∧
      components (sanitize path) = components path ∧
      sanitize (sanitize path) = sanitize path ∧
      ∀ some_ : components path ≠ [],
        splitParent (sanitize path) =
          (sanitize (join (components path).dropLast), (components path).getLast some_) ∧
        components (join [(splitParent (sanitize path)).1, (splitParent (sanitize path)).2]) = components path := by
  have kept := components_sanitize path
  refine ⟨fun names => components_eq_iff_runsOf, kept, sanitize_congr kept, fun some_ => ?_⟩
  have whole := (List.dropLast_concat_getLast some_).symm
  exact ⟨splitParent_sanitize whole, components_join_splitParent whole⟩

def gardenPath : String := "\\/gården//\\bed\\röd.txt/"

theorem gardenPath_lawful :
    components gardenPath ≠ [] ∧ splitParent (sanitize gardenPath) = ("gården/bed", "röd.txt") ∧
      components (join ["gården/bed", "röd.txt"]) = ["gården", "bed", "röd.txt"] := by
  obtain ⟨-, -, -, parted⟩ := splitting_lawful gardenPath
  obtain ⟨pair, again⟩ := parted (by decide)
  have evaluated : splitParent (sanitize gardenPath) = ("gården/bed", "röd.txt") := pair.trans (by decide)
  rw [evaluated] at again
  exact ⟨by decide, evaluated, again.trans (by decide)⟩

end Laws

section Encoded

open Text.Utf8 (encode encode_append)

theorem encode_slash_append (front last : String) :
    encode (front ++ ("/" ++ last)) = encode front ++ 0x2F :: encode last := by
  rw [encode_append, encode_append]
  rfl

theorem slash_mem_encode : 0x2F ∈ encode text ↔ '/' ∈ text.toList := by
  have own : ∀ c, (0x2F : UInt8) ∈ String.utf8EncodeChar c ↔ c = '/' :=
    fun c => Text.Utf8.ascii_mem_encodeChar (a := '/') (by decide)
  simp only [encode, List.mem_flatMap, own, exists_eq_right]

theorem exists_append_slash (held : '/' ∈ text.toList) :
    ∃ front last, text = front ++ ("/" ++ last) ∧ '/' ∉ last.toList := by
  obtain ⟨behind, before, whole, plain⟩ := List.eq_append_cons_of_mem (List.mem_reverse.mpr held)
  refine ⟨String.ofList before.reverse, String.ofList behind.reverse, ?_, ?_⟩
  · rw [List.reverse_eq_iff] at whole
    rw [← String.toList_inj, whole]
    simp
  · rwa [String.toList_ofList, List.mem_reverse]

theorem splitParent_encode (path : String) :
    (0x2F ∉ encode path ∧ splitParent path = ("", path)) ∨
      ∃ index, (encode path)[index]? = some 0x2F ∧ 0x2F ∉ (encode path).drop (index + 1) ∧
        encode (splitParent path).1 = (encode path).take index ∧
        encode (splitParent path).2 = (encode path).drop (index + 1) := by
  by_cases held : '/' ∈ path.toList
  · obtain ⟨front, last, rfl, plain⟩ := exists_append_slash held
    -- the place of the slash is the number of bytes before it
    refine .inr ⟨(encode front).length, ?_⟩
    rw [splitParent_append front plain, encode_slash_append, List.drop_length_add_append, List.take_left,
      List.getElem?_append_right (Nat.le_refl _), Nat.sub_self]
    exact ⟨rfl, fun behind => plain (slash_mem_encode.mp behind), rfl, rfl⟩
  · exact .inl ⟨fun byte => held (slash_mem_encode.mp byte), splitParent_of_notMem held⟩

end Encoded

end GuestStorage.Path
