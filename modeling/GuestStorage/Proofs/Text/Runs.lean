import GuestStorage.Proofs.Path

namespace GuestStorage.Text

/-- A stretch of characters, at least one, none of which separates. -/
structure IsRun (separates : Char → Bool) (text : List Char) (start stop : Nat) : Prop where
  proper : start < stop
  plain : ∀ place, start ≤ place → place < stop → ∃ c, text[place]? = some c ∧ separates c = false

/-- A run that is inside of no other. -/
structure IsMaximalRun (separates : Char → Bool) (text : List Char) (start stop : Nat) : Prop where
  isRun : IsRun separates text start stop
  maximal : ∀ first last, IsRun separates text first last → first ≤ start → stop ≤ last → first = start ∧ last = stop

/-- The places of all maximal runs of a text, each once and from left to right. -/
structure Places (separates : Char → Bool) (text : List Char) (runs : List (Nat × Nat)) : Prop where
  ordered : runs.Pairwise fun left right => left.1 < right.1
  mem_iff : ∀ start stop, (start, stop) ∈ runs ↔ IsMaximalRun separates text start stop

/-- What stands in a text at each of its maximal runs, from left to right. -/
def RunsOf (separates : Char → Bool) (text : List Char) (pieces : List (List Char)) : Prop :=
  ∃ runs, Places separates text runs ∧ pieces = runs.map fun run => text.extract run.1 run.2

variable {separates : Char → Bool} {text before behind : List Char} {c : Char} {start stop : Nat}
  {runs others : List (Nat × Nat)} {pieces more : List (List Char)}

theorem IsRun.stop_le (run : IsRun separates text start stop) : stop ≤ text.length := by
  have proper := run.proper
  obtain ⟨c, here, -⟩ := run.plain (stop - 1) (by omega) (by omega)
  obtain ⟨inside, -⟩ := List.getElem?_eq_some_iff.mp here
  omega

theorem Places.unique (places : Places separates text runs) (also : Places separates text others) : runs = others := by
  have once : ∀ {list : List (Nat × Nat)}, list.Pairwise (fun left right => left.1 < right.1) → list.Nodup :=
    fun ordered => ordered.imp fun less same => absurd (congrArg Prod.fst same) (Nat.ne_of_lt less)
  have same : runs.Perm others :=
    (List.perm_ext_iff_of_nodup (once places.ordered) (once also.ordered)).mpr fun run =>
      (places.mem_iff run.1 run.2).trans (also.mem_iff run.1 run.2).symm
  refine List.Perm.eq_of_pairwise ?_ places.ordered also.ordered same
  intro left right _ _ less greater
  exact absurd less (Nat.not_lt.mpr (Nat.le_of_lt greater))

section Parted

theorem IsRun.side (parts : separates c = true) (run : IsRun separates (before ++ c :: behind) start stop) :
    stop ≤ before.length ∨
      ∃ first last, start = before.length + 1 + first ∧ stop = before.length + 1 + last := by
  by_cases across : start ≤ before.length ∧ before.length < stop
  · obtain ⟨other, here, plain⟩ := run.plain before.length across.1 across.2
    rw [List.getElem?_append_right (Nat.le_refl _), Nat.sub_self, List.getElem?_cons_zero, Option.some.injEq] at here
    rw [← here, parts] at plain
    cases plain
  · have proper := run.proper
    by_cases inside : stop ≤ before.length
    · exact .inl inside
    · exact .inr ⟨start - (before.length + 1), stop - (before.length + 1), by omega, by omega⟩

theorem isRun_append_of_le (low : stop ≤ before.length) :
    IsRun separates (before ++ behind) start stop ↔ IsRun separates before start stop := by
  have same : ∀ place, place < stop → (before ++ behind)[place]? = before[place]? :=
    fun place below => List.getElem?_append_left (Nat.lt_of_lt_of_le below low)
  constructor
  · rintro ⟨proper, plain⟩
    exact ⟨proper, fun place above below => same place below ▸ plain place above below⟩
  · rintro ⟨proper, plain⟩
    exact ⟨proper, fun place above below => (same place below).symm ▸ plain place above below⟩

theorem isRun_append_add : IsRun separates (before ++ behind) (before.length + start) (before.length + stop) ↔
    IsRun separates behind start stop := by
  have same : ∀ place, (before ++ behind)[before.length + place]? = behind[place]? := fun place => by
    rw [List.getElem?_append_right (Nat.le_add_right _ _), Nat.add_sub_cancel_left]
  constructor
  · rintro ⟨proper, plain⟩
    refine ⟨Nat.lt_of_add_lt_add_left proper, fun place above below => ?_⟩
    rw [← same place]
    exact plain _ (Nat.add_le_add_left above _) (Nat.add_lt_add_left below _)
  · rintro ⟨proper, plain⟩
    refine ⟨Nat.add_lt_add_left proper _, fun place above below => ?_⟩
    obtain ⟨beyond, rfl⟩ : ∃ beyond, place = before.length + beyond := ⟨place - before.length, by omega⟩
    rw [same beyond]
    exact plain beyond (Nat.le_of_add_le_add_left above) (Nat.lt_of_add_lt_add_left below)

theorem isMaximalRun_append_of_le (parts : separates c = true) (low : stop ≤ before.length) :
    IsMaximalRun separates (before ++ c :: behind) start stop ↔ IsMaximalRun separates before start stop := by
  constructor
  · rintro ⟨run, maximal⟩
    refine ⟨(isRun_append_of_le low).mp run, fun first last longer => ?_⟩
    exact maximal first last ((isRun_append_of_le longer.stop_le).mpr longer)
  · rintro ⟨run, maximal⟩
    refine ⟨(isRun_append_of_le low).mpr run, fun first last longer below above => ?_⟩
    rcases longer.side parts with inside | ⟨first, last, rfl, rfl⟩
    · exact maximal first last ((isRun_append_of_le inside).mp longer) below above
    · have proper := run.proper
      omega

theorem isMaximalRun_append_add (parts : separates c = true) :
    IsMaximalRun separates (before ++ c :: behind) (before.length + 1 + start) (before.length + 1 + stop) ↔
      IsMaximalRun separates behind start stop := by
  have shifted : ∀ {first last}, IsRun separates (before ++ c :: behind) (before.length + 1 + first)
      (before.length + 1 + last) ↔ IsRun separates behind first last := by
    intro first last
    have length : (before ++ [c]).length = before.length + 1 := List.length_append
    rw [List.append_cons, ← length]
    exact isRun_append_add
  constructor
  · rintro ⟨run, maximal⟩
    refine ⟨shifted.mp run, fun first last longer below above => ?_⟩
    have same := maximal _ _ (shifted.mpr longer) (by omega) (by omega)
    omega
  · rintro ⟨run, maximal⟩
    refine ⟨shifted.mpr run, fun first last longer below above => ?_⟩
    rcases longer.side parts with inside | ⟨first, last, rfl, rfl⟩
    · have proper := run.proper
      omega
    · have same := maximal first last (shifted.mp longer) (by omega) (by omega)
      omega

theorem Places.parted (parts : separates c = true) (places : Places separates before runs)
    (also : Places separates behind others) : Places separates (before ++ c :: behind)
      (runs ++ others.map fun run => (before.length + 1 + run.1, before.length + 1 + run.2)) where
  ordered := by
    refine List.pairwise_append.mpr
      ⟨places.ordered, also.ordered.map _ fun _ _ less => Nat.add_lt_add_left less _, ?_⟩
    -- what is listed of the first text ends before the separator, and the rest is counted on from behind it
    rintro ⟨first, last⟩ listed _ shifted
    obtain ⟨run, -, rfl⟩ := List.mem_map.mp shifted
    have own := ((places.mem_iff first last).mp listed).isRun
    have proper := own.proper
    have inside := own.stop_le
    show first < before.length + 1 + run.1
    omega
  mem_iff start stop := by
    rw [List.mem_append, List.mem_map]
    constructor
    · rintro (listed | ⟨⟨first, last⟩, listed, same⟩)
      · have own := (places.mem_iff start stop).mp listed
        exact (isMaximalRun_append_of_le parts own.isRun.stop_le).mpr own
      · cases same
        exact (isMaximalRun_append_add parts).mpr ((also.mem_iff first last).mp listed)
    · intro own
      rcases own.isRun.side parts with inside | ⟨first, last, rfl, rfl⟩
      · exact .inl ((places.mem_iff start stop).mpr ((isMaximalRun_append_of_le parts inside).mp own))
      · exact .inr ⟨(first, last), (also.mem_iff first last).mpr ((isMaximalRun_append_add parts).mp own), rfl⟩

theorem extract_append_of_le (low : stop ≤ before.length) :
    (before ++ behind).extract start stop = before.extract start stop := by
  by_cases begun : start ≤ stop
  · have length : stop - start ≤ (before.drop start).length := by
      rw [List.length_drop]
      omega
    rw [List.extract_eq_take_drop, List.drop_append_of_le_length (Nat.le_trans begun low),
      List.take_append_of_le_length length]
  · rw [List.extract_eq_take_drop, List.extract_eq_take_drop, Nat.sub_eq_zero_of_le (by omega), List.take_zero,
      List.take_zero]

theorem extract_append_add :
    (before ++ behind).extract (before.length + start) (before.length + stop) = behind.extract start stop := by
  rw [List.extract_eq_take_drop, List.extract_eq_take_drop, Nat.add_sub_add_left, List.drop_length_add_append]

theorem RunsOf.parted (parts : separates c = true) (runsOf : RunsOf separates before pieces)
    (also : RunsOf separates behind more) : RunsOf separates (before ++ c :: behind) (pieces ++ more) := by
  obtain ⟨runs, places, rfl⟩ := runsOf
  obtain ⟨others, beyond, rfl⟩ := also
  refine ⟨_, places.parted parts beyond, ?_⟩
  rw [List.map_append, List.map_map]
  congr 1
  · refine List.map_congr_left fun run listed => ?_
    exact (extract_append_of_le ((places.mem_iff run.1 run.2).mp listed).isRun.stop_le).symm
  · refine List.map_congr_left fun run _ => ?_
    have length : (before ++ [c]).length = before.length + 1 := List.length_append
    rw [Function.comp, List.append_cons, ← length]
    exact extract_append_add.symm

end Parted

section Plain

theorem places_of_plain (plain : ∀ c ∈ text, separates c = false) :
    Places separates text (if text = [] then [] else [(0, text.length)]) where
  ordered := by split <;> simp
  mem_iff start stop := by
    have whole : text ≠ [] → IsRun separates text 0 text.length := by
      intro some_
      refine ⟨List.length_pos_iff.mpr some_, fun place _ below => ?_⟩
      exact ⟨text[place], List.getElem?_eq_getElem below, plain _ (List.getElem_mem below)⟩
    split
    · rename_i empty
      refine ⟨fun listed => absurd listed List.not_mem_nil, fun own => ?_⟩
      have proper := own.isRun.proper
      have inside := own.isRun.stop_le
      rw [empty, List.length_nil] at inside
      omega
    · rename_i some_
      rw [List.mem_singleton, Prod.mk.injEq]
      constructor
      · rintro ⟨rfl, rfl⟩
        refine ⟨whole some_, fun first last longer below above => ?_⟩
        have inside := longer.stop_le
        omega
      · intro own
        have same := own.maximal 0 text.length (whole some_) (Nat.zero_le start) own.isRun.stop_le
        exact ⟨same.1.symm, same.2.symm⟩

theorem runsOf_of_plain (plain : ∀ c ∈ text, separates c = false) :
    RunsOf separates text ([text].filter (!·.isEmpty)) := by
  refine ⟨_, places_of_plain plain, ?_⟩
  cases text with
  | nil => rfl
  | cons c rest => simp

end Plain

/-- What holds of texts in which nothing separates, and of two texts with a separator between them if it holds of
    either, holds of all texts. -/
theorem parting_induction (separates : Char → Bool) {motive : List Char → Prop}
    (plain : ∀ text, (∀ c ∈ text, separates c = false) → motive text)
    (parted : ∀ before c behind, separates c = true → motive before → motive behind → motive (before ++ c :: behind))
    (text : List Char) : motive text := by
  by_cases single : ∀ c ∈ text, separates c = false
  · exact plain text single
  · obtain ⟨c, held, parts⟩ : ∃ c ∈ text, separates c = true := by simpa using single
    obtain ⟨before, behind, whole⟩ := List.append_of_mem held
    have lengths : text.length = before.length + (behind.length + 1) := by
      rw [whole, List.length_append, List.length_cons]
    rw [whole]
    exact parted before c behind parts (parting_induction separates plain parted before)
      (parting_induction separates plain parted behind)
termination_by text.length
decreasing_by all_goals omega

theorem runsOf_cut (separates : Char → Bool) (text : List Char) :
    RunsOf separates text ((cut separates text).filter (!·.isEmpty)) := by
  induction text using parting_induction separates with
  | plain text plain =>
    rw [cut_eq_singleton plain]
    exact runsOf_of_plain plain
  | parted before c behind parts first second =>
    rw [cut_append_cons parts, List.filter_append]
    exact first.parted parts second

theorem runsOf_iff : RunsOf separates text pieces ↔ (cut separates text).filter (!·.isEmpty) = pieces := by
  constructor
  · rintro ⟨runs, places, rfl⟩
    obtain ⟨others, also, cut⟩ := runsOf_cut separates text
    rw [cut, places.unique also]
  · rintro rfl
    exact runsOf_cut separates text

end GuestStorage.Text
