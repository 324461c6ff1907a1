import GuestStorage.Proofs.Host.Sound

namespace GuestStorage.Host

def Below (place other : Location) : Prop := place <+: other ∧ other ≠ place

instance (place other : Location) : Decidable (Below place other) := inferInstanceAs (Decidable (_ ∧ _))

theorem below_append {rest : Location} (some_ : rest ≠ []) (place : Location) :
    Below place (place ++ rest) :=
  ⟨List.prefix_append _ _, fun same => some_ (List.self_eq_append_right.mp same.symm)⟩

theorem Below.append {place there : Location} (below : Below place there) (rest : Location) :
    Below place (there ++ rest) := by
  refine ⟨below.1.trans (List.prefix_append _ _), ?_⟩
  intro same
  have upward : there <+: place := ⟨rest, same⟩
  exact below.2 (upward.eq_of_length_le below.1.length_le)

namespace Disk

variable {disk other : Disk} {start place holder : Location} {names : List String}

def Progress.goOn (disk : Disk) (rest : List String) : Progress → Progress
  | .arrived place => disk.advance place rest
  | .refused why => .refused why
  | .atLink holder target after => .atLink holder target (after ++ rest)

theorem advance_append (disk : Disk) (start : Location) (names rest : List String) :
    disk.advance start (names ++ rest) = (disk.advance start names).goOn disk rest := by
  induction names generalizing start with
  | nil => rfl
  | cons name names ih =>
    rw [List.cons_append, advance, advance]
    split
    · split
      · exact ih start
      · split
        · exact ih _
        · split
          · rfl
          · split
            · rfl
            · rfl
            · exact ih _
    · rfl

theorem advance_append_of_arrived (arrived : disk.advance start names = .arrived place)
    (rest : List String) : disk.advance start (names ++ rest) = disk.advance place rest := by
  rw [advance_append, arrived, Progress.goOn]

theorem advance_append_of_link {target : String} {after : List String}
    (met : disk.advance start names = .atLink holder target after) (rest : List String) :
    disk.advance start (names ++ rest) = .atLink holder target (after ++ rest) := by
  rw [advance_append, met, Progress.goOn]

theorem follow_of_arrived (arrived : disk.advance start names = .arrived place) (links : Nat) :
    disk.follow links start names = .ok place := by
  cases links <;> simp [follow, arrived]

theorem follow_of_refused {why : Refusal} (refused : disk.advance start names = .refused why)
    (links : Nat) : disk.follow links start names = .error why := by
  cases links <;> simp [follow, refused]

def linkStart (holder : Location) (target : String) : Location :=
  if (PathText.ofText target).rooted then [] else holder

theorem follow_of_link {target : String} {after : List String}
    (met : disk.advance start names = .atLink holder target after) (links : Nat) :
    disk.follow (links + 1) start names =
      disk.follow links (linkStart holder target) ((PathText.ofText target).given ++ after) := by
  rw [follow.eq_def]
  simp only [met]
  rfl

theorem follow_of_link_zero {target : String} {after : List String}
    (met : disk.advance start names = .atLink holder target after) :
    disk.follow 0 start names = .error .tooManyLinks := by
  rw [follow.eq_def]
  simp only [met]

theorem follow_congr {start' : Location} {names' : List String}
    (same : disk.advance start names = disk.advance start' names') (links : Nat) :
    disk.follow links start names = disk.follow links start' names' := by
  cases met : disk.advance start' names' with
  | arrived there => rw [follow_of_arrived met, follow_of_arrived (same.trans met)]
  | refused why => rw [follow_of_refused met, follow_of_refused (same.trans met)]
  | atLink holder target after =>
    cases links with
    | zero => rw [follow_of_link_zero met, follow_of_link_zero (same.trans met)]
    | succ left => rw [follow_of_link met, follow_of_link (same.trans met)]

theorem follow_eq_of_advance (alike : ∀ start names, other.advance start names = disk.advance start names)
    (links : Nat) (start : Location) (names : List String) :
    other.follow links start names = disk.follow links start names := by
  induction links generalizing start names with
  | zero =>
    cases met : disk.advance start names with
    | arrived there => rw [follow_of_arrived met, follow_of_arrived ((alike _ _).trans met)]
    | refused why => rw [follow_of_refused met, follow_of_refused ((alike _ _).trans met)]
    | atLink => rw [follow_of_link_zero met, follow_of_link_zero ((alike _ _).trans met)]
  | succ links ih =>
    cases met : disk.advance start names with
    | arrived there => rw [follow_of_arrived met, follow_of_arrived ((alike _ _).trans met)]
    | refused why => rw [follow_of_refused met, follow_of_refused ((alike _ _).trans met)]
    | atLink => rw [follow_of_link met, follow_of_link ((alike _ _).trans met), ih]

theorem follow_cases {links : Nat} (reached : disk.follow links start names = .ok place) :
    disk.advance start names = .arrived place ∨
      ∃ left holder target after, links = left + 1 ∧
        disk.advance start names = .atLink holder target after ∧
        disk.follow left (linkStart holder target) ((PathText.ofText target).given ++ after) =
          .ok place := by
  cases met : disk.advance start names with
  | arrived there =>
    rw [follow_of_arrived met] at reached
    cases reached
    exact .inl rfl
  | refused why =>
    rw [follow_of_refused met] at reached
    cases reached
  | atLink holder target after =>
    cases links with
    | zero =>
      rw [follow_of_link_zero met] at reached
      cases reached
    | succ left =>
      rw [follow_of_link met] at reached
      exact .inr ⟨left, holder, target, after, rfl, rfl, reached⟩

/-- A longer path leads on from where its first part leads, with what links may still be followed. -/
theorem follow_append {links : Nat} (reached : disk.follow links start names = .ok place) :
    ∃ left, ∀ rest, disk.follow links start (names ++ rest) = disk.follow left place rest := by
  induction links generalizing start names with
  | zero =>
    rcases follow_cases reached with arrived | ⟨left, holder, target, after, positive, _⟩
    · refine ⟨0, fun rest => ?_⟩
      exact follow_congr (advance_append_of_arrived arrived rest) _
    · cases positive
  | succ links ih =>
    rcases follow_cases reached with arrived | ⟨left, holder, target, after, same, met, further⟩
    · refine ⟨links + 1, fun rest => ?_⟩
      exact follow_congr (advance_append_of_arrived arrived rest) _
    · cases same
      obtain ⟨left, onward⟩ := ih further
      refine ⟨left, fun rest => ?_⟩
      rw [← onward rest, follow_of_link (advance_append_of_link met rest), List.append_assoc]

theorem advance_mono (more : ∀ place entry, disk.find? place = some entry →
      other.find? place = some entry) (start : Location) (names : List String) :
    (∃ why, disk.advance start names = .refused why) ∨
      other.advance start names = disk.advance start names := by
  induction names generalizing start with
  | nil => exact .inr rfl
  | cons name rest ih =>
    rw [advance, advance]
    split
    · rename_i directory
      rw [more _ _ directory]
      dsimp only
      split
      · exact ih start
      · split
        · exact ih start.dropLast
        · split
          · exact .inl ⟨_, rfl⟩
          · split
            · exact .inl ⟨_, rfl⟩
            · rename_i found
              rw [more _ _ found]
              exact .inr rfl
            · rename_i entry noLink found
              rw [more _ _ found]
              rcases ih (start ++ [name]) with ⟨why, refused⟩ | same
              · exact .inl ⟨why, refused⟩
              · right
                rw [← same]
                cases entry with
                | link target => exact absurd rfl (noLink target)
                | file | directory => rfl
    · exact .inl ⟨_, rfl⟩

theorem follow_mono (more : ∀ place entry, disk.find? place = some entry →
      other.find? place = some entry) {links : Nat} (reached : disk.follow links start names = .ok place) :
    other.follow links start names = .ok place := by
  have alike : ∀ {progress}, disk.advance start names = progress → (∀ why, progress ≠ .refused why) →
      other.advance start names = progress := by
    intro progress met fine
    rcases advance_mono more start names with ⟨why, refused⟩ | same
    · exact absurd (met.symm.trans refused) (fine why)
    · exact same.trans met
  induction links generalizing start names with
  | zero =>
    rcases follow_cases reached with arrived | ⟨left, holder, target, after, positive, _⟩
    · exact follow_of_arrived (alike arrived (by simp)) 0
    · cases positive
  | succ links ih =>
    rcases follow_cases reached with arrived | ⟨left, holder, target, after, same, met, further⟩
    · exact follow_of_arrived (alike arrived (by simp)) _
    · cases same
      rw [follow_of_link (alike met (by simp))]
      exact ih further (by
        intro progress met fine
        rcases advance_mono more _ _ with ⟨why, refused⟩ | same
        · exact absurd (met.symm.trans refused) (fine why)
        · exact same.trans met)

def SameKind (entry other : Option Entry) : Prop :=
  entry = other ∨ ∃ bytes bytes', entry = some (.file bytes) ∧ other = some (.file bytes')

theorem advance_of_sameKind (alike : ∀ there, SameKind (disk.find? there) (other.find? there))
    (start : Location) (names : List String) : other.advance start names = disk.advance start names := by
  induction names generalizing start with
  | nil => rfl
  | cons name rest ih =>
    rw [advance, advance]
    rcases alike start with here | ⟨bytes, bytes', here, here'⟩
    · rw [here]
      rcases alike (start ++ [name]) with next | ⟨bytes, bytes', next, next'⟩
      · simp only [next, ih]
      · simp only [next, next', ih]
    · simp only [here, here']

theorem resolve_of_sameKind (alike : ∀ there, SameKind (disk.find? there) (other.find? there))
    (path : Location) : other.resolve path = disk.resolve path :=
  follow_eq_of_advance (advance_of_sameKind alike) _ _ _

/-- Names that neither lead upward nor meet a link below a place. -/
structure Plain (disk : Disk) (place : Location) (names : List String) : Prop where
  proper : ∀ name ∈ names, Proper name
  noLink : ∀ way, way <+: names → way ≠ [] → ∀ text, disk.find? (place ++ way) ≠ some (.link text)

theorem Plain.nil (disk : Disk) (place : Location) : disk.Plain place [] :=
  ⟨fun _ among => absurd among List.not_mem_nil,
    fun _ short some_ => absurd (List.prefix_nil.mp short) some_⟩

theorem Plain.tail {name : String} (plain : disk.Plain place (name :: names)) :
    disk.Plain (place ++ [name]) names := by
  refine ⟨fun other among => plain.proper other (List.mem_cons_of_mem name among), ?_⟩
  intro way short some_ text
  have longer : name :: way <+: name :: names := (List.prefix_cons_inj name).mpr short
  have none := plain.noLink _ longer (List.cons_ne_nil _ _) text
  rwa [List.append_assoc]

theorem Plain.concat {name : String} (plain : disk.Plain place names) (proper : Proper name)
    (noLink : ∀ text, disk.find? (place ++ (names ++ [name])) ≠ some (.link text)) :
    disk.Plain place (names ++ [name]) := by
  refine ⟨?_, ?_⟩
  · intro other among
    rcases List.mem_append.mp among with above | last
    · exact plain.proper other above
    · rw [List.mem_singleton.mp last]
      exact proper
  · intro way short some_ text
    rcases List.prefix_concat_iff.mp short with whole | shorter
    · rw [whole]
      exact noLink text
    · exact plain.noLink way shorter some_ text

theorem Plain.shorter {more : List String} (plain : disk.Plain place more) (short : names <+: more) :
    disk.Plain place names :=
  ⟨fun name among => plain.proper name (short.subset among),
    fun way shorter => plain.noLink way (shorter.trans short)⟩

def walk (disk : Disk) (place : Location) (names : List String) : Except Refusal Location :=
  match disk.advance place names with
  | .arrived there => .ok there
  | .refused why => .error why
  | .atLink _ _ _ => .error .tooManyLinks

theorem advance_cons (names : List String) {name : String} (proper : Proper name)
    (noLink : ∀ text, disk.find? (place ++ [name]) ≠ some (.link text)) :
    (∃ why, disk.advance place (name :: names) = .refused why) ∨
      disk.advance place (name :: names) = disk.advance (place ++ [name]) names := by
  rw [advance]
  split
  · rw [if_neg (by simpa using proper.1), if_neg (by simpa using proper.2)]
    split
    · exact .inl ⟨_, rfl⟩
    · split
      · exact .inl ⟨_, rfl⟩
      · rename_i found
        exact absurd found (noLink _)
      · exact .inr rfl
  · exact .inl ⟨_, rfl⟩

theorem advance_of_plain (plain : disk.Plain place names) :
    (∃ why, disk.advance place names = .refused why) ∨
      disk.advance place names = .arrived (place ++ names) := by
  induction names generalizing place with
  | nil => exact .inr (by rw [advance, List.append_nil])
  | cons name rest ih =>
    have first : ∀ text, disk.find? (place ++ [name]) ≠ some (.link text) :=
      plain.noLink [name] (by simp) (by simp)
    rcases advance_cons rest (plain.proper name List.mem_cons_self) first with refused | same
    · exact .inl refused
    · rw [same]
      rcases ih plain.tail with refused | arrived
      · exact .inl refused
      · exact .inr (by rw [arrived, List.append_assoc, List.singleton_append])

theorem walk_eq_ok (plain : disk.Plain place names) {there : Location}
    (reached : disk.walk place names = .ok there) : there = place ++ names := by
  rw [walk] at reached
  rcases advance_of_plain plain with ⟨why, refused⟩ | arrived
  · rw [refused] at reached
    cases reached
  · rw [arrived] at reached
    cases reached
    rfl

theorem follow_of_plain (plain : disk.Plain place names) (links : Nat) :
    disk.follow links place names = disk.walk place names := by
  rw [walk]
  rcases advance_of_plain plain with ⟨why, refused⟩ | arrived
  · rw [refused, follow_of_refused refused]
  · rw [arrived, follow_of_arrived arrived]

theorem walk_alike {spot : Location} (plain : disk.Plain place names)
    (same : ∀ way, way <+: names → other.find? (spot ++ way) = disk.find? (place ++ way)) :
    (∃ why, disk.walk place names = .error why ∧ other.walk spot names = .error why) ∨
      disk.walk place names = .ok (place ++ names) ∧ other.walk spot names = .ok (spot ++ names) := by
  suffices alike : (∃ why, disk.advance place names = .refused why ∧ other.advance spot names = .refused why) ∨
      disk.advance place names = .arrived (place ++ names) ∧
        other.advance spot names = .arrived (spot ++ names) by
    rcases alike with ⟨why, left, right⟩ | ⟨left, right⟩
    · exact .inl ⟨why, by rw [walk, left], by rw [walk, right]⟩
    · exact .inr ⟨by rw [walk, left], by rw [walk, right]⟩
  induction names generalizing place spot with
  | nil => exact .inr (by simp only [advance, List.append_nil, and_self])
  | cons name rest ih =>
    have here := same [] List.nil_prefix
    rw [List.append_nil, List.append_nil] at here
    have staying : ¬ (name == ".") = true := by simpa using (plain.proper name List.mem_cons_self).1
    have upward : ¬ (name == "..") = true := by simpa using (plain.proper name List.mem_cons_self).2
    have below : ∀ way, way <+: rest → other.find? (spot ++ [name] ++ way) = disk.find? (place ++ [name] ++ way) :=
      fun way short => by
        rw [List.append_assoc, List.append_assoc]
        exact same _ ((List.prefix_cons_inj name).mpr short)
    have further := ih plain.tail below
    simp only [List.append_assoc, List.singleton_append] at further
    have next := same [name] ((List.prefix_cons_inj name).mpr List.nil_prefix)
    simp only [advance, here, next, if_neg staying, if_neg upward]
    split
    · by_cases long : nameLimit < name.utf8ByteSize
      · simp only [if_pos long]
        exact .inl ⟨_, rfl, rfl⟩
      · simp only [if_neg long]
        cases met : disk.find? (place ++ [name]) with
        | none => exact .inl ⟨_, rfl, rfl⟩
        | some entry =>
          cases entry with
          | link text => exact absurd met (plain.noLink [name] (by simp) (by simp) text)
          | file | directory => exact further
    · exact .inl ⟨_, rfl, rfl⟩

def within (disk : Disk) (place : Location) : Disk := ⟨disk.entries.filter fun e => Below place e.1⟩

def around (disk : Disk) (place : Location) : Disk := ⟨disk.entries.filter fun e => ¬ Below place e.1⟩

theorem find?_filter (keep : Location → Bool) (kept : keep place = true) (disk : Disk) :
    (⟨disk.entries.filter fun e => keep e.1⟩ : Disk).find? place = disk.find? place := by
  by_cases top : place = []
  · rw [top]
    rfl
  · rw [find?_eq _ top, find?_eq _ top, Keyed.lookup_filter, if_pos kept]

theorem find?_around {there : Location} (apart : ¬ Below place there) (disk : Disk) :
    (disk.around place).find? there = disk.find? there :=
  find?_filter (fun p => ¬ Below place p) (by simpa using apart) disk

theorem find?_around_some {there : Location} {entry : Entry}
    (found : (disk.around place).find? there = some entry) : disk.find? there = some entry := by
  by_cases below : Below place there
  · have some_ : there ≠ [] := by
      intro top
      rw [top] at below
      exact below.2 (List.prefix_nil.mp below.1).symm
    have listed := List.mem_filter.mp (mem_of_find? some_ found)
    exact absurd below (by simpa using listed.2)
  · rwa [← find?_around below]

/-- A path leads to a directory of a well-formed disk, and not by way of what stands inside it. -/
structure Rooted (disk : Disk) (path place : Location) : Prop where
  sound : disk.Sound
  leads : (disk.around place).resolve path = .ok place
  directory : disk.find? place = some .directory

namespace Rooted

variable {path : Location} (rooted : disk.Rooted path place)
include rooted

theorem resolve : disk.resolve path = .ok place :=
  follow_mono (fun _ _ => find?_around_some) rooted.leads

theorem resolve_append (plain : disk.Plain place names) :
    disk.resolve (path ++ names) = disk.walk place names := by
  obtain ⟨left, further⟩ := follow_append rooted.resolve
  rw [Disk.resolve, further, follow_of_plain plain]

theorem resolveParent_append {name : String} (plain : disk.Plain place names) {there : Location}
    (reached : disk.resolveParent (path ++ (names ++ [name])) = .ok there) :
    there = place ++ (names ++ [name]) ∧ disk.find? (place ++ names) = some .directory := by
  rw [← List.append_assoc, resolveParent, List.getLast?_concat, List.dropLast_concat,
    rooted.resolve_append plain] at reached
  dsimp only at reached
  split at reached
  · cases reached
  · rename_i holder walked
    rw [walk_eq_ok plain walked] at reached
    split at reached
    · rename_i directory
      split at reached
      · cases reached
      · split at reached
        · cases reached
          exact ⟨List.append_assoc .., directory⟩
        · cases reached
    · cases reached

end Rooted

end Disk

end GuestStorage.Host
