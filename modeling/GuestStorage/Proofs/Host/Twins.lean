import GuestStorage.Proofs.Host.Mirrors

namespace GuestStorage.Host.Disk

variable {path place spot : Location} {disk other before middle after : Disk}

/-- Nothing changes but what stands inside a place, and the disk stays well-formed. -/
structure Keeps (place : Location) (before after : Disk) : Prop where
  around : after.around place = before.around place
  sound : before.Sound → after.Sound

structure Calm (place : Location) (before after : Disk) : Prop extends Keeps place before after where
  noLink : ∀ there text, after.find? there = some (.link text) → before.find? there = some (.link text)

theorem Keeps.refl (place : Location) (disk : Disk) : Keeps place disk disk := ⟨rfl, id⟩

theorem Keeps.trans (first : Keeps place before middle) (second : Keeps place middle after) :
    Keeps place before after :=
  ⟨second.around.trans first.around, second.sound ∘ first.sound⟩

theorem Calm.refl (place : Location) (disk : Disk) : Calm place disk disk :=
  ⟨Keeps.refl place disk, fun _ _ => id⟩

theorem Calm.trans (first : Calm place before middle) (second : Calm place middle after) :
    Calm place before after :=
  ⟨first.toKeeps.trans second.toKeeps, fun there text found =>
    first.noLink there text (second.noLink there text found)⟩

theorem Keeps.find? (keeps : Keeps place before after) {there : Location} (apart : ¬ Below place there) :
    after.find? there = before.find? there := by
  rw [← find?_around apart, keeps.around, find?_around apart]

theorem Rooted.keeps (rooted : before.Rooted path place) (keeps : Keeps place before after) :
    after.Rooted path place := by
  refine ⟨keeps.sound rooted.sound, ?_, ?_⟩
  · rw [keeps.around]
    exact rooted.leads
  · rw [keeps.find? fun below => below.2 rfl]
    exact rooted.directory

theorem Plain.calm {names : List String} (plain : before.Plain place names)
    (calm : Calm place before after) : after.Plain place names :=
  ⟨plain.proper, fun way short some_ text found =>
    plain.noLink way short some_ text (calm.noLink _ text found)⟩

theorem below_concat (place : Location) (names : List String) (name : String) :
    Below place (place ++ names ++ [name]) := by
  rw [List.append_assoc]
  exact below_append (by simp) place

section Changes

variable {there source target : Location}

theorem around_put (below : Below place there) (disk : Disk) (entry : Entry) :
    (disk.put there entry).around place = disk.around place := by
  simp [around, put, below]

theorem around_erase (below : Below place there) (disk : Disk) :
    (disk.erase there).around place = disk.around place := by
  rw [around, erase, around, mk.injEq, List.filter_filter]
  apply List.filter_congr
  intro e _
  by_cases here : e.1 = there
  · simp [here, below]
  · simp [here]

/-- When changes of single entries respect a choice of places, the entries chosen are changed alike. -/
theorem filter_map_of_respects (keep : Location → Bool) {change : Location × Entry → Location × Entry}
    (respects : ∀ e, keep (change e).1 = keep e.1) (entries : List (Location × Entry)) :
    (entries.map change).filter (fun e => keep e.1) =
      (entries.filter fun e => keep e.1).map change := by
  rw [List.filter_map]
  congr 2
  funext e
  exact respects e

theorem filter_map_of_fixes (keep : Location → Bool) {change : Location × Entry → Location × Entry}
    (respects : ∀ e, keep (change e).1 = keep e.1) (fixes : ∀ e, keep e.1 = true → change e = e)
    (entries : List (Location × Entry)) :
    (entries.map change).filter (fun e => keep e.1) = entries.filter fun e => keep e.1 := by
  rw [filter_map_of_respects keep respects]
  conv_rhs => rw [← List.map_id (entries.filter fun e => keep e.1)]
  exact List.map_congr_left fun e listed => fixes e (List.mem_filter.mp listed).2

theorem filled_respects (keep : Location → Bool) (there : Location) (bytes : Bytes)
    (e : Location × Entry) :
    keep (if e.1 == there then (there, Entry.file bytes) else e).1 = keep e.1 := by
  by_cases here : e.1 = there
  · simp [here]
  · simp [here]

theorem around_filled (below : Below place there) (disk : Disk) (bytes : Bytes) :
    (disk.filled there bytes).around place = disk.around place := by
  rw [around, filled, around, mk.injEq]
  apply filter_map_of_fixes (fun p => ¬ Below place p)
    (filled_respects (fun p => ¬ Below place p) there bytes)
  intro e apart
  have elsewhere : e.1 ≠ there := by
    intro here
    rw [here] at apart
    exact absurd below (by simpa using apart)
  simp [elsewhere]

theorem relocate_respects (fromBelow : Below place source) (toBelow : Below place target)
    (there : Location) : Below place (relocate source target there) ↔ Below place there := by
  rcases relocate_cases source target there with ⟨rest, rfl, to_⟩ | ⟨_, stays⟩
  · rw [to_]
    exact iff_of_true (toBelow.append rest) (fromBelow.append rest)
  · rw [stays]

theorem around_moved (fromBelow : Below place source) (toBelow : Below place target) (disk : Disk) :
    (disk.moved source target).around place = disk.around place := by
  rw [around, moved, around, mk.injEq]
  apply filter_map_of_fixes fun p => ¬ Below place p
  · intro e
    simp only [relocate_respects fromBelow toBelow]
  · intro e apart
    have outside : ¬ source <+: e.1 := by
      intro inside
      obtain ⟨rest, same⟩ := inside
      have below : Below place e.1 := same ▸ fromBelow.append rest
      exact absurd below (by simpa using apart)
    rw [relocate_outside outside]

theorem calm_put {holder : Location} {name : String} {entry : Entry} (proper : Proper name)
    (below : Below place (holder ++ [name])) (holds : disk.find? holder = some .directory)
    (free : disk.find? (holder ++ [name]) = none) (noLink : ∀ text, entry ≠ .link text) :
    Calm place disk (disk.put (holder ++ [name]) entry) := by
  refine ⟨⟨around_put below disk entry, fun sound => put_sound sound proper holds free entry⟩, ?_⟩
  intro there text found
  rw [find?_put free] at found
  split at found
  · cases found
    exact absurd rfl (noLink text)
  · exact found

theorem calm_erase (below : Below place there)
    (bare : disk.Sound → ∀ e ∈ disk.entries, e.1.dropLast ≠ there) :
    Calm place disk (disk.erase there) := by
  have some_ : there ≠ [] := fun top => below.2 (List.prefix_nil.mp (top ▸ below.1) ▸ top)
  refine ⟨⟨around_erase below disk, fun sound => erase_sound sound some_ (bare sound)⟩, ?_⟩
  intro other text found
  rw [find?_erase disk some_] at found
  split at found
  · cases found
  · exact found

theorem calm_filled (below : Below place there) {old : Bytes}
    (found : disk.find? there = some (.file old)) (bytes : Bytes) :
    Calm place disk (disk.filled there bytes) := by
  refine ⟨⟨around_filled below disk bytes, fun sound => filled_sound sound found bytes⟩, ?_⟩
  intro other text linked
  rw [find?_filled found] at linked
  split at linked
  · cases linked
  · exact linked

theorem keeps_moved {holder : Location} {name : String} (proper : Proper name)
    (fromBelow : Below place source) (toBelow : Below place (holder ++ [name]))
    (free : disk.find? (holder ++ [name]) = none) (apart : ¬ source <+: holder ++ [name])
    (holds : disk.find? holder = some .directory) :
    Keeps place disk (disk.moved source (holder ++ [name])) :=
  ⟨around_moved fromBelow toBelow disk, fun sound => moved_sound sound free apart proper rfl holds⟩

theorem noLink_moved (sound : disk.Sound) (free : disk.find? target = none)
    (apart : ¬ source <+: target) {bytes : Bytes} (held : disk.find? source = some (.file bytes))
    (there : Location) (text : String)
    (found : (disk.moved source target).find? there = some (.link text)) :
    disk.find? there = some (.link text) := by
  by_cases toTarget : target <+: there
  · obtain ⟨rest, rfl⟩ := toTarget
    rw [find?_moved_target sound free apart] at found
    by_cases short : rest = []
    · rw [short, List.append_nil, held] at found
      cases found
    · have nothing : disk.find? (source ++ rest) = none := sound.nothing_below short (by simp [held])
      rw [nothing] at found
      cases found
  · by_cases fromSource : source <+: there
    · rw [find?_moved_source sound free apart fromSource toTarget] at found
      cases found
    · rwa [find?_moved_apart sound free apart fromSource toTarget] at found

end Changes

structure Twins (path place spot : Location) (disk other : Disk) : Prop extends Mirrors path place spot disk other where
  same : ∀ names, other.find? (spot ++ names) = disk.find? (place ++ names)

/-- Two disks became two others that hold the same again at two places. -/
structure Alike (kept : Location → Disk → Disk → Prop) (place spot : Location)
    (disk other after after' : Disk) : Prop where
  same : ∀ names, after'.find? (spot ++ names) = after.find? (place ++ names)
  left : kept place disk after
  right : kept spot other after'

theorem Alike.trans {first second first' second' : Disk} {kept : Location → Disk → Disk → Prop}
    (start : Alike Calm place spot disk other first first')
    (next : Alike kept place spot first first' second second')
    (further : ∀ {place a b c}, Calm place a b → kept place b c → kept place a c) :
    Alike kept place spot disk other second second' :=
  ⟨next.same, further start.left next.left, further start.right next.right⟩

theorem Alike.keeps {after' : Disk} (alike : Alike Calm place spot disk other after after') :
    Alike Keeps place spot disk other after after' :=
  ⟨alike.same, alike.left.toKeeps, alike.right.toKeeps⟩

theorem Twins.of_same (left : disk.Rooted path place) (right : other.Rooted path spot)
    (same : ∀ names, other.find? (spot ++ names) = disk.find? (place ++ names)) : Twins path place spot disk other :=
  ⟨⟨left, right, fun names => .inl (same names)⟩, same⟩

theorem Twins.keeps (twins : Twins path place spot disk other) {after' : Disk}
    (alike : Alike Keeps place spot disk other after after') : Twins path place spot after after' :=
  .of_same (twins.left.keeps alike.left) (twins.right.keeps alike.right) alike.same

/-- Two attempts are refused for the same reason, or both succeed and leave disks that are alike. -/
def Both (kept : Location → Disk → Disk → Prop) (place spot : Location) (disk other : Disk)
    (left right : Except Refusal Disk) : Prop :=
  (∃ why, left = .error why ∧ right = .error why) ∨
    ∃ after after', left = .ok after ∧ right = .ok after' ∧ Alike kept place spot disk other after after'

namespace Twins

variable (twins : Twins path place spot disk other) {names : List String} {name : String}
include twins

theorem same_child (names : List String) (name : String) :
    other.find? (spot ++ names ++ [name]) = disk.find? (place ++ names ++ [name]) := by
  rw [List.append_assoc, List.append_assoc]
  exact twins.same _

theorem create_both (plain : disk.Plain place names) (proper : Proper name) {entry : Entry}
    (noLink : ∀ text, entry ≠ .link text) :
    Both Calm place spot disk other (disk.create (path ++ (names ++ [name])) entry)
      (other.create (path ++ (names ++ [name])) entry) := by
  rw [create, create]
  rcases twins.resolveParent plain name with ⟨why, left, right⟩ | ⟨left, right, holds⟩
  · exact .inl ⟨why, by rw [left], by rw [right]⟩
  · simp only [left, right, twins.same_child]
    cases free : disk.find? (place ++ names ++ [name]) with
    | some entry => exact .inl ⟨_, rfl, rfl⟩
    | none =>
      have alsoFree := (twins.same_child names name).trans free
      refine .inr ⟨_, _, rfl, rfl, fun more => ?_, calm_put proper (below_concat ..) holds free noLink,
        calm_put proper (below_concat ..) ((twins.same names).trans holds) alsoFree noLink⟩
      rw [← put, ← put, find?_put free, find?_put alsoFree, twins.same]
      simp only [List.append_assoc, List.append_right_inj]

theorem erased (some_ : names ≠ [])
    (bare : disk.Sound → ∀ e ∈ disk.entries, e.1.dropLast ≠ place ++ names)
    (alsoBare : other.Sound → ∀ e ∈ other.entries, e.1.dropLast ≠ spot ++ names) :
    Alike Calm place spot disk other (disk.erase (place ++ names)) (other.erase (spot ++ names)) := by
  refine ⟨fun more => ?_, calm_erase (below_append some_ place) bare, calm_erase (below_append some_ spot) alsoBare⟩
  rw [find?_erase _ (by simp [some_]), find?_erase _ (by simp [some_]), twins.same]
  simp only [List.append_right_inj]

theorem removeFile_both (plain : disk.Plain place names) (name : String) :
    Both Calm place spot disk other (disk.removeFile (path ++ (names ++ [name])))
      (other.removeFile (path ++ (names ++ [name]))) := by
  rw [removeFile, removeFile]
  rcases twins.resolveParent plain name with ⟨why, left, right⟩ | ⟨left, right, -⟩
  · exact .inl ⟨why, by rw [left], by rw [right]⟩
  · have bare : ∀ {d : Disk} {there : Location}, d.find? there ≠ some .directory → d.Sound →
        ∀ e ∈ d.entries, e.1.dropLast ≠ there := by
      intro d there notDirectory sound e listed here
      have held := sound.held e listed
      rw [here] at held
      exact notDirectory held
    have also := twins.same (names ++ [name])
    simp only [left, right, List.append_assoc, also]
    cases found : disk.find? (place ++ (names ++ [name])) with
    | none => exact .inl ⟨_, rfl, rfl⟩
    | some entry =>
      cases entry with
      | directory => exact .inl ⟨_, rfl, rfl⟩
      | file bytes | link text =>
        exact .inr ⟨_, _, rfl, rfl, twins.erased (by simp) (bare (by simp [found])) (bare (by simp [also, found]))⟩

theorem removeDirectory_both (plain : disk.Plain place names) (name : String) :
    Both Calm place spot disk other (disk.removeDirectory (path ++ (names ++ [name])))
      (other.removeDirectory (path ++ (names ++ [name]))) := by
  rw [removeDirectory, removeDirectory]
  rcases twins.resolveParent plain name with ⟨why, left, right⟩ | ⟨left, right, -⟩
  · exact .inl ⟨why, by rw [left], by rw [right]⟩
  · have childless : (other.entries.any fun e => isChildOf (spot ++ (names ++ [name])) e.1) =
        disk.entries.any fun e => isChildOf (place ++ (names ++ [name])) e.1 := by
      rw [Bool.eq_iff_iff, twins.right.sound.any_child_iff, twins.left.sound.any_child_iff]
      simp only [twins.same_child]
    simp only [left, right, List.append_assoc, twins.same (names ++ [name]), childless]
    cases disk.find? (place ++ (names ++ [name])) with
    | none => exact .inl ⟨_, rfl, rfl⟩
    | some entry =>
      cases entry with
      | file bytes | link text => exact .inl ⟨_, rfl, rfl⟩
      | directory =>
        cases held : disk.entries.any fun e => isChildOf (place ++ (names ++ [name])) e.1 with
        | true => exact .inl ⟨_, rfl, rfl⟩
        | false =>
          exact .inr ⟨_, _, rfl, rfl, twins.erased (by simp) (bare_of_no_child held)
            (bare_of_no_child (childless.trans held))⟩

theorem entryAt?_eq (plain : disk.Plain place names) (name : String) :
    other.entryAt? (path ++ (names ++ [name])) = disk.entryAt? (path ++ (names ++ [name])) := by
  rw [entryAt?, entryAt?]
  rcases twins.resolveParent plain name with ⟨why, left, right⟩ | ⟨left, right, -⟩
  · rw [left, right]
  · simp only [left, right, twins.same_child]

end Twins

theorem Twins.changeFile_both (twins : Twins path place spot disk other) {file : Location}
    (tame : Tame place spot disk other file) (change : Bytes → Bytes) :
    Both Calm place spot disk other (disk.changeFile file change) (other.changeFile file change) := by
  rw [changeFile, changeFile]
  cases tame with
  | lost why left right => exact .inl ⟨why, by rw [left], by rw [right]⟩
  | outside there there' left right same noFile =>
    simp only [left, right, same]
    cases found : disk.find? there with
    | none => exact .inl ⟨_, rfl, rfl⟩
    | some entry =>
      cases entry with
      | directory | link => exact .inl ⟨_, rfl, rfl⟩
      | file bytes => exact absurd found (noFile bytes)
  | inside names left right same =>
    simp only [left, right, same]
    cases found : disk.find? (place ++ names) with
    | none => exact .inl ⟨_, rfl, rfl⟩
    | some entry =>
      cases entry with
      | directory | link => exact .inl ⟨_, rfl, rfl⟩
      | file bytes =>
        have alsoFound := same.trans found
        have some_ : names ≠ [] := by
          rintro rfl
          rw [List.append_nil, twins.left.directory] at found
          cases found
        refine .inr ⟨disk.filled (place ++ names) (change bytes), other.filled (spot ++ names) (change bytes), rfl, rfl,
          fun more => ?_, calm_filled (below_append some_ place) found _,
          calm_filled (below_append some_ spot) alsoFound _⟩
        rw [find?_filled found, find?_filled alsoFound, twins.same]
        simp only [List.append_right_inj]

theorem changeFile_eq_ok {file : Location} {change : Bytes → Bytes}
    (changed : disk.changeFile file change = .ok after) :
    ∃ there bytes, disk.resolve file = .ok there ∧ disk.find? there = some (.file bytes) ∧
      after = disk.filled there (change bytes) := by
  rw [changeFile] at changed
  split at changed
  · cases changed
  · rename_i there reached
    split at changed
    · rename_i bytes found
      cases changed
      exact ⟨there, bytes, reached, found, rfl⟩
    · cases changed

theorem sameKind_filled {there : Location} {old : Bytes} (found : disk.find? there = some (.file old))
    (bytes : Bytes) (spot : Location) :
    SameKind (disk.find? spot) ((disk.filled there bytes).find? spot) := by
  rw [find?_filled found]
  split
  · rename_i here
    rw [here]
    exact .inr ⟨old, bytes, found, rfl⟩
  · exact .inl rfl

theorem Tame.changed {file : Location} (tame : Tame place spot disk other file) {after' : Disk}
    {change : Bytes → Bytes} (left : disk.changeFile file change = .ok after)
    (right : other.changeFile file change = .ok after') : Tame place spot after after' file := by
  obtain ⟨there, bytes, reached, found, rfl⟩ := changeFile_eq_ok left
  obtain ⟨there', bytes', reached', found', rfl⟩ := changeFile_eq_ok right
  have sameLeft := resolve_of_sameKind (sameKind_filled found (change bytes)) file
  have sameRight := resolve_of_sameKind (sameKind_filled found' (change bytes')) file
  cases tame with
  | lost why lost lost' =>
    rw [lost] at reached
    cases reached
  | inside names led led' same =>
    cases led.symm.trans reached
    cases led'.symm.trans reached'
    cases found.symm.trans (same.symm.trans found')
    refine .inside names (sameLeft.trans led) (sameRight.trans led') ?_
    rw [find?_filled found, find?_filled found', if_pos rfl, if_pos rfl]
  | outside spot spot' led led' same noFile =>
    rw [led] at reached
    cases reached
    exact absurd found (noFile bytes)

namespace Twins

variable (twins : Twins path place spot disk other) {names : List String} {name : String}
include twins

theorem move_cases (plain : disk.Plain place names) (old new : String) :
    (∃ why, disk.move (path ++ (names ++ [old])) (path ++ (names ++ [new])) = .error why ∧
      other.move (path ++ (names ++ [old])) (path ++ (names ++ [new])) = .error why) ∨
      disk.move (path ++ (names ++ [old])) (path ++ (names ++ [new])) =
          .ok (disk.moved (place ++ names ++ [old]) (place ++ names ++ [new])) ∧
        other.move (path ++ (names ++ [old])) (path ++ (names ++ [new])) =
          .ok (other.moved (spot ++ names ++ [old]) (spot ++ names ++ [new])) ∧
        disk.find? (place ++ names ++ [new]) = none ∧ old ≠ new ∧
        disk.find? (place ++ names) = some .directory := by
  rw [move, move]
  rcases twins.resolveParent plain old with ⟨why, left, right⟩ | ⟨left, right, holds⟩
  · exact .inl ⟨why, by rw [left], by rw [right]⟩
  · rcases twins.resolveParent plain new with ⟨why, left', right'⟩ | ⟨left', right', -⟩
    · exact .inl ⟨why, by rw [left, left'], by rw [right, right']⟩
    · simp only [left, right, left', right', twins.same_child]
      cases disk.find? (place ++ names ++ [old]) with
      | none => exact .inl ⟨_, rfl, rfl⟩
      | some entry =>
        cases free : disk.find? (place ++ names ++ [new]) with
        | some taken => exact .inl ⟨_, rfl, rfl⟩
        | none =>
          have apart : ∀ place : Location, (place ++ names ++ [old]).isPrefixOf (place ++ names ++ [new]) =
              decide (old = new) := fun place => by
            rw [Bool.eq_iff_iff, List.isPrefixOf_iff_prefix, List.prefix_append_right_inj]
            simp
          simp only [apart]
          by_cases same : old = new
          · simp only [same, decide_true, if_true]
            exact .inl ⟨_, rfl, rfl⟩
          · simp only [same, decide_false, Bool.false_eq_true, if_false]
            exact .inr ⟨rfl, rfl, trivial, same, holds⟩

theorem move_both (plain : disk.Plain place names) (old : String) {new : String} (proper : Proper new) :
    Both Keeps place spot disk other
      (disk.move (path ++ (names ++ [old])) (path ++ (names ++ [new])))
      (other.move (path ++ (names ++ [old])) (path ++ (names ++ [new]))) := by
  rcases twins.move_cases plain old new with refused | ⟨left, right, free, differ, holds⟩
  · exact .inl refused
  · have alsoFree := (twins.same_child names new).trans free
    have apart : ∀ place : Location, ¬ place ++ names ++ [old] <+: place ++ names ++ [new] := fun place => by
      rw [List.prefix_append_right_inj]
      simpa using differ
    refine .inr ⟨_, _, left, right, fun more => ?_,
      keeps_moved proper (below_concat ..) (below_concat ..) free (apart place) holds,
      keeps_moved proper (below_concat ..) (below_concat ..) alsoFree (apart spot) ((twins.same names).trans holds)⟩
    rw [find?_moved twins.right.sound alsoFree (by simp), find?_moved twins.left.sound free (by simp)]
    simp only [List.append_assoc, Keyed.rekey_below, twins.same]

theorem move_file_both (plain : disk.Plain place names) {old new : String} (proper : Proper new)
    {bytes : Bytes} (held : disk.find? (place ++ names ++ [old]) = some (.file bytes)) :
    Both Calm place spot disk other
      (disk.move (path ++ (names ++ [old])) (path ++ (names ++ [new])))
      (other.move (path ++ (names ++ [old])) (path ++ (names ++ [new]))) := by
  have alsoHeld := (twins.same_child names old).trans held
  rcases twins.move_both plain old proper with refused | ⟨after, after', left, right, alike⟩
  · exact .inl refused
  · rcases twins.move_cases plain old new with ⟨why, refused, _⟩ | ⟨left', right', free, differ, _⟩
    · rw [refused] at left
      cases left
    · have alsoFree := (twins.same_child names new).trans free
      have apart : ∀ place : Location, ¬ place ++ names ++ [old] <+: place ++ names ++ [new] := fun place => by
        rw [List.prefix_append_right_inj]
        simpa using differ
      obtain rfl := Except.ok.inj (left.symm.trans left')
      obtain rfl := Except.ok.inj (right.symm.trans right')
      exact .inr ⟨_, _, left, right, alike.same,
        ⟨alike.left, noLink_moved twins.left.sound free (apart place) held⟩,
        ⟨alike.right, noLink_moved twins.right.sound alsoFree (apart spot) alsoHeld⟩⟩

end Twins

end GuestStorage.Host.Disk
