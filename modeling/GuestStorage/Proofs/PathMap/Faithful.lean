import GuestStorage.Proofs.PathMap.Keys
import GuestStorage.Proofs.Tree.Attempts
import GuestStorage.Proofs.Tree.Ground

namespace GuestStorage.PathMap

open Memory (Content)
open GuestStorage.Path (IsPlain)
open Session (FileSystem Listing SpaceReport)
open GuestStorage.Tree

variable {σ F D : Type} [Backing σ F D]

/-- A change of storage and of the map that describes it. Both fail alike and nothing is different, or
    both succeed and the new map describes the new storage. -/
inductive Agree (shows : σ → PathMap → Prop) (s : σ) :
    Except Error Unit × σ → Except Error PathMap → Prop
  | refused (e : Error) : Agree shows s (.error e, s) (.error e)
  | done {s' : σ} {next : PathMap} (shown : shows s' next) : Agree shows s (.ok (), s') (.ok next)

def Roomy (map : PathMap) (room : List String → Prop) : Prop := ∀ e ∈ map.entries, room e.1

/-- What is found below a directory is what a map says, and single steps there change the storage as they
    change the map, as long as there is room for what the map comes to say. Some names are taken for new entries, and
    sizes below a bound. -/
structure Faithful (root : DirectoryView D) (shows : σ → PathMap → Prop) (takes : String → Prop)
    (room : List String → Prop) (bound : Nat) : Prop where
  proper {s map} : shows s map → map.Proper
  reached_iff {s map} : shows s map → ∀ key,
    ((∃ dir, root.descend? s key = some dir) ↔ map.find? key = some .directory)
  held {s map front name content} : shows s map → map.find? (front ++ [name]) = some content →
    map.find? front = some .directory
  file_iff {s map front dir} : shows s map → root.descend? s front = some dir → ∀ name,
    ((∃ file, dir.file? s name = some file) ↔ ∃ bytes, map.find? (front ++ [name]) = some (.file bytes))
  isWritable {s map front dir} : shows s map → root.descend? s front = some dir → dir.isWritable s = true
  samePlace_iff {s map front back home goal} : shows s map → root.descend? s front = some home →
    root.descend? s back = some goal → (Mount.samePlace s home goal = true ↔ front = back)
  contents {s map front dir name file bytes} : shows s map → root.descend? s front = some dir →
    dir.file? s name = some file → map.find? (front ++ [name]) = some (.file bytes) →
    file.isReadable s = true ∧ file.isWritable s = true ∧ ∀ offset length, file.read s offset length =
      bytes.slice offset length
  records {s map key dir} : shows s map → root.descend? s key = some dir → ∀ filter,
    (Listing.ofDirectory s dir filter).remaining.Perm (map.records key filter)
  adds_file {s map front dir name size} : shows s map → root.descend? s front = some dir → takes name →
    map.find? (front ++ [name]) = none → size < bound →
    (map.insert (front ++ [name]) (.file (.zeros size))).Roomy room → ∃ file s₁ s₂,
      dir.createFile s name = (some file, s₁) ∧ file.resize s₁ size = (true, s₂) ∧
      shows s₂ (map.insert (front ++ [name]) (.file (.zeros size)))
  adds_directory {s map front dir name} : shows s map → root.descend? s front = some dir → takes name →
    map.find? (front ++ [name]) = none → (map.insert (front ++ [name]) .directory).Roomy room →
    ∃ sub s', dir.createSubdirectory s name = (some sub, s') ∧
      shows s' (map.insert (front ++ [name]) .directory)
  removes_file {s map front dir name bytes} : shows s map → root.descend? s front = some dir →
    map.find? (front ++ [name]) = some (.file bytes) → ∃ s', dir.deleteFile s name = (true, s') ∧
      shows s' (map.remove (front ++ [name]))
  removes_directory {s map front dir name} : shows s map → root.descend? s front = some dir →
    map.find? (front ++ [name]) = some .directory → map.below (front ++ [name]) = [] →
    ∃ s', dir.deleteSubdirectory s name = (true, s') ∧ shows s' (map.remove (front ++ [name]))
  keeps_full_directory {s map front dir name} : shows s map → root.descend? s front = some dir →
    map.find? (front ++ [name]) = some .directory → map.below (front ++ [name]) ≠ [] →
    dir.deleteSubdirectory s name = (false, s)
  removes_tree {s map front dir name} : shows s map → root.descend? s front = some dir →
    map.find? (front ++ [name]) = some .directory →
    ∃ s', dir.deleteTree s name = (true, s') ∧ shows s' (map.remove (front ++ [name]))
  clears_tree {s map front dir name} : shows s map → root.descend? s front = some dir →
    map.find? (front ++ [name]) = some .directory →
    ∃ s', dir.cleanSubdirectory s name = (true, s') ∧ shows s' (map.clear (front ++ [name]))
  renames_file {s map front dir name file new} : shows s map → root.descend? s front = some dir →
    dir.file? s name = some file → takes new → map.find? (front ++ [new]) = none →
    (map.move (front ++ [name]) (front ++ [new])).Roomy room →
    ∃ renamed s', file.rename s new = (some renamed, s') ∧
      shows s' (map.move (front ++ [name]) (front ++ [new]))
  renames_directory {s map front dir name sub new} : shows s map → root.descend? s front = some dir →
    dir.subdirectory? s name = some sub → takes new → map.find? (front ++ [new]) = none →
    (map.move (front ++ [name]) (front ++ [new])).Roomy room →
    ∃ renamed s', sub.rename s new = (some renamed, s') ∧
      shows s' (map.move (front ++ [name]) (front ++ [new]))
  moves_file {s map front home name file back goal new} : shows s map → root.descend? s front = some home →
    home.file? s name = some file → root.descend? s back = some goal → takes new →
    map.find? (back ++ [new]) = none → front ≠ back → (map.move (front ++ [name]) (back ++ [new])).Roomy room →
    ∃ s', Mount.moveFile s file home name goal new = (.ok (), s') ∧
      shows s' (map.move (front ++ [name]) (back ++ [new]))
  moves_directory {s map front home name sub back goal new} : shows s map → root.descend? s front = some home →
    home.subdirectory? s name = some sub → root.descend? s back = some goal → takes new →
    map.find? (back ++ [new]) = none → front ≠ back → ¬ front ++ [name] <+: back ++ [new] →
    (map.move (front ++ [name]) (back ++ [new])).Roomy room →
    ∃ s', Mount.moveDirectory s sub home name goal new = (.ok (), s') ∧
      shows s' (map.move (front ++ [name]) (back ++ [new]))

def Admits (takes : String → Prop) (text : String) : Prop :=
  ∀ name ∈ Path.components text, IsPlain name → takes name

theorem takes_of_key {takes : String → Prop} {text : String} {names : List String} (admits : Admits takes text)
    (found : key text = .ok names) : ∀ name ∈ names, takes name := by
  intro name among
  have plain := key_plain found name among
  simp only [key] at found
  split at found
  · cases found
  · cases found
    exact admits name (List.mem_filter.mp among).1 plain

namespace Faithful

variable {root : DirectoryView D} {shows : σ → PathMap → Prop} {takes : String → Prop}
  {room : List String → Prop} {bound : Nat} (faithful : Faithful root shows takes room bound) {s : σ} {map : PathMap}
  (shown : shows s map)
  {front back names : List String} {name newName : String} {dir home goal : DirectoryView D}
include faithful shown

theorem subdirectory_iff (reached : root.descend? s front = some dir) (name : String) :
    (∃ sub, dir.subdirectory? s name = some sub) ↔ map.find? (front ++ [name]) = some .directory := by
  rw [← faithful.reached_iff shown]
  simp only [DirectoryView.descend?_concat, reached, Option.bind_some]

theorem lost_of_subdirectory? (reached : root.descend? s front = some dir)
    (missing : dir.subdirectory? s name = none) : map.find? (front ++ [name]) ≠ some .directory := by
  intro held
  obtain ⟨sub, found⟩ := (faithful.subdirectory_iff shown reached name).mpr held
  rw [missing] at found
  cases found

theorem hasEntry_eq (reached : root.descend? s front = some dir) (name : String) :
    dir.hasEntry s name = (map.find? (front ++ [name])).isSome := by
  have file := faithful.file_iff shown reached name
  have subdirectory := faithful.subdirectory_iff shown reached name
  rw [← Option.isSome_iff_exists] at file subdirectory
  rw [DirectoryView.hasEntry, Bool.eq_iff_iff, Bool.or_eq_true, file, subdirectory]
  cases map.find? (front ++ [name]) with
  | none => simp
  | some content => cases content <;> simp

theorem locateAlong (names : List String) :
    (∃ e, Mount.locateAlong s ⟨root⟩ names = .error e ∧ map.inside names = .error e) ∨
    ∃ front name dir, names = front ++ [name] ∧ root.descend? s front = some dir ∧
      Mount.locateAlong s ⟨root⟩ names = .ok (dir, name) ∧ map.inside names = .ok names := by
  rcases List.eq_nil_or_concat' names with rfl | ⟨front, name, rfl⟩
  · exact .inl ⟨_, rfl, rfl⟩
  · rw [Mount.locateAlong, inside, if_neg (by simp), List.dropLast_concat, List.getLast?_concat]
    have holds := faithful.reached_iff shown front
    dsimp only
    cases reached : root.descend? s front with
    | some dir =>
      rw [if_pos (holds.mp ⟨dir, reached⟩)]
      exact .inr ⟨front, name, dir, rfl, reached, rfl, rfl⟩
    | none =>
      rw [if_neg]
      · exact .inl ⟨_, rfl, rfl⟩
      · intro held
        obtain ⟨dir, there⟩ := holds.mpr held
        rw [reached] at there
        cases there

theorem locate (text : String) :
    (∃ e, Mount.locate s ⟨root⟩ text = .error e ∧ map.named text = .error e) ∨
    ∃ front name dir, root.descend? s front = some dir ∧ key text = .ok (front ++ [name]) ∧
      Mount.locate s ⟨root⟩ text = .ok (dir, name) ∧ map.named text = .ok (front ++ [name]) := by
  rw [Mount.locate, named, ← key_eq]
  cases judged : key text with
  | error e => exact .inl ⟨e, rfl, rfl⟩
  | ok names =>
    rcases faithful.locateAlong shown names with refused | ⟨front, name, dir, rfl, reached, located, inside⟩
    · exact .inl refused
    · exact .inr ⟨front, name, dir, reached, rfl, located, inside⟩

theorem locateFile (text : String) :
    (∃ e, Mount.locate s ⟨root⟩ text = .error e ∧ map.file text = .error e) ∨
    (∃ dir name, Mount.locate s ⟨root⟩ text = .ok (dir, name) ∧ dir.file? s name = none ∧
      map.file text = .error .entityNotFound) ∨
    ∃ front name dir file bytes, root.descend? s front = some dir ∧
      Mount.locate s ⟨root⟩ text = .ok (dir, name) ∧ dir.file? s name = some file ∧
      map.find? (front ++ [name]) = some (.file bytes) ∧ map.file text = .ok (front ++ [name], bytes) := by
  rw [PathMap.file]
  rcases faithful.locate shown text with ⟨e, located, named⟩ | ⟨front, name, dir, reached, -, located, named⟩
  · exact .inl ⟨e, located, by rw [named]; rfl⟩
  · have there := faithful.file_iff shown reached name
    rw [named]
    simp only [bind, Except.bind]
    right
    cases found : dir.file? s name with
    | some file =>
      obtain ⟨bytes, held⟩ := there.mp ⟨file, found⟩
      exact .inr ⟨front, name, dir, file, bytes, reached, located, found, held, by rw [held]⟩
    | none =>
      refine .inl ⟨dir, name, located, found, ?_⟩
      split
      · rename_i bytes held
        obtain ⟨file, found'⟩ := there.mpr ⟨bytes, held⟩
        rw [found] at found'
        cases found'
      · rfl

section Changes

/-- A request that creates an entry agrees with an insertion if its step does where nothing stands yet. -/
theorem creates {text : String} {content : Content} {step : DirectoryView D → String → Except Error Unit × σ}
    (admits : Admits takes text) (roomy : ∀ next, map.create text content = .ok next → next.Roomy room)
    (adds : ∀ {front name dir}, root.descend? s front = some dir → takes name →
      map.find? (front ++ [name]) = none → (map.insert (front ++ [name]) content).Roomy room →
      ∃ s', step dir name = (.ok (), s') ∧ shows s' (map.insert (front ++ [name]) content)) :
    Agree shows s
      (Mount.attempt s ⟨root⟩ text .pathAlreadyExists (fun dir name => dir.hasEntry s name) step)
      (map.create text content) := by
  rw [Mount.attempt]
  rw [create] at roomy ⊢
  rcases faithful.locate shown text with ⟨e, located, named⟩ | ⟨front, name, dir, reached, judged, located, named⟩
  · rw [located, named]
    exact .refused e
  · rw [located, named]
    simp only [bind, Except.bind, faithful.hasEntry_eq shown reached]
    rw [named] at roomy
    cases free : map.find? (front ++ [name]) with
    | some content => exact .refused _
    | none =>
      have taken := takes_of_key admits judged name (by simp)
      obtain ⟨s', added, shown'⟩ := adds reached taken free (roomy _ (by simp [bind, Except.bind, free]))
      simp only [Option.isSome_none, added]
      exact .done shown'

theorem createDirectory {text : String} (admits : Admits takes text)
    (roomy : ∀ next, map.create text .directory = .ok next → next.Roomy room) :
    Agree shows s (Mount.createDirectory s ⟨root⟩ text) (map.create text .directory) := by
  rw [Mount.createDirectory_eq_attempt]
  refine faithful.creates shown admits roomy fun reached taken free fits => ?_
  obtain ⟨sub, s', created, shown'⟩ := faithful.adds_directory shown reached taken free fits
  exact ⟨s', by rw [created]; rfl, shown'⟩

theorem createFile {text : String} (admits : Admits takes text) {size : Nat} (small : size < bound)
    (roomy : ∀ next, map.create text (.file (.zeros size)) = .ok next → next.Roomy room) :
    Agree shows s (Mount.createFile s ⟨root⟩ text size) (map.create text (.file (.zeros size))) := by
  rw [Mount.createFile_eq_attempt]
  refine faithful.creates shown admits roomy fun reached taken free fits => ?_
  obtain ⟨file, s₁, s₂, created, resized, shown'⟩ := faithful.adds_file shown reached taken free small fits
  exact ⟨s₂, by rw [Mount.createSized, created]; simp only [resized], shown'⟩

theorem deleteFile (text : String) :
    Agree shows s (Mount.deleteFile s ⟨root⟩ text) (map.deleteFile text) := by
  rw [Mount.deleteFile, PathMap.deleteFile]
  rcases faithful.locateFile shown text with ⟨e, located, refused⟩ | ⟨dir, name, located, missing, refused⟩ |
    ⟨front, name, dir, file, bytes, reached, located, found, held, looked⟩
  · rw [located, refused]
    exact .refused e
  · simp only [located, missing, refused]
    exact .refused _
  · obtain ⟨s', deleted, shown'⟩ := faithful.removes_file shown reached held
    simp only [located, found, looked, deleted]
    exact .done shown'

theorem onSubdirectory {step : σ → DirectoryView D → String → Bool × σ}
    {next : List String → Except Error PathMap} (text : String)
    (each : ∀ {front name dir}, root.descend? s front = some dir →
      map.find? (front ++ [name]) = some .directory →
      Agree shows s (Mount.orRefused (step s dir name).2 dir (step s dir name).1, (step s dir name).2)
        (next (front ++ [name]))) :
    Agree shows s (Mount.onSubdirectory step s ⟨root⟩ text) ((map.subdirectory text).bind next) := by
  rw [Mount.onSubdirectory, subdirectory]
  rcases faithful.locate shown text with ⟨e, located, named⟩ | ⟨front, name, dir, reached, -, located, named⟩
  · rw [located, named]
    exact .refused e
  · have there := faithful.subdirectory_iff shown reached name
    rw [located, named]
    simp only [bind, Except.bind]
    cases found : dir.subdirectory? s name with
    | some sub =>
      have held := there.mp ⟨sub, found⟩
      rw [if_pos held]
      exact each reached held
    | none =>
      rw [if_neg (faithful.lost_of_subdirectory? shown reached found)]
      exact .refused _

theorem deleteDirectory (text : String) :
    Agree shows s (Mount.deleteDirectory s ⟨root⟩ text) (map.deleteDirectory text) := by
  apply faithful.onSubdirectory shown text
  intro front name dir reached held
  by_cases bare : map.below (front ++ [name]) = []
  · obtain ⟨s', deleted, shown'⟩ := faithful.removes_directory shown reached held bare
    rw [deleted, if_pos bare]
    exact .done shown'
  · rw [faithful.keeps_full_directory shown reached held bare, if_neg bare]
    have failure : Error.ofRefusal (dir.isWritable s) = .operationFailed := by
      rw [faithful.isWritable shown reached]
      rfl
    simp only [Mount.orRefused, failure]
    exact .refused _

theorem deleteTree (text : String) :
    Agree shows s (Mount.deleteDirectoryRecursively s ⟨root⟩ text) (map.deleteTree text) := by
  apply faithful.onSubdirectory shown text
  intro front name dir reached held
  obtain ⟨s', deleted, shown'⟩ := faithful.removes_tree shown reached held
  rw [deleted]
  exact .done shown'

theorem cleanTree (text : String) :
    Agree shows s (Mount.cleanDirectoryRecursively s ⟨root⟩ text) (map.cleanTree text) := by
  apply faithful.onSubdirectory shown text
  intro front name dir reached held
  obtain ⟨s', cleaned, shown'⟩ := faithful.clears_tree shown reached held
  rw [cleaned]
  exact .done shown'

theorem relocated {own : Bool} {inPlace across : Except Error Unit × σ}
    (reached : root.descend? s front = some home) (reached' : root.descend? s back = some goal)
    (isOwn : own = true ↔ front ++ [name] = back ++ [newName])
    (roomy : ∀ next, map.rename (front ++ [name]) (back ++ [newName]) = .ok next → next.Roomy room)
    (stays : front = back → map.find? (back ++ [newName]) = none →
      (map.move (front ++ [name]) (back ++ [newName])).Roomy room →
      Agree shows s inPlace (.ok (map.move (front ++ [name]) (back ++ [newName]))))
    (moves : front ≠ back → map.find? (back ++ [newName]) = none →
      (map.move (front ++ [name]) (back ++ [newName])).Roomy room →
      Agree shows s across (.ok (map.move (front ++ [name]) (back ++ [newName])))) :
    Agree shows s
      (if own then (.ok (), s)
        else if goal.hasEntry s newName then (.error .pathAlreadyExists, s)
        else if Mount.samePlace s home goal then inPlace else across)
      (map.rename (front ++ [name]) (back ++ [newName])) := by
  have place := faithful.samePlace_iff shown reached reached'
  rw [rename] at roomy ⊢
  rw [faithful.hasEntry_eq shown reached']
  by_cases same : front ++ [name] = back ++ [newName]
  · rw [if_pos same, if_pos (isOwn.mpr same)]
    exact .done shown
  · rw [if_neg same, if_neg fun equal => same (isOwn.mp equal)]
    cases free : map.find? (back ++ [newName]) with
    | some content => exact .refused _
    | none =>
      have fits := roomy (map.move (front ++ [name]) (back ++ [newName])) (by simp [same, free])
      simp only [Option.isSome_none, Bool.false_eq_true, if_false]
      split
      · rename_i here
        exact stays (place.mp here) free fits
      · rename_i apart
        exact moves (fun same => apart (place.mpr same)) free fits

theorem renameFile {source target : String} (admits : Admits takes target)
    (roomy : ∀ next, map.renameFile source target = .ok next → next.Roomy room) :
    Agree shows s (Mount.renameFile s ⟨root⟩ source target) (map.renameFile source target) := by
  rw [Mount.renameFile]
  rw [PathMap.renameFile] at roomy ⊢
  rcases faithful.locateFile shown source with ⟨e, located, refused⟩ | ⟨home, name, located, missing, refused⟩ |
    ⟨front, name, home, file, bytes, reached, located, found, -, looked⟩
  · rw [located, refused]
    exact .refused e
  · simp only [located, missing, refused]
    exact .refused _
  · simp only [located, found, looked, bind, Except.bind] at roomy ⊢
    rcases faithful.locate shown target with
      ⟨e, located', named'⟩ | ⟨back, newName, goal, reached', judged, located', named'⟩
    · rw [located', named']
      exact .refused e
    · have taken := takes_of_key admits judged newName (by simp)
      simp only [located', named'] at roomy ⊢
      refine faithful.relocated shown reached reached' ?_ roomy (fun same free fits => ?_)
        fun different free fits => ?_
      · rw [Bool.and_eq_true, beq_iff_eq, faithful.samePlace_iff shown reached reached']
        constructor
        · rintro ⟨front, name⟩
          rw [front, name]
        · intro same
          simpa using same
      · subst same
        obtain ⟨renamed, s', made, shown'⟩ := faithful.renames_file shown reached found taken free fits
        rw [made]
        exact .done shown'
      · obtain ⟨s', made, shown'⟩ := faithful.moves_file shown reached found reached' taken free different fits
        rw [made]
        exact .done shown'

theorem renameDirectory {source target : String} (admits : Admits takes target)
    (roomy : ∀ next, map.renameDirectory source target = .ok next → next.Roomy room) :
    Agree shows s (Mount.renameDirectory s ⟨root⟩ source target) (map.renameDirectory source target) := by
  rw [PathMap.renameDirectory, subdirectory, PathMap.named, PathMap.named] at roomy ⊢
  rw [Mount.renameDirectory, ← key_eq, ← key_eq]
  cases judged : key source with
  | error e => exact .refused e
  | ok old =>
    cases judged' : key target with
    | error e => exact .refused e
    | ok new =>
      rw [judged, judged'] at roomy
      simp only [bind, Except.bind] at roomy ⊢
      by_cases below : old <+: new ∧ old ≠ new
      · rw [if_pos below]
        split
        · exact .refused _
        · -- The topmost directory lies above the target; it has no name, which is the same error.
          rename_i top
          have empty : old = [] := by
            by_contra named
            simp [List.isPrefixOf_iff_prefix, below, named] at top
          rw [empty]
          exact .refused _
      · rw [if_neg below] at roomy ⊢
        have inward : ¬ (old != [] && old.isPrefixOf new && old != new) = true := by
          rw [Bool.and_eq_true, Bool.and_eq_true, List.isPrefixOf_iff_prefix, bne_iff_ne]
          exact fun within => below ⟨within.1.2, bne_iff_ne.mp within.2⟩
        rw [if_neg inward]
        rcases faithful.locateAlong shown old with
          ⟨e, located, inside⟩ | ⟨front, name, home, rfl, reached, located, inside⟩
        · rw [located, inside]
          exact .refused e
        · have there := faithful.subdirectory_iff shown reached name
          rw [located, inside]
          rw [inside] at roomy
          cases found : home.subdirectory? s name with
          | none =>
            simp only [if_neg (faithful.lost_of_subdirectory? shown reached found), found]
            exact .refused _
          | some sub =>
            simp only [if_pos (there.mp ⟨sub, found⟩), found] at roomy ⊢
            rcases faithful.locateAlong shown new with
              ⟨e, located', inside'⟩ | ⟨back, newName, goal, rfl, reached', located', inside'⟩
            · rw [located', inside']
              exact .refused e
            · have taken := takes_of_key admits judged' newName (by simp)
              simp only [located', inside'] at roomy ⊢
              refine faithful.relocated shown reached reached' beq_iff_eq roomy (fun same free fits => ?_)
                fun different free fits => ?_
              · subst same
                obtain ⟨renamed, s', made, shown'⟩ := faithful.renames_directory shown reached found taken free fits
                rw [made]
                exact .done shown'
              · have apart : ¬ front ++ [name] <+: back ++ [newName] := fun within =>
                  below ⟨within, fun same => different (List.append_inj_left' same rfl)⟩
                obtain ⟨s', made, shown'⟩ :=
                  faithful.moves_directory shown reached found reached' taken free different apart fits
                rw [made]
                exact .done shown'

end Changes

section Queries

theorem entryType (text : String) : Mount.entryType s ⟨root⟩ text = map.entryType text := by
  rw [Mount.entryType, PathMap.entryType, ← key_eq]
  cases judged : key text with
  | error e => rfl
  | ok names =>
    cases names with
    | nil => rfl
    | cons first rest =>
      simp only [bind, Except.bind]
      rcases faithful.locateAlong shown (first :: rest) with
        ⟨e, located, inside⟩ | ⟨front, name, dir, same, reached, located, -⟩
      · obtain ⟨front, name, same⟩ := (List.eq_nil_or_concat' (first :: rest)).resolve_left (by simp)
        rw [same, PathMap.inside, if_neg (by simp), List.dropLast_concat] at inside
        rw [located]
        split at inside
        · cases inside
        · rename_i lost
          cases inside
          have none : map.find? (front ++ [name]) = none :=
            Option.eq_none_iff_forall_ne_some.mpr fun _ there => lost (faithful.held shown there)
          rw [same, none]
      · rw [located, same]
        have file := faithful.file_iff shown reached name
        have subdirectory := faithful.subdirectory_iff shown reached name
        rw [← Option.isSome_iff_exists] at file subdirectory
        dsimp only
        split
        · rename_i isFile
          obtain ⟨bytes, held⟩ := file.mp isFile
          rw [held]
        · split
          · rename_i isDirectory
            rw [subdirectory.mp isDirectory]
          · rename_i noFile noDirectory
            cases held : map.find? (front ++ [name]) with
            | none => rfl
            | some content =>
              cases content with
              | file bytes => exact absurd (file.mpr ⟨bytes, held⟩) noFile
              | directory => exact absurd (subdirectory.mpr held) noDirectory

theorem openFile (space : SpaceReport) (text : String) (mode : UInt32) :
    (∃ e, (⟨⟨root⟩, space⟩ : FileSystem D).openFile s text mode = .error e ∧
      map.openFile text mode = .error e) ∨
    ∃ front name dir file bytes chosen, root.descend? s front = some dir ∧ dir.file? s name = some file ∧
      map.find? (front ++ [name]) = some (.file bytes) ∧
      (⟨⟨root⟩, space⟩ : FileSystem D).openFile s text mode = .ok ⟨file, chosen⟩ ∧
      map.openFile text mode = .ok (.file (front ++ [name]) bytes chosen) := by
  rw [FileSystem.openFile, PathMap.openFile]
  cases Session.decodeArgument (α := Wire.OpenMode) mode.toNat with
  | error e => exact .inl ⟨e, rfl, rfl⟩
  | ok chosen =>
    simp only [bind, Except.bind]
    rw [Mount.openFile]
    rcases faithful.locateFile shown text with ⟨e, located, refused⟩ | ⟨dir, name, located, missing, refused⟩ |
      ⟨front, name, dir, file, bytes, reached, located, found, held, looked⟩
    · rw [located, refused]
      exact .inl ⟨e, rfl, rfl⟩
    · simp only [located, missing, refused]
      exact .inl ⟨_, rfl, rfl⟩
    · obtain ⟨readable, writable, -⟩ := faithful.contents shown reached found held
      simp only [located, found, looked, readable, writable, Bool.not_true, Bool.and_false, Bool.false_eq_true,
        if_false]
      exact .inr ⟨front, name, dir, file, bytes, chosen, reached, found, held, rfl, rfl⟩

theorem openDirectory (space : SpaceReport) (text : String) (filter : UInt32) :
    (∃ e, (⟨⟨root⟩, space⟩ : FileSystem D).openDirectory s text filter = .error e ∧
      map.openDirectory text filter = .error e) ∨
    ∃ listing records, (⟨⟨root⟩, space⟩ : FileSystem D).openDirectory s text filter = .ok listing ∧
      map.openDirectory text filter = .ok (.listing records) ∧ listing.remaining.Perm records := by
  rw [FileSystem.openDirectory, PathMap.openDirectory, Mount.openDirectory, ← key_eq]
  cases judged : key text with
  | error e => exact .inl ⟨e, rfl, rfl⟩
  | ok names =>
    have holds := faithful.reached_iff shown names
    simp only [bind, Except.bind]
    cases reached : root.descend? s names with
    | some dir =>
      rw [if_pos (holds.mp ⟨dir, reached⟩)]
      exact .inr ⟨_, _, rfl, rfl, faithful.records shown reached filter⟩
    | none =>
      rw [if_neg]
      · exact .inl ⟨_, rfl, rfl⟩
      · intro held
        obtain ⟨dir, there⟩ := holds.mpr held
        rw [reached] at there
        cases there

end Queries

end Faithful

end GuestStorage.PathMap
