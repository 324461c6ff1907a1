import GuestStorage.Proofs.Host.Tidy
import GuestStorage.Proofs.Tree.Attempts

namespace GuestStorage.Host

open GuestStorage.Tree
open GuestStorage.Path (Usable)

namespace DirectoryNode

def down (dir : DirectoryNode) (names : List String) : DirectoryNode := ⟨dir.root, dir.path ++ names⟩

/-- Hosts take every name on a way down from a directory, and the path as a whole. -/
def Takes (dir : DirectoryNode) (names : List String) : Prop :=
  (∀ name ∈ names, Usable name) ∧ dir.root.admits (dir.path ++ names) = true

variable {dir : DirectoryNode} {name : String} {names : List String}

@[simp] theorem down_nil (dir : DirectoryNode) : dir.down [] = dir := by simp [down]

@[simp] theorem down_down (dir : DirectoryNode) (front rest : List String) :
    (dir.down front).down rest = dir.down (front ++ rest) := by simp [down]

theorem takes_cons : dir.Takes (name :: names) ↔ dir.Takes [name] ∧ (dir.down [name]).Takes names := by
  simp only [Takes, down, List.forall_mem_cons, List.append_assoc, List.singleton_append, List.not_mem_nil,
    false_implies, implies_true, and_true]
  constructor
  · rintro ⟨⟨own, others⟩, short⟩
    exact ⟨⟨own, Root.admits_of_prefix (by simp) short⟩, others, short⟩
  · rintro ⟨⟨own, -⟩, others, short⟩
    exact ⟨⟨own, others⟩, short⟩

theorem exists_not_takes (above : dir.root.admits dir.path = true) (refused : ¬ dir.Takes names) :
    ∃ front bad more, names = front ++ bad :: more ∧ dir.Takes front ∧ ¬ (dir.down front).Takes [bad] := by
  induction names generalizing dir with
  | nil => exact absurd ⟨by simp, by rwa [List.append_nil]⟩ refused
  | cons name rest ih =>
    by_cases own : dir.Takes [name]
    · obtain ⟨front, bad, more, rfl, fine, last⟩ := ih own.2 fun others => refused (takes_cons.mpr ⟨own, others⟩)
      exact ⟨name :: front, bad, more, rfl, takes_cons.mpr ⟨own, fine⟩, by simpa using last⟩
    · exact ⟨[], name, rest, rfl, ⟨by simp, by rwa [List.append_nil]⟩, by simpa using own⟩

end DirectoryNode

namespace Disk

/-- A path leads to a directory, through links or not. -/
structure Leads (disk : Disk) (path place : Location) : Prop where
  resolve : disk.resolve path = .ok place
  directory : disk.find? place = some .directory

def Bare (disk : Disk) (place : Location) : Prop := ∀ rest, rest ≠ [] → disk.find? (place ++ rest) = none

def putChain (disk : Disk) (place : Location) : List String → Disk
  | [] => disk
  | name :: rest => putChain (disk.put (place ++ [name]) .directory) (place ++ [name]) rest

/-- The directories of a way are there up to a place, and all the others are missing and can be made. -/
structure Begins (disk : Disk) (dir : DirectoryNode) (names : List String) (place : Location)
    (made : List String) : Prop where
  reached : ∃ present, names = present ++ made ∧ (dir.down present).Takes made ∧
    (DirectoryView.direct dir).descend? disk present = some (.direct (dir.down present)) ∧
    disk.Leads (dir.down present).path place
  missing : ∃ name rest, made = name :: rest ∧ disk.find? (place ++ [name]) = none

/-- A way comes to a name that no host takes, or becomes too long, behind directories that are missing and can be
    made. -/
def Strands (disk : Disk) (dir : DirectoryNode) (names : List String) (place : Location) (made : List String) :
    Prop :=
  ∃ front name rest, names = front ++ name :: rest ∧ disk.Begins dir front place made ∧
    ¬ (dir.down front).Takes [name]

variable {disk : Disk} {dir : DirectoryNode} {path place : Location} {names made rest : List String}
  {name : String}

section Leading

theorem Leads.resolveParent (leads : disk.Leads path place) (usable : Usable name) :
    disk.resolveParent (path ++ [name]) = .ok (place ++ [name]) := by
  obtain ⟨-, short, clean⟩ := usable_iff.mp usable
  rw [Disk.resolveParent, List.getLast?_concat, List.dropLast_concat, leads.resolve]
  simp only [leads.directory, clean, if_neg (Nat.not_lt.mpr short), if_true]

theorem leads_of_resolveParent {there : Location} (valid : validName name = true)
    (reached : disk.resolveParent (path ++ [name]) = .ok there) :
    Usable name ∧ ∃ place, disk.Leads path place ∧ there = place ++ [name] := by
  rw [Disk.resolveParent, List.getLast?_concat, List.dropLast_concat] at reached
  dsimp only at reached
  split at reached
  · cases reached
  · rename_i place resolved
    split at reached
    · rename_i directory
      split at reached
      · cases reached
      · rename_i short
        split at reached
        · rename_i clean
          cases reached
          exact ⟨usable_iff.mpr ⟨valid, Nat.not_lt.mp short, clean⟩, place, ⟨resolved, directory⟩, rfl⟩
        · cases reached
    · cases reached

theorem Leads.resolve_child {entry : Entry} (leads : disk.Leads path place) (proper : Proper name)
    (short : name.utf8ByteSize ≤ nameLimit) (found : disk.find? (place ++ [name]) = some entry)
    (noLink : ∀ text, entry ≠ .link text) : disk.resolve (path ++ [name]) = .ok (place ++ [name]) := by
  obtain ⟨left, further⟩ := follow_append leads.resolve
  have staying : ¬ (name == ".") = true := by simpa using proper.1
  have upward : ¬ (name == "..") = true := by simpa using proper.2
  rw [Disk.resolve, further]
  refine follow_of_arrived ?_ left
  simp only [advance, leads.directory, if_neg staying, if_neg upward, if_neg (Nat.not_lt.mpr short), found]

theorem Leads.child (leads : disk.Leads path place) (usable : Usable name)
    (found : disk.find? (place ++ [name]) = some .directory) : disk.Leads (path ++ [name]) (place ++ [name]) :=
  ⟨leads.resolve_child usable.proper usable.short found nofun, found⟩

theorem Leads.put (leads : disk.Leads path place) {there : Location} (free : disk.find? there = none)
    (entry : Entry) : (disk.put there entry).Leads path place := by
  have more : ∀ place found, disk.find? place = some found → (disk.put there entry).find? place = some found := by
    intro place found stands
    rwa [find?_put free, if_neg]
    rintro rfl
    cases stands.symm.trans free
  exact ⟨follow_mono more leads.resolve, more _ _ leads.directory⟩

end Leading

section Single

theorem create_cases (valid : validName name = true) (dir : DirectoryNode) (entry : Entry) :
    (∃ why, dir.root.handing (dir.childPath name) (disk.create (dir.childPath name) entry) = .error why) ∨
      dir.Takes [name] ∧ ∃ place, disk.Leads dir.path place ∧ disk.find? (place ++ [name]) = none := by
  cases made : dir.root.handing (dir.childPath name) (disk.create (dir.childPath name) entry) with
  | error why => exact .inl ⟨why, rfl⟩
  | ok after =>
    obtain ⟨short, created⟩ := Root.handing_eq_ok.mp made
    rw [create] at created
    split at created
    · cases created
    · rename_i there reached
      obtain ⟨usable, place, leads, rfl⟩ := leads_of_resolveParent valid reached
      split at created
      · cases created
      · rename_i free
        exact .inr ⟨⟨List.forall_mem_singleton.mpr usable, short⟩, place, leads, free⟩

theorem createSubdirectory_cases (disk : Disk) (dir : DirectoryNode) (name : String) :
    (DirectoryView.direct dir).createSubdirectory disk name = (none, disk) ∨
      dir.Takes [name] ∧ ∃ place, disk.Leads dir.path place ∧ disk.find? (place ++ [name]) = none := by
  cases valid : validName name with
  | false =>
    left
    simp [DirectoryView.createSubdirectory, DirectoryView.direct, Backing.createSubdirectory,
      DirectoryNode.createSubdirectory, valid]
  | true =>
    refine (create_cases valid dir .directory).imp_left ?_
    rintro ⟨why, refused⟩
    simp [DirectoryView.createSubdirectory, DirectoryView.direct, Backing.createSubdirectory,
      DirectoryNode.createSubdirectory, valid, refused]

theorem createFile_cases (disk : Disk) (dir : DirectoryNode) (name : String) :
    (DirectoryView.direct dir).createFile disk name = (none, disk) ∨
      dir.Takes [name] ∧ ∃ place, disk.Leads dir.path place ∧ disk.find? (place ++ [name]) = none := by
  cases valid : validName name with
  | false =>
    left
    simp [DirectoryView.createFile, DirectoryView.direct, Backing.createFile, DirectoryNode.createFile, valid]
  | true =>
    refine (create_cases valid dir (.file [])).imp_left ?_
    rintro ⟨why, refused⟩
    simp [DirectoryView.createFile, DirectoryView.direct, Backing.createFile, DirectoryNode.createFile, valid,
      refused]

theorem create_of_free (leads : disk.Leads dir.path place) (takes : dir.Takes [name])
    (free : disk.find? (place ++ [name]) = none) (entry : Entry) :
    dir.root.handing (dir.childPath name) (disk.create (dir.childPath name) entry) =
      .ok (disk.put (place ++ [name]) entry) := by
  have usable := takes.1 name List.mem_cons_self
  rw [DirectoryNode.childPath, Root.handing_of_admits takes.2, create, leads.resolveParent usable]
  simp only [free, Disk.put]

theorem ensureSubdirectory_of_free (leads : disk.Leads dir.path place) (takes : dir.Takes [name])
    (free : disk.find? (place ++ [name]) = none) :
    (DirectoryView.direct dir).ensureSubdirectory disk name =
      (some (.direct (dir.down [name])), disk.put (place ++ [name]) .directory) := by
  have usable := takes.1 name List.mem_cons_self
  have absent : (DirectoryView.direct dir).subdirectory? disk name = none := by
    simp [DirectoryView.subdirectory?, DirectoryView.direct, Backing.subdirectory?, DirectoryNode.child?,
      DirectoryNode.childPath, Root.entryAt?, entryAt?, leads.resolveParent usable, free]
  rw [DirectoryView.ensureSubdirectory, absent]
  simp [DirectoryView.createSubdirectory, DirectoryView.direct, Backing.createSubdirectory,
    DirectoryNode.createSubdirectory, (usable_iff.mp usable).1, create_of_free leads takes free]
  rfl

theorem createFile_of_free (leads : disk.Leads dir.path place) (takes : dir.Takes [name])
    (free : disk.find? (place ++ [name]) = none) :
    (DirectoryView.direct dir).createFile disk name =
      (some (.direct ⟨dir.root, dir.childPath name⟩), disk.put (place ++ [name]) (.file [])) := by
  have usable := takes.1 name List.mem_cons_self
  simp [DirectoryView.createFile, DirectoryView.direct, FileView.direct, Backing.createFile,
    DirectoryNode.createFile, (usable_iff.mp usable).1, create_of_free leads takes free]

theorem createFile_kept {view : DirectoryView DirectoryNode} (refused : (view.createFile disk name).1 = none) :
    (view.createFile disk name).2 = disk := by
  obtain ⟨dir, readOnly⟩ := view
  cases readOnly with
  | true => rfl
  | false =>
    rcases createFile_cases disk dir name with same | ⟨takes, place, leads, free⟩
    · exact congrArg Prod.snd same
    · cases refused.symm.trans (congrArg Prod.fst (createFile_of_free leads takes free))

theorem subdirectory?_direct {view : DirectoryView DirectoryNode}
    (found : (DirectoryView.direct dir).subdirectory? disk name = some view) :
    view = .direct (dir.down [name]) ∧ dir.Takes [name] := by
  obtain ⟨sub, child, rfl⟩ := Option.map_eq_some_iff.mp found
  obtain ⟨path, here, rfl⟩ := Option.map_eq_some_iff.mp child
  simp only [DirectoryView.direct, DirectoryNode.child?, Option.ite_none_right_eq_some, Bool.and_eq_true,
    Option.some.injEq] at here
  obtain ⟨⟨valid, there⟩, rfl⟩ := here
  obtain ⟨entry, stood, -⟩ := (Option.any_eq_true ..).mp there
  obtain ⟨short, stands⟩ := Root.entryAt?_eq_some.mp stood
  refine ⟨rfl, List.forall_mem_singleton.mpr ?_, short⟩
  rw [entryAt?] at stands
  split at stands
  · rename_i place reached
    exact (leads_of_resolveParent valid reached).1
  · cases stands

theorem ensureSubdirectory_of_not_takes (refused : ¬ dir.Takes [name]) (disk : Disk) :
    (DirectoryView.direct dir).ensureSubdirectory disk name = (none, disk) := by
  have absent : (DirectoryView.direct dir).subdirectory? disk name = none :=
    Option.eq_none_iff_forall_ne_some.mpr fun view found => refused (subdirectory?_direct found).2
  rw [DirectoryView.ensureSubdirectory, absent]
  exact (createSubdirectory_cases disk dir name).resolve_right fun able => refused able.1

end Single

section Ensuring

open DirectoryView (ensureAlong)

theorem ensureAlong_append (front : List String) (view : DirectoryView DirectoryNode) :
    ensureAlong (front ++ rest) disk view =
      match ensureAlong front disk view with
      | (none, after) => (none, after)
      | (some next, after) => ensureAlong rest after next := by
  induction front generalizing disk view with
  | nil => rfl
  | cons name front ih =>
    simp only [List.cons_append, ensureAlong]
    rcases view.ensureSubdirectory disk name with ⟨_ | next, after⟩
    · rfl
    · exact ih next

theorem ensureAlong_of_reached {view last : DirectoryView DirectoryNode}
    (reached : view.descend? disk names = some last) : ensureAlong names disk view = (some last, disk) := by
  induction names generalizing view with
  | nil =>
    cases reached
    rfl
  | cons name rest ih =>
    rw [DirectoryView.descend?, List.foldlM_cons] at reached
    obtain ⟨next, child, further⟩ := Option.bind_eq_some_iff.mp reached
    rw [ensureAlong, DirectoryView.ensureSubdirectory, child]
    exact ih further

theorem put_opens (sound : disk.Sound) (leads : disk.Leads path place) (usable : Usable name)
    (free : disk.find? (place ++ [name]) = none) :
    (disk.put (place ++ [name]) .directory).Sound ∧
      (disk.put (place ++ [name]) .directory).Leads (path ++ [name]) (place ++ [name]) ∧
      (disk.put (place ++ [name]) .directory).Bare (place ++ [name]) := by
  refine ⟨put_sound sound usable.proper leads.directory free _, (leads.put free _).child usable ?_, ?_⟩
  · rw [find?_put free, if_pos rfl]
  · intro rest some_
    rw [find?_put free, if_neg (below_append some_ _).2]
    exact sound.nothing_below some_ (by simp [free])

theorem ensureAlong_of_bare (sound : disk.Sound) (leads : disk.Leads dir.path place) (bare : disk.Bare place)
    (takes : dir.Takes names) :
    ensureAlong names disk (.direct dir) = (some (.direct (dir.down names)), disk.putChain place names) ∧
      (disk.putChain place names).Leads (dir.down names).path (place ++ names) ∧
      (disk.putChain place names).Bare (place ++ names) := by
  induction names generalizing disk dir place with
  | nil =>
    rw [List.append_nil, DirectoryNode.down_nil]
    exact ⟨rfl, leads, bare⟩
  | cons name rest ih =>
    obtain ⟨own, others⟩ := DirectoryNode.takes_cons.mp takes
    have free := bare [name] (by simp)
    obtain ⟨sound', leads', bare'⟩ := put_opens sound leads (own.1 name List.mem_cons_self) free
    rw [ensureAlong, ensureSubdirectory_of_free leads own free, List.append_cons place name rest]
    simpa [putChain] using ih sound' leads' bare' others

theorem Begins.ensureAlong (begins : disk.Begins dir names place made) (sound : disk.Sound) :
    ensureAlong names disk (.direct dir) = (some (.direct (dir.down names)), disk.putChain place made) ∧
      (disk.putChain place made).Leads (dir.down names).path (place ++ made) ∧
      (disk.putChain place made).Bare (place ++ made) := by
  obtain ⟨⟨present, rfl, takes, reached, leads⟩, ⟨name, rest, rfl, free⟩⟩ := begins
  obtain ⟨own, others⟩ := DirectoryNode.takes_cons.mp takes
  obtain ⟨sound', leads', bare'⟩ := put_opens sound leads (own.1 name List.mem_cons_self) free
  rw [ensureAlong_append, ensureAlong_of_reached reached]
  dsimp only
  rw [DirectoryView.ensureAlong, ensureSubdirectory_of_free leads own free, List.append_cons place name rest]
  simpa [putChain] using ensureAlong_of_bare sound' leads' bare' others

theorem Begins.cons_present (begins : disk.Begins (dir.down [name]) rest place made)
    (found : (DirectoryView.direct dir).subdirectory? disk name = some (.direct (dir.down [name]))) :
    disk.Begins dir (name :: rest) place made := by
  obtain ⟨⟨present, rfl, takes, reached, leads⟩, missing⟩ := begins
  rw [DirectoryNode.down_down, List.singleton_append] at takes reached leads
  refine ⟨⟨name :: present, rfl, takes, ?_, leads⟩, missing⟩
  rw [DirectoryView.descend?, List.foldlM_cons, found]
  exact reached

/-- A way is followed without a change, or refused without one, unless a missing directory on it can be made. -/
theorem ensureAlong_cases (disk : Disk) (dir : DirectoryNode) (names : List String) :
    (∃ found, ensureAlong names disk (.direct dir) = (found, disk)) ∨
      (∃ place made, disk.Begins dir names place made) ∨ ∃ place made, disk.Strands dir names place made := by
  induction names generalizing dir with
  | nil => exact .inl ⟨_, rfl⟩
  | cons name rest ih =>
    rw [ensureAlong, DirectoryView.ensureSubdirectory]
    cases found : (DirectoryView.direct dir).subdirectory? disk name with
    | some view =>
      obtain ⟨rfl, -⟩ := subdirectory?_direct found
      rcases ih (dir.down [name]) with kept | ⟨place, made, begins⟩ |
        ⟨place, made, front, last, others, rfl, begins, refused⟩
      · exact .inl kept
      · exact .inr (.inl ⟨place, made, begins.cons_present found⟩)
      · rw [DirectoryNode.down_down] at refused
        exact .inr (.inr ⟨place, made, name :: front, last, others, rfl, begins.cons_present found, refused⟩)
    | none =>
      rcases createSubdirectory_cases disk dir name with refused | ⟨own, place, leads, free⟩
      · exact .inl ⟨none, by rw [refused]⟩
      · -- the directory can be made, and the names after it decide how far the way is made
        right
        have begun : ∀ more, (dir.down [name]).Takes more → disk.Begins dir (name :: more) place (name :: more) := by
          intro more takes
          refine ⟨⟨[], rfl, ?_, ?_, ?_⟩, name, more, rfl, free⟩
          all_goals rw [DirectoryNode.down_nil]
          · exact DirectoryNode.takes_cons.mpr ⟨own, takes⟩
          · rfl
          · exact leads
        by_cases takes : (dir.down [name]).Takes rest
        · exact .inl ⟨place, _, begun rest takes⟩
        · obtain ⟨front, bad, more, rfl, fine, refused⟩ := DirectoryNode.exists_not_takes own.2 takes
          rw [DirectoryNode.down_down] at refused
          exact .inr ⟨place, _, name :: front, bad, more, rfl, begun front fine, refused⟩

theorem Strands.ensureAlong (strands : disk.Strands dir names place made) (sound : disk.Sound) :
    ensureAlong names disk (.direct dir) = (none, disk.putChain place made) := by
  obtain ⟨front, name, rest, rfl, begins, refused⟩ := strands
  obtain ⟨run, -, -⟩ := begins.ensureAlong sound
  rw [ensureAlong_append, run]
  dsimp only
  rw [DirectoryView.ensureAlong, ensureSubdirectory_of_not_takes refused]

theorem length_entries_putChain (disk : Disk) (place : Location) (names : List String) :
    (disk.putChain place names).entries.length = disk.entries.length + names.length := by
  induction names generalizing disk place with
  | nil => rfl
  | cons name rest ih =>
    rw [putChain, ih, Disk.put, List.length_append, List.length_singleton, List.length_cons]
    omega

theorem Begins.putChain_ne (begins : disk.Begins dir names place made) : disk.putChain place made ≠ disk := by
  obtain ⟨name, rest, rfl, -⟩ := begins.missing
  intro same
  have longer := length_entries_putChain disk place (name :: rest)
  rw [same] at longer
  simp at longer

end Ensuring

section Climbing

theorem exists_top (disk : Disk) (dir : DirectoryNode) :
    ∃ top : DirectoryNode, top.parent? = none ∧ top.root = dir.root ∧ top.path <+: dir.path ∧
      (DirectoryView.direct dir).top disk = .direct top := by
  suffices climbed : ∀ steps (dir : DirectoryNode), dir.path.length ≤ steps →
      ∃ top : DirectoryNode, top.parent? = none ∧ top.root = dir.root ∧ top.path <+: dir.path ∧
        (DirectoryView.direct dir).climb disk steps = .direct top from
    climbed _ dir (by simp [Backing.reach, DirectoryView.direct]; omega)
  intro steps
  induction steps with
  | zero =>
    intro dir short
    have bare := List.length_eq_zero_iff.mp (Nat.le_zero.mp short)
    exact ⟨dir, by simp [DirectoryNode.parent?, bare], rfl, List.prefix_rfl, rfl⟩
  | succ steps ih =>
    intro dir short
    have step : (DirectoryView.direct dir).parent? disk = dir.parent?.map .direct := rfl
    rw [DirectoryView.climb, step]
    cases parent : dir.parent? with
    | none => exact ⟨dir, parent, rfl, List.prefix_rfl, rfl⟩
    | some above =>
      rw [DirectoryNode.parent?] at parent
      split at parent
      · cases parent
      · cases parent
        obtain ⟨top, root, same, before, climbed⟩ := ih ⟨dir.root, dir.path.dropLast⟩
          (by rw [List.length_dropLast]; omega)
        exact ⟨top, root, same, before.trans (List.dropLast_prefix _), climbed⟩

end Climbing

end Disk

/-- What creating along a path leaves on a host: when it fails nothing is different, unless the path comes to a name
    that no host takes, or becomes too long, behind directories that it made. These stay. -/
structure Creates {α : Type} (disk : Disk) (dir : DirectoryNode) (path : String) (outcome : Option α × Disk) :
    Prop where
  kept_iff : (outcome.1 = none → outcome.2 = disk) ↔ ∀ place made, ¬ disk.Strands dir (Path.components path) place made
  stranded : ∀ place made, disk.Strands dir (Path.components path) place made →
    outcome = (none, disk.putChain place made)

section Creating

variable {disk : Disk} {dir : DirectoryNode} {path : String}

open Disk (Strands Begins)

theorem creates_of_stranded {α : Type} {outcome : Option α × Disk}
    (stranded : ∀ place made, disk.Strands dir (Path.components path) place made →
      outcome = (none, disk.putChain place made))
    (kept : (∀ place made, ¬ disk.Strands dir (Path.components path) place made) → outcome.1 = none →
      outcome.2 = disk) : Creates disk dir path outcome := by
  refine ⟨⟨fun all place made strands => ?_, kept⟩, stranded⟩
  have left := stranded place made strands
  obtain ⟨front, name, rest, -, begins, -⟩ := strands
  rw [left] at all
  exact begins.putChain_ne (all rfl)

theorem createDirectoryAt_creates (sound : disk.Sound) (dir : DirectoryNode) (path : String) :
    Creates disk dir path ((DirectoryView.direct dir).createDirectoryAt disk path) := by
  rw [DirectoryView.createDirectoryAt_eq rfl]
  apply creates_of_stranded
  · intro place made strands
    have proper : Path.components path ≠ [] := by
      obtain ⟨front, name, rest, parts, -⟩ := strands
      simp [parts]
    rw [if_neg proper, strands.ensureAlong sound]
  · intro safe refused
    by_cases bare : Path.components path = []
    · rw [if_pos bare]
    · rw [if_neg bare] at refused ⊢
      rcases Disk.ensureAlong_cases disk dir (Path.components path) with
        ⟨found, run⟩ | ⟨place, made, begins⟩ | ⟨place, made, strands⟩
      · rw [run]
      · rw [(begins.ensureAlong sound).1] at refused
        cases refused
      · exact absurd strands (safe place made)

theorem createFileAt_creates (sound : disk.Sound) (dir : DirectoryNode) (path : String) :
    Creates disk dir path ((DirectoryView.direct dir).createFileAt disk path) := by
  rcases List.eq_nil_or_concat' (Path.components path) with bare | ⟨front, last, parts⟩
  · rw [DirectoryView.createFileAt_of_nil rfl bare]
    apply creates_of_stranded
    · rintro place made ⟨before, name, rest, parts, -⟩
      simp [bare] at parts
    · exact fun _ _ => rfl
  rw [DirectoryView.createFileAt_of_concat rfl parts]
  apply creates_of_stranded
  · rintro place made ⟨before, name, rest, whole, begins, blocked⟩
    rw [parts] at whole
    rcases List.eq_nil_or_concat' rest with rfl | ⟨between, other, rfl⟩
    · -- what no host takes is the path of the file
      obtain ⟨rfl, same⟩ := List.append_inj' whole rfl
      obtain rfl := (List.cons.inj same).1
      rw [(begins.ensureAlong sound).1]
      exact (Disk.createFile_cases _ (dir.down front) last).resolve_right fun able => blocked able.1
    · have shorter : front = before ++ name :: between := by
        rw [← List.cons_append, ← List.append_assoc] at whole
        exact (List.append_inj' whole rfl).1
      have strands : disk.Strands dir front place made := ⟨before, name, between, shorter, begins, blocked⟩
      rw [strands.ensureAlong sound]
  · intro safe refused
    rcases Disk.ensureAlong_cases disk dir front with
      ⟨_ | holder, run⟩ | ⟨place, made, begins⟩ | ⟨place, made, before, name, rest, rfl, begins, blocked⟩
    · rw [run]
    · rw [run] at refused ⊢
      exact Disk.createFile_kept refused
    · by_cases takes : (dir.down front).Takes [last]
      · obtain ⟨run, leads, bare⟩ := begins.ensureAlong sound
        rw [run] at refused
        cases refused.symm.trans (congrArg Prod.fst (Disk.createFile_of_free leads takes (bare [last] (by simp))))
      · exact absurd ⟨front, last, [], parts, begins, takes⟩ (safe place made)
    · exact absurd ⟨before, name, rest ++ [last], by simp [parts], begins, blocked⟩ (safe place made)

/-- A creation that fails leaves a host as it was exactly if the path comes to no name that hosts refuse, and does
    not become too long, behind directories that were missing; what was made of these stays. From the top, a path is
    followed as it is below the topmost directory of the tree. -/
theorem creation_kept_iff (disk : Disk) (sound : disk.Sound) (dir : DirectoryNode) (path : String) :
    Creates disk dir path ((DirectoryView.direct dir).createDirectoryAt disk path) ∧
      Creates disk dir path ((DirectoryView.direct dir).createFileAt disk path) ∧
      ∃ top : DirectoryNode, top.parent? = none ∧ top.root = dir.root ∧ top.path <+: dir.path ∧
        Creates disk top path ((DirectoryView.direct dir).createDirectoryFromTop disk path) ∧
        Creates disk top path ((DirectoryView.direct dir).createFileFromTop disk path) := by
  obtain ⟨top, root, same, before, climbed⟩ := disk.exists_top dir
  refine ⟨createDirectoryAt_creates sound dir path, createFileAt_creates sound dir path, top, root, same, before,
    ?_, ?_⟩
  · rw [DirectoryView.createDirectoryFromTop, climbed]
    exact createDirectoryAt_creates sound top path
  · rw [DirectoryView.createFileFromTop, climbed]
    exact createFileAt_creates sound top path

def corner : Disk := ⟨[(["r"], .directory), (["r", "f"], .file [1]), (["r", "l"], .link "f")]⟩

def cornerRoot : Root := ⟨["r"], 4095, 1000⟩

def narrowRoot : Root := ⟨["r"], 8, 1000⟩

theorem corner_keeps :
    (DirectoryView.direct ⟨cornerRoot, ["r"]⟩).createDirectoryAt corner "new/.." =
        (none, corner.put ["r", "new"] .directory) ∧
      (DirectoryView.direct ⟨narrowRoot, ["r"]⟩).createFileAt corner "new/bb" =
        (none, corner.put ["r", "new"] .directory) ∧
      (∃ place made, corner.Strands ⟨cornerRoot, ["r"]⟩ (Path.components "a/b\\./c") place made) ∧
      ∀ place made, ¬ corner.Strands ⟨cornerRoot, ["r"]⟩ (Path.components "l/new/..") place made := by
  have sound : corner.Sound := by refine ⟨?_, ?_, ?_, ?_⟩ <;> decide +kernel
  have below := creation_kept_iff corner sound ⟨cornerRoot, ["r"]⟩
  have parts : Path.components "new/.." = ["new", ".."] ∧ Path.components "new/bb" = ["new", "bb"] := by decide +kernel
  have begins : ∀ root, root.admits ["r", "new"] = true → corner.Begins ⟨root, ["r"]⟩ ["new"] ["r"] ["new"] := by
    intro root short
    have leads : corner.resolve ["r"] = .ok ["r"] := by decide +kernel
    refine ⟨⟨[], rfl, ⟨?_, short⟩, rfl, leads, ?_⟩, "new", [], rfl, ?_⟩
    · exact List.forall_mem_singleton.mpr (usable_iff.mpr (by decide +kernel))
    all_goals decide +kernel
  have upward : corner.Strands ⟨cornerRoot, ["r"]⟩ (Path.components "new/..") ["r"] ["new"] :=
    ⟨["new"], "..", [], parts.1, begins _ (by decide +kernel), fun takes =>
      (takes.1 ".." List.mem_cons_self).proper.2 rfl⟩
  have long : corner.Strands ⟨narrowRoot, ["r"]⟩ (Path.components "new/bb") ["r"] ["new"] :=
    ⟨["new"], "bb", [], parts.2, begins _ (by decide +kernel), fun takes => absurd takes.2 (by decide +kernel)⟩
  refine ⟨(below _).1.stranded _ _ upward, ?_, ?_, (below _).1.kept_iff.mp (by decide +kernel)⟩
  · exact (creation_kept_iff corner sound ⟨narrowRoot, ["r"]⟩ _).2.1.stranded _ _ long
  by_contra safe
  push Not at safe
  exact absurd ((below _).2.1.kept_iff.mpr safe) (by decide +kernel)

end Creating

end GuestStorage.Host
