import GuestStorage.Proofs.Memory.Build
import GuestStorage.Proofs.Memory.Depth
import GuestStorage.Proofs.Memory.Stored
import GuestStorage.Proofs.Tree.Attempts

namespace GuestStorage.Memory

open GuestStorage.Tree Node

namespace Store

inductive AddsChain : Store → DirectoryId → List String → Store → DirectoryId → Prop
  | nil {s : Store} {dir : DirectoryId} : AddsChain s dir [] s dir
  | cons {s s' s'' : Store} {dir sub last : DirectoryId} {name : String} {rest : List String}
      (free : name ∉ s.childNames dir) (adds : s.AddsDirectory s' dir sub name)
      (others : AddsChain s' sub rest s'' last) : AddsChain s dir (name :: rest) s'' last

/-- A way whose first part was there leads to a directory, and the directories of its other part are new. -/
def Extends (s s' : Store) (dir : DirectoryId) (names : List String) (last : DirectoryId) : Prop :=
  ∃ present missing holder, names = present ++ missing ∧
    (Node.directory dir).descend? s present = some (.directory holder) ∧ AddsChain s holder missing s' last

def Makeable (s : Store) (dir : DirectoryId) (names : List String) : Prop :=
  ∀ front name rest holder, names = front ++ name :: rest →
    (Node.directory dir).descend? s front = some (.directory holder) → s.subdirectory? holder name = none →
      s.directoryWritable holder = true ∧ s.file? holder name = none

variable {s s' : Store} {dir sub last : DirectoryId} {name : String} {names rest : List String}

section Making

theorem makeable_nil : s.Makeable dir [] := by
  intro front name rest holder parts
  simp at parts

theorem makeable_cons_of_present (found : s.subdirectory? dir name = some sub) :
    s.Makeable dir (name :: rest) ↔ s.Makeable sub rest := by
  have child := child?_directory_eq_some.mpr found
  constructor
  · intro makeable front wanted others holder parts reached
    refine makeable (name :: front) wanted others holder (by rw [parts]; rfl) ?_
    rw [descend?_cons, child]
    exact reached
  · intro makeable front wanted others holder parts reached missing
    cases front with
    | nil =>
      obtain ⟨rfl, rfl⟩ := List.cons.inj parts
      cases reached
      cases found.symm.trans missing
    | cons first front =>
      obtain ⟨rfl, others⟩ := List.cons.inj parts
      rw [descend?_cons, child] at reached
      exact makeable front wanted _ holder others reached missing

theorem makeable_cons_of_missing (missing : s.subdirectory? dir name = none) :
    s.Makeable dir (name :: rest) ↔ s.directoryWritable dir = true ∧ s.file? dir name = none := by
  constructor
  · exact fun makeable => makeable [] name rest dir rfl rfl missing
  · rintro free front wanted others holder parts reached -
    cases front with
    | nil =>
      obtain ⟨rfl, rfl⟩ := List.cons.inj parts
      cases reached
      exact free
    | cons first front =>
      obtain ⟨rfl, -⟩ := List.cons.inj parts
      rw [descend?_cons, Option.bind_eq_some_iff] at reached
      obtain ⟨next, child, further⟩ := reached
      cases next with
      | directory inner => cases missing.symm.trans (child?_directory_eq_some.mp child)
      | file file => cases front <;> cases further

theorem acceptsChild_iff (named : name ≠ "") (missing : s.subdirectory? dir name = none) :
    s.acceptsChild dir name = true ↔ s.directoryWritable dir = true ∧ s.file? dir name = none := by
  simp [acceptsChild, hasChild, missing, named]

end Making

section Chains

theorem AddsChain.sound (chain : s.AddsChain dir names s' last) (sound : s.Sound) : s'.Sound := by
  induction chain with
  | nil => exact sound
  | cons free adds _ ih => exact ih (adds.sound sound free)

theorem AddsChain.grows (chain : s.AddsChain dir names s' last) (sound : s.Sound) :
    Grows s s' (.directory dir) := by
  induction chain with
  | nil => exact Grows.refl _ sound _
  | cons free adds _ ih => exact (adds_directory adds).grows_below sound (ih (adds.sound sound free))

theorem AddsChain.reached (chain : s.AddsChain dir names s' last) (sound : s.Sound) :
    (Node.directory dir).descend? s' names = some (.directory last) := by
  induction chain with
  | nil => rfl
  | @cons s s' s'' dir sub last name rest free adds others ih =>
    have sound' := adds.sound sound free
    have child : (Node.directory dir).child? s' name = some (.directory sub) := by
      rw [child?_directory_eq_some, sound'.subdirectory?_eq_some, adds.subdirectories, adds.directoryName]
      simp
    rw [descend?_cons, (others.grows sound').child?_of_some sound' (others.sound sound') child]
    exact ih sound'

theorem AddsChain.accepts (chain : s.AddsChain dir names s' last) (some_ : names ≠ []) (named : name ≠ "") :
    s'.acceptsChild last name = true := by
  induction chain with
  | nil => exact absurd rfl some_
  | @cons s s' s'' dir sub last called rest free adds others ih =>
    cases others with
    | nil =>
      have bare := adds.directoryNode sub
      rw [if_pos rfl] at bare
      simp [acceptsChild, Store.directoryWritable, hasChild, Store.file?, Store.subdirectory?, Store.files,
        Store.subdirectories, bare, named]
    | cons free' adds' others' => exact ih (by simp)

theorem Extends.sound (extends_ : s.Extends s' dir names last) (sound : s.Sound) : s'.Sound := by
  obtain ⟨present, missing, holder, -, -, chain⟩ := extends_
  exact chain.sound sound

theorem Extends.reached (extends_ : s.Extends s' dir names last) (sound : s.Sound) :
    (Node.directory dir).descend? s' names = some (.directory last) := by
  obtain ⟨present, missing, holder, rfl, before, chain⟩ := extends_
  rw [descend?_append, (chain.grows sound).descend? sound (chain.sound sound) before]
  exact chain.reached sound

theorem Extends.cases (extends_ : s.Extends s' dir names last) (named : name ≠ "") :
    (s' = s ∧ (Node.directory dir).descend? s names = some (.directory last)) ∨
      s'.acceptsChild last name = true := by
  obtain ⟨present, missing, holder, rfl, before, chain⟩ := extends_
  cases missing with
  | nil =>
    cases chain
    exact .inl ⟨rfl, by rw [List.append_nil]; exact before⟩
  | cons first rest => exact .inr (chain.accepts (by simp) named)

theorem Extends.cons_present (extends_ : s.Extends s' sub rest last)
    (found : s.subdirectory? dir name = some sub) : s.Extends s' dir (name :: rest) last := by
  obtain ⟨present, missing, holder, rfl, before, chain⟩ := extends_
  refine ⟨name :: present, missing, holder, rfl, ?_, chain⟩
  rw [descend?_cons, child?_directory_eq_some.mpr found]
  exact before

end Chains

section Ensuring

open DirectoryView (ensureAlong)

theorem ensureAlong_of_reached (reached : (Node.directory dir).descend? s names = some (.directory last)) :
    ensureAlong names s (DirectoryView.direct dir) = (some (.direct last), s) := by
  induction names generalizing dir with
  | nil =>
    cases reached
    rfl
  | cons name rest ih =>
    rw [descend?_cons, Option.bind_eq_some_iff] at reached
    obtain ⟨next, child, further⟩ := reached
    cases next with
    | file file => cases rest <;> cases further
    | directory sub =>
      have found : (DirectoryView.direct dir).subdirectory? s name = some (.direct sub) := by
        rw [direct_subdirectory?, store_self, child?_directory_eq_some.mp child]
        rfl
      rw [ensureAlong, DirectoryView.ensureSubdirectory, found]
      exact ih further

theorem makeable_of_accepts (accepts : ∀ name, name ≠ "" → s.acceptsChild dir name = true)
    (named : ∀ name ∈ names, name ≠ "") : s.Makeable dir names := by
  cases names with
  | nil => exact makeable_nil
  | cons name rest =>
    have accepts := accepts name (named name List.mem_cons_self)
    have missing : s.subdirectory? dir name = none := by
      simp only [acceptsChild, hasChild, Bool.and_eq_true, Bool.not_eq_true', Bool.or_eq_false_iff,
        Option.isSome_eq_false_iff, Option.isNone_iff_eq_none] at accepts
      exact accepts.2.2
    exact (makeable_cons_of_missing missing).mpr
      ((acceptsChild_iff (named name List.mem_cons_self) missing).mp accepts)

theorem ensureAlong_cases (sound : s.Sound) (dir : DirectoryId) (named : ∀ name ∈ names, name ≠ "") :
    (¬ s.Makeable dir names ∧ ensureAlong names s (DirectoryView.direct dir) = (none, s)) ∨
    s.Makeable dir names ∧ ∃ last s', ensureAlong names s (DirectoryView.direct dir) = (some (.direct last), s') ∧
      s.Extends s' dir names last := by
  induction names generalizing s dir with
  | nil => exact .inr ⟨makeable_nil, dir, s, rfl, [], [], dir, rfl, rfl, .nil⟩
  | cons name rest ih =>
    have here := named name List.mem_cons_self
    have others := fun other listed => named other (List.mem_cons_of_mem name listed)
    rw [ensureAlong, DirectoryView.ensureSubdirectory, direct_subdirectory?, store_self]
    cases found : s.subdirectory? dir name with
    | some sub =>
      rw [makeable_cons_of_present found]
      rcases ih sound sub others with ⟨blocked, run⟩ | ⟨makeable, last, s', run, extends_⟩
      · exact .inl ⟨blocked, run⟩
      · exact .inr ⟨makeable, last, s', run, extends_.cons_present found⟩
    | none =>
      rw [makeable_cons_of_missing found, ← acceptsChild_iff here found]
      cases accepts : s.acceptsChild dir name with
      | false =>
        refine .inl ⟨Bool.false_ne_true, ?_⟩
        simp [DirectoryView.createSubdirectory, DirectoryView.direct, Backing.createSubdirectory,
          createSubdirectory_refused accepts]
      | true =>
        obtain ⟨sub, s₁, made, adds⟩ := createSubdirectory_adds accepts
        have free := free_of_accepts accepts
        have one : s.AddsChain dir [name] s₁ sub := .cons free adds .nil
        have open' : ∀ wanted, wanted ≠ "" → s₁.acceptsChild sub wanted = true := fun _ => one.accepts (by simp)
        have made : (DirectoryView.direct dir).createSubdirectory s name = (some (.direct sub), s₁) := by
          simp [DirectoryView.createSubdirectory, DirectoryView.direct, Backing.createSubdirectory, made]
        rcases ih (one.sound sound) sub others with ⟨blocked, -⟩ | ⟨-, last, s', run, extends_⟩
        · exact absurd (makeable_of_accepts open' others) blocked
        · refine .inr ⟨rfl, last, s', by rw [Option.map_none, made]; exact run, ?_⟩
          obtain ⟨present, missing, holder, rfl, before, chain⟩ := extends_
          cases present with
          | nil =>
            cases before
            exact ⟨[], name :: missing, dir, rfl, rfl, .cons free adds chain⟩
          | cons wanted present =>
            have absent := child?_eq_none_iff.mpr (free_of_accepts (open' wanted (others _ List.mem_cons_self)))
            rw [descend?_cons, absent] at before
            cases before

end Ensuring

section Climbing

theorem climb_of_reached {top : DirectoryId} {steps : Nat} (sound : s.Sound) (root : s.directoryParent? top = none)
    (reached : (Node.directory top).descend? s names = some (.directory dir)) (enough : names.length ≤ steps) :
    (DirectoryView.direct dir).climb s steps = .direct top := by
  induction names using List.reverseRecOn generalizing dir steps with
  | nil =>
    cases reached
    cases steps with
    | zero => rfl
    | succ steps => simp [DirectoryView.climb, DirectoryView.parent?, DirectoryView.direct, Backing.parent?, root]
  | append_singleton front name ih =>
    obtain ⟨holder, before, owned, -⟩ := sound.descend?_concat_eq_some.mp reached
    obtain ⟨parent, parent?, rfl⟩ := Option.map_eq_some_iff.mp owned
    rw [List.length_append, List.length_singleton] at enough
    cases steps with
    | zero => omega
    | succ steps =>
      have next : (DirectoryView.direct dir).parent? s = some (.direct parent) := by
        simp [DirectoryView.parent?, DirectoryView.direct, Backing.parent?, parent?]
      rw [DirectoryView.climb, next]
      exact ih before (by omega)

theorem Sound.exists_top_direct (sound : s.Sound) (dir : DirectoryId) :
    ∃ top, s.directoryParent? top = none ∧ Within s (.directory top) (.directory dir) ∧
      (DirectoryView.direct dir).top s = .direct top := by
  obtain ⟨top, path, root, reached⟩ := sound.exists_top (.directory dir)
  cases top with
  | file file => cases path <;> cases reached
  | directory top =>
    have root : s.directoryParent? top = none := Option.map_eq_none_iff.mp root
    exact ⟨top, root, ⟨path, reached⟩, climb_of_reached sound root reached (sound.length_lt_reach reached).le⟩

end Climbing

end Store

/-- What creating the directory of a path does, below a directory. -/
structure CreatesDirectory (s : Store) (dir : DirectoryId) (path : String)
    (outcome : Option (DirectoryView DirectoryId) × Store) : Prop where
  isSome_iff : outcome.1.isSome ↔ Path.components path ≠ [] ∧ s.Makeable dir (Path.components path)
  refused : outcome.1 = none → outcome.2 = s
  made : ∀ found, outcome.1 = some found →
    (∃ last, found = .direct last ∧ s.Extends outcome.2 dir (Path.components path) last) ∧
      (DirectoryView.direct dir).directoryAt? outcome.2 path = some found ∧
      (DirectoryView.direct dir).createDirectoryAt outcome.2 path = (some found, outcome.2)

/-- What creating the file of a path does, below a directory. -/
structure CreatesFile (s : Store) (dir : DirectoryId) (path : String)
    (outcome : Option (FileView FileId) × Store) : Prop where
  isSome_iff : outcome.1.isSome ↔ ∃ front last, Path.components path = front ++ [last] ∧ s.Makeable dir front ∧
    ∀ holder, (Node.directory dir).descend? s front = some (.directory holder) →
      s.directoryWritable holder = true ∧ s.hasChild holder last = false
  refused : outcome.1 = none → outcome.2 = s
  made : ∀ found, outcome.1 = some found →
    (∃ front last between holder file, Path.components path = front ++ [last] ∧ found = .direct file ∧
      s.Extends between dir front holder ∧ last ∉ between.childNames holder ∧
      between.AddsFile outcome.2 holder file last [] true) ∧
      (DirectoryView.direct dir).fileAt? outcome.2 path = some found

section Creating

variable {s : Store} {dir : DirectoryId} {path : String}

theorem createDirectoryAt_creates (sound : s.Sound) (dir : DirectoryId) (path : String) :
    CreatesDirectory s dir path ((DirectoryView.direct dir).createDirectoryAt s path) := by
  have named : ∀ name ∈ Path.components path, name ≠ "" := fun _ listed => (Path.isName_of_mem_components listed).1
  rw [DirectoryView.createDirectoryAt_eq rfl]
  by_cases bare : Path.components path = []
  · rw [if_pos bare]
    exact ⟨by simp [bare], fun _ => rfl, fun _ found => nomatch found⟩
  · rw [if_neg bare]
    rcases Store.ensureAlong_cases sound dir named with ⟨blocked, run⟩ | ⟨makeable, last, s', run, extends_⟩
    · rw [run]
      exact ⟨by simp [blocked], fun _ => rfl, fun _ found => nomatch found⟩
    · rw [run]
      have reached := extends_.reached sound
      refine ⟨by simp [bare, makeable], (fun refused => nomatch refused), ?_⟩
      rintro found ⟨⟩
      refine ⟨⟨last, rfl, extends_⟩, (direct_descend?_eq_some s').mpr ⟨last, rfl, reached⟩, ?_⟩
      rw [DirectoryView.createDirectoryAt_eq rfl, if_neg bare, Store.ensureAlong_of_reached reached]

theorem fileAt?_of_added {front : List String} {last : String} {holder : DirectoryId} {file : FileId} {after : Store}
    (sound : s.Sound) (parts : Path.components path = front ++ [last])
    (reached : (Node.directory dir).descend? s front = some (.directory holder)) (free : last ∉ s.childNames holder)
    (adds : s.AddsFile after holder file last [] true) :
    (DirectoryView.direct dir).fileAt? after path = some (.direct file) := by
  have sound' := adds.sound sound free
  have still := ((adds_file adds).grows sound).descend? sound sound' reached
  have there : after.file? holder last = some file :=
    sound'.file?_eq_some.mpr (by simp [adds.files, adds.fileName])
  have arrived : (DirectoryView.direct dir).descend? after front = some (.direct holder) :=
    (direct_descend?_eq_some after).mpr ⟨holder, rfl, still⟩
  simp only [DirectoryView.fileAt?, parts, List.getLast?_concat, List.dropLast_concat, Option.bind_some, arrived,
    direct_file?, store_self, there, Option.map_some]

theorem createFileAt_creates (sound : s.Sound) (dir : DirectoryId) (path : String) :
    CreatesFile s dir path ((DirectoryView.direct dir).createFileAt s path) := by
  rcases List.eq_nil_or_concat' (Path.components path) with bare | ⟨front, last, parts⟩
  · rw [DirectoryView.createFileAt_of_nil rfl bare]
    exact ⟨by simp [bare], fun _ => rfl, by simp⟩
  have named : ∀ name ∈ front ++ [last], name ≠ "" := fun _ listed =>
    (Path.isName_of_mem_components (parts ▸ listed)).1
  have proper := named last (by simp)
  rw [DirectoryView.createFileAt_of_concat rfl parts]
  rcases Store.ensureAlong_cases sound dir fun name listed => named name (List.mem_append_left _ listed) with
    ⟨blocked, run⟩ | ⟨makeable, holder, between, run, extends_⟩
  · rw [run]
    refine ⟨iff_of_false (by simp) ?_, fun _ => rfl, by simp⟩
    rintro ⟨front', last', same, makeable, -⟩
    obtain ⟨rfl, -⟩ := List.append_inj' (parts.symm.trans same) rfl
    exact blocked makeable
  · rw [run]
    cases accepts : between.acceptsChild holder last with
    | false =>
      obtain ⟨rfl, reached⟩ := (extends_.cases proper).resolve_right (by simp [accepts])
      have refused : (DirectoryView.direct holder).createFile between last = (none, between) := by
        simp [DirectoryView.createFile, DirectoryView.direct, Backing.createFile, Store.createFile_refused accepts]
      simp only [refused]
      refine ⟨iff_of_false (by simp) ?_, fun _ => rfl, by simp⟩
      rintro ⟨front', last', same, -, willing⟩
      obtain ⟨rfl, named⟩ := List.append_inj' (parts.symm.trans same) rfl
      obtain rfl := (List.cons.inj named).1
      obtain ⟨writable, free⟩ := willing holder reached
      simp [Store.acceptsChild, writable, free, proper] at accepts
    | true =>
      obtain ⟨file, after, created, adds⟩ := Store.createFile_adds accepts
      have made : (DirectoryView.direct holder).createFile between last = (some (.direct file), after) := by
        simp [DirectoryView.createFile, DirectoryView.direct, Backing.createFile, created]
      have free := Store.free_of_accepts accepts
      simp only [made]
      refine ⟨iff_of_true rfl ⟨front, last, parts, makeable, fun other reached => ?_⟩,
        by simp, ?_⟩
      · -- a way that is there is followed, so the file stands in the directory at its end
        rw [Store.ensureAlong_of_reached reached] at run
        cases run
        simpa [Store.acceptsChild, proper] using accepts
      · rintro found ⟨⟩
        exact ⟨⟨front, last, between, holder, file, parts, rfl, extends_, free, adds⟩,
          fileAt?_of_added (extends_.sound sound) parts (extends_.reached sound) free adds⟩

/-- Creating along a path makes what is missing if nothing is in the way, and otherwise makes nothing. From the
    top, a path is followed as it is below the topmost directory. -/
theorem creation_exact (s : Store) (sound : s.Sound) (dir : DirectoryId) (path : String) :
    CreatesDirectory s dir path ((DirectoryView.direct dir).createDirectoryAt s path) ∧
      CreatesFile s dir path ((DirectoryView.direct dir).createFileAt s path) ∧
      ∃ top, s.directoryParent? top = none ∧ Within s (.directory top) (.directory dir) ∧
        (DirectoryView.direct dir).createDirectoryFromTop s path =
          (DirectoryView.direct top).createDirectoryAt s path ∧
        (DirectoryView.direct dir).createFileFromTop s path = (DirectoryView.direct top).createFileAt s path := by
  obtain ⟨top, root, within, climbed⟩ := sound.exists_top_direct dir
  refine ⟨createDirectoryAt_creates sound dir path, createFileAt_creates sound dir path, top, root, within, ?_, ?_⟩
  · rw [DirectoryView.createDirectoryFromTop, climbed]
  · rw [DirectoryView.createFileFromTop, climbed]

def lockedShelf : Store :=
  (Store.empty.plant "root" false [.directory "a" [.file "f" [1] false] false, .directory "r" [] true]).2

theorem lockedShelf_creates :
    lockedShelf.Makeable ⟨0⟩ ["a", "x", "y"] ∧ ¬ lockedShelf.Makeable ⟨0⟩ ["a", "f", "y"] ∧
      ((DirectoryView.direct ⟨0⟩).createDirectoryAt lockedShelf "/r\\x").2 = lockedShelf ∧
      ∃ file, (DirectoryView.direct ⟨1⟩).fileAt?
        ((DirectoryView.direct ⟨1⟩).createFileAt lockedShelf "x/g").2 "x/g" = some (.direct file) := by
  have sound : lockedShelf.Sound := Store.plant_sound Store.empty_sound _ _ _
  have below := creation_exact lockedShelf sound ⟨0⟩
  have cut : Path.components "a/x/y" = ["a", "x", "y"] := by decide +kernel
  have cut' : Path.components "a/f/y" = ["a", "f", "y"] := by decide +kernel
  refine ⟨?_, ?_, (below _).1.refused (by decide +kernel), ?_⟩
  · exact cut ▸ ((below "a/x/y").1.isSome_iff.mp (by decide +kernel)).2
  · intro makeable
    have made := (below "a/f/y").1.isSome_iff.mpr ⟨by rw [cut']; simp, cut' ▸ makeable⟩
    exact absurd made (by decide +kernel)
  · have files := (creation_exact lockedShelf sound ⟨1⟩ "x/g").2.1
    obtain ⟨found, created⟩ := Option.isSome_iff_exists.mp
      (by decide +kernel : ((DirectoryView.direct ⟨1⟩).createFileAt lockedShelf "x/g").1.isSome)
    obtain ⟨⟨_, _, _, _, file, -, rfl, -⟩, there⟩ := files.made found created
    exact ⟨file, there⟩

end Creating

end GuestStorage.Memory
