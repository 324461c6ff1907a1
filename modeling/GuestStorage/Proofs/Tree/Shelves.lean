import GuestStorage.Proofs.Tree.Ground
import Mathlib.Data.List.Basic

namespace GuestStorage.Tree

variable {σ F D : Type} [Backing σ F D] {root : DirectoryView D}

def Along (names rest others : List String) : Prop :=
  ∃ front, front <+: rest ∧ front ≠ [] ∧ others = names ++ front

def Inside (names rest others : List String) : Prop :=
  ∃ front, front <+: rest ∧ front ≠ [] ∧ front ≠ rest ∧ others = names ++ front

theorem Inside.along {names rest others : List String} (inside : Inside names rest others) : Along names rest others := by
  obtain ⟨front, short, proper, -, same⟩ := inside
  exact ⟨front, short, proper, same⟩

theorem Along.prefix {names rest others : List String} {name : String} (along : Along names (name :: rest) others) :
    names ++ [name] <+: others := by
  obtain ⟨front, short, proper, rfl⟩ := along
  obtain ⟨first, more, rfl⟩ := List.exists_cons_of_ne_nil proper
  obtain ⟨rfl, -⟩ := List.cons_prefix_cons.mp short
  exact (List.prefix_append_right_inj names).mpr (by simp)

theorem along_nil {names others : List String} : ¬ Along names [] others := by
  rintro ⟨front, short, proper, -⟩
  exact proper (List.prefix_nil.mp short)

theorem along_cons {names more others : List String} {name : String} :
    Along names (name :: more) others ↔ others = names ++ [name] ∨ Along (names ++ [name]) more others := by
  constructor
  · rintro ⟨front, short, proper, rfl⟩
    cases front with
    | nil => exact absurd rfl proper
    | cons first rest =>
      obtain ⟨rfl, within⟩ := List.cons_prefix_cons.mp short
      by_cases only : rest = []
      · exact .inl (by rw [only])
      · exact .inr ⟨rest, within, only, by simp⟩
  · rintro (rfl | ⟨front, short, -, rfl⟩)
    · exact ⟨[name], by simp, by simp, rfl⟩
    · exact ⟨name :: front, by simpa using short, by simp, by simp⟩

theorem inside_cons {names more others : List String} {name : String} :
    Inside names (name :: more) others ↔
      (more ≠ [] ∧ others = names ++ [name]) ∨ Inside (names ++ [name]) more others := by
  constructor
  · rintro ⟨front, short, proper, apart, rfl⟩
    cases front with
    | nil => exact absurd rfl proper
    | cons first rest =>
      obtain ⟨rfl, within⟩ := List.cons_prefix_cons.mp short
      by_cases only : rest = []
      · subst only
        exact .inl ⟨fun none => apart (by rw [none]), rfl⟩
      · exact .inr ⟨rest, within, only, fun same => apart (by rw [same]), by simp⟩
  · rintro (⟨further, rfl⟩ | ⟨front, short, -, apart, rfl⟩)
    · exact ⟨[name], by simp, by simp, by simpa using Ne.symm further, rfl⟩
    · exact ⟨name :: front, by simpa using short, by simp, by simpa using apart, by simp⟩

/-- Some of the places where something was made, and the root, are shelves. They hold no files and no
    directory that was not made. Other places where something was made may hold anything. -/
structure Shelves (root : DirectoryView D) (s : σ) (made shelf : List String → Prop) : Prop where
  top : shelf []
  closed : ∀ {names name}, made (names ++ [name]) → shelf names
  above : ∀ {names}, shelf names → names = [] ∨ made names
  shelf : ∀ {names}, shelf names →
    ∃ dir, root.descend? s names = some dir ∧ dir.files s = [] ∧ dir.Finds s ∧
      (names ≠ [] → dir.isWritable s = true) ∧
      ∀ name, (dir.subdirectory? s name).isSome = true ↔ made (names ++ [name])

def Rests (root : DirectoryView D) (shelf : List String → Prop) (s s' : σ) : Prop :=
  ∀ names dir, shelf names → root.descend? s names = some dir → SameLevel s s' dir

theorem Rests.refl (root : DirectoryView D) (shelf : List String → Prop) (s : σ) : Rests root shelf s s :=
  fun _ dir _ _ => .refl s dir

namespace Shelves

variable {s s' s'' : σ} {made shelf : List String → Prop} {names : List String} {dir : DirectoryView D}

theorem made_of_found (shelves : Shelves root s made shelf) {name : String} (on : shelf names)
    (led : root.descend? s (names ++ [name]) = some dir) : made (names ++ [name]) := by
  obtain ⟨holder, reached, -, -, -, holdings⟩ := shelves.shelf on
  rw [DirectoryView.descend?_concat, reached, Option.bind_some] at led
  exact (holdings name).mp (by rw [led]; rfl)

theorem found (shelves : Shelves root s made shelf) (there : made names) (proper : names ≠ []) :
    ∃ dir, root.descend? s names = some dir := by
  obtain ⟨front, last, rfl⟩ := (List.eq_nil_or_concat' names).resolve_left proper
  obtain ⟨holder, reached, -, -, -, holdings⟩ := shelves.shelf (shelves.closed there)
  obtain ⟨dir, found⟩ := Option.isSome_iff_exists.mp ((holdings last).mpr there)
  exact ⟨dir, by rw [DirectoryView.descend?_concat, reached, Option.bind_some, found]⟩

theorem made_of_listed (shelves : Shelves root s made shelf) (on : shelf names)
    (reached : root.descend? s names = some dir) {sub : DirectoryView D} (listed : sub ∈ dir.subdirectories s) :
    made (names ++ [sub.name s]) ∧ root.descend? s (names ++ [sub.name s]) = some sub := by
  obtain ⟨same, led, -, finds, -, holdings⟩ := shelves.shelf on
  obtain rfl := Option.some.inj (reached.symm.trans led)
  have found := finds sub listed
  refine ⟨(holdings _).mp (by rw [found]; rfl), ?_⟩
  rw [DirectoryView.descend?_concat, reached, Option.bind_some, found]

theorem made_of_prefix (shelves : Shelves root s made shelf) {front : List String} (there : made names)
    (short : front <+: names) (proper : front ≠ []) : made front := by
  induction names using List.reverseRecOn with
  | nil => exact absurd (List.prefix_nil.mp short) proper
  | append_singleton names last ih =>
    rcases List.prefix_concat_iff.mp short with rfl | within
    · exact there
    · have below : names ≠ [] := fun top => proper (List.prefix_nil.mp (top ▸ within))
      exact ih ((shelves.above (shelves.closed there)).resolve_left below) within

theorem shelf_of_prefix (shelves : Shelves root s made shelf) {front : List String}
    (on : shelf names) (short : front <+: names) : shelf front := by
  induction names using List.reverseRecOn with
  | nil => rwa [List.prefix_nil.mp short]
  | append_singleton names last ih =>
    rcases List.prefix_concat_iff.mp short with rfl | within
    · exact on
    · exact ih (shelves.closed ((shelves.above on).resolve_left (by simp))) within

theorem descend?_eq (shelves : Shelves root s made shelf) (rests : Rests root shelf s s')
    (here : names = [] ∨ made names) : root.descend? s' names = root.descend? s names := by
  refine SameLevel.descend? fun front dir short proper reached => rests front dir ?_ reached
  rcases List.eq_nil_or_concat' names with rfl | ⟨before, last, rfl⟩
  · rw [List.prefix_nil.mp short]
    exact shelves.top
  · have there := here.resolve_left (by simp)
    rcases List.prefix_concat_iff.mp short with rfl | within
    · exact absurd rfl proper
    · exact shelves.shelf_of_prefix (shelves.closed there) within

theorem of_rests (shelves : Shelves root s made shelf) (rests : Rests root shelf s s') :
    Shelves root s' made shelf := by
  refine ⟨shelves.top, shelves.closed, shelves.above, fun {names} on => ?_⟩
  obtain ⟨dir, reached, files, finds, writable, holdings⟩ := shelves.shelf on
  have level := rests names dir on reached
  refine ⟨dir, (shelves.descend?_eq rests (shelves.above on)).trans reached, level.files files, level.finds finds,
    fun below => level.isWritable.trans (writable below), fun name => ?_⟩
  rw [level.subdirectory? name]
  exact holdings name

theorem rests_trans (shelves : Shelves root s made shelf) (first : Rests root shelf s s')
    (second : Rests root shelf s' s'') : Rests root shelf s s'' := by
  intro names dir on reached
  have again := (shelves.descend?_eq first (shelves.above on)).trans reached
  exact (first names dir on reached).trans (second names dir on again)

theorem congr {made' shelf' : List String → Prop} (shelves : Shelves root s made shelf)
    (sameMade : ∀ names, made' names ↔ made names) (sameShelf : ∀ names, shelf' names ↔ shelf names) :
    Shelves root s made' shelf' := by
  obtain rfl : made' = made := funext fun names => propext (sameMade names)
  obtain rfl : shelf' = shelf := funext fun names => propext (sameShelf names)
  exact shelves

theorem makes {name : String} {new : DirectoryView D} (shelves : Shelves root s made shelf)
    (makes : Makes root s s' names name new) (on : shelf names) (fresh : ¬ made (names ++ [name])) (further : Prop) :
    Shelves root s' (fun others => made others ∨ others = names ++ [name])
      fun others => shelf others ∨ further ∧ others = names ++ [name] := by
  have unmade : ∀ other, ¬ (made (names ++ [name] ++ [other]) ∨ names ++ [name] ++ [other] = names ++ [name]) := by
    rintro other (there | same)
    · exact fresh (shelves.made_of_prefix there (List.prefix_append _ _) (by simp))
    · simp at same
  refine ⟨.inl shelves.top, ?_, ?_, ?_⟩
  · rintro others other (there | same)
    · exact .inl (shelves.closed there)
    · obtain ⟨rfl, -⟩ := List.append_inj' same rfl
      exact .inl on
  · rintro others (old | ⟨-, new⟩)
    · exact (shelves.above old).imp_right .inl
    · exact .inr (.inr new)
  · rintro others (old | ⟨-, rfl⟩)
    · obtain ⟨dir, led, noFiles, finds, open_, holdings⟩ := shelves.shelf old
      -- a shelf below the new directory would have been made on the way to it
      have apart : ¬ names ++ [name] <+: others := fun below =>
        fresh ((shelves.above (shelves.shelf_of_prefix old below)).resolve_left (by simp))
      refine ⟨dir, (makes.descend?_of_apart apart).trans led, makes.files led noFiles, makes.finds led finds,
        fun below => (makes.isWritable led).trans (open_ below), fun other => ?_⟩
      rw [makes.subdirectory? led]
      by_cases here : others = names ∧ other = name
      · simp [here]
      · have apart : others ++ [other] ≠ names ++ [name] := fun same =>
          here ((List.append_inj' same rfl).imp_right List.singleton_inj.mp)
        rw [if_neg here, holdings, or_iff_left apart]
    · obtain ⟨dir, led, -⟩ := shelves.shelf on
      refine ⟨new, makes.descend?_new led, makes.newFiles, makes.newFinds, fun _ => makes.newWritable, fun other => ?_⟩
      rw [makes.newSubdirectory?]
      exact iff_of_false (by simp) (unmade other)

/-- Directories that were missing along further names were made as far as there is room, and nothing else. -/
structure Ensures (ground : Ground σ root) (made shelf : List String → Prop) (names rest : List String)
    (dir : DirectoryView D) (last : Option (DirectoryView D)) (s s' : σ) : Prop where
  run : DirectoryView.ensureAlong rest s dir = (last, s')
  holds : ground.holds s'
  shelves : Shelves root s' (fun others => made others ∨ ground.room others ∧ Along names rest others)
    fun others => shelf others ∨ ground.room others ∧ Inside names rest others
  old : ∀ others, made others → root.descend? s' others = root.descend? s others
  access : root.isWritable s' = root.isWritable s
  all : last.isSome = true ↔ ground.room (names ++ rest)

section Ensures

variable {ground : Ground σ root} {name : String} {more : List String} {next : DirectoryView D}
  {last : Option (DirectoryView D)}

theorem ensures_of_found (found : dir.subdirectory? s name = some next) (there : made (names ++ [name]))
    (on : more ≠ [] → shelf (names ++ [name]))
    (ensures : Ensures ground made shelf (names ++ [name]) more next last s s') :
    Ensures ground made shelf names (name :: more) dir last s s' := by
  refine ⟨?_, ensures.holds, ensures.shelves.congr (fun others => ?_) fun others => ?_, ensures.old, ensures.access, ?_⟩
  · rw [DirectoryView.ensureAlong, DirectoryView.ensureSubdirectory, found]
    exact ensures.run
  · have known : others = names ++ [name] → made others := fun same => same ▸ there
    rw [along_cons]
    grind
  · have known : more ≠ [] ∧ others = names ++ [name] → shelf others := fun ⟨some_, same⟩ => same ▸ on some_
    rw [inside_cons]
    grind
  · rw [ensures.all, List.append_assoc, List.singleton_append]

theorem ensures_of_made {middle : σ} (shelves : Shelves root s made shelf) (room : ground.room (names ++ [name]))
    (missing : dir.subdirectory? s name = none) (created : dir.createSubdirectory s name = (some next, middle))
    (makes : Makes root s middle names name next) (fresh : ¬ made (names ++ [name]))
    (ensures : Ensures ground (fun others => made others ∨ others = names ++ [name])
      (fun others => shelf others ∨ more ≠ [] ∧ others = names ++ [name]) (names ++ [name]) more next last middle s') :
    Ensures ground made shelf names (name :: more) dir last s s' := by
  refine ⟨?_, ensures.holds, ensures.shelves.congr (fun others => ?_) fun others => ?_, fun others there => ?_, ?_, ?_⟩
  · rw [DirectoryView.ensureAlong, DirectoryView.ensureSubdirectory, missing]
    simp only [created]
    exact ensures.run
  · have fits : others = names ++ [name] → ground.room others := fun same => same ▸ room
    rw [along_cons]
    grind
  · have fits : others = names ++ [name] → ground.room others := fun same => same ▸ room
    rw [inside_cons]
    grind
  · have apart : ¬ names ++ [name] <+: others :=
      fun short => fresh (shelves.made_of_prefix there short (by simp))
    exact (ensures.old others (.inl there)).trans (makes.descend?_of_apart apart)
  · have top : root.descend? s [] = some root := rfl
    exact ensures.access.trans (makes.isWritable top)
  · rw [ensures.all, List.append_assoc, List.singleton_append]

theorem ensures_of_refused (holds : ground.holds s) (shelves : Shelves root s made shelf)
    (full : ¬ ground.room (names ++ [name])) (missing : dir.subdirectory? s name = none)
    (refused : dir.createSubdirectory s name = (none, s)) :
    Ensures ground made shelf names (name :: more) dir none s s := by
  have none : ∀ others, ground.room others → ¬ Along names (name :: more) others :=
    fun others fits along => full (ground.room_of_prefix along.prefix fits)
  refine ⟨?_, holds, shelves.congr (fun others => ?_) fun others => ?_, fun _ _ => rfl, rfl, ?_⟩
  · rw [DirectoryView.ensureAlong, DirectoryView.ensureSubdirectory, missing]
    simp only [refused]
  · exact or_iff_left fun both => none others both.1 both.2
  · exact or_iff_left fun both => none others both.1 both.2.along
  · refine iff_of_false (by simp) fun fits => full (ground.room_of_prefix ?_ fits)
    exact (List.prefix_append_right_inj names).mpr (by simp)

end Ensures

theorem ensureAlong (ground : Ground σ root) (rest : List String) (holds : ground.holds s)
    (shelves : Shelves root s made shelf) (roomy : ∀ others, made others → ground.room others)
    (reached : root.descend? s names = some dir) (fits : ground.room names) (on : rest ≠ [] → shelf names)
    (usable : ∀ name ∈ rest, Path.Usable name)
    (willing : ∀ name more, rest = name :: more → ¬ made (names ++ [name]) → dir.isWritable s = true)
    (stems : ∀ front, front <+: rest → front ≠ [] → front ≠ rest → made (names ++ front) → shelf (names ++ front)) :
    ∃ last s', Ensures ground made shelf names rest dir last s s' := by
  -- `made` grows with each directory that is made, and the next step starts from it
  induction rest generalizing s dir names made shelf with
  | nil =>
    refine ⟨some dir, s, rfl, holds, shelves.congr (fun others => ?_) fun others => ?_, fun _ _ => rfl, rfl, ?_⟩
    · exact or_iff_left fun both => along_nil both.2
    · exact or_iff_left fun both => along_nil both.2.along
    · rw [List.append_nil]
      exact iff_of_true rfl fits
  | cons name more ih =>
    have on := on (List.cons_ne_nil _ _)
    have usable' : ∀ other ∈ more, Path.Usable other := fun other among => usable other (List.mem_cons_of_mem _ among)
    obtain ⟨same, led, files, -, -, holdings⟩ := shelves.shelf on
    obtain rfl := Option.some.inj (reached.symm.trans led)
    cases found : dir.subdirectory? s name with
    | some next =>
      have there : made (names ++ [name]) := (holdings name).mp (by rw [found]; rfl)
      have led' : root.descend? s (names ++ [name]) = some next := by
        rw [DirectoryView.descend?_concat, reached, Option.bind_some, found]
      have on' : more ≠ [] → shelf (names ++ [name]) := fun some_ =>
        stems [name] (by simp) (by simp) (by simpa using Ne.symm some_) there
      have willing' : ∀ other rest, more = other :: rest → ¬ made (names ++ [name] ++ [other]) →
          next.isWritable s = true := by
        intro other rest whole _
        obtain ⟨_, alsoLed, -, -, writable, -⟩ := shelves.shelf (on' (by simp [whole]))
        obtain rfl := Option.some.inj (led'.symm.trans alsoLed)
        exact writable (by simp)
      obtain ⟨last, s', ensures⟩ := ih holds shelves roomy led' (roomy _ there) on' usable' willing'
        fun front short proper apart made' => by
          have more' := stems (name :: front) (by simpa using short) (by simp) (by simpa using apart)
            (by simpa using made')
          simpa using more'
      exact ⟨last, s', ensures_of_found found there on' ensures⟩
    | none =>
      have fresh : ¬ made (names ++ [name]) := fun there => by simpa [found] using (holdings name).mpr there
      have writable := willing name more rfl fresh
      by_cases room : ground.room (names ++ [name])
      · obtain ⟨new, middle, created, holds', makes⟩ :=
          ground.create holds reached (usable name List.mem_cons_self) room files found writable
        have grown := shelves.makes makes on fresh (more ≠ [])
        obtain ⟨last, s', ensures⟩ := ih holds' grown
          (fun others there => there.elim (roomy others) fun same => same ▸ room) (makes.descend?_new reached) room
          (fun some_ => .inr ⟨some_, rfl⟩) usable' (fun _ _ _ _ => makes.newWritable)
          fun front _ proper _ there => by
            rcases there with there | same
            · exact absurd (shelves.made_of_prefix there (List.prefix_append _ _) (by simp)) fresh
            · exact absurd (List.append_right_eq_self.mp same) proper
        exact ⟨last, s', ensures_of_made shelves room found created makes fresh ensures⟩
      · exact ⟨none, s, ensures_of_refused holds shelves room found (ground.refuse holds reached (.inl room))⟩

end Shelves

end GuestStorage.Tree
