import GuestStorage.Proofs.Save.Sources
import GuestStorage.Proofs.Session.Region
import GuestStorage.Proofs.Tree.Attempts
import GuestStorage.Proofs.Tree.Weight
import GuestStorage.Service.Roots
import GuestStorage.Service.Server

namespace GuestStorage.Save

open Session GuestStorage.Tree
open Service (Collaborators Roots)
open Wire (SaveDescriptor SaveInfo SaveDataSpace)

variable {σ F D : Type} [Backing σ F D]

/-- What is asked for in one space. Requests go to sessions on saves that were opened. -/
inductive Move where
  | create (descriptor : SaveDescriptor)
  | mount (descriptor : SaveDescriptor) (readOnly : Bool)
  | request (request : Session.Request)
  deriving DecidableEq

/-- A client with the descriptors of the saves that were created so far, the last one first. -/
structure Custody (σ F D : Type) where
  client : Client σ F D
  created : List SaveDescriptor

namespace Custody

def start (s : σ) : Custody σ F D := ⟨.start s, []⟩

def step (outside : Collaborators σ F D) (space : SaveDataSpace) (custody : Custody σ F D) :
    Move → Custody σ F D
  | .create descriptor =>
    match outside.controller.createSave custody.client.storage space descriptor with
    | (.ok _, storage) => ⟨{ custody.client with storage }, descriptor :: custody.created⟩
    | (.error _, storage) => { custody with client := { custody.client with storage } }
  | .mount descriptor readOnly =>
    match outside.controller.openSave custody.client.storage space descriptor with
    | .ok save =>
      let view := if readOnly then save.project else save
      { custody with
        client := (custody.client.insert (Service.Server.mounted outside space.storageClass view)).2 }
    | .error _ => custody
  | .request request => { custody with client := (custody.client.step request).2 }

def run (outside : Collaborators σ F D) (space : SaveDataSpace) (custody : Custody σ F D)
    (moves : List Move) : Custody σ F D :=
  moves.foldl (step outside space) custody

end Custody

section Location

variable {room : List String → Prop} {asked : List SaveDescriptor} {descriptor : SaveDescriptor} {names : List String}

theorem made_location (there : descriptor ∈ asked) (fits : room (location descriptor)) :
    Made room asked (location descriptor) :=
  ⟨location_ne_nil descriptor, fits, descriptor, there, List.prefix_refl _⟩

theorem exists_of_made_location (made : Made room asked (location descriptor)) :
    room (location descriptor) ∧ ∃ other ∈ asked, location other = location descriptor := by
  obtain ⟨-, fits, other, there, short⟩ := made
  exact ⟨fits, other, there, (location_eq_iff.mpr (location_prefix_iff.mp short)).symm⟩

theorem shelf_of_made (made : Made room asked names) (short : names <+: location descriptor)
    (apart : names ≠ location descriptor) : Shelf room asked names := by
  obtain ⟨-, fits, other, there, within⟩ := made
  refine .inr ⟨fits, other, there, within, ?_⟩
  rintro rfl
  exact apart (location_eq_iff.mpr (location_prefix_iff.mp short))

theorem not_below_of_shelf (shelf : Shelf room asked names) : ¬ location descriptor <+: names := by
  intro below
  rcases shelf with rfl | ⟨-, other, -, short, apart⟩
  · exact location_ne_nil descriptor (List.prefix_nil.mp below)
  · have same : location descriptor = location other :=
      location_eq_iff.mpr (location_prefix_iff.mp (below.trans short))
    rw [same] at below
    exact apart (short.eq_of_length_le below.length_le)

theorem made_cons : Made room (descriptor :: asked) names ↔
    Made room asked names ∨ room names ∧ Along [] (location descriptor) names := by
  simp only [Made, Along, List.mem_cons, List.nil_append, exists_eq_or_imp]
  grind

theorem shelf_cons : Shelf room (descriptor :: asked) names ↔
    Shelf room asked names ∨ room names ∧ Inside [] (location descriptor) names := by
  simp only [Shelf, Inside, List.mem_cons, List.nil_append, exists_eq_or_imp]
  grind

end Location

section Controller

variable {root : DirectoryView D} {s : σ} {opener : Roots.Opener σ D} {meter : Roots.SpaceMeter} {roots : Roots}
  {space : SaveDataSpace} (opens : Roots.openRoot opener s (roots.space? space) = .ok root)
include opens

theorem openSave_eq (descriptor : SaveDescriptor) :
    (Roots.controller opener meter roots).openSave s space descriptor =
      match root.descend? s (location descriptor) with
      | none => .error .entityNotFound
      | some save => .ok save := by
  cases led : root.descend? s (location descriptor) <;>
    simp [Roots.controller, opens, DirectoryView.directoryAt?, components_path, led]

theorem createSave_of_found {descriptor : SaveDescriptor} {save : DirectoryView D}
    (led : root.descend? s (location descriptor) = some save) :
    (Roots.controller opener meter roots).createSave s space descriptor = (.error .pathAlreadyExists, s) := by
  simp [Roots.controller, opens, DirectoryView.directoryAt?, components_path, led]

theorem createSave_of_missing {descriptor : SaveDescriptor} (direct : root.readOnly = false)
    (missing : root.descend? s (location descriptor) = none) :
    (Roots.controller opener meter roots).createSave s space descriptor =
      match DirectoryView.ensureAlong (location descriptor) s root with
      | (none, s') => (.error .permissionDenied, s')
      | (some save, s') => (.ok save, s') := by
  have along : root.createDirectoryAt s (path descriptor) =
      DirectoryView.ensureAlong (location descriptor) s root := by
    rw [DirectoryView.createDirectoryAt_eq direct, components_path, if_neg (location_ne_nil descriptor)]
  rcases made : DirectoryView.ensureAlong (location descriptor) s root with ⟨none | save, s'⟩ <;>
    simp [Roots.controller, opens, DirectoryView.directoryAt?, components_path, missing, along, made]

end Controller

section Invariant

variable {root : DirectoryView D} {s s' : σ} {created asked : List SaveDescriptor} {descriptor : SaveDescriptor}

def Placed (root : DirectoryView D) (s : σ) (created : List SaveDescriptor) : AnySession F D → Prop
  | .fileSystem fs => ∃ descriptor ∈ created, ∃ dir,
      root.descend? s (location descriptor) = some dir ∧ fs.mount.root.node = dir.node
  | .file _ | .directory _ | .storage _ | .saveInfoReader _ | .eventNotifier _ => True

theorem Placed.mono {later : List SaveDescriptor} {session : AnySession F D} (placed : Placed root s created session)
    (more : created ⊆ later)
    (same : ∀ descriptor ∈ created, root.descend? s' (location descriptor) = root.descend? s (location descriptor)) :
    Placed root s' later session := by
  cases session with
  | fileSystem fs =>
    obtain ⟨descriptor, there, dir, led, node⟩ := placed
    exact ⟨descriptor, more there, dir, (same descriptor there).trans led, node⟩
  | file | directory | storage | saveInfoReader | eventNotifier => exact placed

/-- All below the root is as it should be, what stands above saves was made for saves, and guests are in saves.
    Saves were created for all that were asked for and for which there is room, if the root takes any. -/
structure Custody.Kept (ground : Ground σ root) (access : Bool) (asked : List SaveDescriptor)
    (custody : Custody σ F D) : Prop where
  holds : ground.holds custody.client.storage
  shelves : Shelves root custody.client.storage (Made ground.room asked) (Shelf ground.room asked)
  sessions : custody.client.table.All (Placed root custody.client.storage custody.created)
  takes : root.isWritable custody.client.storage = access
  closed : access = false → asked = []
  wanted : ∀ descriptor ∈ custody.created, descriptor ∈ asked ∧ ground.room (location descriptor)
  served : ∀ descriptor ∈ asked, ground.room (location descriptor) →
    ∃ other ∈ custody.created, location other = location descriptor

section Requests

variable {ground : Ground σ root} {access : Bool} {custody : Custody σ F D}

theorem Custody.Kept.made (kept : custody.Kept ground access asked) (there : descriptor ∈ custody.created) :
    Made ground.room asked (location descriptor) :=
  made_location (kept.wanted descriptor there).1 (kept.wanted descriptor there).2

theorem Custody.Kept.of_rests (kept : custody.Kept ground access asked) {client : Client σ F D}
    (holds : ground.holds client.storage)
    (rests : Rests root (Shelf ground.room asked) custody.client.storage client.storage)
    (sessions : client.table.All (Placed root custody.client.storage custody.created)) :
    Custody.Kept ground access asked ⟨client, custody.created⟩ := by
  refine ⟨holds, kept.shelves.of_rests rests, fun handle session found => ?_, ?_, kept.closed, kept.wanted, kept.served⟩
  · exact (sessions handle session found).mono (List.Subset.refl _) fun descriptor there =>
      kept.shelves.descend?_eq rests (.inr (kept.made there))
  · exact (rests [] root kept.shelves.top rfl).isWritable.trans kept.takes

def Unmoved (ground : Ground σ root) (asked : List SaveDescriptor) (s s' : σ) : Prop :=
  ground.holds s' ∧ Rests root (Shelf ground.room asked) s s'

theorem Unmoved.refl (holds : ground.holds s) : Unmoved ground asked s s := ⟨holds, .refl _ _ s⟩

theorem Unmoved.further (shelves : Shelves root s (Made ground.room asked) (Shelf ground.room asked)) {s'' : σ}
    (unmoved : Unmoved ground asked s s') (next : Steady ground.holds root s' s'') :
    Unmoved ground asked s s'' :=
  ⟨next.1, shelves.rests_trans unmoved.2 fun names dir _ reached => next.2 names dir reached⟩

theorem Custody.Kept.request (kept : custody.Kept ground access asked) (request : Session.Request) :
    Custody.Kept ground access asked ⟨(custody.client.step request).2, custody.created⟩ := by
  have start : Unmoved ground asked custody.client.storage custody.client.storage := .refl kept.holds
  have unmoved : Unmoved ground asked custody.client.storage (custody.client.step request).2.storage := by
    refine Client.step_keeps (Unmoved ground asked custody.client.storage) start ?_ ?_ request
    · -- a file system gets no further than the part below its save, which lies off the shelves
      intro handle fs request found
      obtain ⟨descriptor, -, dir, led, node⟩ := kept.sessions _ _ (Table.find?_of_fileSystem found)
      obtain ⟨region, here, member, frame⟩ := ground.part kept.holds (location_ne_nil descriptor) led
      have inside : region.directory fs.mount.root.node := node ▸ member
      obtain ⟨holds, same⟩ := frame _ (region.client_path here inside request)
      exact ⟨holds, fun names dir shelf reached => same names dir (not_below_of_shelf shelf) reached⟩
    · -- an open file may lie anywhere: calls change bytes, of which directories take no notice
      intro handle opened request found
      exact Client.file_keeps (Unmoved ground asked custody.client.storage)
        (fun offset data before => before.further kept.shelves (ground.steady_write before.1 opened.file offset data))
        (fun size before => before.further kept.shelves (ground.steady_resize before.1 opened.file size)) start request
  refine kept.of_rests unmoved.1 unmoved.2 ?_
  exact Client.all_step kept.sessions (fun _ => trivial) (fun _ => trivial) fun _ _ _ _ _ _ _ _ => trivial

theorem ensure_location (holds : ground.holds s)
    (shelves : Shelves root s (Made ground.room asked) (Shelf ground.room asked))
    (writable : root.isWritable s = true) (descriptor : SaveDescriptor) :
    ∃ last s', DirectoryView.ensureAlong (location descriptor) s root = (last, s') ∧ ground.holds s' ∧
      Shelves root s' (Made ground.room (descriptor :: asked)) (Shelf ground.room (descriptor :: asked)) ∧
      (∀ names, Made ground.room asked names → root.descend? s' names = root.descend? s names) ∧
      root.isWritable s' = true ∧ (last.isSome = true ↔ ground.room (location descriptor)) := by
  have top : root.descend? s [] = some root := rfl
  obtain ⟨last, s', ensures⟩ := shelves.ensureAlong ground (location descriptor) holds (fun _ made => made.2.1) top
    ground.room_nil (fun _ => shelves.top) (fun name listed => usable_of_mem_location listed) (fun _ _ _ _ => writable)
    fun front short _ apart made => shelf_of_made made short apart
  exact ⟨last, s', ensures.run, ensures.holds,
    ensures.shelves.congr (fun others => made_cons) fun others => shelf_cons,
    ensures.old, ensures.access.trans writable, ensures.all⟩

end Requests

theorem made_of_led {room : List String → Prop} (shelves : Shelves root s (Made room asked) (Shelf room asked))
    {front : List String} {dir : DirectoryView D} (short : front <+: location descriptor)
    (led : root.descend? s front = some dir) : front = [] ∨ Made room asked front := by
  induction front using List.reverseRecOn generalizing dir with
  | nil => exact .inl rfl
  | append_singleton before last ih =>
    have shorter : before <+: location descriptor := (List.prefix_append _ _).trans short
    have apart : before ≠ location descriptor := fun whole => not_prefix_of_concat before last (whole ▸ short)
    have above := led
    rw [DirectoryView.descend?_concat] at above
    obtain ⟨holder, reached, -⟩ := Option.bind_eq_some_iff.mp above
    have shelf : Shelf room asked before :=
      (ih shorter reached).elim .inl fun made => shelf_of_made made shorter apart
    exact .inr (shelves.made_of_found shelf led)

theorem exists_of_led {room : List String → Prop} (shelves : Shelves root s (Made room asked) (Shelf room asked))
    {dir : DirectoryView D} (led : root.descend? s (location descriptor) = some dir) :
    room (location descriptor) ∧ ∃ other ∈ asked, location other = location descriptor := by
  have made := (made_of_led shelves (List.prefix_refl _) led).resolve_left (location_ne_nil descriptor)
  exact exists_of_made_location made

section Moves

variable {ground : Ground σ root} {access : Bool} {custody : Custody σ F D} {opener : Roots.Opener σ D}
  {meter : Roots.SpaceMeter} {roots : Roots} {space : SaveDataSpace} {content : Service.ContentProvider σ F D}

theorem direct_of_openRoot {path : Option String} (opened : Roots.openRoot opener s path = .ok root) :
    root.readOnly = false := by
  unfold Roots.openRoot at opened
  split at opened
  · cases opened
  · rename_i text
    cases reached : opener s text with
    | error e =>
      rw [reached] at opened
      cases opened
    | ok node =>
      rw [reached] at opened
      cases opened
      rfl

theorem ensure_refused (holds : ground.holds s)
    (shelves : Shelves root s (Made ground.room []) (Shelf ground.room []))
    (refused : root.isWritable s = false) (descriptor : SaveDescriptor) :
    DirectoryView.ensureAlong (location descriptor) s root = (none, s) := by
  have top : root.descend? s [] = some root := rfl
  obtain ⟨shelf, same, -, -, -, holdings⟩ := shelves.shelf shelves.top
  obtain rfl := Option.some.inj (top.symm.trans same)
  have missing : root.subdirectory? s "save" = none := by
    have bare := (holdings "save").not.mpr fun made => (made_top.mp made).2.2 rfl
    simpa using bare
  have created : root.createSubdirectory s "save" = (none, s) := ground.refuse holds top (.inr refused)
  rw [location_eq, DirectoryView.ensureAlong, DirectoryView.ensureSubdirectory, missing]
  simp only [created]

variable (opens : ∀ s, ground.holds s → Roots.openRoot opener s (roots.space? space) = .ok root)
include opens

/-- A save that is asked for is made unless it is there, there is no room, or the root takes no new entries. -/
theorem Custody.Kept.create (kept : custody.Kept ground access asked) (descriptor : SaveDescriptor) :
    ∃ later, (custody.step ⟨Roots.controller opener meter roots, content⟩ space (.create descriptor)).Kept
        ground access later ∧
      (access = true → ground.room (location descriptor) → ∃ other ∈
        (custody.step ⟨Roots.controller opener meter roots, content⟩ space (.create descriptor)).created,
        location other = location descriptor) := by
  have opened := opens _ kept.holds
  cases led : root.descend? custody.client.storage (location descriptor) with
  | some save =>
    simp only [Custody.step, createSave_of_found opened led]
    obtain ⟨fits, other, there, same⟩ := exists_of_led kept.shelves led
    refine ⟨asked, kept, fun _ _ => ?_⟩
    obtain ⟨first, created, also⟩ := kept.served other there (same ▸ fits)
    exact ⟨first, created, also.trans same⟩
  | none =>
    simp only [Custody.step, createSave_of_missing opened (direct_of_openRoot opened) led]
    cases writable : access with
    | false =>
      -- without a save there is no directory for saves, and the root does not take one
      obtain rfl := kept.closed writable
      rw [ensure_refused kept.holds kept.shelves (kept.takes.trans writable)]
      exact ⟨[], writable ▸ kept, fun open_ => nomatch open_⟩
    | true =>
      obtain ⟨last, s', made, holds, shelves, same, unchanged, all⟩ :=
        ensure_location kept.holds kept.shelves (kept.takes.trans writable) descriptor
      have sessions : ∀ {later}, custody.created ⊆ later → custody.client.table.All (Placed root s' later) :=
        fun more handle session found => (kept.sessions handle session found).mono more
          fun other there => same _ (kept.made there)
      refine ⟨descriptor :: asked, ?_⟩
      cases last with
      | some save =>
        simp only [made]
        have fits := all.mp rfl
        refine ⟨⟨holds, shelves, sessions (List.subset_cons_self _ _), unchanged, by simp, ?_, ?_⟩,
          fun _ _ => ⟨descriptor, List.mem_cons_self, rfl⟩⟩
        · intro other there
          rcases List.mem_cons.mp there with rfl | old
          · exact ⟨List.mem_cons_self, fits⟩
          · exact ⟨List.mem_cons_of_mem _ (kept.wanted other old).1, (kept.wanted other old).2⟩
        · intro other there room
          rcases List.mem_cons.mp there with rfl | old
          · exact ⟨other, List.mem_cons_self, rfl⟩
          · obtain ⟨first, created, also⟩ := kept.served other old room
            exact ⟨first, List.mem_cons_of_mem _ created, also⟩
      | none =>
        simp only [made]
        have full : ¬ ground.room (location descriptor) := fun fits => by simpa using all.mpr fits
        refine ⟨⟨holds, shelves, sessions (List.Subset.refl _), unchanged, by simp, ?_, ?_⟩,
          fun _ fits => absurd fits full⟩
        · exact fun other there => ⟨List.mem_cons_of_mem _ (kept.wanted other there).1, (kept.wanted other there).2⟩
        · intro other there room
          rcases List.mem_cons.mp there with rfl | old
          · exact absurd room full
          · exact kept.served other old room

theorem Custody.Kept.step (kept : custody.Kept ground access asked) (move : Move) :
    ∃ later, (custody.step ⟨Roots.controller opener meter roots, content⟩ space move).Kept ground access later := by
  cases move with
  | create descriptor =>
    obtain ⟨later, kept, -⟩ := kept.create opens descriptor
    exact ⟨later, kept⟩
  | request request => exact ⟨asked, kept.request request⟩
  | mount descriptor readOnly =>
    refine ⟨asked, ?_⟩
    simp only [Custody.step, openSave_eq (opens _ kept.holds)]
    cases led : root.descend? custody.client.storage (location descriptor) with
    | none => exact kept
    | some save =>
      obtain ⟨fits, other, there, same⟩ := exists_of_led kept.shelves led
      obtain ⟨first, created, also⟩ := kept.served other there (same ▸ fits)
      refine ⟨kept.holds, kept.shelves, Table.All.insert kept.sessions ?_, kept.takes, kept.closed, kept.wanted,
        kept.served⟩
      refine ⟨first, created, save, (also.trans same) ▸ led, ?_⟩
      cases readOnly <;> rfl

theorem Custody.Kept.run (kept : custody.Kept ground access asked) (moves : List Move) :
    ∃ later, (custody.run ⟨Roots.controller opener meter roots, content⟩ space moves).Kept ground access later := by
  induction moves generalizing custody asked with
  | nil => exact ⟨asked, kept⟩
  | cons move rest ih =>
    obtain ⟨later, kept⟩ := kept.step opens move
    exact ih kept

end Moves

end Invariant

end GuestStorage.Save
