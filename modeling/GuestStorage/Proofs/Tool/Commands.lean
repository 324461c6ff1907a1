import GuestStorage.Proofs.Host.Ground
import GuestStorage.Proofs.Host.Totals
import GuestStorage.Proofs.Memory.Move
import GuestStorage.Tool.Program

namespace GuestStorage

open GuestStorage.Tree Session Host

namespace Tool

section Pages

variable {α : Type}

inductive Fetches : Cursor α → List α → Prop
  | stop {cursor : Cursor α} (nothing : (cursor.take pageSize).1 = []) : Fetches cursor []
  | page {cursor : Cursor α} {others : List α} (some_ : (cursor.take pageSize).1 ≠ [])
      (further : Fetches (cursor.take pageSize).2 others) : Fetches cursor ((cursor.take pageSize).1 ++ others)

theorem Fetches.eq {cursor : Cursor α} {fetched : List α} (fetches : Fetches cursor fetched) :
    fetched = cursor.remaining := by
  induction fetches with
  | stop nothing =>
    obtain none | empty := List.take_eq_nil_iff.mp nothing
    · cases none
    · exact empty.symm
  | page _ _ ih => rw [ih, Cursor.take_append_remaining]

theorem fetches_pages {more : Nat} {cursor : Cursor α} (enough : cursor.count < more) :
    Fetches cursor (pages more cursor) := by
  induction more generalizing cursor with
  | zero => exact absurd enough (Nat.not_lt_zero _)
  | succ more ih =>
    rw [pages]
    split
    · rename_i page nothing
      exact .stop (congrArg Prod.fst nothing)
    · rename_i page rest some_ taken
      have first : (cursor.take pageSize).1 = page := congrArg Prod.fst taken
      have second : (cursor.take pageSize).2 = rest := congrArg Prod.snd taken
      have held : cursor.count ≠ 0 := by
        intro none
        refine some_ ?_
        rw [← first, Cursor.take, List.length_eq_zero_iff.mp none, List.take_nil]
      have fewer : (cursor.take pageSize).2.count < more := by
        rw [Cursor.take, Cursor.count_advance, pageSize]
        omega
      rw [← first, ← second]
      exact .page (fun nothing => some_ (first.symm.trans nothing)) (ih fewer)

theorem fetches_fetchAll (cursor : Cursor α) : Fetches cursor (fetchAll cursor) :=
  fetches_pages (Nat.lt_succ_self _)

theorem fetchAll_eq (cursor : Cursor α) : fetchAll cursor = cursor.remaining := (fetches_fetchAll cursor).eq

end Pages

section Chunks

variable {σ F D : Type} [Backing σ F D] {s : σ} {now : Nat → σ} {opened : OpenFile F} {offset : Nat} {bytes : Bytes}

end Chunks

end Tool

namespace Host.Disk

variable {disk later : Disk} {log : Option Location} {path place top : Location} {names : List String} {bytes : Bytes}

/-- What a disk becomes while nothing happens on it except that lines are added to a log. -/
structure Grown (log : Option Location) (disk later : Disk) : Prop where
  sound : later.Sound
  found : ∀ place, later.find? place = disk.find? place ∨ log = some place ∧
    ∃ bytes more, disk.find? place = some (.file bytes) ∧ later.find? place = some (.file (bytes ++ more))

theorem Grown.append (grown : disk.Grown log later) {place : Location} (own : log = some place) (more : Bytes) :
    disk.Grown log (later.append place more) := by
  rw [Disk.append]
  split
  · rename_i bytes stands
    refine ⟨filled_sound grown.sound stands _, fun spot => ?_⟩
    rw [show (Disk.mk _ : Disk) = later.filled place (bytes ++ more) from rfl, find?_filled stands]
    by_cases here : spot = place
    · subst here
      rw [if_pos rfl]
      right
      rcases grown.found spot with same | ⟨-, old, lines, before, after⟩
      · exact ⟨own, bytes, more, same ▸ stands, rfl⟩
      · cases stands.symm.trans after
        exact ⟨own, old, lines ++ more, before, by rw [List.append_assoc]⟩
    · rw [if_neg here]
      exact grown.found spot
  · exact grown

namespace Grown

variable (grown : disk.Grown log later)
include grown

theorem resolve_eq (path : Location) : later.resolve path = disk.resolve path := by
  refine resolve_of_sameKind (fun place => ?_) path
  rcases grown.found place with same | ⟨-, bytes, more, before, after⟩
  · exact .inl same.symm
  · exact .inr ⟨bytes, _, before, after⟩

theorem find?_directory : later.find? place = some .directory ↔ disk.find? place = some .directory := by
  rcases grown.found place with same | ⟨-, bytes, more, before, after⟩
  · rw [same]
  · simp [before, after]

theorem leads_iff : later.Leads path place ↔ disk.Leads path place := by
  constructor <;> rintro ⟨resolved, directory⟩
  · exact ⟨(grown.resolve_eq path).symm.trans resolved, grown.find?_directory.mp directory⟩
  · exact ⟨(grown.resolve_eq path).trans resolved, grown.find?_directory.mpr directory⟩

theorem openRoot_eq (fileLimit : Nat) (start : Location) (text : String) :
    later.openRoot fileLimit start text = disk.openRoot fileLimit start text := by
  simp only [openRoot, grown.resolve_eq]
  cases disk.resolve (Root.ofText fileLimit start text).path with
  | error why => rfl
  | ok place =>
    dsimp only
    rcases grown.found place with same | ⟨-, bytes, more, before, after⟩
    · rw [same]
    · rw [before, after]

theorem stood {entry : Entry} (stands : later.find? place = some entry) : ∃ entry, disk.find? place = some entry := by
  rcases grown.found place with same | ⟨-, bytes, more, before, after⟩
  · exact ⟨entry, same ▸ stands⟩
  · exact ⟨_, before⟩

theorem named (named : disk.Named) : later.Named := by
  refine ⟨grown.sound, fun e listed => ?_⟩
  obtain ⟨entry, stands⟩ := grown.stood (grown.sound.find?_of_listed listed)
  exact fun name among => (named.of_find? stands name among).2

section Apart

variable (apart : ∀ place, log = some place → ¬ top <+: place)
include apart

theorem find?_below (rest : List String) : later.find? (top ++ rest) = disk.find? (top ++ rest) :=
  (grown.found (top ++ rest)).resolve_right fun own => apart _ own.1 (List.prefix_append _ _)

theorem bytesBelow_eq (sound : disk.Sound) (rest : List String) :
    later.bytesBelow (top ++ rest) = disk.bytesBelow (top ++ rest) := by
  refine ((sound.below_perm grown.sound fun more => ?_).map _).sum_nat
  rw [List.append_assoc]
  exact grown.find?_below apart _

end Apart

end Grown

end Host.Disk

namespace Host.Disk.Named

variable {disk : Disk} (named : disk.Named) {mount : Mount DirectoryNode} {top : Location} {path : String}
  {names : List String} {bytes : Bytes} (leads : disk.Leads mount.root.node.path top)
  (normal : Mount.normalize path = .ok names)
  (short : mount.root.node.root.admits (mount.root.node.path ++ names) = true)
include named leads normal short

theorem openDirectory_eq (found : disk.find? (top ++ names) = some .directory) :
    mount.openDirectory disk path =
      .ok ⟨⟨mount.root.node.root, mount.root.node.path ++ names⟩, mount.root.readOnly⟩ := by
  obtain ⟨reached, further⟩ := named.descend?_eq leads (Memory.normalize_ok normal).2 found short
  simp only [Mount.openDirectory, normal, reached]

theorem leadsToFile (found : disk.find? (top ++ names) = some (.file bytes)) :
    disk.LeadsToFile mount.root.node.root (mount.root.node.path ++ names) bytes := by
  have isNames := (Memory.normalize_ok normal).2
  rcases List.eq_nil_or_concat' names with rfl | ⟨front, name, rfl⟩
  · rw [List.append_nil, leads.directory] at found
    cases found
  · rw [← List.append_assoc] at found short ⊢
    obtain ⟨-, further⟩ := named.descend?_eq leads (fun other among => isNames other (List.mem_append_left _ among))
      (named.stands found) (Root.admits_of_prefix (List.prefix_append _ _) short)
    exact named.leadsToFile_child further found short

theorem openFile_eq (found : disk.find? (top ++ names) = some (.file bytes)) :
    mount.openFile disk path .read =
      .ok ⟨⟨mount.root.node.root, mount.root.node.path ++ names⟩, mount.root.readOnly⟩ := by
  have isNames := (Memory.normalize_ok normal).2
  obtain ⟨-, there, resolved, stands⟩ := named.leadsToFile leads normal short found
  have readable : FileView.isReadable disk
      ⟨⟨mount.root.node.root, mount.root.node.path ++ names⟩, mount.root.readOnly⟩ = true := by
    simp only [FileView.isReadable, Backing.fileReadable, Root.targetAt?, if_pos short, targetAt?, resolved, stands,
      Option.isSome_some]
  rcases List.eq_nil_or_concat' names with rfl | ⟨front, name, rfl⟩
  · rw [List.append_nil, leads.directory] at found
    cases found
  · rw [← List.append_assoc] at found short readable ⊢
    obtain ⟨reached, further⟩ := named.descend?_eq leads (fun other among => isNames other (List.mem_append_left _ among))
      (named.stands found) (Root.admits_of_prefix (List.prefix_append _ _) short)
    have present : (⟨⟨mount.root.node.root, mount.root.node.path ++ front⟩, mount.root.readOnly⟩ :
        DirectoryView DirectoryNode).file? disk name =
          some ⟨⟨mount.root.node.root, mount.root.node.path ++ front ++ [name]⟩, mount.root.readOnly⟩ := by
      have child : (DirectoryNode.mk mount.root.node.root (mount.root.node.path ++ front)).child? disk
          DirectoryNode.isFile name = some (mount.root.node.path ++ front ++ [name]) :=
        named.child?_eq further (isNames name (by simp)) found rfl short
      simp only [DirectoryView.file?, Backing.file?, child, Option.map_some]
    simp only [Mount.openFile, Mount.locate, normal, Except.bind, Mount.locateAlong, List.getLast?_concat,
      List.dropLast_concat, reached, present, readable]
    rfl

end Host.Disk.Named

namespace Tool

open Host.Disk

variable {disk later : Disk} {fileLimit : Nat} {start top : Location} {root : Root} {roots : Service.Roots}
  {place : Place} {path : String} {names : List String} {bytes : Bytes} {log : Option Location}

theorem grown_diskAt (sound : disk.Sound) (log : Option Location) (lines : Nat → Bytes) (moment : Nat) :
    disk.Grown log (diskAt log lines disk moment) := by
  have step : ∀ {later : Disk} (more : Bytes), disk.Grown log later →
      disk.Grown log ((log.map fun place => later.append place more).getD later) := by
    intro later more grown
    cases log with
    | none => exact grown
    | some place => exact grown.append rfl more
  induction moment with
  | zero => exact step _ ⟨sound, fun place => .inl rfl⟩
  | succ moment ih => exact step _ ih

def Place.root? (roots : Service.Roots) : Place → Option String
  | .sdCard => roots.sdmc
  | .space which => roots.space? which

/-- What is browsed at a place is a directory of the host, which opens as a root. -/
def Place.Opens (roots : Service.Roots) (disk : Disk) (fileLimit : Nat) (start : Location) (place : Place)
    (root : Root) (top : Location) : Prop :=
  ∃ text, place.root? roots = some text ∧ disk.openRoot fileLimit start text = .ok ⟨root, root⟩ ∧
    disk.resolve root = .ok top

def Place.readOnly : Place → Bool
  | .sdCard => false
  | .space _ => true

def Place.mount (root : Root) (place : Place) : Mount DirectoryNode := ⟨⟨⟨root, root⟩, place.readOnly⟩⟩

theorem mount_eq (opens : place.Opens roots disk fileLimit start root top) (grown : disk.Grown log later)
    (meter : Service.Roots.SpaceMeter) :
    (∃ space, mount (hostCollaborators start meter fileLimit roots) later place = .ok ⟨place.mount root, space⟩) ∧
      disk.Leads root top := by
  obtain ⟨text, configured, opened, resolved⟩ := opens
  obtain ⟨own, there, same, -, leads, directory, -⟩ := openRoot_eq_ok opened
  obtain rfl : root = own := congrArg DirectoryNode.root same
  obtain rfl := Except.ok.inj (resolved.symm.trans leads)
  rw [← grown.openRoot_eq] at opened
  refine ⟨?_, leads, directory⟩
  cases place with
  | sdCard =>
    have configured : roots.sdmc = some text := configured
    simp [mount, hostCollaborators, Service.Roots.controller, Service.Roots.openRoot, configured, opened, Except.map,
      Except.mapError, Place.mount, Place.readOnly, DirectoryView.direct]
  | space which =>
    have configured : roots.space? which = some text := configured
    simp [mount, hostCollaborators, Service.Roots.controller, Service.Roots.openRoot, configured, opened, Except.map,
      Place.mount, Place.readOnly, DirectoryView.direct, DirectoryView.project]

/-- What is printed of an entry: its kind, its size and its name. -/
def line (kind : String) (entry : String × Nat) : String :=
  kind ++ "\t" ++ toString entry.2 ++ "\t" ++ entry.1 ++ "\n"

/-- A list has each entry of a kind in a directory once, with a number, and is ordered by their names. -/
structure Tells (disk : Disk) (holder : Location) (wanted : Entry → Bool) (number : String → Entry → Nat)
    (told : List (String × Nat)) : Prop where
  sorted : (told.map (·.1)).Pairwise (· < ·)
  exact : ∀ name n, (name, n) ∈ told ↔
    ∃ entry, disk.find? (holder ++ [name]) = some entry ∧ wanted entry = true ∧ number name entry = n

def listed (disk : Disk) (holder : Location) (wanted : Entry → Bool) (number : String → Entry → Nat) :
    List (String × Nat) :=
  ((disk.children holder).filter (wanted ·.2)).map fun e => (e.1, number e.1 e.2)

theorem tells_listed (sound : disk.Sound) (holder : Location) (wanted : Entry → Bool)
    (number : String → Entry → Nat) : Tells disk holder wanted number (listed disk holder wanted number) := by
  constructor
  · have names : (listed disk holder wanted number).map (·.1) = ((disk.children holder).filter (wanted ·.2)).map (·.1) := by
      rw [listed, List.map_map]
      rfl
    rw [names]
    refine List.Pairwise.sublist (List.filter_sublist.map _) ?_
    refine ((List.pairwise_map.mpr (disk.children_sorted holder)).and (sound.children_nodup holder)).imp ?_
    rintro a b ⟨before, apart⟩
    by_contra notBefore
    exact apart (String.le_antisymm before (String.not_lt.mp notBefore))
  · intro name n
    rw [listed, List.mem_map]
    constructor
    · rintro ⟨e, kept, same⟩
      obtain ⟨among, fits⟩ := List.mem_filter.mp kept
      obtain ⟨rfl, rfl⟩ := Prod.mk.inj same
      exact ⟨e.2, sound.mem_children.mp among, fits, rfl⟩
    · rintro ⟨entry, found, fits, rfl⟩
      exact ⟨(name, entry), List.mem_filter.mpr ⟨sound.mem_children.mpr found, fits⟩, rfl⟩

theorem Tells.congr {holder : Location} {wanted : Entry → Bool} {number other : String → Entry → Nat}
    {told : List (String × Nat)} (tells : Tells later holder wanted other told)
    (same : ∀ name, later.find? (holder ++ [name]) = disk.find? (holder ++ [name]))
    (alike : ∀ name entry, other name entry = number name entry) : Tells disk holder wanted number told := by
  refine ⟨tells.sorted, fun name n => ?_⟩
  simp only [tells.exact, same, alike]

def filesOf (disk : Disk) (holder : Location) : List (String × Nat) :=
  listed disk holder DirectoryNode.isFile fun _ entry => entry.length

def directoriesOf (disk : Disk) (holder : Location) : List (String × Nat) :=
  listed disk holder DirectoryNode.isDirectory fun name _ => disk.bytesBelow (holder ++ [name])

section Lines

variable (named : disk.Named) {dir : DirectoryView DirectoryNode} {holder : Location}
  (within : disk.Within dir.node holder)
include named within

theorem fileLines (small : ∀ name entry, disk.find? (holder ++ [name]) = some entry → entry.length < 2 ^ 63) :
    (Listing.fileEntries disk dir).map entryLine = (filesOf disk holder).map (line "f") := by
  rw [Listing.fileEntries, within.files_eq, filesOf, listed, List.map_map, List.map_map, List.map_map]
  refine List.map_congr_left fun e kept => ?_
  obtain ⟨among, fits⟩ := List.mem_filter.mp kept
  have found := named.mem_children.mp among
  have proper := (named.of_find? found e.1 (by simp)).1
  have word : e.2.length < 2 ^ 64 := Nat.lt_trans (small e.1 e.2 found) (by decide)
  have size := named.fileSize_eq within found fits
  simp only [Function.comp_apply, entryLine, line, FileView.name, FileView.size, Backing.fileName,
    lastName_concat proper, size, UInt64.toNat_ofNat_of_lt' word]

theorem directoryLines (small : ∀ name, disk.bytesBelow (holder ++ [name]) < 2 ^ 64) :
    (Listing.directoryEntries disk dir).map entryLine = (directoriesOf disk holder).map (line "d") := by
  rw [Listing.directoryEntries, within.subdirectories_eq, directoriesOf, listed, List.map_map, List.map_map,
    List.map_map]
  refine List.map_congr_left fun e kept => ?_
  obtain ⟨among, fits⟩ := List.mem_filter.mp kept
  have found := named.mem_children.mp among
  have proper := (named.of_find? found e.1 (by simp)).1
  have directory : disk.find? (holder ++ [e.1]) = some .directory := by
    rw [found]
    cases entry : e.2 with
    | directory => rfl
    | file | link => simp [entry, DirectoryNode.isDirectory] at fits
  have size : (⟨⟨dir.node.root, dir.node.path ++ [e.1]⟩, dir.readOnly⟩ : DirectoryView DirectoryNode).size disk =
    disk.bytesBelow (holder ++ [e.1]) := named.size_eq (named.within_child within directory)
  simp only [Function.comp_apply, entryLine, line, DirectoryView.name, Backing.directoryName,
    lastName_concat proper, size, UInt64.toNat_ofNat_of_lt' (small e.1)]

end Lines

section Commands

variable (genuine : disk.Genuine) (opens : place.Opens roots disk fileLimit start root top)
  (apart : ∀ spot, log = some spot → ¬ top <+: spot) (meter : Service.Roots.SpaceMeter) (lines : Nat → Bytes)
include genuine opens apart

theorem browse (moment : Nat) : (diskAt log lines disk moment).Named ∧
    (∃ space, mount (hostCollaborators start meter fileLimit roots) (diskAt log lines disk moment) place =
      .ok ⟨place.mount root, space⟩) ∧
    (diskAt log lines disk moment).Leads root top ∧
    ∀ rest, (diskAt log lines disk moment).find? (top ++ rest) = disk.find? (top ++ rest) := by
  have grown := grown_diskAt genuine.toSound log lines moment
  obtain ⟨mounted, leads⟩ := mount_eq opens grown meter
  exact ⟨grown.named genuine.toNamed, mounted, grown.leads_iff.mpr leads, grown.find?_below apart⟩

variable (normal : Mount.normalize path = .ok names)
include normal

theorem list_eq (found : disk.find? (top ++ names) = some .directory)
    (short : ∀ rest entry, disk.find? (top ++ names ++ rest) = some entry →
      root.admits (root.path ++ names ++ rest) = true)
    (small : ∀ name, disk.bytesBelow (top ++ names ++ [name]) < 2 ^ 64) :
    ∃ files directories, Tells disk (top ++ names) DirectoryNode.isFile (fun _ entry => entry.length) files ∧
      Tells disk (top ++ names) DirectoryNode.isDirectory (fun name _ => disk.bytesBelow (top ++ names ++ [name]))
        directories ∧
      list (hostCollaborators start meter fileLimit roots) (diskAt log lines disk) place path =
        .ok ("".intercalate (files.map (line "f") ++ directories.map (line "d"))) := by
  obtain ⟨space, mounted⟩ := (browse genuine opens apart meter lines 0).2.1
  obtain ⟨named, -, leads, same⟩ := browse genuine opens apart meter lines 1
  let later := diskAt log lines disk 1
  let dir : DirectoryView DirectoryNode := ⟨⟨root, root.path ++ names⟩, place.readOnly⟩
  have inside : ∀ rest, later.find? (top ++ names ++ rest) = disk.find? (top ++ names ++ rest) := by
    simpa only [List.append_assoc] using fun rest => same (names ++ rest)
  have admitted : root.admits (root.path ++ names) = true := by
    have here := short [] .directory (by rwa [List.append_nil])
    rwa [List.append_nil] at here
  have opened : (place.mount root).openDirectory later path = .ok dir :=
    named.openDirectory_eq leads normal admitted ((same names).trans found)
  have within : later.Within dir.node (top ++ names) := by
    let view := (place.mount root).root
    have further : later.Leads (view.node.path ++ names) (top ++ names) :=
      (named.descend?_eq leads (Memory.normalize_ok normal).2 ((same names).trans found) admitted).2
    exact ⟨further, fun rest entry stands => short rest entry ((inside rest).symm.trans stands)⟩
  have weights : ∀ name, later.bytesBelow (top ++ names ++ [name]) = disk.bytesBelow (top ++ names ++ [name]) := by
    intro name
    rw [List.append_assoc]
    exact (grown_diskAt genuine.toSound log lines 1).bytesBelow_eq apart genuine.toSound _
  refine ⟨filesOf later (top ++ names), directoriesOf later (top ++ names), ?_, ?_, ?_⟩
  · exact (tells_listed named.toSound _ _ _).congr (fun name => inside [name]) fun _ _ => rfl
  · exact (tells_listed named.toSound _ _ _).congr (fun name => inside [name]) fun name _ => weights name
  · have files : (Listing.fileEntries later dir).map entryLine = (filesOf later (top ++ names)).map (line "f") :=
      fileLines named within fun name entry stands => genuine.length_lt ((inside [name]).symm.trans stands)
    have directories : (Listing.directoryEntries later dir).map entryLine =
        (directoriesOf later (top ++ names)).map (line "d") :=
      directoryLines named within fun name => (weights name).trans_lt (small name)
    have session : (⟨place.mount root, space⟩ : FileSystem DirectoryNode).openDirectory later path 0 =
        .ok ⟨Listing.fileEntries later dir ++ Listing.directoryEntries later dir⟩ := by
      simp only [FileSystem.openDirectory, bind, Except.bind, opened]
      rfl
    simp only [list, mounted, bind, Except.bind]
    rw [session]
    simp only [Except.mapError, fetchAll_eq, List.map_append, files, directories]
    rfl

end Commands

section Saves

open Wire (SaveDataSpace SaveDataType SaveInfo)

/-- The lowest digits of a number in base sixteen, highest first. -/
def digits (width n : Nat) : List Char :=
  (List.range width).map fun place => "0123456789ABCDEF".toList.getD (n / 16 ^ (width - 1 - place) % 16) ' '

end Saves

end Tool

end GuestStorage
