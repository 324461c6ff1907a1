import GuestStorage.Proofs.Host.Creation
import GuestStorage.Proofs.Host.Transfers
import GuestStorage.Proofs.Tree.Volumes

namespace GuestStorage.Host

open GuestStorage.Tree
open DirectoryNode (isFile isDirectory)

/-- How many bytes an entry holds by itself. -/
def Entry.length : Entry → Nat
  | .file bytes => bytes.length
  | .directory | .link _ => 0

namespace Disk

variable {disk : Disk} {path place top : Location} {name : String} {entry : Entry} {bytes : Bytes}

def bytesBelow (disk : Disk) (place : Location) : Nat := ((disk.below place).map (·.2.length)).sum

/-- Names are as long and of such characters as every host takes. -/
structure Named (disk : Disk) : Prop extends Sound disk where
  named : ∀ e ∈ disk.entries, ∀ name ∈ e.1, name.utf8ByteSize ≤ nameLimit ∧ nameAllowed name = true

/-- Offsets in files are signed numbers of 64 bits. -/
structure Genuine (disk : Disk) : Prop extends Named disk where
  lengths : ∀ e ∈ disk.entries, e.2.length < 2 ^ 63

/-- A directory stands at a place, and hosts take the paths of all that is below it. -/
structure Within (disk : Disk) (dir : DirectoryNode) (place : Location) : Prop where
  leads : disk.Leads dir.path place
  short : ∀ rest entry, disk.find? (place ++ rest) = some entry → dir.root.admits (dir.path ++ rest) = true

section Below

theorem Sound.below_split (sound : disk.Sound) (place : Location) :
    (disk.below place).Perm ((disk.children place).flatMap fun child =>
      ([child.1], child.2) :: (disk.below (place ++ [child.1])).map fun e => (child.1 :: e.1, e.2)) := by
  have one := List.Nodup.of_map _ (sound.below_nodup place)
  have other : ((disk.children place).flatMap fun child =>
      ([child.1], child.2) :: (disk.below (place ++ [child.1])).map fun e => (child.1 :: e.1, e.2)).Nodup := by
    refine List.nodup_flatMap.mpr ⟨fun child _ => List.nodup_cons.mpr ⟨fun again => ?_, ?_⟩, ?_⟩
    · obtain ⟨⟨rest, entry⟩, listed, same⟩ := List.mem_map.mp again
      obtain ⟨names, -⟩ := Prod.mk.inj same
      exact (sound.mem_below.mp listed).1 (List.cons.inj names).2
    · refine (List.Nodup.of_map _ (sound.below_nodup _)).map fun a b same => ?_
      obtain ⟨names, entries⟩ := Prod.mk.inj same
      exact Prod.ext (List.cons.inj names).2 entries
    · refine (List.pairwise_map.mp (sound.children_nodup place)).imp fun {a b} apart e left right => apart ?_
      have first : ∀ {child : String × Entry},
          e ∈ ([child.1], child.2) :: ((disk.below (place ++ [child.1])).map fun e => (child.1 :: e.1, e.2)) →
            e.1.head? = some child.1 := by
        intro child among
        rcases List.mem_cons.mp among with rfl | among
        · rfl
        · obtain ⟨e, -, rfl⟩ := List.mem_map.mp among
          rfl
      exact Option.some.inj ((first left).symm.trans (first right))
  refine (List.perm_ext_iff_of_nodup one other).mpr ?_
  rintro ⟨rest, entry⟩
  rw [sound.mem_below, List.mem_flatMap]
  constructor
  · rintro ⟨some_, found⟩
    obtain ⟨name, more, rfl⟩ := List.exists_cons_of_ne_nil some_
    by_cases last : more = []
    · subst last
      exact ⟨(name, entry), sound.mem_children.mpr found, List.mem_cons_self⟩
    · have whole : disk.find? (place ++ [name] ++ more) = some entry := by rwa [List.append_assoc]
      refine ⟨(name, .directory), sound.mem_children.mpr (sound.stands_below last whole), List.mem_cons_of_mem _ ?_⟩
      exact List.mem_map.mpr ⟨(more, entry), sound.mem_below.mpr ⟨last, whole⟩, rfl⟩
  · rintro ⟨child, listed, among⟩
    rcases List.mem_cons.mp among with same | among
    · obtain ⟨rfl, rfl⟩ := Prod.mk.inj same
      exact ⟨by simp, sound.mem_children.mp listed⟩
    · obtain ⟨⟨more, entry⟩, below, same⟩ := List.mem_map.mp among
      obtain ⟨rfl, rfl⟩ := Prod.mk.inj same
      have found := (sound.mem_below.mp below).2
      exact ⟨by simp, by rwa [List.append_assoc] at found⟩

theorem Sound.bytesBelow_eq_zero (sound : disk.Sound) (other : disk.find? place ≠ some .directory) :
    disk.bytesBelow place = 0 := by
  have none : disk.below place = [] := by
    refine List.eq_nil_iff_forall_not_mem.mpr fun e listed => ?_
    obtain ⟨some_, found⟩ := sound.mem_below.mp listed
    rw [sound.nothing_below some_ other] at found
    cases found
  rw [bytesBelow, none]
  rfl

theorem Sound.bytesBelow_eq (sound : disk.Sound) (place : Location) :
    disk.bytesBelow place = (((disk.children place).filter (isFile ·.2)).map (·.2.length)).sum +
      (((disk.children place).filter (isDirectory ·.2)).map fun e => disk.bytesBelow (place ++ [e.1])).sum := by
  have each : disk.bytesBelow place =
      ((disk.children place).map fun child => child.2.length + disk.bytesBelow (place ++ [child.1])).sum := by
    rw [bytesBelow, ((sound.below_split place).map _).sum_nat, List.map_flatMap, List.flatMap_def, List.sum_flatten,
      List.map_map]
    simp [bytesBelow, Function.comp_def]
  rw [each]
  have stands : ∀ child ∈ disk.children place, disk.find? (place ++ [child.1]) = some child.2 :=
    fun child => sound.mem_children.mp
  generalize disk.children place = listing at stands
  induction listing with
  | nil => rfl
  | cons child rest ih =>
    have own := stands child List.mem_cons_self
    rw [List.map_cons, List.sum_cons, ih fun other among => stands other (List.mem_cons_of_mem _ among)]
    cases entry : child.2 with
    | directory =>
      simp [isFile, isDirectory, entry, Entry.length]
      omega
    | file bytes =>
      have none : disk.bytesBelow (place ++ [child.1]) = 0 := sound.bytesBelow_eq_zero (by simp [own, entry])
      simp [isFile, isDirectory, entry, none]
      omega
    | link text =>
      have none : disk.bytesBelow (place ++ [child.1]) = 0 := sound.bytesBelow_eq_zero (by simp [own, entry])
      simp [isFile, isDirectory, entry, none, Entry.length]

end Below

section Listing

variable {dir : DirectoryView DirectoryNode}

theorem Within.childPaths_eq {node : DirectoryNode} (within : disk.Within node place) (wanted : Entry → Bool) :
    node.childPaths disk wanted =
      ((disk.children place).filter (wanted ·.2)).map fun e => node.path ++ [e.1] := by
  have listing : disk.list node.path = .ok (disk.children place) :=
    list_eq_ok.mpr ⟨place, within.leads.resolve, within.leads.directory, rfl⟩
  have here := within.short [] .directory (by rw [List.append_nil, within.leads.directory])
  rw [List.append_nil] at here
  simp only [DirectoryNode.childPaths, DirectoryNode.childPath, Root.handing_of_admits here, listing]

theorem Within.files_eq (within : disk.Within dir.node place) : dir.files disk =
    ((disk.children place).filter (isFile ·.2)).map fun e =>
      ⟨⟨dir.node.root, dir.node.path ++ [e.1]⟩, dir.readOnly⟩ := by
  simp only [DirectoryView.files, Backing.files, within.childPaths_eq, List.map_map, Function.comp_def]

theorem Within.subdirectories_eq (within : disk.Within dir.node place) : dir.subdirectories disk =
    ((disk.children place).filter (isDirectory ·.2)).map fun e =>
      ⟨⟨dir.node.root, dir.node.path ++ [e.1]⟩, dir.readOnly⟩ := by
  simp only [DirectoryView.subdirectories, Backing.subdirectories, within.childPaths_eq, List.map_map,
    Function.comp_def]

end Listing

theorem Genuine.length_lt (genuine : disk.Genuine) (found : disk.find? place = some entry) : entry.length < 2 ^ 63 := by
  by_cases top : place = []
  · subst top
    cases found
    decide
  · exact genuine.lengths _ (mem_of_find? top found)

namespace Named

variable (named : disk.Named) {dir : DirectoryView DirectoryNode}
include named

theorem of_find? (found : disk.find? place = some entry) :
    ∀ name ∈ place, Proper name ∧ name.utf8ByteSize ≤ nameLimit ∧ nameAllowed name = true := by
  by_cases top : place = []
  · simp [top]
  · have listed := mem_of_find? top found
    exact fun name among => ⟨named.proper _ listed name among, named.named _ listed name among⟩

theorem resolve_child (leads : disk.Leads path place) (found : disk.find? (place ++ [name]) = some entry)
    (noLink : ∀ text, entry ≠ .link text) : disk.resolve (path ++ [name]) = .ok (place ++ [name]) := by
  obtain ⟨proper, short, -⟩ := named.of_find? found name (by simp)
  exact leads.resolve_child proper short found noLink

theorem leads_child (leads : disk.Leads path place) (found : disk.find? (place ++ [name]) = some .directory) :
    disk.Leads (path ++ [name]) (place ++ [name]) :=
  ⟨named.resolve_child leads found nofun, found⟩

theorem within_child (within : disk.Within dir.node place)
    (found : disk.find? (place ++ [name]) = some .directory) :
    disk.Within (dir.node.down [name]) (place ++ [name]) := by
  refine ⟨named.leads_child within.leads found, fun rest entry there => ?_⟩
  rw [List.append_assoc] at there
  simpa [DirectoryNode.down] using within.short _ _ there

theorem leadsToFile_child {root : Root} (leads : disk.Leads path place)
    (found : disk.find? (place ++ [name]) = some (.file bytes)) (short : root.admits (path ++ [name]) = true) :
    disk.LeadsToFile root (path ++ [name]) bytes :=
  ⟨short, _, named.resolve_child leads found nofun, found⟩

theorem fileSize_eq (within : disk.Within dir.node place) (found : disk.find? (place ++ [name]) = some entry)
    (file : isFile entry = true) :
    Backing.fileSize disk (FileNode.mk dir.node.root (dir.node.path ++ [name])) = entry.length := by
  cases entry with
  | file bytes => exact (named.leadsToFile_child within.leads found (within.short _ _ found)).size
  | directory | link => cases file

theorem weighs_eq {dirs : List (DirectoryView DirectoryNode)} {total : Nat} (weighs : Weighs disk dirs total)
    {places : List Location} (leads : List.Forall₂ (fun dir place => disk.Within dir.node place) dirs places) :
    total = (places.map disk.bytesBelow).sum := by
  induction weighs generalizing places with
  | nil =>
    cases leads
    rfl
  | @cons dir rest inside others _ _ below beside =>
    cases leads with
    | @cons _ place _ more here further =>
      rw [List.map_cons, List.sum_cons, named.bytesBelow_eq place, ← beside further]
      have stands : ∀ {wanted : Entry → Bool}, ∀ e ∈ (disk.children place).filter (wanted ·.2),
          disk.find? (place ++ [e.1]) = some e.2 ∧ wanted e.2 = true := by
        intro wanted e kept
        obtain ⟨listed, fits⟩ := List.mem_filter.mp kept
        exact ⟨named.mem_children.mp listed, fits⟩
      have files : ((dir.files disk).map (·.size disk)).sum =
          (((disk.children place).filter (isFile ·.2)).map (·.2.length)).sum := by
        rw [here.files_eq, List.map_map]
        refine congrArg List.sum (List.map_congr_left fun e kept => ?_)
        exact named.fileSize_eq here (stands e kept).1 (stands e kept).2
      have within : List.Forall₂ (fun dir place => disk.Within dir.node place) (dir.subdirectories disk)
          (((disk.children place).filter (isDirectory ·.2)).map fun e => place ++ [e.1]) := by
        rw [here.subdirectories_eq, List.forall₂_map_left_iff, List.forall₂_map_right_iff, List.forall₂_same]
        intro e kept
        obtain ⟨found, fits⟩ := stands e kept
        cases entry : e.2 with
        | directory => exact named.within_child here (entry ▸ found)
        | file | link => simp [entry, isDirectory] at fits
      rw [files, below within, List.map_map]
      rfl

theorem size_eq (within : disk.Within dir.node place) : dir.size disk = disk.bytesBelow place := by
  have total := named.weighs_eq (named.arboreal.weighs_size dir) (.cons within .nil)
  rw [total, List.map_singleton, List.sum_singleton]

section Names

open GuestStorage.Path (IsName)

variable {names : List String}

theorem child?_eq {node : DirectoryNode} (leads : disk.Leads node.path place) (isName : IsName name)
    (found : disk.find? (place ++ [name]) = some entry) {wanted : Entry → Bool} (fits : wanted entry = true)
    (short : node.root.admits (node.path ++ [name]) = true) :
    node.child? disk wanted name = some (node.path ++ [name]) := by
  obtain ⟨proper, fitting, clean⟩ := named.of_find? found name (by simp)
  have usable : Path.Usable name :=
    usable_iff.mpr ⟨(usable_iff.mp ⟨isName, proper, by simpa [nameAllowed] using clean, fitting⟩).1, fitting, clean⟩
  rw [DirectoryNode.child?, DirectoryNode.childPath, Root.entryAt?, if_pos short, entryAt?, leads.resolveParent usable]
  simp only [found, Option.any_some, fits, (usable_iff.mp usable).1, Bool.and_self, if_true]

theorem descend?_eq (leads : disk.Leads dir.node.path top) (isNames : ∀ name ∈ names, IsName name)
    (found : disk.find? (top ++ names) = some .directory)
    (short : dir.node.root.admits (dir.node.path ++ names) = true) :
    dir.descend? disk names = some ⟨⟨dir.node.root, dir.node.path ++ names⟩, dir.readOnly⟩ ∧
      disk.Leads (dir.node.path ++ names) (top ++ names) := by
  induction names generalizing dir top with
  | nil => simpa [DirectoryView.descend?] using leads
  | cons name rest ih =>
    have isName := isNames name List.mem_cons_self
    have whole : ∀ start : Location, start ++ name :: rest = start ++ [name] ++ rest := fun start => by simp
    rw [whole] at found short ⊢
    have next : disk.find? (top ++ [name]) = some .directory := by
      by_cases last : rest = []
      · rwa [last, List.append_nil] at found
      · exact named.stands_below last found
    let inner : DirectoryView DirectoryNode := ⟨⟨dir.node.root, dir.node.path ++ [name]⟩, dir.readOnly⟩
    have within : disk.Leads inner.node.path (top ++ [name]) := named.leads_child leads next
    have here : dir.subdirectory? disk name = some inner := by
      simp only [DirectoryView.subdirectory?, Backing.subdirectory?, named.child?_eq leads isName next
        (show isDirectory .directory = true from rfl) (Root.admits_of_prefix (List.prefix_append _ _) short),
        Option.map_some, inner]
    obtain ⟨reached, further⟩ :=
      ih within (fun other among => isNames other (List.mem_cons_of_mem _ among)) found short
    rw [whole]
    refine ⟨?_, further⟩
    rw [DirectoryView.descend?, List.foldlM_cons, here]
    exact reached

end Names

end Named

end Disk

end GuestStorage.Host
