import GuestStorage.Proofs.Host.Resolve
import Mathlib.Data.List.Nodup
import Mathlib.Data.List.Perm.Subperm

namespace GuestStorage.Host.Disk

variable {disk other : Disk} {holder spot there : Location} {name : String} {entry : Entry}

theorem isChildOf_iff : isChildOf holder there = true ↔ ∃ name, there = holder ++ [name] := by
  rw [isChildOf, Bool.and_eq_true, beq_iff_eq, List.isPrefixOf_iff_prefix]
  constructor
  · intro child
    obtain ⟨long, rest, rfl⟩ := child
    rw [List.length_append, Nat.add_left_cancel_iff] at long
    obtain ⟨name, rfl⟩ := List.length_eq_one_iff.mp long
    exact ⟨name, rfl⟩
  · intro child
    obtain ⟨name, rfl⟩ := child
    exact ⟨by simp, List.prefix_append _ _⟩

theorem insertByName_perm (child : String × Entry) (listing : List (String × Entry)) :
    (insertByName child listing).Perm (child :: listing) := by
  induction listing with
  | nil => exact .refl _
  | cons next rest ih =>
    rw [insertByName]
    split
    · exact (ih.cons next).trans (.swap child next rest)
    · exact .refl _

theorem children_perm (disk : Disk) (holder : Location) :
    (disk.children holder).Perm ((disk.entries.filter fun e => isChildOf holder e.1).map fun e =>
      (e.1.getLast?.getD "", e.2)) := by
  have sorted : ∀ listing : List (String × Entry), (listing.foldr insertByName []).Perm listing := by
    intro listing
    induction listing with
    | nil => exact .refl _
    | cons child rest ih => exact (insertByName_perm child _).trans (ih.cons child)
  exact sorted _

theorem insertByName_sorted {child : String × Entry} {listing : List (String × Entry)}
    (sorted : listing.Pairwise (·.1 ≤ ·.1)) : (insertByName child listing).Pairwise (·.1 ≤ ·.1) := by
  induction listing with
  | nil => exact List.pairwise_singleton _ _
  | cons next rest ih =>
    obtain ⟨first, others⟩ := List.pairwise_cons.mp sorted
    rw [insertByName]
    split
    · rename_i earlier
      refine List.pairwise_cons.mpr ⟨fun x among => ?_, ih others⟩
      rcases List.mem_cons.mp ((insertByName_perm child rest).mem_iff.mp among) with rfl | later
      · exact String.not_lt.mp (String.lt_asymm earlier)
      · exact first x later
    · rename_i notEarlier
      have before : child.1 ≤ next.1 := String.not_lt.mp notEarlier
      refine List.pairwise_cons.mpr ⟨fun x among => ?_, sorted⟩
      rcases List.mem_cons.mp among with rfl | later
      · exact before
      · exact String.le_trans before (first x later)

theorem children_sorted (disk : Disk) (holder : Location) : (disk.children holder).Pairwise (·.1 ≤ ·.1) := by
  rw [children]
  generalize ((disk.entries.filter fun e => isChildOf holder e.1).map fun e => (e.1.getLast?.getD "", e.2)) = listing
  induction listing with
  | nil => exact .nil
  | cons child rest ih => exact insertByName_sorted ih

theorem list_eq_ok {path : Location} {entries : List (String × Entry)} :
    disk.list path = .ok entries ↔
      ∃ place, disk.resolve path = .ok place ∧ disk.find? place = some .directory ∧ disk.children place = entries := by
  rw [list]
  cases disk.resolve path with
  | error why => simp
  | ok place =>
    cases found : disk.find? place with
    | none => simp [found]
    | some entry => cases entry <;> simp [found]

namespace Sound

variable (sound : disk.Sound)
include sound

theorem mem_children {child : String × Entry} :
    child ∈ disk.children holder ↔ disk.find? (holder ++ [child.1]) = some child.2 := by
  rw [(disk.children_perm holder).mem_iff, List.mem_map]
  constructor
  · rintro ⟨e, kept, rfl⟩
    obtain ⟨stands, isChild⟩ := List.mem_filter.mp kept
    obtain ⟨name, same⟩ := isChildOf_iff.mp isChild
    have whole : e = (holder ++ [name], e.2) := Prod.ext same rfl
    rw [same, List.getLast?_concat, Option.getD_some]
    exact sound.find?_of_listed (whole ▸ stands)
  · intro found
    refine ⟨_, List.mem_filter.mpr ⟨mem_of_find? (by simp) found, isChildOf_iff.mpr ⟨child.1, rfl⟩⟩, ?_⟩
    rw [List.getLast?_concat, Option.getD_some]

theorem children_nodup (holder : Location) : ((disk.children holder).map (·.1)).Nodup := by
  refine ((disk.children_perm holder).map (·.1)).nodup_iff.mpr ?_
  rw [List.map_map]
  refine List.Nodup.map_on ?_ ((List.Nodup.of_map _ sound.places_nodup).filter _)
  intro e listed other also same
  obtain ⟨stands, child⟩ := List.mem_filter.mp listed
  obtain ⟨alsoStands, alsoChild⟩ := List.mem_filter.mp also
  obtain ⟨name, place⟩ := isChildOf_iff.mp child
  obtain ⟨name', place'⟩ := isChildOf_iff.mp alsoChild
  simp only [Function.comp, place, place', List.getLast?_concat, Option.getD_some] at same
  exact List.inj_on_of_nodup_map sound.places_nodup stands alsoStands (by rw [place, place', same])

/-- Listings have an order of their own, so what they show depends only on what of it stands in a directory. -/
theorem children_filter_eq (sound' : other.Sound) {wanted : Entry → Bool}
    (same : ∀ name entry, wanted entry = true →
      (other.find? (spot ++ [name]) = some entry ↔ disk.find? (holder ++ [name]) = some entry)) :
    (other.children spot).filter (wanted ·.2) = (disk.children holder).filter (wanted ·.2) := by
  have one := (List.Nodup.of_map _ (sound.children_nodup holder)).filter (wanted ·.2)
  have two := (List.Nodup.of_map _ (sound'.children_nodup spot)).filter (wanted ·.2)
  have perm : ((other.children spot).filter (wanted ·.2)).Perm ((disk.children holder).filter (wanted ·.2)) := by
    refine (List.perm_ext_iff_of_nodup two one).mpr fun child => ?_
    rw [List.mem_filter, List.mem_filter]
    refine and_congr_left fun fits => ?_
    rw [sound'.mem_children, sound.mem_children, same _ _ fits]
  refine List.Perm.eq_of_pairwise (fun a b left right le ge => ?_) ((other.children_sorted spot).filter _)
    ((disk.children_sorted holder).filter _) perm
  have names : a.1 = b.1 := String.le_antisymm le ge
  exact List.inj_on_of_nodup_map (sound.children_nodup holder) (List.mem_of_mem_filter (perm.mem_iff.mp left))
    (List.mem_of_mem_filter right) names

theorem any_child_iff : (disk.entries.any fun e => isChildOf there e.1) = true ↔
    ∃ name entry, disk.find? (there ++ [name]) = some entry := by
  rw [List.any_eq_true]
  constructor
  · rintro ⟨e, listed, child⟩
    obtain ⟨name, same⟩ := isChildOf_iff.mp child
    have whole : e = (there ++ [name], e.2) := Prod.ext same rfl
    exact ⟨name, e.2, sound.find?_of_listed (whole ▸ listed)⟩
  · rintro ⟨name, entry, found⟩
    exact ⟨_, mem_of_find? (by simp) found, isChildOf_iff.mpr ⟨name, rfl⟩⟩

end Sound

theorem bare_of_no_child (bare : (disk.entries.any fun e => isChildOf there e.1) = false)
    (sound : disk.Sound) (e : Location × Entry) (listed : e ∈ disk.entries) : e.1.dropLast ≠ there := by
  intro here
  have some_ := sound.below_top e listed
  have child : isChildOf there e.1 = true :=
    isChildOf_iff.mpr ⟨e.1.getLast some_, by rw [← here, List.dropLast_append_getLast]⟩
  have childless := List.any_eq_false.mp bare e listed
  exact childless child

section Below

def below (disk : Disk) (place : Location) : List (List String × Entry) :=
  (disk.within place).entries.map fun e => (e.1.drop place.length, e.2)

theorem population_eq {dir : DirectoryNode} (leads : disk.resolve dir.path = .ok there) :
    dir.population disk = (disk.below there).length := by
  simp only [DirectoryNode.population, leads, below, within, List.length_map, ← List.countP_eq_length_filter]
  refine List.countP_congr fun e _ => ?_
  rw [Bool.and_eq_true, List.isPrefixOf_iff_prefix, bne_iff_ne, decide_eq_true_iff]
  rfl

variable (sound : disk.Sound)
include sound

theorem Sound.mem_below {rest : List String} :
    (rest, entry) ∈ disk.below there ↔ rest ≠ [] ∧ disk.find? (there ++ rest) = some entry := by
  rw [below, List.mem_map]
  constructor
  · rintro ⟨e, kept, whole⟩
    obtain ⟨listed, inside⟩ := List.mem_filter.mp kept
    obtain ⟨⟨more, same⟩, apart⟩ := of_decide_eq_true inside
    rw [← same, List.drop_left] at whole
    obtain ⟨rfl, rfl⟩ := Prod.mk.inj whole
    refine ⟨fun none => apart ?_, sound.find?_of_listed (same ▸ listed)⟩
    rw [← same, none, List.append_nil]
  · rintro ⟨some_, found⟩
    refine ⟨(there ++ rest, entry), List.mem_filter.mpr ⟨mem_of_find? (by simp [some_]) found, ?_⟩, ?_⟩
    · exact decide_eq_true (below_append some_ there)
    · rw [List.drop_left]

theorem Sound.below_nodup (place : Location) : ((disk.below place).map (·.1)).Nodup := by
  rw [below, List.map_map]
  refine List.Nodup.map_on ?_ ((List.Nodup.of_map _ sound.places_nodup).filter _)
  intro e listed other also same
  obtain ⟨stands, inside⟩ := List.mem_filter.mp listed
  obtain ⟨alsoStands, alsoInside⟩ := List.mem_filter.mp also
  obtain ⟨⟨rest, whole⟩, -⟩ := of_decide_eq_true inside
  obtain ⟨⟨rest', whole'⟩, -⟩ := of_decide_eq_true alsoInside
  simp only [Function.comp, ← whole, ← whole', List.drop_left] at same
  exact List.inj_on_of_nodup_map sound.places_nodup stands alsoStands (by rw [← whole, ← whole', same])

theorem Sound.below_perm (sound' : other.Sound)
    (same : ∀ rest, other.find? (spot ++ rest) = disk.find? (there ++ rest)) :
    (other.below spot).Perm (disk.below there) := by
  have one := List.Nodup.of_map _ (sound.below_nodup there)
  have two := List.Nodup.of_map _ (sound'.below_nodup spot)
  refine (List.perm_ext_iff_of_nodup two one).mpr fun e => ?_
  rw [sound'.mem_below, sound.mem_below, same]

theorem Sound.find?_of_below (sound' : other.Sound) (directory : disk.find? there = some .directory)
    (directory' : other.find? spot = some .directory) (same : (other.below spot).Perm (disk.below there))
    (rest : List String) : other.find? (spot ++ rest) = disk.find? (there ++ rest) := by
  by_cases here : rest = []
  · rw [here, List.append_nil, List.append_nil, directory, directory']
  · refine Option.ext fun entry => ?_
    have among := same.mem_iff (a := (rest, entry))
    rw [sound'.mem_below, sound.mem_below] at among
    exact (and_congr_right_iff.mp among) here

theorem Sound.length_le_below {names : List String} (found : disk.find? (there ++ names) = some .directory) :
    names.length ≤ (disk.below there).length := by
  let passed (i : Nat) : List String := names.take (i + 1)
  have lengths : ∀ i < names.length, (passed i).length = i + 1 := by
    intro i small
    rw [List.length_take, Nat.min_eq_left small]
  have distinct : ((List.range names.length).map passed).Nodup := by
    refine List.Nodup.map_on ?_ List.nodup_range
    intro i small j alsoSmall same
    have one := lengths i (List.mem_range.mp small)
    have other := lengths j (List.mem_range.mp alsoSmall)
    rw [same] at one
    omega
  have stands : (List.range names.length).map passed ⊆ (disk.below there).map (·.1) := by
    intro way among
    obtain ⟨i, small, rfl⟩ := List.mem_map.mp among
    have some_ : passed i ≠ [] := List.ne_nil_of_length_eq_add_one (lengths i (List.mem_range.mp small))
    have whole : there ++ passed i ++ names.drop (i + 1) = there ++ names := by
      rw [List.append_assoc, List.take_append_drop]
    have entry : ∃ entry, disk.find? (there ++ passed i) = some entry := by
      by_cases last : names.drop (i + 1) = []
      · rw [last, List.append_nil] at whole
        exact ⟨_, whole ▸ found⟩
      · exact ⟨_, sound.stands_below last (whole ▸ found)⟩
    obtain ⟨entry, stood⟩ := entry
    exact List.mem_map_of_mem (sound.mem_below.mpr ⟨some_, stood⟩)
  have bound := (List.subperm_of_subset distinct stands).length_le
  simpa using bound

theorem Sound.lt_reach {dir : DirectoryNode} {more : List String}
    (leads : disk.resolve dir.path = .ok there) (found : disk.find? (there ++ more) = some .directory) :
    more.length < Tree.Backing.reach disk dir := by
  have bound := sound.length_le_below found
  simp only [Tree.Backing.reach, population_eq leads]
  omega

end Below

end GuestStorage.Host.Disk

namespace GuestStorage.Host.Root

variable {root : Root} {disk other : Disk} {path : Location}

theorem admits_of_prefix {short : Location} (within : short <+: path) (admitted : root.admits path = true) :
    root.admits short = true := by
  obtain ⟨rest, rfl⟩ := within
  have long := of_decide_eq_true admitted
  refine decide_eq_true (Nat.le_trans ?_ long)
  rw [textLength_append]
  exact Nat.le_add_right _ _

theorem entryAt?_congr (same : other.entryAt? path = disk.entryAt? path) :
    root.entryAt? other path = root.entryAt? disk path := by rw [entryAt?, entryAt?, same]

theorem targetAt?_congr (same : other.targetAt? path = disk.targetAt? path) :
    root.targetAt? other path = root.targetAt? disk path := by rw [targetAt?, targetAt?, same]

theorem entryAt?_eq_some {entry : Entry} :
    root.entryAt? disk path = some entry ↔ root.admits path = true ∧ disk.entryAt? path = some entry := by
  rw [entryAt?, Option.ite_none_right_eq_some]

theorem targetAt?_eq_some {entry : Entry} :
    root.targetAt? disk path = some entry ↔ root.admits path = true ∧ disk.targetAt? path = some entry := by
  rw [targetAt?, Option.ite_none_right_eq_some]

end GuestStorage.Host.Root

namespace GuestStorage.Host.DirectoryNode

variable {α : Type}

theorem child?_eq_some {disk : Disk} {dir : DirectoryNode} {wanted : Entry → Bool} {name : String}
    {child : Location} :
    dir.child? disk wanted name = some child ↔
      validName name = true ∧ dir.root.admits (dir.childPath name) = true ∧
        (∃ entry, disk.entryAt? (dir.childPath name) = some entry ∧ wanted entry = true) ∧
        dir.childPath name = child := by
  rw [child?, Option.ite_none_right_eq_some, Bool.and_eq_true, Option.any_eq_true, Option.some.injEq]
  simp only [Root.entryAt?_eq_some, and_assoc, exists_and_left]

theorem mem_childPaths {disk : Disk} {dir : DirectoryNode} {wanted : Entry → Bool} {child : Location} :
    child ∈ dir.childPaths disk wanted ↔
      dir.root.admits dir.path = true ∧ ∃ entries, disk.list dir.path = .ok entries ∧
        ∃ e ∈ entries, wanted e.2 = true ∧ dir.childPath e.1 = child := by
  rw [childPaths]
  split
  · rename_i refused
    refine iff_of_false List.not_mem_nil fun ⟨admitted, entries, listed, _⟩ => ?_
    rw [Root.handing_of_admits admitted, listed] at refused
    cases refused
  · rename_i entries listed
    obtain ⟨admitted, listed⟩ := Root.handing_eq_ok.mp listed
    simp only [listed, Except.ok.injEq, exists_eq_left', admitted, true_and, List.mem_map, List.mem_filter, and_assoc]

theorem childPaths_congr {disk other : Disk} {dir : DirectoryNode} {wanted : Entry → Bool}
    (same : (other.list dir.path).map (·.filter (wanted ·.2)) = (disk.list dir.path).map (·.filter (wanted ·.2))) :
    dir.childPaths other wanted = dir.childPaths disk wanted := by
  rw [childPaths, childPaths]
  by_cases admitted : dir.root.admits dir.path = true
  · rw [Root.handing_of_admits admitted, Root.handing_of_admits admitted]
    cases left : disk.list dir.path with
    | error why =>
      cases right : other.list dir.path with
      | error why' => rfl
      | ok entries =>
        rw [left, right] at same
        cases same
    | ok entries =>
      cases right : other.list dir.path with
      | error why' =>
        rw [left, right] at same
        cases same
      | ok entries' =>
        rw [left, right] at same
        simp only [Except.ok.inj same]
  · rw [Root.handing, Root.handing, if_neg admitted, if_neg admitted]

def createChild (node : Root → Location → α) (entry : Entry) (disk : Disk) (dir : DirectoryNode) (name : String) :
    Option α × Disk :=
  if !validName name then (none, disk)
  else
    match dir.root.handing (dir.childPath name) (disk.create (dir.childPath name) entry) with
    | .error _ => (none, disk)
    | .ok disk => (some (node dir.root (dir.childPath name)), disk)

def removeChild (wanted : Entry → Bool) (remove : Disk → Location → Except Refusal Disk) (disk : Disk)
    (dir : DirectoryNode) (name : String) : Bool × Disk :=
  match dir.child? disk wanted name with
  | none => (false, disk)
  | some child =>
    match remove disk child with
    | .error _ => (false, disk)
    | .ok disk => (true, disk)

theorem createFile_eq (disk : Disk) (dir : DirectoryNode) (name : String) :
    createFile disk dir name = createChild FileNode.mk (.file []) disk dir name := rfl

theorem createSubdirectory_eq (disk : Disk) (dir : DirectoryNode) (name : String) :
    createSubdirectory disk dir name = createChild DirectoryNode.mk .directory disk dir name := rfl

theorem deleteFile_eq (disk : Disk) (dir : DirectoryNode) (name : String) :
    deleteFile disk dir name = removeChild isFile Disk.removeFile disk dir name := rfl

theorem deleteSubdirectory_eq (disk : Disk) (dir : DirectoryNode) (name : String) :
    deleteSubdirectory disk dir name = removeChild isDirectory Disk.removeDirectory disk dir name := rfl

theorem createChild_cases (node : Root → Location → α) (entry : Entry) (disk : Disk) (dir : DirectoryNode)
    (name : String) :
    createChild node entry disk dir name = (none, disk) ∨
      ∃ after, validName name = true ∧ dir.root.admits (dir.childPath name) = true ∧
        disk.create (dir.childPath name) entry = .ok after ∧
        createChild node entry disk dir name = (some (node dir.root (dir.childPath name)), after) := by
  rw [createChild]
  split
  · exact .inl rfl
  · rename_i valid
    split
    · exact .inl rfl
    · rename_i after created
      obtain ⟨admitted, created⟩ := Root.handing_eq_ok.mp created
      exact .inr ⟨after, by simpa using valid, admitted, created, rfl⟩

theorem removeChild_cases (wanted : Entry → Bool) (remove : Disk → Location → Except Refusal Disk) (disk : Disk)
    (dir : DirectoryNode) (name : String) :
    removeChild wanted remove disk dir name = (false, disk) ∨
      ∃ child after, dir.child? disk wanted name = some child ∧ remove disk child = .ok after ∧
        removeChild wanted remove disk dir name = (true, after) := by
  rw [removeChild]
  split
  · exact .inl rfl
  · rename_i child found
    split
    · exact .inl rfl
    · rename_i after removed
      exact .inr ⟨child, after, found, removed, rfl⟩

end GuestStorage.Host.DirectoryNode
