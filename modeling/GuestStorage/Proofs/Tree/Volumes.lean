import GuestStorage.Proofs.Host.Children
import GuestStorage.Proofs.Memory.Depth
import GuestStorage.Proofs.Memory.Stored
import GuestStorage.Proofs.Tree.Arboreal
import GuestStorage.Tree.Shelf

namespace GuestStorage

open GuestStorage.Tree

namespace Memory

variable {σ : Type} [Backing σ FileId DirectoryId] [Stored σ] {s : σ} {dir : DirectoryView DirectoryId}
  {way : Way DirectoryId}

theorem mem_subdirectories {sub : DirectoryView DirectoryId} : sub ∈ dir.subdirectories s ↔
    sub.node ∈ (Stored.store s).subdirectories dir.node ∧ sub.readOnly = dir.readOnly := by
  rw [DirectoryView.subdirectories, List.mem_map, Stored.subdirectories]
  constructor
  · rintro ⟨node, listed, rfl⟩
    exact ⟨listed, rfl⟩
  · rintro ⟨listed, access⟩
    exact ⟨sub.node, listed, access ▸ rfl⟩

theorem descend?_of_leads (sound : (Stored.store s).Sound) (leads : dir.Leads s way) :
    ∃ names x, names.length = way.length ∧
      (Node.directory dir.node).descend? (Stored.store s) names = some x := by
  induction way generalizing dir with
  | nil => exact ⟨[], _, rfl, rfl⟩
  | cons step rest ih =>
    obtain ⟨found, further⟩ := leads
    obtain ⟨names, x, long, reached⟩ := ih further
    have listed := (mem_subdirectories.mp (List.mem_of_getElem? found)).1
    refine ⟨(Stored.store s).directoryName step.2.node :: names, x, by simp [long], ?_⟩
    rw [Node.descend?_cons,
      Node.child?_directory_eq_some.mpr (sound.subdirectory?_eq_some.mpr ⟨listed, rfl⟩)]
    exact reached

theorem arboreal (sound : (Stored.store s).Sound) : Arboreal s := by
  constructor
  · intro dir
    rw [DirectoryView.subdirectories, Stored.subdirectories]
    refine (sound.subdirectories_nodup dir.node).map fun one other same => ?_
    exact congrArg DirectoryView.node same
  · rintro ⟨dir, access⟩ ⟨other, access'⟩ sub listed also
    obtain ⟨inside, same⟩ := mem_subdirectories.mp listed
    obtain ⟨alsoInside, same'⟩ := mem_subdirectories.mp also
    rw [sound.directory_listed] at inside alsoInside
    obtain rfl := Option.some.inj (inside.symm.trans alsoInside)
    obtain rfl : access = access' := same.symm.trans same'
    rfl
  · intro dir way _ leads
    obtain ⟨names, x, long, reached⟩ := descend?_of_leads sound leads
    rw [Stored.reach, ← long]
    exact sound.length_lt_reach reached

end Memory

namespace Host.Disk

variable {disk : Disk} {dir : DirectoryView DirectoryNode} {way : Way DirectoryNode} {path there place : Location}
  {name : String}

theorem Sound.resolve_concat (sound : disk.Sound) (leads : disk.resolve path = .ok there)
    (found : disk.find? (there ++ [name]) = some .directory) (reached : disk.resolve (path ++ [name]) = .ok place) :
    place = there ++ [name] := by
  obtain ⟨left, further⟩ := follow_append leads
  rw [resolve, further] at reached
  have proper : Proper name := sound.proper _ (mem_of_find? (by simp) found) name (by simp)
  have noLink : ∀ text, disk.find? (there ++ [name]) ≠ some (.link text) := by simp [found]
  rcases advance_cons [] proper noLink with ⟨why, refused⟩ | down
  · rw [follow_of_refused refused] at reached
    cases reached
  · rw [follow_of_arrived (down.trans rfl)] at reached
    exact (Except.ok.inj reached).symm

theorem Sound.mem_subdirectories (sound : disk.Sound) {sub : DirectoryView DirectoryNode}
    (listed : sub ∈ dir.subdirectories disk) : ∃ there name, disk.resolve dir.node.path = .ok there ∧
      disk.find? (there ++ [name]) = some .directory ∧
        sub = ⟨⟨dir.node.root, dir.node.path ++ [name]⟩, dir.readOnly⟩ := by
  obtain ⟨node, among, rfl⟩ := List.mem_map.mp listed
  obtain ⟨child, seen, rfl⟩ := List.mem_map.mp among
  obtain ⟨-, entries, whole, e, stands, fits, rfl⟩ := DirectoryNode.mem_childPaths.mp seen
  obtain ⟨there, leads, -, rfl⟩ := list_eq_ok.mp whole
  refine ⟨there, e.1, leads, ?_, rfl⟩
  rw [sound.mem_children.mp stands]
  cases entry : e.2 with
  | directory => rfl
  | file | link => simp [entry, DirectoryNode.isDirectory] at fits

theorem Sound.find?_of_leads (sound : disk.Sound) (resolved : disk.resolve dir.node.path = .ok there)
    (directory : disk.find? there = some .directory) (leads : dir.Leads disk way) :
    ∃ names, names.length = way.length ∧ disk.find? (there ++ names) = some .directory := by
  induction way generalizing dir there with
  | nil => exact ⟨[], rfl, by rwa [List.append_nil]⟩
  | cons step rest ih =>
    obtain ⟨found, further⟩ := leads
    obtain ⟨spot, name, leads, stands, sub⟩ := sound.mem_subdirectories (List.mem_of_getElem? found)
    obtain rfl := Except.ok.inj (resolved.symm.trans leads)
    cases rest with
    | nil => exact ⟨[name], rfl, stands⟩
    | cons next others =>
      -- a directory that lists another one can itself be reached
      obtain ⟨inner, -, reached, -, -⟩ := sound.mem_subdirectories (List.mem_of_getElem? further.1)
      have here : inner = there ++ [name] := sound.resolve_concat resolved stands (by rwa [sub] at reached)
      obtain ⟨names, long, below⟩ := ih (here ▸ reached) stands further
      exact ⟨name :: names, congrArg Nat.succ long, by rwa [List.append_assoc] at below⟩

theorem Sound.childPaths_nodup (sound : disk.Sound) (dir : DirectoryNode) (wanted : Entry → Bool) :
    (dir.childPaths disk wanted).Nodup := by
  rw [DirectoryNode.childPaths]
  split
  · exact List.nodup_nil
  · rename_i entries whole
    obtain ⟨holder, -, -, rfl⟩ := list_eq_ok.mp (Root.handing_eq_ok.mp whole).2
    have names := sound.children_nodup holder
    refine List.Nodup.map_on (fun one among other also same => ?_) ((List.Nodup.of_map _ names).filter _)
    have alike : one.1 = other.1 := List.singleton_inj.mp (List.append_cancel_left same)
    exact List.inj_on_of_nodup_map names (List.mem_of_mem_filter among) (List.mem_of_mem_filter also) alike

theorem Sound.arboreal (sound : disk.Sound) : Arboreal disk := by
  constructor
  · intro dir
    refine List.Nodup.map (fun one other same => congrArg DirectoryView.node same) ?_
    refine (sound.childPaths_nodup dir.node DirectoryNode.isDirectory).map fun one other same => ?_
    exact congrArg DirectoryNode.path same
  · rintro ⟨⟨root, path⟩, access⟩ ⟨⟨root', path'⟩, access'⟩ sub listed also
    obtain ⟨-, name, -, -, rfl⟩ := sound.mem_subdirectories listed
    obtain ⟨-, name', -, -, same⟩ := sound.mem_subdirectories also
    simp only [DirectoryView.mk.injEq, DirectoryNode.mk.injEq] at same
    obtain ⟨⟨rfl, paths⟩, rfl⟩ := same
    rw [(List.append_inj' paths rfl).1]
  · intro dir way _ leads
    cases way with
    | nil => exact Nat.succ_pos _
    | cons step rest =>
      obtain ⟨there, name, resolved, stands, -⟩ := sound.mem_subdirectories (List.mem_of_getElem? leads.1)
      obtain ⟨names, long, below⟩ := sound.find?_of_leads resolved (sound.stands stands) leads
      rw [← long]
      exact sound.lt_reach resolved below

end Host.Disk

namespace Tree

section Either

variable {σ τ F G D E : Type} [Backing σ F D] [Backing τ G E]

theorem copies_inl (s : σ) : Copies s (.inl s : σ ⊕ τ) (Sum.inl : D → D ⊕ E) where
  injective := Sum.inl_injective
  files _ := List.map_eq_nil_iff
  subdirectories _ := rfl
  reach _ := rfl

theorem copies_inr (t : τ) : Copies t (.inr t : σ ⊕ τ) (Sum.inr : E → D ⊕ E) where
  injective := Sum.inr_injective
  files _ := List.map_eq_nil_iff
  subdirectories _ := rfl
  reach _ := rfl

theorem Arboreal.inl {s : σ} (arboreal : Arboreal s) : Arboreal (.inl s : σ ⊕ τ) := by
  refine arboreal_of_copies (fun _ : Unit => arboreal) (fun _ => copies_inl s) (fun _ => rfl) ?_
  rintro ⟨node | node, access⟩
  · exact .inr ⟨(), ⟨node, access⟩, rfl⟩
  · exact .inl ⟨rfl, rfl⟩

theorem Arboreal.inr {t : τ} (arboreal : Arboreal t) : Arboreal (.inr t : σ ⊕ τ) := by
  refine arboreal_of_copies (fun _ : Unit => arboreal) (fun _ => copies_inr t) (fun _ => rfl) ?_
  rintro ⟨node | node, access⟩
  · exact .inl ⟨rfl, rfl⟩
  · exact .inr ⟨(), ⟨node, access⟩, rfl⟩

end Either

section Shelf

variable {σ F D : Type} [Backing σ F D] {shelf : Shelf σ}

theorem Shelf.copies (number : Fin shelf.volumes.size) :
    Copies shelf.volumes[number] shelf fun dir : D => ⟨number, dir⟩ := by
  have there : shelf.volumes[number.val]? = some shelf.volumes[number] := Array.getElem?_eq_getElem number.isLt
  refine ⟨fun dir other same => congrArg OnVolume.node same, fun dir => ?_, fun dir => ?_, fun dir => ?_⟩
  · simp only [Backing.files, Shelf.ask, there, List.map_eq_nil_iff]
  · simp only [Backing.subdirectories, Shelf.ask, there]
  · simp only [Backing.reach, Shelf.ask, there]

theorem Shelf.arboreal (each : ∀ volume ∈ shelf.volumes, Arboreal volume) : Arboreal shelf := by
  refine arboreal_of_copies (fun number => each _ (Array.getElem_mem _)) Shelf.copies (fun same => ?_) ?_
  · exact Fin.ext (congrArg OnVolume.volume same)
  · rintro ⟨⟨number, node⟩, access⟩
    by_cases there : number < shelf.volumes.size
    · exact .inr ⟨⟨number, there⟩, ⟨node, access⟩, rfl⟩
    · have missing : shelf.volumes[number]? = none := Array.getElem?_eq_none (Nat.not_lt.mp there)
      refine .inl ⟨?_, ?_⟩
      · simp [DirectoryView.files, Backing.files, Shelf.ask, missing]
      · simp [DirectoryView.subdirectories, Backing.subdirectories, Shelf.ask, missing]

end Shelf

/-- What is held in memory or on a host is well-formed. -/
def Volume.Sound : Memory.Guarded ⊕ Host.Disk → Prop
  | .inl guarded => guarded.store.Sound
  | .inr disk => disk.Sound

end Tree

end GuestStorage
