import GuestStorage.Proofs.Host.Ground
import GuestStorage.Proofs.Memory.Build
import GuestStorage.Proofs.Memory.Ground
import GuestStorage.Proofs.Save.Runs

namespace GuestStorage.Save

open Session GuestStorage.Tree
open Service (Collaborators ContentProvider Roots)
open Wire (SaveDescriptor SaveInfo SaveDataSpace)

variable {σ F D : Type} [Backing σ F D]

/-- What a record says of a save in a space whose files have so many bytes together. Saves without an id are those
    of the system, others are those of the device where the user is zero in all bytes. -/
structure Tells (space : SaveDataSpace) (total : Nat) (info : SaveInfo) : Prop where
  space : info.space = space
  system : info.saveId = 0 → info.kind = .systemSaveData ∧ info.titleId = 0
  device : info.saveId ≠ 0 → (∀ byte ∈ info.userId.toBytes, byte = 0) → info.kind = .deviceSaveData
  user : info.saveId ≠ 0 → (∃ byte ∈ info.userId.toBytes, byte ≠ 0) → info.kind = .saveData
  size : info.imageSize = UInt64.ofNat total
  exact : total < 2 ^ 64 → info.imageSize.toNat = total

/-- A reader that is opened on a space has one record for each save that was created there: with the ids and the
    kind of the save, and the bytes of all files in the directory that the save opens in. -/
structure Told (outside : Collaborators σ F D) (space : SaveDataSpace) (root : DirectoryView D)
    (custody : Custody σ F D) : Prop where
  reader : Service.Server.saveInfoReader outside custody.client.storage [space] =
    .saveInfoReader ⟨(spaceSources custody.client.storage space root).map (·.2)⟩
  distinct : ((spaceSources custody.client.storage space root).map (ids ·.2)).Nodup
  complete : ∀ save, save ∈ (spaceSources custody.client.storage space root).map (ids ·.2) ↔
    ∃ descriptor ∈ custody.created, key descriptor = save
  record : ∀ dir info, (dir, info) ∈ spaceSources custody.client.storage space root →
    ∃ total, Weighs custody.client.storage [dir] total ∧ Tells space total info
  opens : ∀ dir info, (dir, info) ∈ spaceSources custody.client.storage space root →
    ∀ descriptor : SaveDescriptor, descriptor.saveId = info.saveId → descriptor.userId = info.userId →
      descriptor.titleId = info.titleId →
        outside.controller.openSave custody.client.storage space descriptor = .ok dir

theorem tells_recordOf (space : SaveDataSpace) (descriptor : SaveDescriptor) (total : Nat) :
    Tells space total (recordOf space descriptor total) := by
  have zero : descriptor.userId.isZero = true ↔ ∀ byte ∈ descriptor.userId.toBytes, byte = 0 := by
    simp [Wire.UserId.isZero]
  refine ⟨rfl, fun none => ?_, fun some_ bare => ?_, fun some_ ⟨byte, among, other⟩ => ?_, rfl,
    fun small => UInt64.toNat_ofNat_of_lt' small⟩
  · have none : descriptor.saveId = 0 := none
    exact ⟨if_pos none, if_pos none⟩
  · exact (if_neg some_).trans (if_pos (zero.mpr bare))
  · exact (if_neg some_).trans (if_neg fun all => other (zero.mp all byte among))

section Told

variable {root : DirectoryView D} {ground : Ground σ root} {access : Bool} {custody : Custody σ F D}
  {asked : List SaveDescriptor}
  {opener : Roots.Opener σ D} {meter : Roots.SpaceMeter} {roots : Roots} {space : SaveDataSpace}
  {content : ContentProvider σ F D}

theorem key_eq_of_ids {descriptor other : SaveDescriptor} (saves : descriptor.saveId = (key other).saveId)
    (users : descriptor.userId = (key other).userId) (titles : descriptor.titleId = (key other).titleId) :
    key descriptor = key other := by
  rw [key_eq_iff]
  refine ⟨saves, users, ?_⟩
  by_cases zero : descriptor.saveId = 0
  · exact .inl zero
  · have some_ : other.saveId ≠ 0 := fun none => zero (saves.trans none)
    right
    rw [titles, key, if_neg some_]

variable (opens : ∀ s, ground.holds s → Roots.openRoot opener s (roots.space? space) = .ok root)
include opens

omit opens in
theorem Custody.Kept.mem_spaceSources (kept : custody.Kept ground access asked) {dir : DirectoryView D}
    {info : SaveInfo} (listed : (dir, info) ∈ spaceSources custody.client.storage space root) :
    ∃ descriptor ∈ custody.created, root.descend? custody.client.storage (location descriptor) = some dir ∧
      info = recordOf space descriptor (dir.size custody.client.storage) := by
  obtain ⟨other, there, fits, led, rfl⟩ := asked_of_mem_spaceSources kept.shelves listed
  obtain ⟨descriptor, created, same⟩ := kept.served other there fits
  obtain ⟨ids, users, -⟩ := key_eq_iff.mp (location_eq_iff.mp same)
  refine ⟨descriptor, created, same ▸ led, ?_⟩
  rw [recordOf, recordOf, location_eq_iff.mp same, ids, users]

theorem Custody.Kept.told (kept : custody.Kept ground access asked) :
    Told ⟨Roots.controller opener meter roots, content⟩ space root custody := by
  have opened := opens _ kept.holds
  refine ⟨?_, spaceSources_distinct kept.holds kept.shelves, fun save => ⟨?_, ?_⟩, fun dir info listed => ?_,
    fun dir info listed descriptor saves users titles => ?_⟩
  · simp [Service.Server.saveInfoReader, enumerate, Roots.controller, opened, map_spaceSources]
  · intro told
    obtain ⟨⟨dir, info⟩, listed, rfl⟩ := List.mem_map.mp told
    obtain ⟨descriptor, there, -, rfl⟩ := kept.mem_spaceSources listed
    exact ⟨descriptor, there, rfl⟩
  · rintro ⟨descriptor, there, rfl⟩
    obtain ⟨dir, led⟩ := kept.shelves.found (kept.made there) (location_ne_nil descriptor)
    exact List.mem_map.mpr ⟨_, mem_spaceSources_of_created kept.holds led, rfl⟩
  · obtain ⟨descriptor, -, led, rfl⟩ := kept.mem_spaceSources listed
    exact ⟨_, ground.weighs_size kept.holds led, tells_recordOf space descriptor _⟩
  · -- the descriptor may be another than the one the save was created with
    obtain ⟨other, -, led, rfl⟩ := kept.mem_spaceSources listed
    have same : location descriptor = location other := location_eq_iff.mpr (key_eq_of_ids saves users titles)
    simp only [openSave_eq opened, same, led]

variable (ground)

end Told

end GuestStorage.Save
