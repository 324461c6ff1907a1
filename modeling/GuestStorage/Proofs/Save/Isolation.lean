import GuestStorage.Proofs.Memory.Build
import GuestStorage.Proofs.Memory.Domain
import GuestStorage.Proofs.Save.Location
import GuestStorage.Proofs.Session.Region

namespace GuestStorage

open Memory GuestStorage.Tree Session
open Wire (SaveDescriptor)

def Memory.Node.SameRecord (s s' : Store) : Node → Prop
  | .file id => s'.fileNode? id = s.fileNode? id
  | .directory id => s'.directoryNode? id = s.directoryNode? id

namespace Save

variable {s : Store} {root first second : DirectoryView DirectoryId} {one other : SaveDescriptor}

theorem directoryAt?_path :
    root.directoryAt? s (path one) = some first ↔
      first.readOnly = root.readOnly ∧
        (Node.directory root.node).descend? s (location one) = some (.directory first.node) := by
  rw [DirectoryView.directoryAt?, components_path]
  exact view_descend?_eq_some s

theorem held_of_directoryAt? (sound : s.Sound) (found : root.directoryAt? s (path one) = some first) :
    (Node.directory first.node).held s = true := by
  obtain ⟨-, reached⟩ := directoryAt?_path.mp found
  obtain ⟨front, last, names⟩ := (List.eq_nil_or_concat' _).resolve_left (location_ne_nil one)
  rw [names] at reached
  obtain ⟨_, -, owned, -⟩ := sound.descend?_concat_eq_some.mp reached
  exact (sound.parent_held owned).2

theorem apart_run (sound : s.Sound) {dir : DirectoryId} (held : (Node.directory dir).held s = true)
    (readOnly : Bool) (space : SpaceReport) (requests : List Request) :
    s.Apart dir ((Client.mounted s ⟨dir, readOnly⟩ space).run requests).2.storage := by
  have serves : (s.domain dir).Serves (Client.mounted s ⟨dir, readOnly⟩ space) :=
    ⟨⟨sound, sound, held, .refl _ _ s⟩, Table.All.insert .empty (.inr (.refl _))⟩
  exact (serves.run requests).holds

theorem not_within (sound : s.Sound) (apart : key one ≠ key other)
    (found : root.directoryAt? s (path one) = some first)
    (also : root.directoryAt? s (path other) = some second) {x : Node}
    (below : Node.Within s (.directory second.node) x) : ¬ Node.Within s (.directory first.node) x := by
  obtain ⟨-, reached⟩ := directoryAt?_path.mp found
  obtain ⟨-, alsoReached⟩ := directoryAt?_path.mp also
  intro within
  obtain ⟨more, alsoFurther⟩ := below
  have long := (Node.descend?_append_of_reached alsoReached more).trans alsoFurther
  have chain := sound.prefix_of_within reached within long
  rcases List.prefix_or_prefix_of_prefix chain (List.prefix_append _ _) with before | behind
  · exact apart (location_prefix_iff.mp before)
  · exact apart (location_prefix_iff.mp behind).symm

/-- Paths of saves are the same exactly for the same ids, where a title counts only beside an id of the save,
    and no other save stands at or below the path of one. A run of requests on a save leaves all that stands
    elsewhere in the space as it is, and each other save shows the same. -/
theorem sessions_isolated (one other : SaveDescriptor) :
    (path one = path other ↔
      one.saveId = other.saveId ∧ one.userId = other.userId ∧
        (one.saveId = 0 ∨ one.titleId = other.titleId)) ∧
    (path one ≠ path other →
      ¬ Path.components (path one) <+: Path.components (path other) ∧
        ¬ Path.components (path other) <+: Path.components (path one)) ∧
    ∀ (s : Store) (root first : DirectoryView DirectoryId), s.Sound →
      root.directoryAt? s (path one) = some first →
      ∀ (readOnly : Bool) (space : SpaceReport) (requests : List Request),
        let after := ((Client.mounted s ⟨first.node, readOnly⟩ space).run requests).2.storage
        (∀ x : Node, x.held s = true → ¬ Node.Within s (.directory first.node) x → x.SameRecord s after) ∧
        (after.directoryName first.node = s.directoryName first.node ∧
          after.directoryWritable first.node = s.directoryWritable first.node ∧
          after.directoryParent? first.node = s.directoryParent? first.node) ∧
        ∀ second, path one ≠ path other → root.directoryAt? s (path other) = some second →
          root.directoryAt? after (path other) = some second ∧
            ∀ view : DirectoryView DirectoryId, view.node = second.node →
              view.snapshot after = view.snapshot s := by
  refine ⟨path_eq_iff.trans key_eq_iff, fun different => ?_, ?_⟩
  · have apart : key one ≠ key other := fun same => different (path_eq_iff.mpr same)
    rw [components_path, components_path, location_prefix_iff, location_prefix_iff]
    exact ⟨apart, apart.symm⟩
  · intro s root first sound found readOnly space requests after
    have held := held_of_directoryAt? sound found
    have kept : s.Apart first.node after := apart_run sound held readOnly space requests
    refine ⟨fun x there outside => ?_, ⟨kept.only.name, kept.only.writable, kept.only.place⟩, ?_⟩
    · have around := Store.not_domain there outside
      cases x with
      | file id => exact kept.only.file id around
      | directory id => exact kept.only.directory id around
    · intro second different also
      have apart : key one ≠ key other := fun same => different (path_eq_iff.mpr same)
      have around : ∀ x, Node.Within s (.directory second.node) x → ¬ s.Domain first.node x := by
        intro x below
        obtain ⟨rest, reached⟩ := id below
        have there := sound.descend?_held (held_of_directoryAt? sound also) reached
        exact Store.not_domain there (not_within sound apart found also below)
      refine ⟨?_, fun view same => kept.snapshot_eq fun x below => around x (same ▸ below)⟩
      obtain ⟨access, reached⟩ := directoryAt?_path.mp also
      exact directoryAt?_path.mpr ⟨access, kept.descend?_of_outside reached (.inl (around _ (.refl _)))⟩

def pairedSaves : Store :=
  let save := SaveDescriptor.hexId
  let user := Wire.UserId.zero.hex
  (Store.empty.plant "space" false
    [.directory "save"
      [.directory (save 0) [.directory user [.file "f" [1, 2] false] false] false,
        .directory (save 7) [.directory user [.directory (save 9) [.file "g" [3] false] false] false] false]
      false]).2

theorem pairedSaves_isolated :
    let own : SaveDescriptor := ⟨9, .zero, 7, .saveData, .primary, 0⟩
    let foreign : SaveDescriptor := ⟨0, .zero, 0, .systemSaveData, .primary, 0⟩
    let root : DirectoryView DirectoryId := .direct ⟨0⟩
    let after := ((Client.mounted pairedSaves (.direct ⟨6⟩) ⟨.nandUser, 0, 0⟩).run
      [.path 1 (.deleteFile "../../../0000000000000000/f"), .path 1 (.renameFile "/g" "\\.\\save"),
        .path 1 (.createFile "//f" 4)]).2.storage
    (root.directoryAt? pairedSaves (path own) = some (.direct ⟨6⟩) ∧
      root.directoryAt? pairedSaves (path foreign) = some (.direct ⟨3⟩)) ∧
    root.directoryAt? after (path foreign) = some (.direct ⟨3⟩) ∧
      (DirectoryView.direct (⟨3⟩ : DirectoryId)).snapshot after =
        (DirectoryView.direct (⟨3⟩ : DirectoryId)).snapshot pairedSaves := by
  intro own foreign root after
  have one : root.directoryAt? pairedSaves (path own) = some (.direct ⟨6⟩) := by decide +kernel
  have two : root.directoryAt? pairedSaves (path foreign) = some (.direct ⟨3⟩) := by decide +kernel
  have isolated := (sessions_isolated own foreign).2.2 pairedSaves root (.direct ⟨6⟩)
    (Store.plant_sound Store.empty_sound _ _ _) one false ⟨.nandUser, 0, 0⟩
    [.path 1 (.deleteFile "../../../0000000000000000/f"), .path 1 (.renameFile "/g" "\\.\\save"),
      .path 1 (.createFile "//f" 4)]
  obtain ⟨found, same⟩ := isolated.2.2 (.direct ⟨3⟩) (by decide +kernel) two
  exact ⟨⟨one, two⟩, found, same _ rfl⟩

end Save

end GuestStorage
