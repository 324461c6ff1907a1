import GuestStorage.Proofs.Memory.Depth
import GuestStorage.Proofs.Memory.Stored
import GuestStorage.Proofs.Tree.Attempts
import GuestStorage.Proofs.Tree.Renaming

namespace GuestStorage.Memory

open Node GuestStorage.Tree
open Stored (store)

variable {σ : Type} [Backing σ FileId DirectoryId] [Stored σ] {t : σ} {root : DirectoryId} {name : String}

def plainNames (path : String) : List String := (Path.components path).filter (· != ".")

theorem normalize_ok {path : String} {names : List String} (normal : Mount.normalize path = .ok names) :
    names = plainNames path ∧ ∀ name ∈ names, Path.IsName name := by
  simp only [Mount.normalize] at normal
  split at normal
  · cases normal
  · cases normal
    exact ⟨rfl, fun name listed => Path.isName_of_mem_components (List.mem_of_mem_filter listed)⟩

theorem locate_view {root holder : DirectoryView DirectoryId} {text : String}
    (located : Mount.locate t ⟨root⟩ text = .ok (holder, name)) :
    ∃ front, Mount.normalize text = .ok (front ++ [name]) ∧ holder.readOnly = root.readOnly ∧
      (Node.directory root.node).descend? (store t) front = some (.directory holder.node) := by
  obtain ⟨front, normal, reached⟩ := Mount.locate_eq_ok.mp located
  exact ⟨front, normal, (view_descend?_eq_some t).mp reached⟩

theorem locate_ok {text : String} {holder : DirectoryView DirectoryId}
    (located : Mount.locate t ⟨.direct root⟩ text = .ok (holder, name)) :
    ∃ front home, plainNames text = front ++ [name] ∧ (∀ other ∈ front, Path.IsName other) ∧
      holder = .direct home ∧ (Node.directory root).descend? (store t) front = some (.directory home) := by
  obtain ⟨front, normal, access, reached⟩ := locate_view located
  obtain ⟨names, clean⟩ := normalize_ok normal
  obtain ⟨home, readOnly⟩ := holder
  cases access
  exact ⟨front, home, names.symm, fun other listed => clean other (List.mem_append_left _ listed), rfl, reached⟩

theorem samePlace_iff (sound : (store t).Sound) {root home other : DirectoryId} {front back : List String}
    (held : (Node.directory home).held (store t) = true)
    (reached : (Node.directory root).descend? (store t) front = some (.directory home))
    (alsoReached : (Node.directory root).descend? (store t) back = some (.directory other))
    (clean : ∀ name ∈ front, Path.IsName name) (alsoClean : ∀ name ∈ back, Path.IsName name) :
    Mount.samePlace t (.direct home) (.direct other) = true ↔ front = back := by
  have alsoHeld := sound.descend?_held (sound.held_of_descend? reached held) alsoReached
  rw [Mount.samePlace, beq_iff_eq, direct_path, direct_path,
    sound.directoryPath_inj held alsoHeld reached alsoReached clean alsoClean]

/-- The answers to a request for another path of an entry that is a node of a store: the store is the same, the node
    has its new name in the directory that holds it, or it is moved to another one, which does not lie in it. -/
inductive Renaming {N : Type} (node : N → Node)
    (move : N → DirectoryId → String → DirectoryId → String → Except Error Unit × σ) (t : σ) (root : DirectoryId)
    (source target : List String) : Except Error Unit × σ → Prop where
  | refused (e : Error) {t' : σ} (same : store t' = store t) : Renaming node move t root source target (.error e, t')
  | own (same : source = target) : Renaming node move t root source target (.ok (), t)
  | inPlace {x : N} {front : List String} {home : DirectoryId} {old new : String} {t' : σ}
      (origin : source = front ++ [old]) (goal : target = front ++ [new])
      (reached : (Node.directory root).descend? (store t) front = some (.directory home))
      (child : (Node.directory home).child? (store t) old = some (node x))
      (free : (Node.directory home).child? (store t) new = none)
      (sound' : (store t').Sound) (effect : Renames (store t) (store t') (node x) new) :
        Renaming node move t root source target (.ok (), t')
  | moved {x : N} {front back : List String} {home goal : DirectoryId} {old new : String}
      (origin : source = front ++ [old]) (aim : target = back ++ [new])
      (reached : (Node.directory root).descend? (store t) front = some (.directory home))
      (reached' : (Node.directory root).descend? (store t) back = some (.directory goal))
      (child : (Node.directory home).child? (store t) old = some (node x))
      (free : (Node.directory goal).child? (store t) new = none)
      (elsewhere : front ≠ back) (apart : ¬ front ++ [old] <+: back ++ [new]) :
        Renaming node move t root source target (move x home old goal new)

theorem Renaming.of_course {N V : Type} {node : N → Node} {view : N → V} {source target : String}
    {child : DirectoryView DirectoryId → String → Option V} {rename : V → String → Option V × σ}
    {move : V → DirectoryView DirectoryId → String → DirectoryView DirectoryId → String → Except Error Unit × σ}
    {outcome : Except Error Unit × σ} (sound : (store t).Sound)
    (course : Mount.Course ⟨.direct root⟩ t source target child rename move outcome)
    (finds : ∀ {home name v}, child (.direct home) name = some v →
      ∃ x, v = view x ∧ (Node.directory home).child? (store t) name = some (node x))
    (renames : ∀ x new, (node x).held (store t) = true →
      ∃ t', rename (view x) new = (none, t') ∧ store t' = store t ∨
        rename (view x) new = (some (view x), t') ∧ (store t').Sound ∧ Renames (store t) (store t') (node x) new)
    (apart : ∀ {front back home goal old new x}, plainNames source = front ++ [old] →
      plainNames target = back ++ [new] →
      (Node.directory root).descend? (store t) front = some (.directory home) →
      (Node.directory root).descend? (store t) back = some (.directory goal) →
      (Node.directory home).child? (store t) old = some (node x) → front ≠ back →
      ¬ front ++ [old] <+: back ++ [new]) :
    Renaming node (fun x home old goal new => move (view x) (.direct home) old (.direct goal) new) t root
      (plainNames source) (plainNames target) outcome := by
  cases course with
  | refused e => exact .refused e rfl
  | own located found located' same =>
    obtain ⟨front, home, origin, clean, rfl, reached⟩ := locate_ok located
    obtain ⟨back, goal, aim, clean', rfl, reached'⟩ := locate_ok located'
    obtain ⟨x, rfl, child⟩ := finds found
    have held := sound.parent_held (sound.child?_eq_some.mp child).1
    obtain rfl := (samePlace_iff sound held.1 reached reached' clean clean').mp same
    exact .own (origin.trans aim.symm)
  | @inPlace _ _ old new _ answer located found located' same free after done =>
    obtain ⟨front, home, origin, clean, rfl, reached⟩ := locate_ok located
    obtain ⟨back, goal, aim, clean', rfl, reached'⟩ := locate_ok located'
    obtain ⟨x, rfl, child⟩ := finds found
    have held := sound.parent_held (sound.child?_eq_some.mp child).1
    obtain rfl := (samePlace_iff sound held.1 reached reached' clean clean').mp same
    obtain rfl := Node.directory.inj (Option.some.inj (reached.symm.trans reached'))
    rw [direct_hasEntry, ← Bool.not_eq_true, Store.hasChild_iff, ← child?_eq_none_iff] at free
    obtain ⟨result, t'⟩ := outcome
    obtain ⟨t₁, ⟨refused, unchanged⟩ | ⟨renamed, sound', effect⟩⟩ := renames x new held.2
    · rw [refused] at after done
      obtain rfl : t' = t₁ := after
      cases result with
      | error e => exact .refused e unchanged
      | ok => simp at done
    · rw [renamed] at after done
      obtain rfl : t' = t₁ := after
      obtain rfl : result = .ok () := done.mpr rfl
      exact .inPlace origin aim reached child free sound' effect
  | moved located found located' different free =>
    obtain ⟨front, home, origin, clean, rfl, reached⟩ := locate_ok located
    obtain ⟨back, goal, aim, clean', rfl, reached'⟩ := locate_ok located'
    obtain ⟨x, rfl, child⟩ := finds found
    have held := sound.parent_held (sound.child?_eq_some.mp child).1
    have elsewhere : front ≠ back := by
      rw [← Bool.not_eq_true, samePlace_iff sound held.1 reached reached' clean clean'] at different
      exact different
    rw [direct_hasEntry, ← Bool.not_eq_true, Store.hasChild_iff, ← child?_eq_none_iff] at free
    exact .moved origin aim reached reached' child free elsewhere
      (apart origin aim reached reached' child elsewhere)

theorem mount_renameFile_renaming (sound : (store t).Sound) (source target : String) :
    Renaming Node.file
      (fun file home old goal new => Mount.moveFile t (.direct file) (.direct home) old (.direct goal) new)
      t root (plainNames source) (plainNames target) (Mount.renameFile t ⟨.direct root⟩ source target) := by
  refine .of_course sound (Mount.renameFile_course t ⟨.direct root⟩ source target) ?_ ?_ ?_
  · intro home name view found
    rw [direct_file?, Option.map_eq_some_iff] at found
    obtain ⟨file, found, rfl⟩ := found
    exact ⟨file, rfl, sound.child?_file_eq_some.mpr found⟩
  · exact fun file new held => direct_rename_file sound file new held
  · -- nothing stands below a file, so no directory is reached there
    intro front back home goal old new file origin aim reached reached' child elsewhere within
    rcases List.prefix_concat_iff.mp within with same | ⟨rest, rfl⟩
    · exact elsewhere (List.append_inj_left' same rfl)
    · rw [descend?_append, descend?_concat_of_reached reached, child, Option.bind_some] at reached'
      cases rest with
      | nil => cases reached'
      | cons first rest => cases reached'

theorem mount_renameDirectory_renaming (sound : (store t).Sound) (source target : String) :
    Renaming Node.directory
      (fun dir home old goal new => Mount.moveDirectory t (.direct dir) (.direct home) old (.direct goal) new)
      t root (plainNames source) (plainNames target) (Mount.renameDirectory t ⟨.direct root⟩ source target) := by
  by_cases inward : plainNames source ≠ [] ∧ plainNames source <+: plainNames target ∧
      plainNames source ≠ plainNames target
  · obtain ⟨some, within, different⟩ := inward
    rw [Mount.renameDirectory]
    split
    · exact .refused _ rfl
    · exact .refused _ rfl
    · rename_i names others normal normal'
      obtain ⟨rfl, -⟩ := normalize_ok normal
      obtain ⟨rfl, -⟩ := normalize_ok normal'
      rw [if_pos (by simp [some, different, List.isPrefixOf_iff_prefix.mpr within])]
      exact .refused _ rfl
  · refine .of_course sound (Mount.renameDirectory_course t ⟨.direct root⟩ source target) ?_ ?_ ?_
    · intro home name view found
      rw [direct_subdirectory?, Option.map_eq_some_iff] at found
      obtain ⟨sub, found, rfl⟩ := found
      exact ⟨sub, rfl, child?_directory_eq_some.mpr found⟩
    · exact fun sub new held => direct_rename_directory sound sub new held
    · intro front back home goal old new sub origin aim _ _ _ elsewhere within
      rw [origin, aim] at inward
      exact inward ⟨by simp, within, fun same => elsewhere (List.append_inj_left' same rfl)⟩

end GuestStorage.Memory
