import GuestStorage.Proofs.Memory.Move
import GuestStorage.Proofs.Projection.Mount

namespace GuestStorage.Memory

open Keyed Node GuestStorage.Tree
open Stored (store)

/-- Files that were there stand at their paths as renamed, except that those which are taken may be gone.
    None comes into the tree that was there before and outside of it. -/
structure Carries (s s' : Store) (top : Node) (renamed : List String → List String) (taken : FileId → Prop) :
    Prop where
  sound : s'.Sound
  held : ∀ x : Node, x.held s = true → x.held s' = true
  back : ∀ file path, (Node.file file).held s = true → top.descend? s' path = some (.file file) →
    ∃ before, top.descend? s before = some (.file file) ∧ path = renamed before
  kept : ∀ file path, top.descend? s path = some (.file file) → ¬ taken file →
    top.descend? s' (renamed path) = some (.file file)

def FileBelow (s : Store) (top : Node) (key : List String) (file : FileId) : Prop :=
  ∃ path, key <+: path ∧ top.descend? s path = some (.file file)

def StandsIn (s : Store) (dir : DirectoryId) (name : String) (z : Node) : Prop :=
  ∃ y, (Node.directory dir).child? s name = some y ∧ Within s y z

/-- Files are taken from a path and below; once that is done none of them is in the tree. -/
structure Takes (s s' : Store) (top : Node) (key : List String) (done : Prop) : Prop where
  carries : Carries s s' top id (FileBelow s top key)
  gone : done → ∀ file, FileBelow s top key file → ∀ path, top.descend? s' path ≠ some (.file file)

variable {s s' s'' : Store} {top x y z : Node} {renamed again : List String → List String}
  {taken more : FileId → Prop} {dir : DirectoryId} {name : String} {key path : List String} {file : FileId}

theorem Carries.refl (sound : s.Sound) (top : Node) (taken : FileId → Prop) : Carries s s top id taken :=
  ⟨sound, fun _ held => held, fun _ path _ reached => ⟨path, reached, rfl⟩, fun _ _ reached _ => reached⟩

theorem Carries.mono (carries : Carries s s' top renamed taken)
    (covered : ∀ file path, top.descend? s path = some (.file file) → taken file → more file) :
    Carries s s' top renamed more :=
  ⟨carries.sound, carries.held, carries.back,
    fun file path reached safe => carries.kept file path reached fun gone => safe (covered file path reached gone)⟩

theorem Carries.trans (first : Carries s s' top renamed taken) (second : Carries s' s'' top again more) :
    Carries s s'' top (again ∘ renamed) fun file => taken file ∨ more file := by
  refine ⟨second.sound, fun x held => second.held x (first.held x held), ?_, ?_⟩
  · intro file path held reached
    obtain ⟨middle, between, rfl⟩ := second.back file path (first.held _ held) reached
    obtain ⟨before, there, rfl⟩ := first.back file middle held between
    exact ⟨before, there, rfl⟩
  · intro file path reached safe
    rw [not_or] at safe
    exact second.kept file _ (first.kept file path reached safe.1) safe.2

theorem Carries.then (first : Carries s s' top id taken) (second : Carries s' s'' top id more)
    (covered : ∀ file path, top.descend? s path = some (.file file) → more file → taken file) :
    Carries s s'' top id taken :=
  (first.trans second).mono fun file path reached both => both.elim id (covered file path reached)

section Single

variable {target node holder : Node} {shown : Entry} {lost : List Node} {allowed : Node → Prop}

theorem Grows.carries (effect : Grows s s' target) (sound : s.Sound) (sound' : s'.Sound) (top : Node)
    (taken : FileId → Prop) : Carries s s' top id taken :=
  ⟨sound', effect.held, fun _ path held reached => ⟨path, effect.descend?_of_held sound sound' held reached, rfl⟩,
    fun _ _ reached _ => effect.descend? sound sound' reached⟩

theorem Refills.carries (effect : Refills s s' node shown) (sound : s.Sound) (sound' : s'.Sound)
    (top : Node) (taken : FileId → Prop) : Carries s s' top id taken := by
  have same := effect.descend? sound sound' top
  exact ⟨sound', fun x held => (effect.held x).trans held, fun _ path _ reached => ⟨path, same path ▸ reached, rfl⟩,
    fun _ path reached _ => (same path).trans reached⟩

theorem Clears.carries (effect : Clears s s' allowed) (sound : s.Sound) (top : Node) :
    Carries s s' top id fun file => ∃ z, allowed z ∧ Within s z (.file file) := by
  obtain ⟨sound', lost, cuts, kinds⟩ := effect
  refine ⟨sound', fun x held => (cuts.held x).trans held, ?_, ?_⟩
  · exact fun file path _ reached => ⟨path, ((cuts.descend?_eq_some sound sound').mp reached).1, rfl⟩
  · intro file path reached safe
    refine (cuts.descend?_eq_some sound sound').mpr ⟨reached, ?_⟩
    intro front z _ within there gone
    obtain ⟨rest, rfl⟩ := within
    exact safe ⟨z, kinds z gone, rest, (descend?_append_of_reached there rest).symm.trans reached⟩

theorem Renames.carries {old called : String} (effect : Renames s s' node called) (sound : s.Sound)
    (sound' : s'.Sound) (reached : top.descend? s path = some holder)
    (found : holder.child? s old = some node) (free : holder.child? s called = none) (taken : FileId → Prop) :
    Carries s s' top (exchange (path ++ [old]) (path ++ [called])) taken := by
  have steps := effect.descend? sound sound' reached found free
  have absent : ∀ rest, top.descend? s (path ++ [called] ++ rest) = none := by
    intro rest
    rw [descend?_append, descend?_concat, reached, Option.bind_some, free]
    rfl
  refine ⟨sound', fun x held => (effect.held x).trans held, ?_, ?_⟩
  · intro file other _ there
    rw [steps, rekey] at there
    split at there
    · rename_i within
      obtain ⟨rest, rfl⟩ := within
      rw [List.drop_left] at there
      exact ⟨_, there, (exchange_append _ _ rest).symm⟩
    · split at there
      · cases there
      · rename_i outside
        exact ⟨other, there, (if_neg outside).symm⟩
  · intro file other there _
    rw [steps]
    rcases exchange_cases (path ++ [old]) (path ++ [called]) other with ⟨rest, rfl, moved⟩ | ⟨outside, same⟩
    · rw [moved, rekey_target]
      exact there
    · have away : ¬ path ++ [called] <+: other := by
        rintro ⟨rest, rfl⟩
        rw [absent] at there
        cases there
      rw [same, rekey, if_neg away, if_neg outside]
      exact there

end Single

section Standing

theorem StandsIn.within (stands : StandsIn s dir name z) (further : Within s z x) : StandsIn s dir name x := by
  obtain ⟨y, found, within⟩ := stands
  exact ⟨y, found, within.trans further⟩

theorem StandsIn.fileBelow (reached : top.descend? s path = some (.directory dir))
    (stands : StandsIn s dir name (.file file)) : FileBelow s top (path ++ [name]) file := by
  obtain ⟨y, found, rest, further⟩ := stands
  refine ⟨path ++ [name] ++ rest, List.prefix_append _ rest, ?_⟩
  rw [descend?_append, descend?_concat_of_reached reached, found]
  exact further

theorem Clears.takes (effect : Clears s s' (StandsIn s dir name)) (sound : s.Sound)
    (reached : top.descend? s path = some (.directory dir)) :
    Carries s s' top id (FileBelow s top (path ++ [name])) :=
  (effect.carries sound top).mono fun _ _ _ ⟨_, stands, further⟩ => (stands.within further).fileBelow reached

theorem Grows.not_standsIn {target new : Node} (grown : Grows s s' target) (sound : s.Sound)
    (sound' : s'.Sound) (found : (Node.directory dir).child? s' name = some new) (fresh : new.held s = false)
    (held : y.held s = true) : ¬ StandsIn s' dir name y := by
  rintro ⟨z, there, within⟩
  obtain rfl := Option.some.inj (found.symm.trans there)
  obtain ⟨rest, reached⟩ := grown.within sound sound' held within
  simp [sound.held_of_descend? reached held] at fresh

theorem Cuts.file_gone {lost : List Node} (cuts : Cuts s s' lost) (sound : s.Sound) (sound' : s'.Sound)
    (proper : key ≠ []) (reached : top.descend? s key = some y) (gone : y ∈ lost) (below : FileBelow s top key file)
    (path : List String) : top.descend? s' path ≠ some (.file file) := by
  intro still
  obtain ⟨old, within, there⟩ := below
  obtain ⟨before, clear⟩ := (cuts.descend?_eq_some sound sound').mp still
  obtain rfl := sound.path_unique there before
  exact clear key y proper within reached gone

theorem Store.Sound.file_held (sound : s.Sound) {root : DirectoryId}
    (reached : (Node.directory root).descend? s path = some (.file file)) : (Node.file file).held s = true := by
  rcases List.eq_nil_or_concat' path with rfl | ⟨front, last, rfl⟩
  · cases reached
  · obtain ⟨holder, -, owned, -⟩ := sound.descend?_concat_eq_some.mp reached
    exact (sound.parent_held owned).2

theorem Takes.refl {done : Prop} (sound : s.Sound) (failed : ¬ done) : Takes s s top key done :=
  ⟨.refl sound top _, fun finished => absurd finished failed⟩

theorem Takes.after {done : Prop} {root : DirectoryId} (sound : s.Sound)
    (first : Carries s s' (.directory root) id fun _ => False) (second : Takes s' s'' (.directory root) key done) :
    Takes s s'' (.directory root) key done := by
  refine ⟨(first.mono fun _ _ _ => False.elim).then second.carries ?_, ?_⟩
  · rintro file path reached ⟨other, within, there⟩
    obtain ⟨_, earlier, rfl⟩ := first.back file other (sound.file_held reached) there
    exact ⟨_, within, earlier⟩
  · rintro finished file ⟨path, within, reached⟩
    exact second.gone finished file ⟨path, within, first.kept file path reached id⟩

theorem Takes.then {done last : Prop} {root : DirectoryId} (first : Takes s s' (.directory root) key done)
    (second : Carries s' s'' (.directory root) id taken)
    (covered : ∀ file path, (Node.directory root).descend? s path = some (.file file) → ¬ taken file)
    (failed : ¬ last) : Takes s s'' (.directory root) key last :=
  ⟨first.carries.then second fun file path reached gone => absurd gone (covered file path reached),
    fun finished => absurd finished failed⟩

end Standing

section Altering

def Altered (s s' : Store) (file : FileId) : Prop :=
  s'.Sound ∧ (s' = s ∨ ∃ shown, Refills s s' (.file file) shown)

theorem Altered.refl (sound : s.Sound) (file : FileId) : Altered s s file := ⟨sound, .inl rfl⟩

theorem Altered.trans (first : Altered s s' file) (second : Altered s' s'' file) : Altered s s'' file := by
  obtain ⟨-, rfl | ⟨shown, early⟩⟩ := first
  · exact second
  · obtain ⟨sound, rfl | ⟨last, late⟩⟩ := second
    · exact ⟨sound, .inr ⟨shown, early⟩⟩
    · exact ⟨sound, .inr ⟨last, early.trans late⟩⟩

theorem Altered.held (altered : Altered s s' file) (x : Node) : x.held s' = x.held s := by
  obtain ⟨-, rfl | ⟨shown, effect⟩⟩ := altered
  · rfl
  · exact effect.held x

theorem Altered.descend? (altered : Altered s s' file) (sound : s.Sound) (x : Node) (path : List String) :
    x.descend? s' path = x.descend? s path := by
  obtain ⟨sound', rfl | ⟨shown, effect⟩⟩ := altered
  · rfl
  · exact effect.descend? sound sound' x path

theorem Altered.carries (altered : Altered s s' file) (sound : s.Sound) (top : Node) (taken : FileId → Prop) :
    Carries s s' top id taken := by
  obtain ⟨sound', rfl | ⟨shown, effect⟩⟩ := altered
  · exact .refl sound top taken
  · exact effect.carries sound sound' top taken

theorem Altered.lookup (altered : Altered s s' file) (sound : s.Sound)
    (away : x.descend? s path ≠ some (.file file)) : x.lookup s' path = x.lookup s path := by
  have same := altered.descend? sound x path
  obtain ⟨sound', rfl | ⟨shown, effect⟩⟩ := altered
  · rfl
  · rw [Node.lookup, same, Node.lookup]
    cases reached : x.descend? s path with
    | none => rfl
    | some y =>
      have apart : y ≠ .file file := by
        rintro rfl
        exact away reached
      rw [Option.map_some, Option.map_some, effect.entry, if_neg apart]

theorem Adds.altered {called : String} {shown : Entry} {new : FileId}
    (effect : Adds s s' x (.file new) called shown) (altered : Altered s' s'' new) :
    ∃ shown, Adds s s'' x (.file new) called shown := by
  obtain ⟨-, rfl | ⟨last, further⟩⟩ := altered
  · exact ⟨shown, effect⟩
  · exact ⟨last, effect.refilled further⟩

variable {σ : Type} [Backing σ FileId DirectoryId] [Stored σ] {t : σ}

theorem resize_altered (sound : (store t).Sound) (held : (Node.file file).held (store t) = true) (size : Nat) :
    Altered (store t) (store ((FileView.direct file).resize t size).2) file := by
  obtain ⟨t', ⟨refused, same⟩ | ⟨resized, sound', effect⟩⟩ := direct_resize sound file held size
  · rw [refused, same]
    exact .refl sound file
  · rw [resized]
    exact ⟨sound', .inr ⟨_, effect⟩⟩

theorem write_altered (sound : (store t).Sound) (held : (Node.file file).held (store t) = true) (offset : Nat)
    (data : Bytes) : Altered (store t) (store ((FileView.direct file).write t offset data).2) file := by
  obtain ⟨t', ⟨refused, same⟩ | ⟨sent, -, written, sound', effect⟩⟩ := direct_write sound file held offset data
  · rw [refused, same]
    exact .refl sound file
  · rw [written]
    exact ⟨sound', .inr ⟨_, effect⟩⟩

end Altering

section Removing

variable {σ : Type} [Backing σ FileId DirectoryId] [Stored σ] {t : σ} (sound : (store t).Sound)
  (dir : DirectoryId) (name : String)
include sound

theorem deleteFile_cuts :
    Clears (store t) (store ((DirectoryView.direct dir).deleteFile t name).2) (StandsIn (store t) dir name) := by
  obtain ⟨t', ⟨refused, same⟩ | ⟨file, deleted, sound', found, cuts⟩⟩ := direct_deleteFile sound dir name
  · rw [refused, same]
    exact .refl sound _
  · rw [deleted]
    refine ⟨sound', _, cuts, fun z gone => ?_⟩
    rw [List.mem_singleton.mp gone]
    exact ⟨_, found, .refl _⟩

theorem deleteTree_cuts :
    Clears (store t) (store ((DirectoryView.direct dir).deleteTree t name).2) (StandsIn (store t) dir name) := by
  obtain ⟨done, t', lost, removed, sound', cuts, within, -⟩ := deleteTree_removes sound dir name
  rw [removed]
  exact ⟨sound', lost, cuts, within⟩

theorem cleanSubdirectory_cuts :
    Clears (store t) (store ((DirectoryView.direct dir).cleanSubdirectory t name).2)
      (StandsIn (store t) dir name) :=
  (cleanSubdirectory_clears sound dir name).mono fun _ ⟨y, found, below⟩ => ⟨y, found, below.1⟩

theorem deleteSubdirectory_carries (top : Node) (taken : FileId → Prop) :
    Carries (store t) (store ((DirectoryView.direct dir).deleteSubdirectory t name).2) top id taken := by
  obtain ⟨t', ⟨refused, same⟩ | ⟨sub, deleted, sound', found, bare, cuts⟩⟩ :=
    direct_deleteSubdirectory sound dir name
  · rw [refused, same]
    exact .refl sound top taken
  · rw [deleted]
    have removal : Clears (store t) (store t') (· = .directory sub) :=
      ⟨sound', _, cuts, fun z gone => List.mem_singleton.mp gone⟩
    refine (removal.carries sound top).mono ?_
    rintro file path - ⟨z, rfl, rest, further⟩
    cases rest with
    | nil => cases further
    | cons first rest =>
      rw [descend?_cons, Option.bind_eq_some_iff] at further
      obtain ⟨y, child, -⟩ := further
      have listed := sound.mem_children.mpr (sound.child?_eq_some.mp child).1
      rw [bare] at listed
      cases listed

theorem cleanSubdirectory_bare (done : ((DirectoryView.direct dir).cleanSubdirectory t name).1 = true) :
    ∃ sub, (Node.directory dir).child? (store t) name = some (.directory sub) ∧ ∀ called,
      (Node.directory sub).child? (store ((DirectoryView.direct dir).cleanSubdirectory t name).2) called =
        none := by
  cases present : (store t).subdirectory? dir name with
  | none =>
    have absent : (DirectoryView.direct dir).subdirectory? t name = none := by
      rw [direct_subdirectory?, present]
      rfl
    have refused : ∀ depth, (DirectoryView.cleanWithin depth t (.direct dir) name).1 = false := by
      intro depth
      cases depth with
      | zero => rfl
      | succ depth =>
        rw [DirectoryView.cleanWithin, absent]
        rfl
    simp [DirectoryView.cleanSubdirectory, refused] at done
  | some sub =>
    have found := child?_directory_eq_some.mpr present
    exact ⟨sub, found, cleanWithin_bare _ sound found done⟩

variable {top : Node} {path : List String} (reached : top.descend? (store t) path = some (.directory dir))
include reached

theorem deleteFile_takes :
    Takes (store t) (store ((DirectoryView.direct dir).deleteFile t name).2) top (path ++ [name])
      (((DirectoryView.direct dir).deleteFile t name).1 = true) := by
  refine ⟨Clears.takes (deleteFile_cuts sound dir name) sound reached, fun done file below => ?_⟩
  obtain ⟨t', ⟨refused, -⟩ | ⟨lost, deleted, sound', found, cuts⟩⟩ := direct_deleteFile sound dir name
  · rw [refused] at done
    cases done
  · rw [deleted]
    refine cuts.file_gone sound sound' (by simp) ?_ List.mem_cons_self below
    rw [descend?_concat_of_reached reached, found]

theorem deleteTree_takes :
    Takes (store t) (store ((DirectoryView.direct dir).deleteTree t name).2) top (path ++ [name])
      (((DirectoryView.direct dir).deleteTree t name).1 = true) := by
  refine ⟨Clears.takes (deleteTree_cuts sound dir name) sound reached, fun done file below => ?_⟩
  obtain ⟨finished, t', lost, removed, sound', cuts, -, gone⟩ := deleteTree_removes sound dir name
  rw [removed] at done ⊢
  obtain ⟨y, left, found⟩ := gone done
  refine cuts.file_gone sound sound' (by simp) ?_ left below
  rw [descend?_concat_of_reached reached, found]

theorem cleanSubdirectory_takes :
    Takes (store t) (store ((DirectoryView.direct dir).cleanSubdirectory t name).2) top (path ++ [name])
      (((DirectoryView.direct dir).cleanSubdirectory t name).1 = true) := by
  have clears := cleanSubdirectory_cuts sound dir name
  refine ⟨Clears.takes clears sound reached, ?_⟩
  rintro done file ⟨_, ⟨rest, rfl⟩, there⟩ other still
  obtain ⟨sub, found, bare⟩ := cleanSubdirectory_bare sound dir name done
  obtain ⟨sound', lost, cuts, -⟩ := clears
  -- a file that is still there would be where it was, below the directory that is empty now
  obtain rfl := sound.path_unique there ((cuts.descend?_eq_some sound sound').mp still).1
  have here : top.descend? (store t) (path ++ [name]) = some (.directory sub) := by
    rw [descend?_concat_of_reached reached, found]
  rw [descend?_append_of_reached here] at there
  cases rest with
  | nil => cases there
  | cons first rest =>
    rw [descend?_append, Option.bind_eq_some_iff] at still
    obtain ⟨y, holder, further⟩ := still
    obtain rfl := Option.some.inj (here.symm.trans ((cuts.descend?_eq_some sound sound').mp holder).1)
    rw [descend?_cons, bare] at further
    cases further

end Removing

section Mounted

variable {σ : Type} [Backing σ FileId DirectoryId] [Stored σ] {t t₁ : σ} {root home goal : DirectoryId}
  {newName : String} {front back : List String}

theorem Grows.carries_undone {target new : Node} (grown : Grows (store t) (store t₁) target)
    (sound : (store t).Sound) (sound₁ : (store t₁).Sound)
    (found : (Node.directory home).child? (store t₁) name = some new) (fresh : new.held (store t) = false)
    {s' : Store} (undo : Clears (store t₁) s' (StandsIn (store t₁) home name)) (taken : FileId → Prop) :
    Carries (store t) s' (.directory root) id taken := by
  refine (grown.carries sound sound₁ _ taken).then (undo.carries sound₁ _) ?_
  rintro file path reached ⟨z, stands, further⟩
  exact absurd (stands.within further)
    (grown.not_standsIn sound sound₁ found fresh (sound.file_held reached))

theorem Adds.carries_undone {new : FileId} {shown : Entry}
    (adds : Adds (store t) (store t₁) (.directory home) (.file new) name shown) (sound : (store t).Sound)
    (sound₁ : (store t₁).Sound) (free : (Node.directory home).child? (store t) name = none)
    (taken : FileId → Prop) :
    Carries (store t) (store ((DirectoryView.direct home).deleteFile t₁ name).2) (.directory root) id taken := by
  have found : (Node.directory home).child? (store t₁) name = some (.file new) := by
    rw [adds.child? sound sound₁ free, if_pos ⟨rfl, rfl⟩]
  exact (adds.grows sound).carries_undone sound sound₁ found adds.fresh (deleteFile_cuts sound₁ home name) taken

theorem plainNames_eq_of_own (sound : (store t).Sound) {mount : Mount DirectoryId} {source target : String}
    (own : mount.NamesOwnFile t source target) : plainNames source = plainNames target := by
  obtain ⟨home, name, other, located, present, located', same⟩ := own
  obtain ⟨front, normal, -, reached⟩ := locate_view (t := t) located
  obtain ⟨back, normal', -, reached'⟩ := locate_view (t := t) located'
  obtain ⟨names, clean⟩ := normalize_ok normal
  obtain ⟨names', clean'⟩ := normalize_ok normal'
  have listed : ∃ file, file ∈ (store t).files home.node := by
    rw [DirectoryView.file?, Option.isSome_map, Stored.file?, Option.isSome_iff_exists] at present
    obtain ⟨file, found⟩ := present
    exact ⟨file, (Store.file?_some found).1⟩
  obtain ⟨file, listed⟩ := listed
  have held := Store.held_of_file listed
  have alsoHeld := sound.descend?_held (sound.held_of_descend? reached held) reached'
  rw [DirectoryView.path, DirectoryView.path, Stored.directoryPath, Stored.directoryPath, eq_comm,
    sound.directoryPath_inj held alsoHeld reached reached'
      (fun n among => clean n (List.mem_append_left _ among))
      (fun n among => clean' n (List.mem_append_left _ among))] at same
  rw [← names, ← names', same]

theorem attempt_carries {fault : Error} {barred : DirectoryView DirectoryId → String → Bool}
    {step : DirectoryView DirectoryId → String → Except Error Unit × σ} (sound : (store t).Sound) (text : String)
    (each : ∀ home name, Carries (store t) (store (step (.direct home) name).2) (.directory root) id taken) :
    Carries (store t) (store (Mount.attempt t ⟨.direct root⟩ text fault barred step).2) (.directory root) id taken := by
  rcases Mount.attempt_cases t ⟨.direct root⟩ text fault barred step with
    ⟨e, refused⟩ | ⟨holder, name, located, -, done⟩
  · rw [refused]
    exact .refl sound _ taken
  · obtain ⟨front, home, -, -, rfl, -⟩ := locate_ok located
    rw [done]
    exact each home name

theorem attempt_takes {fault : Error} {barred : DirectoryView DirectoryId → String → Bool}
    {step : DirectoryView DirectoryId → String → Except Error Unit × σ} (sound : (store t).Sound) (text : String)
    (each : ∀ home name front, (Node.directory root).descend? (store t) front = some (.directory home) →
      Takes (store t) (store (step (.direct home) name).2) (.directory root) (front ++ [name])
        ((step (.direct home) name).1 = .ok ())) :
    Takes (store t) (store (Mount.attempt t ⟨.direct root⟩ text fault barred step).2) (.directory root)
      (plainNames text) ((Mount.attempt t ⟨.direct root⟩ text fault barred step).1 = .ok ()) := by
  rcases Mount.attempt_cases t ⟨.direct root⟩ text fault barred step with
    ⟨e, refused⟩ | ⟨holder, name, located, -, done⟩
  · rw [refused]
    exact .refl sound (by simp)
  · obtain ⟨front, home, split, -, rfl, reached⟩ := locate_ok located
    rw [done, split]
    exact each home name front reached

theorem createSized_carries (sound : (store t).Sound) (home : DirectoryId) (name : String) (size : Nat)
    (taken : FileId → Prop) :
    Carries (store t) (store (Mount.createSized t (.direct home) name size).2) (.directory root) id taken := by
  rw [Mount.createSized]
  obtain ⟨t₁, ⟨refused, same⟩ | ⟨new, created, sound₁, free, adds⟩⟩ := direct_createFile sound home name
  · rw [refused]
    exact same ▸ .refl sound _ taken
  · rw [created]
    dsimp only
    have held : (Node.file new).held (store t₁) = true := (adds.held _).mpr (.inl rfl)
    have altered := resize_altered sound₁ held size
    obtain ⟨shown, adds⟩ := adds.altered altered
    generalize (FileView.direct new).resize t₁ size = sized at altered adds ⊢
    obtain ⟨_ | _, t₂⟩ := sized
    · exact adds.carries_undone sound altered.1 free taken
    · exact (adds.grows sound).carries sound altered.1 _ taken

theorem mount_createFile_carries (sound : (store t).Sound) (text : String) (size : Nat)
    (taken : FileId → Prop) :
    Carries (store t) (store (Mount.createFile t ⟨.direct root⟩ text size).2) (.directory root) id taken := by
  rw [Mount.createFile_eq_attempt]
  exact attempt_carries sound text fun home name => createSized_carries sound home name size taken

theorem mount_createDirectory_carries (sound : (store t).Sound) (text : String) (taken : FileId → Prop) :
    Carries (store t) (store (Mount.createDirectory t ⟨.direct root⟩ text).2) (.directory root) id taken := by
  rw [Mount.createDirectory_eq_attempt]
  refine attempt_carries sound text fun home name => ?_
  obtain ⟨t₁, ⟨refused, same⟩ | ⟨new, created, sound₁, -, adds⟩⟩ := direct_createSubdirectory sound home name
  · rw [refused]
    exact same ▸ .refl sound _ taken
  · rw [created]
    exact (adds.grows sound).carries sound sound₁ _ taken

theorem Takes.imp {done last : Prop} (takes : Takes s s' top key done) (sooner : last → done) :
    Takes s s' top key last := ⟨takes.carries, fun finished => takes.gone (sooner finished)⟩

theorem mount_deleteFile_takes (sound : (store t).Sound) (text : String) :
    Takes (store t) (store (Mount.deleteFile t ⟨.direct root⟩ text).2) (.directory root) (plainNames text)
      ((Mount.deleteFile t ⟨.direct root⟩ text).1 = .ok ()) := by
  rw [Mount.deleteFile_eq_attempt]
  exact attempt_takes sound text fun home name front reached =>
    (deleteFile_takes sound home name reached).imp Mount.told_eq_ok.mp

/-- A step on an existing subdirectory takes from a mount what it takes from the directory that holds it. -/
theorem onSubdirectory_takes {step : σ → DirectoryView DirectoryId → String → Bool × σ} (sound : (store t).Sound)
    (takes : ∀ home name front, (Node.directory root).descend? (store t) front = some (.directory home) →
      Takes (store t) (store (step t (.direct home) name).2) (.directory root) (front ++ [name])
        ((step t (.direct home) name).1 = true)) (text : String) :
    Takes (store t) (store (Mount.onSubdirectory step t ⟨.direct root⟩ text).2) (.directory root)
      (plainNames text) ((Mount.onSubdirectory step t ⟨.direct root⟩ text).1 = .ok ()) := by
  rw [Mount.onSubdirectory_eq_attempt]
  exact attempt_takes sound text fun home name front reached =>
    (takes home name front reached).imp Mount.told_eq_ok.mp

theorem mount_deleteDirectory_carries (sound : (store t).Sound) (text : String) (taken : FileId → Prop) :
    Carries (store t) (store (Mount.deleteDirectory t ⟨.direct root⟩ text).2) (.directory root) id taken := by
  rw [Mount.deleteDirectory, Mount.onSubdirectory_eq_attempt]
  exact attempt_carries sound text fun home name => deleteSubdirectory_carries sound home name _ taken

theorem moveFile_takes (sound : (store t).Sound)
    (reached : (Node.directory root).descend? (store t) front = some (.directory home)) :
    Takes (store t) (store (Mount.moveFile t (.direct file) (.direct home) name (.direct goal) newName).2)
      (.directory root) (front ++ [name])
      ((Mount.moveFile t (.direct file) (.direct home) name (.direct goal) newName).1 = .ok ()) := by
  rw [Mount.moveFile]
  split
  · exact .refl sound (by simp)
  · obtain ⟨t₁, ⟨refused, same⟩ | ⟨new, created, sound₁, free, adds⟩⟩ := direct_createFile sound goal newName
    · rw [refused]
      dsimp only
      rw [same]
      exact .refl sound (by simp)
    · rw [created]
      dsimp only
      have held : (Node.file new).held (store t₁) = true := (adds.held _).mpr (.inl rfl)
      generalize FileView.readAll t₁ (.direct file) = data
      have sized := resize_altered sound₁ held data.length
      generalize (FileView.direct new).resize t₁ data.length = resized at sized ⊢
      obtain ⟨_ | _, t₂⟩ := resized
      · obtain ⟨shown, adds⟩ := adds.altered sized
        exact ⟨adds.carries_undone sound sized.1 free _, by simp⟩
      · have wrote := write_altered sized.1 ((sized.held _).trans held) 0 data
        dsimp only
        generalize (FileView.direct new).write t₂ 0 data = outcome at wrote ⊢
        obtain ⟨written, t₃⟩ := outcome
        obtain ⟨shown, adds⟩ := adds.altered (sized.trans wrote)
        have sound₃ : (store t₃).Sound := wrote.1
        have grown := adds.grows sound
        dsimp only
        split
        · exact ⟨adds.carries_undone sound sound₃ free _, by simp⟩
        · have takes := (Takes.after sound (grown.carries sound sound₃ _ _)
            (deleteFile_takes sound₃ home name (grown.descend? sound sound₃ reached)))
          obtain ⟨t₄, ⟨refused, same⟩ | ⟨gone, deleted, -, -, -⟩⟩ := direct_deleteFile sound₃ home name
          · rw [refused]
            rw [← same] at adds sound₃
            exact ⟨adds.carries_undone sound sound₃ free _, by simp⟩
          · rw [deleted] at takes ⊢
            exact takes.imp fun _ => rfl

theorem moveDirectory_takes {sub : DirectoryId} (sound : (store t).Sound)
    (reached : (Node.directory root).descend? (store t) front = some (.directory home))
    (toTop : (Node.directory root).descend? (store t) back = some (.directory goal))
    (found : (Node.directory home).child? (store t) name = some (.directory sub))
    (free : (Node.directory goal).child? (store t) newName = none)
    (apart : ¬ front ++ [name] <+: back ++ [newName]) :
    Takes (store t) (store (Mount.moveDirectory t (.direct sub) (.direct home) name (.direct goal) newName).2)
      (.directory root) (front ++ [name])
      ((Mount.moveDirectory t (.direct sub) (.direct home) name (.direct goal) newName).1 = .ok ()) := by
  rw [Mount.moveDirectory]
  split
  · exact .refl sound (by simp)
  · obtain ⟨t₁, ⟨refused, same⟩ | ⟨new, created, sound₁, -, adds⟩⟩ :=
      direct_createSubdirectory sound goal newName
    · rw [refused]
      dsimp only
      rw [same]
      exact .refl sound (by simp)
    · rw [created]
      dsimp only
      obtain ⟨complete, t₂, copied, sound₂, grown, -, target, fromTop₂, -⟩ :=
        copyTree_grows sound reached toTop found free apart sound₁ adds
      rw [copied]
      cases complete with
      | false => exact ⟨grown.carries_undone sound sound₂ target adds.fresh (deleteTree_cuts sound₂ goal newName) _,
          by simp⟩
      | true =>
        have takes := Takes.after sound (grown.carries sound sound₂ _ _)
          (deleteTree_takes sound₂ home name (grown.descend? sound sound₂ reached))
        have removal := deleteTree_cuts sound₂ home name
        dsimp only
        generalize (DirectoryView.direct home).deleteTree t₂ name = removed at takes removal ⊢
        obtain ⟨_ | _, t₃⟩ := removed
        · dsimp only
          split
          · refine takes.then (Clears.carries (deleteTree_cuts removal.1 goal newName) removal.1 _) ?_ (by simp)
            rintro file path there ⟨z, ⟨y, child, within⟩, further⟩
            -- what has the new name is still the copy, and in it there was no file from before
            obtain ⟨sound₃, lost, cuts, -⟩ := removal
            have before := ((cuts.child?_eq_some sound₂ sound₃).mp child).1
            exact grown.not_standsIn sound sound₂ target adds.fresh (sound.file_held there)
              ⟨y, before, cuts.within sound₂ sound₃ (within.trans further)⟩
          · exact takes.imp (by simp)
        · exact takes.imp fun _ => rfl

def followRename (source target : List String) : Except Error Unit → List String → List String
  | .ok () => exchange source target
  | .error _ => id

/-- A rename in a directory takes all files along, and one to another directory takes those in question out of
    the tree. -/
def RenamesOrTakes (s s' : Store) (top : Node) (source target : List String) (result : Except Error Unit) :
    Prop :=
  if source.dropLast = target.dropLast then
    Carries s s' top (followRename source target result) fun _ => False
  else Takes s s' top source (result = .ok ())

theorem RenamesOrTakes.refused {source target : List String} (sound : s.Sound) (e : Error) :
    RenamesOrTakes s s top source target (.error e) := by
  rw [RenamesOrTakes]
  split
  · exact .refl sound top _
  · exact .refl sound (by simp)

theorem RenamesOrTakes.own (sound : s.Sound) (names : List String) (result : Except Error Unit) :
    RenamesOrTakes s s top names names result := by
  rw [RenamesOrTakes, if_pos rfl]
  cases result with
  | error e => exact .refl sound top _
  | ok done =>
    have same : followRename names names (.ok done) = id := funext fun key => exchange_self names key
    rw [same]
    exact .refl sound top _

/-- However a mount answers, files are taken along or out of the tree, if moving to another directory takes what it
    moves. -/
theorem Renaming.renamesOrTakes {N : Type} {node : N → Node}
    {move : N → DirectoryId → String → DirectoryId → String → Except Error Unit × σ} {source target : List String}
    {outcome : Except Error Unit × σ} (sound : (store t).Sound)
    (course : Renaming node move t root source target outcome)
    (takes : ∀ {x front back home goal old new},
      (Node.directory root).descend? (store t) front = some (.directory home) →
      (Node.directory root).descend? (store t) back = some (.directory goal) →
      (Node.directory home).child? (store t) old = some (node x) →
      (Node.directory goal).child? (store t) new = none → ¬ front ++ [old] <+: back ++ [new] →
      Takes (store t) (store (move x home old goal new).2) (.directory root) (front ++ [old])
        ((move x home old goal new).1 = .ok ())) :
    RenamesOrTakes (store t) (store outcome.2) (.directory root) source target outcome.1 := by
  cases course with
  | refused e same =>
    dsimp only
    rw [same]
    exact .refused sound e
  | own same =>
    subst same
    exact .own sound _ _
  | inPlace origin aim reached child free sound' effect =>
    subst origin aim
    rw [RenamesOrTakes, if_pos (by simp)]
    exact effect.carries sound sound' reached child free _
  | moved origin aim reached reached' child free elsewhere apart =>
    subst origin aim
    rw [RenamesOrTakes, if_neg (by simpa using elsewhere)]
    exact takes reached reached' child free apart

theorem mount_renameFile_carries (sound : (store t).Sound) (source target : String) :
    RenamesOrTakes (store t) (store (Mount.renameFile t ⟨.direct root⟩ source target).2) (.directory root)
      (plainNames source) (plainNames target) (Mount.renameFile t ⟨.direct root⟩ source target).1 :=
  (mount_renameFile_renaming sound source target).renamesOrTakes sound
    fun reached _ _ _ _ => moveFile_takes sound reached

theorem mount_renameDirectory_carries (sound : (store t).Sound) (source target : String) :
    RenamesOrTakes (store t) (store (Mount.renameDirectory t ⟨.direct root⟩ source target).2) (.directory root)
      (plainNames source) (plainNames target) (Mount.renameDirectory t ⟨.direct root⟩ source target).1 :=
  (mount_renameDirectory_renaming sound source target).renamesOrTakes sound
    fun reached reached' child free apart => moveDirectory_takes sound reached reached' child free apart

end Mounted

end GuestStorage.Memory
