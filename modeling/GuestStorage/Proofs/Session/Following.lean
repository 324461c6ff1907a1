import GuestStorage.Proofs.Memory.Follow
import GuestStorage.Proofs.PathMap.Shows
import GuestStorage.Proofs.Projection.Mount
import GuestStorage.Proofs.Session.Client

namespace GuestStorage.Session

open Keyed Memory Node GuestStorage.Tree
open GuestStorage.Path (IsPlain)

/-- The path whose files a request deletes or moves to another directory. -/
def PathRequest.taken? : PathRequest → Option (List String)
  | .deleteFile path | .deleteDirectoryRecursively path | .cleanDirectoryRecursively path =>
    some (plainNames path)
  | .renameFile source target | .renameDirectory source target =>
    if (plainNames source).dropLast = (plainNames target).dropLast then none else some (plainNames source)
  | _ => none

def PathRequest.renaming? : PathRequest → Option (List String × List String)
  | .renameFile source target | .renameDirectory source target =>
    if (plainNames source).dropLast = (plainNames target).dropLast then
      some (plainNames source, plainNames target)
    else none
  | _ => none

def Request.taken? : Request → Option (List String)
  | .path _ request => request.taken?
  | _ => none

def Request.renaming? : Request → Option (List String × List String)
  | .path _ request => request.renaming?
  | _ => none

/-- Where a path leads after a request: it goes along with a rename in place that was made. -/
def carried (sent : Request) (answer : Client.Answer) (path : List String) : List String :=
  match sent.renaming? with
  | some (source, target) => if answer = .ok .done then exchange source target path else path
  | none => path

/-- A path as it goes along with all renames in place of a run. -/
def Client.followed (client : Client Store FileId DirectoryId) (path : List String) : List Request → List String
  | [] => path
  | sent :: rest => (client.step sent).2.followed (carried sent (client.step sent).1 path) rest

/-- No request that is carried out takes what stands at the path at that time. -/
def Client.Spares (client : Client Store FileId DirectoryId) (path : List String) : List Request → Prop
  | [] => True
  | sent :: rest =>
    ((client.step sent).1 = .ok .done → ∀ key ∈ sent.taken?, ¬ key <+: path) ∧
      (client.step sent).2.Spares (carried sent (client.step sent).1 path) rest

def Client.Takes (client : Client Store FileId DirectoryId) (path : List String) : List Request → Prop
  | [] => False
  | sent :: rest =>
    (∃ key ∈ sent.taken?, key <+: path) ∨
      (client.step sent).2.Takes (carried sent (client.step sent).1 path) rest

instance decidableSpares (client : Client Store FileId DirectoryId) (path : List String) :
    ∀ late, Decidable (client.Spares path late)
  | [] => isTrue trivial
  | sent :: rest =>
    have := decidableSpares (client.step sent).2 (carried sent (client.step sent).1 path) rest
    inferInstanceAs (Decidable (((client.step sent).1 = .ok .done → ∀ key ∈ sent.taken?, ¬ key <+: path) ∧
      (client.step sent).2.Spares (carried sent (client.step sent).1 path) rest))

instance decidableTakes (client : Client Store FileId DirectoryId) (path : List String) :
    ∀ late, Decidable (client.Takes path late)
  | [] => isFalse id
  | sent :: rest =>
    have := decidableTakes (client.step sent).2 (carried sent (client.step sent).1 path) rest
    inferInstanceAs (Decidable ((∃ key ∈ sent.taken?, key <+: path) ∨
      (client.step sent).2.Takes (carried sent (client.step sent).1 path) rest))

variable {client : Client Store FileId DirectoryId} {root : DirectoryView DirectoryId}
  {opened : OpenFile FileId} {s : Store}

structure Course (s s' : Store) (root : DirectoryId) (sent : Request) (answer : Client.Answer) : Prop where
  carries : Carries s s' (.directory root) (carried sent answer) fun file =>
    ∃ key ∈ sent.taken?, FileBelow s (.directory root) key file
  gone : answer = .ok .done → ∀ key ∈ sent.taken?, ∀ file, FileBelow s (.directory root) key file →
    ∀ path, (Node.directory root).descend? s' path ≠ some (.file file)

section Courses

variable {handle : Nat} {request : PathRequest} {answer : Client.Answer} {s' : Store} {node : DirectoryId}
  {sent : Request}

theorem carried_of_refused {e : WriteFailure} : carried sent (.error e) = id := by
  funext path
  rw [carried]
  split
  · exact if_neg (by simp)
  · rfl

theorem carried_of_none (stays : sent.renaming? = none) : carried sent answer = id := by
  funext path
  rw [carried, stays]
  rfl

theorem Course.of_carries (stays : sent.renaming? = none) (spares : sent.taken? = none)
    (carries : Carries s s' (.directory node) id fun _ => False) : Course s s' node sent answer := by
  refine ⟨(carried_of_none stays).symm ▸ carries.mono fun _ _ _ => False.elim, fun _ key taken => ?_⟩
  rw [spares] at taken
  cases taken

theorem Course.same (sound : s.Sound) (stays : sent.renaming? = none) (spares : sent.taken? = none) :
    Course s s node sent answer :=
  .of_carries stays spares (.refl sound _ _)

theorem Course.refused (sound : s.Sound) (e : WriteFailure) : Course s s node sent (.error e) :=
  ⟨carried_of_refused.symm ▸ .refl sound _ _, fun done => by cases done⟩

theorem ofExcept_done {result : Except Error Unit} :
    Client.ofExcept (fun _ => Reply.done) result = .ok .done ↔ result = .ok () := by
  cases result <;> simp [Client.ofExcept, Client.refuse]

theorem Course.of_takes {key : List String} {result : Except Error Unit}
    (stays : request.renaming? = none) (takes : request.taken? = some key)
    (effect : Memory.Takes s s' (.directory node) key (result = .ok ())) :
    Course s s' node (.path handle request) (Client.ofExcept (fun _ => .done) result) := by
  have whole : (Request.path handle request).renaming? = none := stays
  have taken : (Request.path handle request).taken? = some key := takes
  refine ⟨(carried_of_none whole).symm ▸ effect.carries.mono fun file path _ below => ⟨key, taken, below⟩, ?_⟩
  intro done other found file below
  obtain rfl := Option.some.inj (taken.symm.trans found)
  exact effect.gone (ofExcept_done.mp done) file below

theorem Course.of_rename {source target : List String} {result : Except Error Unit}
    (renames : request.renaming? =
      if source.dropLast = target.dropLast then some (source, target) else none)
    (takes : request.taken? = if source.dropLast = target.dropLast then none else some source)
    (effect : RenamesOrTakes s s' (.directory node) source target result) :
    Course s s' node (.path handle request) (Client.ofExcept (fun _ => .done) result) := by
  rw [RenamesOrTakes] at effect
  split at effect
  · rename_i inPlace
    rw [if_pos inPlace] at renames takes
    have along : carried (.path handle request) (Client.ofExcept (fun _ => .done) result) =
        followRename source target result := by
      funext path
      rw [carried, Request.renaming?, renames]
      cases result <;> simp [followRename, Client.ofExcept, Client.refuse]
    refine ⟨along.symm ▸ effect.mono fun _ _ _ => False.elim, fun _ key taken => ?_⟩
    rw [Request.taken?, takes] at taken
    cases taken
  · rename_i elsewhere
    rw [if_neg elsewhere] at renames takes
    exact .of_takes renames takes effect

theorem path_course_direct (sound : client.storage.Sound) (handle : Nat) {fs : FileSystem DirectoryId}
    (access : fs.mount.root.readOnly = false) (request : PathRequest) :
    Course client.storage (client.path fs request).2.storage fs.mount.root.node (.path handle request)
      (client.path fs request).1 := by
  obtain ⟨⟨⟨root, readOnly⟩⟩, space⟩ := fs
  obtain rfl : readOnly = false := access
  cases request with
  | createFile path size => exact .of_carries rfl rfl (mount_createFile_carries (t := client.storage) sound path size _)
  | createDirectory path => exact .of_carries rfl rfl (mount_createDirectory_carries (t := client.storage) sound path _)
  | deleteDirectory path => exact .of_carries rfl rfl (mount_deleteDirectory_carries (t := client.storage) sound path _)
  | deleteFile path => exact .of_takes rfl rfl (mount_deleteFile_takes (t := client.storage) sound path)
  | deleteDirectoryRecursively path =>
    exact .of_takes rfl rfl (onSubdirectory_takes (t := client.storage) sound
      (fun home name front reached => deleteTree_takes sound home name reached) path)
  | cleanDirectoryRecursively path =>
    exact .of_takes rfl rfl (onSubdirectory_takes (t := client.storage) sound
      (fun home name front reached => cleanSubdirectory_takes sound home name reached) path)
  | renameFile source target =>
    exact .of_rename rfl rfl (mount_renameFile_carries (t := client.storage) sound source target)
  | renameDirectory source target =>
    exact .of_rename rfl rfl (mount_renameDirectory_carries (t := client.storage) sound source target)
  | commit | entryType | freeSpace | totalSpace => exact .same sound rfl rfl
  | openFile path mode | openDirectory path filter =>
    simp only [Client.path]
    split <;> exact .same sound rfl rfl

theorem path_course_projected (sound : client.storage.Sound) (handle : Nat) {fs : FileSystem DirectoryId}
    (projected : fs.mount.root.readOnly = true) (request : PathRequest) :
    Course client.storage (client.path fs request).2.storage fs.mount.root.node (.path handle request)
      (client.path fs request).1 := by
  by_cases change : request.isChange = true
  · obtain ⟨same, ⟨e, refused⟩ | ⟨done, own⟩⟩ := client.path_projected projected change
    · rw [same, refused]
      exact .refused sound _
    · have home : ∃ source target, (request = .renameFile source target ∨ request = .renameDirectory source target) ∧
          plainNames source = plainNames target := by
        cases request with
        | renameFile source target => exact ⟨source, target, .inl rfl, plainNames_eq_of_own (t := client.storage) sound own⟩
        | renameDirectory source target =>
          obtain ⟨names, -, -, normal, normal', -⟩ := own
          exact ⟨source, target, .inr rfl, (normalize_ok normal).1.symm.trans (normalize_ok normal').1⟩
        | _ => exact own.elim
      have stays : ∀ path, carried (.path handle request) (.ok .done) path = path := by
        obtain ⟨source, target, rfl | rfl, names⟩ := home <;> intro path <;>
          simp [carried, Request.renaming?, PathRequest.renaming?, names]
      have spares : (Request.path handle request).taken? = none := by
        obtain ⟨source, target, rfl | rfl, names⟩ := home <;>
          simp [Request.taken?, PathRequest.taken?, names]
      rw [same, done]
      refine ⟨(funext stays : carried _ _ = id).symm ▸ .refl sound _ _, fun _ key taken => ?_⟩
      rw [spares] at taken
      cases taken
  · cases request with
    | commit | entryType | freeSpace | totalSpace => exact .same sound rfl rfl
    | openFile path mode | openDirectory path filter =>
      simp only [Client.path]
      split <;> exact .same sound rfl rfl
    | _ => exact absurd rfl change

theorem path_course (sound : client.storage.Sound) (handle : Nat) (fs : FileSystem DirectoryId)
    (request : PathRequest) :
    Course client.storage (client.path fs request).2.storage fs.mount.root.node (.path handle request)
      (client.path fs request).1 := by
  cases access : fs.mount.root.readOnly with
  | false => exact path_course_direct sound handle access request
  | true => exact path_course_projected sound handle access request

theorem file_alters (sound : client.storage.Sound) (held : (Node.file opened.file.node).held client.storage = true)
    (request : FileRequest) :
    Altered client.storage (client.file opened request).2.storage opened.file.node := by
  obtain ⟨⟨file, readOnly⟩, mode⟩ := opened
  cases readOnly with
  | true =>
    refine Client.file_keeps (Altered client.storage · file) ?_ ?_ (.refl sound file) request
    · exact fun _ _ altered => altered
    · exact fun _ altered => altered
  | false =>
    refine Client.file_keeps (Altered client.storage · file) ?_ ?_ (.refl sound file) request
    · intro s offset data altered
      exact altered.trans (write_altered (t := s) altered.1 ((altered.held _).trans held) offset data)
    · intro s size altered
      exact altered.trans (resize_altered (t := s) altered.1 ((altered.held _).trans held) size)

end Courses

section Tended

/-- What the sessions of a client go by: all file systems are mounted on one directory, and open files are
    views of files of the store, projected if the directory is. -/
def Belongs (s : Store) (root : DirectoryView DirectoryId) : AnySession FileId DirectoryId → Prop
  | .fileSystem fs => fs.mount.root = root
  | .file opened => (Node.file opened.file.node).held s = true ∧ opened.file.readOnly = root.readOnly
  | _ => True

structure Tended (client : Client Store FileId DirectoryId) (root : DirectoryView DirectoryId) : Prop where
  sound : client.storage.Sound
  sessions : client.table.All (Belongs client.storage root)

theorem Tended.mounted (sound : s.Sound) (root : DirectoryView DirectoryId) (space : SpaceReport) :
    Tended (Client.mounted s root space) root :=
  ⟨sound, Table.All.insert .empty rfl⟩

theorem openFile_eq_ok {view : FileView FileId} {text : String} {mode : Wire.OpenMode} (sound : s.Sound) :
    Mount.openFile s ⟨root⟩ text mode = .ok view ↔
      ∃ path, Mount.normalize text = .ok path ∧
        (Node.directory root.node).descend? s path = some (.file view.node) ∧
        view.readOnly = root.readOnly ∧ (mode.needsWrite = true → view.isWritable s = true) := by
  have readable : view.isReadable s = true := rfl
  constructor
  · intro opened
    have access := Mount.readOnly_of_openFile opened
    simp only [Mount.openFile] at opened
    split at opened
    · cases opened
    · rename_i holder name located
      split at opened
      · cases opened
      · rename_i file found
        split at opened
        · cases opened
        · split at opened
          · cases opened
          · rename_i allowed
            cases opened
            obtain ⟨front, normal, -, reached⟩ := locate_view (t := s) located
            obtain ⟨node, held, rfl⟩ := Option.map_eq_some_iff.mp found
            refine ⟨_, normal, ?_, access, by simpa using allowed⟩
            exact (descend?_concat_of_reached reached name).trans (sound.child?_file_eq_some.mpr held)
  · rintro ⟨path, normal, reached, access, allowed⟩
    rcases List.eq_nil_or_concat' path with rfl | ⟨front, name, rfl⟩
    · cases reached
    · rw [descend?_concat, Option.bind_eq_some_iff] at reached
      obtain ⟨home, above, child⟩ := reached
      cases home with
      | file => cases child
      | directory home =>
        have held : DirectoryView.descend? s root front = some ⟨home, root.readOnly⟩ :=
          (view_descend?_eq_some s).mpr ⟨rfl, above⟩
        have located : Mount.locate s ⟨root⟩ text = .ok (⟨home, root.readOnly⟩, name) :=
          Mount.locate_eq_ok.mpr ⟨front, normal, held⟩
        have found : DirectoryView.file? s ⟨home, root.readOnly⟩ name = some view := by
          rw [DirectoryView.file?, Option.map_eq_some_iff]
          exact ⟨view.node, sound.child?_file_eq_some.mp child, access ▸ rfl⟩
        have denied : (mode.needsWrite && !view.isWritable s) = false := by
          cases writes : mode.needsWrite <;> simp [writes] at allowed ⊢
          exact allowed
        simp [Mount.openFile, located, found, readable, denied]

theorem openFile_belongs {fs : FileSystem DirectoryId} {text : String} {raw : UInt32} (sound : s.Sound)
    (mounted : fs.mount.root = root) (done : fs.openFile s text raw = .ok opened) :
    Belongs s root (.file opened) := by
  obtain ⟨⟨root⟩, space⟩ := fs
  obtain rfl := mounted
  obtain ⟨path, -, reached, access, -⟩ := (openFile_eq_ok sound).mp (FileSystem.openFile_eq_ok.mp done).2
  exact ⟨sound.file_held reached, access⟩

theorem Belongs.step {s' : Store} {session : AnySession FileId DirectoryId} (belongs : Belongs s root session)
    (held : ∀ x : Node, x.held s = true → x.held s' = true) : Belongs s' root session := by
  cases session with
  | file opened => exact ⟨held _ belongs.1, belongs.2⟩
  | _ => exact belongs

theorem step_course (tended : Tended client root) (sent : Request) :
    Course client.storage (client.step sent).2.storage root.node sent (client.step sent).1 := by
  obtain ⟨sound, sessions⟩ := tended
  cases sent with
  | path handle request =>
    simp only [Client.step, Client.withSession]
    split
    · exact .refused sound _
    · rename_i fs found
      obtain rfl : fs.mount.root = root := sessions _ _ (Table.find?_of_fileSystem found)
      exact path_course sound handle fs request
  | file handle request =>
    simp only [Client.step, Client.withSession]
    split
    · exact .refused sound _
    · rename_i opened found
      have held := (sessions _ _ (Table.find?_of_file found)).1
      exact .of_carries rfl rfl ((file_alters sound held request).carries sound _ _)
  | directory handle request | storage handle request | saveInfo handle request =>
    simp only [Client.step, Client.withSession]
    split
    · exact .refused sound _
    · cases request <;> exact .same sound rfl rfl
  | event handle request | kind handle | close handle =>
    simp only [Client.step, Client.withSession]
    split <;> exact .same sound rfl rfl

theorem Tended.step (tended : Tended client root) (sent : Request) : Tended (client.step sent).2 root := by
  have course := step_course tended sent
  refine ⟨course.carries.sound, Client.all_step ?_ (fun _ => trivial) (fun _ => trivial) ?_⟩
  · exact fun handle session found => (tended.sessions handle session found).step course.carries.held
  · intro handle fs text raw opened _ found done
    exact (openFile_belongs tended.sound (tended.sessions _ _ (Table.find?_of_fileSystem found)) done).step
      course.carries.held

theorem Tended.run (tended : Tended client root) (requests : List Request) :
    Tended (client.run requests).2 root := by
  induction requests generalizing client with
  | nil => exact tended
  | cons sent rest ih => exact ih (tended.step sent)

theorem Tended.run_held (tended : Tended client root) (requests : List Request) {x : Node}
    (held : x.held client.storage = true) : x.held (client.run requests).2.storage = true := by
  induction requests generalizing client with
  | nil => exact held
  | cons sent rest ih => exact ih (tended.step sent) ((step_course tended sent).carries.held x held)

end Tended

section Following

variable {file : FileId} {path : List String}

def Away (s : Store) (root : DirectoryId) (file : FileId) : Prop :=
  ∀ path, (Node.directory root).descend? s path ≠ some (.file file)

theorem Away.step (tended : Tended client root) (held : (Node.file file).held client.storage = true)
    (away : Away client.storage root.node file) (sent : Request) :
    Away (client.step sent).2.storage root.node file := by
  intro path reached
  obtain ⟨before, there, -⟩ := (step_course tended sent).carries.back file path held reached
  exact away before there

theorem Away.run (tended : Tended client root) (held : (Node.file file).held client.storage = true)
    (away : Away client.storage root.node file) (requests : List Request) :
    Away (client.run requests).2.storage root.node file := by
  induction requests generalizing client with
  | nil => exact away
  | cons sent rest ih =>
    exact ih (tended.step sent) ((step_course tended sent).carries.held _ held) (away.step tended held sent)

theorem step_follows (tended : Tended client root)
    (reached : (Node.directory root.node).descend? client.storage path = some (.file file)) (sent : Request) :
    ((Node.directory root.node).descend? (client.step sent).2.storage
        (carried sent (client.step sent).1 path) = some (.file file) ∧
      ((client.step sent).1 = .ok .done → ∀ key ∈ sent.taken?, ¬ key <+: path)) ∨
    Away (client.step sent).2.storage root.node file ∧ ∃ key ∈ sent.taken?, key <+: path := by
  have course := step_course tended sent
  have held := tended.sound.file_held reached
  by_cases still : Away (client.step sent).2.storage root.node file
  · refine .inr ⟨still, by_contra fun spared => still _ (course.carries.kept file path reached ?_)⟩
    rintro ⟨key, taken, other, within, there⟩
    obtain rfl := tended.sound.path_unique there reached
    exact spared ⟨key, taken, within⟩
  · simp only [Away, not_forall, not_not] at still
    obtain ⟨later, there⟩ := still
    obtain ⟨before, earlier, rfl⟩ := course.carries.back file later held there
    obtain rfl := tended.sound.path_unique earlier reached
    exact .inl ⟨there, fun done key taken within => course.gone done key taken file ⟨_, within, reached⟩ _ there⟩

theorem run_follows (tended : Tended client root)
    (reached : (Node.directory root.node).descend? client.storage path = some (.file file))
    (requests : List Request) :
    ((Node.directory root.node).descend? (client.run requests).2.storage (client.followed path requests) =
        some (.file file) ∧ client.Spares path requests) ∨
    Away (client.run requests).2.storage root.node file ∧ client.Takes path requests := by
  induction requests generalizing client path with
  | nil => exact .inl ⟨reached, trivial⟩
  | cons sent rest ih =>
    rcases step_follows tended reached sent with ⟨there, spared⟩ | ⟨away, taken⟩
    · rcases ih (tended.step sent) there with ⟨last, spares⟩ | ⟨away, takes⟩
      · exact .inl ⟨last, spared, spares⟩
      · exact .inr ⟨away, .inr takes⟩
    · have held := (step_course tended sent).carries.held _ (tended.sound.file_held reached)
      exact .inr ⟨away.run (tended.step sent) held rest, .inl taken⟩

end Following

section Plain

variable {path : List String}

theorem normalize_join (plain : ∀ name ∈ path, IsPlain name) : Mount.normalize (Path.join path) = .ok path := by
  have kept : path.filter (· != ".") = path :=
    List.filter_eq_self.mpr fun name listed => by simpa using (plain name listed).2.1
  have inside : ".." ∉ path := fun listed => (plain ".." listed).2.2 rfl
  simp only [Mount.normalize, Path.components_join fun name listed => (plain name listed).1, kept,
    List.contains_iff_mem, inside, if_false]

theorem renaming_plain {sent : Request} {source target : List String}
    (renames : sent.renaming? = some (source, target)) (done : (client.step sent).1 = .ok .done) :
    ∀ name ∈ target, IsPlain name := by
  have plain : ∀ text names, Mount.normalize text = .ok names → ∀ name ∈ plainNames text, IsPlain name :=
    fun text names normal => (normalize_ok normal).1 ▸ PathMap.normalize_plain normal
  cases sent with
  | path handle request =>
    simp only [Client.step, Client.withSession] at done
    split at done
    · cases done
    · cases request with
      | renameFile a b =>
        obtain ⟨-, same⟩ := Option.ite_none_right_eq_some.mp renames
        obtain ⟨names, normal⟩ := (Mount.renameFile_course ..).normal_of_done (ofExcept_done.mp done)
        cases same
        exact plain b names normal
      | renameDirectory a b =>
        obtain ⟨-, same⟩ := Option.ite_none_right_eq_some.mp renames
        obtain ⟨names, normal⟩ := (Mount.renameDirectory_course ..).normal_of_done (ofExcept_done.mp done)
        cases same
        exact plain b names normal
      | _ => cases renames
  | _ => cases renames

theorem carried_plain (plain : ∀ name ∈ path, IsPlain name) (sent : Request) :
    ∀ name ∈ carried sent (client.step sent).1 path, IsPlain name := by
  rw [carried]
  split
  · rename_i source target renames
    split
    · rename_i done
      have fresh := renaming_plain renames done
      rcases exchange_cases source target path with ⟨rest, rfl, there⟩ | ⟨-, stays⟩
      · rw [there]
        intro name listed
        rcases List.mem_append.mp listed with new | old
        · exact fresh name new
        · exact plain name (List.mem_append_right _ old)
      · rw [stays]
        exact plain
    · exact plain
  · exact plain

theorem followed_plain (plain : ∀ name ∈ path, IsPlain name) (requests : List Request) :
    ∀ name ∈ client.followed path requests, IsPlain name := by
  induction requests generalizing client path with
  | nil => exact plain
  | cons sent rest ih => exact ih (carried_plain plain sent)

end Plain

end GuestStorage.Session
