import GuestStorage.Proofs.Session.Client
import GuestStorage.Proofs.Tree.Plain

namespace GuestStorage.Session

open GuestStorage.Tree
open Memory (plainNames)

/-- The same request along paths with the same names, but for single dots. -/
inductive PathRequest.Respells : PathRequest → PathRequest → Prop where
  | createFile {p q : String} (size : Nat) : plainNames p = plainNames q →
      Respells (.createFile p size) (.createFile q size)
  | deleteFile {p q : String} : plainNames p = plainNames q → Respells (.deleteFile p) (.deleteFile q)
  | createDirectory {p q : String} : plainNames p = plainNames q → Respells (.createDirectory p) (.createDirectory q)
  | deleteDirectory {p q : String} : plainNames p = plainNames q → Respells (.deleteDirectory p) (.deleteDirectory q)
  | deleteDirectoryRecursively {p q : String} : plainNames p = plainNames q →
      Respells (.deleteDirectoryRecursively p) (.deleteDirectoryRecursively q)
  | cleanDirectoryRecursively {p q : String} : plainNames p = plainNames q →
      Respells (.cleanDirectoryRecursively p) (.cleanDirectoryRecursively q)
  | renameFile {p q p' q' : String} : plainNames p = plainNames q → plainNames p' = plainNames q' →
      Respells (.renameFile p p') (.renameFile q q')
  | renameDirectory {p q p' q' : String} : plainNames p = plainNames q → plainNames p' = plainNames q' →
      Respells (.renameDirectory p p') (.renameDirectory q q')
  | entryType {p q : String} : plainNames p = plainNames q → Respells (.entryType p) (.entryType q)
  | openFile {p q : String} (mode : UInt32) : plainNames p = plainNames q →
      Respells (.openFile p mode) (.openFile q mode)
  | openDirectory {p q : String} (filter : UInt32) : plainNames p = plainNames q →
      Respells (.openDirectory p filter) (.openDirectory q filter)

/-- Works on what stands inside a directory: empties it, or moves it to a path whose other names are different. -/
def PathRequest.Delves : PathRequest → Prop
  | .deleteDirectoryRecursively _ | .cleanDirectoryRecursively _ => True
  | .renameDirectory source target => (plainNames source).dropLast ≠ (plainNames target).dropLast
  | _ => False

section

variable {σ F D : Type} [storage : Backing σ F D]

/-- The names that a request asks directories for: the names of its paths, each in the directory that those before it
    lead to from the mounted one, and where it works on what stands inside a directory, names that directories in
    there list. -/
def PathRequest.Asks (s : σ) (mount : Mount D) (request : PathRequest) (dir : D) (name : String) : Prop :=
  (∃ path ∈ request.paths, ".." ∉ Path.components path ∧ mount.root.Along s (plainNames path) dir name) ∨
    request.Delves ∧ Asked s (fun dir name => ∃ path ∈ request.paths, ".." ∉ Path.components path ∧
      mount.root.Ends s (plainNames path) dir name) dir name

def PathRequest.Gives (request : PathRequest) (name : String) : Prop :=
  ∃ path ∈ request.paths, (plainNames path).getLast? = some name

/-- The error for a double dot in a path. Renaming a file first reports what is wrong with the source. -/
def PathRequest.dotsError (s : σ) (mount : Mount D) : PathRequest → Error
  | .renameFile source _ =>
    match mount.locate s source with
    | .error e => e
    | .ok (home, name) => if (home.file? s name).isSome then .invalidArgument else .entityNotFound
  | _ => .invalidArgument

variable {s : σ} {mount : Mount D}

namespace Client

variable {client : Client σ F D} {fs : FileSystem D} {request request' : PathRequest}

theorem path_respells (same : request.Respells request') : client.path fs request = client.path fs request' := by
  cases same with
  | createFile size same => simp only [path, Mount.createFile, Mount.locate_congr same]
  | deleteFile same => simp only [path, Mount.deleteFile, Mount.locate_congr same]
  | createDirectory same => simp only [path, Mount.createDirectory, Mount.locate_congr same]
  | deleteDirectory same => simp only [path, Mount.deleteDirectory, Mount.onSubdirectory, Mount.locate_congr same]
  | deleteDirectoryRecursively same =>
    simp only [path, Mount.deleteDirectoryRecursively, Mount.onSubdirectory, Mount.locate_congr same]
  | cleanDirectoryRecursively same =>
    simp only [path, Mount.cleanDirectoryRecursively, Mount.onSubdirectory, Mount.locate_congr same]
  | renameFile same same' => simp only [path, Mount.renameFile, Mount.locate_congr same, Mount.locate_congr same']
  | renameDirectory same same' =>
    simp only [path, Mount.renameDirectory, Mount.normalize_congr same, Mount.normalize_congr same']
  | entryType same => simp only [path, Mount.entryType, Mount.normalize_congr same]
  | openFile mode same => simp only [path, FileSystem.openFile, Mount.openFile, Mount.locate_congr same]
  | openDirectory filter same =>
    simp only [path, FileSystem.openDirectory, Mount.openDirectory, Mount.normalize_congr same]

theorem renameFile_of_dots {source target : String}
    (dots : ".." ∈ Path.components source ∨ ".." ∈ Path.components target) :
    mount.renameFile s source target =
      (.error ((PathRequest.renameFile source target).dotsError s mount), s) := by
  rw [Mount.renameFile, PathRequest.dotsError]
  cases located : mount.locate s source with
  | error e => rfl
  | ok place =>
    obtain ⟨home, name⟩ := place
    have dots : ".." ∈ Path.components target := by
      refine dots.resolve_left fun dots => ?_
      rw [Mount.locate_of_dots dots] at located
      cases located
    cases found : home.file? s name with
    | none => simp only [found, Option.isSome_none, Bool.false_eq_true, if_false]
    | some file => simp only [found, Mount.locate_of_dots dots, Option.isSome_some, if_true]

theorem decodeArgument_error {α : Type} [Wire.Coded α] {raw : Nat} {e : Error}
    (refused : (decodeArgument raw : Except Error α) = .error e) : e = .invalidArgument := by
  unfold decodeArgument at refused
  cases decoded : (Wire.ofRaw raw : Except _ α) with
  | error e' =>
    rw [decoded] at refused
    exact (Except.error.inj refused).symm
  | ok value =>
    rw [decoded] at refused
    cases refused

theorem path_of_dots (dots : ∃ path ∈ request.paths, ".." ∈ Path.components path) :
    client.path fs request = (refuse (request.dotsError client.storage fs.mount), client) := by
  obtain ⟨text, listed, dots⟩ := dots
  have either : ∀ {source target}, text ∈ [source, target] →
      ".." ∈ Path.components source ∨ ".." ∈ Path.components target := by
    intro source target listed
    rcases List.mem_pair.mp listed with rfl | rfl
    · exact .inl dots
    · exact .inr dots
  cases request with
  | createFile | deleteFile | createDirectory | deleteDirectory | deleteDirectoryRecursively
  | cleanDirectoryRecursively =>
    obtain rfl := List.mem_singleton.mp listed
    simp only [path, Mount.createFile, Mount.deleteFile, Mount.createDirectory, Mount.deleteDirectory,
      Mount.deleteDirectoryRecursively, Mount.cleanDirectoryRecursively, Mount.onSubdirectory,
      Mount.locate_of_dots dots]
    rfl
  | renameFile source target =>
    simp only [path, renameFile_of_dots (either listed)]
    rfl
  | renameDirectory source target =>
    simp only [path, Mount.renameDirectory_of_dots (either listed)]
    rfl
  | entryType =>
    obtain rfl := List.mem_singleton.mp listed
    simp only [path, Mount.entryType, Mount.normalize_of_dots dots]
    rfl
  | openFile _ mode =>
    obtain rfl := List.mem_singleton.mp listed
    simp only [path, FileSystem.openFile, Mount.openFile, Mount.locate_of_dots dots]
    cases decoded : (decodeArgument mode.toNat : Except Error Wire.OpenMode) with
    | error e => rw [decodeArgument_error decoded]; rfl
    | ok mode => rfl
  | openDirectory =>
    obtain rfl := List.mem_singleton.mp listed
    simp only [path, FileSystem.openDirectory, Mount.openDirectory, Mount.normalize_of_dots dots]
    rfl
  | commit | freeSpace | totalSpace => cases listed

section Asking

variable {naming : Naming σ F D}

theorem listing_answering (dir : DirectoryView D) (filter : UInt32) :
    @Listing.ofDirectory σ F D (storage.answering naming) s dir filter = Listing.ofDirectory s dir filter := by
  have directories : @Listing.directoryEntries σ F D (storage.answering naming) s dir =
      Listing.directoryEntries s dir :=
    List.map_congr_left fun sub _ =>
      congrArg (fun size => Wire.DirectoryEntry.mk (sub.name s) .directory (UInt64.ofNat size))
        (sizeWithin_answering naming s (Backing.reach s sub.node) sub)
  unfold Listing.ofDirectory
  rw [directories]
  rfl

/-- In a storage that does the same with the names that a request asks for and gives, the request goes the same. The
    names along its paths are enough for all requests but those that work on what stands inside a directory. -/
theorem path_answering (agrees : naming.Agrees (request.Asks client.storage fs.mount) request.Gives) :
    @Client.path σ F D (storage.answering naming) client fs request = client.path fs request := by
  have known : ∀ text ∈ request.paths, ∀ {dir name}, fs.mount.Along client.storage text dir name →
      request.Asks client.storage fs.mount dir name :=
    fun text listed {dir name} along => .inl ⟨text, listed, Mount.along_iff.mp along⟩
  cases request with
  | createFile text size =>
    exact congrArg client.afterChange (agrees.mount_createFile (known text List.mem_cons_self) size)
  | deleteFile text => exact congrArg client.afterChange (agrees.mount_deleteFile (known text List.mem_cons_self))
  | createDirectory text =>
    exact congrArg client.afterChange (agrees.mount_createDirectory (known text List.mem_cons_self))
  | deleteDirectory text =>
    exact congrArg client.afterChange (agrees.mount_deleteDirectory (known text List.mem_cons_self))
  | deleteDirectoryRecursively text =>
    exact congrArg client.afterChange (agrees.mount_deleteTree (fun inside => .inr ⟨trivial, inside⟩)
      (known text List.mem_cons_self) fun ends => ⟨text, List.mem_cons_self, Mount.ends_iff.mp ends⟩)
  | cleanDirectoryRecursively text =>
    exact congrArg client.afterChange (agrees.mount_cleanTree (fun inside => .inr ⟨trivial, inside⟩)
      (known text List.mem_cons_self) fun ends => ⟨text, List.mem_cons_self, Mount.ends_iff.mp ends⟩)
  | renameFile source target =>
    have there : target ∈ [source, target] := List.mem_cons_of_mem source List.mem_cons_self
    exact congrArg client.afterChange (agrees.mount_renameFile (known source List.mem_cons_self) (known target there)
      fun ends => ⟨target, there, (Mount.ends_iff.mp ends).2.getLast?⟩)
  | renameDirectory source target =>
    have there : target ∈ [source, target] := List.mem_cons_of_mem source List.mem_cons_self
    refine congrArg client.afterChange (agrees.mount_renameDirectory (known source List.mem_cons_self)
      (known target there) (fun ends => ⟨target, there, (Mount.ends_iff.mp ends).2.getLast?⟩) ?_)
    intro dir oldHome newHome old new located found located' apart
    have own := Mount.ends_iff.mp (Mount.ends_of_locate located)
    have goal := Mount.ends_iff.mp (Mount.ends_of_locate located')
    have delves : (PathRequest.renameDirectory source target).Delves := by
      intro same
      rw [own.2.samePlace goal.2 same] at apart
      cases apart
    exact agrees.mount_moveDirectory (fun inside => .inr ⟨delves, inside⟩) ⟨source, List.mem_cons_self, own⟩
      ⟨target, there, goal⟩ found
  | entryType text =>
    have same := agrees.mount_entryType (known text List.mem_cons_self)
    simp only [path, same]
  | openFile text mode =>
    have same := agrees.mount_openFile (known text List.mem_cons_self)
    simp only [path, FileSystem.openFile, same]
  | openDirectory text filter =>
    simp only [path, FileSystem.openDirectory, agrees.mount_openDirectory (known text List.mem_cons_self),
      listing_answering]
  | commit | freeSpace | totalSpace => rfl

end Asking

/-- All that a request makes of its paths are their names, single dots left out. Other paths with the same names bring
    about the same. A double dot is refused and nothing is done; only what is wrong with a file that is to be renamed is
    reported before a double dot in its new path. The storage is given no names but these, each in the directory that
    those before it lead to from the mounted one, and otherwise only names listed in a directory that is emptied or
    moved to another: in any storage that does the same with them the request goes the same, whatever that storage
    does with other names. And the texts of these names, normalized, compared and cut again, say the same as they. -/
theorem path_by_names (client : Client σ F D) (fs : FileSystem D) (request : PathRequest) :
    (∀ other, request.Respells other → client.path fs request = client.path fs other) ∧
      ((∃ text ∈ request.paths, ".." ∈ Path.components text) →
        client.path fs request = (refuse (request.dotsError client.storage fs.mount), client)) ∧
      (∀ naming : Naming σ F D, naming.Agrees (request.Asks client.storage fs.mount) request.Gives →
        @Client.path σ F D (storage.answering naming) client fs request = client.path fs request) ∧
      ∀ text ∈ request.paths, fs.mount.ReadsText client.storage text :=
  ⟨fun _ same => path_respells same, path_of_dots, fun _ agrees => path_answering agrees,
    fun text _ => Mount.readsText client.storage fs.mount text⟩

end Client

end

section Toolshed

open Memory

def toolshed : Client Store FileId DirectoryId :=
  Client.start (Store.empty.plant "root" false [.directory "a" [.file "x" [120] false] false, .directory "b" [] false]).2

def toolshedSystem : FileSystem DirectoryId := ⟨⟨.direct ⟨0⟩⟩, ⟨.nandUser, 0, 0⟩⟩

def toolshedKnown (dir : DirectoryId) (name : String) : Bool :=
  dir == ⟨0⟩ && name == "b" || dir == ⟨2⟩ && name == "new"

theorem toolshed_by_names :
    toolshed.path toolshedSystem (.createFile "b//./new" 3) = toolshed.path toolshedSystem (.createFile "\\b\\new" 3) ∧
      toolshed.path toolshedSystem (.renameFile "a/x" "b/../x") = (Client.refuse .invalidArgument, toolshed) ∧
      toolshed.path toolshedSystem (.renameFile "a/y" "b/../x") = (Client.refuse .entityNotFound, toolshed) ∧
      @Client.path Store FileId DirectoryId (Backing.answering inferInstance (Naming.knowing toolshedKnown)) toolshed
        toolshedSystem (.createFile "b//./new" 3) = toolshed.path toolshedSystem (.createFile "b//./new" 3) ∧
      (toolshed.path toolshedSystem (.createFile "b//./new" 3)).1 = .ok .done := by
  refine ⟨(toolshed.path_by_names toolshedSystem _).1 _ (.createFile 3 (by decide +kernel)),
    (toolshed.path_by_names toolshedSystem _).2.1 ⟨"b/../x", by decide, by decide +kernel⟩,
    (toolshed.path_by_names toolshedSystem _).2.1 ⟨"b/../x", by decide, by decide +kernel⟩,
    (toolshed.path_by_names toolshedSystem _).2.2.1 _ (Naming.knowing_agrees ?_ _), by decide +kernel⟩
  rintro dir name (⟨text, listed, -, front, rest, whole, reached⟩ | ⟨delves, -⟩)
  · obtain rfl := List.mem_singleton.mp listed
    have names : plainNames "b//./new" = ["b", "new"] := by decide +kernel
    have inner : (toolshedSystem.mount.root.descend? toolshed.storage ["b"]).map (·.node) = some ⟨2⟩ := by
      decide +kernel
    rw [names] at whole
    rcases front with _ | ⟨first, _ | ⟨second, more⟩⟩
    · obtain ⟨rfl, -⟩ := List.cons.inj whole
      obtain rfl := Option.some.inj reached
      rfl
    · obtain ⟨rfl, others⟩ := List.cons.inj whole
      obtain ⟨rfl, -⟩ := List.cons.inj others
      obtain rfl := Option.some.inj (inner.symm.trans reached)
      rfl
    · have lengths := congrArg List.length whole
      simp at lengths
  · exact delves.elim

/-- A directory that is moved brings names with it that stand in neither path; and a storage that takes only the name of
    a directory that is to be emptied, or removed with all that stands inside, does not let that happen. -/
theorem toolshed_move :
    "x" ∉ Path.components "a" ∧ "x" ∉ Path.components "b/a" ∧
      (Node.directory ⟨0⟩).content? toolshed.storage ["b", "a", "x"] = none ∧
      (toolshed.path toolshedSystem (.renameDirectory "a" "b/a")).1 = .ok .done ∧
      (Node.directory ⟨0⟩).content? (toolshed.path toolshedSystem (.renameDirectory "a" "b/a")).2.storage
        ["b", "a", "x"] = some (.file [120]) ∧
      ∀ request ∈ [PathRequest.cleanDirectoryRecursively "a", .deleteDirectoryRecursively "a"],
        (toolshed.path toolshedSystem request).1 = .ok .done ∧
          (@Client.path Store FileId DirectoryId
            (Backing.answering inferInstance (Naming.knowing fun dir name => dir == ⟨0⟩ && name == "a")) toolshed
            toolshedSystem request).1 = Client.refuse .operationFailed := by
  decide +kernel

end Toolshed

end GuestStorage.Session
