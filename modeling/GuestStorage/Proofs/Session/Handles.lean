import GuestStorage.Proofs.Memory.Upkeep
import GuestStorage.Proofs.Session.Following
import GuestStorage.Proofs.Session.Writing

namespace GuestStorage.Session

open Memory Node GuestStorage.Tree
open GuestStorage.Path (IsPlain)

variable {client : Client Store FileId DirectoryId} {root : DirectoryView DirectoryId}
  {opened : OpenFile FileId} {s : Store}

section Reserved

variable {handle : Nat}

/-- A handle that was given out for a file leads to that file or, once it is closed, nowhere. -/
structure Reserved (table : Table FileId DirectoryId) (handle : Nat) (opened : OpenFile FileId) : Prop where
  given : handle ≤ table.last
  session : ∀ session, table.find? handle = some session → session = .file opened

theorem Reserved.insert {table : Table FileId DirectoryId} (reserved : Reserved table handle opened)
    (session : AnySession FileId DirectoryId) : Reserved (table.insert session).2 handle opened := by
  have apart : handle ≠ (table.insert session).1 := Nat.ne_of_lt (Nat.lt_succ_of_le reserved.given)
  refine ⟨reserved.given.trans (by simp [Table.insert]), ?_⟩
  rw [Table.find?_insert_of_ne table session apart]
  exact reserved.session

theorem Reserved.update {table : Table FileId DirectoryId} {other : Nat}
    {old : AnySession FileId DirectoryId} (reserved : Reserved table handle opened)
    (taken : table.find? other = some old) (different : old ≠ .file opened)
    (session : AnySession FileId DirectoryId) : Reserved (table.update other session) handle opened := by
  have apart : handle ≠ other := by
    rintro rfl
    exact different (reserved.session old taken)
  refine ⟨by simpa [Table.update] using reserved.given, ?_⟩
  rw [Table.find?_update_of_ne table session apart]
  exact reserved.session

theorem Reserved.close {table after : Table FileId DirectoryId} {other : Nat}
    {old : AnySession FileId DirectoryId} (reserved : Reserved table handle opened)
    (closed : table.close other = .ok (old, after)) : Reserved after handle opened := by
  refine ⟨Table.last_close closed ▸ reserved.given, fun session found => reserved.session session ?_⟩
  by_cases same : handle = other
  · subst same
    rw [Table.find?_close_self closed] at found
    cases found
  · rwa [Table.find?_close_of_ne closed same] at found

theorem Reserved.step (reserved : Reserved client.table handle opened) (sent : Request) :
    Reserved (client.step sent).2.table handle opened := by
  have does := client.step_table sent
  generalize (client.step sent).2.table = after at does ⊢
  cases does with
  | same => exact reserved
  | openFile | openDirectory => exact reserved.insert _
  | directory _ _ found => exact reserved.update (Table.find?_of_directory found) nofun _
  | saveInfo _ _ found => exact reserved.update (Table.find?_of_saveInfoReader found) nofun _
  | close closed => exact reserved.close closed

theorem Reserved.run (reserved : Reserved client.table handle opened) (requests : List Request) :
    Reserved (client.run requests).2.table handle opened := by
  induction requests generalizing client with
  | nil => exact reserved
  | cons sent rest ih => exact ih (reserved.step sent)

end Reserved

section Main

variable {space : SpaceReport} {fs : FileSystem DirectoryId} {path : List String} {handle : Nat}

/-- Who opens a path gets to one file, in every mode that it allows. -/
def LeadsTo (s : Store) (fs : FileSystem DirectoryId) (path : List String) (file : FileView FileId) : Prop :=
  ∀ text raw mode, Mount.normalize text = .ok path → decodeArgument raw.toNat = .ok mode →
    (mode.needsWrite = true → file.isWritable s = true) → fs.openFile s text raw = .ok ⟨file, mode⟩

/-- An open file stands at one path, and it and a file that is opened there now are one and the same. -/
structure Attached (s : Store) (fs : FileSystem DirectoryId) (opened : OpenFile FileId) (path : List String) :
    Prop where
  reached : (Node.directory fs.mount.root.node).descend? s path = some (.file opened.file.node)
  only : ∀ other, (Node.directory fs.mount.root.node).descend? s other = some (.file opened.file.node) →
    other = path
  named : Mount.normalize (Path.join path) = .ok path
  leads : LeadsTo s fs path opened.file
  read : ∀ text raw again, Mount.normalize text = .ok path → fs.openFile s text raw = .ok again →
    ∀ offset length capacity, again.read s offset length capacity = opened.read s offset length capacity
  written : ∀ offset length data after, opened.write s offset length data = (.ok (), after) →
    LeadsTo after fs path opened.file ∧
      ∀ text raw again, Mount.normalize text = .ok path → fs.openFile after text raw = .ok again →
        ∀ capacity, again.read after offset length capacity =
          .ok ((data.resize length.toInt.toNat).take capacity)
  sized : ∀ size after, opened.setSize s size = (.ok (), after) →
    LeadsTo after fs path opened.file ∧
      ∀ text raw again, Mount.normalize text = .ok path → fs.openFile after text raw = .ok again →
        again.size after = size

/-- An open file is at no path of the tree and never will be, and no request on it changes the tree. -/
structure CutOff (client : Client Store FileId DirectoryId) (root : DirectoryId) (handle : Nat)
    (opened : OpenFile FileId) : Prop where
  away : ∀ later, Away (client.run later).2.storage root opened.file.node
  harmless : ∀ later request path,
    (Node.directory root).lookup ((client.run later).2.step (.file handle request)).2.storage path =
      (Node.directory root).lookup (client.run later).2.storage path

theorem leadsTo (sound : s.Sound)
    (reached : (Node.directory root.node).descend? s path = some (.file opened.file.node))
    (access : opened.file.readOnly = root.readOnly) : LeadsTo s ⟨⟨root⟩, space⟩ path opened.file :=
  fun _ _ _ normal decoded allowed =>
    FileSystem.openFile_eq_ok.mpr ⟨decoded, (openFile_eq_ok sound).mpr ⟨path, normal, reached, access, allowed⟩⟩

theorem file_eq_of_openFile {again : OpenFile FileId} {text : String} {raw : UInt32} (sound : s.Sound)
    (reached : (Node.directory root.node).descend? s path = some (.file opened.file.node))
    (access : opened.file.readOnly = root.readOnly) (normal : Mount.normalize text = .ok path)
    (done : (⟨⟨root⟩, space⟩ : FileSystem DirectoryId).openFile s text raw = .ok again) :
    again.file = opened.file := by
  obtain ⟨other, normal', reached', access', -⟩ := (openFile_eq_ok sound).mp (FileSystem.openFile_eq_ok.mp done).2
  obtain rfl := Except.ok.inj (normal.symm.trans normal')
  have node := Node.file.inj (Option.some.inj (reached'.symm.trans reached))
  obtain ⟨⟨_, _⟩, _⟩ := again
  obtain ⟨⟨_, _⟩, _⟩ := opened
  exact congrArg₂ FileView.mk node (access'.trans access.symm)

theorem attached (sound : s.Sound) (plain : ∀ name ∈ path, IsPlain name)
    (reached : (Node.directory root.node).descend? s path = some (.file opened.file.node))
    (access : opened.file.readOnly = root.readOnly) : Attached s ⟨⟨root⟩, space⟩ opened path := by
  have held := sound.file_held reached
  have still : ∀ {after : Store}, Altered s after opened.file.node →
      (Node.directory root.node).descend? after path = some (.file opened.file.node) :=
    fun altered => (altered.descend? sound _ _).trans reached
  refine ⟨reached, fun other there => sound.path_unique there reached, normalize_join plain,
    leadsTo sound reached access, ?_, ?_, ?_⟩
  · intro text raw again normal done offset length capacity
    rw [OpenFile.read, file_eq_of_openFile sound reached access normal done]
    rfl
  · intro offset length data after wrote
    have altered : Altered s after opened.file.node := by
      have effect := @file_alters (Client.start s) opened sound held (.write offset length data)
      rwa [Client.file, Client.start, wrote] at effect
    refine ⟨leadsTo altered.1 (still altered) access, ?_⟩
    intro text raw again normal done capacity
    obtain ⟨extent, checked, -, bytes⟩ := OpenFile.write_ok wrote
    rw [OpenFile.read, file_eq_of_openFile altered.1 (still altered) access normal done, checked]
    obtain ⟨-, -, rfl⟩ := Extent.check_eq_ok_iff.mp checked
    refine congrArg Except.ok ((congrArg (Bytes.slice · _ _) bytes).trans ?_)
    rw [Bytes.slice_overwrite_of_le _ _ _ (by simp), List.take_eq_take_iff, Bytes.length_resize]
    simp [Nat.min_comm]
  · intro size after sized
    have altered : Altered s after opened.file.node := by
      have effect := @file_alters (Client.start s) opened sound held (.setSize size)
      rwa [Client.file, Client.start, Client.afterChange, sized] at effect
    refine ⟨leadsTo altered.1 (still altered) access, ?_⟩
    intro text raw again normal done
    rw [OpenFile.size, file_eq_of_openFile altered.1 (still altered) access normal done]
    exact (congrArg List.length (OpenFile.setSize_ok sized)).trans (Bytes.length_resize _ size)

theorem opened_of_step {mount : Nat} {text : String} {raw : UInt32} {granted : Wire.OpenMode}
    {after : Client Store FileId DirectoryId}
    (opening : client.step (.path mount (.openFile text raw)) = (.ok (.openedFile handle granted), after)) :
    ∃ fs opened, client.table.fileSystem mount = .ok fs ∧ fs.openFile client.storage text raw = .ok opened ∧
      after.storage = client.storage ∧ Reserved after.table handle opened := by
  simp only [Client.step, Client.withSession] at opening
  split at opening
  · cases opening
  · rename_i fs found
    simp only [Client.path] at opening
    split at opening
    · cases opening
    · rename_i opened done
      cases opening
      refine ⟨fs, opened, found, done, rfl, by simp [Client.insert, Table.insert], ?_⟩
      intro session taken
      exact Option.some.inj (taken.symm.trans (Table.find?_insert_self client.table _))

theorem cutOff (tended : Tended client root) (reserved : Reserved client.table handle opened)
    (held : (Node.file opened.file.node).held client.storage = true)
    (away : Away client.storage root.node opened.file.node) : CutOff client root.node handle opened := by
  refine ⟨away.run tended held, fun later request path => ?_⟩
  have sound := (tended.run later).sound
  have still := away.run tended held later
  simp only [Client.step, Client.withSession]
  split
  · rfl
  · rename_i session found
    have same := (reserved.run later).session _ (Table.find?_of_file found)
    cases same
    exact (file_alters sound (tended.run_held later held) request).lookup sound (still path)

/-- An open file stands at the path it was opened at, which has followed all renames in place since then; or it
    is cut off, and one of the requests has taken it. -/
theorem open_file_follows (sound : s.Sound) (early late : List Request) {mount : Nat} {text : String}
    {raw : UInt32} {granted : Wire.OpenMode}
    (opening : ((Client.mounted s root space).run early).2.step (.path mount (.openFile text raw)) =
      (.ok (.openedFile handle granted), client))
    (present : (client.run late).2.table.find? handle = some (.file opened)) :
    ∃ path, Mount.normalize text = .ok path ∧
      (Attached (client.run late).2.storage ⟨⟨root⟩, space⟩ opened (client.followed path late) ∧
          client.Spares path late ∨
        CutOff (client.run late).2 root.node handle opened ∧ client.Takes path late) := by
  have before := (Tended.mounted sound root space).run early
  have tended := before.step (.path mount (.openFile text raw))
  rw [opening] at tended
  obtain ⟨fs, first, found, done, same, reserved⟩ := opened_of_step opening
  obtain rfl : opened = first := by
    have ends := (reserved.run late).session _ present
    cases ends
    rfl
  obtain rfl : fs.mount.root = root := before.sessions _ _ (Table.find?_of_fileSystem found)
  obtain ⟨path, normal, reached, access, -⟩ :=
    (openFile_eq_ok before.sound).mp (FileSystem.openFile_eq_ok.mp done).2
  rw [← same] at reached
  have held := tended.sound.file_held reached
  refine ⟨path, normal, ?_⟩
  rcases run_follows tended reached late with ⟨there, spares⟩ | ⟨away, takes⟩
  · exact .inl ⟨attached (tended.run late).sound (followed_plain (PathMap.normalize_plain normal) late) there access,
      spares⟩
  · exact .inr ⟨cutOff (tended.run late) (reserved.run late) (tended.run_held late held) away, takes⟩

def hutMount : FileSystem DirectoryId := ⟨⟨.direct ⟨0⟩⟩, ⟨.nandUser, 0, 0⟩⟩

def hutFile : OpenFile FileId := ⟨.direct ⟨0⟩, .readWrite⟩

def hutClient : Client Store FileId DirectoryId :=
  ((Client.mounted Store.hut hutMount.mount.root hutMount.space).step (.path 1 (.openFile "room/note" 3))).2

def hutMoves : List Request :=
  [.path 1 (.renameFile "room/note" "room/page"), .path 1 (.renameDirectory "room" "hall"), .file 2 (.write 0 2 [7])]

def hutLoss : List Request := [.path 1 (.deleteFile "hall/page"), .path 1 (.createFile "hall/page" 4)]

theorem hut_follows :
    Attached (hutClient.run hutMoves).2.storage hutMount hutFile ["hall", "page"] ∧
      CutOff (hutClient.run (hutMoves ++ hutLoss)).2 ⟨0⟩ 2 hutFile := by
  have opening : ((Client.mounted Store.hut hutMount.mount.root hutMount.space).run []).2.step
      (.path 1 (.openFile "room/note" 3)) = (.ok (.openedFile 2 .readWrite), hutClient) :=
    Prod.ext (by decide) rfl
  have kept : (hutClient.run hutMoves).2.table.find? 2 = some (.file hutFile) := by decide
  have stays : (hutClient.run (hutMoves ++ hutLoss)).2.table.find? 2 = some (.file hutFile) := by decide
  obtain ⟨path, normal, attached⟩ := open_file_follows Store.hut_assembled.sound [] hutMoves opening kept
  obtain ⟨other, normal', cutOff⟩ :=
    open_file_follows Store.hut_assembled.sound [] (hutMoves ++ hutLoss) opening stays
  obtain rfl : ["room", "note"] = path := Except.ok.inj normal
  obtain rfl : ["room", "note"] = other := Except.ok.inj normal'
  have moved : hutClient.followed ["room", "note"] hutMoves = ["hall", "page"] := by decide
  have spared : ¬ hutClient.Takes ["room", "note"] hutMoves := by decide
  have lost : ¬ hutClient.Spares ["room", "note"] (hutMoves ++ hutLoss) := by decide
  exact ⟨moved ▸ (attached.resolve_right fun taken => spared taken.2).1,
    (cutOff.resolve_left fun whole => lost whole.2).1⟩

end Main

end GuestStorage.Session
