import GuestStorage.Tree.Walk

namespace GuestStorage.Tree

inductive FileCall where
  | info
  | read (offset length : Nat)
  | readAll
  | write (offset : Nat) (data : Bytes)
  | resize (size : Nat)
  | rename (name : String)
  | project
  | parent
  deriving DecidableEq

inductive DirectoryCall where
  | info
  | files
  | subdirectories
  | file (name : String)
  | fileAt (path : String)
  | fileFromTop (path : String)
  | subdirectory (name : String)
  | directoryAt (path : String)
  | directoryFromTop (path : String)
  | createFile (name : String)
  | createFileAt (path : String)
  | createFileFromTop (path : String)
  | createSubdirectory (name : String)
  | createDirectoryAt (path : String)
  | createDirectoryFromTop (path : String)
  | parent
  | project
  | deleteFile (name : String)
  | deleteSubdirectory (name : String)
  | deleteTree (name : String)
  | cleanSubdirectory (name : String)
  | rename (name : String)
  | copyFile (source target : String)
  deriving DecidableEq

inductive AnyView (F D : Type) where
  | file (view : FileView F)
  | directory (view : DirectoryView D)
  deriving DecidableEq

/-- What a call yields. Only a single node that was found or created can be held afterwards. -/
inductive Yield (F D : Type) where
  | found (view : Option (AnyView F D))
  /-- The very node that was called, as it is or projected. -/
  | itself (projected : Bool)
  | renamed (view : Option (AnyView F D))
  | listed (views : List (AnyView F D))
  | described
  | bytes (data : Bytes)
  | count (bytes : Nat)
  | flag (done : Bool)

section Calls

variable {σ F D : Type} [Backing σ F D]

def FileView.call (s : σ) (view : FileView F) : FileCall → Yield F D × σ
  | .info => (.described, s)
  | .read offset length => (.bytes (view.read s offset length), s)
  | .readAll => (.bytes (view.readAll s), s)
  | .write offset data =>
    let (count, s) := view.write s offset data
    (.count count, s)
  | .resize size =>
    let (done, s) := view.resize s size
    (.flag done, s)
  | .rename name =>
    let (renamed, s) := view.rename s name
    (.renamed (renamed.map .file), s)
  | .project => (.itself true, s)
  | .parent => (.found ((view.parent? s).map .directory), s)

def foundFile (step : Option (FileView F) × σ) : Yield F D × σ := (.found (step.1.map .file), step.2)

def foundDirectory (step : Option (DirectoryView D) × σ) : Yield F D × σ :=
  (.found (step.1.map .directory), step.2)

def flagged (step : Bool × σ) : Yield F D × σ := (.flag step.1, step.2)

def DirectoryView.call (s : σ) (view : DirectoryView D) : DirectoryCall → Yield F D × σ
  | .info => (.described, s)
  | .files => (.listed ((view.files s).map .file), s)
  | .subdirectories => (.listed ((view.subdirectories s).map .directory), s)
  | .file name => foundFile (view.file? s name, s)
  | .fileAt path => foundFile (view.fileAt? s path, s)
  | .fileFromTop path => foundFile (view.fileFromTop? s path, s)
  | .subdirectory name => foundDirectory (view.subdirectory? s name, s)
  | .directoryAt path =>
    if (Path.components path).isEmpty then (.itself false, s)
    else foundDirectory (view.directoryAt? s path, s)
  | .directoryFromTop path => foundDirectory (view.directoryFromTop? s path, s)
  | .createFile name => foundFile (view.createFile s name)
  | .createFileAt path => foundFile (view.createFileAt s path)
  | .createFileFromTop path => foundFile (view.createFileFromTop s path)
  | .createSubdirectory name => foundDirectory (view.createSubdirectory s name)
  | .createDirectoryAt path => foundDirectory (view.createDirectoryAt s path)
  | .createDirectoryFromTop path => foundDirectory (view.createDirectoryFromTop s path)
  | .parent => (.found ((view.parent? s).map .directory), s)
  | .project => (.itself true, s)
  | .deleteFile name => flagged (view.deleteFile s name)
  | .deleteSubdirectory name => flagged (view.deleteSubdirectory s name)
  | .deleteTree name => flagged (view.deleteTree s name)
  | .cleanSubdirectory name => flagged (view.cleanSubdirectory s name)
  | .rename name =>
    let (renamed, s) := view.rename s name
    (.renamed (renamed.map .directory), s)
  | .copyFile source target => flagged (view.copyFile s source target)

end Calls

inductive AnyNode (F D : Type) where
  | file (node : F)
  | directory (node : D)
  deriving DecidableEq

def AnyView.node {F D : Type} : AnyView F D → AnyNode F D
  | .file view => .file view.node
  | .directory view => .directory view.node

def AnyView.readOnly {F D : Type} : AnyView F D → Bool
  | .file view => view.readOnly
  | .directory view => view.readOnly

def AnyNode.view {F D : Type} (readOnly : Bool) : AnyNode F D → AnyView F D
  | .file node => .file ⟨node, readOnly⟩
  | .directory node => .directory ⟨node, readOnly⟩

/-- A node, by its number on the desk, and whether it is held as a projection. -/
structure Held where
  number : Nat
  readOnly : Bool
  deriving DecidableEq

structure Desk (σ F D : Type) where
  storage : σ
  /-- The top of the tree that is held throughout. -/
  ground : D
  nodes : Array (AnyNode F D)
  names : List (String × Held)

inductive Call where
  | file (call : FileCall)
  | directory (call : DirectoryCall)
  deriving DecidableEq

namespace Desk

variable {σ F D : Type} [Backing σ F D]

def held? (desk : Desk σ F D) (name : String) : Option Held :=
  (desk.names.find? (·.1 == name)).map (·.2)

def heldView? (desk : Desk σ F D) (held : Held) : Option (AnyView F D) :=
  (desk.nodes[held.number]?).map (·.view held.readOnly)

def view? (desk : Desk σ F D) (name : String) : Option (AnyView F D) :=
  (desk.held? name).bind desk.heldView?

def hold (desk : Desk σ F D) (name : String) (held : Held) : Desk σ F D :=
  { desk with names := (name, held) :: desk.names.filter (·.1 != name) }

/-- Holds a node under a name, apart from all nodes that are held already. -/
def holdNew (desk : Desk σ F D) (name : String) (view : AnyView F D) : Desk σ F D :=
  { desk with nodes := desk.nodes.push view.node }.hold name ⟨desk.nodes.size, view.readOnly⟩

def start (storage : σ) (name : String) (view : DirectoryView D) : Desk σ F D :=
  (⟨storage, (view.top storage).node, #[], []⟩ : Desk σ F D).holdNew name (.directory view)

/-- What a yield changes on the desk: a renamed node takes the place of the node that was called,
    and a node to keep gets a name. -/
def settle (desk : Desk σ F D) (called : Held) (keep : Option String) :
    Yield F D → Desk σ F D
  | .found (some view) => (keep.map (desk.holdNew · view)).getD desk
  | .itself projected =>
    (keep.map (desk.hold · { called with readOnly := called.readOnly || projected })).getD desk
  | .renamed (some view) => { desk with nodes := desk.nodes.set! called.number view.node }
  | _ => desk

/-- Calls the node that a name holds; `none` when the name holds no node of the call's kind. -/
def call (desk : Desk σ F D) (name : String) (call : Call) (keep : Option String) :
    Option (Yield F D) × Desk σ F D :=
  match desk.held? name with
  | none => (none, desk)
  | some called =>
    match desk.heldView? called, call with
    | some (.file view), .file call =>
      let (yield, storage) := view.call desk.storage call
      (some yield, { desk with storage }.settle called keep yield)
    | some (.directory view), .directory call =>
      let (yield, storage) := view.call desk.storage call
      (some yield, { desk with storage }.settle called keep yield)
    | _, _ => (none, desk)

def heldDirectories (desk : Desk σ F D) : List D :=
  desk.ground :: desk.names.filterMap fun (_, held) =>
    match desk.nodes[held.number]? with
    | some (.directory dir) => some dir
    | _ => none

def tidy (desk : Desk σ F D) : Desk σ F D :=
  { desk with storage := Backing.release desk.storage desk.heldDirectories }

end Desk

end GuestStorage.Tree
