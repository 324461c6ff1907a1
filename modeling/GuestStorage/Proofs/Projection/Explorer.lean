import GuestStorage.Proofs.Projection.Refusal
import GuestStorage.Session.Client

namespace GuestStorage.Session

open GuestStorage.Tree

structure Explorer (σ F D : Type) where
  desk : Desk σ F D
  table : Table F D
  signals : Signals

inductive Move where
  /-- Calls a held node; a single node that the call yields can be held. -/
  | call (name : String) (call : Call) (keep : Option String)
  /-- Holds a file or directory that a held directory lists. -/
  | pickFile (name : String) (index : Nat) (keep : String)
  | pickDirectory (name : String) (index : Nat) (keep : String)
  /-- Opens a session on a held node, a file in any mode. -/
  | mount (name : String) (space : SpaceReport)
  | openFile (name : String) (mode : Wire.OpenMode)
  | openStorage (name : String)
  /-- Holds the directory that a session is mounted on. -/
  | mounted (handle : Nat) (keep : String)
  | request (request : Request)

inductive Outcome (F D : Type) where
  | yielded (yield : Yield F D)
  | held (view : AnyView F D)
  | opened (handle : Nat)
  | answered (answer : Client.Answer)
  /-- No node or session of the right kind stands where the move looked for it. -/
  | nothing

def Outcome.views {F D : Type} : Outcome F D → List (AnyView F D)
  | .yielded yield => yield.views
  | .held view => [view]
  | .opened _ | .answered _ | .nothing => []

namespace Explorer

variable {σ F D : Type} [Backing σ F D]

/-- Starts with one node in hand; the tree of the ground directory is held throughout. -/
def start (storage : σ) (ground : D) (name : String) (view : AnyView F D) : Explorer σ F D :=
  ⟨(⟨storage, ground, #[], []⟩ : Desk σ F D).holdNew name view, .empty, {}⟩

def client (explorer : Explorer σ F D) : Client σ F D :=
  ⟨explorer.desk.storage, explorer.table, explorer.signals⟩

def withClient (explorer : Explorer σ F D) (client : Client σ F D) : Explorer σ F D :=
  ⟨{ explorer.desk with storage := client.storage }, client.table, client.signals⟩

def heldFile? (explorer : Explorer σ F D) (name : String) : Option (FileView F) :=
  match explorer.desk.view? name with
  | some (.file view) => some view
  | _ => none

def heldDirectory? (explorer : Explorer σ F D) (name : String) : Option (DirectoryView D) :=
  match explorer.desk.view? name with
  | some (.directory view) => some view
  | _ => none

def hold (explorer : Explorer σ F D) (name : String) : Option (AnyView F D) → Outcome F D × Explorer σ F D
  | none => (.nothing, explorer)
  | some view => (.held view, { explorer with desk := explorer.desk.holdNew name view })

def insert (explorer : Explorer σ F D) : Option (AnySession F D) → Outcome F D × Explorer σ F D
  | none => (.nothing, explorer)
  | some session =>
    let (handle, client) := explorer.client.insert session
    (.opened handle, explorer.withClient client)

def step (explorer : Explorer σ F D) : Move → Outcome F D × Explorer σ F D
  | .call name call keep =>
    match explorer.desk.call name call keep with
    | (none, desk) => (.nothing, { explorer with desk })
    | (some yield, desk) => (.yielded yield, { explorer with desk })
  | .pickFile name index keep =>
    explorer.hold keep ((explorer.heldDirectory? name).bind fun dir =>
      (dir.files explorer.desk.storage)[index]?.map .file)
  | .pickDirectory name index keep =>
    explorer.hold keep ((explorer.heldDirectory? name).bind fun dir =>
      (dir.subdirectories explorer.desk.storage)[index]?.map .directory)
  | .mount name space =>
    explorer.insert ((explorer.heldDirectory? name).map fun dir => .fileSystem ⟨⟨dir⟩, space⟩)
  | .openFile name mode => explorer.insert ((explorer.heldFile? name).map fun file => .file ⟨file, mode⟩)
  | .openStorage name => explorer.insert ((explorer.heldFile? name).map fun file => .storage ⟨file⟩)
  | .mounted handle keep =>
    explorer.hold keep ((explorer.table.fileSystem handle).toOption.map fun fs => .directory fs.mount.root)
  | .request request =>
    let (answer, client) := explorer.client.step request
    (.answered answer, explorer.withClient client)

def run (explorer : Explorer σ F D) (moves : List Move) : Explorer σ F D :=
  moves.foldl (fun explorer move => (explorer.step move).2) explorer

end Explorer

end GuestStorage.Session
