import GuestStorage.Proofs.Host.Held
import GuestStorage.Proofs.Host.Links

namespace GuestStorage.Host

open GuestStorage.Tree Session Disk

variable {root : Root} {place spot : Location} {disk other : Disk} {client : HostClient} {since : Nat}

/-- A request on a file is made on one that was opened after so many handles were given out. -/
def IsRecent (since : Nat) : Request → Prop
  | .file handle _ => since < handle
  | .path .. | .directory .. | .storage .. | .saveInfo .. | .event .. | .kind _ | .close _ => True

instance (since : Nat) : (request : Request) → Decidable (IsRecent since request)
  | .file handle _ => inferInstanceAs (Decidable (since < handle))
  | .path .. | .directory .. | .storage .. | .saveInfo .. | .event .. | .kind _ | .close _ => isTrue trivial

def sinceLast (since : Nat) (client : HostClient) : Request → Nat
  | .path .. => client.table.last
  | .file .. | .directory .. | .storage .. | .saveInfo .. | .event .. | .kind _ | .close _ => since

/-- Requests on files are made on what the last request on a path has opened. What lists a directory may be read
    at any time. -/
def Prompt : Nat → HostClient → List Request → Prop
  | _, _, [] => True
  | since, client, request :: rest =>
    IsRecent since request ∧ Prompt (sinceLast since client request) (client.step request).2 rest

instance decidablePrompt : (since : Nat) → (client : HostClient) → (requests : List Request) →
    Decidable (Prompt since client requests)
  | _, _, [] => isTrue trivial
  | since, client, request :: rest =>
    have := decidablePrompt (sinceLast since client request) (client.step request).2 rest
    inferInstanceAs (Decidable (_ ∧ _))

/-- All mounts are on one root, and files that were opened lately stand where they were found. -/
structure Attends (root : Root) (place : Location) (since : Nat) (client : HostClient) : Prop where
  on : client.table.All (·.IsOn root)
  placed : ∀ handle opened, since < handle → client.table.find? handle = some (.file opened) →
    FilePlaced client.storage root place opened.file

namespace Attends

variable (attends : Attends root place since client) {request : Request}
include attends

theorem tame (recent : IsRecent since request) (mirrors : Mirrors root place spot client.storage other) :
    TameFor place spot client other request := by
  rintro handle call opened rfl found
  exact mirrors.file_tame (attends.placed handle opened recent (Table.find?_of_file found))

theorem step (rooted : client.storage.Rooted root place) (recent : IsRecent since request) :
    Attends root place (sinceLast since client request) (client.step request).2 := by
  have own : Twins root place place client.storage client.storage := .of_same rooted rooted fun _ => rfl
  refine ⟨isOn_step attends.on request, fun handle opened late found => ?_⟩
  rcases Client.file_of_step found with before | ⟨rfl, mount, fs, text, mode, rfl, held, reached⟩
  · cases request with
    | path mount call => exact nomatch before.symm.trans (Table.find?_eq_none _ (.inr late))
    | file | directory | storage | saveInfo | event | kind | close =>
      have calm := (step_agree_calm attends.on own rfl (attends.tame recent own.toMirrors)).alike.left
      exact (attends.placed handle opened late before).calm calm
  · -- opening a file changes nothing on the host
    have root := placed_of_fileSystem attends.on place held
    have asks : (PathRequest.openFile text mode).isChange = false := rfl
    have still : (client.step (.path mount (.openFile text mode))).2.storage = client.storage := by
      simp only [Client.step, held, Client.withSession]
      exact (path_asked own.toMirrors root asks).1
    rw [still]
    exact (session_openFile_eq own.toMirrors root text mode).2 opened reached

end Attends

theorem run_agree_of_prompt {requests : List Request} (attends : Attends root place since client)
    (twins : Twins root place spot client.storage other) (prompt : Prompt since client requests) :
    RunAgree root place spot client.storage other (client.run requests)
      (Client.run { client with storage := other } requests) := by
  refine run_agree (fun client _ requests => ∃ since, Attends root place since client ∧ Prompt since client requests)
    ?_ ?_ attends.on twins ⟨since, attends, prompt⟩
  · rintro client other request rest - twins ⟨since, attends, recent, -⟩
    exact attends.tame recent twins.toMirrors
  · rintro client other request rest - twins ⟨since, attends, recent, further⟩ -
    exact ⟨_, attends.step twins.left recent, further⟩

/-- A client with one file system session, on the root of a host or on its read-only projection. -/
def mountedAs (readOnly : Bool) (disk : Disk) (root : Root) (space : SpaceReport) : HostClient :=
  Client.mounted disk ⟨⟨root, root⟩, readOnly⟩ space

/-- Two runs of the same requests on hosts that may differ outside their roots: what is answered and what stands
    below the roots afterwards is the same, nothing else has changed, and links stay hidden. -/
structure Oblivious (place spot : Location) (disk other : Disk) (left right : List Client.Answer × HostClient) :
    Prop where
  answers : right.1 = left.1
  sessions : right.2.table = left.2.table
  inside : ∀ names, right.2.storage.find? (spot ++ names) = left.2.storage.find? (place ++ names)
  outside : ∀ there, ¬ Below place there → left.2.storage.find? there = disk.find? there
  outside' : ∀ there, ¬ Below spot there → right.2.storage.find? there = other.find? there
  links : HidesLinks left.2 place
  links' : HidesLinks right.2 spot

/-- Whatever paths are given, and wherever links lead, a mount that uses files at once depends on nothing outside
    its root and changes nothing there. The way to the root may lead through links, but not through the root itself. -/
theorem run_oblivious (rooted : disk.Rooted root place) (rooted' : other.Rooted root spot)
    (same : ∀ names, other.find? (spot ++ names) = disk.find? (place ++ names)) (readOnly : Bool)
    (space : SpaceReport) (requests : List Request)
    (prompt : Prompt 0 (mountedAs readOnly disk root space) requests) :
    Oblivious place spot disk other ((mountedAs readOnly disk root space).run requests)
      ((mountedAs readOnly other root space).run requests) := by
  have on : (mountedAs readOnly disk root space).table.All (·.IsOn root) :=
    Table.All.insert Table.All.empty rfl
  have attends : Attends root place 0 (mountedAs readOnly disk root space) := by
    refine ⟨on, fun handle opened _ found => ?_⟩
    have kind : (mountedAs readOnly disk root space).table.All fun session =>
        ∀ opened, session ≠ .file opened := Table.All.insert Table.All.empty fun _ => nofun
    exact absurd rfl (kind handle _ found opened)
  have agree : RunAgree root place spot disk other _
      ((mountedAs readOnly other root space).run requests) :=
    run_agree_of_prompt attends (.of_same rooted rooted' same) prompt
  refine ⟨agree.answers, agree.table, agree.twins.same, fun there apart => agree.left.find? apart,
    fun there apart => agree.right.find? apart, hides_links agree.twins.left (isOn_run on _),
    hides_links agree.twins.right ?_⟩
  rw [agree.table]
  exact isOn_run on _

def cellarHost : Disk :=
  ⟨[(["srv"], .directory), (["srv", "f"], .file [104, 105]), (["srv", "d"], .directory),
    (["srv", "d", "up"], .link "../.."), (["srv", "out"], .link "/secret"), (["secret"], .file [1, 2, 3])]⟩

/-- The same below a root that stands elsewhere, where the links lead to nothing and to a directory. -/
def loftHost : Disk :=
  ⟨[(["srv"], .link "/mnt/disk"), (["mnt"], .directory), (["mnt", "disk"], .directory),
    (["mnt", "disk", "f"], .file [104, 105]), (["mnt", "disk", "d"], .directory),
    (["mnt", "disk", "d", "up"], .link "../.."), (["mnt", "disk", "out"], .link "/secret"),
    (["secret"], .directory)]⟩

def cellarRoot : Root := ⟨["srv"], 4095, 1000⟩

theorem cellarHost_rooted : cellarHost.Rooted cellarRoot ["srv"] := by
  refine ⟨⟨?_, ?_, ?_, ?_⟩, ?_, ?_⟩ <;> decide +kernel

theorem loftHost_rooted : loftHost.Rooted cellarRoot ["mnt", "disk"] := by
  refine ⟨⟨?_, ?_, ?_, ?_⟩, ?_, ?_⟩ <;> decide +kernel

theorem loftHost_same (names : List String) :
    loftHost.find? (["mnt", "disk"] ++ names) = cellarHost.find? (["srv"] ++ names) := by
  refine cellarHost_rooted.sound.find?_of_below loftHost_rooted.sound cellarHost_rooted.directory
    loftHost_rooted.directory (.of_eq ?_) names
  decide +kernel

def stroll : List Request :=
  [.path 1 (.openDirectory "" 3), .directory 2 (.take 9), .path 1 (.openFile "f" 1), .file 3 (.read 0 8 8),
    .path 1 (.entryType "out"), .path 1 (.deleteFile "d/up"), .path 1 (.renameDirectory "d" "e"),
    .path 1 (.openFile "e/up/secret" 1), .path 1 (.createFile "out" 1), .path 1 (.deleteDirectoryRecursively "e")]

theorem stroll_oblivious : cellarHost.Rooted cellarRoot ["srv"] ∧ loftHost.Rooted cellarRoot ["mnt", "disk"] ∧
    Prompt 0 (mountedAs false cellarHost cellarRoot ⟨.gameCard, 0, 0⟩) stroll ∧
    ((mountedAs false cellarHost cellarRoot ⟨.gameCard, 0, 0⟩).run stroll).1 =
      [.ok (.openedDirectory 2 2), .ok (.entries [⟨"f", .file, 2⟩, ⟨"d", .directory, 0⟩]), .ok (.openedFile 3 .read),
        .ok (.data [104, 105]), Client.refuse .entityNotFound, Client.refuse .entityNotFound, .ok .done,
        Client.refuse .entityNotFound, Client.refuse .operationFailed, Client.refuse .operationFailed] ∧
    Oblivious ["srv"] ["mnt", "disk"] cellarHost loftHost
      ((mountedAs false cellarHost cellarRoot ⟨.gameCard, 0, 0⟩).run stroll)
      ((mountedAs false loftHost cellarRoot ⟨.gameCard, 0, 0⟩).run stroll) := by
  have prompt : Prompt 0 (mountedAs false cellarHost cellarRoot ⟨.gameCard, 0, 0⟩) stroll := by
    decide +kernel
  refine ⟨cellarHost_rooted, loftHost_rooted, prompt, by decide +kernel, ?_⟩
  exact run_oblivious cellarHost_rooted loftHost_rooted loftHost_same false _ _ prompt

end GuestStorage.Host
