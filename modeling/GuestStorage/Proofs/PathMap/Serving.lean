import GuestStorage.Proofs.PathMap.Faithful
import GuestStorage.Proofs.Session.Client

namespace GuestStorage.PathMap

open Memory (Content)
open Session (Client FileSystem Listing PathRequest SpaceReport Table)
open GuestStorage.Tree

variable {σ F D : Type} [Backing σ F D]

def Suits (takes : String → Prop) (bound : Nat) : PathRequest → Prop
  | .createFile path size => Admits takes path ∧ size < bound
  | .createDirectory path => Admits takes path
  | .renameFile _ target | .renameDirectory _ target => Admits takes target
  | .deleteFile _ | .deleteDirectory _ | .deleteDirectoryRecursively _ | .cleanDirectoryRecursively _ | .commit
  | .entryType _ | .freeSpace _ | .totalSpace _ | .openFile .. | .openDirectory .. => True

structure Serving (client : Client σ F D) (root : DirectoryView D) (space : SpaceReport)
    (shows : σ → PathMap → Prop) (map : PathMap) : Prop where
  mounted : client.table.find? 1 = some (.fileSystem ⟨⟨root⟩, space⟩)
  shows : shows client.storage map

/-- An answer of a client stands for an outcome of the map: it is the same error or value, or the handle of a
    new session on what the outcome says. -/
inductive Told (client : Client σ F D) (root : DirectoryView D) (map : PathMap) (handle : Nat) :
    Client.Answer → Except Error Outcome → Prop
  | refused (e : Error) : Told client root map handle (.error (.refused e)) (.error e)
  | done : Told client root map handle (.ok .done) (.ok .done)
  | kind (kind : Wire.EntryType) : Told client root map handle (.ok (.entryType kind)) (.ok (.kind kind))
  | size (bytes : Nat) : Told client root map handle (.ok (.size bytes)) (.ok (.size bytes))
  | file {front : List String} {name : String} {dir : DirectoryView D} {file : FileView F} {bytes : Bytes}
      (mode : Wire.OpenMode) (held : client.table.find? handle = some (.file ⟨file, mode⟩))
      (reached : root.descend? client.storage front = some dir)
      (found : dir.file? client.storage name = some file)
      (there : map.find? (front ++ [name]) = some (.file bytes)) :
      Told client root map handle (.ok (.openedFile handle mode)) (.ok (.file (front ++ [name]) bytes mode))
  | listing {listing : Listing} {records : List Wire.DirectoryEntry}
      (held : client.table.find? handle = some (.directory listing)) (same : listing.remaining.Perm records) :
      Told client root map handle (.ok (.openedDirectory handle records.length)) (.ok (.listing records))

namespace Serving

variable {root : DirectoryView D} {space : SpaceReport} {shows : σ → PathMap → Prop} {takes : String → Prop}
  {room : List String → Prop} {bound : Nat} {client : Client σ F D} {map : PathMap}

omit [Backing σ F D] in
theorem inserted (serving : Serving client root space shows map) (session : Session.AnySession F D) :
    Serving (client.insert session).2 root space shows map :=
  ⟨Table.find?_insert_of_some serving.mounted session, serving.shows⟩

theorem changed (serving : Serving client root space shows map) {handle : Nat}
    {result : Except Error Unit × σ} {next : Except Error PathMap} (agree : Agree shows client.storage result next) :
    Serving (client.afterChange result).2 root space shows (map.change next).2 ∧
      Told (client.afterChange result).2 root (map.change next).2 handle (client.afterChange result).1
        (map.change next).1 := by
  cases agree with
  | refused e => exact ⟨serving, .refused e⟩
  | done shown => exact ⟨⟨serving.mounted, shown⟩, .done⟩

theorem roomy_of_change {next : Except Error PathMap} (roomy : (map.change next).2.Roomy room) :
    ∀ after, next = .ok after → after.Roomy room := by
  rintro after rfl
  exact roomy

theorem step (serving : Serving client root space shows map) (faithful : Faithful root shows takes room bound)
    {request : PathRequest} (suits : Suits takes bound request) (roomy : (map.step space request).2.Roomy room) :
    Serving (client.step (.path 1 request)).2 root space shows (map.step space request).2 ∧
      Told (client.step (.path 1 request)).2 root (map.step space request).2 (client.table.last + 1)
        (client.step (.path 1 request)).1 (map.step space request).1 := by
  have mounted : client.table.fileSystem 1 = .ok ⟨⟨root⟩, space⟩ := by
    simp [Table.fileSystem, Table.typed, serving.mounted]
  simp only [Client.step, mounted, Client.withSession]
  have shown := serving.shows
  cases request with
  | createFile path size => exact serving.changed (faithful.createFile shown suits.1 suits.2 (roomy_of_change roomy))
  | deleteFile path => exact serving.changed (faithful.deleteFile shown path)
  | createDirectory path => exact serving.changed (faithful.createDirectory shown suits (roomy_of_change roomy))
  | deleteDirectory path => exact serving.changed (faithful.deleteDirectory shown path)
  | deleteDirectoryRecursively path => exact serving.changed (faithful.deleteTree shown path)
  | cleanDirectoryRecursively path => exact serving.changed (faithful.cleanTree shown path)
  | renameFile source target => exact serving.changed (faithful.renameFile shown suits (roomy_of_change roomy))
  | renameDirectory source target => exact serving.changed (faithful.renameDirectory shown suits (roomy_of_change roomy))
  | commit => exact ⟨serving, .done⟩
  | entryType path =>
    refine ⟨serving, ?_⟩
    simp only [Client.path, PathMap.step, faithful.entryType shown]
    cases map.entryType path with
    | error e => exact .refused e
    | ok kind => exact .kind kind
  | freeSpace path => exact ⟨serving, .size _⟩
  | totalSpace path => exact ⟨serving, .size _⟩
  | openFile path mode =>
    simp only [Client.path, PathMap.step]
    rcases faithful.openFile shown space path mode with
      ⟨e, refused, also⟩ | ⟨front, name, dir, file, bytes, chosen, reached, found, there, opened, also⟩
    · rw [refused, also]
      exact ⟨serving, .refused e⟩
    · rw [opened, also]
      exact ⟨serving.inserted _, .file chosen (Table.find?_insert_self _ _) reached found there⟩
  | openDirectory path filter =>
    simp only [Client.path, PathMap.step]
    rcases faithful.openDirectory shown space path filter with
      ⟨e, refused, also⟩ | ⟨listing, records, opened, also, same⟩
    · rw [refused, also]
      exact ⟨serving, .refused e⟩
    · rw [opened, also]
      have count : listing.count = records.length := same.length_eq
      simp only [count]
      exact ⟨serving.inserted _, .listing (Table.find?_insert_self _ _) same⟩

theorem run (serving : Serving client root space shows map) (faithful : Faithful root shows takes room bound)
    {requests : List PathRequest} (suits : ∀ request ∈ requests, Suits takes bound request)
    (roomy : ∀ front, front <+: requests → (map.after space front).Roomy room) :
    Serving (client.run (requests.map (.path 1))).2 root space shows (map.after space requests) := by
  induction requests generalizing client map with
  | nil => exact serving
  | cons request rest ih =>
    have fits : (map.step space request).2.Roomy room := roomy [request] (by simp)
    have next := (serving.step faithful (suits request List.mem_cons_self) fits).1
    exact ih next (fun other among => suits other (List.mem_cons_of_mem _ among)) fun front short =>
      roomy (request :: front) (by simpa using short)

end Serving

end GuestStorage.PathMap
