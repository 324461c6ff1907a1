import GuestStorage.Proofs.PathMap.Serving

namespace GuestStorage

namespace Session

/-- What a guest does in one go: a path request, or opening something and reading it at once. -/
inductive Errand where
  | path (request : PathRequest)
  | read (path : String) (mode : UInt32) (offset length : Int64) (capacity : Nat)
  | list (path : String) (filter : UInt32)
  deriving DecidableEq

def Errand.request : Errand → PathRequest
  | .path request => request
  | .read text mode .. => .openFile text mode
  | .list text filter => .openDirectory text filter

namespace Client

variable {σ F D : Type} [Tree.Backing σ F D]

/-- Sends the path request of an errand to the first session, and reads what that opened. -/
def perform (client : Client σ F D) (errand : Errand) : Answer × Client σ F D :=
  let (answer, client) := client.step (.path 1 errand.request)
  match errand, answer with
  | .read _ _ offset length capacity, .ok (.openedFile handle _) =>
    client.step (.file handle (.read offset length capacity))
  | .list .., .ok (.openedDirectory handle count) => client.step (.directory handle (.take count))
  | _, answer => (answer, client)

def performAll (client : Client σ F D) : List Errand → List Answer × Client σ F D
  | [] => ([], client)
  | errand :: rest =>
    let (answer, client) := client.perform errand
    let (answers, client) := performAll client rest
    (answer :: answers, client)

/-- The same answer, but for the order in which entries are listed. -/
inductive Alike : Answer → Answer → Prop
  | same (answer : Answer) : Alike answer answer
  | entries {records reordered : List Wire.DirectoryEntry} (same : records.Perm reordered) :
      Alike (.ok (.entries records)) (.ok (.entries reordered))

end Client

end Session

namespace PathMap

open Session (Client FileSystem Listing PathRequest SpaceReport Table Errand Extent)
open Session.Client (Alike given)
open GuestStorage.Tree

variable {σ τ F G D E : Type} [Backing σ F D] [Backing τ G E] {client : Client σ F D} {other : Client τ G E}
  {root : DirectoryView D} {top : DirectoryView E} {space : SpaceReport} {shows : σ → PathMap → Prop}
  {shows' : τ → PathMap → Prop} {takes takes' : String → Prop} {room room' : List String → Prop}
  {bound bound' : Nat} {map : PathMap}
  {handle : Nat} {answer : Client.Answer}

def reply (handle : Nat) : Except Error Outcome → Client.Answer
  | .error e => .error (.refused e)
  | .ok .done => .ok .done
  | .ok (.kind kind) => .ok (.entryType kind)
  | .ok (.size bytes) => .ok (.size bytes)
  | .ok (.file _ _ mode) => .ok (.openedFile handle mode)
  | .ok (.listing records) => .ok (.openedDirectory handle records.length)

def replyTo (space : SpaceReport) (map : PathMap) (handle : Nat) (errand : Errand) : Client.Answer :=
  match errand, (map.step space errand.request).1 with
  | .read _ _ offset length capacity, .ok (.file _ bytes _) =>
    Client.ofExcept .data <| (Extent.check offset length).map fun extent =>
      bytes.slice extent.offset (min extent.length capacity)
  | .list .., .ok (.listing records) => .ok (.entries records)
  | _, outcome => reply handle outcome

theorem Told.answer_eq {outcome : Except Error Outcome} (told : Told client root map handle answer outcome) :
    answer = reply handle outcome := by
  cases told <;> rfl

section Serving

variable (serving : Serving client root space shows map)
include serving

theorem Serving.read (faithful : Faithful root shows takes room bound) {front : List String} {name : String}
    {dir : DirectoryView D} {file : FileView F} {bytes : Bytes} {mode : Wire.OpenMode}
    (held : client.table.find? handle = some (.file ⟨file, mode⟩))
    (reached : root.descend? client.storage front = some dir)
    (found : dir.file? client.storage name = some file) (there : map.find? (front ++ [name]) = some (.file bytes))
    (offset length : Int64) (capacity : Nat) :
    client.step (.file handle (.read offset length capacity)) =
      (Client.ofExcept .data <| (Extent.check offset length).map fun extent =>
        bytes.slice extent.offset (min extent.length capacity), client) := by
  have opened : client.table.file handle = .ok ⟨file, mode⟩ := by simp [Table.file, Table.typed, held]
  obtain ⟨-, -, reads⟩ := faithful.contents serving.shows reached found there
  simp only [Client.step, opened, Client.withSession, Client.file, Session.OpenFile.read, reads]

theorem Serving.list {listing : Listing} (held : client.table.find? handle = some (.directory listing)) :
    ∃ next, client.step (.directory handle (.take listing.count)) = (.ok (.entries listing.remaining), next) ∧
      Serving next root space shows map ∧ next.table.last = client.table.last := by
  have opened : client.table.directory handle = .ok listing := by simp [Table.directory, Table.typed, held]
  have apart : 1 ≠ handle := by
    rintro rfl
    rw [serving.mounted] at held
    cases held
  let table := client.table.update handle (.directory (listing.advance listing.count))
  refine ⟨{ client with table }, ?_, ⟨?_, serving.shows⟩, rfl⟩
  · simp only [Client.step, opened, Client.withSession, Client.directory, Session.Cursor.take, Session.Cursor.count,
      List.take_length, table]
  · rw [Table.find?_update_of_ne _ _ apart, serving.mounted]

theorem Serving.perform (faithful : Faithful root shows takes room bound) {errand : Errand}
    (suits : Suits takes bound errand.request) (roomy : (map.step space errand.request).2.Roomy room) :
    Serving (client.perform errand).2 root space shows (map.step space errand.request).2 ∧
      Alike (client.perform errand).1 (map.replyTo space (client.table.last + 1) errand) ∧
      (client.perform errand).2.table.last = client.table.last +
        given (reply (client.table.last + 1) (map.step space errand.request).1) := by
  obtain ⟨after, told⟩ := serving.step faithful suits roomy
  have size := client.last_step (.path 1 errand.request)
  rw [told.answer_eq] at size
  unfold Client.perform replyTo
  generalize client.step (.path 1 errand.request) = sent at after told size ⊢
  generalize map.step space errand.request = made at after told size ⊢
  obtain ⟨answer, next⟩ := sent
  obtain ⟨outcome, map'⟩ := made
  cases errand with
  | path request => exact ⟨after, told.answer_eq ▸ .same _, size⟩
  | read path mode offset length capacity =>
    cases told with
    | refused | done | kind | size | listing => exact ⟨after, .same _, size⟩
    | file _ held reached found there =>
      dsimp only
      rw [after.read faithful held reached found there]
      exact ⟨after, .same _, size⟩
  | list path filter =>
    cases told with
    | refused | done | kind | size | file => exact ⟨after, .same _, size⟩
    | @listing listing records held same =>
      obtain ⟨last, taken, after', unchanged⟩ := after.list held
      have count : records.length = listing.count := same.length_eq.symm
      dsimp only
      rw [count, taken]
      exact ⟨after', .entries same, unchanged.trans size⟩

theorem Serving.performAll (faithful : Faithful root shows takes room bound) {errands : List Errand}
    (suits : ∀ errand ∈ errands, Suits takes bound errand.request)
    (roomy : ∀ front, front <+: errands → (map.after space (front.map (·.request))).Roomy room) :
    Serving (client.performAll errands).2 root space shows (map.after space (errands.map (·.request))) := by
  induction errands generalizing client map with
  | nil => exact serving
  | cons errand rest ih =>
    have next := serving.perform faithful (suits errand List.mem_cons_self) (roomy [errand] (by simp))
    exact ih next.1 (fun later among => suits later (List.mem_cons_of_mem _ among)) fun front short =>
      roomy (errand :: front) (by simpa using short)

end Serving

/-- Two clients that gave out as many handles, each in front of storage that the same map describes. -/
structure Abreast (client : Client σ F D) (other : Client τ G E) (root : DirectoryView D) (top : DirectoryView E)
    (space : SpaceReport) (shows : σ → PathMap → Prop) (shows' : τ → PathMap → Prop) (map : PathMap) : Prop where
  left : Serving client root space shows map
  right : Serving other top space shows' map
  even : other.table.last = client.table.last

theorem alike_of_replies {answer answer' reply : Client.Answer} (one : Alike answer reply)
    (other : Alike answer' reply) : Alike answer answer' := by
  cases one with
  | same => 
    cases other with
    | same => exact .same _
    | entries same => exact .entries same.symm
  | entries same =>
    cases other with
    | same => exact .entries same
    | entries same' => exact .entries (same.trans same'.symm)

namespace Abreast

variable (abreast : Abreast client other root top space shows shows' map)
  (faithful : Faithful root shows takes room bound) (faithful' : Faithful top shows' takes' room' bound')
include abreast faithful faithful'

theorem perform {errand : Errand} (suits : Suits takes bound errand.request) (suits' : Suits takes' bound' errand.request)
    (roomy : (map.step space errand.request).2.Roomy room) (roomy' : (map.step space errand.request).2.Roomy room') :
    Abreast (client.perform errand).2 (other.perform errand).2 root top space shows shows'
        (map.step space errand.request).2 ∧
      Alike (client.perform errand).1 (other.perform errand).1 := by
  obtain ⟨left, told, size⟩ := abreast.left.perform faithful suits roomy
  obtain ⟨right, told', size'⟩ := abreast.right.perform faithful' suits' roomy'
  rw [abreast.even] at told' size'
  exact ⟨⟨left, right, size'.trans size.symm⟩, alike_of_replies told told'⟩

theorem performAll {errands : List Errand} (suits : ∀ errand ∈ errands, Suits takes bound errand.request)
    (suits' : ∀ errand ∈ errands, Suits takes' bound' errand.request)
    (roomy : ∀ front, front <+: errands → (map.after space (front.map (·.request))).Roomy room)
    (roomy' : ∀ front, front <+: errands → (map.after space (front.map (·.request))).Roomy room') :
    List.Forall₂ Alike (client.performAll errands).1 (other.performAll errands).1 ∧
      Abreast (client.performAll errands).2 (other.performAll errands).2 root top space shows shows'
        (map.after space (errands.map (·.request))) := by
  induction errands generalizing client other map with
  | nil => exact ⟨.nil, abreast⟩
  | cons errand rest ih =>
    obtain ⟨next, alike⟩ := abreast.perform faithful faithful' (suits errand List.mem_cons_self)
      (suits' errand List.mem_cons_self) (roomy [errand] (by simp)) (roomy' [errand] (by simp))
    obtain ⟨answers, last⟩ := ih next (fun later among => suits later (List.mem_cons_of_mem _ among))
      (fun later among => suits' later (List.mem_cons_of_mem _ among))
      (fun front short => roomy (errand :: front) (by simpa using short))
      fun front short => roomy' (errand :: front) (by simpa using short)
    exact ⟨.cons alike answers, last⟩

end Abreast

end PathMap

end GuestStorage
