import GuestStorage.Memory.Store
import GuestStorage.Proofs.Session.Client
import Mathlib.Algebra.GroupWithZero.Nat
import Mathlib.Data.List.Induction

namespace GuestStorage.Session

open GuestStorage.Tree

/-- Something happens to a client: it is sent a request, or its storage is changed by somebody else. -/
inductive Turn (σ : Type) where
  | request (request : Request)
  | elsewhere (storage : σ)

namespace Client

variable {σ F D : Type} [Backing σ F D]

def log (client : Client σ F D) (turns : List (Turn σ)) : List (Request × Answer) × Client σ F D :=
  turns.foldl (fun (told, client) turn =>
    match turn with
    | .request request => (told ++ [(request, (client.step request).1)], (client.step request).2)
    | .elsewhere storage => (told, { client with storage })) ([], client)

theorem log_concat (client : Client σ F D) (turns : List (Turn σ)) (request : Request) :
    client.log (turns ++ [.request request]) =
      ((client.log turns).1 ++ [(request, ((client.log turns).2.step request).1)],
        ((client.log turns).2.step request).2) := by
  simp only [log, List.foldl_append, List.foldl_cons, List.foldl_nil]

theorem log_elsewhere (client : Client σ F D) (turns : List (Turn σ)) (storage : σ) :
    client.log (turns ++ [.elsewhere storage]) =
      ((client.log turns).1, { (client.log turns).2 with storage }) := by
  simp only [log, List.foldl_append, List.foldl_cons, List.foldl_nil]

end Client

/-- A kind of session that hands out records: how they are packed and replied, and how it is called. -/
structure Reader (α : Type) where
  recordSize : Nat
  encode : α → Bytes
  even : ∀ record, (encode record).length = recordSize
  records : List α → Reply
  session : ∀ {F D : Type}, Cursor α → AnySession F D
  request : Nat → CursorRequest → Request
  call? : Nat → Request → Option CursorRequest
  call?_eq_some : ∀ handle sent call, call? handle sent = some call ↔ sent = request handle call

namespace Reader

theorem length_encode_entry (entry : Wire.DirectoryEntry) :
    entry.encode.length = Wire.DirectoryEntry.recordSize := by
  simp [Wire.DirectoryEntry.encode, Wire.DirectoryEntry.nameField, Wire.DirectoryEntry.recordSize]

theorem length_encode_save (info : Wire.SaveInfo) : info.encode.length = Wire.SaveInfo.recordSize := by
  simp [Wire.SaveInfo.encode, Wire.SaveInfo.recordSize, Wire.UserId.toBytes]

def listing : Reader Wire.DirectoryEntry where
  recordSize := Wire.DirectoryEntry.recordSize
  encode := Wire.DirectoryEntry.encode
  even := length_encode_entry
  records := .entries
  session := .directory
  request := .directory
  call? handle
    | .directory other call => if other = handle then some call else none
    | _ => none
  call?_eq_some handle sent call := by cases sent <;> simp

def saves : Reader Wire.SaveInfo where
  recordSize := Wire.SaveInfo.recordSize
  encode := Wire.SaveInfo.encode
  even := length_encode_save
  records := .saves
  session := .saveInfoReader
  request := .saveInfo
  call? handle
    | .saveInfo other call => if other = handle then some call else none
    | _ => none
  call?_eq_some handle sent call := by cases sent <;> simp

variable {α : Type} (reader : Reader α)

def room : CursorRequest → Nat
  | .pack buffer => buffer.length / reader.recordSize
  | .take most => most
  | .remaining => 0

/-- The reply to a call that is given some records when so many are left. Packed records stand at the front
    of the buffer, and what is behind them stays. -/
def reply (page : List α) (left : Nat) : CursorRequest → Reply
  | .pack buffer =>
    .packed page.length (page.flatMap reader.encode ++ buffer.drop (page.length * reader.recordSize))
  | .take _ => reader.records page
  | .remaining => .remaining left

/-- Calls were answered with pages of a list, one after the other, each as long as the call had room for as
    far as there was anything left. -/
inductive Paged (all : List α) : List (CursorRequest × Client.Answer) → List α → Prop
  | start : Paged all [] []
  | call {calls : List (CursorRequest × Client.Answer)} {given page : List α} (call : CursorRequest)
      (before : Paged all calls given)
      (length : page.length = min (reader.room call) (all.length - given.length)) :
      Paged all (calls ++ [(call, .ok (reader.reply page (all.length - given.length) call))])
        (given ++ page)

def callsOf (handle : Nat) (told : List (Request × Client.Answer)) : List (CursorRequest × Client.Answer) :=
  told.filterMap fun (sent, answer) => (reader.call? handle sent).map fun call => (call, answer)

/-- What the client does for the sessions of a reader: it answers a call with the next page and puts the rest
    back, and it puts nothing else in the place of a session that is left open. -/
structure Served (fits : CursorRequest → Prop) : Prop where
  answers : ∀ {σ F D : Type} [Backing σ F D] (client : Client σ F D) {handle : Nat} {left : List α}
    {call : CursorRequest}, client.table.find? handle = some (reader.session ⟨left⟩) → fits call →
      (client.step (reader.request handle call)).1 =
          .ok (reader.reply (left.take (reader.room call)) left.length call) ∧
        (client.step (reader.request handle call)).2.table.find? handle =
          some (reader.session ⟨left.drop (reader.room call)⟩)
  spares : ∀ {σ F D : Type} [Backing σ F D] (client : Client σ F D) {handle : Nat} {left : List α}
    {sent : Request}, client.table.find? handle = some (reader.session ⟨left⟩) →
      reader.call? handle sent = none → sent ≠ .close handle →
        (client.step sent).2.table.find? handle = some (reader.session ⟨left⟩)

section Runs

variable {reader} {fits : CursorRequest → Prop} {σ F D : Type} [Backing σ F D] {client : Client σ F D}
  {handle : Nat} {all : List α} {turns : List (Turn σ)}

theorem Served.run (served : reader.Served fits)
    (opened : client.table.find? handle = some (reader.session ⟨all⟩))
    (stays : ∀ sent, .request sent ∈ turns → sent ≠ .close handle)
    (fit : ∀ sent call, .request sent ∈ turns → reader.call? handle sent = some call → fits call) :
    ∃ given, reader.Paged all (reader.callsOf handle (client.log turns).1) given ∧ given <+: all ∧
      (client.log turns).2.table.find? handle = some (reader.session ⟨all.drop given.length⟩) := by
  induction turns using List.reverseRecOn with
  | nil => exact ⟨[], .start, List.nil_prefix, opened⟩
  | append_singleton turns turn ih =>
    obtain ⟨given, paged, ⟨left, rfl⟩, found⟩ := ih
      (fun sent among => stays sent (List.mem_append_left _ among))
      fun sent call among => fit sent call (List.mem_append_left _ among)
    rw [List.drop_left] at found
    cases turn with
    | elsewhere storage =>
      rw [Client.log_elsewhere]
      exact ⟨given, paged, List.prefix_append given left, by rwa [List.drop_left]⟩
    | request sent =>
      rw [Client.log_concat, callsOf, List.filterMap_append, ← callsOf]
      have last : Turn.request sent ∈ turns ++ [.request sent] := by simp
      cases called : reader.call? handle sent with
      | none =>
        refine ⟨given, by simpa [called] using paged, List.prefix_append given left, ?_⟩
        rw [List.drop_left]
        exact served.spares _ found called (stays sent last)
      | some call =>
        obtain rfl := (reader.call?_eq_some handle sent call).mp called
        obtain ⟨answer, rest⟩ := served.answers _ found (fit _ call last called)
        have remaining : left.length = (given ++ left).length - given.length := by simp
        refine ⟨given ++ left.take (reader.room call), ?_, ?_, ?_⟩
        · simp only [List.filterMap_cons, List.filterMap_nil, called, Option.map_some, answer]
          rw [remaining]
          refine .call call paged ?_
          rw [List.length_take, ← remaining]
        · exact (List.prefix_append_right_inj given).mpr (List.take_prefix _ left)
        · rw [rest, List.length_append, ← List.drop_drop, List.drop_left, List.length_take]
          congr 3
          exact List.drop_eq_drop_iff.mpr (by omega)

end Runs

theorem fill_eq (page : List α) (buffer : Bytes) :
    Cursor.fill reader.encode page buffer =
      page.flatMap reader.encode ++ buffer.drop (page.length * reader.recordSize) := by
  rw [Cursor.fill, Cursor.length_flatMap_encode reader.even]

theorem drop_length_take (left : List α) (most : Nat) : left.drop (left.take most).length = left.drop most := by
  rw [List.length_take]
  exact List.drop_eq_drop_iff.mpr (by omega)

theorem listing_served : listing.Served fun _ => True := by
  refine ⟨?_, ?_⟩
  · intro σ F D backing client handle left call found _
    have inner : client.table.directory handle = .ok ⟨left⟩ := by
      simp [Table.directory, Table.typed, found, listing]
    have step : client.step (listing.request handle call) = client.directory handle ⟨left⟩ call := by
      simp only [listing, Client.step, inner, Client.withSession]
    rw [step]
    cases call with
    | pack buffer =>
      refine ⟨?_, ?_⟩
      · rw [reply, ← fill_eq]
        rfl
      · simp only [Client.directory, Listing.read, Cursor.pack, Cursor.advance, drop_length_take]
        exact Table.find?_update_self found _
    | take most => exact ⟨rfl, Table.find?_update_self found _⟩
    | remaining => exact ⟨rfl, found⟩
  · intro σ F D backing client handle left sent found other stays
    refine Client.find?_step found stays ?_ ?_
    · rintro call rest rfl
      simp [listing] at other
    · rintro call rest rfl same
      cases same

def Counted : CursorRequest → Prop
  | .pack buffer => buffer.length / Wire.SaveInfo.recordSize < 2 ^ 32
  | _ => True

theorem saves_served : saves.Served Counted := by
  refine ⟨?_, ?_⟩
  · intro σ F D backing client handle left call found counted
    have inner : client.table.saveInfoReader handle = .ok ⟨left⟩ := by
      simp [Table.saveInfoReader, Table.typed, found, saves]
    have step : client.step (saves.request handle call) = client.saveInfo handle ⟨left⟩ call := by
      simp only [saves, Client.step, inner, Client.withSession]
    rw [step]
    cases call with
    | pack buffer =>
      have short : (left.take (buffer.length / Wire.SaveInfo.recordSize)).length < 2 ^ 32 := by
        rw [List.length_take]
        exact Nat.lt_of_le_of_lt (Nat.min_le_left _ _) counted
      refine ⟨?_, ?_⟩
      · rw [reply, ← fill_eq]
        simp only [Client.saveInfo, SaveInfoReader.read, Cursor.pack, UInt32.toNat_ofNat_of_lt' short]
        rfl
      · simp only [Client.saveInfo, SaveInfoReader.read, Cursor.pack, Cursor.advance, drop_length_take]
        exact Table.find?_update_self found _
    | take most => exact ⟨rfl, Table.find?_update_self found _⟩
    | remaining => exact ⟨rfl, found⟩
  · intro σ F D backing client handle left sent found other stays
    refine Client.find?_step found stays ?_ ?_
    · rintro call rest rfl same
      cases same
    · rintro call rest rfl
      simp [saves] at other

end Reader

/-- Paging loses nothing, whatever the mix of calls and whatever else happens. The calls of an open listing
    hand out, page by page, the names, kinds and sizes of the files and then of the subdirectories that the
    directory had when it was opened, of each kind if its bit of the filter is set or neither is, and those of a
    save reader the records it was made of. -/
theorem paging_lossless {σ F D : Type} [Backing σ F D] (client : Client σ F D) (handle : Nat)
    (turns : List (Turn σ)) (stays : ∀ sent, .request sent ∈ turns → sent ≠ .close handle) :
    (∀ (s : σ) (dir : DirectoryView D) (filter : UInt32),
      client.table.find? handle = some (.directory (.ofDirectory s dir filter)) →
        let all : List Wire.DirectoryEntry :=
          (if filter &&& 3 = 0 ∨ filter &&& 2 ≠ 0 then
            (dir.files s).map fun file => ⟨file.name s, .file, UInt64.ofNat (file.size s)⟩ else []) ++
          if filter &&& 3 = 0 ∨ filter &&& 1 ≠ 0 then
            (dir.subdirectories s).map fun sub => ⟨sub.name s, .directory, UInt64.ofNat (sub.size s)⟩ else []
        ∃ given, Reader.listing.Paged all (Reader.listing.callsOf handle (client.log turns).1) given ∧
          given <+: all) ∧
    ∀ all, client.table.find? handle = some (.saveInfoReader ⟨all⟩) →
      (∀ buffer, .request (.saveInfo handle (.pack buffer)) ∈ turns →
        buffer.length / Wire.SaveInfo.recordSize < 2 ^ 32) →
      ∃ given, Reader.saves.Paged all (Reader.saves.callsOf handle (client.log turns).1) given ∧
        given <+: all := by
  refine ⟨?_, ?_⟩
  · intro s dir filter opened all
    have whole : Listing.ofDirectory s dir filter = ⟨all⟩ :=
      congrArg Cursor.mk (Listing.remaining_ofDirectory s dir filter)
    rw [whole] at opened
    have opened : client.table.find? handle = some (Reader.listing.session ⟨all⟩) := opened
    obtain ⟨given, paged, front, -⟩ := Reader.listing_served.run opened stays fun _ _ _ _ => trivial
    exact ⟨given, paged, front⟩
  · intro all opened short
    obtain ⟨given, paged, front, -⟩ := Reader.saves_served.run opened stays fun sent call among called => by
      obtain rfl := (Reader.saves.call?_eq_some handle sent call).mp called
      cases call with
      | pack buffer => exact short buffer among
      | take | remaining => trivial
    exact ⟨given, paged, front⟩

def larder : Memory.Store :=
  (Memory.Store.empty.plant "root" false
    [.file "a" [1] false, .file "b" [2, 3] false, .directory "c" [] false]).2

def reading : Client Memory.Store Memory.FileId Memory.DirectoryId :=
  ((((Client.mounted larder (.direct ⟨0⟩) ⟨.gameCard, 0, 0⟩).step (.path 1 (.openDirectory "" 0))).2).insert
    (.saveInfoReader ⟨[⟨0, .nandUser, .saveData, .zero, 1, 2, 3, 0, .primary⟩]⟩)).2

def mixed : List (Turn Memory.Store) :=
  [.request (.directory 2 (.take 1)), .request (.path 1 (.deleteFile "b")),
    .request (.saveInfo 3 (.pack (.zeros 200))), .elsewhere .empty,
    .request (.directory 2 (.pack (.zeros 1600))), .request (.directory 2 .remaining)]

theorem reading_lossless :
    (∃ given, Reader.listing.Paged [⟨"a", .file, 1⟩, ⟨"b", .file, 2⟩, ⟨"c", .directory, 0⟩]
        (Reader.listing.callsOf 2 (reading.log mixed).1) given ∧
      given <+: [⟨"a", .file, 1⟩, ⟨"b", .file, 2⟩, ⟨"c", .directory, 0⟩]) ∧
    ∃ given, Reader.saves.Paged [⟨0, .nandUser, .saveData, .zero, 1, 2, 3, 0, .primary⟩]
        (Reader.saves.callsOf 3 (reading.log mixed).1) given ∧
      given <+: [⟨0, .nandUser, .saveData, .zero, 1, 2, 3, 0, .primary⟩] := by
  have stays : ∀ handle sent, .request sent ∈ mixed → sent ≠ .close handle := by simp [mixed]
  refine ⟨?_, ?_⟩
  · exact (paging_lossless reading 2 mixed (stays 2)).1 larder (.direct ⟨0⟩) 0 (by decide +kernel)
  · refine (paging_lossless reading 3 mixed (stays 3)).2 _ ?_ ?_
    · decide +kernel
    · simp [mixed, Wire.SaveInfo.recordSize]

end GuestStorage.Session
