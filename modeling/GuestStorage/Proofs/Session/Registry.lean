import GuestStorage.Proofs.Session.Client
import Mathlib.Data.List.Induction

namespace GuestStorage.Session

open GuestStorage.Tree

variable {σ F D : Type}

def Request.handle : Request → Nat
  | .path handle _ | .file handle _ | .directory handle _ | .storage handle _ | .saveInfo handle _
  | .event handle _ | .kind handle | .close handle => handle

def Request.closes : Request → Bool
  | .close _ => true
  | _ => false

def Request.suits : Request → AnySession F D → Bool
  | .path .., .fileSystem _ | .file .., .file _ | .directory .., .directory _ | .storage .., .storage _
  | .saveInfo .., .saveInfoReader _ | .event .., .eventNotifier _ | .kind _, _ | .close _, _ => true
  | _, _ => false

def Request.leavesTable : Request → Bool
  | .file .. | .storage .. | .event .. | .kind _ => true
  | _ => false

/-- What a request leaves of the session it is sent to. Only what is read forward moves on. -/
def AnySession.after : AnySession F D → Request → AnySession F D
  | .directory listing, .directory _ (.pack buffer) => .directory (listing.read buffer).2.2
  | .directory listing, .directory _ (.take most) => .directory (listing.take most).2
  | .saveInfoReader reader, .saveInfo _ (.pack buffer) => .saveInfoReader (SaveInfoReader.read reader buffer).2.2
  | .saveInfoReader reader, .saveInfo _ (.take most) => .saveInfoReader (reader.take most).2
  | session, _ => session

/-- A session is put in from outside, a request is sent, or the storage is changed by somebody else. -/
inductive Action (σ F D : Type) where
  | insert (session : AnySession F D)
  | send (request : Request)
  | elsewhere (storage : σ)

/-- What happened to handles. -/
inductive Event (F D : Type) where
  | opened (handle : Nat) (session : AnySession F D)
  | called (request : Request)
  | closed (handle : Nat)

namespace Client

variable [Backing σ F D]

def opens (client : Client σ F D) : Request → Option (AnySession F D)
  | .path mount (.openFile path mode) => do
    let fs ← (client.table.fileSystem mount).toOption
    let opened ← (fs.openFile client.storage path mode).toOption
    return .file opened
  | .path mount (.openDirectory path filter) => do
    let fs ← (client.table.fileSystem mount).toOption
    let listing ← (fs.openDirectory client.storage path filter).toOption
    return .directory listing
  | _ => none

def newHandle? : Answer → Option Nat
  | .ok (.openedFile handle _) | .ok (.openedDirectory handle _) => some handle
  | _ => none

def eventsOf (client : Client σ F D) (request : Request) : List (Event F D) :=
  let answer := (client.step request).1
  let opened := (newHandle? answer).bind fun handle => (client.opens request).map (.opened handle)
  let closed := request.closes && answer.isOk
  .called request :: opened.toList ++ if closed then [.closed request.handle] else []

def act (client : Client σ F D) : Action σ F D → List (Event F D) × Client σ F D
  | .insert session => ([.opened (client.insert session).1 session], (client.insert session).2)
  | .send request => (client.eventsOf request, (client.step request).2)
  | .elsewhere storage => ([], { client with storage })

def record (client : Client σ F D) : List (Action σ F D) → List (Event F D) × Client σ F D
  | [] => ([], client)
  | action :: rest =>
    let (events, client) := client.act action
    let (later, client) := record client rest
    (events ++ later, client)

end Client

def Event.upon (handle : Nat) (state : Option (AnySession F D)) : Event F D → Option (AnySession F D)
  | .opened given session => if given = handle then some session else state
  | .called request => if request.handle = handle then state.map (·.after request) else state
  | .closed given => if given = handle then none else state

theorem AnySession.after_of_unsuited {session : AnySession F D} {request : Request}
    (unsuited : request.suits session = false) : session.after request = session := by
  cases session <;> cases request <;> first | rfl | cases unsuited

namespace Table

variable {table : Table F D} {handle : Nat}

theorem lookup_eq_ok {session : AnySession F D} :
    table.lookup handle = .ok session ↔ table.find? handle = some session := by
  unfold lookup
  split <;> simp_all

/-- An accessor answers the sessions of its kind and refuses whatever else a handle leads to. -/
def Answers {α : Type} (table : Table F D) (accessor : Nat → Except Error α) (kind : α → AnySession F D) : Prop :=
  ∀ handle, (∀ inner, accessor handle = .ok inner ↔ table.lookup handle = .ok (kind inner)) ∧
    ((∀ inner, table.lookup handle ≠ .ok (kind inner)) → accessor handle = .error .invalidArgument)

theorem answers_typed {α : Type} {select : AnySession F D → Option α} {kind : α → AnySession F D}
    (fits : ∀ session inner, select session = some inner ↔ session = kind inner) (table : Table F D) :
    table.Answers (table.typed select) kind := by
  simp only [Answers, ne_eq, lookup_eq_ok]
  refine fun handle => ⟨fun inner => ⟨fun answered => ?_, fun held => ?_⟩, fun other => ?_⟩
  · obtain ⟨session, held, selected⟩ := typed_eq_ok answered
    rw [held, (fits session inner).mp selected]
  · simp only [typed, held, (fits _ inner).mpr rfl]
  · unfold typed
    split
    · rfl
    · rename_i session held
      split
      · rename_i inner selected
        exact absurd ((fits session inner).mp selected ▸ held) (other inner)
      · rfl

theorem answers_fileSystem (table : Table F D) : table.Answers table.fileSystem .fileSystem :=
  answers_typed (fun session inner => by cases session <;> simp) table

theorem answers_file (table : Table F D) : table.Answers table.file .file :=
  answers_typed (fun session inner => by cases session <;> simp) table

theorem answers_directory (table : Table F D) : table.Answers table.directory .directory :=
  answers_typed (fun session inner => by cases session <;> simp) table

theorem answers_storage (table : Table F D) : table.Answers table.storage .storage :=
  answers_typed (fun session inner => by cases session <;> simp) table

theorem answers_saveInfoReader (table : Table F D) : table.Answers table.saveInfoReader .saveInfoReader :=
  answers_typed (fun session inner => by cases session <;> simp) table

theorem answers_eventNotifier (table : Table F D) : table.Answers table.eventNotifier .eventNotifier :=
  answers_typed (fun session inner => by cases session <;> simp) table

end Table

namespace Client

section Inserting

variable {client : Client σ F D} {handle : Nat}

theorem find?_upon_insert (client : Client σ F D) (session : AnySession F D) (handle : Nat) :
    (client.table.insert session).2.find? handle =
      Event.upon handle (client.table.find? handle) (.opened (client.table.insert session).1 session) := by
  by_cases new : (client.table.insert session).1 = handle
  · rw [Event.upon, if_pos new, ← new]
    exact Table.find?_insert_self client.table session
  · rw [Event.upon, if_neg new]
    exact Table.find?_insert_of_ne client.table session (Ne.symm new)

end Inserting

variable [Backing σ F D] {client : Client σ F D}

theorem step_of_unsuited {request : Request}
    (unsuited : ∀ session, client.table.find? request.handle = some session → request.suits session = false) :
    client.step request = (refuse .invalidArgument, client) := by
  have other : ∀ {session}, client.table.lookup request.handle = .ok session → request.suits session = true → False :=
    fun held suited => by simp [unsuited _ (Table.lookup_eq_ok.mp held)] at suited
  cases request with
  | path handle call =>
    rw [step, (client.table.answers_fileSystem handle).2 fun inner held => other held rfl, withSession]
  | file handle call =>
    rw [step, (client.table.answers_file handle).2 fun inner held => other held rfl, withSession]
  | directory handle call =>
    rw [step, (client.table.answers_directory handle).2 fun inner held => other held rfl, withSession]
  | storage handle call =>
    rw [step, (client.table.answers_storage handle).2 fun inner held => other held rfl, withSession]
  | saveInfo handle call =>
    rw [step, (client.table.answers_saveInfoReader handle).2 fun inner held => other held rfl, withSession]
  | event handle call =>
    rw [step, (client.table.answers_eventNotifier handle).2 fun inner held => other held rfl, withSession]
  | kind handle | close handle => 
    have absent : client.table.find? handle = none :=
      Option.eq_none_iff_forall_not_mem.mpr fun _ held => other (Table.lookup_eq_ok.mpr held) rfl
    simp only [step, Table.lookup, Table.close, absent, withSession]

/-- What a request does to the table, and what is told of it after the call itself. -/
inductive HandleStep (client : Client σ F D) (request : Request) : List (Event F D) → Table F D → Prop where
  | stays : (∀ session, client.table.find? request.handle = some session → session.after request = session) →
      HandleStep client request [] client.table
  | moves {session : AnySession F D} : client.table.find? request.handle = some session →
      HandleStep client request [] (client.table.update request.handle (session.after request))
  | opens (session : AnySession F D) : (∀ other : AnySession F D, other.after request = other) →
      HandleStep client request [.opened (client.table.insert session).1 session] (client.table.insert session).2
  | closes {session : AnySession F D} {after : Table F D} : client.table.close request.handle = .ok (session, after) →
      HandleStep client request [.closed request.handle] after

theorem TableStep.of_leaves {request : Request} {after : Table F D} (does : TableStep client request after)
    (leaves : request.leavesTable = true) : after = client.table := by
  cases does with
  | same => rfl
  | openFile | openDirectory | directory | saveInfo | close => cases leaves

def Handled (client : Client σ F D) (request : Request) : Prop :=
  ∃ events, client.eventsOf request = .called request :: events ∧
    HandleStep client request events (client.step request).2.table

theorem handled_of_error {request : Request} {cause : WriteFailure}
    (failed : client.step request = (.error cause, client))
    (same : ∀ session, client.table.find? request.handle = some session → session.after request = session) :
    client.Handled request := by
  refine ⟨[], by simp [eventsOf, failed, newHandle?, Except.isOk, Except.toBool], ?_⟩
  rw [failed]
  exact .stays same

theorem eventsOf_of_plain {request : Request} (plain : client.opens request = none)
    (stays : request.closes = false) : client.eventsOf request = [.called request] := by
  simp [eventsOf, plain, stays]

theorem handled_of_same {request : Request} (plain : client.opens request = none) (stays : request.closes = false)
    (table : (client.step request).2.table = client.table)
    (same : ∀ session, client.table.find? request.handle = some session → session.after request = session) :
    client.Handled request :=
  ⟨[], eventsOf_of_plain plain stays, by rw [table]; exact .stays same⟩

theorem handled_of_moved {request : Request} {session : AnySession F D} (plain : client.opens request = none)
    (stays : request.closes = false) (held : client.table.find? request.handle = some session)
    (table : (client.step request).2.table = client.table.update request.handle (session.after request)) :
    client.Handled request :=
  ⟨[], eventsOf_of_plain plain stays, by rw [table]; exact .moves held⟩

theorem after_path (session : AnySession F D) (handle : Nat) (call : PathRequest) :
    session.after (.path handle call) = session := by cases session <;> rfl

theorem handled_path {handle : Nat} {fs : FileSystem D} (held : client.table.find? handle = some (.fileSystem fs))
    (call : PathRequest) : client.Handled (.path handle call) := by
  have found := ((client.table.answers_fileSystem handle).1 fs).mpr (Table.lookup_eq_ok.mpr held)
  have step : client.step (.path handle call) = client.path fs call := by rw [Client.step, found, withSession]
  cases call with
  | createFile | deleteFile | createDirectory | deleteDirectory | deleteDirectoryRecursively
  | cleanDirectoryRecursively | renameFile | renameDirectory | commit | entryType | freeSpace | totalSpace =>
    exact handled_of_same rfl rfl (congrArg (·.2.table) step) fun _ _ => after_path ..
  | openFile path mode =>
    cases reached : fs.openFile client.storage path mode with
    | error cause =>
      exact handled_of_error (step.trans (by rw [Client.path, reached]; rfl)) fun _ _ => after_path ..
    | ok opened =>
      have inserts : client.path fs (.openFile path mode) = 
          (.ok (.openedFile (client.table.insert (.file opened)).1 opened.mode), (client.insert (.file opened)).2) := by
        rw [Client.path, reached]
        rfl
      refine ⟨[.opened (client.table.insert (.file opened)).1 (.file opened)], ?_, ?_⟩
      · simp [eventsOf, step, inserts, newHandle?, opens, found, reached, Except.toOption, Request.closes]
      · rw [step, inserts]
        exact .opens _ fun _ => after_path ..
  | openDirectory path filter =>
    cases reached : fs.openDirectory client.storage path filter with
    | error cause =>
      exact handled_of_error (step.trans (by rw [Client.path, reached]; rfl)) fun _ _ => after_path ..
    | ok listing =>
      have inserts : client.path fs (.openDirectory path filter) = 
          (.ok (.openedDirectory (client.table.insert (.directory listing)).1 listing.count),
            (client.insert (.directory listing)).2) := by
        rw [Client.path, reached]
        rfl
      refine ⟨[.opened (client.table.insert (.directory listing)).1 (.directory listing)], ?_, ?_⟩
      · simp [eventsOf, step, inserts, newHandle?, opens, found, reached, Except.toOption, Request.closes]
      · rw [step, inserts]
        exact .opens _ fun _ => after_path ..

theorem handled_directory {handle : Nat} {listing : Listing}
    (held : client.table.find? handle = some (.directory listing)) (call : CursorRequest) :
    client.Handled (.directory handle call) := by
  have found := ((client.table.answers_directory handle).1 listing).mpr (Table.lookup_eq_ok.mpr held)
  have step : client.step (.directory handle call) = client.directory handle listing call := by
    rw [Client.step, found, withSession]
  cases call with
  | pack buffer | take most => exact handled_of_moved rfl rfl held (congrArg (·.2.table) step)
  | remaining =>
    refine handled_of_same rfl rfl (congrArg (·.2.table) step) fun session present => ?_
    cases session <;> rfl

theorem handled_saveInfo {handle : Nat} {reader : SaveInfoReader}
    (held : client.table.find? handle = some (.saveInfoReader reader)) (call : CursorRequest) :
    client.Handled (.saveInfo handle call) := by
  have found := ((client.table.answers_saveInfoReader handle).1 reader).mpr (Table.lookup_eq_ok.mpr held)
  have step : client.step (.saveInfo handle call) = client.saveInfo handle reader call := by
    rw [Client.step, found, withSession]
  cases call with
  | pack buffer | take most => exact handled_of_moved rfl rfl held (congrArg (·.2.table) step)
  | remaining =>
    refine handled_of_same rfl rfl (congrArg (·.2.table) step) fun session present => ?_
    cases session <;> rfl

theorem handled_close {handle : Nat} {session : AnySession F D} (held : client.table.find? handle = some session) :
    client.Handled (.close handle) := by
  obtain ⟨after, closed⟩ : ∃ after, client.table.close handle = .ok (session, after) := by
    simp [Table.close, held]
  have step : client.step (.close handle) = (.ok (.kind session.kind), { client with table := after }) := by
    rw [Client.step, closed, withSession]
  refine ⟨[.closed handle], ?_, ?_⟩
  · simp [eventsOf, step, newHandle?, Request.closes, Except.isOk, Except.toBool, Request.handle]
  · rw [step]
    exact .closes closed

theorem handled (client : Client σ F D) (request : Request) : client.Handled request := by
  by_cases suited : ∃ session, client.table.find? request.handle = some session ∧ request.suits session = true
  · obtain ⟨session, held, fits⟩ := suited
    cases request with
    | path handle call =>
      cases session with
      | fileSystem fs => exact handled_path held call
      | file | directory | storage | saveInfoReader | eventNotifier => cases fits
    | directory handle call =>
      cases session with
      | directory listing => exact handled_directory held call
      | fileSystem | file | storage | saveInfoReader | eventNotifier => cases fits
    | saveInfo handle call =>
      cases session with
      | saveInfoReader reader => exact handled_saveInfo held call
      | fileSystem | file | directory | storage | eventNotifier => cases fits
    | close handle => exact handled_close held
    | file handle call | storage handle call | event handle call | kind handle =>
      exact handled_of_same rfl rfl ((client.step_table _).of_leaves rfl) fun session _ => by cases session <;> rfl
  · have unsuited : ∀ session, client.table.find? request.handle = some session → request.suits session = false :=
      fun session held => Bool.eq_false_iff.mpr fun fits => suited ⟨session, held, fits⟩
    exact handled_of_error (step_of_unsuited unsuited) fun session held =>
      AnySession.after_of_unsuited (unsuited session held)

theorem find?_upon_step (client : Client σ F D) (request : Request) (handle : Nat) :
    (client.step request).2.table.find? handle =
      (client.eventsOf request).foldl (Event.upon handle) (client.table.find? handle) := by
  obtain ⟨events, told, does⟩ := client.handled request
  rw [told, List.foldl_cons]
  generalize (client.step request).2.table = after at does ⊢
  cases does with
  | stays same =>
    cases held : client.table.find? handle with
    | none => simp [Event.upon]
    | some session =>
      have kept : request.handle = handle → session.after request = session := fun own => same session (own ▸ held)
      simpa [Event.upon] using fun own => (kept own).symm
  | @moves session held =>
    rw [List.foldl_nil, Event.upon]
    split
    · rename_i own
      rw [← own, held, Option.map_some]
      exact Table.find?_update_self held _
    · rename_i apart
      exact Table.find?_update_of_ne client.table _ (Ne.symm apart)
  | opens session plain =>
    have kept : Event.upon handle (client.table.find? handle) (.called request) = client.table.find? handle := by
      simp [Event.upon, plain]
    rw [kept, List.foldl_cons, List.foldl_nil]
    exact find?_upon_insert client session handle
  | closes closed =>
    rw [List.foldl_cons, List.foldl_nil]
    by_cases own : request.handle = handle
    · simp [Event.upon, own, own ▸ Table.find?_close_self closed]
    · simp [Event.upon, own, Table.find?_close_of_ne closed (Ne.symm own)]

theorem find?_upon_act (client : Client σ F D) (action : Action σ F D) (handle : Nat) :
    (client.act action).2.table.find? handle =
      (client.act action).1.foldl (Event.upon handle) (client.table.find? handle) := by
  cases action with
  | insert session => exact find?_upon_insert client session handle
  | send request => exact find?_upon_step client request handle
  | elsewhere storage => rfl

end Client

def Event.given? : Event F D → Option Nat
  | .opened handle _ => some handle
  | .called _ | .closed _ => none

namespace Client

variable [Backing σ F D] {client : Client σ F D}

theorem range_append_given (client : Client σ F D) (action : Action σ F D) :
    List.range' 1 client.table.last ++ (client.act action).1.filterMap Event.given? =
      List.range' 1 (client.act action).2.table.last := by
  have next (session : AnySession F D) :
      List.range' 1 client.table.last ++ [(client.table.insert session).1] =
        List.range' 1 (client.table.insert session).2.last := by
    rw [Table.insert, List.range'_1_concat, Nat.add_comm 1]
  cases action with
  | insert session => exact next session
  | elsewhere storage => exact List.append_nil _
  | send request =>
    obtain ⟨events, told, does⟩ := client.handled request
    simp only [Client.act, told]
    generalize (client.step request).2.table = after at does ⊢
    cases does with
    | stays => exact List.append_nil _
    | moves => simp [Event.given?, Table.update]
    | opens session => exact next session
    | closes closed => simp [Event.given?, Table.last_close closed]

theorem find?_act_of_ne {action : Action σ F D} {handle : Nat} {session : AnySession F D}
    (held : client.table.find? handle = some session)
    (apart : ∀ request, action = .send request → request.handle ≠ handle) :
    (client.act action).2.table.find? handle = some session := by
  cases action with
  | insert fresh => exact Table.find?_insert_of_some held fresh
  | elsewhere storage => exact held
  | send request =>
    have other := apart request rfl
    obtain ⟨events, -, does⟩ := client.handled request
    simp only [Client.act]
    generalize (client.step request).2.table = after at does ⊢
    cases does with
    | stays => exact held
    | moves called =>
      exact (Table.find?_update_of_ne _ _ (Ne.symm other)).trans held
    | opens fresh => exact Table.find?_insert_of_some held fresh
    | closes closed => exact (Table.find?_close_of_ne closed (Ne.symm other)).trans held

end Client

def Event.leaves (handle : Nat) (session : AnySession F D) : Event F D → AnySession F D
  | .called request => if request.handle = handle then session.after request else session
  | .opened .. | .closed _ => session

/-- A session after the calls to its handle. -/
def AnySession.since (session : AnySession F D) (handle : Nat) (later : List (Event F D)) : AnySession F D :=
  later.foldl (Event.leaves handle) session

theorem AnySession.kind_after (session : AnySession F D) (request : Request) :
    (session.after request).kind = session.kind := by
  unfold after
  split <;> rfl

theorem AnySession.kind_since (session : AnySession F D) (handle : Nat) (later : List (Event F D)) :
    (session.since handle later).kind = session.kind := by
  induction later generalizing session with
  | nil => rfl
  | cons event rest ih =>
    refine (ih _).trans ?_
    unfold Event.leaves
    split
    · split
      · exact kind_after ..
      · rfl
    · rfl
    · rfl

namespace Event

variable {handle : Nat} {session : AnySession F D} {history later : List (Event F D)}

theorem upon_eq_some {state : Option (AnySession F D)} {event : Event F D}
    (found : upon handle state event = some session) :
    event = .opened handle session ∨
      ∃ old, state = some old ∧ event ≠ .closed handle ∧ session = leaves handle old event := by
  cases event with
  | opened given fresh =>
    by_cases own : given = handle
    · simp_all [upon]
    · exact .inr ⟨session, by simpa [upon, own] using found, nofun, rfl⟩
  | called request =>
    by_cases own : request.handle = handle
    · obtain ⟨old, present, rfl⟩ := Option.map_eq_some_iff.mp ((if_pos own).symm.trans found)
      exact .inr ⟨old, present, nofun, (if_pos own).symm⟩
    · exact .inr ⟨session, (if_neg own).symm.trans found, nofun, (if_neg own).symm⟩
  | closed given =>
    by_cases own : given = handle
    · simp [upon, own] at found
    · exact .inr ⟨session, (if_neg own).symm.trans found, by simpa using own, rfl⟩

theorem exists_of_upon (found : history.foldl (upon handle) none = some session) :
    ∃ earlier first later, history = earlier ++ .opened handle first :: later ∧ .closed handle ∉ later ∧
      session = first.since handle later := by
  induction history using List.reverseRecOn generalizing session with
  | nil => cases found
  | append_singleton history event ih =>
    rw [List.foldl_append, List.foldl_cons, List.foldl_nil] at found
    obtain rfl | ⟨old, present, stays, rfl⟩ := upon_eq_some found
    · exact ⟨history, session, [], rfl, List.not_mem_nil, rfl⟩
    · obtain ⟨earlier, first, later, rfl, open', rfl⟩ := ih present
      refine ⟨earlier, first, later ++ [event], by simp, ?_, ?_⟩
      · simpa using ⟨open', Ne.symm stays⟩
      · simp [AnySession.since]

theorem foldl_upon_some (stays : .closed handle ∉ later) (once : handle ∉ later.filterMap given?) :
    later.foldl (upon handle) (some session) = some (session.since handle later) := by
  induction later generalizing session with
  | nil => rfl
  | cons event rest ih =>
    obtain ⟨other, stays⟩ := not_or.mp (mt List.mem_cons.mpr stays)
    have first : upon handle (some session) event = some (leaves handle session event) := by
      cases event with
      | opened given fresh =>
        have apart : given ≠ handle := by
          rintro rfl
          simp [given?] at once
        exact if_neg apart
      | called request =>
        simp only [upon, leaves]
        split <;> rfl
      | closed given =>
        have apart : given ≠ handle := by
          rintro rfl
          exact other rfl
        exact if_neg apart
    have once : handle ∉ rest.filterMap given? := by
      intro again
      refine once ?_
      rw [List.filterMap_cons]
      split
      · exact again
      · exact List.mem_cons_of_mem _ again
    rw [List.foldl_cons, first, ih stays once]
    rfl

end Event

structure Recorded (history : List (Event F D)) (client : Client σ F D) : Prop where
  found : ∀ handle, client.table.find? handle = history.foldl (Event.upon handle) none
  numbered : history.filterMap Event.given? = List.range' 1 client.table.last

namespace Recorded

variable {history : List (Event F D)} {client : Client σ F D}

theorem start (storage : σ) : Recorded ([] : List (Event F D)) (Client.start storage) :=
  ⟨fun handle => by simp [Client.start, Table.find?, Table.empty], rfl⟩

theorem find?_eq_some_iff (recorded : Recorded history client) {handle : Nat} {session : AnySession F D} :
    client.table.find? handle = some session ↔
      ∃ earlier first later, history = earlier ++ .opened handle first :: later ∧ .closed handle ∉ later ∧
        session = first.since handle later := by
  refine ⟨fun found => Event.exists_of_upon (recorded.found handle ▸ found), ?_⟩
  rintro ⟨earlier, first, later, rfl, stays, rfl⟩
  have distinct : ((earlier ++ .opened handle first :: later).filterMap Event.given?).Nodup := by
    rw [recorded.numbered]
    exact List.nodup_range'
  have once : handle ∉ later.filterMap Event.given? := by
    rw [List.filterMap_append] at distinct
    exact (List.nodup_cons.mp (List.nodup_append.mp distinct).2.1).1
  rw [recorded.found, List.foldl_append, List.foldl_cons, Event.upon, if_pos rfl, Event.foldl_upon_some stays once]

variable [Backing σ F D]

theorem act (recorded : Recorded history client) (action : Action σ F D) :
    Recorded (history ++ (client.act action).1) (client.act action).2 := by
  refine ⟨fun handle => ?_, ?_⟩
  · rw [client.find?_upon_act, recorded.found, List.foldl_append]
  · rw [List.filterMap_append, recorded.numbered, client.range_append_given]

theorem record (recorded : Recorded history client) (actions : List (Action σ F D)) :
    Recorded (history ++ (client.record actions).1) (client.record actions).2 := by
  induction actions generalizing history client with
  | nil => rwa [Client.record, List.append_nil]
  | cons first rest ih =>
    have after := ih (recorded.act first)
    rwa [List.append_assoc] at after

end Recorded

/-- The table of a client is right about its handles: those that were given out and not closed since lead to their
    sessions, as their own calls left them, and all others are refused. -/
structure TableSound (history : List (Event F D)) (client : Client σ F D) [Backing σ F D] : Prop where
  resolves : ∀ handle session, client.table.lookup handle = .ok session ↔
    ∃ earlier first later, history = earlier ++ .opened handle first :: later ∧ .closed handle ∉ later ∧
      session = first.since handle later ∧ session.kind = first.kind
  unresolved : ∀ handle, (∀ session, client.table.lookup handle ≠ .ok session) →
    client.table.lookup handle = .error .invalidArgument
  fileSystem : client.table.Answers client.table.fileSystem .fileSystem
  file : client.table.Answers client.table.file .file
  directory : client.table.Answers client.table.directory .directory
  storage : client.table.Answers client.table.storage .storage
  saveInfoReader : client.table.Answers client.table.saveInfoReader .saveInfoReader
  eventNotifier : client.table.Answers client.table.eventNotifier .eventNotifier
  refused : ∀ request : Request,
    (∀ session, client.table.lookup request.handle = .ok session → request.suits session = false) →
      client.step request = (Client.refuse .invalidArgument, client)
  numbered : ∃ count, history.filterMap Event.given? = List.range' 1 count
  spared : ∀ (action : Action σ F D) handle session, client.table.lookup handle = .ok session →
    (∀ request, action = .send request → request.handle ≠ handle) →
      (client.act action).2.table.lookup handle = .ok session

/-- Handles are sound in every run. They are given out as 1, 2, 3 and so on, whatever is closed in between, and
    what is done to one of them never touches the session of another. -/
theorem handles_sound [Backing σ F D] (storage : σ) (actions : List (Action σ F D)) :
    TableSound ((Client.start storage).record actions).1 ((Client.start storage).record actions).2 := by
  have recorded := (Recorded.start (F := F) (D := D) storage).record actions
  rw [List.nil_append] at recorded
  generalize ((Client.start storage).record actions).1 = history at recorded ⊢
  generalize ((Client.start storage).record actions).2 = client at recorded ⊢
  refine ⟨fun handle session => ?_, fun handle absent => ?_, client.table.answers_fileSystem,
    client.table.answers_file, client.table.answers_directory, client.table.answers_storage,
    client.table.answers_saveInfoReader, client.table.answers_eventNotifier, fun request other => ?_,
    ⟨_, recorded.numbered⟩, fun action handle session held apart => ?_⟩
  · rw [Table.lookup_eq_ok, recorded.find?_eq_some_iff]
    refine exists₃_congr fun earlier first later => and_congr_right fun _ => and_congr_right fun _ => ?_
    exact ⟨fun same => ⟨same, same ▸ first.kind_since handle later⟩, And.left⟩
  · unfold Table.lookup at absent ⊢
    split
    · rename_i session held
      exact absurd (by rw [held]) (absent session)
    · rfl
  · exact Client.step_of_unsuited fun session held => other session (Table.lookup_eq_ok.mpr held)
  · rw [Table.lookup_eq_ok] at held ⊢
    exact client.find?_act_of_ne held apart

end GuestStorage.Session
