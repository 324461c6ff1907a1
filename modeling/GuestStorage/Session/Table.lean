import GuestStorage.Session.Cursor
import GuestStorage.Session.File
import GuestStorage.Tree.Mount

namespace GuestStorage.Session

structure SpaceReport where
  storage : Wire.StorageClass
  free : Nat
  total : Nat
  deriving DecidableEq

structure FileSystem (D : Type) where
  mount : Tree.Mount D
  space : SpaceReport
  deriving DecidableEq

def decodeArgument {α : Type} [Wire.Coded α] (raw : Nat) : Except Error α :=
  (Wire.ofRaw raw).mapError fun _ => .invalidArgument

namespace FileSystem

variable {σ F D : Type} [Tree.Backing σ F D]

def openFile (s : σ) (fs : FileSystem D) (path : String) (mode : UInt32) :
    Except Error (OpenFile F) := do
  let mode : Wire.OpenMode ← decodeArgument mode.toNat
  let file ← fs.mount.openFile s path mode
  return ⟨file, mode⟩

def openDirectory (s : σ) (fs : FileSystem D) (path : String) (filter : UInt32) :
    Except Error Listing := do
  let dir ← fs.mount.openDirectory s path
  return Listing.ofDirectory s dir filter

end FileSystem

inductive Detection where
  | sdCard
  | gameCard
  deriving DecidableEq

def Detection.name : Detection → String
  | .sdCard => "sd_card_detection"
  | .gameCard => "game_card_detection"

inductive AnySession (F D : Type) where
  | fileSystem (session : FileSystem D)
  | file (session : OpenFile F)
  | directory (session : Listing)
  | storage (session : Storage F)
  | saveInfoReader (session : SaveInfoReader)
  | eventNotifier (event : Detection)
  deriving DecidableEq

def AnySession.kind {F D : Type} : AnySession F D → String
  | .fileSystem _ => "filesystem"
  | .file _ => "file"
  | .directory _ => "directory"
  | .storage _ => "storage"
  | .saveInfoReader _ => "save data info reader"
  | .eventNotifier _ => "event notifier"

/-- The open sessions under their handles, and the last handle that was given out. -/
structure Table (F D : Type) where
  sessions : List (Nat × AnySession F D)
  last : Nat
  given : ∀ e ∈ sessions, 0 < e.1 ∧ e.1 ≤ last
  distinct : (sessions.map (·.1)).Nodup

namespace Table

variable {F D : Type}

def empty : Table F D := ⟨[], 0, nofun, List.nodup_nil⟩

def insert (table : Table F D) (session : AnySession F D) : Nat × Table F D where
  fst := table.last + 1
  snd.sessions := table.sessions ++ [(table.last + 1, session)]
  snd.last := table.last + 1
  snd.given e listed := by
    rcases List.mem_append.mp listed with old | new
    · exact ⟨(table.given e old).1, Nat.le_succ_of_le (table.given e old).2⟩
    · rw [List.mem_singleton.mp new]
      exact ⟨Nat.succ_pos _, Nat.le_refl _⟩
  snd.distinct := by
    rw [List.map_append, List.nodup_append]
    refine ⟨table.distinct, by simp, fun handle old other new => ?_⟩
    obtain ⟨e, listed, rfl⟩ := List.mem_map.mp old
    rw [List.map_singleton, List.mem_singleton] at new
    exact new ▸ Nat.ne_of_lt (Nat.lt_succ_of_le (table.given e listed).2)

def find? (table : Table F D) (handle : Nat) : Option (AnySession F D) :=
  (table.sessions.find? (·.1 == handle)).map (·.2)

theorem find?_eq_none (table : Table F D) {handle : Nat} (free : handle = 0 ∨ table.last < handle) :
    table.find? handle = none := by
  rw [find?, Option.map_eq_none_iff, List.find?_eq_none]
  intro e listed same
  obtain ⟨positive, bound⟩ := table.given e listed
  rw [beq_iff_eq.mp same] at positive bound
  omega

theorem find?_insert_self (table : Table F D) (session : AnySession F D) :
    (table.insert session).2.find? (table.insert session).1 = some session := by
  have free := table.find?_eq_none (.inr (Nat.lt_succ_self table.last))
  rw [find?, Option.map_eq_none_iff] at free
  simp [insert, find?, free]

theorem find?_insert_of_ne (table : Table F D) (session : AnySession F D) {handle : Nat}
    (other : handle ≠ (table.insert session).1) :
    (table.insert session).2.find? handle = table.find? handle := by
  have apart : table.last + 1 ≠ handle := Ne.symm other
  simp [insert, find?, apart]

def lookup (table : Table F D) (handle : Nat) : Except Error (AnySession F D) :=
  match table.find? handle with
  | some session => .ok session
  | none => .error .invalidArgument

def update (table : Table F D) (handle : Nat) (session : AnySession F D) : Table F D where
  sessions := table.sessions.map fun e => (e.1, if e.1 == handle then session else e.2)
  last := table.last
  given e listed := by
    obtain ⟨old, before, rfl⟩ := List.mem_map.mp listed
    exact table.given old before
  distinct := by
    rw [List.map_map]
    exact table.distinct

theorem find?_update (table : Table F D) (handle other : Nat) (session : AnySession F D) :
    (table.update handle session).find? other =
      if other = handle then (table.find? handle).map fun _ => session else table.find? other := by
  have found : (table.update handle session).find? other =
      ((table.sessions.find? (·.1 == other)).map fun e => (e.1, if e.1 == handle then session else e.2)).map (·.2) := by
    rw [find?, update, List.find?_map]
    rfl
  rw [found, find?, find?]
  cases first : table.sessions.find? (·.1 == other) with
  | none =>
    split
    · rename_i same
      rw [← same, first]
      rfl
    · rfl
  | some e =>
    obtain rfl : e.1 = other := by simpa using List.find?_some first
    split
    · rename_i here
      simp [← here, first]
    · rename_i apart
      simp [apart]

theorem find?_update_self {table : Table F D} {handle : Nat} {old : AnySession F D}
    (taken : table.find? handle = some old) (session : AnySession F D) :
    (table.update handle session).find? handle = some session := by
  rw [find?_update, if_pos rfl, taken, Option.map_some]

theorem find?_update_of_ne (table : Table F D) {handle other : Nat} (session : AnySession F D)
    (apart : other ≠ handle) : (table.update handle session).find? other = table.find? other := by
  rw [find?_update, if_neg apart]

def erase (table : Table F D) (handle : Nat) : Table F D where
  sessions := table.sessions.filter (·.1 != handle)
  last := table.last
  given e listed := table.given e (List.mem_filter.mp listed).1
  distinct := table.distinct.sublist (List.filter_sublist.map _)

def close (table : Table F D) (handle : Nat) : Except Error (AnySession F D × Table F D) :=
  match table.find? handle with
  | some session => .ok (session, table.erase handle)
  | none => .error .invalidArgument

def count (table : Table F D) : Nat := table.sessions.length

/-- A session of the kind that is asked for; any other kind is an invalid argument. -/
def typed {α : Type} (select : AnySession F D → Option α) (table : Table F D) (handle : Nat) :
    Except Error α :=
  match table.find? handle with
  | none => .error .invalidArgument
  | some session =>
    match select session with
    | some inner => .ok inner
    | none => .error .invalidArgument

def fileSystem (table : Table F D) (handle : Nat) : Except Error (FileSystem D) :=
  table.typed (fun | .fileSystem fs => some fs | _ => none) handle

def file (table : Table F D) (handle : Nat) : Except Error (OpenFile F) :=
  table.typed (fun | .file file => some file | _ => none) handle

def directory (table : Table F D) (handle : Nat) : Except Error Listing :=
  table.typed (fun | .directory listing => some listing | _ => none) handle

def storage (table : Table F D) (handle : Nat) : Except Error (Storage F) :=
  table.typed (fun | .storage storage => some storage | _ => none) handle

def saveInfoReader (table : Table F D) (handle : Nat) : Except Error SaveInfoReader :=
  table.typed (fun | .saveInfoReader reader => some reader | _ => none) handle

def eventNotifier (table : Table F D) (handle : Nat) : Except Error Detection :=
  table.typed (fun | .eventNotifier event => some event | _ => none) handle

end Table

end GuestStorage.Session
