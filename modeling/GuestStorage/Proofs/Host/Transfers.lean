import GuestStorage.Memory.Store
import GuestStorage.Proofs.Host.Twins
import GuestStorage.Proofs.Memory.Effects

namespace GuestStorage

namespace Bytes

/-- Replaces bytes as `overwrite` does, except that where there is nothing to write nothing is changed. -/
def patch (bytes : Bytes) (start : Nat) (data : Bytes) : Bytes :=
  if data = [] then bytes else bytes.overwrite start data

theorem overwrite_nil (bytes : Bytes) (start : Nat) :
    bytes.overwrite start [] = if start ≤ bytes.length then bytes else bytes.resize start := by
  rw [overwrite, List.append_nil, List.length_nil, Nat.add_zero]
  split
  · rename_i within
    have nothing : start - bytes.length = 0 := by omega
    rw [resize, nothing, zeros, List.replicate_zero, List.append_nil, List.take_append_drop]
  · rename_i past
    rw [List.drop_of_length_le (by omega), List.append_nil]

theorem overwrite_nil_eq_self_iff {bytes : Bytes} {start : Nat} :
    bytes.overwrite start [] = bytes ↔ start ≤ bytes.length := by
  rw [overwrite_nil]
  refine ⟨fun same => ?_, fun within => if_pos within⟩
  by_contra past
  rw [if_neg past] at same
  have longer := congrArg List.length same
  rw [length_resize] at longer
  omega

end Bytes

namespace Tree

/-- What is asked of the contents of a file. -/
inductive Transfer where
  | read (offset length : Nat)
  | write (offset : Nat) (data : Bytes)
  | resize (size : Nat)
  deriving DecidableEq

namespace Transfer

inductive Answer where
  | bytes (data : Bytes)
  | count (written : Nat)
  | done (resized : Bool)
  deriving DecidableEq

/-- What is seen of a file at a call: the answer, and then its size and all its bytes. -/
structure Sight where
  answer : Answer
  size : Nat
  contents : Bytes
  deriving DecidableEq

def reach : Transfer → Nat
  | .read _ _ => 0
  | .write offset data => offset + data.length
  | .resize size => size

/-- A host with such a limit on files and the memory both have room for what is transferred. -/
def Fits (fileLimit : Nat) (call : Transfer) : Prop := call.reach ≤ fileLimit ∧ call.reach < Memory.Store.endLimit

instance (fileLimit : Nat) : DecidablePred (Fits fileLimit) := fun _ => inferInstanceAs (Decidable (_ ∧ _))

def answer (bytes : Bytes) : Transfer → Answer
  | .read offset length => .bytes (bytes.slice offset length)
  | .write _ data => .count data.length
  | .resize _ => .done true

def after (put : Bytes → Nat → Bytes → Bytes) (bytes : Bytes) : Transfer → Bytes
  | .read _ _ => bytes
  | .write offset data => put bytes offset data
  | .resize size => bytes.resize size

def replay (put : Bytes → Nat → Bytes → Bytes) : List Transfer → Bytes → List Sight
  | [], _ => []
  | call :: rest, bytes =>
    let bytes' := call.after put bytes
    ⟨call.answer bytes, bytes'.length, bytes'⟩ :: replay put rest bytes'

end Transfer

namespace FileView

variable {σ F D : Type} [Backing σ F D]

def transfer (s : σ) (file : FileView F) : Transfer → Transfer.Answer × σ
  | .read offset length => (.bytes (file.read s offset length), s)
  | .write offset data => ((file.write s offset data).map .count id)
  | .resize size => ((file.resize s size).map .done id)

def watch (file : FileView F) : List Transfer → σ → List Transfer.Sight
  | [], _ => []
  | call :: rest, s =>
    let (answer, s) := file.transfer s call
    ⟨answer, file.size s, file.readAll s⟩ :: watch file rest s

end FileView

open FileView Transfer

variable {σ F D : Type} [Backing σ F D]

theorem watch_eq_replay {put : Bytes → Nat → Bytes → Bytes} {fileLimit : Nat} (holds : σ → Bytes → Prop)
    (file : FileView F)
    (seen : ∀ s bytes, holds s bytes → file.size s = bytes.length ∧ file.readAll s = bytes)
    (step : ∀ s bytes call, holds s bytes → call.Fits fileLimit → ∃ s', file.transfer s call = (call.answer bytes, s') ∧
      holds s' (call.after put bytes))
    (calls : List Transfer) (fits : ∀ call ∈ calls, call.Fits fileLimit) {s : σ} {bytes : Bytes}
    (start : holds s bytes) :
    file.watch calls s = replay put calls bytes := by
  induction calls generalizing s bytes with
  | nil => rfl
  | cons call rest ih =>
    obtain ⟨s', answered, further⟩ := step s bytes call start (fits call List.mem_cons_self)
    obtain ⟨size, contents⟩ := seen s' _ further
    rw [watch, replay, answered]
    simp only [size, contents, ih (fun other among => fits other (List.mem_cons_of_mem call among)) further]

namespace Transfer

/-- No empty write of a run starts past the end of the bytes there are then. -/
def Inside (calls : List Transfer) (bytes : Bytes) : Prop :=
  ∀ early offset late, calls = early ++ .write offset [] :: late →
    offset ≤ (early.foldl (Transfer.after Bytes.patch) bytes).length

@[simp] theorem inside_nil (bytes : Bytes) : Inside [] bytes := by simp [Inside]

theorem inside_cons {call : Transfer} {rest : List Transfer} {bytes : Bytes} :
    Inside (call :: rest) bytes ↔
      (∀ offset, call = .write offset [] → offset ≤ bytes.length) ∧ Inside rest (call.after Bytes.patch bytes) := by
  constructor
  · intro inside
    refine ⟨fun offset same => inside [] offset rest (by rw [same]; rfl), fun early offset late parts => ?_⟩
    exact inside (call :: early) offset late (by rw [parts]; rfl)
  · rintro ⟨first, others⟩ early offset late parts
    cases early with
    | nil => exact first offset (List.cons.inj parts).1
    | cons head early =>
      obtain ⟨rfl, tail⟩ := List.cons.inj parts
      exact others early offset late tail

theorem after_eq_iff {call : Transfer} {bytes : Bytes} :
    call.after Bytes.overwrite bytes = call.after Bytes.patch bytes ↔
      ∀ offset, call = .write offset [] → offset ≤ bytes.length := by
  cases call with
  | read | resize => simp [Transfer.after]
  | write offset data =>
    by_cases empty : data = []
    · subst empty
      simp [Transfer.after, Bytes.patch, Bytes.overwrite_nil_eq_self_iff]
    · simp [Transfer.after, Bytes.patch, empty]

theorem replay_eq_iff (calls : List Transfer) (bytes : Bytes) :
    replay Bytes.overwrite calls bytes = replay Bytes.patch calls bytes ↔ Inside calls bytes := by
  induction calls generalizing bytes with
  | nil => simp [replay]
  | cons call rest ih =>
    rw [inside_cons, ← after_eq_iff, ← ih]
    simp only [replay, List.cons.injEq, Sight.mk.injEq, true_and]
    constructor
    · rintro ⟨⟨-, same⟩, others⟩
      exact ⟨same, same ▸ others⟩
    · rintro ⟨same, others⟩
      exact ⟨⟨congrArg List.length same, same⟩, same.symm ▸ others⟩

end Transfer

end Tree

open GuestStorage.Tree

namespace Host.Disk

variable {disk : Disk} {root : Root} {path : Location} {bytes : Bytes}

/-- A path that the host takes leads to a file with some bytes, through links or not. -/
def LeadsToFile (disk : Disk) (root : Root) (path : Location) (bytes : Bytes) : Prop :=
  root.admits path = true ∧ ∃ place, disk.resolve path = .ok place ∧ disk.find? place = some (.file bytes)

theorem LeadsToFile.changeFile (leads : disk.LeadsToFile root path bytes) (change : Bytes → Bytes) :
    ∃ after, root.handing path (disk.changeFile path change) = .ok after ∧
      after.LeadsToFile root path (change bytes) := by
  obtain ⟨admitted, place, resolved, found⟩ := leads
  refine ⟨disk.filled place (change bytes), ?_, admitted, place, ?_, ?_⟩
  · rw [Root.handing_of_admits admitted]
    simp only [Disk.changeFile, resolved, found, filled]
  · exact (resolve_of_sameKind (sameKind_filled found _) path).trans resolved
  · rw [find?_filled found, if_pos rfl]

theorem LeadsToFile.size (leads : disk.LeadsToFile root path bytes) :
    (FileView.direct (FileNode.mk root path)).size disk = bytes.length := by
  obtain ⟨admitted, place, resolved, found⟩ := leads
  simp only [FileView.size, FileView.direct, Backing.fileSize, FileNode.size, Root.targetAt?, admitted, if_true,
    targetAt?, resolved, found]

theorem LeadsToFile.read (leads : disk.LeadsToFile root path bytes) (offset length : Nat) :
    (FileView.direct (FileNode.mk root path)).read disk offset length = bytes.slice offset length := by
  obtain ⟨admitted, place, resolved, found⟩ := leads
  simp only [FileView.read, FileView.direct, Backing.read, FileNode.read, Root.handing_of_admits admitted, readFile,
    resolved, found]

theorem LeadsToFile.transfer (leads : disk.LeadsToFile root path bytes) {call : Transfer}
    (fits : call.Fits root.fileLimit) : ∃ after,
      (FileView.direct (FileNode.mk root path)).transfer disk call = (call.answer bytes, after) ∧
        after.LeadsToFile root path (call.after Bytes.patch bytes) := by
  cases call with
  | read offset length =>
    refine ⟨disk, ?_, leads⟩
    rw [FileView.transfer, leads.read]
    rfl
  | write offset data =>
    by_cases empty : data = []
    · subst empty
      exact ⟨disk, rfl, by simpa [Transfer.after, Bytes.patch] using leads⟩
    · obtain ⟨after, changed, further⟩ := leads.changeFile (·.overwrite offset data)
      refine ⟨after, ?_, by simpa [Transfer.after, Bytes.patch, empty] using further⟩
      have some_ : data.isEmpty = false := by simpa using empty
      have room : ¬ root.fileLimit < offset + data.length := Nat.not_lt.mpr fits.1
      simp [FileView.transfer, FileView.write, FileView.direct, Backing.write, FileNode.write, some_, room, changed,
        Transfer.answer]
  | resize size =>
    obtain ⟨after, changed, further⟩ := leads.changeFile (·.resize size)
    refine ⟨after, ?_, further⟩
    have room : ¬ root.fileLimit < size := Nat.not_lt.mpr fits.1
    simp [FileView.transfer, FileView.resize, FileView.direct, Backing.resize, FileNode.resize, room, changed,
      Transfer.answer]

theorem LeadsToFile.watch (leads : disk.LeadsToFile root path bytes) {calls : List Transfer}
    (fits : ∀ call ∈ calls, call.Fits root.fileLimit) :
    (FileView.direct (FileNode.mk root path)).watch calls disk = Transfer.replay Bytes.patch calls bytes := by
  refine watch_eq_replay (fun disk bytes => disk.LeadsToFile root path bytes) _ (fun disk bytes leads => ?_)
    (fun disk bytes call leads fits => leads.transfer fits) calls fits leads
  refine ⟨leads.size, ?_⟩
  rw [FileView.readAll, leads.size, leads.read, Bytes.slice, List.drop_zero, List.take_length]

end Host.Disk

namespace Memory.Store

variable {s : Store} {file : FileId} {bytes : Bytes} {fileLimit : Nat}

def Holds (s : Store) (file : FileId) (bytes : Bytes) : Prop :=
  s.fileWritable file = true ∧ s.fileBytes file = bytes

theorem Holds.filled (holds : s.Holds file bytes) (change : Bytes → Bytes) :
    (s.modifyFile file fun node => { node with bytes := change node.bytes }).Holds file (change bytes) := by
  obtain ⟨writable, rfl⟩ := holds
  have effect := modifyFile_fills s file change
  have held : (s.fileNode? file).isSome := by
    cases node : s.fileNode? file with
    | none => simp [fileWritable, node] at writable
    | some => rfl
  exact ⟨(effect.fileWritable file).trans writable, by rw [effect.fileBytes held, if_pos rfl]⟩

theorem Holds.transfer (holds : s.Holds file bytes) {call : Transfer} (fits : call.Fits fileLimit) : ∃ after,
    (FileView.direct file).transfer s call = (call.answer bytes, after) ∧
      after.Holds file (call.after Bytes.overwrite bytes) := by
  obtain ⟨writable, contents⟩ := id holds
  cases call with
  | read offset length =>
    refine ⟨s, ?_, holds⟩
    simp [FileView.transfer, FileView.read, FileView.direct, Backing.read, Store.read, contents, Transfer.answer]
  | write offset data =>
    have short : offset + data.length < endLimit := fits.2
    refine ⟨_, ?_, holds.filled (·.overwrite offset data)⟩
    simp [FileView.transfer, FileView.write, FileView.direct, Backing.write, Store.write, writable, short,
      Transfer.answer]
  | resize size =>
    refine ⟨_, ?_, holds.filled (·.resize size)⟩
    simp [FileView.transfer, FileView.resize, FileView.direct, Backing.resize, Store.resize, writable,
      Transfer.answer]

theorem Holds.watch (holds : s.Holds file bytes) {calls : List Transfer}
    (fits : ∀ call ∈ calls, call.Fits fileLimit) :
    (FileView.direct file).watch calls s = Transfer.replay Bytes.overwrite calls bytes := by
  refine watch_eq_replay (fun s bytes => s.Holds file bytes) _ (fun s bytes holds => ?_)
    (fun s bytes call holds fits => holds.transfer fits) calls fits holds
  obtain ⟨-, rfl⟩ := holds
  refine ⟨rfl, ?_⟩
  simp [FileView.readAll, FileView.read, FileView.size, FileView.direct, Backing.read, Backing.fileSize, Store.read,
    Bytes.slice]

end Memory.Store

open Host.Disk Memory.Store

/-- A file on a host and a file in memory that accepts changes, with the same bytes at first, show the same at every
    call of a run exactly if no empty write in it starts past the end. In memory such a write answers as on the host
    that nothing was written, but the file grows up to where it starts. -/
theorem transfers_agree_iff (disk : Host.Disk) (root : Host.Root) (path : Host.Location) (s : Memory.Store)
    (file : Memory.FileId) (bytes : Bytes) (onHost : disk.LeadsToFile root path bytes) (inMemory : s.Holds file bytes)
    (calls : List Transfer) (fits : ∀ call ∈ calls, call.Fits root.fileLimit) :
    (FileView.direct (Host.FileNode.mk root path)).watch calls disk = Transfer.replay Bytes.patch calls bytes ∧
      (FileView.direct file).watch calls s = Transfer.replay Bytes.overwrite calls bytes ∧
      ((FileView.direct file).watch calls s = (FileView.direct (Host.FileNode.mk root path)).watch calls disk ↔
        Transfer.Inside calls bytes) := by
  have host := onHost.watch fits
  have memory := inMemory.watch fits
  exact ⟨host, memory, by rw [host, memory, Transfer.replay_eq_iff]⟩

def slateHost : Host.Disk := ⟨[(["r"], .directory), (["r", "f"], .file [7]), (["r", "l"], .link "f")]⟩

def slateRoot : Host.Root := ⟨["r"], 4095, 1000⟩

def slate : Memory.Store := (Memory.Store.empty.plant "root" false [.file "f" [7] false]).2

theorem slate_transfers :
    (FileView.direct (⟨0⟩ : Memory.FileId)).watch [.write 3 [1, 2], .resize 4, .write 4 [], .read 1 9] slate =
        (FileView.direct (Host.FileNode.mk slateRoot ["r", "l"])).watch
          [.write 3 [1, 2], .resize 4, .write 4 [], .read 1 9] slateHost ∧
      (FileView.direct (⟨0⟩ : Memory.FileId)).watch [.write 3 []] slate = [⟨.count 0, 3, [7, 0, 0]⟩] ∧
      (FileView.direct (Host.FileNode.mk slateRoot ["r", "l"])).watch [.write 3 []] slateHost = [⟨.count 0, 1, [7]⟩] := by
  have onHost : slateHost.LeadsToFile slateRoot ["r", "l"] [7] :=
    ⟨by decide +kernel, ["r", "f"], by decide +kernel, by decide +kernel⟩
  have inMemory : slate.Holds ⟨0⟩ [7] := ⟨by decide +kernel, by decide +kernel⟩
  have alike := transfers_agree_iff slateHost slateRoot ["r", "l"] slate ⟨0⟩ [7] onHost inMemory
  refine ⟨(alike _ (by decide)).2.2.mpr ?_, (alike _ (by decide)).2.1, (alike _ (by decide)).1⟩
  simp [Transfer.inside_cons, Transfer.after]

end GuestStorage
