import GuestStorage.Proofs.Host.Requests

namespace GuestStorage.Host

open GuestStorage.Tree Session Disk

variable {root : Root} {place : Location} {disk other : Disk}

structure Lookalike (root : Root) (place : Location) (disk other : Disk) : Prop
    extends Twins root place place disk other where
  sameKind : ∀ there, SameKind (disk.find? there) (other.find? there)

theorem Lookalike.keeps (alike : Lookalike root place disk other) {after after' : Disk}
    (kept : Alike Keeps place place disk other after after') : Lookalike root place after after' := by
  have twins := alike.toTwins.keeps kept
  refine ⟨twins, fun there => ?_⟩
  by_cases below : Below place there
  · obtain ⟨names, rfl⟩ := below.1
    exact .inl (twins.same names).symm
  · rw [kept.left.find? below, kept.right.find? below]
    exact alike.sameKind there

/-- A path leads, through whatever links, to a file outside a place. -/
def Leaves (disk : Disk) (place file : Location) : Prop :=
  ∃ there bytes, disk.resolve file = .ok there ∧ ¬ place <+: there ∧ disk.find? there = some (.file bytes)

theorem Lookalike.tame (alike : Lookalike root place disk other) {file : Location}
    (stays : ¬ Leaves disk place file) : Tame place place disk other file := by
  have also := resolve_of_sameKind alike.sameKind file
  cases reached : disk.resolve file with
  | error why => exact .lost why reached (also.trans reached)
  | ok there =>
  by_cases inside : place <+: there
  · obtain ⟨names, rfl⟩ := inside
    exact .inside names reached (also.trans reached) (alike.same names)
  · have noFile : ∀ bytes, disk.find? there ≠ some (.file bytes) := fun bytes found =>
      stays ⟨there, bytes, reached, inside, found⟩
    rcases alike.sameKind there with same | ⟨bytes, _, found, _⟩
    · exact .outside there there reached (also.trans reached) same.symm noFile
    · exact absurd found (noFile bytes)

theorem stays_of_plain (rooted : disk.Rooted root place) {names : List String}
    (plain : disk.Plain place names) : ¬ Leaves disk place (root.path ++ names) := by
  intro leaves
  obtain ⟨there, bytes, reached, outside, _⟩ := leaves
  rw [rooted.resolve_append plain] at reached
  rw [walk_eq_ok plain reached] at outside
  exact outside (List.prefix_append _ _)

def LeavesBy (client : HostClient) (place : Location) (request : Request) : Prop :=
  ∃ handle inner opened, request = .file handle inner ∧ client.table.file handle = .ok opened ∧
    Leaves client.storage place opened.file.node.path

theorem Lookalike.tameFor {client : HostClient} (alike : Lookalike root place client.storage other)
    {request : Request} (stays : ¬ LeavesBy client place request) : TameFor place place client other request :=
  fun handle call opened same found => alike.tame fun leaves => stays ⟨handle, call, opened, same, found, leaves⟩

def Entry.withBytes (bytes : Bytes) : Entry → Entry
  | .file _ => .file bytes
  | entry => entry

def Disk.redact (disk : Disk) (place : Location) (bytes : Location → Bytes) : Disk :=
  ⟨disk.entries.map fun e => (e.1, if place <+: e.1 then e.2 else e.2.withBytes (bytes e.1))⟩

section Redact

variable (bytes : Location → Bytes)

theorem find?_redact (disk : Disk) (place there : Location) :
    (disk.redact place bytes).find? there =
      (disk.find? there).map fun entry =>
        if place <+: there then entry else entry.withBytes (bytes there) := by
  by_cases top : there = []
  · rw [top, Disk.find?, Disk.find?, Option.map_some]
    split <;> rfl
  · rw [find?_eq _ top, find?_eq _ top, redact, Keyed.lookup, Keyed.lookup, List.find?_map]
    cases found : disk.entries.find? (·.1 == there) with
    | none =>
      have same : disk.entries.find? ((fun e : Location × Entry => e.1 == there) ∘ fun e =>
        (e.1, if place <+: e.1 then e.2 else e.2.withBytes (bytes e.1))) = none := found
      rw [same]
      rfl
    | some e =>
      have same : disk.entries.find? ((fun e : Location × Entry => e.1 == there) ∘ fun e =>
        (e.1, if place <+: e.1 then e.2 else e.2.withBytes (bytes e.1))) = some e := found
      have here := List.find?_some found
      rw [beq_iff_eq] at here
      rw [same, ← here]
      rfl

theorem sameKind_redact (disk : Disk) (place there : Location) :
    SameKind (disk.find? there) ((disk.redact place bytes).find? there) := by
  rw [find?_redact]
  cases found : disk.find? there with
  | none => exact .inl rfl
  | some entry =>
    by_cases inside : place <+: there
    · left
      simp [inside]
    · cases entry with
      | directory => exact .inl (by simp [inside, Entry.withBytes])
      | link => exact .inl (by simp [inside, Entry.withBytes])
      | file old => exact .inr ⟨old, bytes there, rfl, by simp [inside, Entry.withBytes]⟩

theorem directory_redact (disk : Disk) (place : Location) {there : Location}
    (found : disk.find? there = some .directory) :
    (disk.redact place bytes).find? there = some .directory := by
  rcases sameKind_redact bytes disk place there with same | ⟨old, _, file, _⟩
  · rw [← same, found]
  · rw [found] at file
    cases file

theorem redact_sound (sound : disk.Sound) (place : Location) : (disk.redact place bytes).Sound := by
  have origin : ∀ e ∈ (disk.redact place bytes).entries, ∃ e' ∈ disk.entries, e'.1 = e.1 := by
    intro e listed
    obtain ⟨e', old, rfl⟩ := List.mem_map.mp listed
    exact ⟨e', old, rfl⟩
  refine ⟨?_, ?_, ?_, ?_⟩
  · have places : (disk.redact place bytes).entries.map (·.1) = disk.entries.map (·.1) := by
      rw [redact, List.map_map]
      rfl
    rw [places]
    exact sound.places_nodup
  · intro e listed
    obtain ⟨e', old, same⟩ := origin e listed
    exact same ▸ sound.below_top e' old
  · intro e listed
    obtain ⟨e', old, same⟩ := origin e listed
    exact directory_redact bytes disk place (same ▸ sound.held e' old)
  · intro e listed
    obtain ⟨e', old, same⟩ := origin e listed
    exact same ▸ sound.proper e' old

theorem find?_redact_inside (disk : Disk) (place : Location) (names : List String) :
    (disk.redact place bytes).find? (place ++ names) = disk.find? (place ++ names) := by
  rw [find?_redact]
  simp only [List.prefix_append, if_true, Option.map_id_fun', id]

theorem around_redact (disk : Disk) (place : Location) :
    (disk.redact place bytes).around place = (disk.around place).redact place bytes := by
  rw [around, redact, around, redact, mk.injEq]
  apply filter_map_of_respects fun p => ¬ Below place p
  exact fun _ => rfl

theorem lookalike_redact (rooted : disk.Rooted root place) :
    Lookalike root place disk (disk.redact place bytes) := by
  have leads : ((disk.redact place bytes).around place).resolve root = .ok place := by
    rw [around_redact, resolve_of_sameKind (sameKind_redact bytes (disk.around place) place)]
    exact rooted.leads
  have right : (disk.redact place bytes).Rooted root place :=
    ⟨redact_sound bytes rooted.sound place, leads, directory_redact bytes disk place rooted.directory⟩
  exact ⟨.of_same rooted right (find?_redact_inside bytes disk place), sameKind_redact bytes disk place⟩

end Redact

/-- No request of a run is made on a file whose path leads out of the root by then. -/
def Careful (place : Location) : HostClient → List Request → Prop
  | _, [] => True
  | client, request :: rest =>
    ¬ LeavesBy client place request ∧ Careful place (client.step request).2 rest

theorem careful_concat (client : HostClient) (requests : List Request) (last : Request) :
    Careful place client (requests ++ [last]) ↔
      Careful place client requests ∧ ¬ LeavesBy (client.run requests).2 place last := by
  induction requests generalizing client with
  | nil => simp [Careful, Client.run]
  | cons request rest ih => simp only [List.cons_append, Careful, Client.run, ih, and_assoc]

theorem RunAgree.lookalike {left right : List Client.Answer × HostClient}
    (agree : RunAgree root place place disk other left right) (start : Lookalike root place disk other) :
    Lookalike root place left.2.storage right.2.storage :=
  start.keeps ⟨agree.twins.same, agree.left, agree.right⟩

theorem run_agree_of_careful {client : HostClient} {requests : List Request}
    (on : client.table.All (·.IsOn root)) (alike : Lookalike root place client.storage other)
    (careful : Careful place client requests) :
    RunAgree root place place client.storage other (client.run requests)
      (Client.run { client with storage := other } requests) := by
  refine run_agree (fun client other requests => Lookalike root place client.storage other ∧
    Careful place client requests) ?_ ?_ on alike.toTwins ⟨alike, careful⟩
  · exact fun _ _ start => start.1.tameFor start.2.1
  · exact fun _ _ start agree => ⟨start.1.keeps agree.alike, start.2.2⟩

/-- The session's file, if it is one, was reached by plain names on which no link stands by now. -/
def IsPlain (disk : Disk) (root : Root) (place : Location) : AnySession FileNode DirectoryNode → Prop
  | .file opened => FilePlaced disk root place opened.file
  | .fileSystem _ | .storage _ | .directory _ | .saveInfoReader _ | .eventNotifier _ => True

theorem IsPlain.calm {session : AnySession FileNode DirectoryNode} {after : Disk}
    (plain : IsPlain disk root place session) (calm : Calm place disk after) :
    IsPlain after root place session := by
  cases session with
  | file opened => exact FilePlaced.calm plain calm
  | fileSystem | storage | directory | saveInfoReader | eventNotifier => trivial

theorem careful_of_calm {client : HostClient} {requests : List Request}
    (rooted : client.storage.Rooted root place) (on : client.table.All (·.IsOn root))
    (plain : client.table.All (IsPlain client.storage root place))
    (calm : ∀ request ∈ requests, request.renamesDirectory = false) :
    Careful place client requests := by
  induction requests generalizing client with
  | nil => trivial
  | cons request rest ih =>
    have stays : ¬ LeavesBy client place request := by
      intro leaves
      obtain ⟨handle, inner, opened, _, found, leads⟩ := leaves
      obtain ⟨names, name, node, here⟩ := plain _ _ (Table.find?_of_file found)
      rw [node] at leads
      exact stays_of_plain rooted here leads
    have own : Lookalike root place client.storage client.storage :=
      ⟨.of_same rooted rooted fun _ => rfl, fun _ => .inl rfl⟩
    have still := (step_agree_calm on own.toTwins (calm request List.mem_cons_self) (own.tameFor stays)).alike.left
    refine ⟨stays, ih (rooted.keeps still.toKeeps) (isOn_step on request) ?_
      fun later among => calm later (List.mem_cons_of_mem request among)⟩
    have kept : client.table.All (IsPlain (client.step request).2.storage root place) :=
      fun handle session found => (plain handle session found).calm still
    refine Client.all_step kept (fun _ => trivial) (fun _ => trivial) ?_
    intro handle fs text mode opened _ found reached
    have placed := placed_of_fileSystem on place found
    exact ((session_openFile_eq own.toMirrors placed text mode).2 opened reached).calm still

def mounted (disk : Disk) (root : Root) (space : SpaceReport) : HostClient :=
  ((Client.start disk).insert (.fileSystem ⟨⟨.direct ⟨root, root⟩⟩, space⟩)).2

theorem mounted_isOn (disk : Disk) (root : Root) (space : SpaceReport) :
    (mounted disk root space).table.All (·.IsOn root) :=
  Table.All.insert Table.All.empty rfl

/-- Whatever the files outside a place hold, a run has the same answers, and it changes nothing there. -/
structure Confined (disk : Disk) (root : Root) (place : Location) (space : SpaceReport)
    (requests : List Request) : Prop where
  untouched : ∀ there, ¬ place <+: there →
    ((mounted disk root space).run requests).2.storage.find? there = disk.find? there
  blind : ∀ bytes, ((mounted (disk.redact place bytes) root space).run requests).1 =
    ((mounted disk root space).run requests).1

section Mounted

variable (rooted : disk.Rooted root place) {space : SpaceReport} {requests : List Request}
include rooted

theorem run_redacted (careful : Careful place (mounted disk root space) requests)
    (bytes : Location → Bytes) :
    RunAgree root place place disk (disk.redact place bytes) ((mounted disk root space).run requests)
      ((mounted (disk.redact place bytes) root space).run requests) :=
  run_agree_of_careful (mounted_isOn disk root space) (lookalike_redact bytes rooted) careful

theorem confined_of_careful (careful : Careful place (mounted disk root space) requests) :
    Confined disk root place space requests := by
  refine ⟨fun there outside => ?_, fun bytes => (run_redacted rooted careful bytes).answers⟩
  have apart : ¬ Below place there := fun below => outside below.1
  exact (run_redacted rooted careful fun _ => []).left.find? apart

omit rooted in
theorem getSize_step {client : HostClient} {handle : Nat} {opened : OpenFile FileNode}
    (found : client.table.file handle = .ok opened) :
    (client.step (.file handle .getSize)).1 = .ok (.size (opened.size client.storage)) := by
  simp only [Client.step, found, Client.withSession, Client.file]

theorem careful_of_confined (confined : ∀ requests, Confined disk root place space requests)
    (requests : List Request) : Careful place (mounted disk root space) requests := by
  induction requests using List.reverseRecOn with
  | nil => trivial
  | append_singleton front last ih =>
    refine (careful_concat _ front last).mpr ⟨ih, fun leaves => ?_⟩
    obtain ⟨handle, inner, opened, _, found, there, secret, reached, outside, held⟩ := leaves
    -- outside, every file is a byte longer than the one that the path leads to
    have agree := run_redacted rooted ih fun _ => 0 :: secret
    have told := (confined (front ++ [.file handle .getSize])).blind fun _ => 0 :: secret
    have found' := (congrArg (Table.file · handle) agree.table).trans found
    rw [Client.run_concat, Client.run_concat, getSize_step found, getSize_step found'] at told
    have sizes := List.append_inj_right' told rfl
    simp only [List.cons.injEq, Except.ok.injEq, Reply.size.injEq, and_true] at sizes
    have apart : ¬ Below place there := fun below => outside below.1
    have before := agree.left.find? apart
    have before' := agree.right.find? apart
    have reached' := resolve_of_sameKind (agree.lookalike (lookalike_redact _ rooted)).sameKind opened.file.node.path
    rw [held] at before
    rw [find?_redact, ← before, Option.map_some, if_neg outside] at before'
    -- the host takes the path, as it did when the file was opened
    have admitted : opened.file.node.root.admits opened.file.node.path = true :=
      isOn_run (mounted_isOn disk root space) front _ _ (Table.find?_of_file found)
    have short : opened.size ((mounted disk root space).run front).2.storage = secret.length := by
      simp only [OpenFile.size, FileView.size, Backing.fileSize, FileNode.size, Root.targetAt?, admitted, if_true,
        targetAt?, reached, held]
    have long : opened.size
        ((mounted (disk.redact place fun _ => 0 :: secret) root space).run front).2.storage =
          secret.length + 1 := by
      simp only [OpenFile.size, FileView.size, Backing.fileSize, FileNode.size, Root.targetAt?, admitted, if_true,
        targetAt?, reached', reached, before', Entry.withBytes, List.length_cons]
    omega

end Mounted

/-- A mount on a host's root is confined in every run that makes no request on a file whose path has come
    to lead out; only where directories get other names can one come to do so; and the mount is confined in
    all runs exactly when that never happens. -/
theorem mount_confined_iff (disk : Disk) (root : Root) (place : Location) (rooted : disk.Rooted root place)
    (space : SpaceReport) :
    (∀ requests, Careful place (mounted disk root space) requests →
      Confined disk root place space requests) ∧
    (∀ requests, (∀ request ∈ requests, request.renamesDirectory = false) →
      Careful place (mounted disk root space) requests) ∧
    ((∀ requests, Confined disk root place space requests) ↔
      ∀ requests, Careful place (mounted disk root space) requests) := by
  refine ⟨fun _ => confined_of_careful rooted, fun _ calm => ?_, careful_of_confined rooted,
    fun careful requests => confined_of_careful rooted (careful requests)⟩
  exact careful_of_calm rooted (mounted_isOn disk root space) (Table.All.insert Table.All.empty trivial) calm

def linkedHost : Disk :=
  ⟨[(["root"], .directory), (["root", "a"], .directory), (["root", "a", "f"], .file [105]),
    (["root", "b"], .directory), (["root", "b", "f"], .link "../../outside/secret"),
    (["outside"], .directory), (["outside", "secret"], .file [115, 101])]⟩

def swap : List Request :=
  [.path 1 (.openFile "a/f" 1), .path 1 (.renameDirectory "a" "c"), .path 1 (.renameDirectory "b" "a")]

theorem linkedHost_sound : linkedHost.Sound := by
  refine ⟨?_, ?_, ?_, ?_⟩ <;> decide +kernel

def linkedRoot : Root := ⟨["root"], 4095, 1000⟩

theorem linkedHost_rooted : linkedHost.Rooted linkedRoot ["root"] := by
  refine ⟨linkedHost_sound, ?_, ?_⟩ <;> decide +kernel

theorem linkedHost_not_confined :
    linkedHost.Rooted linkedRoot ["root"] ∧
      ((mounted linkedHost linkedRoot ⟨.gameCard, 0, 0⟩).run (swap ++ [.file 2 (.read 0 64 64)])).1.getLast? =
        some (.ok (.data [115, 101])) ∧
      ¬ ∀ requests, Confined linkedHost linkedRoot ["root"] ⟨.gameCard, 0, 0⟩ requests := by
  refine ⟨linkedHost_rooted, by decide +kernel, fun all => ?_⟩
  have careful := (mount_confined_iff linkedHost linkedRoot ["root"] linkedHost_rooted _).2.2.mp all
    (swap ++ [.file 2 (.read 0 64 64)])
  apply ((careful_concat _ _ _).mp careful).2
  exact ⟨2, _, ⟨.direct ⟨linkedRoot, ["root", "a", "f"]⟩, .read⟩, rfl, by decide +kernel,
    ["outside", "secret"], [115, 101], by decide +kernel, by decide +kernel, by decide +kernel⟩

end GuestStorage.Host
