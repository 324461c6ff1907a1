import GuestStorage.Memory.Store
import GuestStorage.Proofs.Keyed
import GuestStorage.Proofs.Projection.Queries

namespace GuestStorage.Tree

variable {σ F D : Type} [Backing σ F D] {s : σ}

/-- Something that is done with the nodes on a desk. -/
inductive Turn where
  /-- Calls a held node; a single node that the call yields can be held. -/
  | call (name : String) (call : Call) (keep : Option String)
  /-- Holds a file or directory that a held directory lists. -/
  | pickFile (name : String) (index : Nat) (keep : String)
  | pickDirectory (name : String) (index : Nat) (keep : String)
  /-- Lets go of what no name holds any more. -/
  | tidy
  deriving DecidableEq

namespace Desk

def entry? (desk : Desk σ F D) (name : String) (entries : DirectoryView D → List (AnyView F D)) (index : Nat) :
    Option (AnyView F D) :=
  match desk.view? name with
  | some (.directory dir) => (entries dir)[index]?
  | _ => none

def pick (desk : Desk σ F D) (keep : String) : Option (AnyView F D) → Desk σ F D
  | none => desk
  | some view => desk.holdNew keep view

def turn (desk : Desk σ F D) : Turn → Desk σ F D
  | .call name call keep => (desk.call name call keep).2
  | .pickFile name index keep =>
    desk.pick keep (desk.entry? name (fun dir => (dir.files desk.storage).map .file) index)
  | .pickDirectory name index keep =>
    desk.pick keep (desk.entry? name (fun dir => (dir.subdirectories desk.storage).map .directory) index)
  | .tidy => desk.tidy

def run (desk : Desk σ F D) (turns : List Turn) : Desk σ F D := turns.foldl turn desk

def ask (desk : Desk σ F D) (name : String) (query : Query) : Option (Answer F D) :=
  (desk.view? name).bind (·.ask desk.storage query)

def askBase (desk : Desk σ F D) (name : String) (query : Query) : Option (Answer F D) :=
  (desk.view? name).bind fun view => (view.node.view false).ask desk.storage query

def projects (desk : Desk σ F D) (name : String) : Bool := ((desk.held? name).map (·.readOnly)).getD false

def admits (desk : Desk σ F D) : Turn → Bool
  | .call name call _ => !call.isChange || !desk.projects name
  | _ => true

def discreet (desk : Desk σ F D) : List Turn → Bool
  | [] => true
  | turn :: rest => desk.admits turn && (desk.turn turn).discreet rest

end Desk

/-- One name on both desks: it holds the same node, projected on the second if it is so on the first. -/
structure Veils.Entry (plain veiled : String × Held) : Prop where
  name : veiled.1 = plain.1
  number : veiled.2.number = plain.2.number
  readOnly : plain.2.readOnly = true → veiled.2.readOnly = true

/-- Two desks with the same storage and the same nodes under the same names, some of them projected on the second. -/
structure Veils (bare desk : Desk σ F D) : Prop where
  storage : desk.storage = bare.storage
  ground : desk.ground = bare.ground
  nodes : desk.nodes = bare.nodes
  names : List.Forall₂ Veils.Entry bare.names desk.names

section Projecting

def AnyView.projectIf (projected : Bool) (view : AnyView F D) : AnyView F D := if projected then view.project else view

def Answer.projectIf (projected : Bool) (answer : Answer F D) : Answer F D :=
  if projected then answer.project else answer

def Yield.project : Yield F D → Yield F D
  | .found view => .found (view.map AnyView.project)
  | .renamed view => .renamed (view.map AnyView.project)
  | .listed views => .listed (views.map AnyView.project)
  | yield => yield

def Yield.projectIf (projected : Bool) (yield : Yield F D) : Yield F D := if projected then yield.project else yield

def AnyView.call? (s : σ) : AnyView F D → Call → Option (Yield F D × σ)
  | .file view, .file call => some (view.call s call)
  | .directory view, .directory call => some (view.call s call)
  | _, _ => none

omit [Backing σ F D] in
theorem foundFile_project (found : Option (FileView F)) :
    (foundFile (found.map FileView.project, s) : Yield F D × σ) = ((foundFile (found, s)).1.project, s) := by
  cases found <;> rfl

omit [Backing σ F D] in
theorem foundDirectory_project (found : Option (DirectoryView D)) :
    (foundDirectory (found.map DirectoryView.project, s) : Yield F D × σ) =
      ((foundDirectory (found, s)).1.project, s) := by
  cases found <;> rfl

theorem FileView.call_project (view : FileView F) {call : FileCall} (asks : call.isChange = false) :
    (view.project.call s call : Yield F D × σ) = ((view.call s call).1.project, (view.call s call).2) := by
  cases call with
  | info | read | readAll | project => rfl
  | parent =>
    simp only [FileView.call, parent?_project]
    cases view.parent? s <;> rfl
  | write | resize | rename => cases asks

theorem DirectoryView.call_project (view : DirectoryView D) {call : DirectoryCall} (asks : call.isChange = false) :
    view.project.call s call = ((view.call s call).1.project, (view.call s call).2) := by
  cases call with
  | info | project => rfl
  | files =>
    simp only [DirectoryView.call, files_project, Yield.project, List.map_map]
    rfl
  | subdirectories =>
    simp only [DirectoryView.call, subdirectories_project, Yield.project, List.map_map]
    rfl
  | file name =>
    rw [DirectoryView.call, file?_project, foundFile_project]
    rfl
  | fileAt path =>
    rw [DirectoryView.call, fileAt?_project, foundFile_project]
    rfl
  | fileFromTop path =>
    rw [DirectoryView.call, fileFromTop?_project, foundFile_project]
    rfl
  | subdirectory name =>
    rw [DirectoryView.call, subdirectory?_project, foundDirectory_project]
    rfl
  | directoryAt path =>
    rw [DirectoryView.call, DirectoryView.call]
    split
    · rfl
    · rw [directoryAt?_project, foundDirectory_project]
      rfl
  | directoryFromTop path =>
    rw [DirectoryView.call, directoryFromTop?_project, foundDirectory_project]
    rfl
  | parent =>
    simp only [DirectoryView.call, parent?_project]
    cases view.parent? s <;> rfl
  | createFile | createFileAt | createFileFromTop | createSubdirectory | createDirectoryAt | createDirectoryFromTop
  | deleteFile | deleteSubdirectory | deleteTree | cleanSubdirectory | rename | copyFile => cases asks

theorem AnyView.call?_projectIf (view : AnyView F D) {projected : Bool} {call : Call}
    (direct : call.isChange = true → projected = false) :
    (view.projectIf projected).call? s call =
      (view.call? s call).map fun step => (step.1.projectIf projected, step.2) := by
  cases projected with
  | false => exact Option.map_id'.symm
  | true =>
    have asks : call.isChange = false := by
      cases changes : call.isChange with
      | false => rfl
      | true => cases direct changes
    cases view <;> cases call
    · exact congrArg some (FileView.call_project _ asks)
    · rfl
    · rfl
    · exact congrArg some (DirectoryView.call_project _ asks)

theorem AnyView.ask_projectIf (view : AnyView F D) (projected : Bool) (query : Query) :
    (view.projectIf projected).ask s query = (view.ask s query).map (Answer.projectIf projected) := by
  cases projected with
  | false => exact Option.map_id'.symm
  | true => exact view.ask_project query

omit [Backing σ F D] in
theorem AnyView.node_projectIf (view : AnyView F D) (projected : Bool) : (view.projectIf projected).node = view.node := by
  cases projected <;> cases view <;> rfl

end Projecting

section Desks

variable {bare desk : Desk σ F D} {name : String} {plain veiled : Held}

theorem Desk.call_eq (desk : Desk σ F D) (name : String) (call : Call) (keep : Option String) :
    desk.call name call keep =
      match (desk.held? name).bind fun called =>
        ((desk.heldView? called).bind (·.call? desk.storage call)).map fun step => (called, step) with
      | none => (none, desk)
      | some (called, yield, storage) => (some yield, { desk with storage }.settle called keep yield) := by
  rw [Desk.call]
  cases desk.held? name with
  | none => rfl
  | some called =>
    cases seen : desk.heldView? called with
    | none => simp [seen]
    | some view => cases view <;> cases call <;> simp [seen, AnyView.call?]

omit [Backing σ F D]

theorem Veils.refl (desk : Desk σ F D) : Veils desk desk :=
  ⟨rfl, rfl, rfl, List.forall₂_same.mpr fun _ _ => ⟨rfl, rfl, id⟩⟩

theorem Veils.held?_cases (veils : Veils bare desk) (name : String) :
    (bare.held? name = none ∧ desk.held? name = none) ∨
      ∃ plain veiled, bare.held? name = some plain ∧ desk.held? name = some veiled ∧
        veiled.number = plain.number ∧ (plain.readOnly = true → veiled.readOnly = true) := by
  have names := veils.names
  rw [Desk.held?, Desk.held?]
  generalize bare.names = plains, desk.names = shades at names
  induction names with
  | nil => exact .inl ⟨rfl, rfl⟩
  | @cons plain veiled _ _ entry _ ih =>
    rw [List.find?_cons, List.find?_cons, entry.name]
    split
    · exact .inr ⟨plain.2, veiled.2, rfl, rfl, entry.number, entry.readOnly⟩
    · exact ih

theorem AnyNode.view_projectIf {plain veiled : Bool} (keeps : plain = true → veiled = true) (node : AnyNode F D) :
    node.view veiled = (node.view plain).projectIf veiled := by
  cases veiled with
  | true => cases node <;> rfl
  | false =>
    cases plain with
    | false => rfl
    | true => cases keeps rfl

theorem Veils.view?_eq (veils : Veils bare desk) (name : String) :
    desk.view? name = (bare.view? name).map (AnyView.projectIf (desk.projects name)) := by
  rw [Desk.view?, Desk.view?, Desk.projects]
  rcases veils.held?_cases name with ⟨missing, missing'⟩ | ⟨plain, veiled, held, held', number, keeps⟩
  · rw [missing, missing']
    rfl
  · rw [held, held', Option.bind_some, Option.bind_some, Desk.heldView?, Desk.heldView?, veils.nodes, number,
      Option.map_map]
    exact congrFun (congrArg Option.map (funext (AnyNode.view_projectIf keeps))) _

theorem Veils.hold (veils : Veils bare desk) (name : String) (number : veiled.number = plain.number)
    (keeps : plain.readOnly = true → veiled.readOnly = true) : Veils (bare.hold name plain) (desk.hold name veiled) := by
  refine ⟨veils.storage, veils.ground, veils.nodes, .cons ⟨rfl, number, keeps⟩ ?_⟩
  have names := veils.names
  generalize bare.names = plains, desk.names = shades at names
  induction names with
  | nil => exact .nil
  | @cons plain veiled _ _ entry _ ih =>
    rw [List.filter_cons, List.filter_cons, entry.name]
    split
    · exact .cons entry ih
    · exact ih

theorem Veils.holdNew (veils : Veils bare desk) (name : String) (view : AnyView F D) (projected : Bool) :
    Veils (bare.holdNew name view) (desk.holdNew name (view.projectIf projected)) := by
  have pushed : Veils { bare with nodes := bare.nodes.push view.node }
      { desk with nodes := desk.nodes.push (view.projectIf projected).node } :=
    ⟨veils.storage, veils.ground, by rw [veils.nodes, AnyView.node_projectIf], veils.names⟩
  refine pushed.hold name (by rw [veils.nodes]) fun readOnly => ?_
  cases projected with
  | false => exact readOnly
  | true => cases view <;> rfl

theorem Yield.projectIf_found (view : AnyView F D) (projected : Bool) :
    (Yield.found (some view)).projectIf projected = .found (some (view.projectIf projected)) := by
  cases projected <;> rfl

theorem Yield.projectIf_renamed (view : AnyView F D) (projected : Bool) :
    (Yield.renamed (some view)).projectIf projected = .renamed (some (view.projectIf projected)) := by
  cases projected <;> rfl

theorem Veils.settle (veils : Veils bare desk) (number : veiled.number = plain.number)
    (keeps : plain.readOnly = true → veiled.readOnly = true) (keep : Option String) (yield : Yield F D)
    (projected : Bool) :
    Veils (bare.settle plain keep yield) (desk.settle veiled keep (yield.projectIf projected)) := by
  have same : ∀ {yield : Yield F D}, bare.settle plain keep yield = bare →
      desk.settle veiled keep (yield.projectIf projected) = desk →
        Veils (bare.settle plain keep yield) (desk.settle veiled keep (yield.projectIf projected)) := by
    intro yield still still'
    rw [still, still']
    exact veils
  cases yield with
  | listed | described | bytes | count | flag => exact same rfl (by cases projected <;> rfl)
  | found found =>
    cases found with
    | none => exact same rfl (by cases projected <;> rfl)
    | some view =>
      rw [Yield.projectIf_found]
      cases keep with
      | none => exact veils
      | some name => exact veils.holdNew name view projected
  | itself shown =>
    have own : (Yield.itself shown : Yield F D).projectIf projected = .itself shown := by cases projected <;> rfl
    rw [own]
    cases keep with
    | none => exact veils
    | some name =>
      refine veils.hold name number fun readOnly => ?_
      rw [Bool.or_eq_true] at readOnly ⊢
      exact readOnly.imp_left keeps
  | renamed found =>
    cases found with
    | none => exact same rfl (by cases projected <;> rfl)
    | some view =>
      rw [Yield.projectIf_renamed]
      exact ⟨veils.storage, veils.ground, by simp only [Desk.settle, veils.nodes, number, AnyView.node_projectIf],
        veils.names⟩

theorem Veils.heldDirectories (veils : Veils bare desk) : desk.heldDirectories = bare.heldDirectories := by
  rw [Desk.heldDirectories, Desk.heldDirectories, veils.ground, veils.nodes]
  congr 1
  have names := veils.names
  generalize bare.names = plains, desk.names = shades at names
  induction names with
  | nil => rfl
  | @cons plain veiled _ _ entry _ ih =>
    obtain ⟨name, plain⟩ := plain
    obtain ⟨other, veiled⟩ := veiled
    have number : veiled.number = plain.number := entry.number
    rw [List.filterMap_cons, List.filterMap_cons, ih]
    simp only [number]

end Desks

section Runs

variable {bare desk : Desk σ F D}

theorem Veils.call (veils : Veils bare desk) (name : String) {call : Call} (keep : Option String)
    (discreet : call.isChange = true → desk.projects name = false) :
    Veils (bare.call name call keep).2 (desk.call name call keep).2 := by
  rw [Desk.call_eq, Desk.call_eq]
  rcases veils.held?_cases name with ⟨missing, missing'⟩ | ⟨plain, veiled, held, held', number, keeps⟩
  · rw [missing, missing']
    exact veils
  · have shown : desk.projects name = veiled.readOnly := by rw [Desk.projects, held']; rfl
    have seen := veils.view?_eq name
    rw [Desk.view?, Desk.view?, held, held', Option.bind_some, Option.bind_some, shown] at seen
    rw [held, held', Option.bind_some, Option.bind_some, seen, veils.storage]
    cases bare.heldView? plain with
    | none => exact veils
    | some view =>
      rw [Option.map_some, Option.bind_some, Option.bind_some, view.call?_projectIf (shown ▸ discreet)]
      cases view.call? bare.storage call with
      | none => exact veils
      | some step =>
        have changed : Veils { bare with storage := step.2 } { desk with storage := step.2 } :=
          ⟨rfl, veils.ground, veils.nodes, veils.names⟩
        exact changed.settle number keeps keep step.1 veiled.readOnly

omit [Backing σ F D] in
theorem Veils.pick (veils : Veils bare desk) (keep : String) (found : Option (AnyView F D)) (projected : Bool) :
    Veils (bare.pick keep found) (desk.pick keep (found.map (AnyView.projectIf projected))) := by
  cases found with
  | none => exact veils
  | some view => exact veils.holdNew keep view projected

omit [Backing σ F D] in
theorem Veils.entry?_eq (veils : Veils bare desk) (name : String) (entries : DirectoryView D → List (AnyView F D))
    (index : Nat) (commutes : ∀ dir, entries dir.project = (entries dir).map AnyView.project) :
    desk.entry? name entries index = (bare.entry? name entries index).map (AnyView.projectIf (desk.projects name)) := by
  rw [Desk.entry?, Desk.entry?, veils.view?_eq]
  cases bare.view? name with
  | none => rfl
  | some view =>
    cases view with
    | file view => cases desk.projects name <;> rfl
    | directory dir =>
      cases desk.projects name with
      | false => exact Option.map_id'.symm
      | true =>
        show (entries dir.project)[index]? = ((entries dir)[index]?).map AnyView.project
        rw [commutes, List.getElem?_map]

theorem Veils.turn (veils : Veils bare desk) {turn : Turn} (admitted : desk.admits turn = true) :
    Veils (bare.turn turn) (desk.turn turn) := by
  cases turn with
  | call name call keep => exact veils.call name keep fun change => by simpa [Desk.admits, change] using admitted
  | pickFile name index keep =>
    rw [Desk.turn, Desk.turn, veils.storage, veils.entry?_eq]
    · exact veils.pick keep _ _
    · intro dir
      rw [DirectoryView.files_project, List.map_map, List.map_map]
      rfl
  | pickDirectory name index keep =>
    rw [Desk.turn, Desk.turn, veils.storage, veils.entry?_eq]
    · exact veils.pick keep _ _
    · intro dir
      rw [DirectoryView.subdirectories_project, List.map_map, List.map_map]
      rfl
  | tidy =>
    refine ⟨?_, veils.ground, veils.nodes, veils.names⟩
    rw [Desk.turn, Desk.turn, Desk.tidy, Desk.tidy, veils.storage, veils.heldDirectories]

theorem Veils.run (veils : Veils bare desk) {turns : List Turn} (discreet : desk.discreet turns = true) :
    Veils (bare.run turns) (desk.run turns) := by
  induction turns generalizing bare desk with
  | nil => exact veils
  | cons turn rest ih =>
    obtain ⟨admitted, others⟩ := Bool.and_eq_true_iff.mp discreet
    exact ih (veils.turn admitted) others

theorem Veils.ask (veils : Veils bare desk) (name : String) (query : Query) :
    desk.ask name query = (bare.ask name query).map (Answer.projectIf (desk.projects name)) := by
  rw [Desk.ask, Desk.ask, veils.view?_eq, veils.storage]
  cases bare.view? name with
  | none => rfl
  | some view => exact view.ask_projectIf _ query

omit [Backing σ F D] in
theorem Desk.view?_eq_projectIf (desk : Desk σ F D) (name : String) :
    desk.view? name = ((desk.view? name).map fun view => view.node.view false).map
      (AnyView.projectIf (desk.projects name)) := by
  rw [Desk.view?, Desk.projects]
  cases desk.held? name with
  | none => rfl
  | some held =>
    rw [Option.bind_some, Desk.heldView?]
    cases desk.nodes[held.number]? with
    | none => rfl
    | some node =>
      obtain ⟨number, readOnly⟩ := held
      cases node <;> cases readOnly <;> rfl

theorem Desk.ask_eq (desk : Desk σ F D) (name : String) (query : Query) :
    desk.ask name query = (desk.askBase name query).map (Answer.projectIf (desk.projects name)) := by
  rw [Desk.ask, Desk.view?_eq_projectIf, Desk.askBase]
  cases desk.view? name with
  | none => rfl
  | some view => exact (view.node.view false).ask_projectIf _ query

/-- However the storage is changed through nodes that are not projected, a projection answers every question as its node
    does at that moment, with projections for nodes, and what it leads to is what the node leads to elsewhere. -/
theorem projection_transparent {bare desk : Desk σ F D} (veils : Veils bare desk) {turns : List Turn}
    (discreet : desk.discreet turns = true) :
    (desk.run turns).storage = (bare.run turns).storage ∧
      (∀ name query,
        (desk.run turns).ask name query =
            ((desk.run turns).askBase name query).map (Answer.projectIf ((desk.run turns).projects name)) ∧
          (desk.run turns).ask name query =
            ((bare.run turns).ask name query).map (Answer.projectIf ((desk.run turns).projects name))) ∧
      ∀ (s : σ) (view : AnyView F D), view.project.project = view.project ∧
        ∀ query, view.project.ask s query = (view.ask s query).map Answer.project := by
  have after := veils.run discreet
  exact ⟨after.storage, fun name query => ⟨(desk.run turns).ask_eq name query, after.ask name query⟩,
    fun s view => ⟨view.project_project, view.ask_project⟩⟩

end Runs

section Benches

open Memory

def bench (projected : Bool) : Desk Store FileId DirectoryId :=
  (Desk.start (Store.empty.plant "root" false [.file "note" [1] false]).2 "base" (.direct ⟨0⟩)).hold "shade"
    ⟨0, projected⟩

def scribbles : List Turn :=
  [.call "shade" (.directory (.file "note")) (some "seen"), .call "base" (.directory (.file "note")) (some "note"),
    .call "note" (.file (.rename "page")) none, .call "note" (.file (.write 1 [2])) none]

theorem bench_transparent :
    (bench true).discreet scribbles = true ∧ ((bench true).run scribbles).projects "seen" = true ∧
      ((bench true).run scribbles).ask "seen" (.file .name) = some (.text "page") ∧
      ((bench true).run scribbles).ask "shade" (.directory (.fileAt "/page")) =
        some (.node (some (.file ⟨⟨0⟩, true⟩))) := by
  have veils : Veils (bench false) (bench true) := by
    rw [bench, bench]
    exact (Veils.refl _).hold "shade" rfl fun _ => rfl
  have discreet : (bench true).discreet scribbles = true := by decide
  obtain ⟨-, answers, -⟩ := projection_transparent veils discreet
  exact ⟨discreet, by decide, by rw [(answers "seen" _).1]; decide, by rw [(answers "shade" _).2]; decide⟩

end Benches

end GuestStorage.Tree
