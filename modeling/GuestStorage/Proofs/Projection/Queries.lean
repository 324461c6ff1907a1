import GuestStorage.Proofs.Projection.Navigation
import GuestStorage.Proofs.Projection.Refusal

namespace GuestStorage.Tree

inductive FileQuery where
  | name
  | size
  | path
  | isReadable
  | read (offset length : Nat)
  | readAll
  | parent
  deriving DecidableEq

inductive DirectoryQuery where
  | name
  | size
  | path
  | isReadable
  | isRoot
  | files
  | subdirectories
  | file (name : String)
  | subdirectory (name : String)
  | fileAt (path : String)
  | fileFromTop (path : String)
  | directoryAt (path : String)
  | directoryFromTop (path : String)
  | parent
  deriving DecidableEq

inductive Query where
  | file (query : FileQuery)
  | directory (query : DirectoryQuery)
  deriving DecidableEq

inductive Answer (F D : Type) where
  | text (text : String)
  | number (number : Nat)
  | bytes (data : Bytes)
  | flag (holds : Bool)
  | node (found : Option (AnyView F D))
  | nodes (listed : List (AnyView F D))
  deriving DecidableEq

def Answer.project {F D : Type} : Answer F D → Answer F D
  | .node found => .node (found.map AnyView.project)
  | .nodes listed => .nodes (listed.map AnyView.project)
  | answer => answer

variable {σ F D : Type} [Backing σ F D] {s : σ}

section Asking

def FileView.ask (s : σ) (view : FileView F) : FileQuery → Answer F D
  | .name => .text (view.name s)
  | .size => .number (view.size s)
  | .path => .text (view.path s)
  | .isReadable => .flag (view.isReadable s)
  | .read offset length => .bytes (view.read s offset length)
  | .readAll => .bytes (view.readAll s)
  | .parent => .node ((view.parent? s).map .directory)

def DirectoryView.ask (s : σ) (view : DirectoryView D) : DirectoryQuery → Answer F D
  | .name => .text (view.name s)
  | .size => .number (view.size s)
  | .path => .text (view.path s)
  | .isReadable => .flag (view.isReadable s)
  | .isRoot => .flag (view.isRoot s)
  | .files => .nodes ((view.files s).map .file)
  | .subdirectories => .nodes ((view.subdirectories s).map .directory)
  | .file name => .node ((view.file? s name).map .file)
  | .subdirectory name => .node ((view.subdirectory? s name).map .directory)
  | .fileAt path => .node ((view.fileAt? s path).map .file)
  | .fileFromTop path => .node ((view.fileFromTop? s path).map .file)
  | .directoryAt path => .node ((view.directoryAt? s path).map .directory)
  | .directoryFromTop path => .node ((view.directoryFromTop? s path).map .directory)
  | .parent => .node ((view.parent? s).map .directory)

/-- What a node answers; a file has no answer to what directories are asked, nor the other way round. -/
def AnyView.ask (s : σ) : AnyView F D → Query → Option (Answer F D)
  | .file view, .file query => some (view.ask s query)
  | .directory view, .directory query => some (view.ask s query)
  | _, _ => none

end Asking

section Projecting

theorem AnyView.project_project (view : AnyView F D) : view.project.project = view.project := by
  cases view <;> rfl

theorem project_node_file (found : Option (FileView F)) :
    (Answer.node (found.map AnyView.file) : Answer F D).project =
      .node ((found.map FileView.project).map AnyView.file) := by
  cases found <;> rfl

theorem project_node_directory (found : Option (DirectoryView D)) :
    (Answer.node (found.map AnyView.directory) : Answer F D).project =
      .node ((found.map DirectoryView.project).map AnyView.directory) := by
  cases found <;> rfl

theorem project_nodes_file (listed : List (FileView F)) :
    (Answer.nodes (listed.map AnyView.file) : Answer F D).project =
      .nodes ((listed.map FileView.project).map AnyView.file) := by
  simp only [Answer.project, List.map_map]
  rfl

theorem project_nodes_directory (listed : List (DirectoryView D)) :
    (Answer.nodes (listed.map AnyView.directory) : Answer F D).project =
      .nodes ((listed.map DirectoryView.project).map AnyView.directory) := by
  simp only [Answer.project, List.map_map]
  rfl

theorem FileView.ask_project (view : FileView F) (query : FileQuery) :
    (view.project.ask s query : Answer F D) = (view.ask s query).project := by
  cases query with
  | parent => rw [ask, ask, project_node_directory, parent?_project]
  | name | size | path | isReadable | read | readAll => rfl

theorem DirectoryView.ask_project (view : DirectoryView D) (query : DirectoryQuery) :
    (view.project.ask s query : Answer F D) = (view.ask s query).project := by
  cases query with
  | name | path | isReadable => rfl
  | size => rw [ask, ask, size_project]; rfl
  | isRoot => rw [ask, ask, isRoot_project]; rfl
  | files => rw [ask, ask, project_nodes_file, files_project]
  | subdirectories => rw [ask, ask, project_nodes_directory, subdirectories_project]
  | file name => rw [ask, ask, project_node_file, file?_project]
  | subdirectory name => rw [ask, ask, project_node_directory, subdirectory?_project]
  | fileAt path => rw [ask, ask, project_node_file, fileAt?_project]
  | fileFromTop path => rw [ask, ask, project_node_file, fileFromTop?_project]
  | directoryAt path => rw [ask, ask, project_node_directory, directoryAt?_project]
  | directoryFromTop path => rw [ask, ask, project_node_directory, directoryFromTop?_project]
  | parent => rw [ask, ask, project_node_directory, parent?_project]

/-- A projection answers every question as its node does, with projections of the nodes that the node answers. -/
theorem AnyView.ask_project (view : AnyView F D) (query : Query) :
    view.project.ask s query = (view.ask s query).map Answer.project := by
  cases view <;> cases query
  · exact congrArg some (FileView.ask_project _ _)
  · rfl
  · rfl
  · exact congrArg some (DirectoryView.ask_project _ _)

end Projecting

end GuestStorage.Tree
