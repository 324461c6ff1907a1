import GuestStorage.Proofs.Projection.Explorer
import GuestStorage.Proofs.Projection.Mount
import GuestStorage.Proofs.Session.Client

namespace GuestStorage.Session

open GuestStorage.Tree

def AnySession.isProjected {F D : Type} : AnySession F D → Bool
  | .fileSystem fs => fs.mount.root.readOnly
  | .file opened => opened.file.readOnly
  | .storage image => image.file.readOnly
  | .directory _ | .saveInfoReader _ | .eventNotifier _ => true

namespace Client

variable {σ F D : Type} [Backing σ F D] {client : Client σ F D}

def Projected (client : Client σ F D) : Prop := client.table.All (·.isProjected = true)

theorem Projected.path (projected : client.Projected) {fs : FileSystem D}
    (inner : fs.mount.root.readOnly = true) (request : PathRequest) :
    (client.path fs request).2.storage = client.storage ∧ (client.path fs request).2.Projected := by
  by_cases change : request.isChange = true
  · rw [(path_projected client inner change).1]
    exact ⟨rfl, projected⟩
  · cases request with
    | createFile | deleteFile | createDirectory | deleteDirectory | deleteDirectoryRecursively
    | cleanDirectoryRecursively | renameFile | renameDirectory =>
      simp [PathRequest.isChange] at change
    | commit | entryType | freeSpace | totalSpace => exact ⟨rfl, projected⟩
    | openFile path mode =>
      simp only [Client.path]
      split
      · exact ⟨rfl, projected⟩
      · rename_i opened found
        refine ⟨rfl, Table.All.insert projected ?_⟩
        exact (Mount.readOnly_of_openFile (FileSystem.openFile_eq_ok.mp found).2).trans inner
    | openDirectory path filter =>
      simp only [Client.path]
      split
      · exact ⟨rfl, projected⟩
      · exact ⟨rfl, Table.All.insert projected rfl⟩

theorem Projected.file (projected : client.Projected) {opened : OpenFile F}
    (inner : opened.file.readOnly = true) (request : FileRequest) :
    (client.file opened request).2.storage = client.storage ∧
      (client.file opened request).2.Projected := by
  by_cases change : request.isChange = true
  · obtain ⟨e, refused⟩ := file_projected client inner change
    rw [refused]
    exact ⟨rfl, projected⟩
  · cases request with
    | write | setSize => simp [FileRequest.isChange] at change
    | read | flush | getSize => exact ⟨rfl, projected⟩

theorem Projected.step (projected : client.Projected) (request : Request) :
    (client.step request).2.storage = client.storage ∧ (client.step request).2.Projected := by
  cases request with
  | path handle request =>
    simp only [Client.step, withSession]
    split
    · exact ⟨rfl, projected⟩
    · rename_i fs found
      exact projected.path (projected _ _ (Table.find?_of_fileSystem found)) request
  | file handle request =>
    simp only [Client.step, withSession]
    split
    · exact ⟨rfl, projected⟩
    · rename_i opened found
      exact projected.file (projected _ _ (Table.find?_of_file found)) request
  | directory handle request =>
    simp only [Client.step, withSession]
    split
    · exact ⟨rfl, projected⟩
    · cases request with
      | pack | take => exact ⟨rfl, Table.All.update projected rfl handle⟩
      | remaining => exact ⟨rfl, projected⟩
  | storage handle request =>
    simp only [Client.step, withSession]
    split
    · exact ⟨rfl, projected⟩
    · cases request <;> exact ⟨rfl, projected⟩
  | saveInfo handle request =>
    simp only [Client.step, withSession]
    split
    · exact ⟨rfl, projected⟩
    · cases request with
      | pack | take => exact ⟨rfl, Table.All.update projected rfl handle⟩
      | remaining => exact ⟨rfl, projected⟩
  | event handle request =>
    simp only [Client.step, withSession]
    split <;> exact ⟨rfl, projected⟩
  | kind handle =>
    simp only [Client.step, withSession]
    split <;> exact ⟨rfl, projected⟩
  | close handle =>
    simp only [Client.step, withSession]
    split
    · exact ⟨rfl, projected⟩
    · rename_i session after closed
      exact ⟨rfl, Table.All.close projected closed⟩

end Client

namespace Explorer

variable {σ F D : Type} [Backing σ F D] {explorer : Explorer σ F D}

structure Projected (explorer : Explorer σ F D) : Prop where
  nodes : ∀ held ∈ explorer.desk.names, held.2.readOnly = true
  sessions : explorer.client.Projected

omit [Backing σ F D] in
theorem Projected.start (storage : σ) (ground : D) (name : String) (view : AnyView F D) :
    (start storage ground name view.project).Projected := by
  refine ⟨?_, Table.All.empty⟩
  simp only [Explorer.start, Desk.holdNew, Desk.hold, List.filter_nil, List.mem_singleton]
  rintro held rfl
  cases view <;> rfl

omit [Backing σ F D] in
theorem Projected.readOnly_of_view? (projected : explorer.Projected) {name : String}
    {view : AnyView F D} (found : explorer.desk.view? name = some view) : view.readOnly = true := by
  obtain ⟨held, named, seen⟩ := Option.bind_eq_some_iff.mp found
  obtain ⟨node, _, rfl⟩ := Option.map_eq_some_iff.mp seen
  obtain ⟨entry, first, rfl⟩ := Option.map_eq_some_iff.mp named
  have inner := projected.nodes entry (List.mem_of_find?_eq_some first)
  cases node <;> exact inner

omit [Backing σ F D] in
theorem Projected.readOnly_of_heldFile? (projected : explorer.Projected) {name : String}
    {file : FileView F} (found : explorer.heldFile? name = some file) : file.readOnly = true := by
  unfold heldFile? at found
  split at found
  · rename_i view seen
    cases found
    exact projected.readOnly_of_view? seen
  · cases found

omit [Backing σ F D] in
theorem Projected.readOnly_of_heldDirectory? (projected : explorer.Projected) {name : String}
    {dir : DirectoryView D} (found : explorer.heldDirectory? name = some dir) : dir.readOnly = true := by
  unfold heldDirectory? at found
  split at found
  · rename_i view seen
    cases found
    exact projected.readOnly_of_view? seen
  · cases found

structure Contained (explorer : Explorer σ F D) (outcome : Outcome F D × Explorer σ F D) : Prop where
  kept : outcome.2.desk.storage = explorer.desk.storage
  projected : outcome.2.Projected
  views : ∀ view ∈ outcome.1.views, view.readOnly = true

omit [Backing σ F D] in
theorem Projected.holdNew (projected : explorer.Projected) (name : String) {view : AnyView F D}
    (inner : view.readOnly = true) :
    ({ explorer with desk := explorer.desk.holdNew name view } : Explorer σ F D).Projected := by
  refine ⟨?_, projected.sessions⟩
  intro held listed
  simp only [Desk.holdNew, Desk.hold, List.mem_cons, List.mem_filter] at listed
  rcases listed with rfl | ⟨listed, _⟩
  · exact inner
  · exact projected.nodes held listed

omit [Backing σ F D] in
theorem Projected.hold (projected : explorer.Projected) (name : String)
    {found : Option (AnyView F D)} (inner : ∀ view ∈ found, view.readOnly = true) :
    Contained explorer (explorer.hold name found) := by
  cases found with
  | none => exact ⟨rfl, projected, by simp [Explorer.hold, Outcome.views]⟩
  | some view =>
    have only := inner view rfl
    exact ⟨rfl, projected.holdNew name only, by simp [Explorer.hold, Outcome.views, only]⟩

omit [Backing σ F D] in
theorem Projected.insert (projected : explorer.Projected)
    {found : Option (AnySession F D)} (inner : ∀ session ∈ found, session.isProjected = true) :
    Contained explorer (explorer.insert found) := by
  cases found with
  | none => exact ⟨rfl, projected, by simp [Explorer.insert, Outcome.views]⟩
  | some session =>
    refine ⟨rfl, ⟨projected.nodes, ?_⟩, by simp [Explorer.insert, Outcome.views]⟩
    exact Table.All.insert projected.sessions (inner session rfl)

omit [Backing σ F D] in
theorem storage_settle (desk : Desk σ F D) (called : Held) (keep : Option String)
    (yield : Yield F D) : (desk.settle called keep yield).storage = desk.storage := by
  cases yield with
  | found view => cases view <;> cases keep <;> rfl
  | itself => cases keep <;> rfl
  | renamed view => cases view <;> rfl
  | listed | described | bytes | count | flag => rfl

omit [Backing σ F D] in
theorem Projected.settle (projected : explorer.Projected) {called : Held}
    (inner : called.readOnly = true) (keep : Option String) {yield : Yield F D}
    (views : ∀ view ∈ yield.views, view.readOnly = true) :
    ({ explorer with desk := explorer.desk.settle called keep yield } : Explorer σ F D).Projected := by
  cases yield with
  | found view =>
    cases view with
    | none => exact projected
    | some view =>
      cases keep with
      | none => exact projected
      | some name => exact projected.holdNew name (views view (by simp [Yield.views]))
  | itself again =>
    cases keep with
    | none => exact projected
    | some name =>
      refine ⟨?_, projected.sessions⟩
      intro held listed
      simp only [Desk.settle, Option.map_some, Option.getD_some, Desk.hold, List.mem_cons,
        List.mem_filter] at listed
      rcases listed with rfl | ⟨listed, _⟩
      · simp [inner]
      · exact projected.nodes held listed
  | renamed view =>
    cases view <;> exact ⟨projected.nodes, projected.sessions⟩
  | listed | described | bytes | count | flag => exact projected

theorem call_cases (desk : Desk σ F D) (name : String) (call : Call) (keep : Option String) :
    desk.call name call keep = (none, desk) ∨
      ∃ called view, desk.held? name = some called ∧ desk.heldView? called = some view ∧
        ∃ step : Yield F D × σ, desk.call name call keep =
            (some step.1, ({ desk with storage := step.2 } : Desk σ F D).settle called keep step.1) ∧
          (view.readOnly = true → Harmless desk.storage call.isChange step) := by
  unfold Desk.call
  split
  · exact .inl rfl
  · rename_i called held
    split
    · rename_i view call seen
      exact .inr ⟨called, _, held, seen, _, rfl, fun inner => view.call_projected inner call⟩
    · rename_i view call seen
      exact .inr ⟨called, _, held, seen, _, rfl, fun inner => view.call_projected inner call⟩
    · exact .inl rfl

theorem Projected.call (projected : explorer.Projected) (name : String) (call : Call)
    (keep : Option String) :
    Contained explorer (explorer.step (.call name call keep)) ∧
      (call.isChange = true → (explorer.step (.call name call keep)).1 = .nothing ∨
        ∃ yield, (explorer.step (.call name call keep)).1 = .yielded yield ∧
          yield.isRefusal = true) := by
  simp only [Explorer.step]
  rcases call_cases explorer.desk name call keep with
    missing | ⟨called, view, held, seen, step, same, harmless⟩
  · rw [missing]
    exact ⟨⟨rfl, projected, by simp [Outcome.views]⟩, fun _ => .inl rfl⟩
  · have readOnly := projected.readOnly_of_view? (Option.bind_eq_some_iff.mpr ⟨called, held, seen⟩)
    have inner : called.readOnly = true := by
      obtain ⟨entry, first, rfl⟩ := Option.map_eq_some_iff.mp held
      exact projected.nodes entry (List.mem_of_find?_eq_some first)
    have fine := harmless readOnly
    rw [same, fine.kept]
    refine ⟨⟨?_, projected.settle inner keep fine.projected, fine.projected⟩, ?_⟩
    · exact storage_settle explorer.desk called keep step.1
    · exact fun change => .inr ⟨_, rfl, fine.refused change⟩

theorem Projected.request (projected : explorer.Projected) (request : Request) :
    Contained explorer (explorer.step (.request request)) := by
  have step := projected.sessions.step request
  exact ⟨step.1, ⟨projected.nodes, step.2⟩, by simp [Explorer.step, Outcome.views]⟩

theorem Projected.step (projected : explorer.Projected) (move : Move) :
    Contained explorer (explorer.step move) := by
  cases move with
  | call name call keep => exact (projected.call name call keep).1
  | request request => exact projected.request request
  | pickFile name index keep =>
    apply projected.hold
    intro view found
    obtain ⟨dir, held, listed⟩ := Option.bind_eq_some_iff.mp found
    obtain ⟨file, entry, rfl⟩ := Option.map_eq_some_iff.mp listed
    obtain ⟨node, _, rfl⟩ := List.mem_map.mp (List.mem_of_getElem? entry)
    have inner := projected.readOnly_of_heldDirectory? held
    exact inner
  | pickDirectory name index keep =>
    apply projected.hold
    intro view found
    obtain ⟨dir, held, listed⟩ := Option.bind_eq_some_iff.mp found
    obtain ⟨sub, entry, rfl⟩ := Option.map_eq_some_iff.mp listed
    obtain ⟨node, _, rfl⟩ := List.mem_map.mp (List.mem_of_getElem? entry)
    have inner := projected.readOnly_of_heldDirectory? held
    exact inner
  | mount name space =>
    apply projected.insert
    intro session found
    obtain ⟨dir, held, rfl⟩ := Option.map_eq_some_iff.mp found
    exact projected.readOnly_of_heldDirectory? held
  | openFile name mode =>
    apply projected.insert
    intro session found
    obtain ⟨file, held, rfl⟩ := Option.map_eq_some_iff.mp found
    exact projected.readOnly_of_heldFile? held
  | openStorage name =>
    apply projected.insert
    intro session found
    obtain ⟨file, held, rfl⟩ := Option.map_eq_some_iff.mp found
    exact projected.readOnly_of_heldFile? held
  | mounted handle keep =>
    apply projected.hold
    intro view found
    obtain ⟨fs, open_, rfl⟩ := Option.map_eq_some_iff.mp found
    cases session : explorer.table.fileSystem handle with
    | error e => simp [session, Except.toOption] at open_
    | ok fs =>
      simp only [session, Except.toOption, Option.some.injEq] at open_
      subst open_
      exact projected.sessions _ _ (Table.find?_of_fileSystem session)

theorem Projected.run (projected : explorer.Projected) (moves : List Move) :
    (explorer.run moves).desk.storage = explorer.desk.storage ∧ (explorer.run moves).Projected := by
  induction moves generalizing explorer with
  | nil => exact ⟨rfl, projected⟩
  | cons move rest ih =>
    have first := projected.step move
    have others := ih first.projected
    exact ⟨others.1.trans first.kept, others.2⟩

end Explorer

/-- How a move that would change something is answered: a call yields nothing new, and a request
    is answered by an error unless it renames an entry to the path it has. -/
def Move.Declined {σ F D : Type} [Backing σ F D] (explorer : Explorer σ F D) (outcome : Outcome F D) :
    Move → Prop
  | .call _ action _ =>
    action.isChange = true →
      outcome = .nothing ∨ ∃ yield, outcome = .yielded yield ∧ yield.isRefusal = true
  | .request (.path handle change) =>
    change.isChange = true → ∃ answer, outcome = .answered answer ∧
      ((∃ e, answer = .error (.refused e)) ∨ answer = .ok .done ∧
        ∃ fs, explorer.table.fileSystem handle = .ok fs ∧
          change.NamesOwnPath explorer.desk.storage fs.mount)
  | .request (.file _ change) =>
    change.isChange = true → ∃ e, outcome = .answered (.error (.refused e))
  | _ => True

theorem Explorer.Projected.declined {σ F D : Type} [Backing σ F D] {explorer : Explorer σ F D}
    (projected : explorer.Projected) (move : Move) :
    move.Declined explorer (explorer.step move).1 := by
  cases move with
  | call name call keep => exact (projected.call name call keep).2
  | pickFile | pickDirectory | mount | openFile | openStorage | mounted => exact True.intro
  | request request =>
    cases request with
    | directory | storage | saveInfo | event | kind | close => exact True.intro
    | path handle request =>
      intro change
      refine ⟨_, rfl, ?_⟩
      split
      · exact .inl ⟨_, rfl⟩
      · rename_i fs found
        have inner := projected.sessions _ _ (Table.find?_of_fileSystem found)
        rcases (Client.path_projected explorer.client inner change).2 with refused | ⟨done, own⟩
        · exact .inl refused
        · exact .inr ⟨done, fs, found, own⟩
    | file handle request =>
      intro change
      simp only [Explorer.step, Client.step, Client.withSession]
      split
      · exact ⟨_, rfl⟩
      · rename_i opened found
        have inner := projected.sessions _ _ (Table.find?_of_file found)
        obtain ⟨e, refused⟩ := Client.file_projected explorer.client inner change
        exact ⟨e, by rw [refused]⟩

/-- From a single projected node, whatever is done in whatever order: all nodes that are handed over
    or held, and all nodes behind sessions, are projected and not writable, each change is declined,
    and the storage stays what it was. -/
theorem explore_projection {σ F D : Type} [Backing σ F D] (storage : σ) (ground : D) (name : String)
    (view : AnyView F D) (moves : List Move) (next : Move) :
    let explorer := (Explorer.start storage ground name view.project).run moves
    let outcome := explorer.step next
    explorer.desk.storage = storage ∧ outcome.2.desk.storage = storage ∧
      (∀ node ∈ outcome.1.views, node.readOnly = true ∧ node.isWritable storage = false) ∧
      (∀ held node, outcome.2.desk.view? held = some node →
        node.readOnly = true ∧ node.isWritable storage = false) ∧
      (∀ handle session, outcome.2.table.find? handle = some session → session.isProjected = true) ∧
      next.Declined explorer outcome.1 := by
  have run := (Explorer.Projected.start storage ground name view).run moves
  have step := run.2.step next
  refine ⟨run.1, step.kept.trans run.1, ?_, ?_, step.projected.sessions, run.2.declined next⟩
  · intro node listed
    have readOnly := step.views node listed
    exact ⟨readOnly, AnyView.not_writable_of_readOnly readOnly⟩
  · intro held node found
    have readOnly := step.projected.readOnly_of_view? found
    exact ⟨readOnly, AnyView.not_writable_of_readOnly readOnly⟩

end GuestStorage.Session
