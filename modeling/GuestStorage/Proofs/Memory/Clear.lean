import GuestStorage.Proofs.Memory.Stored
import GuestStorage.Proofs.Tree.Loops

namespace GuestStorage.Memory

open GuestStorage.Tree Node
open Stored (store)

def Node.Below (s : Store) (x y : Node) : Prop := Within s x y ∧ y ≠ x

def Clears (s s' : Store) (allowed : Node → Prop) : Prop :=
  s'.Sound ∧ ∃ lost, Cuts s s' lost ∧ ∀ z ∈ lost, allowed z

variable {s s' s'' : Store} {x y z : Node} {name : String} {allowed inner : Node → Prop}

theorem Node.Below.of_child (sound : s.Sound) (found : x.child? s name = some y)
    (within : Within s y z) : Below s x z := by
  refine ⟨((Within.refl x).child found).trans within, ?_⟩
  rintro rfl
  obtain ⟨path, back⟩ := within
  have around : z.descend? s (name :: path) = some z := by
    rw [descend?_cons, found]
    exact back
  cases sound.no_cycle around

/-- When all that is below a node is lost, the node's path and all paths elsewhere show what they did. -/
theorem Cuts.lookup_emptied {top : Node} {path : List String} {lost : List Node} (cuts : Cuts s s' lost)
    (sound : s.Sound) (sound' : s'.Sound) (reached : top.descend? s path = some y)
    (below : ∀ z ∈ lost, Below s y z) (bare : ∀ name, y.child? s' name = none) (other : List String) :
    top.lookup s' other = if path <+: other ∧ other ≠ path then none else top.lookup s other := by
  have clear : ∀ {other}, ¬ (path <+: other ∧ other ≠ path) → ∀ front z, front ≠ [] → front <+: other →
      top.descend? s front = some z → z ∉ lost := by
    intro other outside front z _ shorter there gone
    obtain ⟨⟨rest, further⟩, apart⟩ := below z gone
    have long := (descend?_append_of_reached reached rest).trans further
    obtain rfl := sound.path_unique long there
    refine outside ⟨(List.prefix_append path rest).trans shorter, ?_⟩
    rintro rfl
    have short := shorter.length_le
    rw [List.length_append] at short
    obtain rfl : rest = [] := List.length_eq_zero_iff.mp (by omega)
    exact apart (Option.some.inj further).symm
  split
  · rename_i strictly
    obtain ⟨⟨rest, rfl⟩, longer⟩ := strictly
    have still : top.descend? s' path = some y := by
      rw [cuts.descend?_kept sound sound' (clear fun both => both.2 rfl), reached]
    rw [lookup_append still]
    cases rest with
    | nil => exact absurd (List.append_nil path) longer
    | cons name rest =>
      rw [lookup_cons, bare]
      rfl
  · rename_i outside
    exact cuts.lookup_kept sound sound' (clear outside)

theorem Clears.refl (sound : s.Sound) (allowed : Node → Prop) : Clears s s allowed :=
  ⟨sound, [], Cuts.refl s, by simp⟩

theorem Clears.trans (first : Clears s s' allowed) (second : Clears s' s'' inner)
    (covered : ∀ z, inner z → allowed z) : Clears s s'' allowed := by
  obtain ⟨-, lost, early, kinds⟩ := first
  obtain ⟨sound, more, late, others⟩ := second
  refine ⟨sound, lost ++ more, early.trans late, ?_⟩
  intro z gone
  rcases List.mem_append.mp gone with gone | gone
  · exact kinds z gone
  · exact covered z (others z gone)

theorem Clears.mono (effect : Clears s s' inner) (covered : ∀ z, inner z → allowed z) :
    Clears s s' allowed := by
  obtain ⟨sound, lost, cuts, kinds⟩ := effect
  exact ⟨sound, lost, cuts, fun z gone => covered z (kinds z gone)⟩

theorem Clears.within (effect : Clears s s' allowed) (sound : s.Sound) (below : Within s' x y) :
    Within s x y := by
  obtain ⟨sound', lost, cuts, -⟩ := effect
  exact cuts.within sound sound' below

theorem Clears.child? (effect : Clears s s' allowed) (sound : s.Sound)
    (found : x.child? s' name = some y) : x.child? s name = some y := by
  obtain ⟨sound', lost, cuts, -⟩ := effect
  exact ((cuts.child?_eq_some sound sound').mp found).1

variable {σ : Type} [Backing σ FileId DirectoryId] [Stored σ]

theorem deleteFile_clears {t : σ} (sound : (store t).Sound) (dir : DirectoryId) (name : String) :
    Clears (store t) (store ((DirectoryView.direct dir).deleteFile t name).2)
      (Below (store t) (.directory dir)) := by
  obtain ⟨t', ⟨refused, same⟩ | ⟨file, deleted, sound', found, cuts⟩⟩ := direct_deleteFile sound dir name
  · rw [refused, same]
    exact Clears.refl sound _
  · rw [deleted]
    refine ⟨sound', _, cuts, fun z gone => ?_⟩
    rw [List.mem_singleton.mp gone]
    exact .of_child sound found (.refl _)

theorem deleteSubdirectory_clears {t : σ} (sound : (store t).Sound) (dir : DirectoryId) (name : String) :
    Clears (store t) (store ((DirectoryView.direct dir).deleteSubdirectory t name).2)
      (Below (store t) (.directory dir)) := by
  obtain ⟨t', ⟨refused, same⟩ | ⟨sub, deleted, sound', found, -, cuts⟩⟩ :=
    direct_deleteSubdirectory sound dir name
  · rw [refused, same]
    exact Clears.refl sound _
  · rw [deleted]
    refine ⟨sound', _, cuts, fun z gone => ?_⟩
    rw [List.mem_singleton.mp gone]
    exact .of_child sound found (.refl _)

theorem dropSubdirectory_clears {depth : Nat} {t : σ} (sound : (store t).Sound) {dir : DirectoryId}
    {sub : DirectoryView DirectoryId}
    (cleaned : Clears (store t) (store (DirectoryView.cleanWithin depth t (.direct dir) (sub.name t)).2)
      fun z => ∃ y, (Node.directory dir).child? (store t) (sub.name t) = some y ∧ Below (store t) y z) :
    Clears (store t) (store (DirectoryView.dropSubdirectory depth (.direct dir) t sub).2)
      (Below (store t) (.directory dir)) := by
  have further : Clears (store t)
      (store (DirectoryView.cleanWithin depth t (.direct dir) (sub.name t)).2)
      (Below (store t) (.directory dir)) := by
    obtain ⟨sound', lost, cuts, below⟩ := cleaned
    refine ⟨sound', lost, cuts, fun z gone => ?_⟩
    obtain ⟨y, child, inside⟩ := below z gone
    exact .of_child sound child inside.1
  rw [DirectoryView.dropSubdirectory]
  split
  · rename_i t' succeeded
    rw [succeeded] at further
    exact further.trans (deleteSubdirectory_clears further.1 dir _)
      fun z below => ⟨further.within sound below.1, below.2⟩
  · rename_i t' failed
    rw [failed] at further
    exact further

theorem cleanWithin_clears (depth : Nat) {t : σ} (sound : (store t).Sound) (dir : DirectoryId)
    (name : String) :
    Clears (store t) (store (DirectoryView.cleanWithin depth t (.direct dir) name).2) fun z =>
      ∃ y, (Node.directory dir).child? (store t) name = some y ∧ Below (store t) y z := by
  induction depth generalizing t dir name with
  | zero => exact Clears.refl sound _
  | succ depth ih =>
    cases found : (store t).subdirectory? dir name with
    | none =>
      rw [DirectoryView.cleanWithin, direct_subdirectory?, found]
      exact Clears.refl sound _
    | some sub =>
      rw [DirectoryView.cleanWithin_succ depth rfl (by rw [direct_subdirectory?, found]; rfl)]
      have named : (Node.directory dir).child? (store t) name = some (.directory sub) :=
        child?_directory_eq_some.mpr found
      let kept (t' : σ) : Prop := Clears (store t) (store t') (Below (store t) (.directory sub))
      suffices both : kept _ by
        obtain ⟨sound', lost, cuts, below⟩ := both
        exact ⟨sound', lost, cuts, fun z gone => ⟨_, named, below z gone⟩⟩
      have inside : ∀ t', kept t' → ∀ z, Below (store t') (.directory sub) z →
          Below (store t) (.directory sub) z :=
        fun t' before z below => ⟨before.within sound below.1, below.2⟩
      refine DirectoryView.forEach_keeps kept ?_ (DirectoryView.forEach_keeps kept ?_ ?_)
      · intro t' inner _ before
        exact before.trans (dropSubdirectory_clears before.1 (ih before.1 sub (inner.name t')))
          (inside t' before)
      · intro t' file _ before
        exact before.trans (deleteFile_clears before.1 sub _) (inside t' before)
      · exact Clears.refl sound _

theorem cleanSubdirectory_clears {t : σ} (sound : (store t).Sound) (dir : DirectoryId) (name : String) :
    Clears (store t) (store ((DirectoryView.direct dir).cleanSubdirectory t name).2) fun z =>
      ∃ y, (Node.directory dir).child? (store t) name = some y ∧ Below (store t) y z :=
  cleanWithin_clears _ sound dir name

section Emptying

variable {t : σ} {sub : DirectoryId}

theorem Clears.loose (effect : Clears s s' allowed) (loose : x.parent? s = none) : x.parent? s' = none := by
  obtain ⟨-, lost, cuts, -⟩ := effect
  rw [cuts.parent?, loose, ite_self]

theorem Clears.parent?_of_some (effect : Clears s s' allowed) (owned : x.parent? s' = some y) :
    x.parent? s = some y := by
  obtain ⟨-, lost, cuts, -⟩ := effect
  exact cuts.parent?_of_some owned

theorem Cuts.loose_of_named (cuts : Cuts s s' [z]) (sound : s.Sound) {dir : Node}
    (found : dir.child? s (x.name s) = some z) (owned : x.parent? s = none ∨ x.parent? s = some dir) :
    x.parent? s' = none := by
  rw [cuts.parent?]
  rcases owned with loose | owned
  · rw [loose, ite_self]
  · rw [sound.child?_eq_some.mpr ⟨owned, rfl⟩] at found
    rw [if_pos (List.mem_singleton.mpr (Option.some.inj found))]

theorem dropFile_loose (sound : (store t).Sound) {file : FileId}
    (owned : (Node.file file).parent? (store t) = none ∨
      (Node.file file).parent? (store t) = some (.directory sub))
    (succeeded : (DirectoryView.dropFile (.direct sub) t (.direct file)).1 = true) :
    (Node.file file).parent? (store (DirectoryView.dropFile (.direct sub) t (.direct file)).2) = none := by
  simp only [DirectoryView.dropFile, direct_file_name] at succeeded ⊢
  obtain ⟨t', ⟨refused, -⟩ | ⟨gone, deleted, -, found, cuts⟩⟩ :=
    direct_deleteFile sound sub ((store t).fileName file)
  · rw [refused] at succeeded
    cases succeeded
  · rw [deleted]
    exact cuts.loose_of_named sound found owned

theorem dropSubdirectory_loose (depth : Nat) (sound : (store t).Sound) {inner : DirectoryId}
    (owned : (Node.directory inner).parent? (store t) = none ∨
      (Node.directory inner).parent? (store t) = some (.directory sub))
    (succeeded : (DirectoryView.dropSubdirectory depth (.direct sub) t (.direct inner)).1 = true) :
    (Node.directory inner).parent? (store (DirectoryView.dropSubdirectory depth (.direct sub) t (.direct inner)).2) =
      none := by
  have cleaned := cleanWithin_clears depth sound sub ((store t).directoryName inner)
  simp only [DirectoryView.dropSubdirectory, direct_name] at succeeded ⊢
  rcases outcome : DirectoryView.cleanWithin depth t (.direct sub) ((store t).directoryName inner) with
    ⟨done, t'⟩
  rw [outcome] at succeeded cleaned
  cases done with
  | false => cases succeeded
  | true =>
    obtain ⟨sound', lost, cuts, -⟩ := cleaned
    obtain ⟨t'', ⟨refused, -⟩ | ⟨gone, deleted, -, found, -, last⟩⟩ :=
      direct_deleteSubdirectory sound' sub ((store t).directoryName inner)
    · simp [refused] at succeeded
    · simp only [deleted]
      have named : (Node.directory sub).child? (store t') ((Node.directory inner).name (store t')) =
          some (.directory gone) := by
        rw [cuts.name]
        exact found
      refine last.loose_of_named sound' named ?_
      rw [cuts.parent?]
      split
      · exact .inl rfl
      · exact owned

theorem forEach_loosens {α : Type} (step : σ → α → Bool × σ) (node : α → Node) (items : List α)
    (clears : ∀ t' x, (store t').Sound → Clears (store t') (store (step t' x).2) fun _ => True)
    (loosens : ∀ t' x, (store t').Sound →
      ((node x).parent? (store t') = none ∨ (node x).parent? (store t') = some (.directory sub)) →
        (step t' x).1 = true → (node x).parent? (store (step t' x).2) = none)
    (sound : (store t).Sound) (listed : ∀ x ∈ items, (node x).parent? (store t) = some (.directory sub)) :
    Clears (store t) (store (DirectoryView.forEach step items t).2) (fun _ => True) ∧
      ((DirectoryView.forEach step items t).1 = true →
        ∀ x ∈ items, (node x).parent? (store (DirectoryView.forEach step items t).2) = none) := by
  let kept (t' : σ) : Prop := Clears (store t) (store t') fun _ => True
  have start : kept t := Clears.refl sound _
  have next : ∀ t' x, kept t' → kept (step t' x).2 :=
    fun t' x before => before.trans (clears t' x before.1) fun _ _ => trivial
  refine ⟨DirectoryView.forEach_keeps kept (fun t' x _ => next t' x) start, ?_⟩
  refine DirectoryView.forEach_each step items kept (fun x t' => (node x).parent? (store t') = none)
    ?_ (fun t' x _ y before => (clears t' x before.1).loose) start
  intro t' x among before
  refine ⟨next t' x before, loosens t' x before.1 ?_⟩
  -- it belongs to the directory until its turn comes, or to none if something else has removed it
  obtain ⟨-, lost, cuts, -⟩ := before
  rw [cuts.parent?, listed x among]
  split
  · exact .inl rfl
  · exact .inr rfl

theorem cleanWithin_bare (depth : Nat) (sound : (store t).Sound) {dir : DirectoryId} {name : String}
    (found : (Node.directory dir).child? (store t) name = some (.directory sub))
    (succeeded : (DirectoryView.cleanWithin depth t (.direct dir) name).1 = true) (called : String) :
    (Node.directory sub).child? (store (DirectoryView.cleanWithin depth t (.direct dir) name).2) called =
      none := by
  cases depth with
  | zero => cases succeeded
  | succ depth =>
    have present := child?_directory_eq_some.mp found
    rw [DirectoryView.cleanWithin_succ depth rfl (by rw [direct_subdirectory?, present]; rfl)] at succeeded ⊢
    simp only [Bool.and_eq_true, direct_files, direct_subdirectories, DirectoryView.forEach_map] at succeeded ⊢
    obtain ⟨first, filesLoose⟩ := forEach_loosens
      (fun t' file => DirectoryView.dropFile (.direct sub) t' (.direct file)) .file ((store t).files sub)
      (fun t' file sound' => (deleteFile_clears sound' sub _).mono fun _ _ => trivial)
      (fun t' file sound' => dropFile_loose sound') sound
      (fun file listed => sound.mem_children.mp (by simpa [Node.children] using listed))
    generalize DirectoryView.forEach (fun t' file => DirectoryView.dropFile (.direct sub) t' (.direct file))
      ((store t).files sub) t = files at *
    obtain ⟨second, subdirectoriesLoose⟩ := forEach_loosens
      (fun t' inner => DirectoryView.dropSubdirectory depth (.direct sub) t' (.direct inner)) .directory
      ((store files.2).subdirectories sub)
      (fun t' inner sound' => (dropSubdirectory_clears sound' (cleanWithin_clears depth sound' sub _)).mono
        fun _ _ => trivial)
      (fun t' inner sound' => dropSubdirectory_loose depth sound') first.1
      (fun inner listed => first.1.mem_children.mp (by simpa [Node.children] using listed))
    rw [Option.eq_none_iff_forall_not_mem]
    intro z there
    have owned := (second.1.child?_eq_some.mp there).1
    have before := second.parent?_of_some owned
    have listed := first.1.mem_children.mpr before
    cases z with
    | file file =>
      have earlier := sound.mem_children.mpr (first.parent?_of_some before)
      rw [filesLoose succeeded.1 file (by simpa [Node.children] using earlier)] at before
      cases before
    | directory inner =>
      rw [subdirectoriesLoose succeeded.2 inner (by simpa [Node.children] using listed)] at owned
      cases owned

end Emptying

/-- Deleting a tree cuts off only what lies in the named subdirectory, and the subdirectory itself when
    it succeeds. -/
theorem deleteTree_removes {t : σ} (sound : (store t).Sound) (dir : DirectoryId) (name : String) :
    ∃ done t' lost, (DirectoryView.direct dir).deleteTree t name = (done, t') ∧ (store t').Sound ∧
      Cuts (store t) (store t') lost ∧
      (∀ z ∈ lost, ∃ y, (Node.directory dir).child? (store t) name = some y ∧ Within (store t) y z) ∧
      (done = true → ∃ y ∈ lost, (Node.directory dir).child? (store t) name = some y) := by
  have cleaned := cleanSubdirectory_clears sound dir name
  rw [DirectoryView.deleteTree]
  rcases outcome : (DirectoryView.direct dir).cleanSubdirectory t name with ⟨done, t'⟩
  rw [outcome] at cleaned
  obtain ⟨sound', lost, cuts, below⟩ := cleaned
  have within : ∀ z ∈ lost, ∃ y, (Node.directory dir).child? (store t) name = some y ∧
      Within (store t) y z := fun z gone =>
    let ⟨y, child, inside⟩ := below z gone
    ⟨y, child, inside.1⟩
  cases done with
  | false => exact ⟨false, t', lost, rfl, sound', cuts, within, by simp⟩
  | true =>
    dsimp only
    obtain ⟨t'', ⟨refused, same⟩ | ⟨sub, deleted, sound'', found, -, last⟩⟩ :=
      direct_deleteSubdirectory sound' dir name
    · exact ⟨false, t'', lost, refused, same ▸ sound', same ▸ cuts, within, by simp⟩
    · have child := ((cuts.child?_eq_some sound sound').mp found).1
      refine ⟨true, t'', _, deleted, sound'', cuts.trans last, ?_, ?_⟩
      · intro z gone
        rcases List.mem_append.mp gone with gone | gone
        · exact within z gone
        · rw [List.mem_singleton.mp gone]
          exact ⟨_, child, .refl _⟩
      · exact fun _ => ⟨_, List.mem_append_right _ List.mem_cons_self, child⟩

end GuestStorage.Memory
