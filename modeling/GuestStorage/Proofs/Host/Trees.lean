import GuestStorage.Proofs.Host.Shown
import GuestStorage.Proofs.Tree.Loops

namespace GuestStorage.Host

namespace View

variable {view next : View} {holder source target : List String} {names : List String} {name : String}

def cutAll (view : View) (holder : List String) (names : List String) : View :=
  fun key => if ∃ name ∈ names, holder ++ [name] <+: key then none else view key

theorem cutAll_nil (view : View) (holder : List String) : view.cutAll holder [] = view := by
  funext key
  simp [cutAll]

theorem cutAll_concat (view : View) (holder names : List String) (name : String) :
    (view.cutAll holder names).cut (holder ++ [name]) = view.cutAll holder (names ++ [name]) := by
  funext key
  simp only [cutAll, cut, List.mem_append, List.mem_singleton, or_and_right, exists_or, exists_eq_left]
  by_cases here : holder ++ [name] <+: key <;> simp [here]

theorem cutAll_of_not_mem (apart : name ∉ names) (rest : List String) :
    view.cutAll holder names (holder ++ [name] ++ rest) = view (holder ++ [name] ++ rest) := by
  refine if_neg ?_
  rintro ⟨other, among, below⟩
  rw [List.append_assoc, List.prefix_append_right_inj, List.singleton_append, List.cons_prefix_cons] at below
  exact apart (below.1 ▸ among)

theorem cutAll_of_mem (among : name ∈ names) (rest : List String) :
    view.cutAll holder names (holder ++ [name] ++ rest) = none :=
  if_pos ⟨name, among, List.prefix_append _ rest⟩

theorem cutAll_outside {key : List String} (outside : ¬ (holder <+: key ∧ key ≠ holder)) :
    view.cutAll holder names key = view key := by
  refine if_neg ?_
  rintro ⟨name, -, rest, rfl⟩
  exact outside ⟨by simp, by simp⟩

def strip (view : View) (holder : List String) (wanted : Entry → Bool) : View :=
  fun key => if holder <+: key ∧ key ≠ holder ∧ (view (key.take (holder.length + 1))).any wanted then none
    else view key

theorem strip_child (view : View) (holder : List String) (wanted : Entry → Bool) (name : String)
    (rest : List String) : view.strip holder wanted (holder ++ [name] ++ rest) =
      if (view (holder ++ [name])).any wanted then none else view (holder ++ [name] ++ rest) := by
  have first : (holder ++ [name] ++ rest).take (holder.length + 1) = holder ++ [name] := by
    rw [List.take_append_of_le_length (by simp), List.take_of_length_le (by simp)]
  have below : holder <+: holder ++ [name] ++ rest := by simp
  have apart : holder ++ [name] ++ rest ≠ holder := by simp
  simp only [strip, first, below, apart, ne_eq, not_false_eq_true, true_and]

theorem strip_outside (wanted : Entry → Bool) {key : List String} (outside : ¬ (holder <+: key ∧ key ≠ holder)) :
    view.strip holder wanted key = view key :=
  if_neg fun inside => outside ⟨inside.1, inside.2.1⟩

theorem exists_child_of_below {key : List String} (below : holder <+: key ∧ key ≠ holder) :
    ∃ name rest, key = holder ++ [name] ++ rest := by
  obtain ⟨⟨rest, rfl⟩, apart⟩ := below
  obtain ⟨name, more, rfl⟩ := List.exists_cons_of_ne_nil (l := rest) (by simpa using apart)
  exact ⟨name, more, by simp⟩

theorem clear_below (view : View) (key : List String) {rest : List String} (some_ : rest ≠ []) :
    view.clear key (key ++ rest) = none := if_pos ⟨List.prefix_append key rest, by simpa using some_⟩

theorem clear_self (view : View) (key : List String) : view.clear key key = view key := if_neg (by simp)

theorem cut_clear (view : View) (key : List String) : (view.clear key).cut key = view.cut key := by
  funext other
  rw [cut, cut, clear]
  split
  · rfl
  · rename_i outside
    exact if_neg fun below => outside below.1

theorem not_prefix_of_apart (apart : ¬ source <+: target) (apart' : ¬ target <+: source)
    (rest : List String) : ¬ target <+: source ++ rest := by
  intro within
  rcases List.prefix_or_prefix_of_prefix within (List.prefix_append source rest) with below | above
  · exact apart' below
  · exact apart above

theorem not_prefix_concat (apart : ¬ source <+: target) (name : String) :
    ¬ source ++ [name] <+: target ++ [name] := by
  intro within
  rcases List.prefix_concat_iff.mp within with whole | short
  · exact apart (List.append_inj_left' whole rfl ▸ List.prefix_refl _)
  · exact apart ((List.prefix_append _ _).trans short)

theorem cut_graft (apart : ¬ source <+: target) (apart' : ¬ target <+: source) :
    (view.graft source target).cut source = Keyed.rekey source target view := by
  funext key
  rw [cut, graft, Keyed.rekey]
  by_cases below : target <+: key
  · obtain ⟨rest, rfl⟩ := below
    rw [if_neg (not_prefix_of_apart apart' apart rest), if_pos (by simp), if_pos (by simp)]
  · rw [if_neg below, if_neg below]

theorem graft_set (entry : Entry) (apart : ¬ source <+: target) :
    (view.set target entry).graft source target = view.graft source target := by
  funext key
  rw [graft, graft, set, set]
  by_cases below : target <+: key
  · have other : source ++ key.drop target.length ≠ target := fun same => apart ⟨_, same⟩
    rw [if_pos below, if_pos below, if_neg other]
  · have other : key ≠ target := fun same => below (same ▸ List.prefix_refl _)
    rw [if_neg below, if_neg below, if_neg other]

theorem graft_file {entry : Entry} (found : view source = some entry)
    (bare : ∀ rest, rest ≠ [] → view (source ++ rest) = none) (free : ∀ rest, view (target ++ rest) = none) :
    view.graft source target = view.set target entry := by
  funext key
  rw [graft, set]
  by_cases below : target <+: key
  · obtain ⟨rest, rfl⟩ := below
    rw [if_pos (List.prefix_append _ rest), List.drop_left, free]
    by_cases here : rest = []
    · rw [here, List.append_nil, List.append_nil, found, if_pos rfl]
    · rw [bare rest here, if_neg (by simpa using here)]
  · have other : key ≠ target := fun same => below (same ▸ List.prefix_refl _)
    rw [if_neg below, if_neg other]

def graftAll (view : View) (source target names : List String) : View :=
  fun key => if ∃ name ∈ names, target ++ [name] <+: key then view (source ++ key.drop target.length) else view key

theorem graftAll_nil (view : View) (source target : List String) : view.graftAll source target [] = view := by
  funext key
  simp [graftAll]

theorem graftAll_of_mem (among : name ∈ names) (rest : List String) :
    view.graftAll source target names (target ++ [name] ++ rest) = view (source ++ [name] ++ rest) := by
  rw [graftAll, if_pos ⟨name, among, List.prefix_append _ rest⟩]
  simp [List.append_assoc]

theorem graftAll_of_not_mem (apart : name ∉ names) (rest : List String) :
    view.graftAll source target names (target ++ [name] ++ rest) = view (target ++ [name] ++ rest) := by
  refine if_neg ?_
  rintro ⟨other, among, below⟩
  rw [List.append_assoc, List.prefix_append_right_inj, List.singleton_append, List.cons_prefix_cons] at below
  exact apart (below.1 ▸ among)

theorem graftAll_outside {key : List String} (outside : ¬ (target <+: key ∧ key ≠ target)) :
    view.graftAll source target names key = view key := by
  refine if_neg ?_
  rintro ⟨name, -, rest, rfl⟩
  exact outside ⟨by simp, by simp⟩

theorem graftAll_concat (apart : ¬ source <+: target) (apart' : ¬ target <+: source) (name : String) :
    (view.graftAll source target names).graft (source ++ [name]) (target ++ [name]) =
      view.graftAll source target (names ++ [name]) := by
  funext key
  rw [graft]
  split
  · rename_i here
    obtain ⟨rest, rfl⟩ := here
    rw [List.drop_left, graftAll_of_mem (by simp), graftAll_outside]
    rw [List.append_assoc]
    exact fun inside => not_prefix_of_apart apart apart' _ inside.1
  · rename_i elsewhere
    simp only [graftAll, List.mem_append, List.mem_singleton, or_and_right, exists_or, exists_eq_left, elsewhere,
      or_false]

def fill (view : View) (source target : List String) (wanted : Entry → Bool) : View := fun key =>
  if target <+: key ∧ key ≠ target ∧ (view (source ++ (key.drop target.length).take 1)).any wanted then
    view (source ++ key.drop target.length)
  else view key

theorem fill_child (view : View) (source target : List String) (wanted : Entry → Bool) (name : String)
    (rest : List String) : view.fill source target wanted (target ++ [name] ++ rest) =
      if (view (source ++ [name])).any wanted then view (source ++ [name] ++ rest)
      else view (target ++ [name] ++ rest) := by
  have further : (target ++ [name] ++ rest).drop target.length = [name] ++ rest := by
    rw [List.append_assoc, List.drop_left]
  have first : ([name] ++ rest).take 1 = [name] := rfl
  have below : target <+: target ++ [name] ++ rest := by simp
  have apart : target ++ [name] ++ rest ≠ target := by simp
  rw [List.append_assoc source]
  simp only [fill, further, first, below, apart, ne_eq, not_false_eq_true, true_and]

theorem fill_outside (wanted : Entry → Bool) {key : List String} (outside : ¬ (target <+: key ∧ key ≠ target)) :
    view.fill source target wanted key = view key :=
  if_neg fun inside => outside ⟨inside.1, inside.2.1⟩

end View

namespace Disk.Shown

open GuestStorage.Tree DirectoryView

variable {disk after : Disk} {root : Root} {place : Location} {names key source target : List String} {name : String}
  {entry : Entry} {view next : View}

theorem name_fileAt (proper : Proper name) : (fileAt root (names ++ [name])).name disk = name := by
  rw [fileAt_concat]
  exact lastName_concat proper _

section Clean

variable (shown : disk.Shown root place view)
include shown

theorem proper (found : view (names ++ [name]) = some entry) : Proper name :=
  (shown.usable found name (by simp)).proper

omit shown in
theorem fresh_of_nodup {done rest : List String} (distinct : names.Nodup) (parts : names = done ++ name :: rest) :
    name ∉ done := fun among => (List.nodup_append'.mp (parts ▸ distinct)).2.2 among List.mem_cons_self

theorem cutAll_childNames (names : List String) (wanted : Entry → Bool) :
    view.cutAll names (childNames disk (place ++ names) wanted) = view.strip names wanted := by
  funext key
  by_cases below : names <+: key ∧ key ≠ names
  · obtain ⟨name, rest, rfl⟩ := View.exists_child_of_below below
    rw [View.strip_child]
    have listed : name ∈ childNames disk (place ++ names) wanted ↔ (view (names ++ [name])).any wanted = true := by
      rw [shown.mem_childNames, Option.any_eq_true]
    split
    · rename_i fits
      exact View.cutAll_of_mem (listed.mpr fits) rest
    · rename_i unfit
      exact View.cutAll_of_not_mem (fun among => unfit (listed.mp among)) rest
  · rw [View.cutAll_outside below, View.strip_outside _ below]

theorem forEach_cuts {step : Disk → String → Bool × Disk} (names : List String) (wanted : Entry → Bool)
    (next : ∀ {s : Disk} {now : View} {name entry}, s.Shown root place now → wanted entry = true →
      (∀ rest, now (names ++ [name] ++ rest) = view (names ++ [name] ++ rest)) →
      now (names ++ [name]) = some entry →
      ∃ after, step s name = (true, after) ∧ after.Shown root place (now.cut (names ++ [name]))) :
    ∃ after, forEach step (childNames disk (place ++ names) wanted) disk = (true, after) ∧
      after.Shown root place (view.strip names wanted) := by
  have loop := forEach_completes step (childNames disk (place ++ names) wanted)
    (fun rest s => ∃ done, childNames disk (place ++ names) wanted = done ++ rest ∧
      s.Shown root place (view.cutAll names done)) ?_ ⟨[], rfl, (View.cutAll_nil view names).symm ▸ shown⟩
  · obtain ⟨done, all, shown'⟩ := loop.2
    rw [List.append_nil] at all
    rw [← all, shown.cutAll_childNames] at shown'
    exact ⟨_, Prod.ext loop.1 rfl, shown'⟩
  · rintro s name rest ⟨done, parts, shown'⟩
    obtain ⟨entry, found, fits⟩ :=
      shown.mem_childNames.mp (parts ▸ List.mem_append_right done List.mem_cons_self)
    have fresh := fresh_of_nodup (shown.childNames_nodup names wanted) parts
    have still : ∀ rest, view.cutAll names done (names ++ [name] ++ rest) = view (names ++ [name] ++ rest) :=
      View.cutAll_of_not_mem fresh
    have there := still []
    rw [List.append_nil, found] at there
    obtain ⟨after, made, shown''⟩ := next shown' fits still there
    rw [View.cutAll_concat] at shown''
    rw [made]
    exact ⟨rfl, done ++ [name], by rw [parts, List.append_assoc]; rfl, shown''⟩

theorem deleteFiles (directory : view names = some .directory) :
    ∃ after, forEach (dropFile (viewAt root names)) ((viewAt root names).files disk) disk = (true, after) ∧
      after.Shown root place (view.strip names DirectoryNode.isFile) := by
  rw [shown.files_eq directory, forEach_map]
  refine shown.forEach_cuts names _ fun {s now name entry} shown' isFile _ found => ?_
  rw [dropFile, name_fileAt (shown'.proper found)]
  cases entry with
  | file bytes => exact shown'.deleteFile (shown'.directory_above found (by simp)) found
  | directory | link => cases isFile

theorem strip_strip (names : List String) :
    (view.strip names DirectoryNode.isFile).strip names DirectoryNode.isDirectory = view.clear names := by
  funext key
  by_cases below : names <+: key ∧ key ≠ names
  · rw [View.clear, if_pos below]
    obtain ⟨name, rest, rfl⟩ := View.exists_child_of_below below
    have own := View.strip_child view names DirectoryNode.isFile name []
    rw [List.append_nil] at own
    rw [View.strip_child, View.strip_child, own]
    cases found : view (names ++ [name]) with
    | none => simp only [shown.absent_below found, Option.any_none, Bool.false_eq_true, if_false]
    | some entry =>
      cases entry with
      | file bytes => rfl
      | directory => rfl
      | link text => exact absurd found (shown.not_link text)
  · rw [View.clear, if_neg below, View.strip_outside _ below, View.strip_outside _ below]

omit shown in
theorem deleteCleared (cleared : disk.Shown root place (view.clear (names ++ [name])))
    (found : view (names ++ [name]) = some .directory) :
    ∃ after, (viewAt root names).deleteSubdirectory disk name = (true, after) ∧
      after.Shown root place (view.cut (names ++ [name])) := by
  have there : view.clear (names ++ [name]) (names ++ [name]) = some .directory :=
    (View.clear_self ..).trans found
  have bare : ∀ other, view.clear (names ++ [name]) (names ++ [name] ++ [other]) = none :=
    fun _ => View.clear_below _ _ (by simp)
  have deleted := cleared.deleteSubdirectory (cleared.directory_above there (by simp)) there bare
  rwa [View.cut_clear] at deleted

/-- A directory is left empty: its files go first, then each of its directories is emptied and removed. -/
theorem cleanWithin {depth : Nat} (found : view (names ++ [name]) = some .directory)
    (room : ∀ more, view (names ++ [name] ++ more) = some .directory → more.length < depth) :
    ∃ after, cleanWithin depth disk (viewAt root names) name = (true, after) ∧
      after.Shown root place (view.clear (names ++ [name])) := by
  induction depth generalizing disk view names name with
  | zero => exact absurd (room [] (by rwa [List.append_nil])) (by simp)
  | succ depth ih =>
    have inner := shown.subdirectory?_eq (shown.directory_above found (by simp)) name
    simp only [found, Option.filter_some, DirectoryNode.isDirectory, if_true, Option.map_some] at inner
    obtain ⟨disk₁, files, shown₁⟩ := shown.deleteFiles found
    have found₁ : view.strip (names ++ [name]) DirectoryNode.isFile (names ++ [name]) = some .directory :=
      (View.strip_outside _ (by simp)).trans found
    have directories : ∃ after, forEach (dropSubdirectory depth (viewAt root (names ++ [name])))
        ((viewAt root (names ++ [name])).subdirectories disk₁) disk₁ = (true, after) ∧
        after.Shown root place (view.clear (names ++ [name])) := by
      rw [shown₁.subdirectories_eq found₁, forEach_map, ← shown.strip_strip]
      refine shown₁.forEach_cuts _ _ fun {s now other entry} shown' isDirectory still there => ?_
      cases entry with
      | file | link => cases isDirectory
      | directory =>
        obtain ⟨middle, cleaned, shown₂⟩ := ih shown' there fun more inside => by
          rw [still, View.strip_child] at inside
          split at inside
          · cases inside
          · have bound := room (other :: more) (by simpa using inside)
            simp only [List.length_cons] at bound
            omega
        obtain ⟨last, deleted, shown₃⟩ := shown₂.deleteCleared there
        refine ⟨last, ?_, shown₃⟩
        simp only [dropSubdirectory, name_viewAt (shown'.proper there), cleaned, deleted]
    obtain ⟨after, emptied, shown'⟩ := directories
    refine ⟨after, ?_, shown'⟩
    rw [cleanWithin_succ depth rfl inner]
    simp only [files, emptied, Bool.and_self]

theorem cleanSubdirectory (found : view (names ++ [name]) = some .directory) :
    ∃ after, (viewAt root names).cleanSubdirectory disk name = (true, after) ∧
      after.Shown root place (view.clear (names ++ [name])) := by
  refine shown.cleanWithin found fun more inside => ?_
  have stand := shown.stand (shown.directory_above found (by simp))
  rw [List.append_assoc] at inside
  have bound := stand.lt_reach ((shown.find? _).trans inside)
  simp only [List.length_append, List.length_cons, List.length_nil] at bound
  omega

theorem deleteTree (found : view (names ++ [name]) = some .directory) :
    ∃ after, (viewAt root names).deleteTree disk name = (true, after) ∧
      after.Shown root place (view.cut (names ++ [name])) := by
  obtain ⟨middle, cleaned, shown'⟩ := shown.cleanSubdirectory found
  obtain ⟨after, deleted, shown''⟩ := shown'.deleteCleared found
  refine ⟨after, ?_, shown''⟩
  simp only [DirectoryView.deleteTree, cleaned, deleted]

end Clean

section Copy

variable (shown : disk.Shown root place view)
include shown

theorem graftAll_childNames (source target : List String) (wanted : Entry → Bool) :
    view.graftAll source target (childNames disk (place ++ source) wanted) = view.fill source target wanted := by
  funext key
  by_cases below : target <+: key ∧ key ≠ target
  · obtain ⟨name, rest, rfl⟩ := View.exists_child_of_below below
    rw [View.fill_child]
    have listed : name ∈ childNames disk (place ++ source) wanted ↔ (view (source ++ [name])).any wanted = true := by
      rw [shown.mem_childNames, Option.any_eq_true]
    split
    · rename_i fits
      exact View.graftAll_of_mem (listed.mpr fits) rest
    · rename_i unfit
      exact View.graftAll_of_not_mem (fun among => unfit (listed.mp among)) rest
  · rw [View.graftAll_outside below, View.fill_outside _ below]

variable (directory : view target = some .directory) (apart : ¬ source <+: target) (apart' : ¬ target <+: source)
include directory apart apart'

theorem forEachUntil_grafts {step : Disk → String → Bool × Disk} {wanted : Entry → Bool}
    (bare : ∀ name, (view (source ++ [name])).any wanted = true → ∀ rest, view (target ++ [name] ++ rest) = none)
    (next : ∀ {s : Disk} {now : View} {name entry}, s.Shown root place now → wanted entry = true →
      now target = some .directory → (∀ rest, now (source ++ rest) = view (source ++ rest)) →
      now (source ++ [name]) = some entry → (∀ rest, now (target ++ [name] ++ rest) = none) →
      ∃ after, step s name = (true, after) ∧
        after.Shown root place (now.graft (source ++ [name]) (target ++ [name]))) :
    ∃ after, forEachUntil step (childNames disk (place ++ source) wanted) disk = (true, after) ∧
      after.Shown root place (view.fill source target wanted) := by
  rw [← shown.graftAll_childNames]
  refine forEachUntil_completes step (childNames disk (place ++ source) wanted)
    (fun done s => s.Shown root place (view.graftAll source target done)) ?_
    ((View.graftAll_nil view source target).symm ▸ shown)
  intro done name rest s parts shown'
  obtain ⟨entry, found, fits⟩ :=
    shown.mem_childNames.mp (parts ▸ List.mem_append_right done List.mem_cons_self)
  have fresh := fresh_of_nodup (shown.childNames_nodup source wanted) parts
  have still : ∀ rest, view.graftAll source target done (source ++ rest) = view (source ++ rest) :=
    fun rest => View.graftAll_outside fun inside => View.not_prefix_of_apart apart apart' rest inside.1
  obtain ⟨after, made, shown''⟩ := next shown' fits
    ((View.graftAll_outside (by simp)).trans directory) still ((still [name]).trans found) fun rest =>
      (View.graftAll_of_not_mem fresh rest).trans (bare name (by simp [found, fits]) rest)
  rw [View.graftAll_concat apart apart'] at shown''
  exact ⟨after, made, shown''⟩

theorem fill_fill (bare : ∀ name rest, view (target ++ [name] ++ rest) = none)
    (from_ : view source = some .directory) :
    (view.fill source target DirectoryNode.isFile).fill source target DirectoryNode.isDirectory =
      view.graft source target := by
  have still : ∀ rest, view.fill source target DirectoryNode.isFile (source ++ rest) = view (source ++ rest) :=
    fun rest => View.fill_outside _ fun inside => View.not_prefix_of_apart apart apart' rest inside.1
  funext key
  rw [View.graft]
  by_cases below : target <+: key ∧ key ≠ target
  · obtain ⟨name, rest, rfl⟩ := View.exists_child_of_below below
    rw [if_pos below.1, View.fill_child, View.fill_child, still, List.append_assoc source, still, bare,
      ← List.append_assoc, List.append_assoc target, List.drop_left, ← List.append_assoc]
    cases found : view (source ++ [name]) with
    | none => simp only [shown.absent_below found, Option.any_none, Bool.false_eq_true, if_false]
    | some entry =>
      cases entry with
      | file bytes => rfl
      | directory => rfl
      | link text => exact absurd found (shown.not_link text)
  · rw [View.fill_outside _ below, View.fill_outside _ below]
    split
    · rename_i inside
      have here : key = target := by
        by_contra other
        exact below ⟨inside, other⟩
      rw [here, directory, List.drop_length, List.append_nil, from_]
    · rfl

end Copy

section Copied

variable (shown : disk.Shown root place view)
include shown

theorem placeFiles (directory : view target = some .directory) (apart : ¬ source <+: target)
    (apart' : ¬ target <+: source) (from_ : view source = some .directory)
    (bare : ∀ name rest, view (target ++ [name] ++ rest) = none)
    (room : ∀ rest entry, view (source ++ rest) = some entry → root.admits (root.path ++ (target ++ rest)) = true)
    (fits : ∀ name bytes, view (source ++ [name]) = some (.file bytes) → bytes.length ≤ root.fileLimit) :
    ∃ after, forEachUntil (fun s file => (viewAt root target).placeFile s (file.name s) (file.readAll s))
        ((viewAt root source).files disk) disk = (true, after) ∧
      after.Shown root place (view.fill source target DirectoryNode.isFile) := by
  rw [shown.files_eq from_, forEachUntil_map]
  refine shown.forEachUntil_grafts directory apart apart' (fun name _ => bare name)
    fun {s now name entry} shown' isFile into still found free => ?_
  cases entry with
  | directory | link => cases isFile
  | file bytes =>
    have held := (still [name]).symm.trans found
    have short := fits name bytes held
    have vacant := free []
    rw [List.append_nil] at vacant
    rw [name_fileAt (shown'.proper found), shown'.file_readAll found,
      View.graft_file found (fun rest => shown'.nothing_below (by simp [found])) free]
    exact shown'.placeFile into (shown'.usable found name (by simp)) vacant (room [name] _ held) short

/-- A subdirectory is copied when a directory for it can be made and its tree can be copied into that. -/
theorem copyInto {depth : Nat} {name : String} (into : view target = some .directory)
    (apart : ¬ source <+: target) (found : view (source ++ [name]) = some .directory)
    (free : ∀ rest, view (target ++ [name] ++ rest) = none)
    (room : root.admits (root.path ++ (target ++ [name])) = true)
    (copies : ∀ {made : Disk} {now : View}, made.Shown root place now →
      now (target ++ [name]) = some .directory → (∀ other rest, now (target ++ [name] ++ [other] ++ rest) = none) →
      (∀ rest, now (source ++ [name] ++ rest) = view (source ++ [name] ++ rest)) →
      ∃ after, DirectoryView.copyTreeWithin depth made (viewAt root (source ++ [name]))
          (viewAt root (target ++ [name])) = (true, after) ∧
        after.Shown root place (now.graft (source ++ [name]) (target ++ [name]))) :
    ∃ after, DirectoryView.copyInto (DirectoryView.copyTreeWithin depth) (viewAt root target) disk
        (viewAt root (source ++ [name])) = (true, after) ∧
      after.Shown root place (view.graft (source ++ [name]) (target ++ [name])) := by
  have vacant := free []
  rw [List.append_nil] at vacant
  obtain ⟨made, created, shown'⟩ := shown.createSubdirectory into (shown.usable found name (by simp)) vacant room
  have aside := View.not_prefix_concat apart name
  obtain ⟨after, copied, shown''⟩ := copies shown' (if_pos rfl)
    (fun other rest => by rw [View.set, if_neg (by simp), List.append_assoc, free])
    fun rest => by
      rw [View.set, if_neg]
      exact fun same => aside ⟨rest, same⟩
  rw [View.graft_set _ aside] at shown''
  refine ⟨after, ?_, shown''⟩
  simp only [DirectoryView.copyInto, name_viewAt (shown.proper found), created, copied]

/-- A directory is copied into an empty one beside it: its files first, then each of its directories. -/
theorem copyTreeWithin {depth : Nat} (from_ : view source = some .directory)
    (directory : view target = some .directory) (apart : ¬ source <+: target) (apart' : ¬ target <+: source)
    (bare : ∀ name rest, view (target ++ [name] ++ rest) = none)
    (room : ∀ rest entry, view (source ++ rest) = some entry → root.admits (root.path ++ (target ++ rest)) = true)
    (fits : ∀ rest bytes, view (source ++ rest) = some (.file bytes) → bytes.length ≤ root.fileLimit)
    (deep : ∀ more, view (source ++ more) = some .directory → more.length < depth) :
    ∃ after, DirectoryView.copyTreeWithin depth disk (viewAt root source) (viewAt root target) = (true, after) ∧
      after.Shown root place (view.graft source target) := by
  induction depth generalizing disk view source target with
  | zero => exact absurd (deep [] (by rwa [List.append_nil])) (by simp)
  | succ depth ih =>
    obtain ⟨disk₁, placed, shown₁⟩ := shown.placeFiles directory apart apart' from_ bare room fun name => fits [name]
    rw [copyTreeWithin_of_placed placed, ← shown.fill_fill directory apart apart' bare from_]
    have still₁ : ∀ rest, view.fill source target DirectoryNode.isFile (source ++ rest) = view (source ++ rest) :=
      fun rest => View.fill_outside _ fun inside => View.not_prefix_of_apart apart apart' rest inside.1
    have from₁ := still₁ []
    rw [List.append_nil, from_] at from₁
    rw [shown₁.subdirectories_eq from₁, forEachUntil_map]
    refine shown₁.forEachUntil_grafts ((View.fill_outside _ (by simp)).trans directory) apart apart' ?_
      fun {s now name entry} shown' isDirectory into still found free => ?_
    · intro name isDirectory rest
      rw [still₁] at isDirectory
      rw [View.fill_child, bare]
      cases found : view (source ++ [name]) with
      | none => rfl
      | some entry =>
        cases entry with
        | directory => rfl
        | file | link => simp [found, DirectoryNode.isDirectory] at isDirectory
    · cases entry with
      | file | link => cases isDirectory
      | directory =>
        have held := (still₁ [name]).symm.trans ((still [name]).symm.trans found)
        refine shown'.copyInto into apart found free (room [name] _ held) fun {made inner} shown₂ into₂ bare₂ still₂ => ?_
        -- what is to be copied stands as it did before the files were copied
        have same : ∀ rest, inner (source ++ [name] ++ rest) = view (source ++ ([name] ++ rest)) := by
          intro rest
          rw [still₂, List.append_assoc, still, still₁]
        have from₂ := still₂ []
        rw [List.append_nil, found] at from₂
        refine ih shown₂ from₂ into₂ (View.not_prefix_concat apart name) (View.not_prefix_concat apart' name) bare₂
          (fun rest entry inside => ?_)
          (fun rest bytes inside => fits ([name] ++ rest) bytes ((same rest).symm.trans inside)) fun more inside => ?_
        · have taken := room ([name] ++ rest) entry ((same rest).symm.trans inside)
          rwa [← List.append_assoc target] at taken
        have bound := deep ([name] ++ more) ((same more).symm.trans inside)
        simp only [List.length_append, List.length_cons, List.length_nil] at bound
        omega

theorem copyTree (from_ : view source = some .directory) (directory : view target = some .directory)
    (apart : ¬ source <+: target) (apart' : ¬ target <+: source)
    (bare : ∀ name rest, view (target ++ [name] ++ rest) = none)
    (room : ∀ rest entry, view (source ++ rest) = some entry → root.admits (root.path ++ (target ++ rest)) = true)
    (fits : ∀ rest bytes, view (source ++ rest) = some (.file bytes) → bytes.length ≤ root.fileLimit) :
    ∃ after, (viewAt root source).copyTree disk (viewAt root target) = (true, after) ∧
      after.Shown root place (view.graft source target) := by
  exact shown.copyTreeWithin from_ directory apart apart' bare room fits fun more inside =>
    (shown.stand from_).lt_reach ((shown.find? _).trans inside)

end Copied

end Disk.Shown

end GuestStorage.Host
