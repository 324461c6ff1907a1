import GuestStorage.Proofs.Memory.Build
import GuestStorage.Proofs.Memory.Compare
import GuestStorage.Proofs.Memory.Copy
import GuestStorage.Proofs.Memory.Depth
import GuestStorage.Proofs.Memory.Renaming

namespace GuestStorage.Memory

open Keyed GuestStorage.Tree Node
open Stored (store)

/-- What is left when a directory is moved from one path to another: its files stand at either path, all
    of it stands at the new one if the move succeeded, and nothing stands differently elsewhere. -/
structure KeepsData (s s' : Store) (result : Except Error Unit) (top : Node)
    (source target : List String) : Prop where
  kept : ∀ rest bytes, top.content? s (source ++ rest) = some (.file bytes) →
    top.content? s' (source ++ rest) = some (.file bytes) ∨
      top.content? s' (target ++ rest) = some (.file bytes)
  moved : result = .ok () → ∀ rest, top.content? s' (source ++ rest) = none ∧
    top.content? s' (target ++ rest) = top.content? s (source ++ rest)
  outside : ∀ path, ¬ source <+: path → ¬ target <+: path → top.lookup s' path = top.lookup s path

variable {s s' : Store} {result : Except Error Unit} {top y z : Node} {source target : List String}

theorem content?_of_lookup {x : Node} {path : List String} (same : x.lookup s' path = x.lookup s path) :
    x.content? s' path = x.content? s path := by rw [content?, same, content?]

theorem content?_of_opened {x : Node} {path other : List String}
    (same : x.lookup s' path = (y.lookup s other).map Entry.opened) :
    x.content? s' path = y.content? s other := by
  rw [content?, same, Option.map_map, content?]
  rfl

theorem KeepsData.of_failure (failed : result ≠ .ok ())
    (unmet : ∀ rest, ¬ target <+: source ++ rest)
    (outside : ∀ path, ¬ target <+: path → top.lookup s' path = top.lookup s path) :
    KeepsData s s' result top source target := by
  refine ⟨?_, fun succeeded => absurd succeeded failed, fun path _ => outside path⟩
  intro rest bytes shown
  left
  rw [content?_of_lookup (outside _ (unmet rest)), shown]

theorem KeepsData.unchanged (failed : result ≠ .ok ()) (same : s' = s) :
    KeepsData s s' result top source target := by
  subst same
  exact ⟨fun _ _ shown => .inl shown, fun succeeded => absurd succeeded failed, fun _ _ _ => rfl⟩

/-- Nothing below one path is below a path where nothing stands, unless the one is below the other. -/
theorem not_prefix_of_absent (reached : top.descend? s source = some y)
    (absent : top.descend? s target = none) (apart : ¬ source <+: target) (rest : List String) :
    ¬ target <+: source ++ rest ∧ ¬ source <+: target ++ rest := by
  have shorter : ¬ target <+: source := by
    rintro ⟨more, rfl⟩
    rw [descend?_append, absent] at reached
    cases reached
  refine ⟨fun below => ?_, fun below => ?_⟩
  · rcases List.prefix_or_prefix_of_prefix below (List.prefix_append source rest) with within | within
    · exact shorter within
    · exact apart within
  · rcases List.prefix_or_prefix_of_prefix below (List.prefix_append target rest) with within | within
    · exact apart within
    · exact shorter within

variable {σ : Type} [Backing σ FileId DirectoryId] [Stored σ] {t t₁ t₂ : σ}

theorem deleteTree_outside (sound : (store t).Sound) {path : List String} {home : DirectoryId}
    {name : String} (reached : top.descend? (store t) path = some y)
    (found : (Node.directory home).child? (store t) name = some y) {other : List String}
    (apart : ¬ path <+: other) :
    top.lookup (store ((DirectoryView.direct home).deleteTree t name).2) other =
      top.lookup (store t) other := by
  obtain ⟨done, t', lost, removed, sound', cuts, below, -⟩ := deleteTree_removes sound home name
  rw [removed]
  refine cuts.lookup_outside sound sound' reached (fun z gone => ?_) apart
  obtain ⟨child, there, within⟩ := below z gone
  rw [found] at there
  exact Option.some.inj there ▸ within

/-- A directory together with a complete copy of it: the copy shows, opened, what the directory showed before,
    and nothing is different outside the copy. -/
structure Doubled (s s' : Store) (top : Node) (source target : List String) (dir new : DirectoryId) : Prop where
  here : top.descend? s' source = some (.directory dir)
  there : top.descend? s' target = some (.directory new)
  unmet : ∀ rest, ¬ target <+: source ++ rest ∧ ¬ source <+: target ++ rest
  outside : ∀ path, ¬ target <+: path → top.lookup s' path = top.lookup s path
  whole : ∀ rest, top.lookup s' (target ++ rest) = (top.lookup s (source ++ rest)).map Entry.opened

namespace Doubled

variable {s₂ s₃ : Store} {lost : List Node} {dir new : DirectoryId}

section Cut

variable (doubled : Doubled s s₂ top source target dir new) (sound₂ : s₂.Sound) (sound₃ : s₃.Sound)
  (cuts : Cuts s₂ s₃ lost) (within : ∀ z ∈ lost, Within s₂ (.directory dir) z)
include doubled sound₂ sound₃ cuts within

theorem arrived (rest : List String) :
    top.content? s₃ (target ++ rest) = top.content? s (source ++ rest) := by
  have away := cuts.lookup_outside sound₂ sound₃ doubled.here within (doubled.unmet rest).2
  rw [content?_of_lookup away, content?_of_opened (doubled.whole rest)]

theorem content?_cut (rest : List String) :
    (Node.directory new).content? s₃ rest = (Node.directory dir).content? s₂ rest := by
  have still : top.descend? s₃ target = some (.directory new) := by
    have unmet := (doubled.unmet []).2
    rw [List.append_nil] at unmet
    rw [cuts.descend?_outside sound₂ sound₃ doubled.here within unmet, doubled.there]
  rw [← content?_append still, doubled.arrived sound₂ sound₃ cuts within rest, ← content?_append doubled.here]
  exact (content?_of_lookup (doubled.outside _ (doubled.unmet rest).1)).symm

theorem keepsData_cut (proper : source ≠ []) (gone : result = .ok () → .directory dir ∈ lost) :
    KeepsData s s₃ result top source target := by
  have arrived := doubled.arrived sound₂ sound₃ cuts within
  refine ⟨fun rest bytes shown => .inr (arrived rest ▸ shown),
    fun succeeded rest => ⟨?_, arrived rest⟩, fun path fromSource fromTarget => ?_⟩
  · have absent : top.lookup s₃ (source ++ rest) = none :=
      cuts.lookup_lost sound₂ sound₃ doubled.here proper (List.prefix_append _ rest)
        (gone succeeded)
    rw [content?, absent]
    rfl
  · rw [cuts.lookup_outside sound₂ sound₃ doubled.here within fromSource, doubled.outside path fromTarget]

end Cut

theorem keepsData_dropped {t₃ : σ} {home : DirectoryId} {name : String}
    (doubled : Doubled s s₂ top source target dir new) (sound₂ : s₂.Sound) (sound₃ : (store t₃).Sound)
    (cuts : Cuts s₂ (store t₃) lost) (failed : result ≠ .ok ()) (intact : ∀ z, z ∉ lost)
    (found : (Node.directory home).child? (store t₃) name = some (.directory new)) :
    KeepsData s (store ((DirectoryView.direct home).deleteTree t₃ name).2) result top source target := by
  have still : top.descend? (store t₃) target = some (.directory new) := by
    rw [cuts.descend?_kept sound₂ sound₃ fun _ z _ _ _ => intact z, doubled.there]
  refine .of_failure failed (fun rest => (doubled.unmet rest).1) fun path aside => ?_
  rw [deleteTree_outside sound₃ still found aside,
    cuts.lookup_kept sound₂ sound₃ fun _ z _ _ _ => intact z, doubled.outside path aside]

end Doubled

section Moving

variable {front back : List String} {name newName : String} {dir oldHome newHome new : DirectoryId}
  (sound : (store t).Sound)
  (fromTop : top.descend? (store t) front = some (.directory oldHome))
  (toTop : top.descend? (store t) back = some (.directory newHome))
  (found : (Node.directory oldHome).child? (store t) name = some (.directory dir))
  (free : (Node.directory newHome).child? (store t) newName = none)
  (apart : ¬ front ++ [name] <+: back ++ [newName])

include sound fromTop toTop found free apart

/-- A complete copy shows at the new path what stands at the old one and accepts changes, and copying
    changes nothing elsewhere. -/
theorem copyTree_grows (sound₁ : (store t₁).Sound)
    (adds : Adds (store t) (store t₁) (.directory newHome) (.directory new) newName ⟨.directory, true⟩) :
    ∃ complete t₂, (DirectoryView.direct dir).copyTree t₁ (.direct new) = (complete, t₂) ∧
      (store t₂).Sound ∧ Grows (store t) (store t₂) (.directory newHome) ∧
      (Node.directory oldHome).child? (store t₂) name = some (.directory dir) ∧
      (Node.directory newHome).child? (store t₂) newName = some (.directory new) ∧
      top.descend? (store t₂) (front ++ [name]) = some (.directory dir) ∧
      top.descend? (store t₂) (back ++ [newName]) = some (.directory new) ∧
      (∀ path, ¬ back ++ [newName] <+: path → top.lookup (store t₂) path = top.lookup (store t) path) ∧
      (complete = true → ∀ rest, top.lookup (store t₂) (back ++ [newName] ++ rest) =
        (top.lookup (store t) (front ++ [name] ++ rest)).map Entry.opened) := by
  have here : top.descend? (store t) (front ++ [name]) = some (.directory dir) := by
    rw [descend?_concat, fromTop]
    exact found
  have absent : top.descend? (store t) (back ++ [newName]) = none := by
    rw [descend?_concat, toTop]
    exact free
  have grown₁ := adds.grows sound
  have child : (Node.directory newHome).child? (store t₁) newName = some (.directory new) := by
    rw [adds.child? sound sound₁ free, if_pos ⟨rfl, rfl⟩]
  have there : top.descend? (store t₁) (back ++ [newName]) = some (.directory new) := by
    rw [descend?_concat, grown₁.descend? sound sound₁ toTop]
    exact child
  have still := grown₁.descend? sound sound₁ here
  have held := (sound.parent_held (sound.child?_eq_some.mp found).1).2
  have present : (Node.directory new).held (store t₁) = true := (adds.held _).mpr (.inl rfl)
  -- otherwise the path of the copy would begin with that of the source
  have isOutside : ¬ Within (store t₁) (.directory dir) (.directory new) :=
    fun within => apart (sound₁.prefix_of_within still within there)
  obtain ⟨complete, t₂, copied, sound₂, grown₂, whole⟩ := copyTreeWithin_copies
    (Backing.reach t₁ dir) t₁ dir new sound₁ (grown₁.held _ held) present isOutside
    (adds.bare sound sound₁)
  have outside : ∀ path, ¬ back ++ [newName] <+: path → top.lookup (store t₂) path = top.lookup (store t) path := by
    intro path away
    rw [grown₂.lookup_outside sound₁ sound₂ there present away,
      adds.lookup sound sound₁ free toTop, if_neg]
    rintro rfl
    exact away (List.prefix_refl _)
  refine ⟨complete, t₂, copied, sound₂, adds.grows_below sound grown₂, ?_, ?_, ?_, ?_, outside,
    fun succeeded rest => ?_⟩
  · exact grown₂.child?_of_some sound₁ sound₂ (grown₁.child?_of_some sound sound₁ found)
  · exact grown₂.child?_of_some sound₁ sound₂ child
  · exact grown₂.descend? sound₁ sound₂ still
  · exact grown₂.descend? sound₁ sound₂ there
  · rw [lookup_append (grown₂.descend? sound₁ sound₂ there)]
    cases rest with
    | nil =>
      rw [lookup_append here, lookup_nil, lookup_nil, grown₂.entry _ present, adds.entry, if_pos rfl]
      rfl
    | cons other rest =>
      have unmet := (not_prefix_of_absent here absent apart (other :: rest)).1
      rw [whole succeeded, ← lookup_append still, adds.lookup sound sound₁ free toTop, if_neg]
      intro same
      exact unmet (same ▸ List.prefix_refl _)

omit sound fromTop toTop found free apart in
theorem Cuts.nothing_lost {lost : List Node} {home : DirectoryId} (cuts : Cuts (store t) (store t₁) lost)
    (sound : (store t).Sound) (sound' : (store t₁).Sound)
    (source : (Node.directory home).child? (store t) name = some (.directory dir))
    (within : ∀ z ∈ lost, Within (store t) (.directory dir) z)
    (same : ∀ rest, (Node.directory new).content? (store t₁) rest =
      (Node.directory dir).content? (store t) rest)
    (complete : ((DirectoryView.direct home).subdirectory? t₁ name).any
      (·.sameShape t₁ (.direct new)) = true) : ∀ z, z ∉ lost := by
  rw [direct_subdirectory?, Option.any_map, Option.any_eq_true] at complete
  obtain ⟨left, still, equal⟩ := complete
  obtain ⟨before, kept⟩ :=
    (cuts.child?_eq_some sound sound').mp (child?_directory_eq_some.mpr still)
  rw [source] at before
  obtain rfl := Node.directory.inj (Option.some.inj before)
  intro z gone
  refine sameShapeWithin_complete _ sound sound' cuts same equal z gone ⟨within z gone, ?_⟩
  rintro rfl
  exact kept gone

theorem moveDirectory_keeps :
    KeepsData (store t)
      (store (Mount.moveDirectory t (.direct dir) (.direct oldHome) name (.direct newHome) newName).2)
      (Mount.moveDirectory t (.direct dir) (.direct oldHome) name (.direct newHome) newName).1
      top (front ++ [name]) (back ++ [newName]) := by
  rw [Mount.moveDirectory]
  split
  · exact .unchanged (by simp) rfl
  · obtain ⟨t₁, ⟨refused, same⟩ | ⟨new, created, sound₁, -, adds⟩⟩ :=
      direct_createSubdirectory sound newHome newName
    · rw [refused]
      exact .unchanged (by simp) same
    · rw [created]
      dsimp only
      obtain ⟨complete, t₂, copied, sound₂, -, source, target, fromTop₂, toTop₂, outside, whole⟩ :=
        copyTree_grows sound fromTop toTop found free apart sound₁ adds
      have unmet := not_prefix_of_absent ((descend?_concat_of_reached fromTop _).trans found)
        ((descend?_concat_of_reached toTop _).trans free) apart
      rw [copied]
      cases complete with
      | false =>
        refine .of_failure (by simp) (fun rest => (unmet rest).1) fun path away => ?_
        exact (deleteTree_outside sound₂ toTop₂ target away).trans (outside path away)
      | true =>
        have doubled : Doubled (store t) (store t₂) top (front ++ [name]) (back ++ [newName]) dir new :=
          ⟨fromTop₂, toTop₂, unmet, outside, whole rfl⟩
        obtain ⟨done, t₃, lost, removed, sound₃, cuts, below, gone⟩ :=
          deleteTree_removes sound₂ oldHome name
        have within : ∀ z ∈ lost, Within (store t₂) (.directory dir) z := by
          intro z left
          obtain ⟨child, there, inside⟩ := below z left
          rw [source] at there
          exact Option.some.inj there ▸ inside
        dsimp only
        rw [removed]
        cases done with
        | true =>
          refine doubled.keepsData_cut sound₂ sound₃ cuts within (by simp) fun _ => ?_
          obtain ⟨child, left, there⟩ := gone rfl
          rw [source] at there
          exact Option.some.inj there ▸ left
        | false =>
          dsimp only
          split
          · -- the source is as it was, so the copy is taken away again
            rename_i complete
            have intact := cuts.nothing_lost sound₂ sound₃ source within
              (doubled.content?_cut sound₂ sound₃ cuts within) complete
            have target₃ := (cuts.child?_eq_some sound₂ sound₃).mpr ⟨target, intact _⟩
            exact doubled.keepsData_dropped sound₂ sound₃ cuts (by simp) intact target₃
          · exact doubled.keepsData_cut sound₂ sound₃ cuts within (by simp) (by simp)

end Moving

theorem Renames.keepsData {holder node : Node} {path : List String} {old called : String}
    (effect : Renames s s' node called) (sound : s.Sound) (sound' : s'.Sound)
    (reached : top.descend? s path = some holder) (found : holder.child? s old = some node)
    (free : holder.child? s called = none) :
    KeepsData s s' (.ok ()) top (path ++ [old]) (path ++ [called]) := by
  have lookup := effect.lookup sound sound' reached found free
  have here : top.descend? s (path ++ [old]) = some node := by
    rw [descend?_concat, reached]
    exact found
  have absent : top.descend? s (path ++ [called]) = none := by
    rw [descend?_concat, reached]
    exact free
  have apart : ¬ path ++ [old] <+: path ++ [called] := by
    intro within
    rw [within.eq_of_length (by simp), absent] at here
    cases here
  have unmet := not_prefix_of_absent here absent apart
  have arrived : ∀ rest, top.content? s' (path ++ [called] ++ rest) =
      top.content? s (path ++ [old] ++ rest) := by
    intro rest
    rw [content?, lookup, rekey_target, content?]
  refine ⟨fun rest bytes shown => .inr (arrived rest ▸ shown), fun _ rest => ⟨?_, arrived rest⟩, ?_⟩
  · rw [content?, lookup, rekey, if_neg (unmet rest).1, if_pos (List.prefix_append _ rest)]
    rfl
  · intro other fromSource fromTarget
    rw [lookup, rekey, if_neg fromTarget, if_neg fromSource]

/-- Seen from anywhere above the mounted directory, renaming a directory keeps all data, and a directory
    renamed to its own path stays as it is. -/
theorem mount_renameDirectory_keeps (sound : (store t).Sound) {root : DirectoryId} {above : List String}
    (reached : top.descend? (store t) above = some (.directory root)) (source target : String) :
    let outcome := Mount.renameDirectory t ⟨.direct root⟩ source target
    store outcome.2 = store t ∧ (outcome.1 = .ok () → plainNames source = plainNames target) ∨
      KeepsData (store t) (store outcome.2) outcome.1 top (above ++ plainNames source)
        (above ++ plainNames target) := by
  intro outcome
  have fromTop : ∀ {front home}, (Node.directory root).descend? (store t) front = some (.directory home) →
      top.descend? (store t) (above ++ front) = some (.directory home) :=
    fun there => (descend?_append_of_reached reached _).trans there
  have course : Renaming _ _ t root (plainNames source) (plainNames target) outcome :=
    mount_renameDirectory_renaming sound source target
  generalize outcome = outcome at course
  cases course with
  | refused e same => exact .inl ⟨same, by simp⟩
  | own same => exact .inl ⟨rfl, fun _ => same⟩
  | inPlace origin aim there child free sound' effect =>
    rw [origin, aim, ← List.append_assoc, ← List.append_assoc]
    exact .inr (effect.keepsData sound sound' (fromTop there) child free)
  | moved origin aim there there' child free elsewhere apart =>
    rw [origin, aim, ← List.append_assoc, ← List.append_assoc]
    refine .inr (moveDirectory_keeps sound (fromTop there) (fromTop there') child free ?_)
    simpa [List.append_assoc] using apart

/-- Renaming a directory in memory, whatever its nodes refuse. Every file below the old path is found
    with all its bytes below the old or the new path; a success at another path leaves nothing at the old
    one and at the new one all that stood at the old; and from any directory above the mounted one,
    nothing looks different outside the two paths. -/
theorem Guarded.renameDirectory_keeps_data (g : Guarded) (sound : g.store.Sound) (root : DirectoryId)
    (source target : String) :
    let outcome := Mount.renameDirectory g ⟨.direct root⟩ source target
    let after := outcome.2.store
    let mounted := Node.directory root
    let old := plainNames source
    let new := plainNames target
    (∀ rest bytes, mounted.content? g.store (old ++ rest) = some (.file bytes) →
      mounted.content? after (old ++ rest) = some (.file bytes) ∨
        mounted.content? after (new ++ rest) = some (.file bytes)) ∧
    (outcome.1 = .ok () → old ≠ new → ∀ rest, mounted.content? after (old ++ rest) = none ∧
      mounted.content? after (new ++ rest) = mounted.content? g.store (old ++ rest)) ∧
    (∀ (top : Node) above, top.descend? g.store above = some mounted → ∀ path,
      ¬ above ++ old <+: path → ¬ above ++ new <+: path →
        top.lookup after path = top.lookup g.store path) := by
  intro outcome after mounted old new
  have keeps := fun (top : Node) (above : List String)
    (reached : top.descend? g.store above = some (.directory root)) =>
      mount_renameDirectory_keeps (t := g) sound reached source target
  refine ⟨?_, ?_, ?_⟩
  · intro rest bytes shown
    rcases keeps mounted [] rfl with ⟨same, -⟩ | keeps
    · have unchanged : after = g.store := same
      exact .inl (unchanged ▸ shown)
    · exact keeps.kept rest bytes shown
  · intro succeeded apart rest
    rcases keeps mounted [] rfl with ⟨-, own⟩ | keeps
    · exact absurd (own succeeded) apart
    · exact keeps.moved succeeded rest
  · intro top above reached path fromOld fromNew
    rcases keeps top above reached with ⟨same, -⟩ | keeps
    · exact congrArg (top.lookup · path) same
    · exact keeps.outside path fromOld fromNew

def stuckTree : Guarded where
  store := (Store.empty.plant "root" false
    [.directory "a" [.file "f" [1, 2] true, .directory "deep" [.file "g" [3] false] false] false,
      .directory "b" [] false]).2
  ofDirectory path := { deleteFile := path == "root/a/deep" }

theorem stuckTree_keeps_data :
    stuckTree.store.Sound ∧
      (Mount.renameDirectory stuckTree ⟨.direct ⟨0⟩⟩ "a" "b/c").1 = .error .operationFailed ∧
      ((Node.directory ⟨0⟩).content? (Mount.renameDirectory stuckTree ⟨.direct ⟨0⟩⟩ "a" "b/c").2.store
          ["a", "f"] = some (.file [1, 2]) ∨
        (Node.directory ⟨0⟩).content? (Mount.renameDirectory stuckTree ⟨.direct ⟨0⟩⟩ "a" "b/c").2.store
          ["b", "c", "f"] = some (.file [1, 2])) :=
  ⟨Store.plant_sound Store.empty_sound _ _ _, by decide +kernel,
    (stuckTree.renameDirectory_keeps_data (Store.plant_sound Store.empty_sound _ _ _) ⟨0⟩ "a" "b/c").1
      ["f"] [1, 2] (by decide +kernel)⟩

end GuestStorage.Memory
