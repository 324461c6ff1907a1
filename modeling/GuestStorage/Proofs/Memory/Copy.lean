import GuestStorage.Proofs.Memory.Stored
import GuestStorage.Proofs.Tree.Loops

namespace GuestStorage.Bytes

theorem overwrite_whole {bytes data : Bytes} (covered : bytes.length ≤ data.length) :
    bytes.overwrite 0 data = data := by
  have gone : bytes.drop (0 + data.length) = [] := List.drop_eq_nil_of_le (by omega)
  rw [overwrite, gone]
  simp [resize, zeros]

end GuestStorage.Bytes

namespace GuestStorage.Memory

open GuestStorage.Tree Node
open Stored (store)

variable {s₀ s s' : Store} {y target new : Node} {done : List Node}

/-- A directory shows what some of the nodes of an earlier store showed, under their names, and has
    nothing else; all old nodes outside are as they were. -/
structure Mirrors (s₀ s : Store) (target : Node) (done : List Node) : Prop where
  grown : Grows s₀ s target
  sound : s.Sound
  shown : ∀ y ∈ done, ∀ rest,
    target.lookup s (y.name s₀ :: rest) = (y.lookup s₀ rest).map Entry.opened
  only : ∀ name, name ∉ done.map (Node.name s₀) → target.child? s name = none

theorem file_lookup (s : Store) (file : FileId) (name : String) (rest : List String) :
    (Node.file file).lookup s (name :: rest) = none := by
  rw [lookup_cons]
  rfl

theorem lookup_nil (s : Store) (x : Node) : x.lookup s [] = some (x.entry s) := rfl

theorem Mirrors.add (before : Mirrors s₀ s target done) (grown : Grows s s' target) (sound : s'.Sound)
    (free : target.child? s (y.name s₀) = none)
    (found : target.child? s' (y.name s₀) = some new)
    (same : ∀ rest, new.lookup s' rest = (y.lookup s₀ rest).map Entry.opened)
    (others : ∀ name, name ≠ y.name s₀ → target.child? s' name = target.child? s name) :
    Mirrors s₀ s' target (done ++ [y]) := by
  refine ⟨before.grown.trans grown, sound, ?_, ?_⟩
  · intro z among rest
    rcases List.mem_append.mp among with earlier | last
    · have shown := before.shown z earlier
      have present : target.child? s (z.name s₀) ≠ none := by
        intro absent
        have empty := shown []
        rw [lookup_cons, absent, lookup_nil] at empty
        cases empty
      have apart : z.name s₀ ≠ y.name s₀ := fun equal => present (equal ▸ free)
      obtain ⟨child, there⟩ := Option.ne_none_iff_exists'.mp present
      have owned := (before.sound.child?_eq_some.mp there).1
      have outside : ¬ Within s child target := by
        rintro ⟨path, back⟩
        have around : target.descend? s (z.name s₀ :: path) = some target := by
          rw [descend?_cons, there]
          exact back
        cases before.sound.no_cycle around
      have kept := grown.lookup_apart before.sound sound (before.sound.parent_held owned).2 outside rest
      rw [← shown rest, lookup_cons, lookup_cons, others _ apart, there, Option.bind_some,
        Option.bind_some, kept]
    · obtain rfl := List.mem_singleton.mp last
      rw [lookup_cons, found]
      exact same rest
  · intro name fresh
    rw [List.map_append, List.mem_append, not_or] at fresh
    rw [others name (by simpa using fresh.2)]
    exact before.only name fresh.1

variable {σ : Type} [Backing σ FileId DirectoryId] [Stored σ]

theorem placeFile_cases {t : σ} (sound : (store t).Sound) (dir : DirectoryId) (name : String)
    (data : Bytes) :
    ∃ complete t', (DirectoryView.direct dir).placeFile t name data = (complete, t') ∧
      (store t').Sound ∧ Grows (store t) (store t') (.directory dir) ∧
      (complete = true → ∃ file, (Node.directory dir).child? (store t) name = none ∧
        (Node.directory dir).child? (store t') name = some (.file file) ∧
        (Node.file file).entry (store t') = ⟨.file data, true⟩ ∧
        ∀ other, other ≠ name →
          (Node.directory dir).child? (store t') other = (Node.directory dir).child? (store t) other) := by
  rw [DirectoryView.placeFile]
  obtain ⟨t₁, ⟨refused, same⟩ | ⟨file, created, sound₁, free, adds⟩⟩ := direct_createFile sound dir name
  · rw [refused]
    exact ⟨false, t₁, rfl, same ▸ sound, same ▸ .refl _ sound _, by simp⟩
  · rw [created]
    dsimp only
    have held : (Node.file file).held (store t₁) = true := (adds.held _).mpr (.inl rfl)
    obtain ⟨t₂, ⟨refused, same⟩ | ⟨resized, sound₂, sizes⟩⟩ := direct_resize sound₁ file held data.length
    · rw [refused]
      exact ⟨false, t₂, rfl, same ▸ sound₁, same ▸ adds.grows sound, by simp⟩
    · rw [adds.fileWritable] at sizes
      rw [resized]
      dsimp only
      have held₂ : (Node.file file).held (store t₂) = true := (sizes.held _).trans held
      have placed : ∀ {t₃ : σ}, (store t₃).Sound →
          Adds (store t) (store t₃) (.directory dir) (.file file) name ⟨.file data, true⟩ →
          ∃ file, (Node.directory dir).child? (store t) name = none ∧
            (Node.directory dir).child? (store t₃) name = some (.file file) ∧
            (Node.file file).entry (store t₃) = ⟨.file data, true⟩ ∧
            ∀ other, other ≠ name →
              (Node.directory dir).child? (store t₃) other =
                (Node.directory dir).child? (store t) other := by
        intro t₃ sound₃ whole
        refine ⟨file, free, ?_, ?_, fun other apart => ?_⟩
        · rw [whole.child? sound sound₃ free, if_pos ⟨rfl, rfl⟩]
        · rw [whole.entry, if_pos rfl]
        · rw [whole.child? sound sound₃ free, if_neg fun both => apart both.2]
      obtain ⟨t₃, ⟨refused, same⟩ | ⟨sent, first, wrote, sound₃, writes⟩⟩ :=
        direct_write sound₂ file held₂ 0 data
      · rw [refused]
        have both := adds.refilled sizes
        refine ⟨_, t₃, rfl, same ▸ sound₂, same ▸ both.grows sound, ?_⟩
        intro complete
        -- no byte has arrived, so the file is complete only if there was none to write
        have empty : data = [] := List.length_eq_zero_iff.mp (beq_iff_eq.mp complete).symm
        rw [same]
        refine placed sound₂ ?_
        simpa [adds.fileBytes, empty, Bytes.resize, Bytes.zeros] using both
      · rw [wrote]
        have both := (adds.refilled sizes).refilled writes
        refine ⟨_, t₃, rfl, sound₃, both.grows sound, ?_⟩
        intro complete
        have whole : sent = data := first.eq_of_length (by simpa using complete)
        refine placed sound₃ ?_
        rw [sizes.fileBytes, sizes.fileWritable, whole, Bytes.overwrite_whole (by simp)] at both
        exact both

theorem Mirrors.lookup {dir inner : DirectoryId}
    (mirrored : Mirrors s₀ s (.directory inner) done) (sound : s₀.Sound)
    (all : ∀ y, y ∈ done ↔ y.parent? s₀ = some (.directory dir)) (name : String) (rest : List String) :
    (Node.directory inner).lookup s (name :: rest) =
      ((Node.directory dir).lookup s₀ (name :: rest)).map Entry.opened := by
  rw [lookup_cons name rest (s := s₀)]
  cases found : (Node.directory dir).child? s₀ name with
  | some y =>
    obtain ⟨owned, rfl⟩ := sound.child?_eq_some.mp found
    exact mirrored.shown y ((all y).mpr owned) rest
  | none =>
    have fresh : name ∉ done.map (Node.name s₀) := by
      intro among
      obtain ⟨y, listed, named⟩ := List.mem_map.mp among
      have there := sound.child?_eq_some.mpr ⟨(all y).mp listed, named⟩
      simp [found] at there
    rw [lookup_cons, mirrored.only name fresh]
    rfl

theorem Mirrors.start (sound : s.Sound) (bare : ∀ name, target.child? s name = none) :
    Mirrors s s target [] :=
  ⟨.refl s sound target, sound, by simp, fun name _ => bare name⟩

/-- An operation that copies a directory: it grows what lies below the target and does nothing else. A
    complete copy of a directory outside the target into an empty one shows what the directory shows. -/
def Copies (copy : σ → DirectoryView DirectoryId → DirectoryView DirectoryId → Bool × σ) : Prop :=
  ∀ (t : σ) (source target : DirectoryId), (store t).Sound →
    (Node.directory source).held (store t) = true → (Node.directory target).held (store t) = true →
    ¬ Within (store t) (.directory source) (.directory target) →
    (∀ name, (Node.directory target).child? (store t) name = none) →
    ∃ complete t', copy t (.direct source) (.direct target) = (complete, t') ∧ (store t').Sound ∧
      Grows (store t) (store t') (.directory target) ∧
      (complete = true → ∀ name rest, (Node.directory target).lookup (store t') (name :: rest) =
        ((Node.directory source).lookup (store t) (name :: rest)).map Entry.opened)

section Steps

variable {t₀ t : σ} {inner : DirectoryId}

theorem Mirrors.placeFile (before : Mirrors (store t₀) (store t) (.directory inner) done)
    {file : FileId} (held : (Node.file file).held (store t₀) = true) :
    ∃ complete t', (DirectoryView.direct inner).placeFile t ((FileView.direct file).name t)
        ((FileView.direct file).readAll t) = (complete, t') ∧ (store t').Sound ∧
      Grows (store t₀) (store t') (.directory inner) ∧
      (complete = true → Mirrors (store t₀) (store t') (.directory inner) (done ++ [.file file])) := by
  have named : (store t).fileName file = (Node.file file).name (store t₀) := before.grown.name _ held
  have filled : (store t).fileBytes file = (store t₀).fileBytes file := by
    have shown := before.grown.entry _ held
    exact Content.file.inj (congrArg Entry.content shown)
  obtain ⟨complete, t', placed, sound, grown, whole⟩ := placeFile_cases before.sound inner
    ((FileView.direct file).name t) ((FileView.direct file).readAll t)
  refine ⟨complete, t', placed, sound, before.grown.trans grown, fun succeeded => ?_⟩
  obtain ⟨new, free, found, entry, others⟩ := whole succeeded
  rw [direct_file_name, named] at free found others
  rw [direct_readAll, filled] at entry
  refine before.add grown sound free found ?_ others
  intro rest
  cases rest with
  | nil =>
    rw [lookup_nil, lookup_nil, entry]
    rfl
  | cons name rest =>
    rw [file_lookup, file_lookup]
    rfl

omit [Stored σ] [Backing σ FileId DirectoryId] in
theorem Mirrors.added {s₁ : Store} {sub inner copy : DirectoryId} {called : String} {shown : Entry}
    (before : Mirrors s₀ s (.directory inner) done) (sound₀ : s₀.Sound)
    (present : (Node.directory inner).held s₀ = true) (held : (Node.directory sub).held s₀ = true)
    (apart : ¬ Within s₀ (.directory sub) (.directory inner)) (sound₁ : s₁.Sound)
    (adds : Adds s s₁ (.directory inner) (.directory copy) called shown) :
    Grows s₀ s₁ (.directory inner) ∧ (Node.directory sub).held s₁ = true ∧
      (Node.directory copy).held s₁ = true ∧ ¬ Within s₁ (.directory sub) (.directory copy) ∧
      ∀ name, (Node.directory copy).child? s₁ name = none := by
  have grown := before.grown.trans (adds.grows before.sound)
  have old := before.grown.held _ held
  refine ⟨grown, grown.held _ held, (adds.held _).mpr (.inl rfl), ?_, adds.bare before.sound sound₁⟩
  rintro ⟨path, reached⟩
  rcases List.eq_nil_or_concat' path with rfl | ⟨front, last, rfl⟩
  · obtain same := Option.some.inj reached
    rw [same, adds.fresh] at old
    cases old
  · obtain ⟨holder, above, owned, -⟩ := sound₁.descend?_concat_eq_some.mp reached
    rw [adds.parent?, if_pos rfl] at owned
    obtain rfl := Option.some.inj owned
    exact apart (grown.within sound₀ sound₁ present ⟨front, above⟩)

theorem Mirrors.copySubdirectory
    {copy : σ → DirectoryView DirectoryId → DirectoryView DirectoryId → Bool × σ} (copies : Copies copy)
    (before : Mirrors (store t₀) (store t) (.directory inner) done) (sound₀ : (store t₀).Sound)
    (present : (Node.directory inner).held (store t₀) = true) {sub : DirectoryId}
    (held : (Node.directory sub).held (store t₀) = true)
    (apart : ¬ Within (store t₀) (.directory sub) (.directory inner)) :
    ∃ complete t', DirectoryView.copyInto copy (.direct inner) t (.direct sub) = (complete, t') ∧
      (store t').Sound ∧ Grows (store t₀) (store t') (.directory inner) ∧
      (complete = true → Mirrors (store t₀) (store t') (.directory inner) (done ++ [.directory sub])) := by
  have named : (store t).directoryName sub = (Node.directory sub).name (store t₀) :=
    before.grown.name _ held
  rw [DirectoryView.copyInto, direct_name, named]
  obtain ⟨t₁, ⟨refused, same⟩ | ⟨new, created, sound₁, free, adds⟩⟩ :=
    direct_createSubdirectory before.sound inner ((Node.directory sub).name (store t₀))
  · rw [refused]
    exact ⟨false, t₁, rfl, same ▸ before.sound, same ▸ before.grown, by simp⟩
  · rw [created]
    obtain ⟨grown₁, still, fresh, outside, bare⟩ :=
      before.added sound₀ present held apart sound₁ adds
    obtain ⟨complete, t₂, copied, sound₂, grown₂, whole⟩ :=
      copies t₁ sub new sound₁ still fresh outside bare
    have below := adds.grows_below before.sound grown₂
    refine ⟨complete, t₂, copied, sound₂, before.grown.trans below, fun succeeded => ?_⟩
    have steps := adds.child? before.sound sound₁ free
    have child : (Node.directory inner).child? (store t₂) ((Node.directory sub).name (store t₀)) =
        some (.directory new) :=
      grown₂.child?_of_some sound₁ sound₂ (by rw [steps, if_pos ⟨rfl, rfl⟩])
    refine before.add below sound₂ free child ?_ ?_
    · intro rest
      cases rest with
      | nil =>
        have present := (adds.held _).mpr (.inl rfl)
        rw [lookup_nil, lookup_nil, grown₂.entry _ present, adds.entry, if_pos rfl]
        rfl
      | cons name rest => rw [whole succeeded, grown₁.lookup_apart sound₀ sound₁ held apart]
    · intro other different
      have notNew : Node.directory inner ≠ .directory new := by
        intro equal
        have fresh := adds.fresh
        rw [← equal, adds.present] at fresh
        cases fresh
      rw [grown₂.child? sound₁ sound₂ ((adds.grows before.sound).held _ adds.present) notNew, steps,
        if_neg fun both => different both.2]

theorem mirror_files (source : DirectoryId) (sound : (store t).Sound)
    (bare : ∀ name, (Node.directory inner).child? (store t) name = none) :
    (∃ t', DirectoryView.forEachUntil
        (fun t file => (DirectoryView.direct inner).placeFile t (file.name t) (file.readAll t))
        ((DirectoryView.direct source).files t) t = (true, t') ∧
      Mirrors (store t) (store t') (.directory inner) (((store t).files source).map .file)) ∨
    ∃ t', DirectoryView.forEachUntil
        (fun t file => (DirectoryView.direct inner).placeFile t (file.name t) (file.readAll t))
        ((DirectoryView.direct source).files t) t = (false, t') ∧
      (store t').Sound ∧ Grows (store t) (store t') (.directory inner) := by
  let after (placed : List (FileView FileId)) (t' : σ) : Prop :=
    Mirrors (store t) (store t') (.directory inner) (placed.map fun file => .file file.node)
  have loop := DirectoryView.forEachUntil_cases
    (fun t file => (DirectoryView.direct inner).placeFile t (file.name t) (file.readAll t))
    ((DirectoryView.direct source).files t) after
    (fun t' => (store t').Sound ∧ Grows (store t) (store t') (.directory inner)) ?_
    (.start sound bare)
  · rcases loop with ⟨t', placed, mirrored⟩ | stopped
    · refine .inl ⟨t', placed, ?_⟩
      simpa [after, Function.comp_def] using mirrored
    · exact .inr stopped
  · intro placed x rest t' parts before
    have listed : x ∈ (DirectoryView.direct source).files t := by
      rw [parts]
      exact List.mem_append_right placed List.mem_cons_self
    rw [direct_files, List.mem_map] at listed
    obtain ⟨file, listed, rfl⟩ := listed
    obtain ⟨complete, t'', step, sound', grown, further⟩ :=
      Mirrors.placeFile before (sound.listed_file_held listed)
    cases complete with
    | false => exact .inr ⟨t'', step, sound', grown⟩
    | true => exact .inl ⟨t'', step, by simpa [after] using further rfl⟩

theorem mirror_subdirectories
    {copy : σ → DirectoryView DirectoryId → DirectoryView DirectoryId → Bool × σ} (copies : Copies copy)
    (before : Mirrors (store t₀) (store t) (.directory inner) done) (sound₀ : (store t₀).Sound)
    (present : (Node.directory inner).held (store t₀) = true) {subs : List DirectoryId}
    (each : ∀ sub ∈ subs, (Node.directory sub).held (store t₀) = true ∧
      ¬ Within (store t₀) (.directory sub) (.directory inner)) :
    (∃ t', DirectoryView.forEachUntil (DirectoryView.copyInto copy (.direct inner)) (subs.map .direct) t = (true, t') ∧
      Mirrors (store t₀) (store t') (.directory inner) (done ++ subs.map .directory)) ∨
    ∃ t', DirectoryView.forEachUntil (DirectoryView.copyInto copy (.direct inner)) (subs.map .direct) t = (false, t') ∧
      (store t').Sound ∧ Grows (store t₀) (store t') (.directory inner) := by
  let after (copied : List (DirectoryView DirectoryId)) (t' : σ) : Prop :=
    Mirrors (store t₀) (store t') (.directory inner) (done ++ copied.map fun sub => .directory sub.node)
  have loop := DirectoryView.forEachUntil_cases (DirectoryView.copyInto copy (.direct inner))
    (subs.map DirectoryView.direct) after
    (fun t' => (store t').Sound ∧ Grows (store t₀) (store t') (.directory inner)) ?_ (by simpa [after])
  · rcases loop with ⟨t', copied, mirrored⟩ | stopped
    · refine .inl ⟨t', copied, ?_⟩
      simpa [after, Function.comp_def] using mirrored
    · exact .inr stopped
  · intro copied x rest t' parts earlier
    have listed : x ∈ subs.map DirectoryView.direct := by
      rw [parts]
      exact List.mem_append_right copied List.mem_cons_self
    obtain ⟨sub, among, rfl⟩ := List.mem_map.mp listed
    obtain ⟨complete, t'', done, sound', grown, further⟩ :=
      Mirrors.copySubdirectory copies earlier sound₀ present (each sub among).1 (each sub among).2
    cases complete with
    | false => exact .inr ⟨t'', done, sound', grown⟩
    | true => exact .inl ⟨t'', done, by simpa [after] using further rfl⟩

end Steps

theorem copyTreeWithin_copies (depth : Nat) : Copies (σ := σ) (DirectoryView.copyTreeWithin depth) := by
  induction depth with
  | zero => exact fun t _ _ sound _ _ _ _ => ⟨false, t, rfl, sound, .refl _ sound _, by simp⟩
  | succ depth ih =>
    intro t source target sound held present apart bare
    rcases mirror_files source sound bare with ⟨t₁, placed, files⟩ | ⟨t₁, placed, stopped⟩
    · have isOther : Node.directory source ≠ .directory target := by
        intro same
        exact apart (same ▸ .refl _)
      have owned : ∀ sub, sub ∈ (store t₁).subdirectories source ↔
          (Node.directory sub).parent? (store t) = some (.directory source) := by
        intro sub
        rw [← files.grown.parent?_eq_some sound held isOther, files.sound.directory_listed]
        simp [Node.parent?]
      have each : ∀ sub ∈ (store t₁).subdirectories source, (Node.directory sub).held (store t) = true ∧
          ¬ Within (store t) (.directory sub) (.directory target) := by
        intro sub listed
        have parent := (owned sub).mp listed
        refine ⟨(sound.parent_held parent).2, fun below => apart (.trans ?_ below)⟩
        exact (Within.refl _).child (sound.child?_eq_some.mpr ⟨parent, rfl⟩)
      rw [DirectoryView.copyTreeWithin_of_placed placed, direct_subdirectories]
      rcases mirror_subdirectories ih files sound present each with
        ⟨t₂, copied, mirrored⟩ | ⟨t₂, copied, stopped⟩
      · refine ⟨true, t₂, copied, mirrored.sound, mirrored.grown, fun _ => mirrored.lookup sound ?_⟩
        intro y
        cases y with
        | file id => simp [Node.parent?, sound.file_listed]
        | directory id => simp [owned]
      · exact ⟨false, t₂, copied, stopped.1, stopped.2, by simp⟩
    · rw [DirectoryView.copyTreeWithin_of_stopped placed]
      exact ⟨false, t₁, rfl, stopped.1, stopped.2, by simp⟩

end GuestStorage.Memory
