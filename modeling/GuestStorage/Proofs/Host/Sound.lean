import GuestStorage.Host.Node
import GuestStorage.Proofs.Keyed
import Mathlib.Data.List.Induction

namespace GuestStorage.Host

/-- Not a dot and not two. -/
def Proper (name : String) : Prop := name ≠ "." ∧ name ≠ ".."

instance (name : String) : Decidable (Proper name) := inferInstanceAs (Decidable (_ ∧ _))

theorem proper_of_validName {name : String} (valid : validName name = true) : Proper name := by
  simp only [validName, Bool.and_eq_true, bne_iff_ne] at valid
  exact ⟨valid.1.1.2, valid.1.2⟩

theorem lastName_concat {name : String} (proper : Proper name) (place : Location) :
    lastName (place ++ [name]) = name := by
  rw [lastName, List.getLast?_concat]
  split
  · rename_i none
    cases none
  · rename_i up
    exact absurd (Option.some.inj up) proper.2
  · rename_i same
    exact (Option.some.inj same).symm

namespace Disk

variable {disk : Disk} {place holder source target : Location} {entry : Entry}

structure Sound (disk : Disk) : Prop where
  places_nodup : (disk.entries.map (·.1)).Nodup
  below_top : ∀ e ∈ disk.entries, e.1 ≠ []
  held : ∀ e ∈ disk.entries, disk.find? e.1.dropLast = some .directory
  proper : ∀ e ∈ disk.entries, ∀ name ∈ e.1, Proper name

theorem find?_eq (disk : Disk) (below : place ≠ []) :
    disk.find? place = Keyed.lookup disk.entries place := by
  cases place with
  | nil => exact absurd rfl below
  | cons => rfl

theorem mem_of_find? (below : place ≠ []) (found : disk.find? place = some entry) :
    (place, entry) ∈ disk.entries := by
  rw [find?_eq disk below] at found
  exact Keyed.mem_of_lookup found

theorem Sound.find?_of_listed (sound : disk.Sound) (listed : (place, entry) ∈ disk.entries) :
    disk.find? place = some entry :=
  (find?_eq disk (sound.below_top _ listed)).trans (Keyed.lookup_of_mem sound.places_nodup listed)

theorem Sound.stands (sound : disk.Sound) {name : String}
    (found : disk.find? (place ++ [name]) = some entry) : disk.find? place = some .directory := by
  have held := sound.held _ (mem_of_find? (by simp) found)
  rwa [List.dropLast_concat] at held

theorem Sound.stands_below (sound : disk.Sound) {rest : Location} (some_ : rest ≠ [])
    (found : disk.find? (place ++ rest) = some entry) : disk.find? place = some .directory := by
  induction rest using List.reverseRecOn generalizing entry with
  | nil => exact absurd rfl some_
  | append_singleton front last ih =>
    rw [← List.append_assoc] at found
    have above := sound.stands found
    by_cases short : front = []
    · rwa [short, List.append_nil] at above
    · exact ih short above

theorem Sound.nothing_below (sound : disk.Sound) {rest : Location} (some_ : rest ≠ [])
    (other : disk.find? place ≠ some .directory) : disk.find? (place ++ rest) = none := by
  cases found : disk.find? (place ++ rest) with
  | none => rfl
  | some entry => exact absurd (sound.stands_below some_ found) other

theorem Sound.proper_of_find? (sound : disk.Sound) (found : disk.find? place = some entry) :
    ∀ name ∈ place, Proper name := by
  intro name among
  have below : place ≠ [] := List.ne_nil_of_mem among
  exact sound.proper _ (mem_of_find? below found) name among

def put (disk : Disk) (place : Location) (entry : Entry) : Disk := ⟨disk.entries ++ [(place, entry)]⟩

theorem find?_put (free : disk.find? place = none) (entry : Entry) (other : Location) :
    (disk.put place entry).find? other = if other = place then some entry else disk.find? other := by
  have below : place ≠ [] := by
    intro top
    rw [top] at free
    cases free
  rw [find?_eq disk below] at free
  by_cases top : other = []
  · rw [top, if_neg (Ne.symm below)]
    rfl
  · rw [find?_eq _ top, find?_eq _ top, put, Keyed.lookup_concat free]

theorem put_sound (sound : disk.Sound) {name : String} (proper : Proper name)
    (holds : disk.find? holder = some .directory) (free : disk.find? (holder ++ [name]) = none)
    (entry : Entry) : (disk.put (holder ++ [name]) entry).Sound := by
  have fresh : ∀ e ∈ disk.entries, e.1 ≠ holder ++ [name] := by
    intro e listed same
    have found := sound.find?_of_listed listed
    rw [same, free] at found
    cases found
  refine ⟨?_, ?_, ?_, ?_⟩
  · simp only [put, List.map_append, List.map_cons, List.map_nil]
    refine List.nodup_append'.mpr ⟨sound.places_nodup, List.nodup_singleton _, ?_⟩
    intro other listed new
    obtain ⟨e, among, rfl⟩ := List.mem_map.mp listed
    exact fresh e among (List.mem_singleton.mp new)
  · intro e listed
    rcases List.mem_append.mp listed with old | new
    · exact sound.below_top e old
    · rw [List.mem_singleton.mp new]
      simp
  · intro e listed
    have directory : disk.find? e.1.dropLast = some .directory := by
      rcases List.mem_append.mp listed with old | new
      · exact sound.held e old
      · rw [List.mem_singleton.mp new, List.dropLast_concat]
        exact holds
    have apart : e.1.dropLast ≠ holder ++ [name] := by
      intro same
      rw [same, free] at directory
      cases directory
    rw [find?_put free, if_neg apart]
    exact directory
  · intro e listed other among
    rcases List.mem_append.mp listed with old | new
    · exact sound.proper e old other among
    · rw [List.mem_singleton.mp new] at among
      rcases List.mem_append.mp among with above | last
      · exact sound.proper_of_find? holds other above
      · rw [List.mem_singleton.mp last]
        exact proper

theorem erase_sound (sound : disk.Sound) (below : place ≠ [])
    (bare : ∀ e ∈ disk.entries, e.1.dropLast ≠ place) : (disk.erase place).Sound := by
  have kept : ∀ e ∈ (disk.erase place).entries, e ∈ disk.entries :=
    fun e listed => List.mem_of_mem_filter listed
  refine ⟨?_, fun e listed => sound.below_top e (kept e listed), ?_,
    fun e listed => sound.proper e (kept e listed)⟩
  · exact sound.places_nodup.sublist (List.filter_sublist.map _)
  · intro e listed
    rw [find?_erase disk below, if_neg (bare e (kept e listed))]
    exact sound.held e (kept e listed)

def filled (disk : Disk) (place : Location) (bytes : Bytes) : Disk :=
  ⟨disk.entries.map fun e => if e.1 == place then (place, .file bytes) else e⟩

theorem places_filled (disk : Disk) (place : Location) (bytes : Bytes) :
    (disk.filled place bytes).entries.map (·.1) = disk.entries.map (·.1) := by
  rw [filled, List.map_map]
  apply List.map_congr_left
  intro e _
  by_cases here : e.1 = place
  · simp [here]
  · simp [here]

theorem find?_filled {old : Bytes} (found : disk.find? place = some (.file old)) (bytes : Bytes)
    (other : Location) :
    (disk.filled place bytes).find? other =
      if other = place then some (.file bytes) else disk.find? other := by
  by_cases top : other = []
  · have apart : other ≠ place := by
      intro same
      rw [← same, top] at found
      cases found
    rw [if_neg apart, top]
    rfl
  · have wanted : ∀ e : Location × Entry,
        (if e.1 == place then (place, Entry.file bytes) else e).1 = e.1 := by
      intro e
      by_cases here : e.1 = place
      · simp [here]
      · simp [here]
    rw [find?_eq _ top, filled, Keyed.lookup, List.find?_map]
    have search : ((fun e : Location × Entry => e.1 == other) ∘ fun e : Location × Entry =>
        if e.1 == place then (place, Entry.file bytes) else e) = (·.1 == other) := by
      funext e
      simp only [Function.comp, wanted]
    rw [search, find?_eq disk top, Keyed.lookup]
    by_cases same : other = place
    · rw [if_pos same]
      rw [find?_eq disk (same ▸ top), ← same] at found
      obtain ⟨e, first, _⟩ := Option.map_eq_some_iff.mp found
      have here := List.find?_some first
      rw [beq_iff_eq] at here
      rw [first]
      simp [here, same]
    · rw [if_neg same]
      cases first : disk.entries.find? (·.1 == other) with
      | none => rfl
      | some e =>
        have here := List.find?_some first
        rw [beq_iff_eq] at here
        have apart : ¬ e.1 = place := fun equal => same (here.symm.trans equal)
        simp [apart]

theorem filled_sound (sound : disk.Sound) {old : Bytes} (found : disk.find? place = some (.file old))
    (bytes : Bytes) : (disk.filled place bytes).Sound := by
  have origin : ∀ e ∈ (disk.filled place bytes).entries, ∃ e' ∈ disk.entries, e'.1 = e.1 := by
    intro e listed
    have among : e.1 ∈ (disk.filled place bytes).entries.map (·.1) := List.mem_map_of_mem listed
    rw [places_filled] at among
    exact List.mem_map.mp among
  refine ⟨by rw [places_filled]; exact sound.places_nodup, ?_, ?_, ?_⟩
  · intro e listed
    obtain ⟨e', old, same⟩ := origin e listed
    exact same ▸ sound.below_top e' old
  · intro e listed
    obtain ⟨e', old, same⟩ := origin e listed
    have directory := sound.held e' old
    have apart : e.1.dropLast ≠ place := by
      intro equal
      rw [same, equal, found] at directory
      cases directory
    rw [find?_filled found, if_neg apart, ← same]
    exact directory
  · intro e listed
    obtain ⟨e', old, same⟩ := origin e listed
    exact same ▸ sound.proper e' old

def moved (disk : Disk) (source target : Location) : Disk :=
  ⟨disk.entries.map fun e => (relocate source target e.1, e.2)⟩

theorem relocate_eq (source target place : Location) :
    relocate source target place = Keyed.exchange source target place := by
  simp [relocate, Keyed.exchange]

theorem relocate_outside (outside : ¬ source <+: place) : relocate source target place = place := by
  rw [relocate_eq, Keyed.exchange, if_neg outside]

theorem relocate_cases (source target place : Location) :
    (∃ rest, place = source ++ rest ∧ relocate source target place = target ++ rest) ∨
      ¬ source <+: place ∧ relocate source target place = place := by
  rw [relocate_eq]
  exact Keyed.exchange_cases source target place

section Moved

variable (sound : disk.Sound) (free : disk.find? target = none) (apart : ¬ source <+: target)
include sound free

theorem not_prefix_of_free (listed : (place, entry) ∈ disk.entries) : ¬ target <+: place := by
  intro below
  obtain ⟨rest, rfl⟩ := below
  have found := sound.find?_of_listed listed
  by_cases short : rest = []
  · rw [short, List.append_nil, free] at found
    cases found
  · have above := sound.stands_below short found
    rw [free] at above
    cases above

theorem places_moved_nodup : ((disk.moved source target).entries.map (·.1)).Nodup := by
  simp only [moved, relocate_eq]
  exact Keyed.keys_exchanged_nodup sound.places_nodup fun _ => not_prefix_of_free sound free

theorem moved_ne_nil (listed : (place, entry) ∈ disk.entries) :
    relocate source target place ≠ [] := by
  rcases relocate_cases source target place with ⟨rest, _, to_⟩ | ⟨_, stays⟩
  · rw [to_]
    intro top
    rw [(List.append_eq_nil_iff.mp top).1] at free
    cases free
  · rw [stays]
    exact sound.below_top _ listed

theorem find?_moved (below : source ≠ []) (place : Location) :
    (disk.moved source target).find? place = Keyed.rekey source target disk.find? place := by
  have top : target ≠ [] := by
    rintro rfl
    cases free
  have elsewhere : ∀ {place}, place ≠ [] → disk.find? place = Keyed.lookup disk.entries place :=
    fun {place} => find?_eq disk
  by_cases whole : place = []
  · rw [whole, Keyed.rekey, if_neg (by simpa using top), if_neg (by simpa using below)]
    rfl
  · rw [find?_eq _ whole]
    simp only [moved, relocate_eq]
    rw [Keyed.lookup_exchanged sound.places_nodup fun _ => not_prefix_of_free sound free, Keyed.rekey,
      Keyed.rekey, elsewhere whole, elsewhere fun empty => below (List.append_eq_nil_iff.mp empty).1]

include apart

omit sound free in
theorem source_ne_nil : source ≠ [] := fun top => apart (top ▸ List.nil_prefix)

theorem find?_moved_target (rest : Location) :
    (disk.moved source target).find? (target ++ rest) = disk.find? (source ++ rest) := by
  rw [find?_moved sound free (source_ne_nil apart), Keyed.rekey_target]

theorem find?_moved_apart (fromSource : ¬ source <+: place) (fromTarget : ¬ target <+: place) :
    (disk.moved source target).find? place = disk.find? place := by
  rw [find?_moved sound free (source_ne_nil apart), Keyed.rekey, if_neg fromTarget, if_neg fromSource]

theorem find?_moved_source (fromSource : source <+: place) (fromTarget : ¬ target <+: place) :
    (disk.moved source target).find? place = none := by
  rw [find?_moved sound free (source_ne_nil apart), Keyed.rekey, if_neg fromTarget, if_pos fromSource]

theorem moved_sound {name : String} (proper : Proper name) (ends : target = holder ++ [name])
    (holds : disk.find? holder = some .directory) : (disk.moved source target).Sound := by
  have holderFree : ¬ target <+: holder := by
    intro below
    have lengths := below.length_le
    rw [ends, List.length_append, List.length_singleton] at lengths
    omega
  have holderApart : ¬ source <+: holder := fun above => apart (ends ▸ above.trans (List.prefix_append _ _))
  have origin : ∀ e ∈ (disk.moved source target).entries, ∃ e' ∈ disk.entries,
      relocate source target e'.1 = e.1 ∧ e'.2 = e.2 := by
    intro e listed
    obtain ⟨e', old, rfl⟩ := List.mem_map.mp listed
    exact ⟨e', old, rfl, rfl⟩
  refine ⟨places_moved_nodup sound free, ?_, ?_, ?_⟩
  · intro e listed
    obtain ⟨e', old, same, _⟩ := origin e listed
    exact same ▸ moved_ne_nil sound free old
  · intro e listed
    obtain ⟨e', old, same, _⟩ := origin e listed
    have directory := sound.held e' old
    -- an entry is taken along, or it stays and so does the directory that holds it
    rcases relocate_cases source target e'.1 with ⟨rest, from_, to_⟩ | ⟨stood, stays⟩
    · rw [← same, to_]
      by_cases short : rest = []
      · rw [short, List.append_nil, ends, List.dropLast_concat, ← ends,
          find?_moved_apart sound free apart holderApart holderFree]
        exact holds
      · rw [List.dropLast_append_of_ne_nil short, find?_moved_target sound free apart]
        rwa [from_, List.dropLast_append_of_ne_nil short] at directory
    · rw [← same, stays]
      have above : e'.1.dropLast <+: e'.1 := List.dropLast_prefix _
      have notSource : ¬ source <+: e'.1.dropLast := fun below => stood (below.trans above)
      have notTarget : ¬ target <+: e'.1.dropLast := fun below =>
        not_prefix_of_free sound free old (below.trans above)
      rw [find?_moved_apart sound free apart notSource notTarget]
      exact directory
  · intro e listed other among
    obtain ⟨e', old, same, _⟩ := origin e listed
    rcases relocate_cases source target e'.1 with ⟨rest, from_, to_⟩ | ⟨_, stays⟩
    · rw [← same, to_, ends, List.append_assoc] at among
      rcases List.mem_append.mp among with above | among
      · exact sound.proper_of_find? holds other above
      · rcases List.mem_append.mp among with last | among
        · rw [List.mem_singleton.mp last]
          exact proper
        · exact sound.proper e' old other (from_ ▸ List.mem_append_right _ among)
    · rw [← same, stays] at among
      exact sound.proper e' old other among

end Moved

end Disk

end GuestStorage.Host
