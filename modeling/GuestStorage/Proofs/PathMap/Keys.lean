import GuestStorage.Proofs.Path
import GuestStorage.Proofs.PathMap.Machine

namespace GuestStorage

def Path.IsPlain (name : String) : Prop := IsName name ∧ name ≠ "." ∧ name ≠ ".."

namespace PathMap

open Keyed Memory
open GuestStorage.Path (IsPlain)
open Session (PathRequest SpaceReport)

variable {map : PathMap} {key other source target : List String} {content : Content}

/-- No key stands twice or is that of the topmost directory, and no file is too long for one transfer. -/
structure Proper (map : PathMap) : Prop where
  distinct : (map.entries.map (·.1)).Nodup
  not_top : ∀ e ∈ map.entries, e.1 ≠ []
  plain : ∀ e ∈ map.entries, ∀ name ∈ e.1, IsPlain name
  short : ∀ e ∈ map.entries, e.2.size < Store.endLimit

theorem key_eq (text : String) : PathMap.key text = Tree.Mount.normalize text := by
  have same : ".." ∈ (Path.components text).filter (· ≠ ".") ↔ ".." ∈ Path.components text := by
    simp
  have kept : (Path.components text).filter (· != ".") = (Path.components text).filter (· ≠ ".") :=
    List.filter_congr fun name _ => by simp [bne, beq_eq_decide]
  rw [PathMap.key, Tree.Mount.normalize, kept]
  simp only [List.contains_iff_mem, same]

theorem key_plain {text : String} {names : List String} (found : PathMap.key text = .ok names) :
    ∀ name ∈ names, IsPlain name := by
  simp only [PathMap.key] at found
  split at found
  · cases found
  · rename_i plain
    cases found
    intro name listed
    obtain ⟨among, proper⟩ := List.mem_filter.mp listed
    refine ⟨Path.isName_of_mem_components among, of_decide_eq_true proper, ?_⟩
    rintro rfl
    exact plain among

theorem normalize_plain {text : String} {names : List String} (normal : Tree.Mount.normalize text = .ok names) :
    ∀ name ∈ names, IsPlain name :=
  key_plain ((key_eq text).trans normal)

@[simp] theorem find?_nil (map : PathMap) : map.find? [] = some .directory := rfl

theorem find?_eq (map : PathMap) (below : key ≠ []) : map.find? key = lookup map.entries key := if_neg below

theorem ne_nil_of_free (free : map.find? key = none) : key ≠ [] := by
  rintro rfl
  cases free

theorem Proper.find?_eq_some (proper : map.Proper) (below : key ≠ []) :
    map.find? key = some content ↔ (key, content) ∈ map.entries := by
  rw [find?_eq map below]
  exact lookup_eq_some proper.distinct

theorem find?_insert (free : map.find? key = none) (content : Content) (other : List String) :
    (map.insert key content).find? other = if other = key then some content else map.find? other := by
  have below := ne_nil_of_free free
  rw [find?_eq map below] at free
  by_cases top : other = []
  · rw [top, if_neg below.symm]
    rfl
  · rw [find?_eq _ top, find?_eq _ top, insert, lookup_concat free]

theorem find?_filter (keep : List String → Bool) (top : keep [] = true) (other : List String) :
    (⟨map.entries.filter fun e => keep e.1⟩ : PathMap).find? other =
      if keep other then map.find? other else none := by
  by_cases same : other = []
  · rw [same, if_pos top]
    rfl
  · rw [find?_eq _ same, find?_eq _ same, lookup_filter]

theorem find?_remove (map : PathMap) (below : key ≠ []) (other : List String) :
    (map.remove key).find? other = if key <+: other then none else map.find? other := by
  have kept := map.entries
  rw [remove, find?_filter (fun other => ¬ key <+: other) (by simpa using below)]
  by_cases within : key <+: other <;> simp [within]

theorem find?_clear (map : PathMap) (key other : List String) :
    (map.clear key).find? other = if key <+: other ∧ other ≠ key then none else map.find? other := by
  rw [clear, find?_filter (fun other => ¬ (key <+: other ∧ other ≠ key)) (by simp)]
  by_cases within : key <+: other ∧ other ≠ key <;> simp [within]

theorem find?_move (proper : map.Proper) (fromTop : source ≠ []) (toTop : target ≠ [])
    (vacant : ∀ e ∈ map.entries, ¬ target <+: e.1) (other : List String) :
    (map.move source target).find? other = rekey source target map.find? other := by
  have elsewhere : ∀ {key}, key ≠ [] → map.find? key = lookup map.entries key := find?_eq map
  by_cases top : other = []
  · rw [top, rekey, if_neg (by simpa using toTop), if_neg (by simpa using fromTop)]
    rfl
  · rw [find?_eq _ top, move, lookup_exchanged proper.distinct vacant, rekey, rekey, elsewhere top,
      elsewhere fun empty => fromTop (List.append_eq_nil_iff.mp empty).1]

section Proper

theorem Proper.filter (proper : map.Proper) (keep : List String × Content → Bool) :
    (⟨map.entries.filter keep⟩ : PathMap).Proper := by
  have kept : ∀ e ∈ map.entries.filter keep, e ∈ map.entries := fun e => List.mem_of_mem_filter
  exact ⟨proper.distinct.sublist (List.filter_sublist.map _), fun e listed => proper.not_top e (kept e listed),
    fun e listed => proper.plain e (kept e listed), fun e listed => proper.short e (kept e listed)⟩

theorem Proper.insert (proper : map.Proper) (free : map.find? key = none)
    (plain : ∀ name ∈ key, IsPlain name) (short : content.size < Store.endLimit) :
    (map.insert key content).Proper := by
  have below := ne_nil_of_free free
  rw [find?_eq map below, lookup_eq_none] at free
  refine ⟨?_, ?_, ?_, ?_⟩
  · simp only [PathMap.insert, List.map_append, List.map_cons, List.map_nil]
    refine List.nodup_append'.mpr ⟨proper.distinct, List.nodup_singleton _, ?_⟩
    intro other listed new
    obtain ⟨e, among, rfl⟩ := List.mem_map.mp listed
    exact free e among (List.mem_singleton.mp new)
  all_goals
    intro e listed
    rcases List.mem_append.mp listed with old | new
  · exact proper.not_top e old
  · exact List.mem_singleton.mp new ▸ below
  · exact proper.plain e old
  · exact List.mem_singleton.mp new ▸ plain
  · exact proper.short e old
  · exact List.mem_singleton.mp new ▸ short

theorem Proper.move (proper : map.Proper) (toTop : target ≠ []) (plain : ∀ name ∈ target, IsPlain name)
    (vacant : ∀ e ∈ map.entries, ¬ target <+: e.1) : (map.move source target).Proper := by
  refine ⟨keys_exchanged_nodup proper.distinct vacant, ?_, ?_, ?_⟩
  all_goals
    intro e listed
    obtain ⟨old, among, rfl⟩ := List.mem_map.mp listed
  · rcases exchange_cases source target old.1 with ⟨rest, -, there⟩ | ⟨-, stays⟩
    · rw [there]
      exact fun empty => toTop (List.append_eq_nil_iff.mp empty).1
    · rw [stays]
      exact proper.not_top old among
  · intro name inside
    rcases exchange_cases source target old.1 with ⟨rest, here, there⟩ | ⟨-, stays⟩
    · rw [there] at inside
      rcases List.mem_append.mp inside with new | kept
      · exact plain name new
      · exact proper.plain old among name (here ▸ List.mem_append_right source kept)
    · rw [stays] at inside
      exact proper.plain old among name inside
  · exact proper.short old among

end Proper

section Below

variable (proper : map.Proper)
  (held : ∀ front name content, map.find? (front ++ [name]) = some content → map.find? front = some .directory)
include proper

theorem Proper.mem_entries : (key, content) ∈ map.entries ↔ key ≠ [] ∧ map.find? key = some content := by
  constructor
  · intro listed
    have below := proper.not_top _ listed
    exact ⟨below, (proper.find?_eq_some below).mpr listed⟩
  · rintro ⟨below, there⟩
    exact (proper.find?_eq_some below).mp there

theorem Proper.mem_inside {e : List String × Content} :
    e ∈ map.entries.filter (fun e => e.1.dropLast = key) ↔ e ∈ map.entries ∧ ∃ name, e.1 = key ++ [name] := by
  rw [List.mem_filter, decide_eq_true_eq]
  refine and_congr_right fun listed => ⟨?_, ?_⟩
  · rintro rfl
    exact ⟨_, (List.dropLast_append_getLast (proper.not_top e listed)).symm⟩
  · rintro ⟨name, last⟩
    rw [last, List.dropLast_concat]

include held

omit proper in
theorem directory_above {rest : List String} (some_ : rest ≠ [])
    (there : map.find? (key ++ rest) = some content) : map.find? key = some .directory := by
  induction rest using List.reverseRecOn generalizing content with
  | nil => exact absurd rfl some_
  | append_singleton front last ih =>
    rw [← List.append_assoc] at there
    have above := held _ _ _ there
    by_cases empty : front = []
    · rwa [empty, List.append_nil] at above
    · exact ih empty above

theorem Proper.below_perm (key : List String) :
    (map.below key).Perm ((map.entries.filter fun e => e.1.dropLast = key).flatMap fun e => e :: map.below e.1) := by
  have distinct := proper.distinct.of_map
  have grouped : ∀ {e x : List String × Content}, x ∈ e :: map.below e.1 → e.1 <+: x.1 := by
    intro e x among
    rcases List.mem_cons.mp among with rfl | below
    · exact List.prefix_refl _
    · exact (of_decide_eq_true (List.mem_filter.mp below).2).1
  refine (List.perm_ext_iff_of_nodup (distinct.filter _) ?_).mpr fun x => ?_
  · -- two children of a directory have paths of the same length, so no path begins with both
    refine List.nodup_flatMap.mpr ⟨fun e _ => List.nodup_cons.mpr ⟨by simp [below], distinct.filter _⟩, ?_⟩
    refine (distinct.filter _).pairwise_of_forall_ne fun one first other second apart x inOne inOther => ?_
    obtain ⟨listed, name, here⟩ := proper.mem_inside.mp first
    obtain ⟨listed', name', here'⟩ := proper.mem_inside.mp second
    have same : one.1 = other.1 :=
      (List.prefix_of_prefix_length_le (grouped inOne) (grouped inOther) (by simp [here, here'])).eq_of_length
        (by simp [here, here'])
    exact apart (List.inj_on_of_nodup_map proper.distinct listed listed' same)
  · rw [List.mem_flatMap]
    constructor
    · intro inside
      obtain ⟨listed, within⟩ := List.mem_filter.mp inside
      obtain ⟨⟨rest, whole⟩, apart⟩ := of_decide_eq_true within
      obtain ⟨name, more, rfl⟩ := List.exists_cons_of_ne_nil (l := rest) (fun none => apart (by simp [← whole, none]))
      by_cases last : more = []
      · exact ⟨x, proper.mem_inside.mpr ⟨listed, name, by rw [← whole, last]⟩, List.mem_cons_self⟩
      · have there := (proper.mem_entries.mp listed).2
        rw [← whole, ← List.singleton_append, ← List.append_assoc] at there
        have above := directory_above held last there
        refine ⟨(key ++ [name], .directory), ?_, List.mem_cons_of_mem _ (List.mem_filter.mpr ⟨listed, ?_⟩)⟩
        · exact proper.mem_inside.mpr ⟨proper.mem_entries.mpr ⟨by simp, above⟩, name, rfl⟩
        · rw [decide_eq_true_eq, ← whole]
          exact ⟨by simp, by simpa using last⟩
    · rintro ⟨e, inside, among⟩
      obtain ⟨listed, name, here⟩ := proper.mem_inside.mp inside
      have within := grouped among
      have own : x ∈ map.entries := by
        rcases List.mem_cons.mp among with rfl | below
        · exact listed
        · exact List.mem_of_mem_filter below
      rw [here] at within
      refine List.mem_filter.mpr ⟨own, decide_eq_true ⟨(List.prefix_append _ _).trans within, ?_⟩⟩
      rintro same
      have long := within.length_le
      rw [same, List.length_append, List.length_singleton] at long
      omega

omit proper held in
theorem records_eq (key : List String) (filter : UInt32) : map.records key filter =
    ((map.entries.filter fun e => e.1.dropLast = key).filter fun e => asked filter e.2).map map.record := by
  rw [records, List.filter_filter]
  congr 2
  funext e
  simp [Bool.and_comm]

theorem Proper.sizeBelow_eq (key : List String) : map.sizeBelow key =
    ((map.entries.filter fun e => e.1.dropLast = key).map fun e => e.2.size + map.sizeBelow e.1).sum := by
  rw [sizeBelow, ((proper.below_perm held key).map _).sum_nat, Memory.Store.sum_map_flatMap]
  rfl

end Below

end PathMap

end GuestStorage
