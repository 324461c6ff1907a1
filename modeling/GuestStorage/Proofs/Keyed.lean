import Mathlib.Data.List.Nodup

namespace GuestStorage.Keyed

section Lookup

variable {κ α : Type} [BEq κ] [LawfulBEq κ] {entries : List (κ × α)} {key : κ} {value : α}

def lookup (entries : List (κ × α)) (key : κ) : Option α := (entries.find? (·.1 == key)).map (·.2)

theorem mem_of_lookup (found : lookup entries key = some value) : (key, value) ∈ entries := by
  obtain ⟨e, first, rfl⟩ := Option.map_eq_some_iff.mp found
  have same := List.find?_some first
  rw [beq_iff_eq] at same
  exact same ▸ List.mem_of_find?_eq_some first

theorem lookup_of_mem (distinct : (entries.map (·.1)).Nodup) (listed : (key, value) ∈ entries) :
    lookup entries key = some value := by
  have isSome : (entries.find? (·.1 == key)).isSome = true :=
    List.find?_isSome.mpr ⟨_, listed, beq_self_eq_true key⟩
  obtain ⟨e, first⟩ := Option.isSome_iff_exists.mp isSome
  have same := List.find?_some first
  rw [beq_iff_eq] at same
  have equal := List.inj_on_of_nodup_map distinct (List.mem_of_find?_eq_some first) listed same
  rw [lookup, first, equal]
  rfl

theorem lookup_eq_some (distinct : (entries.map (·.1)).Nodup) :
    lookup entries key = some value ↔ (key, value) ∈ entries :=
  ⟨mem_of_lookup, lookup_of_mem distinct⟩

theorem lookup_eq_none : lookup entries key = none ↔ ∀ e ∈ entries, e.1 ≠ key := by
  rw [lookup, Option.map_eq_none_iff, List.find?_eq_none]
  simp

theorem lookup_concat [DecidableEq κ] (free : lookup entries key = none) (value : α) (other : κ) :
    lookup (entries ++ [(key, value)]) other = if other = key then some value else lookup entries other := by
  rw [lookup, List.find?_append]
  by_cases same : other = key
  · rw [lookup, Option.map_eq_none_iff] at free
    simp [same, free]
  · simp [lookup, same, Ne.symm same]

theorem lookup_filter (keep : κ → Bool) (other : κ) :
    lookup (entries.filter fun e => keep e.1) other = if keep other then lookup entries other else none := by
  rw [lookup, List.find?_filter]
  split
  · rename_i kept
    have wanted : (fun e : κ × α => decide (keep e.1 = true ∧ (e.1 == other) = true)) = (·.1 == other) := by
      funext e
      by_cases same : e.1 = other <;> simp [same, kept]
    rw [wanted, lookup]
  · rename_i dropped
    rw [Option.map_eq_none_iff, List.find?_eq_none]
    intro e _ both
    rw [decide_eq_true_iff, beq_iff_eq] at both
    exact dropped (both.2 ▸ both.1)

end Lookup

def rekey {α : Type} (source target : List String) (view : List String → Option α) (key : List String) :
    Option α :=
  if target <+: key then view (source ++ key.drop target.length)
  else if source <+: key then none
  else view key

theorem rekey_target {α : Type} (source target : List String) (view : List String → Option α)
    (rest : List String) : rekey source target view (target ++ rest) = view (source ++ rest) := by
  simp [rekey]

theorem rekey_below {α : Type} (start source target : List String) (view : List String → Option α)
    (key : List String) : rekey (start ++ source) (start ++ target) view (start ++ key) =
      rekey source target (fun rest => view (start ++ rest)) key := by
  simp only [rekey, List.prefix_append_right_inj]
  split
  · rename_i within
    obtain ⟨rest, rfl⟩ := within
    rw [← List.append_assoc start target rest, List.drop_left, List.drop_left, List.append_assoc]
  · rfl

theorem rekey_map {α β : Type} (f : α → β) (source target : List String) (view : List String → Option α)
    (key : List String) :
    rekey source target (fun key => (view key).map f) key = (rekey source target view key).map f := by
  rw [rekey, rekey]
  split
  · rfl
  · split <;> rfl

/-- A key whose prefix is exchanged, if it has that prefix. -/
def exchange (source target key : List String) : List String :=
  if source <+: key then target ++ key.drop source.length else key

theorem exchange_append (source target rest : List String) :
    exchange source target (source ++ rest) = target ++ rest := by
  simp [exchange]

theorem exchange_cases (source target key : List String) :
    (∃ rest, key = source ++ rest ∧ exchange source target key = target ++ rest) ∨
      ¬ source <+: key ∧ exchange source target key = key := by
  by_cases moves : source <+: key
  · obtain ⟨rest, rfl⟩ := moves
    exact .inl ⟨rest, rfl, exchange_append source target rest⟩
  · exact .inr ⟨moves, if_neg moves⟩

@[simp] theorem exchange_self (source key : List String) : exchange source source key = key := by
  rcases exchange_cases source source key with ⟨rest, rfl, same⟩ | ⟨-, same⟩ <;> exact same

section Exchange

variable {α : Type} {entries : List (List String × α)} {source target : List String}
  (distinct : (entries.map (·.1)).Nodup) (vacant : ∀ e ∈ entries, ¬ target <+: e.1)
include distinct vacant

theorem keys_exchanged_nodup :
    ((entries.map fun e => (exchange source target e.1, e.2)).map (·.1)).Nodup := by
  rw [List.map_map]
  refine List.Nodup.map_on ?_ (List.Nodup.of_map _ distinct)
  intro a first b second same
  refine List.inj_on_of_nodup_map distinct first second ?_
  simp only [Function.comp] at same
  rcases exchange_cases source target a.1 with ⟨rest, here, there⟩ | ⟨-, stays⟩ <;>
    rcases exchange_cases source target b.1 with ⟨other, here', there'⟩ | ⟨-, stays'⟩
  · rw [there, there', List.append_cancel_left_eq] at same
    rw [here, here', same]
  · rw [there, stays'] at same
    exact absurd ⟨rest, same⟩ (vacant b second)
  · rw [stays, there'] at same
    exact absurd ⟨other, same.symm⟩ (vacant a first)
  · rwa [stays, stays'] at same

theorem lookup_exchanged (key : List String) :
    lookup (entries.map fun e => (exchange source target e.1, e.2)) key =
      rekey source target (lookup entries) key := by
  ext value
  rw [lookup_eq_some (keys_exchanged_nodup distinct vacant), List.mem_map, rekey]
  constructor
  · rintro ⟨⟨old, content⟩, listed, same⟩
    obtain ⟨rfl, rfl⟩ := Prod.mk.inj same
    rcases exchange_cases source target old with ⟨rest, rfl, there⟩ | ⟨outside, stays⟩
    · rw [there, if_pos (List.prefix_append target rest), List.drop_left]
      exact lookup_of_mem distinct listed
    · rw [stays, if_neg (vacant _ listed), if_neg outside]
      exact lookup_of_mem distinct listed
  · intro found
    split at found
    · rename_i within
      obtain ⟨rest, rfl⟩ := within
      rw [List.drop_left] at found
      exact ⟨_, mem_of_lookup found, by rw [exchange_append]⟩
    · split at found
      · cases found
      · rename_i outside
        exact ⟨_, mem_of_lookup found, by rw [exchange, if_neg outside]⟩

end Exchange

end GuestStorage.Keyed
