import GuestStorage.Session.Table

namespace GuestStorage.Session.Table

variable {F D : Type} {table : Table F D}

def All (holds : AnySession F D → Prop) (table : Table F D) : Prop :=
  ∀ handle session, table.find? handle = some session → holds session

theorem typed_eq_ok {α : Type} {select : AnySession F D → Option α} {handle : Nat} {inner : α}
    (found : table.typed select handle = .ok inner) :
    ∃ session, table.find? handle = some session ∧ select session = some inner := by
  unfold typed at found
  split at found
  · cases found
  · rename_i session present
    split at found
    · rename_i inner selected
      cases found
      exact ⟨session, present, selected⟩
    · cases found

theorem find?_of_fileSystem {handle : Nat} {fs : FileSystem D}
    (found : table.fileSystem handle = .ok fs) : table.find? handle = some (.fileSystem fs) := by
  obtain ⟨session, present, selected⟩ := typed_eq_ok found
  cases session <;> simp_all

theorem find?_of_file {handle : Nat} {opened : OpenFile F} (found : table.file handle = .ok opened) :
    table.find? handle = some (.file opened) := by
  obtain ⟨session, present, selected⟩ := typed_eq_ok found
  cases session <;> simp_all

theorem find?_of_storage {handle : Nat} {image : Storage F}
    (found : table.storage handle = .ok image) : table.find? handle = some (.storage image) := by
  obtain ⟨session, present, selected⟩ := typed_eq_ok found
  cases session <;> simp_all

theorem find?_insert_of_some {handle : Nat} {old : AnySession F D} (taken : table.find? handle = some old)
    (session : AnySession F D) : (table.insert session).2.find? handle = some old := by
  have free := table.find?_eq_none (.inr (Nat.lt_succ_self table.last))
  rw [find?_insert_of_ne, taken]
  rintro rfl
  cases free.symm.trans taken

theorem find?_of_directory {handle : Nat} {listing : Listing} (found : table.directory handle = .ok listing) :
    table.find? handle = some (.directory listing) := by
  obtain ⟨session, present, selected⟩ := typed_eq_ok found
  cases session <;> simp_all

theorem find?_of_saveInfoReader {handle : Nat} {reader : SaveInfoReader}
    (found : table.saveInfoReader handle = .ok reader) :
    table.find? handle = some (.saveInfoReader reader) := by
  obtain ⟨session, present, selected⟩ := typed_eq_ok found
  cases session <;> simp_all

variable {holds : AnySession F D → Prop}

theorem All.empty : All holds (empty : Table F D) := by
  intro handle session found
  simp [find?, Table.empty] at found

theorem All.insert (all : All holds table) {session : AnySession F D} (fits : holds session) :
    All holds (table.insert session).2 := by
  intro handle other found
  by_cases new : handle = (table.insert session).1
  · rw [new, find?_insert_self] at found
    cases found
    exact fits
  · rw [find?_insert_of_ne table session new] at found
    exact all handle other found

theorem All.update (all : All holds table) {session : AnySession F D} (fits : holds session)
    (handle : Nat) : All holds (table.update handle session) := by
  intro other present found
  rw [find?_update] at found
  split at found
  · obtain ⟨old, -, rfl⟩ := Option.map_eq_some_iff.mp found
    exact fits
  · exact all other present found

theorem find?_erase (table : Table F D) (handle other : Nat) :
    (table.erase handle).find? other = if other = handle then none else table.find? other := by
  rw [find?, erase, List.find?_filter]
  split
  · rename_i same
    rw [Option.map_eq_none_iff, List.find?_eq_none]
    simp [same]
  · rename_i apart
    have wanted : (fun e : Nat × AnySession F D => decide ((e.1 != handle) = true ∧ (e.1 == other) = true)) =
        (·.1 == other) := by
      funext e
      by_cases here : e.1 = other
      · simp [here, apart]
      · simp [here]
    rw [wanted, find?]

theorem close_eq_ok {handle : Nat} {session : AnySession F D} {after : Table F D}
    (closed : table.close handle = .ok (session, after)) :
    table.find? handle = some session ∧ after = table.erase handle := by
  unfold Table.close at closed
  split at closed
  · rename_i taken
    cases closed
    exact ⟨taken, rfl⟩
  · cases closed

theorem All.close (all : All holds table) {handle : Nat} {session : AnySession F D}
    {after : Table F D} (closed : table.close handle = .ok (session, after)) : All holds after := by
  obtain ⟨-, rfl⟩ := close_eq_ok closed
  intro other present found
  rw [find?_erase] at found
  split at found
  · cases found
  · exact all other present found

theorem find?_close_self {handle : Nat} {session : AnySession F D} {after : Table F D}
    (closed : table.close handle = .ok (session, after)) : after.find? handle = none := by
  obtain ⟨-, rfl⟩ := close_eq_ok closed
  rw [find?_erase, if_pos rfl]

theorem find?_close_of_ne {handle other : Nat} {session : AnySession F D} {after : Table F D}
    (closed : table.close handle = .ok (session, after)) (apart : other ≠ handle) :
    after.find? other = table.find? other := by
  obtain ⟨-, rfl⟩ := close_eq_ok closed
  rw [find?_erase, if_neg apart]

theorem last_close {handle : Nat} {session : AnySession F D} {after : Table F D}
    (closed : table.close handle = .ok (session, after)) : after.last = table.last := by
  obtain ⟨-, rfl⟩ := close_eq_ok closed
  rfl

end GuestStorage.Session.Table
