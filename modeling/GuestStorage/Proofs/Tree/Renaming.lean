import GuestStorage.Proofs.Tree.Attempts

namespace GuestStorage.Tree.Mount

variable {σ F D : Type} [Backing σ F D] {s : σ} {mount : Mount D} {source target : String}

/-- The answers to a request for another path of an entry that a directory finds by name: nothing is done,
    the entry gets its new name in the directory that holds it, or it is moved to another. -/
inductive Course {V : Type} (mount : Mount D) (s : σ) (source target : String)
    (child : DirectoryView D → String → Option V) (rename : V → String → Option V × σ)
    (move : V → DirectoryView D → String → DirectoryView D → String → Except Error Unit × σ) :
    Except Error Unit × σ → Prop where
  | refused (e : Error) : Course mount s source target child rename move (.error e, s)
  | own {home goal : DirectoryView D} {name : String} {entry : V} :
      mount.locate s source = .ok (home, name) → child home name = some entry →
      mount.locate s target = .ok (goal, name) → samePlace s home goal = true →
        Course mount s source target child rename move (.ok (), s)
  | inPlace {home goal : DirectoryView D} {old new : String} {entry : V} {answer : Except Error Unit × σ} :
      mount.locate s source = .ok (home, old) → child home old = some entry →
      mount.locate s target = .ok (goal, new) → samePlace s home goal = true → goal.hasEntry s new = false →
      answer.2 = (rename entry new).2 → (answer.1 = .ok () ↔ (rename entry new).1.isSome = true) →
        Course mount s source target child rename move answer
  | moved {home goal : DirectoryView D} {old new : String} {entry : V} :
      mount.locate s source = .ok (home, old) → child home old = some entry →
      mount.locate s target = .ok (goal, new) → samePlace s home goal = false → goal.hasEntry s new = false →
        Course mount s source target child rename move (move entry home old goal new)

theorem Course.normal_of_done {V : Type} {child : DirectoryView D → String → Option V}
    {rename : V → String → Option V × σ}
    {move : V → DirectoryView D → String → DirectoryView D → String → Except Error Unit × σ}
    {outcome : Except Error Unit × σ} (course : mount.Course s source target child rename move outcome)
    (done : outcome.1 = .ok ()) : ∃ names, normalize target = .ok names := by
  cases course with
  | refused e => cases done
  | own _ _ located' | inPlace _ _ located' | moved _ _ located' =>
    obtain ⟨front, normal, -⟩ := locate_eq_ok.mp located'
    exact ⟨_, normal⟩

theorem renameFile_course (s : σ) (mount : Mount D) (source target : String) :
    mount.Course s source target (fun home name => home.file? s name) (fun file name => file.rename s name)
      (moveFile s) (mount.renameFile s source target) := by
  rw [renameFile]
  split
  · exact .refused _
  · rename_i home old located
    split
    · exact .refused _
    · rename_i file found
      split
      · exact .refused _
      · rename_i goal new located'
        split
        · rename_i own
          obtain ⟨same, named⟩ := Bool.and_eq_true_iff.mp own
          obtain rfl := beq_iff_eq.mp named
          exact .own located found located' same
        · split
          · exact .refused _
          · rename_i free
            have free := Bool.eq_false_iff.mpr free
            split
            · rename_i same
              refine .inPlace located found located' same free ?_ ?_ <;> split <;> simp_all
            · rename_i apart
              exact .moved located found located' (Bool.eq_false_iff.mpr apart) free

theorem locate_eq {names : List String} {path : String} (normal : normalize path = .ok names) :
    mount.locate s path = mount.locateAlong s names := by
  rw [locate, normal]
  rfl

theorem renameDirectory_course (s : σ) (mount : Mount D) (source target : String) :
    mount.Course s source target (fun home name => home.subdirectory? s name)
      (fun dir name => dir.rename s name) (moveDirectory s) (mount.renameDirectory s source target) := by
  rw [renameDirectory]
  split
  · exact .refused _
  · exact .refused _
  · rename_i names others normal normal'
    simp only [← locate_eq normal, ← locate_eq normal']
    split
    · exact .refused _
    · split
      · exact .refused _
      · rename_i home old located
        split
        · exact .refused _
        · rename_i dir found
          split
          · exact .refused _
          · rename_i goal new located'
            split
            · rename_i same
              rw [locate_eq normal', ← beq_iff_eq.mp same, ← locate_eq normal, located] at located'
              cases located'
              refine .own located found ?_ (beq_self_eq_true _)
              rw [locate_eq normal', ← beq_iff_eq.mp same, ← locate_eq normal, located]
            · split
              · exact .refused _
              · rename_i free
                have free := Bool.eq_false_iff.mpr free
                split
                · rename_i same
                  refine .inPlace located found located' same free ?_ ?_ <;> split <;> simp_all
                · rename_i apart
                  exact .moved located found located' (Bool.eq_false_iff.mpr apart) free

end GuestStorage.Tree.Mount
