namespace GuestStorage.Text

def cut (separates : Char → Bool) : List Char → List (List Char)
  | [] => [[]]
  | c :: rest =>
    if separates c then [] :: cut separates rest
    else
      match cut separates rest with
      | [] => [[c]]
      | first :: others => (c :: first) :: others

theorem length_cut (separates : Char → Bool) (text : List Char) :
    (cut separates text).length = text.countP separates + 1 := by
  induction text with
  | nil => rfl
  | cons c rest ih =>
    rw [cut, List.countP_cons]
    cases separates c
    · cases found : cut separates rest with
      | nil => simp [found] at ih
      | cons first others => simpa [found] using ih
    · simp [ih]

theorem cut_ne_nil (separates : Char → Bool) (text : List Char) : cut separates text ≠ [] := by
  intro empty
  have length := length_cut separates text
  rw [empty] at length
  simp at length

theorem cut_append_cons {separates : Char → Bool} {c : Char} (parts : separates c = true)
    (before behind : List Char) :
    cut separates (before ++ c :: behind) = cut separates before ++ cut separates behind := by
  induction before with
  | nil => simp [cut, parts]
  | cons first rest ih =>
    rw [List.cons_append, cut, cut, ih]
    cases separates first
    · cases found : cut separates rest with
      | nil => exact absurd found (cut_ne_nil separates rest)
      | cons piece others => simp
    · simp

theorem not_separates_of_mem_cut {separates : Char → Bool} {text piece : List Char} {c : Char}
    (listed : piece ∈ cut separates text) (held : c ∈ piece) : separates c = false := by
  induction text generalizing piece with
  | nil => simp_all [cut]
  | cons first rest ih =>
    rw [cut] at listed
    cases parts : separates first
    · cases found : cut separates rest with
      | nil => exact absurd found (cut_ne_nil separates rest)
      | cons next others =>
        simp only [parts, found, Bool.false_eq_true, ↓reduceIte, List.mem_cons] at listed
        rcases listed with rfl | listed
        · rcases List.mem_cons.mp held with rfl | held
          · exact parts
          · exact ih (by simp [found]) held
        · exact ih (by simp [found, listed]) held
    · simp only [parts, ↓reduceIte, List.mem_cons] at listed
      rcases listed with rfl | listed
      · cases held
      · exact ih listed held

end GuestStorage.Text

namespace GuestStorage.Path

def isSeparator (c : Char) : Bool := c == '/' || c == '\\'

/-- The maximal runs of other characters between separators, in order. -/
def components (path : String) : List String :=
  ((Text.cut isSeparator path.toList).filter (!·.isEmpty)).map String.ofList

def join (parts : List String) : String := "/".intercalate parts

def sanitize (path : String) : String := join (components path)

/-- What stands before and after the last `/`; without one the first part is empty. -/
def splitParent (path : String) : String × String :=
  let reversed := path.toList.reverse
  match reversed.dropWhile (· != '/') with
  | [] => ("", path)
  | _ :: before => (String.ofList before.reverse, String.ofList (reversed.takeWhile (· != '/')).reverse)

/-- A child's path below a directory's path; a path that already ends in `/` gains no second one. -/
def child (directory name : String) : String :=
  if directory.toList.getLast? == some '/' then directory ++ name else directory ++ "/" ++ name

end GuestStorage.Path
