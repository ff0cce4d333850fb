/-! # Letter case

    Names of reserved directories and file extensions are compared without regard to the
    case of the letters A to Z. Every other character stands for itself: a letter with an
    accent keeps its case.
-/

namespace Hosting.Text

/-- The letters A to Z in lower case, everything else as it is. -/
def lowercase (cs : List Char) : List Char :=
  cs.map Char.toLower

/-- Equal up to the case of the letters A to Z. -/
def sameLetters (a b : List Char) : Bool :=
  lowercase a == lowercase b

@[simp] theorem sameLetters_iff {a b : List Char} :
    sameLetters a b = true ↔ lowercase a = lowercase b := by
  simp [sameLetters]

@[simp] theorem length_lowercase (cs : List Char) : (lowercase cs).length = cs.length := by
  simp [lowercase]

end Hosting.Text
