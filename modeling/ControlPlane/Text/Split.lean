/-! # Splitting texts at a separator -/
namespace ControlPlane.Text

/-- The parts between separators, one more than there are separators. -/
def splitOn (separator : Char) : List Char → List (List Char)
  | [] => [[]]
  | c :: rest =>
    if c = separator then [] :: splitOn separator rest
    else match splitOn separator rest with
      | part :: parts => (c :: part) :: parts
      | [] => [[c]]

/-- The text before the first separator, and the text after it if there is one. -/
def cut (separator : Char) (cs : List Char) : List Char × Option (List Char) :=
  (cs.takeWhile (· != separator), match cs.dropWhile (· != separator) with
    | [] => none
    | _ :: rest => some rest)

end ControlPlane.Text
