namespace DataFlash.Path

def components (path : String) : List (List Char) :=
  (path.toList.splitOn '/').filter fun part => part ≠ [] ∧ part ≠ ['.']

/-- What follows the last dot of the last component. A name that starts with its only dot has no
extension, and neither has `..`. -/
def extension? (path : String) : Option (List Char) :=
  match (components path).getLast? with
  | none => none
  | some name =>
    if name = ['.', '.'] then none
    else
      let reversed := name.reverse
      match reversed.dropWhile (· ≠ '.') with
      | [] | ['.'] => none
      | _ => some (reversed.takeWhile (· ≠ '.')).reverse

end DataFlash.Path
