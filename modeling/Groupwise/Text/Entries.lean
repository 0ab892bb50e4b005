import Groupwise.Text.Blank

namespace Groupwise.Text

/-- A quote that stands alone is not a pair. -/
def between? (quote : Char) (s : List Char) : Option (List Char) :=
  match s with
  | [] => none
  | first :: rest =>
    if first = quote ∧ rest.getLast? = some quote then some rest.dropLast else none

def unquote (s : List Char) : List Char :=
  ((between? '"' (trim s)).or (between? '\'' (trim s))).getD (trim s)

def entries (s : List Char) : List (List Char) :=
  (((unquote s).splitOn ',').map trim).filter (· ≠ [])

end Groupwise.Text
