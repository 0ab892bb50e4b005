import Groupwise.Toml.Quote
import Groupwise.Toml.Scalar
import Groupwise.Toml.Table

namespace Groupwise.Toml

def key? (s : List Char) : Option (String × List Char) :=
  match s with
  | '"' :: rest => lineString? '"' rest
  | '\'' :: rest => lineString? '\'' rest
  | s =>
    if s.takeWhile Text.isKeyChar = [] then none
    else some (String.ofList (s.takeWhile Text.isKeyChar), s.dropWhile Text.isKeyChar)

def dotted? (s : List Char) : Option (List String × List Char) := do
  let (key, rest) ← key? (skipSpace s)
  match skipSpace rest with
  | '.' :: rest =>
    if rest.length < s.length then do
      let (more, rest) ← dotted? rest
      some (key :: more, rest)
    else none
  | rest => some ([key], rest)
termination_by s.length

/-- The greatest number of arrays and tables in braces that may be open at once, and of keys with dots between them. -/
def maxLevels : Nat := 80

def keys? (s : List Char) : Option (List String × List Char) := do
  let (keys, rest) ← dotted? s
  if keys.length ≤ maxLevels then some (keys, rest) else none

def isScalarChar (c : Char) : Bool := c.isAlphanum || ['+', '-', '_', '.', ':'].contains c

/-- The characters of a value without quotes and brackets. One space may stand between a day and a time. -/
def scalarText (s : List Char) : List Char × List Char :=
  let first := s.takeWhile isScalarChar
  match s.dropWhile isScalarChar with
  | ' ' :: d :: rest =>
    if d.isDigit ∧ (date? first).map Prod.snd = some [] then
      (first ++ ' ' :: (d :: rest).takeWhile isScalarChar, (d :: rest).dropWhile isScalarChar)
    else (first, ' ' :: d :: rest)
  | rest => (first, rest)

abbrev Reader (α : Type) := List Char → Option (α × List Char)

def items (value : Reader Value) (s : List Char) : Option (List Value × List Char) := do
  match ← skipLines s with
  | ']' :: rest => some ([], rest)
  | start =>
    let (first, rest) ← value start
    match ← skipLines rest with
    | ']' :: rest => some ([first], rest)
    | ',' :: rest =>
      if rest.length < s.length then do
        let (more, rest) ← items value rest
        some (first :: more, rest)
      else none
    | _ => none
termination_by s.length

def assignment (value : Reader Value) : Reader (List String × Value) := fun s => do
  let (keys, rest) ← keys? s
  match skipSpace rest with
  | '=' :: rest => do
    let (v, rest) ← value (skipSpace rest)
    some ((keys, v), rest)
  | _ => none

def assignments (value : Reader Value) (entries : Members Node) (s : List Char) :
    Option (Members Node × List Char) := do
  let ((keys, v), rest) ← assignment value s
  let entries ← Node.assign v true keys entries
  match skipSpace rest with
  | '\x7d' :: rest => some (entries, rest)
  | ',' :: rest => if rest.length < s.length then assignments value entries rest else none
  | _ => none
termination_by s.length

def value (levels : Nat) (s : List Char) : Option (Value × List Char) :=
  match s with
  | '"' :: rest => (string? '"' rest).map fun (text, rest) => (.string text, rest)
  | '\'' :: rest => (string? '\'' rest).map fun (text, rest) => (.string text, rest)
  | '[' :: rest =>
    match levels with
    | 0 => none
    | levels + 1 => (items (value levels) rest).map fun (all, rest) => (.array all, rest)
  | '\x7b' :: rest =>
    match levels with
    | 0 => none
    | levels + 1 =>
      match skipSpace rest with
      | '\x7d' :: rest => some (.table [], rest)
      | rest =>
        (assignments (value levels) [] rest).map fun (entries, rest) => (.table (Node.closeEntries entries), rest)
  | s => (scalar? (scalarText s).1).map fun v => (v, (scalarText s).2)
termination_by structural levels

structure State where
  root : Members Node := []
  current : List String := []

def header (element : Bool) (state : State) (s : List Char) : Option (State × List Char) := do
  let (keys, rest) ← keys? s
  let rest ←
    match element, skipSpace rest with
    | true, ']' :: ']' :: rest => some rest
    | false, ']' :: rest => some rest
    | _, _ => none
  let last ← keys.getLast?
  let root ← Node.change (if element then Node.append last else Node.head last) keys.dropLast state.root
  some (⟨root, keys⟩, rest)

def statement (state : State) (s : List Char) : Option (State × List Char) :=
  match s with
  | '[' :: '[' :: rest => header true state rest
  | '[' :: rest => header false state rest
  | s => do
    let ((keys, v), rest) ← assignment (value maxLevels) s
    let root ← Node.change (Node.assign v true keys) state.current state.root
    some ({ state with root := root }, rest)

def statements (state : State) (s : List Char) : Option State := do
  match ← skipLines s with
  | [] => some state
  | start =>
    let (state, rest) ← statement state start
    let line ← skipComment (skipSpace rest)
    match lineBreak? line with
    | some rest => if rest.length < s.length then statements state rest else none
    | none => if line = [] then some state else none
termination_by s.length

def document? (text : String) : Option (Members Value) := do
  let s := match text.toList with
    | '\ufeff' :: rest => rest
    | s => s
  let state ← statements {} s
  some (Node.closeEntries state.root)

end Groupwise.Toml
