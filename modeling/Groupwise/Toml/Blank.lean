namespace Groupwise.Toml

def isControl (c : Char) : Bool := (c.toNat < 0x20 && c ≠ '\t') || c = '\x7f'

def isSpace (c : Char) : Bool := c = ' ' || c = '\t'

def skipSpace (s : List Char) : List Char := s.dropWhile isSpace

def lineBreak? : List Char → Option (List Char)
  | '\n' :: rest => some rest
  | '\r' :: '\n' :: rest => some rest
  | _ => none

def skipBlank : List Char → List Char
  | '\n' :: rest => skipBlank rest
  | '\r' :: '\n' :: rest => skipBlank rest
  | c :: rest => if isSpace c then skipBlank rest else c :: rest
  | [] => []

def skipNote : List Char → Option (List Char)
  | [] => some []
  | c :: rest =>
    if (lineBreak? (c :: rest)).isSome then some (c :: rest)
    else if isControl c then none
    else skipNote rest

def skipComment (s : List Char) : Option (List Char) :=
  match s with
  | '#' :: rest => skipNote rest
  | s => some s

def skipLines (s : List Char) : Option (List Char) := do
  let start ← skipComment (skipSpace s)
  match lineBreak? start with
  | some rest => if rest.length < s.length then skipLines rest else none
  | none => some start
termination_by s.length

end Groupwise.Toml
