import Groupwise.Tree

namespace Groupwise.Json

def escape (c : Char) : List Char :=
  if c = '"' then ['\\', '"']
  else if c = '\\' then ['\\', '\\']
  else if c = '\x08' then ['\\', 'b']
  else if c = '\x0c' then ['\\', 'f']
  else if c = '\n' then ['\\', 'n']
  else if c = '\r' then ['\\', 'r']
  else if c = '\t' then ['\\', 't']
  else if c.toNat < 0x10 then ['\\', 'u', '0', '0', '0'] ++ Nat.toDigits 16 c.toNat
  else if c.toNat < 0x20 then ['\\', 'u', '0', '0'] ++ Nat.toDigits 16 c.toNat
  else [c]

def stringText (s : String) : List Char := '"' :: s.toList.flatMap escape ++ ['"']

def boolText (b : Bool) : List Char := if b then ['t', 'r', 'u', 'e'] else ['f', 'a', 'l', 's', 'e']

def nullText : List Char := ['n', 'u', 'l', 'l']

mutual
def compact : Tree → List Char
  | .null => nullText
  | .bool b => boolText b
  | .number n => n.text
  | .string s => stringText s
  | .array items => '[' :: compactItems items ++ [']']
  | .object members => '\x7b' :: compactMembers members ++ ['\x7d']

def compactItems : List Tree → List Char
  | [] => []
  | [t] => compact t
  | t :: rest => compact t ++ ',' :: compactItems rest

def compactMembers : List (String × Tree) → List Char
  | [] => []
  | [(key, t)] => stringText key ++ ':' :: compact t
  | (key, t) :: rest => stringText key ++ ':' :: compact t ++ ',' :: compactMembers rest
end

def newline (depth : Nat) : List Char := '\n' :: List.replicate (2 * depth) ' '

mutual
def pretty (depth : Nat) : Tree → List Char
  | .null => nullText
  | .bool b => boolText b
  | .number n => n.text
  | .string s => stringText s
  | .array [] => ['[', ']']
  | .array items => '[' :: prettyItems (depth + 1) items ++ newline depth ++ [']']
  | .object [] => ['\x7b', '\x7d']
  | .object members => '\x7b' :: prettyMembers (depth + 1) members ++ newline depth ++ ['\x7d']

def prettyItems (depth : Nat) : List Tree → List Char
  | [] => []
  | [t] => newline depth ++ pretty depth t
  | t :: rest => newline depth ++ pretty depth t ++ ',' :: prettyItems depth rest

def prettyMembers (depth : Nat) : List (String × Tree) → List Char
  | [] => []
  | [(key, t)] => newline depth ++ stringText key ++ ':' :: ' ' :: pretty depth t
  | (key, t) :: rest =>
    newline depth ++ stringText key ++ ':' :: ' ' :: pretty depth t ++ ',' :: prettyMembers depth rest
end

inductive Layout where
  | compact
  | pretty
  deriving DecidableEq, Repr

def Layout.text (layout : Layout) (t : Tree) : List Char :=
  match layout with
  | .compact => Json.compact t
  | .pretty => Json.pretty 0 t

def render (layout : Layout) (t : Tree) : String := String.ofList (layout.text t)

def objectText (members : List (String × List Char)) : List Char :=
  '\x7b' :: [','].intercalate (members.map fun (key, value) => stringText key ++ ':' :: value) ++ ['\x7d']

def arrayText (items : List (List Char)) : List Char := '[' :: [','].intercalate items ++ [']']

end Groupwise.Json
