import Groupwise.Text.Digits
import Groupwise.Toml.Blank

namespace Groupwise.Toml

def escape? (s : List Char) : Option (Char × List Char) :=
  match s with
  | 'b' :: rest => some ('\x08', rest)
  | 't' :: rest => some ('\t', rest)
  | 'n' :: rest => some ('\n', rest)
  | 'f' :: rest => some ('\x0c', rest)
  | 'r' :: rest => some ('\r', rest)
  | '"' :: rest => some ('"', rest)
  | '\\' :: rest => some ('\\', rest)
  | 'u' :: rest => if rest.length < 4 then none else (Text.charOfHex? (rest.take 4)).map (·, rest.drop 4)
  | 'U' :: rest => if rest.length < 8 then none else (Text.charOfHex? (rest.take 8)).map (·, rest.drop 8)
  | _ => none

def literal? (s : List Char) : Option (List Char × List Char) :=
  let text := s.takeWhile (· ≠ '\'')
  match s.dropWhile (· ≠ '\'') with
  | _ :: rest => if text.any isControl then none else some (text, rest)
  | [] => none

def basic? (fuel : Nat) (s : List Char) : Option (List Char × List Char) :=
  match fuel, s with
  | 0, _ | _, [] => none
  | _, '"' :: rest => some ([], rest)
  | fuel + 1, '\\' :: rest => do
    let (c, rest) ← escape? rest
    let (text, rest) ← basic? fuel rest
    some (c :: text, rest)
  | fuel + 1, c :: rest =>
    if isControl c then none
    else do
      let (text, rest) ← basic? fuel rest
      some (c :: text, rest)

/--
What a run of quotes means in a text that three of them end: the quotes that are part of the text, and whether
the text ends. Up to two quotes may stand right before the ones that end it.
-/
def closing (run : Nat) : Nat × Bool := if run < 3 then (run, false) else (min run 5 - 3, true)

def lines? (quote : Char) (fuel : Nat) (s : List Char) : Option (List Char × List Char) :=
  match fuel, s with
  | 0, _ | _, [] => none
  | fuel + 1, c :: rest =>
    if c = quote then
      let (count, ends) := closing ((c :: rest).takeWhile (· = quote)).length
      let quotes := List.replicate count quote
      if ends then some (quotes, (c :: rest).drop (count + 3))
      else do
        let (text, rest) ← lines? quote fuel ((c :: rest).drop count)
        some (quotes ++ text, rest)
    -- Behind a backslash that ends a line, all blanks and line breaks are passed.
    else if c = '\\' ∧ quote = '"' then
      match lineBreak? (skipSpace rest) with
      | some rest => lines? quote fuel (skipBlank rest)
      | none => do
        let (c, rest) ← escape? rest
        let (text, rest) ← lines? quote fuel rest
        some (c :: text, rest)
    else if isControl c && (lineBreak? (c :: rest)).isNone then none
    else do
      let (text, rest) ← lines? quote fuel rest
      some (c :: text, rest)

def dropBreak (s : List Char) : List Char := (lineBreak? s).getD s

def lineString? (quote : Char) (rest : List Char) : Option (String × List Char) :=
  (if quote = '"' then basic? (rest.length + 1) rest else literal? rest).map fun (text, rest) =>
    (String.ofList text, rest)

def string? (quote : Char) (rest : List Char) : Option (String × List Char) :=
  match rest with
  | q₁ :: q₂ :: rest' =>
    if q₁ = quote ∧ q₂ = quote then
      (lines? quote (rest'.length + 1) (dropBreak rest')).map fun (text, rest) => (String.ofList text, rest)
    else lineString? quote rest
  | rest => lineString? quote rest

end Groupwise.Toml
