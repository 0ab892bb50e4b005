import Groupwise.Options
import Groupwise.Shape
import Groupwise.Text.Blank
import Groupwise.Text.Digits

namespace Groupwise.Options

/--
What the value of an environment variable stands for. Of a map that is not empty there is the entry with the
least key: nobody asks for another one.
-/
inductive Setting where
  | bool (value : Bool)
  | unsigned (value : Nat)
  | signed (value : Int)
  | float (value : Binary64)
  | infinite (negative : Bool)
  | char (value : Char)
  | string (value : String)
  | sequence
  | emptyMap
  | map (key : String) (value : Setting)
  deriving DecidableEq, Repr

namespace Setting

open Text (decimalNumber splitSign)

def description : Setting → String
  | .bool b => s!"bool {b}"
  | .unsigned n => s!"unsigned int `{n}`"
  | .signed n => s!"signed int `{n}`"
  | .float x => s!"float `{String.ofList (Number.positional x)}`"
  | .infinite negative => if negative then "float `-inf`" else "float `inf`"
  | .char c => s!"string {Text.quoted c.toString}"
  | .string s => s!"string {Text.quoted s}"
  | .sequence => "sequence"
  | .emptyMap | .map .. => "map"

def allDigits (s : List Char) : Bool := s ≠ [] && s.all Char.isDigit

def power? (s : List Char) : Option Int :=
  let (negative, digits) := splitSign s
  if allDigits digits then some (if negative then -(decimalNumber digits) else decimalNumber digits) else none

def float? (s : List Char) : Option Setting := do
  let (negative, s) := splitSign s
  let whole := s.takeWhile Char.isDigit
  let '.' :: s := s.dropWhile Char.isDigit | none
  let fraction := s.takeWhile Char.isDigit
  if whole = [] ∧ fraction = [] then none
  else
    let power ←
      match s.dropWhile Char.isDigit with
      | [] => some 0
      | c :: rest => if c = 'e' ∨ c = 'E' then power? rest else none
    match Binary64.ofDecimal? negative (decimalNumber (whole ++ fraction)) (power - fraction.length) with
    | some x => some (.float x)
    | none => some (.infinite negative)

def integer? (s : List Char) : Option Setting :=
  let (negative, digits) := splitSign s
  if allDigits digits = false then none
  else if negative then
    if decimalNumber digits ≤ Number.signedEnd then some (.signed (-(decimalNumber digits))) else none
  else if decimalNumber digits < Number.unsignedEnd then some (.unsigned (decimalNumber digits)) else none

def plain (s : List Char) : Setting :=
  ((if s.contains '.' then float? s else none).or (integer? s)).getD (.string (String.ofList s))

def isSeparator (c : Char) : Bool := [',', '\x7b', '\x7d', '[', ']'].contains c

def quotedText : List Char → Option (List Char × List Char)
  | [] => none
  | '"' :: rest => some ([], rest)
  | '\\' :: 'u' :: a :: b :: c :: d :: rest => do
    let x ← Text.charOfHex? [a, b, c, d]
    let (text, rest) ← quotedText rest
    some (x :: text, rest)
  | '\\' :: 'U' :: a :: b :: c :: d :: e :: f :: g :: h :: rest => do
    let x ← Text.charOfHex? [a, b, c, d, e, f, g, h]
    let (text, rest) ← quotedText rest
    some (x :: text, rest)
  | '\\' :: c :: rest => do
    let x ←
      match c with
      | '"' => some '"'
      | '\\' => some '\\'
      | 'b' => some '\x08'
      | 'f' => some '\x0c'
      | 'n' => some '\n'
      | 'r' => some '\r'
      | 't' => some '\t'
      | _ => none
    let (text, rest) ← quotedText rest
    some (x :: text, rest)
  | c :: rest =>
    if c = '\\' ∨ c = '\x7f' ∨ (c.toNat < 0x20 ∧ c ≠ '\t') then none
    else do
      let (text, rest) ← quotedText rest
      some (c :: text, rest)

def isSpace (c : Char) : Bool := [' ', '\t', '\n', '\x0c', '\r'].contains c

def skipBlank (s : List Char) : List Char := s.dropWhile isSpace

def key? (s : List Char) : Option (String × List Char) := do
  let (key, rest) ←
    match skipBlank s with
    | '"' :: rest => quotedText rest
    | s => if s.takeWhile Text.isKeyChar = [] then none else some (s.span Text.isKeyChar)
  match skipBlank rest with
  | '=' :: rest => some (String.ofList key, rest)
  | _ => none

def put (key : String) (value : Setting) : Setting → Setting
  | .map least old => if least < key then .map least old else .map key value
  | _ => .map key value

mutual
def read? (fuel : Nat) (s : List Char) : Option (Setting × List Char) :=
  match fuel with
  | 0 => none
  | fuel + 1 =>
    match skipBlank s with
    | 't' :: 'r' :: 'u' :: 'e' :: rest => some (.bool true, skipBlank rest)
    | 'f' :: 'a' :: 'l' :: 's' :: 'e' :: rest => some (.bool false, skipBlank rest)
    | '[' :: rest => (items? fuel rest).map fun rest => (.sequence, skipBlank rest)
    | '\x7b' :: rest => (entries? fuel .emptyMap rest).map fun (entries, rest) => (entries, skipBlank rest)
    | '"' :: rest => (quotedText rest).map fun (text, rest) => (.string (String.ofList text), skipBlank rest)
    | '\'' :: c :: '\'' :: rest => some (.char c, skipBlank rest)
    | '\'' :: _ => none
    | s => some (plain (Text.trim (s.takeWhile (!isSeparator ·))), s.dropWhile (!isSeparator ·))

def items? (fuel : Nat) (s : List Char) : Option (List Char) :=
  match fuel, s with
  | 0, _ => none
  | _ + 1, ']' :: rest => some rest
  | fuel + 1, s => do
    match (← read? fuel s).2 with
    | ',' :: after => items? fuel after
    | ']' :: after => some after
    | _ => none

def entries? (fuel : Nat) (before : Setting) (s : List Char) : Option (Setting × List Char) :=
  match fuel, s with
  | 0, _ => none
  | _ + 1, '\x7d' :: rest => some (before, rest)
  | fuel + 1, s => do
    let (key, rest) ← key? s
    let (value, rest) ← read? fuel rest
    match rest with
    | ',' :: after => entries? fuel (put key value before) after
    | '\x7d' :: after => some (put key value before, after)
    | _ => none
end

/-- What a later variable leaves of the setting of an earlier one. Only maps have parts that can stay. -/
def merge : Setting → Setting → Setting
  | .map old a, .map new b =>
    if old < new then .map old a
    else if new < old then .map new b
    else .map old (merge a b)
  | .map old a, .emptyMap => .map old a
  | _, later => later

/-- A text that cannot be read to its end is a string as it stands. -/
def ofText (text : String) : Setting :=
  match read? (2 * text.length + 2) text.toList with
  | some (setting, []) => setting
  | _ => .string text

end Setting

def environmentPrefix : String := "CONFIG_RESOLVER_"

inductive Fault where
  | wrongType (found : Setting) (wanted : String) (keys : List String)
  | unknownFormat (name : String) (keys : List String)
  deriving DecidableEq, Repr

def place (keys : List String) : String :=
  let upper := keys.map fun key => String.ofList (key.toList.map Char.toUpper)
  let path := ".".intercalate upper
  s!"for key {Text.quoted path} in `{environmentPrefix}` environment variable(s)"

def Fault.message : Fault → String
  | .wrongType found wanted keys =>
    s!"invalid type: found {found.description}, expected {wanted} {place keys}"
  | .unknownFormat name keys =>
    let names := ", ".intercalate (Format.names.map fun (other, _) => s!"`{other}`")
    s!"unknown variant: found `{name}`, expected `one of {names}` {place keys}"

/--
The path of keys that the name of a variable leads to: what follows the prefix, in lower case, with a dot
between two keys. Case does not count, nor do blanks around a name. A name with an empty key leads nowhere.
-/
def keysOfName (name : String) : List (List Char) :=
  let lower := (Text.trim name.toList).map Char.toLower
  let start := environmentPrefix.toList.map Char.toLower
  if start.isPrefixOf lower then
    let keys := (Text.trim (lower.drop start.length)).splitOn '.'
    if keys.contains [] then [] else keys
  else []

def settingOf? (key : String) (binding : String × String) : Option Setting :=
  match keysOfName binding.1 with
  | [] => none
  | first :: inner =>
    if first = key.toList then
      some (inner.foldr (fun key value => .map (String.ofList key) value) (Setting.ofText binding.2))
    else none

def setting? (key : String) (environment : List (String × String)) : Option Setting :=
  match environment.filterMap (settingOf? key) with
  | [] => none
  | first :: later => some (later.foldl Setting.merge first)

def formatKey : String := "format"

def prettyKey : String := "pretty"

def namedFormat (name : String) (keys : List String) : Except Fault Format :=
  match Format.ofName? name with
  | some format => .ok format
  | none => .error (.unknownFormat name keys)

/-- The format is named by a string. A map does not name one, as no value in it is empty. -/
def formatSetting (environment : List (String × String)) : Except Fault Format :=
  match setting? formatKey environment with
  | none => .ok .json
  | some (.string name) => namedFormat name [formatKey]
  | some .emptyMap => .error (.wrongType .emptyMap "enum" [formatKey])
  | some (.map name value) => do
    -- The key has to name a format before its value is refused.
    let _ ← namedFormat name [formatKey, name]
    .error (.wrongType value "unit" [formatKey, name])
  | some other => .error (.wrongType other "enum ConfigFormat" [formatKey])

def prettySetting (environment : List (String × String)) : Except Fault Bool :=
  match setting? prettyKey environment with
  | none => .ok false
  | some (.bool b) => .ok b
  | some other => .error (.wrongType other "a boolean" [prettyKey])

def ofEnvironment (environment : List (String × String)) : Except Fault Options := do
  let format ← formatSetting environment
  let pretty ← prettySetting environment
  .ok ⟨format, pretty⟩

end Groupwise.Options
