import Groupwise.Tree

namespace Groupwise.Toml

/-- A value of a document. Infinities and not-a-numbers are `special`, points in time have their normal text. -/
inductive Value where
  | bool (value : Bool)
  | integer (value : Int)
  | float (value : Binary64)
  | special
  | moment (text : String)
  | string (value : String)
  | array (items : List Value)
  | table (entries : List (String × Value))

namespace Value

/-- The key under which the text of a point in time stands in a tree. -/
def momentKey : String := "$__toml_private_datetime"

def momentMembers (text : String) : Members Tree := [(momentKey, .string text)]

mutual
def toTree : Value → Tree
  | .bool b => .bool b
  | .integer n => .number (.integer n)
  | .float x => .number (.float x)
  | .special => .null
  | .moment text => .object (momentMembers text)
  | .string s => .string s
  | .array items => .array (toTrees items)
  | .table entries => .object (toMembers entries)

def toTrees : List Value → List Tree
  | [] => []
  | v :: rest => toTree v :: toTrees rest

def toMembers : List (String × Value) → Members Tree
  | [] => []
  | (key, v) :: rest => (key, toTree v) :: toMembers rest
end

end Value

end Groupwise.Toml
