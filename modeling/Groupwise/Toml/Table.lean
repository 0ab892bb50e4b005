import Groupwise.Toml.Value

namespace Groupwise.Toml

/-- What made a table: a header that only passes through it, the keys of an assignment, or its own header. -/
inductive Origin where
  | implied
  | dotted
  | headed
  deriving DecidableEq, Repr

/-- A part of a document that is still read. An array of tables has its last element first. -/
inductive Node where
  | value (value : Value)
  | table (origin : Origin) (entries : List (String × Node))
  | tables (elements : List Node)

namespace Node

mutual
def close : Node → Value
  | .value v => v
  | .table _ entries => .table (closeEntries entries)
  | .tables elements => .array (closeElements elements).reverse

def closeEntries : List (String × Node) → List (String × Value)
  | [] => []
  | (key, node) :: rest => (key, close node) :: closeEntries rest

def closeElements : List Node → List Value
  | [] => []
  | node :: rest => close node :: closeElements rest
end

/--
Gives a value to keys. All but the last name tables without a header of their own, or arrays of tables, of which
the last element is meant. `own` says whether the present table may get a value: it is the one that assignments
go to, or the keys of an assignment have made it.
-/
def assign (value : Value) (own : Bool) : List String → Members Node → Option (Members Node)
  | [], _ => none
  | [key], entries =>
    if own && (entries.find? key).isNone then some (entries.insert key (.value value)) else none
  | key :: keys, entries =>
    match entries.find? key with
    | none => do
      let inner ← assign value true keys []
      some (entries.insert key (.table .dotted inner))
    -- The keys of an assignment do not lead into a table with a header of its own.
    | some (.table .headed _) => none
    | some (.table origin inner) => do
      let inner ← assign value (origin = .dotted) keys inner
      some (entries.insert key (.table origin inner))
    | some (.tables (.table origin inner :: older)) => do
      let inner ← assign value (origin = .dotted) keys inner
      some (entries.insert key (.tables (.table origin inner :: older)))
    | some _ => none

def change (f : Members Node → Option (Members Node)) : List String → Members Node → Option (Members Node)
  | [], entries => f entries
  | key :: keys, entries =>
    match entries.find? key with
    | none => do
      let inner ← change f keys []
      some (entries.insert key (.table .implied inner))
    | some (.table origin inner) => do
      let inner ← change f keys inner
      some (entries.insert key (.table origin inner))
    | some (.tables (.table origin inner :: older)) => do
      let inner ← change f keys inner
      some (entries.insert key (.tables (.table origin inner :: older)))
    | some _ => none

def head (key : String) (entries : Members Node) : Option (Members Node) :=
  match entries.find? key with
  | none => some (entries.insert key (.table .headed []))
  | some (.table .implied inner) => some (entries.insert key (.table .headed inner))
  | some _ => none

def append (key : String) (entries : Members Node) : Option (Members Node) :=
  match entries.find? key with
  | none => some (entries.insert key (.tables [.table .headed []]))
  | some (.tables elements) => some (entries.insert key (.tables (.table .headed [] :: elements)))
  | some _ => none

end Node

end Groupwise.Toml
