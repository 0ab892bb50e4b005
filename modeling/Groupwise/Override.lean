import Groupwise.Error
import Groupwise.Event

namespace Groupwise

/-- The keys of a dot path. Every dot separates two keys, which may be empty. -/
def keysOf (path : String) : List String := (path.toList.splitOn '.').map String.ofList

def splitFirst? (path : List Char) : Option (List Char × List Char) :=
  match path.dropWhile (· ≠ '.') with
  | [] => none
  | _ :: rest => some (path.takeWhile (· ≠ '.'), rest)

theorem length_splitFirst? {path key rest : List Char} (h : splitFirst? path = some (key, rest)) :
    rest.length < path.length := by
  have hlength : (path.dropWhile (· ≠ '.')).length ≤ path.length := (List.dropWhile_suffix _).length_le
  rw [splitFirst?] at h
  split at h
  · contradiction
  · next hdrop =>
    simp only [Option.some.injEq, Prod.mk.injEq] at h
    rw [hdrop, h.2] at hlength
    exact hlength

structure Applied where
  properties : Properties
  log : List Event
  fault : Option Error
  deriving DecidableEq

def Applied.after (log : List Event) (applied : Applied) : Applied :=
  { applied with log := log ++ applied.log }

namespace Properties

/--
Overwrites what a dot path leads to. Its keys are taken off one after another; what stands in the way of one and is
not an object gives place to an object.
-/
def writeAlong (value : Tree) (path : List Char) (properties : Properties) : Properties :=
  match _hsplit : splitFirst? path with
  | none => properties.insert (String.ofList path) value
  | some (key, rest) =>
    let key := String.ofList key
    properties.insert key (.object (writeAlong value rest (below key properties)))
termination_by path.length
decreasing_by exact length_splitFirst? _hsplit

def override (path : String) (value : Tree) (properties : Properties) : Except Error Properties :=
  if (keysOf path).length ≤ maxKeys then .ok (properties.writeAlong value path.toList)
  else .error (.invalid path (.tooManyKeys (keysOf path).length))

/-- Overwrites values one after another. The first path that is refused ends it; what was done before it stays. -/
def overrideAll : Members Tree → Properties → Applied
  | [], properties => ⟨properties, [], none⟩
  | (path, value) :: rest, properties =>
    match properties.override path value with
    | .error fault => ⟨properties, [.applying path], some fault⟩
    | .ok properties => (overrideAll rest properties).after [.applying path]

end Properties

end Groupwise
