import Groupwise.Error
import Groupwise.Json.Reader
import Groupwise.Rule.Json

namespace Groupwise

variable {α : Type}

def ofJson (read : Json.Reader α) (text : String) : Except Error α :=
  (Json.readText read text).mapError fun cause => .unreadable .json (.json cause)

def Tree.ofJson : String → Except Error Tree := Groupwise.ofJson (Json.tree Json.maxLevels)

def Properties.ofJson : String → Except Error Properties :=
  Groupwise.ofJson (Json.map Json.maxLevels (Json.tree (Json.maxLevels - 1)))

def Rule.ofJson : String → Except Error Rule := Groupwise.ofJson (Rule.read Json.maxLevels)

end Groupwise
