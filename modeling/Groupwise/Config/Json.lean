import Groupwise.Config
import Groupwise.Rule.Json

namespace Groupwise.Config

open Json (Reader FieldReader)

def fields (levels : Nat) : List (FieldReader Config) :=
  [⟨rulesKey,
      Json.mapped (fun rules config => { config with rules := rules })
        (Json.orNull [] (Json.list levels (Rule.read (levels - 1))))⟩,
   ⟨defaultsKey,
      Json.mapped (fun defaults config => { config with defaults := defaults })
        (Json.optional (Json.tree levels))⟩]

def read (levels : Nat) : Reader Config := Json.record "struct ResolverConfig" (fields (levels - 1)) {} levels

def ofJson (text : String) : Except Json.Error Config := Json.readText (read Json.maxLevels) text

def text (config : Config) : List Char :=
  Json.objectText <|
    (rulesKey, Json.arrayText (config.rules.map Rule.text))
    :: (config.defaults.map fun defaults => (defaultsKey, Json.compact defaults)).toList

def toJson (config : Config) : String := String.ofList config.text

end Groupwise.Config
