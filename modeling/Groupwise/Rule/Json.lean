import Groupwise.Criterion
import Groupwise.Json.Printer
import Groupwise.Json.Reader

namespace Groupwise.Rule

open Json (Reader FieldReader)

def readNames (levels : Nat) : Reader (List String) := Json.orNull [] (Json.list levels Json.string)

def fields (levels : Nat) : List (FieldReader Rule) :=
  [⟨Criterion.allGroups.name,
      Json.mapped (fun names rule => { rule with allGroups := names }) (readNames levels)⟩,
   ⟨Criterion.anyGroup.name,
      Json.mapped (fun names rule => { rule with anyGroup := names }) (readNames levels)⟩,
   ⟨Criterion.noneOfGroups.name,
      Json.mapped (fun names rule => { rule with noneOfGroups := names }) (readNames levels)⟩,
   ⟨Criterion.expression.name,
      Json.mapped (fun text rule => { rule with expression := text }) (Json.optional Json.string)⟩,
   ⟨overrideKey,
      Json.mapped (fun entries rule => { rule with overrides := entries })
        (Json.orNull [] (Json.map levels (Json.tree (levels - 1))))⟩]

def read (levels : Nat) : Reader Rule := Json.record "struct OverrideRule" (fields (levels - 1)) {} levels

def namesText (names : List String) : List Char := Json.arrayText (names.map Json.stringText)

def text (rule : Rule) : List Char :=
  Json.objectText <|
    [(Criterion.allGroups.name, namesText rule.allGroups), (Criterion.anyGroup.name, namesText rule.anyGroup),
     (Criterion.noneOfGroups.name, namesText rule.noneOfGroups)]
    ++ (rule.expression.map fun e => (Criterion.expression.name, Json.stringText e)).toList
    ++ [(overrideKey, Json.compact (.object rule.overrides))]

end Groupwise.Rule
