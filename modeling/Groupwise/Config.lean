import Groupwise.Rule

namespace Groupwise

structure Config where
  rules : List Rule := []
  defaults : Option Tree := none
  deriving DecidableEq

def Config.rulesKey : String := "override-rules"

def Config.defaultsKey : String := "default-properties"

end Groupwise
