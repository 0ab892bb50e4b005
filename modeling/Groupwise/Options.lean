import Groupwise.Format

namespace Groupwise

structure Options where
  format : Format := .json
  pretty : Bool := false
  deriving DecidableEq, Repr

end Groupwise
