import Groupwise.Error
import Groupwise.Event

namespace Groupwise.Options

def load (environment : List (String × String)) : Except Error Options × List Event :=
  match ofEnvironment environment with
  | .ok options => (.ok options, [.loaded options])
  | .error cause => (.error (.options cause), [])

end Groupwise.Options
