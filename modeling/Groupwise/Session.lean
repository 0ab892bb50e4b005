import Groupwise.Decode
import Groupwise.Json.Printer
import Groupwise.Resolve

namespace Groupwise

def Options.layout (options : Options) : Json.Layout := if options.pretty then .pretty else .compact

def renderProperties (layout : Json.Layout) (properties : Properties) : String :=
  Json.render layout (.object properties)

variable {α : Type}

def decodeProperties (decode : Decoder α) (properties : Properties) : Except Error α :=
  (decode (.object properties)).mapError fun fault => .unfit (.shape fault)

def resolveText (text : String) (groups : List String) : Except Error String := do
  let properties ← (resolve text groups .json).outcome
  .ok (renderProperties .compact properties)

def resolveAs (decode : Decoder α) (text : String) (groups : List String) : Except Error α := do
  let properties ← (resolve text groups .json).outcome
  decodeProperties decode properties

structure Session where
  options : Options := {}
  stored : Option String := none
  deriving DecidableEq, Repr

namespace Session

def store (session : Session) (text : String) : Session := { session with stored := some text }

def resolveFrom (session : Session) (text : String) (groups : List String) : Except Error String := do
  let properties ← (resolve text groups session.options.format).outcome
  .ok (renderProperties session.options.layout properties)

def resolveFromAs (session : Session) (decode : Decoder α) (text : String) (groups : List String) :
    Except Error α := do
  let properties ← (resolve text groups session.options.format).outcome
  decodeProperties decode properties

/-- The stored configuration. An empty text counts as none. -/
def config (session : Session) : Except Error String :=
  match session.stored with
  | some text => if text = "" then .error .notStored else .ok text
  | none => .error .notStored

def resolveStored (session : Session) (groups : List String) : Except Error String := do
  let text ← session.config
  session.resolveFrom text groups

def resolveStoredAs (session : Session) (decode : Decoder α) (groups : List String) : Except Error α := do
  let text ← session.config
  session.resolveFromAs decode text groups

end Session

end Groupwise
