namespace Groupwise.Expr

inductive Symbol where
  | open
  | close
  | and
  | or
  | not
  | member (group : String)
  deriving DecidableEq, Repr

structure Token where
  symbol : Symbol
  position : Nat
  deriving DecidableEq, Repr

def Symbol.description : Symbol → String
  | .open => "'('"
  | .close => "')'"
  | .and => "'and'"
  | .or => "'or'"
  | .not => "'not'"
  | .member group => s!"membership test for '{group}'"

end Groupwise.Expr
