import Groupwise.Criterion
import Groupwise.Options

namespace Groupwise

/-- What is logged. Rules are named by their place, from zero on. -/
inductive Event where
  | loaded (options : Options)
  | resolving (rules groups : Nat) (format : Format)
  | matched (rule : Nat) (criterion : Criterion) (overrides : Nat)
  | unmatched (rule : Nat)
  | applying (path : String)
  deriving DecidableEq, Repr

namespace Event

inductive Level where
  | debug
  | trace
  deriving DecidableEq, Repr

inductive Detail where
  | text (value : String)
  | count (value : Nat)
  | flag (value : Bool)
  deriving DecidableEq, Repr

def level : Event → Level
  | .loaded _ | .resolving .. | .matched .. => .debug
  | .unmatched _ | .applying _ => .trace

def message : Event → String
  | .loaded _ => "loaded resolver options"
  | .resolving .. => "resolving config"
  | .matched .. => "override rule matched"
  | .unmatched _ => "override rule did not match"
  | .applying _ => "applying override"

def details : Event → List (String × Detail)
  | .loaded options => [("format", .text options.format.title), ("pretty", .flag options.pretty)]
  | .resolving rules groups format =>
    [("rules", .count rules), ("groups", .count groups), ("format", .text format.title)]
  | .matched rule criterion overrides =>
    [("rule", .count rule), ("criterion", .text criterion.name), ("overrides", .count overrides)]
  | .unmatched rule => [("rule", .count rule)]
  | .applying path => [("path", .text path)]

/-- What an event is about can be told from its details alone. -/
theorem details_injective {event other : Event} (h : event.details = other.details) : event = other := by
  cases event <;> cases other <;> simp [details] at h
  case loaded.loaded options other =>
    obtain ⟨format, pretty⟩ := options
    obtain ⟨format', pretty'⟩ := other
    have hformat : format = format' := Format.title_injective h.1
    have hpretty : pretty = pretty' := h.2
    rw [hformat, hpretty]
  case resolving.resolving =>
    obtain ⟨rfl, rfl, hformat⟩ := h
    rw [Format.title_injective hformat]
  case matched.matched =>
    obtain ⟨rfl, hcriterion, rfl⟩ := h
    rw [Criterion.name_injective hcriterion]
  case unmatched.unmatched => rw [h]
  case applying.applying => rw [h]

theorem message_eq_iff {event other : Event} :
    event.message = other.message ↔ event.details.map Prod.fst = other.details.map Prod.fst := by
  cases event <;> cases other <;> simp [message, details]

theorem level_eq_trace_iff {event : Event} : event.level = .trace ↔ event.details.length = 1 := by
  cases event <;> simp [level, details]

end Event

end Groupwise
