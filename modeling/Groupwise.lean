import Groupwise.Options.Json
import Groupwise.Options.Load
import Groupwise.Proofs.Config.RoundTrip
import Groupwise.Proofs.Config.Schema
import Groupwise.Proofs.Expr.Append
import Groupwise.Proofs.Expr.Broken
import Groupwise.Proofs.Expr.Cut
import Groupwise.Proofs.Expr.Depth
import Groupwise.Proofs.Expr.EarliestFault
import Groupwise.Proofs.Expr.RoundTrip
import Groupwise.Proofs.Expr.Spelling
import Groupwise.Proofs.Json.Refusal
import Groupwise.Proofs.Override.Lookup
import Groupwise.Proofs.Override.Order
import Groupwise.Proofs.Override.Stop
import Groupwise.Proofs.Resolve.Failure
import Groupwise.Proofs.Resolve.LastWrite
import Groupwise.Proofs.Resolve.Log
import Groupwise.Proofs.Resolve.Mention
import Groupwise.Proofs.Resolve.Nesting
import Groupwise.Proofs.Resolve.ReadBack
import Groupwise.Proofs.Resolve.Reorder
import Groupwise.Proofs.Resolve.Rerun
import Groupwise.Proofs.Resolve.Shadowed
import Groupwise.Proofs.Resolve.Unmatched
import Groupwise.Proofs.Rule.Monotone
import Groupwise.Proofs.Session.History
import Groupwise.Proofs.Text.Entries
import Groupwise.Session
import Groupwise.Settings
import Groupwise.Tree.Json
