import Lox.Main
import Lox.Syntax.References
import Lox.Proofs.Grammar.Acceptance
import Lox.Proofs.Parser.Numbering
import Lox.Proofs.Resolution.Setting
import Lox.Proofs.Evaluation.Lockstep
import Lox.Proofs.Evaluation.Steps
import Lox.Proofs.Dispatch.Super
import Lox.Proofs.Scoping.Exact
import Lox.Proofs.Lookup.Found
import Lox.Proofs.Session.Companions
import Lox.Proofs.Session.Safety
import Lox.Proofs.Session.Distances
import Lox.Proofs.Session.Joined
import Lox.Proofs.Token.MaximalMunch
import Lox.Proofs.Session.Rejected
import Lox.Proofs.Session.Control
import Lox.Proofs.Receiver.Kept
import Lox.Proofs.Parser.Recovery
import Lox.Proofs.Session.Numbers
import Lox.Proofs.Session.Statuses
import Lox.Proofs.Session.Layout
import Lox.Proofs.Parser.Order
import Lox.Proofs.Record.Assignments
import Lox.Proofs.Record.Returns
import Lox.Proofs.Record.Initializers
import Lox.Proofs.Parser.Termination
import Lox.Proofs.Grammar.Composition
import Lox.Proofs.Grammar.Loops
import Lox.Proofs.Property.Exact
import Lox.Proofs.Store.Access
import Lox.Proofs.Token.LineNumbers
import Lox.Proofs.Token.Rescanning
import Lox.Proofs.Token.Boundaries
import Lox.Proofs.Token.Nesting
import Lox.Proofs.CommandLine.Agreement
import Lox.Proofs.Parser.Tolerance
import Lox.Proofs.Parser.Unambiguity
import Lox.Proofs.Resolution.Restored
import Lox.Proofs.Session.Heap
import Lox.Proofs.Number.Display
