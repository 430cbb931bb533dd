import Lox.Main
import Lox.Value.Inspect
import Lox.Proofs.Parse.Run
import Lox.Proofs.Parse.Strict
import Lox.Proofs.Grammar.Expr
import Lox.Proofs.Grammar.Stmt
import Lox.Proofs.Grammar.Sound.Expr
import Lox.Proofs.Grammar.Sound.Stmt
import Lox.Proofs.Grammar.Relaxed.Expr
import Lox.Proofs.Grammar.Relaxed.Stmt
import Lox.Proofs.Grammar.Relaxed.Faultless
import Lox.Proofs.Grammar.Complete.Expr
import Lox.Proofs.Grammar.Complete.Stmt
import Lox.Proofs.Grammar.Exact
import Lox.Proofs.Token.Span
import Lox.Proofs.Token.Bytes
import Lox.Proofs.Token.Cursor
import Lox.Proofs.Token.Lines
import Lox.Proofs.Token.Genuine
import Lox.Proofs.Number.Bits
import Lox.Proofs.Number.Rounding
import Lox.Proofs.Number.ReadBack
import Lox.Proofs.Form.Printed
import Lox.Proofs.Tree.Relabel
import Lox.Proofs.Parse.Lines
import Lox.Proofs.Form.Lines
import Lox.Proofs.Form.Parsed
import Lox.Proofs.Tree.Numbered
import Lox.Proofs.Form.Read
import Lox.Proofs.Form.Reread
import Lox.Proofs.Form.RoundTrip
import Lox.Proofs.Value.Operators
import Lox.Proofs.Eval.Run
import Lox.Proofs.Eval.Hereditary
import Lox.Proofs.Eval.Steady
import Lox.Proofs.Eval.Levels
import Lox.Proofs.Eval.Reach
import Lox.Proofs.Eval.Failure
import Lox.Proofs.Session.History
import Lox.Proofs.Session.Discipline
import Lox.Proofs.Sink.Cut
import Lox.Proofs.Eval.Prints
import Lox.Proofs.Session.CutShort
import Lox.Proofs.Scope.Walk
import Lox.Proofs.Scope.Rules
import Lox.Proofs.Scope.Placed
import Lox.Proofs.Scope.Justified
import Lox.Proofs.Scope.Verdict
import Lox.Proofs.Scope.Site
import Lox.Proofs.Scope.Proper
import Lox.Proofs.Scope.Ids
import Lox.Proofs.Scope.Recorded
import Lox.Proofs.Scope.Returns
import Lox.Proofs.Scope.Fine
import Lox.Proofs.Heap.Growth
import Lox.Proofs.Scope.Fit
import Lox.Proofs.Eval.Safe
import Lox.Proofs.Eval.Scoped
import Lox.Proofs.Session.Accepted
import Lox.Proofs.Session.Moments
import Lox.Proofs.Session.Scoping
import Lox.Proofs.Session.Documented
import Lox.Proofs.Tree.Alike
import Lox.Proofs.Value.Similar
import Lox.Proofs.Value.Alike
import Lox.Proofs.Heap.Alike
import Lox.Proofs.Eval.Alike
import Lox.Proofs.Parse.Moved.Expr
import Lox.Proofs.Parse.Moved.Stmt
import Lox.Proofs.Scope.Moved
import Lox.Proofs.Scope.Alike
import Lox.Proofs.Session.Alike
import Lox.Proofs.Session.Traceless
import Lox.Proofs.Eval.Flow
import Lox.Proofs.Eval.TopLevel
import Lox.Proofs.Grammar.Before
import Lox.Proofs.Parse.Joined
import Lox.Proofs.Grammar.Within
import Lox.Proofs.Parse.Semicolons
import Lox.Proofs.Parse.Position
import Lox.Proofs.Parse.Progress
import Lox.Proofs.Scope.Joined
import Lox.Proofs.Session.Joined
import Lox.Proofs.Scope.Nodes
import Lox.Proofs.Scope.Restored
import Lox.Proofs.Session.Identity
import Lox.Proofs.Form.Alike
import Lox.Proofs.Session.Reread
import Lox.Proofs.Token.Joined
import Lox.Proofs.Token.Layout
import Lox.Proofs.Value.Lookup
import Lox.Proofs.Eval.Grown
import Lox.Proofs.Eval.Methods
import Lox.Proofs.Session.Methods
import Lox.Proofs.Token.Munch
import Lox.Proofs.Scope.Waiting
import Lox.Proofs.Session.Assigned
import Lox.Proofs.Heap.LoopFree
import Lox.Proofs.Eval.LoopFree
import Lox.Proofs.Tree.Rename
import Lox.Proofs.Tree.Renamed
import Lox.Proofs.Scope.Renamed
import Lox.Proofs.Value.Renamed
import Lox.Proofs.Heap.Renamed
import Lox.Proofs.Eval.Renamed
import Lox.Proofs.Session.Renamed
import Lox.Proofs.Grammar.Relaxed.Reported
import Lox.Proofs.Eval.Rounds
import Lox.Proofs.Eval.ForLoop
import Lox.Proofs.Heap.Confined
import Lox.Proofs.Heap.Access
import Lox.Proofs.Eval.Confined
import Lox.Proofs.Session.Confined
import Lox.Proofs.Eval.Returns
import Lox.Proofs.Heap.All
import Lox.Proofs.Eval.Trait
import Lox.Proofs.Eval.Bearing
import Lox.Proofs.Session.Bearing
import Lox.Proofs.Eval.Running
import Lox.Proofs.Session.Returns
import Lox.Proofs.Session.Construction
import Lox.Proofs.Token.Extent
import Lox.Proofs.Parse.OwnLines
import Lox.Proofs.Session.Diagnosed
