import Drafting.Main
import Drafting.Rendering.OfText
import Drafting.Session
import Drafting.Proofs.Number.Pattern
import Drafting.Proofs.Text.Token
import Drafting.Proofs.Grammar.Acceptance
import Drafting.Proofs.Number.ReadBack
import Drafting.Proofs.Canonical.Faithful
import Drafting.Proofs.Canonical.Idempotence
import Drafting.Proofs.Canonical.Meaning
import Drafting.Proofs.Document.WellFormed
import Drafting.Proofs.Refusal.Completion
import Drafting.Proofs.Grammar.Chains
import Drafting.Proofs.Nesting.Threshold
import Drafting.Proofs.Respelling.Layout
import Drafting.Proofs.Stepping.Outcome
import Drafting.Proofs.Rendering.Refusal
import Drafting.Proofs.Respelling.Renaming
import Drafting.Proofs.Session.Consumed
import Drafting.Proofs.Session.Depth
import Drafting.Proofs.Session.Levels
import Drafting.Proofs.Session.Grouping
import Drafting.Proofs.Number.Shortest
import Drafting.Proofs.CommandLine.Routes
import Drafting.Proofs.Rendering.DebugText
import Drafting.Proofs.Refusal.Place
import Drafting.Proofs.Nesting.Calls
import Drafting.Proofs.Tree.Walk
import Drafting.Proofs.Cursor.Partition
