import HostedLisp.Heap.Equality
import HostedLisp.Heap.Facet
import HostedLisp.Interpreter
import HostedLisp.Library.Samples
import HostedLisp.Proofs.Plan.Contract
import HostedLisp.Proofs.Plan.Requests
import HostedLisp.Proofs.Plan.Matching
import HostedLisp.Proofs.Program.Safety
import HostedLisp.Proofs.Library.Natives
import HostedLisp.Proofs.Library.Functions
import HostedLisp.Proofs.Library.Forms
import HostedLisp.Proofs.Machine.Termination
import HostedLisp.Proofs.Machine.Mirroring
import HostedLisp.Proofs.Machine.Limit
import HostedLisp.Proofs.Machine.Balance
import HostedLisp.Proofs.Heap.Contents
import HostedLisp.Proofs.Heap.Acyclic
import HostedLisp.Proofs.Heap.Bisimilarity
import HostedLisp.Proofs.Heap.Registry
import HostedLisp.Proofs.Datum.RoundTrip
import HostedLisp.Proofs.Datum.Recognition
import HostedLisp.Proofs.Datum.Unfinished
import HostedLisp.Proofs.Debugger.Inspection
import HostedLisp.Proofs.Debugger.Exits
import HostedLisp.Proofs.Debugger.Offers
import HostedLisp.Proofs.Plan.Advance
import HostedLisp.Proofs.Heap.Shape
import HostedLisp.Proofs.Machine.Development
import HostedLisp.Proofs.Debugger.Exclusion
import HostedLisp.Proofs.Debugger.Substitution
import HostedLisp.Proofs.Library.DirectSequences
import HostedLisp.Proofs.Library.DirectFunctions
import HostedLisp.Proofs.Library.DirectForms
import HostedLisp.Proofs.Machine.Direct
import HostedLisp.Proofs.Library.Sorting
import HostedLisp.Proofs.Library.Mutation
import HostedLisp.Proofs.Library.Extremes
import HostedLisp.Proofs.Heap.Rereading
import HostedLisp.Proofs.Heap.Resolution
import HostedLisp.Proofs.Library.Comparisons
import HostedLisp.Proofs.Library.Integers
import HostedLisp.Proofs.Library.Division
import HostedLisp.Proofs.Heap.MergedView
import HostedLisp.Proofs.Machine.Closures
import HostedLisp.Proofs.Library.Moves
import HostedLisp.Proofs.Datum.Joining
import HostedLisp.Proofs.Datum.Spacing
import HostedLisp.Proofs.Text.Snippets
import HostedLisp.Proofs.Library.Traversals
import HostedLisp.Proofs.Program.Endings
import HostedLisp.Proofs.Library.FieldModifiers
import HostedLisp.Proofs.Library.FieldVerdicts
import HostedLisp.Proofs.Plan.Visits
import HostedLisp.Proofs.Debugger.SingleSteps
import HostedLisp.Proofs.Machine.UnderWay
import HostedLisp.Proofs.Heap.Pursuit
import HostedLisp.Proofs.Library.TypedCalls
import HostedLisp.Proofs.Library.Appending
import HostedLisp.Proofs.Datum.Progress
import HostedLisp.Proofs.Text.Arities
