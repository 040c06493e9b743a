import SalientGraph.Channel
import SalientGraph.Cipher.TenantKeyed
import SalientGraph.Engine.Entries
import SalientGraph.Engine.Salience
import SalientGraph.Engine.Search
import SalientGraph.Engine.Sweep
import SalientGraph.Engine.Traversal
import SalientGraph.Form.Access
import SalientGraph.Form.Answer
import SalientGraph.Form.Config
import SalientGraph.Scope.Family
import SalientGraph.Proofs.Ranking
import SalientGraph.Proofs.Store.Overlay
import SalientGraph.Proofs.Store.Writes
import SalientGraph.Proofs.Store.Transactions
import SalientGraph.Proofs.Script
import SalientGraph.Proofs.Interleaving
import SalientGraph.Proofs.Discipline
import SalientGraph.Proofs.Holders
import SalientGraph.Proofs.Confinement
import SalientGraph.Proofs.ConfinedEngine
import SalientGraph.Proofs.Calls
import SalientGraph.Proofs.Isolation
import SalientGraph.Proofs.Contract
import SalientGraph.Proofs.Soundness
import SalientGraph.Proofs.Turns
import SalientGraph.Proofs.Integrity
import SalientGraph.Proofs.Simulation
import SalientGraph.Proofs.Store.Reached
import SalientGraph.Proofs.Transacting
import SalientGraph.Proofs.Reading
import SalientGraph.Proofs.Editing
import SalientGraph.Proofs.Stillness
import SalientGraph.Proofs.Answering
import SalientGraph.Proofs.Store.Pages
import SalientGraph.Proofs.Presence
import SalientGraph.Proofs.Sweeps
import SalientGraph.Proofs.Custody
import SalientGraph.Proofs.Ratings
import SalientGraph.Proofs.Transitions
import SalientGraph.Proofs.Scores
import SalientGraph.Proofs.Failures
import SalientGraph.Proofs.Atomicity
import SalientGraph.Proofs.Beholding
import SalientGraph.Proofs.Opening
import SalientGraph.Proofs.Traversal.Steps
import SalientGraph.Proofs.Traversal.Expanding
import SalientGraph.Proofs.Traversal.Tracing
import SalientGraph.Proofs.Traversal.Seeking
import SalientGraph.Proofs.Traversal.Outcomes
import SalientGraph.Proofs.Traversal.Spans
import SalientGraph.Proofs.Traversal.Consistency
import SalientGraph.Proofs.Search.Fusing
import SalientGraph.Proofs.Search.Hits
import SalientGraph.Proofs.Bounds
import SalientGraph.Proofs.Undisturbed
import SalientGraph.Proofs.Search.Agreement
import SalientGraph.Proofs.Announcements
import SalientGraph.Proofs.Doubles
import SalientGraph.Proofs.Evaluation
import SalientGraph.Proofs.Instants
import SalientGraph.Proofs.Rereading
import SalientGraph.Proofs.Legibility
import SalientGraph.Proofs.Lapses
import SalientGraph.Proofs.Slots
import SalientGraph.Proofs.Evictions
import SalientGraph.Proofs.Committing
import SalientGraph.Proofs.Untouched
import SalientGraph.Proofs.Traversal.Completeness
import SalientGraph.Proofs.Traversal.Exactness
import SalientGraph.Proofs.Traversal.Routes
import SalientGraph.Proofs.Traversal.Distances
import SalientGraph.Proofs.Dating
import SalientGraph.Proofs.Progress
import SalientGraph.Proofs.FixedPoints
import SalientGraph.Proofs.Traversal.Growth
import SalientGraph.Proofs.Traversal.Saturation
import SalientGraph.Proofs.Search.Fallback
import SalientGraph.Proofs.Search.Totals
import SalientGraph.Proofs.Lineage
import SalientGraph.Proofs.Precedence
import SalientGraph.Proofs.Traversal.Contexts
import SalientGraph.Proofs.Traversal.Neighborhoods
import SalientGraph.Proofs.Search.Candidates
import SalientGraph.Proofs.SealedBytes
import SalientGraph.Proofs.Traversal.Backtracking
import SalientGraph.Proofs.Store.Scans
