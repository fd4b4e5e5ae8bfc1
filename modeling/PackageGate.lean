import PackageGate.Main
import PackageGate.Progress
import PackageGate.Simulation.Script
import PackageGate.Simulation.Shell
import PackageGate.Proofs.Steps
import PackageGate.Proofs.Queue.Moves
import PackageGate.Proofs.Queue.Feeding
import PackageGate.Proofs.Queue.Events
import PackageGate.Proofs.Queue.Exact
import PackageGate.Proofs.Queue.Oracle
import PackageGate.Proofs.Queue.Progress
import PackageGate.Proofs.Queue.Cancellation
import PackageGate.Proofs.Queue.Balance
import PackageGate.Proofs.Gate.Moves
import PackageGate.Proofs.Gate.Course
import PackageGate.Proofs.Gate.Decision
import PackageGate.Proofs.Gate.Verdicts
import PackageGate.Proofs.Gate.Path
import PackageGate.Proofs.Walk.Accounts
import PackageGate.Proofs.Walk.Owners
import PackageGate.Proofs.Explorer.Edges
import PackageGate.Proofs.Tree
import PackageGate.Proofs.Walk.Trees
import PackageGate.Proofs.Catalog
import PackageGate.Proofs.Walk.Closure
import PackageGate.Proofs.Walk.Progress
import PackageGate.Proofs.Explorer.Fetch
import PackageGate.Proofs.Walk.Head
import PackageGate.Proofs.Explorer.Tracked
import PackageGate.Proofs.Queue.Scans
import PackageGate.Proofs.Roots
import PackageGate.Proofs.Gate.World
import PackageGate.Proofs.Gate.Ledger
import PackageGate.Proofs.Gate.Runs
import PackageGate.Proofs.Gate.Agreement
import PackageGate.Proofs.Gate.Isolation
import PackageGate.Proofs.Walk.Calls
import PackageGate.Proofs.Walk.Formed
import PackageGate.Proofs.Explorer.Requests
import PackageGate.Proofs.Explorer.Stubs
import PackageGate.Proofs.Identity
import PackageGate.Proofs.Queue.Pool
import PackageGate.Proofs.Explorer.Fetches
import PackageGate.Proofs.Explorer.Permits
import PackageGate.Proofs.Gate.Deadlines
import PackageGate.Proofs.Gate.Endings
import PackageGate.Proofs.Schedule
import PackageGate.Proofs.Program.ExitCode
import PackageGate.Proofs.CommandLine.Verbatim
import PackageGate.Proofs.Confinement
import PackageGate.Proofs.Dependencies
import PackageGate.Proofs.Specifier
import PackageGate.Proofs.Spelling
import PackageGate.Proofs.Requirement.Pinned
import PackageGate.Proofs.Transparency
import PackageGate.Proofs.Explorer.Savings
import PackageGate.Proofs.Gate.Economy
import PackageGate.Proofs.Http.Attempts
import PackageGate.Proofs.Gate.Sessions
import PackageGate.Proofs.Program.Misspelling
import PackageGate.Proofs.Config.Merging
import PackageGate.Proofs.Tree.Flattening
import PackageGate.Proofs.Tree.Settling
import PackageGate.Proofs.Findings.Shared
