import PackageGate.Fault
import PackageGate.Policy

/-!
# Settings of a scan

- `Settings`: sizes, limits and the policy of one run; times are in milliseconds.
- `Settings.check`: refuses settings in which a size, a limit or the time is zero.
-/

namespace PackageGate

/-- The settings of one run. -/
structure Settings where
  queueCapacity : Nat := 100
  analysisWorkers : Nat := 10
  maxConcurrentFetches : Nat := 32
  scanTimeout : Nat := 300000
  policy : RootFailurePolicy := .failFast
deriving DecidableEq, Inhabited

/-- The first setting that is zero, by the name it has for the user. -/
def Settings.zeroField? (s : Settings) : Option String :=
  if s.queueCapacity = 0 then some "queue_capacity"
  else if s.analysisWorkers = 0 then some "analysis_workers"
  else if s.maxConcurrentFetches = 0 then some "max_concurrent_fetches"
  else if s.scanTimeout = 0 then some "scan_timeout_secs"
  else none

/-- Refuses settings of which one is zero. -/
def Settings.check (s : Settings) : Except Fault Unit :=
  match s.zeroField? with
  | some field => .error (.validation s!"{field} must be greater than 0")
  | none => .ok ()

end PackageGate
