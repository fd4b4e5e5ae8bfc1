/-!
# Progress

- `Progress`: how many manifests were fetched, how many packages were put into
  the analysis queue, and how many were analyzed.
-/

namespace PackageGate

/-- The counters of a run. -/
structure Progress where
  fetched : Nat
  enqueued : Nat
  analyzed : Nat
deriving DecidableEq, Inhabited

namespace Progress

/-- Nothing done. -/
def zero : Progress := ⟨0, 0, 0⟩

/-- One more manifest was fetched. -/
def recordFetch (p : Progress) : Progress := { p with fetched := p.fetched + 1 }

/-- One more package waits for its analysis. -/
def recordEnqueued (p : Progress) : Progress := { p with enqueued := p.enqueued + 1 }

/-- One more package was analyzed. -/
def recordAnalyzed (p : Progress) : Progress := { p with analyzed := p.analyzed + 1 }

end Progress

end PackageGate
