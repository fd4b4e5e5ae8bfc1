import PackageGate.Analysis.Service
import PackageGate.Registry
import PackageGate.Simulation.Outside

/-!
# Registry and service over a network

- `Simulation.networkOutside`: a run whose registry and analysis service are reached by
  HTTP. An exchange takes no time, the pauses between attempts do.
-/

namespace PackageGate.Simulation

variable {ω : Type}

/-- A lookup as the response to a call. -/
def lookUp {α : Type} (t : Http.Transport ω) (l : Except Failure (Http.Lookup α)) (world : ω) :
    Response (Except Failure α) × ω :=
  let (finish, world) := Registry.ask t l world
  (.after (finish.pauses.foldl (· + ·) 0) finish.result, world)

/-- The outside of a run: a registry and a service on the network, a user and a package manager. -/
def networkOutside (t : Http.Transport ω) (registry : Registry) (service : Analysis.Service)
    (confirm : List Finding → ω → Except Failure String × ω)
    (install : String → List String → ω → Except Failure Int × ω) : Outside ω where
  latest name := lookUp t (registry.latest name)
  manifest p := lookUp t (registry.manifest p)
  submit p world :=
    let (reply, world) := service.submit t registry.ecosystem p world
    (.after 0 reply, world)
  report id world :=
    let (reply, world) := service.report t id world
    (.after 0 reply, world)
  confirm := confirm
  install := install

end PackageGate.Simulation
