import PackageGate.Execution
import PackageGate.Program
import PackageGate.Simulation.Network
import PackageGate.Simulation.Run

/-!
# The program on a simulated machine

- `Host`: a machine: its files, its environment, what is typed, and its programs.
- `Host.run`: a whole run of the program on a machine, with its exit code and
  everything that is seen of it.
-/

namespace PackageGate.Simulation

open Execution (Ending)

/-- A machine: how its files are read, its environment, what is typed, and its programs. -/
structure Host where
  read : String → Config.Source
  env : String → Option String
  input : String
  programs : List (String × Ending)

/-- What is seen of a run. -/
structure Transcript where
  code : Int
  output : String
  errors : String
  started : Option (String × List String)
deriving DecidableEq, Inhabited

namespace Host

/-- Runs a program of the machine. -/
def install (h : Host) (program : String) : Except Failure Int :=
  Execution.result program (match h.programs.lookup program with
    | some ending => .ok ending
    | none => .error Config.missingText)

/-- The outside of a run on a machine without a network. -/
def outside (h : Host) (registry : Registry) (service : Analysis.Service) : Outside Unit :=
  networkOutside Http.unreachable registry service
    (fun _ world => (Console.firstLine h.input, world))
    (fun program _ world => (h.install program, world))

/-- Carries a plan out. -/
def carryOut (h : Host) (plan : Program.Plan) : Gate :=
  let run (registry : Registry) (service : Analysis.Service) :=
    let m := gateMachine (h.outside registry service)
    (Schedule.run m (fun g => g.result?.isSome) none fuel (Schedule.start m plan.gate ())).state
  match plan with
  | .handOn _ => run default default
  | .scan _ _ registry service => run registry service

/-- What is seen of a run that fails. -/
def failed (errors : String) (e : Failure) : Transcript :=
  ⟨e.exitCode.code, "", errors ++ Console.failure e, none⟩

/-- Carries out what a command line asks for. -/
def obey (h : Host) (args : CommandLine.Arguments) : Transcript :=
  let (unknown, plan) := Program.plan args h.read h.env
  let warnings := String.join (unknown.map Console.warning)
  match plan with
  | .error e => failed warnings e
  | .ok plan =>
    let g := h.carryOut plan
    let errors := warnings ++ String.join (g.events.map Console.event)
    let started := g.invocations.head?.filter fun (program, _) => (h.programs.lookup program).isSome
    match g.result? with
    | some (.ok o) => ⟨o.exitCode, "", errors, started⟩
    | some (.error e) => { failed errors e with started }
    | none => ⟨ExitCode.applicationError.code, "", errors, started⟩

/-- A whole run of the program. -/
def run (h : Host) (args : List String) : Transcript :=
  match CommandLine.read args with
  | .ok args => h.obey args
  | .error stop =>
    ⟨(Program.stopCode stop).code, Program.stopOutput stop, Program.stopErrors stop, none⟩

end Host

end PackageGate.Simulation
