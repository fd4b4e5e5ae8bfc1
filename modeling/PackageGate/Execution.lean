import PackageGate.Failure

/-!
# Running the package manager

- `Execution.Ending`: how a program ends.
- `Execution.result`: the exit code that a program's ending amounts to; a program that
  was killed counts as failed.
-/

namespace PackageGate.Execution

/-- How a program ends. Of the code that it exits with eight bits are left. -/
inductive Ending
  | exited (code : UInt8)
  /-- A signal has ended it. -/
  | killed
deriving DecidableEq, Inhabited

/-- The exit code that an ending amounts to. -/
def Ending.code : Ending → Int
  | exited code => code.toNat
  | killed => 1

/-- What came of running `program`: it ended, or it could not be started. -/
def result (program : String) : Except String Ending → Except Failure Int
  | .ok ending => .ok ending.code
  | .error details => .error (.ofFault (.executor program details))

end PackageGate.Execution
