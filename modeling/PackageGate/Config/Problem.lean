import PackageGate.Policy
import PackageGate.Text.Hint

/-!
# Problems of a configuration file

- `Config.Problem`: why a file that could be read is still refused.
-/

namespace PackageGate

/-- What is said of a text that names no root failure policy. -/
def RootFailurePolicy.unknown (text : String) : String :=
  s!"Invalid root failure policy: {text}. Please specify 'fail-fast' or 'skip-root'"

namespace Config

/-- Why a configuration is refused. -/
inductive Problem
  | zero (field : String)
  | notHttp (field url : String)
  | policy (text : String)
deriving DecidableEq

/-- The text of a refused configuration. -/
def Problem.message : Problem → String
  | .zero field =>
    Text.withHint s!"Invalid config: {field} must be greater than 0."
      "Remove the field to use the default."
  | .notHttp field url =>
    Text.withHint s!"Invalid config: {field} must be an http(s) URL, got '{url}'."
      "Use a full URL such as \"https://registry.npmjs.org\"."
  | .policy text => s!"Invalid config: {RootFailurePolicy.unknown text}"

end Config

end PackageGate
