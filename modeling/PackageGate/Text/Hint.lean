/-!
# Hints

- `withHint`: a message with a hint about what may help.
-/

namespace PackageGate.Text

/-- A message with a hint under it. -/
def withHint (message hint : String) : String :=
  message ++ "\n\n💡 Hint: " ++ hint

end PackageGate.Text
