import PackageGate.Manager

/-!
# Refused command lines

- `CommandLine.Number`: the numbers that options take, and what is wrong with a text
  that is none.
- `CommandLine.Refusal`: why a command line is refused.
-/

namespace PackageGate.CommandLine

/-- What is wrong with a text that is no number. -/
inductive Number.Problem
  | empty
  | digit
  | tooLarge
deriving DecidableEq

/-- The text of a number that is wrong. -/
def Number.Problem.message : Number.Problem → String
  | empty => "cannot parse integer from empty string"
  | digit => "invalid digit found in string"
  | tooLarge => "number too large to fit in target type"

/-- Reads digits behind the number `n`. Numbers have at most 64 bits. -/
def Number.digits (n : Nat) : List Char → Except Number.Problem Nat
  | [] => .ok n
  | c :: r =>
    if !c.isDigit then .error .digit
    else
      let n := 10 * n + (c.toNat - '0'.toNat)
      if n < 2 ^ 64 then digits n r else .error .tooLarge

/-- Reads a number: digits, with a plus sign in front if need be. -/
def Number.read (text : String) : Except Number.Problem Nat :=
  match text.toList with
  | [] => .error .empty
  | ['+'] => .error .digit
  | '+' :: r => digits 0 r
  | cs => digits 0 cs

/-- Why a command line is refused. `shown` is an option or an argument as it is spoken of. -/
inductive Refusal
  /-- There is no such option. -/
  | unknown (shown : String)
  /-- A switch is given a value. -/
  | superfluousValue (shown value : String)
  /-- An option that may be given once is given twice. -/
  | repeated (shown : String)
  /-- An option is given no value. -/
  | missingValue (shown : String)
  | badNumber (shown value : String) (why : Number.Problem)
  | badManager (value : String)
  /-- Manager or action is missing. -/
  | incomplete
deriving DecidableEq

/-- What is said of a refused command line. `given` marks what the user has given, `known`
what the program knows. -/
def Refusal.message (given known : String → String) : Refusal → String
  | unknown shown => s!"unexpected argument '{given shown}' found"
  | superfluousValue shown value =>
    s!"unexpected value '{given value}' for '{known shown}' found; no more were expected"
  | repeated shown => s!"the argument '{given shown}' cannot be used multiple times"
  | missingValue shown => s!"a value is required for '{given shown}' but none was supplied"
  | badNumber shown value why =>
    s!"invalid value '{given value}' for '{known shown}': {why.message}"
  | badManager value =>
    let manager := known "<MANAGER>"
    s!"invalid value '{given value}' for '{manager}': {Manager.unsupported value}"
  | incomplete => "the following required arguments were not provided:"

end PackageGate.CommandLine
