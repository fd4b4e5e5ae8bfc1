import PackageGate.Execution
import PackageGate.Simulation.Files

/-!
# A small shell

The programs of a simulated machine: a few small ones, and a shell that knows
words, quotes, parameters, lists of commands and a few commands.

- `Shell.pieces`: a script as words and operators.
- `Shell.run`: how a script ends.
- `Shell.start`: how a program ends, or why it cannot be started.
-/

namespace PackageGate.Simulation.Shell

open Execution (Ending)

/-- A piece of a script: a word, or an operator between two commands. -/
inductive Piece
  | word (text : List Char)
  | operator (text : List Char)
deriving DecidableEq, Inhabited

/-- What a parameter stands for. The shell's own process has no number here; it is called
`$`. -/
def parameter (args : List String) (c : Char) : List Char :=
  if c = '$' then ['$']
  else if c = '#' then (toString (args.length - 1)).toList
  else if c.isDigit then (args.getD (c.toNat - '0'.toNat) "").toList
  else if c = '@' || c = '*' then (" ".intercalate (args.drop 1)).toList
  else []

/-- Adds text to a word that may not have begun yet. -/
def extend (word : Option (List Char)) (text : List Char) : Option (List Char) :=
  some (word.getD [] ++ text)

/-- How a script is being read. -/
inductive Quote
  | none
  | single
  | double

/-- The pieces of a script, of which `word` has been begun. -/
def pieces (args : List String) : Quote → (word : Option (List Char)) → List Char → List Piece
  | _, word, [] => word.toList.map .word
  | .single, word, '\'' :: r => pieces args .none (extend word []) r
  | .single, word, c :: r => pieces args .single (extend word [c]) r
  | .double, word, '"' :: r => pieces args .none (extend word []) r
  | .double, word, '$' :: p :: r => pieces args .double (extend word (parameter args p)) r
  | .double, word, '\\' :: e :: r => pieces args .double (extend word [e]) r
  | .double, word, c :: r => pieces args .double (extend word [c]) r
  | .none, word, '\'' :: r => pieces args .single (extend word []) r
  | .none, word, '"' :: r => pieces args .double (extend word []) r
  | .none, word, '$' :: p :: r =>
    let text := parameter args p
    pieces args .none (if text = [] then word else extend word text) r
  | .none, word, '\\' :: e :: r => pieces args .none (extend word [e]) r
  | .none, word, '&' :: '&' :: r =>
    word.toList.map .word ++ .operator ['&', '&'] :: pieces args .none none r
  | .none, word, '|' :: '|' :: r =>
    word.toList.map .word ++ .operator ['|', '|'] :: pieces args .none none r
  | .none, word, c :: r =>
    if c = ' ' || c = '\t' then word.toList.map .word ++ pieces args .none none r
    else if c = ';' || c = '\n' then
      word.toList.map .word ++ .operator [c] :: pieces args .none none r
    else pieces args .none (extend word [c]) r

/-- How a command ends: with a status, or with the whole shell. -/
inductive Effect
  | status (code : UInt8)
  | ended (e : Ending)

/-- The status of a truth value. -/
def truth (b : Bool) : Effect := .status (if b then 0 else 1)

/-- A number that is not negative and has at most 31 bits. -/
def number? (text : String) : Option Nat :=
  if text ≠ "" && text.toList.all Char.isDigit then
    let n := text.toList.foldl (fun n d => 10 * n + (d.toNat - '0'.toNat)) 0
    if n < 1 <<< 31 then some n else none
  else none

/-- A comparison of two numbers. -/
def compare (p : Nat → Nat → Bool) (a b : String) : Effect :=
  match number? a, number? b with
  | some m, some n => truth (p m n)
  | _, _ => .status 2

/-- The `test` command. -/
def test : List String → Effect
  | [] => truth false
  | [a] => truth !a.isEmpty
  | ["-n", a] => truth !a.isEmpty
  | ["-z", a] => truth a.isEmpty
  | ["!", a] => truth a.isEmpty
  | [a, "=", b] => truth (a = b)
  | [a, "!=", b] => truth (a ≠ b)
  | [a, "-eq", b] => compare (· = ·) a b
  | [a, "-ne", b] => compare (· ≠ ·) a b
  | [a, "-lt", b] => compare (· < ·) a b
  | [a, "-le", b] => compare (· ≤ ·) a b
  | [a, "-gt", b] => compare (· > ·) a b
  | [a, "-ge", b] => compare (· ≥ ·) a b
  | _ => .status 2

/-- A command, behind one that ended with `last`. -/
def command (last : UInt8) : List String → Effect
  | [] => .status last
  | ["exit"] => .ended (.exited last)
  | "exit" :: code :: _ =>
    match number? code with
    | some n => .ended (.exited (UInt8.ofNat n))
    | none => .ended (.exited 2)
  | "kill" :: args =>
    if args.getLast? ≠ some "$" then .status 1
    else if args.head? = some "-0" then .status 0
    else .ended .killed
  | ["["] => .status 2
  | "[" :: args =>
    if args.getLast? = some "]" then test args.dropLast else .status 2
  | "test" :: args => test args
  | "exec" :: name :: args =>
    match command last (name :: args) with
    | .status code => .ended (.exited code)
    | e => e
  | name :: _ =>
    if [":", "true", "echo", "sleep"].contains name then .status 0
    else if name = "false" then .status 1
    else .status 127

/-- The words in front of the first operator, and the rest. -/
def splitCommand : List Piece → List String × List Piece
  | .word w :: r => let (ws, rest) := splitCommand r; (String.ofList w :: ws, rest)
  | rest => ([], rest)

/-- Runs the commands of a script; `isOn` holds unless the operator in front rules the next
command out. -/
def runPieces (last : UInt8) (isOn : Bool) : (fuel : Nat) → List Piece → Ending
  | 0, _ => .exited last
  | fuel + 1, ps =>
    let (words, rest) := splitCommand ps
    match (if isOn then command last words else .status last) with
    | .ended e => e
    | .status code =>
      match rest with
      | .operator op :: rest =>
        let isOn := if op = ['&', '&'] then code = 0 else if op = ['|', '|'] then code ≠ 0 else true
        runPieces code isOn fuel rest
      | _ => .exited code

/-- How a script ends, with `args` as its parameters from `$0` on. -/
def run (script : String) (args : List String) : Ending :=
  let ps := pieces args .none none script.toList
  runPieces 0 true (ps.length + 1) ps

/-- The name of the program that is started by a name or a path. A name is looked for where
programs are. -/
def locate (program : String) : Except Files.Problem String := do
  let place ←
    if program.toList.contains '/' then Files.standard.find ["tmp"] program
    else if program = "" then throw .missing
    else Files.standard.walk ["usr", "bin"] [program]
  match Files.standard.files.lookup place, place.getLast? with
  | some .program, some name => return name
  | _, _ => throw .denied

/-- How a program ends. -/
def ending (program : String) (args : List String) : Ending :=
  if Files.shellNames.contains program then
    match args with
    | "-c" :: script :: args => run script (if args = [] then [program] else args)
    | [] => .exited 0
    | _ => .exited 2
  else
    match command 0 (program :: args) with
    | .status code => .exited code
    | .ended e => e

/-- How a program of the machine ends, or why it cannot be started. -/
def start (program : String) (args : List String) : Except String Ending :=
  if (program :: args).any (·.toList.contains '\x00') then
    .error "nul byte found in provided data"
  else
    match locate program with
    | .ok name => .ok (ending name args)
    | .error why => .error why.message

end PackageGate.Simulation.Shell
