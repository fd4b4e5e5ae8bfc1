import PackageGate.Http.Exchange
import PackageGate.Json.Reader

/-!
# Lookups

A registry answers from documents. A document is asked for again while the
answer says that this may help: nothing came back, or the server failed.

- `Http.Lookup`: a document, how it is read, and what its absence means.
- `Http.Lookup.judge`: what an answer comes to.
- `Http.Lookup.run`: asks until an answer decides, at most `attempts` times, with a
  pause of `100 * i` milliseconds behind the `i`-th attempt.
-/

namespace PackageGate.Http

/-- A document to ask for. -/
structure Lookup (α : Type) where
  url : Url
  /-- Reads the document. -/
  read : Json.Value → Option α
  /-- What it means that there is no such document. -/
  absent : Cause

/-- What one attempt comes to. -/
inductive Attempt (α : Type)
  | found (a : α)
  /-- Asking again does not help. -/
  | failed (why : Failure)
  /-- Asking again may help. -/
  | retryable (why : Failure)

/-- What a lookup comes to, and the pauses that it made, in milliseconds. -/
structure Finish (α : Type) where
  result : Except Failure α
  pauses : List Nat

namespace Lookup

variable {α ω : Type}

/-- How many times a registry is asked for a document. -/
def attempts : Nat := 3

/-- What an answer comes to, or that there is none. -/
def judge (l : Lookup α) : Except Failure (Status × String) → Attempt α
  | .error why => .retryable why
  | .ok (s, body) =>
    if s.code = 404 then .failed (.of l.absent)
    else if s.isClientError then .failed (.of (.registryStatus s))
    else if s.isSuccess then
      match (Json.read? body).bind l.read with
      | some a => .found a
      | none => .failed (.of (.malformedReply l.url.text))
    else .retryable (.of (.registryStatus s))

/-- Makes the attempt with the number `i`, and as many as `left` more. -/
def runFrom (t : Transport ω) (l : Lookup α) (i : Nat) : (left : Nat) → ω → Finish α × ω
  | left, world =>
    let (answer, world) := send t (.getting l.url) world
    match l.judge answer with
    | .found a => (⟨.ok a, []⟩, world)
    | .failed why => (⟨.error why, []⟩, world)
    | .retryable why =>
      match left with
      | 0 => (⟨.error why, []⟩, world)
      | left + 1 =>
        let (finish, world) := runFrom t l (i + 1) left world
        (⟨finish.result, 100 * i :: finish.pauses⟩, world)

/-- Asks for a document. A limit of zero attempts counts as one. -/
def run (t : Transport ω) (l : Lookup α) (limit : Nat) (world : ω) : Finish α × ω :=
  runFrom t l 1 (limit - 1) world

end Lookup

end PackageGate.Http
