import PackageGate.Failure
import PackageGate.Http.Address

/-!
# HTTP exchanges

- `Http.Component.check`: refuses what must not become a component of a path.
- `Http.Url`: a base and the segments of a path under it.
- `Http.Request`, `Http.Reply`: what is sent, and what comes of it.
- `Http.Transport`: how requests are answered, in surroundings `ω` that may change
  with each of them.
- `Http.send`: sends a request, if it can be sent.
- `Http.unreachable`: the answers of a machine without a network.
-/

namespace PackageGate.Http

/-- Refuses a text that must not become a path component. -/
def Component.check (label component : String) : Except Failure Unit :=
  match problem? component with
  | some why => .error (.of (.component label why))
  | none => .ok ()

/-- The methods that are used. -/
inductive Method
  | get
  | post
deriving DecidableEq, Inhabited

/-- A URL: a base, and the segments of a path under it. -/
structure Url where
  base : String
  segments : List String
deriving DecidableEq, Inhabited

/-- A configured base URL without the slashes at its end. -/
def trimBase (url : String) : String :=
  String.ofList (url.toList.reverse.dropWhile (· = '/')).reverse

/-- The text that a URL is put together to. -/
def Url.written (u : Url) : String :=
  u.base ++ String.join (u.segments.map ("/" ++ ·))

/-- The address that a URL stands for. -/
def Url.address (u : Url) : Except Address.Problem Address := Address.read u.written

/-- A URL as it is requested. -/
def Url.text (u : Url) : String :=
  match u.address with
  | .ok a => a.text
  | .error _ => u.written

/-- A request. `bearer` authorizes it; `body` is a JSON object of texts. -/
structure Request where
  method : Method
  url : Url
  bearer : Option String
  body : Option (List (String × String))
deriving DecidableEq, Inhabited

/-- A plain request for a document. -/
def Request.getting (url : Url) : Request := ⟨.get, url, none, none⟩

/-- What comes of a request. -/
inductive Reply
  /-- Nothing came back. `layers` say where the exchange failed, outermost first. -/
  | lost (layers : List String) (cause : String)
  | answered (status : Status) (body : String)
deriving DecidableEq, Inhabited

/-- How requests are answered. -/
abbrev Transport (ω : Type) := Request → ω → Reply × ω

/-- The failure of a request that nothing came back for. -/
def lostFailure (url : Url) (layers : List String) (cause : String) : Failure :=
  ⟨.sending url.text :: layers.map .transport, .told cause⟩

/-- Whether a text can be sent in a header: it holds no control character but the tab. -/
def isHeaderText (text : String) : Bool :=
  text.toList.all fun c => c = '\t' || (0x20 ≤ c.toNat && c.toNat ≠ 0x7F)

/-- Why a request cannot be sent. -/
def Request.problem? (r : Request) : Option Failure :=
  match r.url.address with
  | .error why => some ⟨[.building], .told why.message⟩
  | .ok address =>
    if !r.bearer.all isHeaderText then some ⟨[.building], .malformedHeader⟩
    else if !address.isSendable then
      some ⟨[.buildingFor address.text], .told "Parsed Url is not a valid Uri"⟩
    else none

/-- Sends a request: status and body of the answer, or why there is none. -/
def send {ω : Type} (t : Transport ω) (r : Request) (world : ω) :
    Except Failure (Status × String) × ω :=
  match r.problem? with
  | some why => (.error why, world)
  | none =>
    match t r world with
    | (.lost layers cause, world) => (.error (lostFailure r.url layers cause), world)
    | (.answered status body, world) => (.ok (status, body), world)

/-- The answers of a machine without a network: a host cannot be found by its name, and a
host that is known cannot be reached. -/
def unreachable {ω : Type} : Transport ω := fun request world =>
  if request.url.address.toOption.any (·.host.isKnown) then
    (.lost ["client error (Connect)", "tcp connect error"] "Network is unreachable (os error 101)",
      world)
  else
    (.lost ["client error (Connect)", "dns error"]
      "failed to lookup address information: Temporary failure in name resolution", world)

end PackageGate.Http
