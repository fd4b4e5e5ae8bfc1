import PackageGate.Http.Host

/-!
# Addresses

What stands in a configuration is put together to the text of a URL, and that text
is read before anything is sent. Slashes may lean either way, tabs and line ends do
not count, the segments `.` and `..` of a path are followed, and what must not stand
in a URL is percent-encoded.

- `Address`: where a request goes.
- `Address.read`: the address that a text stands for, or what is wrong with it.
- `Address.removeDots`: a path without the segments `.` and `..`.
- `Address.text`: the text of an address, which is the same for all texts that stand for it.
-/

namespace PackageGate.Http

/-- Where a request goes. The segments of the path, the query and the fragment are encoded. -/
structure Address where
  isSecure : Bool
  host : Host
  /-- The number of the endpoint at the host, unless it is the usual one. -/
  endpoint : Option Nat
  path : List String
  query : Option String
  fragment : Option String
deriving DecidableEq, Inhabited

namespace Address

/-- Why a text stands for no address. -/
inductive Problem
  /-- It does not start like a URL of the web. -/
  | relative
  | host (why : Host.Problem)
  | endpoint
deriving DecidableEq, Inhabited

/-- The text of what is wrong with an address. -/
def Problem.message : Problem → String
  | .relative => "relative URL without a base"
  | .host why => why.message
  | .endpoint => "invalid port number"

/-! ## Reading -/

/-- The characters of a text that count: without blanks and control characters around it, and
without tabs and line ends in it. -/
def significant (text : String) : List Char :=
  let isAround (c : Char) : Bool := c.toNat ≤ 0x20
  (((text.toList.dropWhile isAround).reverse.dropWhile isAround).reverse).filter fun c =>
    c ≠ '\t' && c ≠ '\n' && c ≠ '\r'

/-- Whether a text starts a URL of the web, whether that is a secure one, and the rest. -/
def scheme? (cs : List Char) : Option (Bool × List Char) :=
  let word := (cs.takeWhile (· ≠ ':')).map Char.toLower
  let rest := cs.dropWhile (· ≠ ':')
  if rest = [] then none
  else if word = "http".toList then some (false, rest.tail)
  else if word = "https".toList then some (true, rest.tail)
  else none

/-- The slashes of a URL. -/
def isSlash (c : Char) : Bool := c = '/' || c = '\\'

/-- The characters in front of a query or a fragment. -/
def isInPath (c : Char) : Bool := c ≠ '?' && c ≠ '#'

/-- What stands behind the last `@`, or else everything. -/
def behindUser (cs : List Char) : List Char :=
  (cs.reverse.takeWhile (· ≠ '@')).reverse

/-- A host in front of the colon behind it. Colons between brackets belong to the host. -/
def hostPart (inBrackets : Bool) : List Char → List Char
  | [] => []
  | c :: r =>
    if c = ':' && !inBrackets then []
    else c :: hostPart (if c = '[' then true else if c = ']' then false else inBrackets) r

/-- Reads the number of the endpoint behind a host. The usual one of the scheme is left out. -/
def readEndpoint (isSecure : Bool) : List Char → Except Problem (Option Nat)
  | ':' :: digits =>
    if !digits.all Char.isDigit then .error .endpoint
    else
      let n := digits.foldl (fun n d => 10 * n + (d.toNat - '0'.toNat)) 0
      if 65535 < n then .error .endpoint
      else .ok (if digits = [] || n = (if isSecure then 443 else 80) then none else some n)
  | _ => .ok none

/-! ## Encoding -/

/-- The characters that are encoded everywhere: all but the visible ones of ASCII, quotes and
angle brackets. -/
def isAlwaysEncoded (c : Char) : Bool :=
  c.toNat ≤ 0x20 || 0x7F ≤ c.toNat || c = '"' || c = '<' || c = '>'

/-- The characters that are encoded in a path. -/
def isEncodedInPath (c : Char) : Bool :=
  isAlwaysEncoded c || ['#', '?', '`', '\x7b', '\x7d'].contains c

/-- The characters that are encoded in a query. -/
def isEncodedInQuery (c : Char) : Bool :=
  isAlwaysEncoded c || c = '#' || c = '\''

/-- The characters that are encoded in a fragment. -/
def isEncodedInFragment (c : Char) : Bool :=
  isAlwaysEncoded c || c = '`'

/-- A text with the characters encoded that `p` holds of. -/
def encode (p : Char → Bool) (cs : List Char) : String :=
  String.ofList (cs.flatMap fun c =>
    if p c then (String.singleton c).toUTF8.toList.flatMap Component.encodeByte else [c])

/-! ## Paths -/

/-- Whether a segment stands for the folder that it is in. -/
def isDot (segment : String) : Bool := [".", "%2e", "%2E"].contains segment

/-- Whether a segment stands for the folder above. -/
def isDoubleDot (segment : String) : Bool :=
  [".", "%2e", "%2E"].any fun a => [".", "%2e", "%2E"].any fun b => segment = a ++ b

/-- Whether a segment looks like a drive. There is nothing above a drive. -/
def isDrive (segment : String) : Bool :=
  match segment.toList with
  | [letter, mark] => letter.isAlpha && (mark = ':' || mark = '|')
  | _ => false

/-- The segments in front of one that stands for the folder above; they stand back to front. -/
def above : List String → List String
  | [] => []
  | s :: kept => if isDrive s then s :: kept else kept

/-- Removes the segments `.` and `..` from the segments of a path; `kept` are those in
front, back to front. A path that ends in such a segment ends in an empty one. -/
def removeDots (kept : List String) : List String → List String
  | [] => kept.reverse
  | s :: r =>
    let isLast := r.isEmpty
    if isDoubleDot s then removeDots (if isLast then "" :: above kept else above kept) r
    else if isDot s then removeDots (if isLast then "" :: kept else kept) r
    else removeDots (s :: kept) r

/-- The path that a text stands for. -/
def readPath (cs : List Char) : List String :=
  let cs := if cs.head?.any isSlash then cs.tail else cs
  removeDots [] ((Text.splitWhere isSlash cs).map (encode isEncodedInPath))

/-- The address that a text stands for. -/
def read (text : String) : Except Problem Address :=
  match scheme? (significant text) with
  | none => .error .relative
  | some (isSecure, rest) =>
    let rest := rest.dropWhile isSlash
    let place := rest.takeWhile fun c => !isSlash c && isInPath c
    let rest := rest.drop place.length
    let place := behindUser place
    let hostText := hostPart false place
    match if hostText = [] then .error .empty else Host.read hostText with
    | .error why => .error (.host why)
    | .ok host =>
      match readEndpoint isSecure (place.drop hostText.length) with
      | .error why => .error why
      | .ok endpoint =>
        let path := rest.takeWhile isInPath
        let rest := rest.drop path.length
        let query := match rest with
          | '?' :: r => some (r.takeWhile (· ≠ '#'))
          | _ => none
        let fragment := match rest.dropWhile (· ≠ '#') with
          | _ :: r => some r
          | [] => none
        .ok {
          isSecure, host, endpoint
          path := readPath path
          query := query.map (encode isEncodedInQuery)
          fragment := fragment.map (encode isEncodedInFragment) }

/-! ## Writing -/

/-- The text of an address. -/
def text (a : Address) : String :=
  (if a.isSecure then "https://" else "http://") ++ a.host.text ++
    ((a.endpoint.map fun n => s!":{n}").getD "") ++
    String.join (a.path.map ("/" ++ ·)) ++
    ((a.query.map ("?" ++ ·)).getD "") ++
    ((a.fragment.map ("#" ++ ·)).getD "")

/-- The characters of the names that a request can be sent to. -/
def isSendableChar (c : Char) : Bool :=
  c.isAlphanum || "!$&'()*+,-.;=_~".toList.contains c

/-- Whether a request can carry the address. -/
def isSendable (a : Address) : Bool :=
  a.text.utf8ByteSize < 65535 && match a.host with
    | .name text => text.toList.all isSendableChar
    | _ => true

end Address

end PackageGate.Http
