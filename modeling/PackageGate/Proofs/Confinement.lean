import PackageGate.Analysis.Service
import PackageGate.Proofs.Http.Endpoint
import PackageGate.Registry

/-!
# Requests that keep to their endpoint

Names, versions and ids come from outside: a hostile manifest may declare any. Whatever they are,
the requests sent for them are to reach the endpoint of the package they are for and no other.

- `Question`: what registries and the analysis service are asked, with its endpoint.
- `Question.requests`: the requests that are sent for a question.
- `Question.keeps_to_endpoint`: they keep to the endpoint exactly if no text is a lone dot, and then
  no two questions share a URL.
- `Question.dot_reaches_latest`: a version that is a lone dot leads to another endpoint.
-/

namespace PackageGate

open Http (Address Confined Part Reply Request Transport)
open Http.Address (IsBase)

/-- What is asked with a text from outside. -/
inductive Question
  | latest (e : Ecosystem) (name : String)
  | manifest (e : Ecosystem) (p : Package)
  | report (id : String)
deriving DecidableEq

namespace Question

/-- Who is asked: the registry of an ecosystem, or the analysis service. -/
def client : Question → Option Ecosystem
  | latest e _ | manifest e _ => some e
  | report _ => none

/-- What is asked about: a name or an id, and a version unless it is the newest one. The Python
index knows the newest version under a tag as well. -/
def subject : Question → String × Option String
  | latest _ name => (name, none)
  | manifest .npm p => (p.name, some p.version)
  | manifest .pypi p => (p.name, if p.version = Specifier.latest then none else some p.version)
  | report id => (id, none)

/-- A name as a part of npm's endpoints. -/
def npmName (name : String) : Part :=
  match Npm.splitScope? name.toList with
  | none => .text name
  | some (scope, bare) => .inScope (String.ofList scope) (String.ofList bare)

/-- The endpoint for a subject. -/
def endpoint : Option Ecosystem → String × Option String → List Part
  | some .npm, (name, none) => [npmName name]
  | some .npm, (name, some version) => [npmName name, .text version]
  | some .pypi, (name, none) => [.fixed "pypi", .text name, .fixed "json"]
  | some .pypi, (name, some version) => [.fixed "pypi", .text name, .text version, .fixed "json"]
  | none, (id, _) => [.fixed "v1", .fixed "reports", .text id]

/-- The endpoint that a question is for. -/
def parts (q : Question) : List Part := endpoint q.client q.subject

section Asking

variable (base : String) (key : Option String) {ω : Type}

/-- Asks a question under a base; `key` authorizes requests for reports. -/
def ask (t : Transport ω) : Question → ω → ω
  | latest e name, world => (Registry.ask t ((Registry.mk e base).latest name) world).2
  | manifest e p, world => (Registry.ask t ((Registry.mk e base).manifest p) world).2
  | report id, world => (Analysis.Service.report t ⟨base, key⟩ id world).2

/-- Takes down what is sent. The answers may depend on all that has been sent before. -/
def recording (reply : Request → List Request → Reply) : Transport (List Request) :=
  fun request sent => (reply request sent, sent ++ [request])

/-- The requests that are sent for a question. -/
def requests (reply : Request → List Request → Reply) (q : Question) : List Request :=
  q.ask base key (recording reply) []

/-- The request for a question, unless its texts are refused. -/
def request? : Question → Except Failure Request
  | latest e name => ((Registry.mk e base).latest name).map (Request.getting ·.url)
  | manifest e p => ((Registry.mk e base).manifest p).map (Request.getting ·.url)
  | report id => (Analysis.Service.mk base key).inquiry id

end Asking

/-! ## Refused texts -/

theorem map_eq_ok {α β : Type} {x : Except Failure α} {f : α → β} {b : β}
    (h : x.map f = .ok b) : ∃ a, x = .ok a ∧ f a = b := by
  cases x with
  | error why => cases h
  | ok a => exact ⟨a, rfl, Except.ok.inj h⟩

theorem bind_eq_ok {α β : Type} {x : Except Failure α} {f : α → Except Failure β} {b : β}
    (h : x >>= f = .ok b) : ∃ a, x = .ok a ∧ f a = .ok b := by
  cases x with
  | error why => cases h
  | ok a => exact ⟨a, rfl, h⟩

/-- A checked component is passed exactly if nothing is wrong with it. -/
theorem check_bind_eq_ok {α : Type} {label text : String} {rest : Except Failure α} {a : α} :
    (Http.Component.check label text >>= fun _ => rest) = .ok a ↔
      Http.Component.problem? text = none ∧ rest = .ok a := by
  unfold Http.Component.check
  cases Http.Component.problem? text with
  | none => exact ⟨fun h => ⟨rfl, h⟩, fun h => h.2⟩
  | some why => exact iff_of_false nofun nofun

theorem nameSegment_eq_ok {name segment : String} (h : Npm.nameSegment name = .ok segment) :
    (npmName name).IsAccepted ∧ (npmName name).segment = segment := by
  rw [Npm.nameSegment] at h
  rw [npmName]
  cases hsplit : Npm.splitScope? name.toList with
  | none =>
    simp only [hsplit] at h
    obtain ⟨haccepted, heq⟩ := check_bind_eq_ok.1 h
    exact ⟨haccepted, Except.ok.inj heq⟩
  | some found =>
    simp only [hsplit] at h
    obtain ⟨hbare, h⟩ := check_bind_eq_ok.1 h
    obtain ⟨hscope, heq⟩ := check_bind_eq_ok.1 h
    exact ⟨⟨hscope, hbare⟩, Except.ok.inj heq⟩

/-- The URL goes to an endpoint, and all of its texts are accepted. -/
def Addresses (base : String) (parts : List Part) (u : Http.Url) : Prop :=
  (∀ p ∈ parts, p.IsAccepted) ∧ u = ⟨base, parts.map Part.segment⟩

/-- A document's address is the endpoint of the package under the base. -/
theorem documentUrl_eq_ok {base name : String} {version : Option String} {u : Http.Url}
    (h : Pypi.documentUrl base name version = .ok u) :
    Addresses base (endpoint (some .pypi) (name, version)) u := by
  obtain ⟨hname, h⟩ := check_bind_eq_ok.1 h
  cases version with
  | none =>
    obtain rfl := Except.ok.inj h
    exact ⟨by simp [endpoint, Part.IsAccepted, hname], rfl⟩
  | some version =>
    obtain ⟨hversion, heq⟩ := check_bind_eq_ok.1 h
    obtain rfl := Except.ok.inj heq
    exact ⟨by simp [endpoint, Part.IsAccepted, hname, hversion], rfl⟩

theorem addresses_of_npmName {base name segment : String} {version : Option String}
    (hname : Npm.nameSegment name = .ok segment)
    (hversion : ∀ v ∈ version, Http.Component.problem? v = none) :
    Addresses base (endpoint (some .npm) (name, version))
      ⟨base, segment :: version.toList.map Http.Component.encode⟩ := by
  obtain ⟨haccepted, rfl⟩ := nameSegment_eq_ok hname
  cases version with
  | none => exact ⟨List.forall_mem_singleton.2 haccepted, rfl⟩
  | some v =>
    have hv : (Part.text v).IsAccepted := hversion v rfl
    exact ⟨List.forall_mem_cons.2 ⟨haccepted, List.forall_mem_singleton.2 hv⟩, rfl⟩

/-- Asking for the latest version goes to the endpoint of the name. -/
theorem addresses_of_latest {e : Ecosystem} {base name : String}
    {l : Http.Lookup (Option String)} (h : (Registry.mk e base).latest name = .ok l) :
    Addresses base (endpoint (some e) (name, none)) l.url := by
  cases e with
  | npm =>
    obtain ⟨segment, hname, hl⟩ := bind_eq_ok h
    obtain rfl := Except.ok.inj hl
    exact addresses_of_npmName hname nofun
  | pypi =>
    obtain ⟨url, hurl, hl⟩ := bind_eq_ok h
    obtain rfl := Except.ok.inj hl
    exact documentUrl_eq_ok hurl

/-- Asking for a manifest goes to the endpoint of the package. -/
theorem addresses_of_manifest {e : Ecosystem} {base : String} {p : Package}
    {l : Http.Lookup Manifest} (h : (Registry.mk e base).manifest p = .ok l) :
    Addresses base (manifest e p).parts l.url := by
  cases e with
  | npm =>
    obtain ⟨hversion, h⟩ := check_bind_eq_ok.1 h
    obtain ⟨segment, hname, hl⟩ := bind_eq_ok h
    obtain rfl := Except.ok.inj hl
    exact addresses_of_npmName hname (by rintro v ⟨⟩; exact hversion)
  | pypi =>
    obtain ⟨url, hurl, hl⟩ := bind_eq_ok h
    obtain rfl := Except.ok.inj hl
    exact documentUrl_eq_ok hurl

/-- A request goes to the endpoint of its question. -/
theorem addresses_of_request? {base : String} {key : Option String} {q : Question} {r : Request}
    (h : q.request? base key = .ok r) : Addresses base q.parts r.url := by
  cases q with
  | latest e name =>
    obtain ⟨l, hl, rfl⟩ := map_eq_ok h
    exact addresses_of_latest hl
  | manifest e p =>
    obtain ⟨l, hl, rfl⟩ := map_eq_ok h
    exact addresses_of_manifest hl
  | report id =>
    obtain ⟨hid, heq⟩ := check_bind_eq_ok.1 h
    obtain rfl := Except.ok.inj heq
    exact ⟨by simp [parts, endpoint, client, subject, Part.IsAccepted, hid], rfl⟩

/-! ## What is sent -/

variable {base : String} {key : Option String} {reply : Request → List Request → Reply}
  {sent : List Request} {r : Request}

/-- A request is sent unless there is something wrong with it. -/
theorem mem_send {request : Request} : r ∈ (Http.send (recording reply) request sent).2 ↔
    r ∈ sent ∨ r = request ∧ r.problem? = none := by
  unfold Http.send
  cases hproblem : request.problem? with
  | some why =>
    refine ⟨.inl, ?_⟩
    rintro (hr | ⟨rfl, hnone⟩)
    · exact hr
    · rw [hproblem] at hnone
      cases hnone
  | none =>
    have hsent : r ∈ sent ++ [request] ↔ r ∈ sent ∨ r = request ∧ r.problem? = none := by
      rw [List.mem_append, List.mem_singleton]
      refine or_congr_right ⟨?_, And.left⟩
      rintro rfl
      exact ⟨rfl, hproblem⟩
    simp only [recording]
    cases reply request sent <;> exact hsent

/-- Every attempt of a lookup sends the same request. -/
theorem mem_runFrom {α : Type} (l : Http.Lookup α) (i left : Nat) :
    r ∈ (l.runFrom (recording reply) i left sent).2 ↔
      r ∈ sent ∨ r = .getting l.url ∧ r.problem? = none := by
  induction left generalizing i sent with
  | zero =>
    have hsent : r ∈ (Http.send (recording reply) (.getting l.url) sent).2 ↔ _ := mem_send
    rw [Http.Lookup.runFrom]
    rcases hsend : Http.send (recording reply) (.getting l.url) sent with ⟨answer, sent'⟩
    rw [hsend] at hsent
    cases hjudge : l.judge answer <;> simpa only [hjudge] using hsent
  | succ left ih =>
    have hsent : r ∈ (Http.send (recording reply) (.getting l.url) sent).2 ↔ _ := mem_send
    rw [Http.Lookup.runFrom]
    rcases hsend : Http.send (recording reply) (.getting l.url) sent with ⟨answer, sent'⟩
    rw [hsend] at hsent
    cases hjudge : l.judge answer with
    | found a => simpa only [hjudge] using hsent
    | failed why => simpa only [hjudge] using hsent
    | retryable why =>
      simp only [hjudge]
      rw [ih, hsent, or_assoc, or_self]

/-- What is sent for a question is its request, if that can be sent. -/
theorem mem_requests {q : Question} : r ∈ q.requests base key reply ↔
    q.request? base key = .ok r ∧ r.problem? = none := by
  have hlookup : ∀ {α : Type} (l : Except Failure (Http.Lookup α)),
      r ∈ (Registry.ask (recording reply) l []).2 ↔
        l.map (Request.getting ·.url) = .ok r ∧ r.problem? = none := by
    intro α l
    cases l with
    | error why => exact iff_of_false List.not_mem_nil nofun
    | ok l =>
      refine (mem_runFrom l 1 _).trans ?_
      simp only [List.not_mem_nil, false_or, Except.map, Except.ok.injEq]
      exact and_congr_left fun _ => eq_comm
  cases q with
  | latest e name => exact hlookup _
  | manifest e p => exact hlookup _
  | report id =>
    simp only [requests, ask, Analysis.Service.report, request?]
    cases (Analysis.Service.mk base key).inquiry id with
    | error why => exact iff_of_false List.not_mem_nil nofun
    | ok request =>
      refine mem_send.trans ?_
      simp only [List.not_mem_nil, false_or, Except.ok.injEq]
      exact and_congr_left fun _ => eq_comm

/-! ## What a URL is about -/

theorem value_npmName (name : String) : (npmName name).value = name := by
  unfold npmName
  split
  · rfl
  · rename_i scope bare hsplit
    have hname : name.toList = '@' :: (scope ++ '/' :: bare) := by
      unfold Npm.splitScope? at hsplit
      split at hsplit
      · rename_i behind hlist
        split at hsplit
        · rename_i mark bare' hdrop
          cases hsplit
          have hmark : mark = '/' := by
            have hstop := Text.eq_false_of_head?_dropWhile (congrArg List.head? hdrop)
            simpa using hstop
          subst hmark
          rw [hlist, ← hdrop, List.takeWhile_append_dropWhile]
        · cases hsplit
      · cases hsplit
    rw [← String.toList_inj, hname]
    simp only [Part.value, String.toList_append, String.toList_ofList, List.append_assoc]
    rfl

theorem parts_ne_nil (q : Question) : q.parts ≠ [] := by
  unfold parts endpoint
  split <;> exact List.cons_ne_nil _ _

theorem subject_of_report {q : Question} (h : q.client = none) : q.subject.2 = none := by
  cases q with
  | latest | manifest => cases h
  | report => rfl

theorem value_endpoint_npm (name : String) (version : Option String) :
    (endpoint (some .npm) (name, version)).map Part.value = name :: version.toList := by
  cases version <;> simp only [endpoint, List.map_cons, value_npmName] <;> rfl

theorem value_endpoint_pypi (name : String) (version : Option String) :
    (endpoint (some .pypi) (name, version)).map Part.value =
      "pypi" :: name :: (version.toList ++ ["json"]) := by
  cases version <;> rfl

theorem version_inj {version version' : Option String}
    (h : version.toList = version'.toList) : version = version' := by
  have hhead := congrArg List.head? h
  simpa using hhead

/-- The texts of an endpoint tell what it is about. -/
theorem endpoint_inj {c : Option Ecosystem} {s s' : String × Option String}
    (hreport : c = none → s.2 = none ∧ s'.2 = none)
    (h : (endpoint c s).map Part.value = (endpoint c s').map Part.value) : s = s' := by
  obtain ⟨name, version⟩ := s
  obtain ⟨name', version'⟩ := s'
  -- the parts of a report leave a version out, so it has to be known that there is none
  cases c with
  | none =>
    obtain ⟨rfl, rfl⟩ : version = none ∧ version' = none := hreport rfl
    simpa [endpoint, Part.value] using h
  | some e =>
    cases e with
    | npm =>
      rw [value_endpoint_npm, value_endpoint_npm] at h
      obtain ⟨rfl, hversion⟩ := List.cons.inj h
      rw [version_inj hversion]
    | pypi =>
      rw [value_endpoint_pypi, value_endpoint_pypi] at h
      obtain ⟨rfl, hversion⟩ := List.cons.inj (List.cons.inj h).2
      rw [version_inj (List.append_cancel_right hversion)]

/-- Questions of one client with the same values in their endpoints ask for the same thing. -/
theorem subject_eq_of_value {q q' : Question} (hclient : q.client = q'.client)
    (h : q.parts.map Part.value = q'.parts.map Part.value) : q.subject = q'.subject := by
  rw [parts, parts, ← hclient] at h
  exact endpoint_inj (fun hnone => ⟨subject_of_report hnone,
    subject_of_report (hclient.symm.trans hnone)⟩) h

section Main

variable {b : Address}

/-- **Requests keep to their endpoint**: a request for a question goes to the endpoint of its
question under the base exactly if none of its texts is a lone dot. Then two questions that the
same client asks share a URL only if they are about the same. -/
theorem keeps_to_endpoint (hbase : IsBase base b) (key : Option String)
    (reply reply' : Request → List Request → Reply) (q : Question) :
    (∀ r, r ∈ q.requests base key reply ↔ q.request? base key = .ok r ∧ r.problem? = none) ∧
      (∀ r ∈ q.requests base key reply, Confined b q.parts r.url ↔ .text "." ∉ q.parts) ∧
      ∀ q' : Question, q.client = q'.client → .text "." ∉ q.parts → .text "." ∉ q'.parts →
        ∀ r ∈ q.requests base key reply, ∀ r' ∈ q'.requests base key reply',
          r.url.text = r'.url.text ↔ q.subject = q'.subject := by
  -- whatever is answered, a request that is sent is the one for the question
  have hurl : ∀ {q : Question} {reply r}, r ∈ q.requests base key reply →
      Addresses base q.parts r.url := fun hr => addresses_of_request? (mem_requests.1 hr).1
  refine ⟨fun r => mem_requests, fun r hr => ?_, fun q' hclient hdot hdot' r hr r' hr' => ?_⟩
  · obtain ⟨haccepted, hr⟩ := hurl hr
    rw [hr]
    exact Http.confined_iff hbase q.parts_ne_nil haccepted
  · obtain ⟨haccepted, hr⟩ := hurl hr
    obtain ⟨haccepted', hr'⟩ := hurl hr'
    rw [hr, hr']
    constructor
    · intro htext
      exact subject_eq_of_value hclient (Http.value_eq_of_text hbase q.parts_ne_nil
        q'.parts_ne_nil haccepted haccepted' hdot hdot' htext)
    · intro hsubject
      rw [parts, parts, hclient, hsubject]

end Main

/-- No answer ever comes back. -/
def silent : Request → List Request → Reply := fun _ _ => .lost [] ""

/-- A scoped name under a folder, and a version whose characters stand for something in a URL. -/
theorem keeps_to_endpoint_scoped :
    IsBase "https://npm.example/mirror"
      ⟨true, .name "npm.example", none, ["mirror", ""], none, none⟩ ∧
    Request.getting ⟨"https://npm.example/mirror", ["@types%2Fnode", "%25%3A%C3%A9"]⟩ ∈
      (manifest .npm ⟨"@types/node", "%:é"⟩).requests "https://npm.example/mirror" none silent ∧
    Confined ⟨true, .name "npm.example", none, ["mirror", ""], none, none⟩
      [.inScope "types" "node", .text "%:é"]
      ⟨"https://npm.example/mirror", ["@types%2Fnode", "%25%3A%C3%A9"]⟩ := by
  have hbase : IsBase "https://npm.example/mirror"
      ⟨true, .name "npm.example", none, ["mirror", ""], none, none⟩ :=
    ⟨by decide +kernel, rfl, rfl⟩
  obtain ⟨hsent, hconfined, -⟩ := keeps_to_endpoint hbase none silent silent
    (manifest .npm ⟨"@types/node", "%:é"⟩)
  have hmem := (hsent (.getting
    ⟨"https://npm.example/mirror", ["@types%2Fnode", "%25%3A%C3%A9"]⟩)).2
    ⟨by decide +kernel, by decide +kernel⟩
  exact ⟨hbase, hmem, (hconfined _ hmem).2 (by decide +kernel)⟩

/-- A version that is a lone dot is accepted, and the request for it reaches the document of the
newest version. -/
theorem dot_reaches_latest :
    IsBase "https://pypi.org" ⟨true, .name "pypi.org", none, [""], none, none⟩ ∧
    ∃ r ∈ (manifest .pypi ⟨"idna", "."⟩).requests "https://pypi.org" none silent,
      ∃ r' ∈ (latest .pypi "idna").requests "https://pypi.org" none silent,
        r.url.text = r'.url.text ∧ ¬ Confined ⟨true, .name "pypi.org", none, [""], none, none⟩
          (manifest .pypi ⟨"idna", "."⟩).parts r.url := by
  have hbase : IsBase "https://pypi.org" ⟨true, .name "pypi.org", none, [""], none, none⟩ :=
    ⟨by decide +kernel, rfl, rfl⟩
  have hsent : Request.getting ⟨"https://pypi.org", ["pypi", "idna", ".", "json"]⟩ ∈
      (manifest .pypi ⟨"idna", "."⟩).requests "https://pypi.org" none silent :=
    mem_requests.2 ⟨by decide +kernel, by decide +kernel⟩
  have hsent' : Request.getting ⟨"https://pypi.org", ["pypi", "idna", "json"]⟩ ∈
      (latest .pypi "idna").requests "https://pypi.org" none silent :=
    mem_requests.2 ⟨by decide +kernel, by decide +kernel⟩
  refine ⟨hbase, _, hsent, _, hsent', by decide +kernel, fun hconfined => ?_⟩
  obtain ⟨haccepted, hurl⟩ := addresses_of_request? (mem_requests.1 hsent).1
  rw [hurl] at hconfined
  have hdot := (Http.confined_iff hbase (parts_ne_nil _) haccepted).1 hconfined
  exact hdot (by decide +kernel)

end Question

end PackageGate
