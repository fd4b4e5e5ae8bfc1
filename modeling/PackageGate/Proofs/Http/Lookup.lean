import PackageGate.Http.Lookup

/-!
# Documents that lookups find

- `Http.Reply.MayRetry`: the replies that leave room for another attempt.
- `Http.Delivers`: a transport that sends a document in the end.
- `Http.Lookup.runFrom_eq_ok_iff`: a lookup comes to what is read in the document that is sent.
-/

namespace PackageGate.Http

variable {α ω : Type} {t : Transport ω} {url : Url} {body body' : String} {left : Nat}
  {world world' : ω} {reply : Reply} {s : Status} {l : Lookup α} {a : α}

/-- Asking again may help: nothing came back, or the request is not to blame. -/
def Reply.MayRetry : Reply → Prop
  | lost _ _ => True
  | answered status _ => status.isSuccess = false ∧ status.isClientError = false

/-- Asked once, and up to `left` more times while that may help, the transport sends a document
with the text `body`. -/
inductive Delivers (t : Transport ω) (url : Url) (body : String) : Nat → ω → Prop
  | now {left : Nat} {status : Status} {world world' : ω} :
    t (.getting url) world = (.answered status body, world') → status.isSuccess = true →
    Delivers t url body left world
  | again {left : Nat} {reply : Reply} {world world' : ω} :
    t (.getting url) world = (reply, world') → reply.MayRetry → Delivers t url body left world' →
    Delivers t url body (left + 1) world

/-! ## Replies -/

theorem Status.not_isClientError (h : s.isSuccess = true) : s.isClientError = false := by
  simp only [isSuccess, isClientError, Bool.and_eq_true, Bool.and_eq_false_iff, decide_eq_true_eq,
    decide_eq_false_iff_not] at h ⊢
  omega

theorem Status.code_ne (h : s.isClientError = false) : s.code ≠ 404 := by
  simp only [isClientError, Bool.and_eq_false_iff, decide_eq_false_iff_not] at h
  omega

/-- A reply that decides is a document, or blames the request. -/
theorem Reply.exists_of_not_mayRetry (h : ¬ reply.MayRetry) : ∃ status body,
    reply = .answered status body ∧ (status.isSuccess = true ∨ status.isClientError = true) := by
  cases reply with
  | lost layers cause => exact absurd trivial h
  | answered status body =>
    refine ⟨status, body, rfl, ?_⟩
    cases hsuccess : status.isSuccess with
    | true => exact .inl rfl
    | false =>
      cases hblame : status.isClientError with
      | true => exact .inr rfl
      | false => exact absurd ⟨hsuccess, hblame⟩ h

namespace Delivers

variable (hreply : t (.getting url) world = (reply, world'))

include hreply

/-- If the first reply decides, it is the document. -/
theorem of_not_mayRetry (hdecided : ¬ reply.MayRetry) (h : Delivers t url body left world) :
    ∃ status, reply = .answered status body ∧ status.isSuccess = true := by
  cases h with
  | now hnow hsuccess =>
    cases hreply.symm.trans hnow
    exact ⟨_, rfl, hsuccess⟩
  | again hnow hretry =>
    cases hreply.symm.trans hnow
    exact absurd hretry hdecided

/-- If another attempt may help, the document comes after it. -/
theorem of_mayRetry (hretry : reply.MayRetry) (h : Delivers t url body left world) :
    ∃ less, left = less + 1 ∧ Delivers t url body less world' := by
  cases h with
  | now hnow hsuccess =>
    cases hreply.symm.trans hnow
    rw [hretry.1] at hsuccess
    cases hsuccess
  | again hnow _ hrest =>
    cases hreply.symm.trans hnow
    exact ⟨_, rfl, hrest⟩

end Delivers

/-! ## Attempts -/

namespace Lookup

variable {i : Nat} {answer : Except Failure (Status × String)} {why : Failure}

/-- A success is judged by the document in it. -/
theorem judge_of_isSuccess (h : s.isSuccess = true) (body : String) :
    l.judge (.ok (s, body)) = match (Json.read? body).bind l.read with
      | some a => .found a
      | none => .failed (.of (.malformedReply l.url.text)) := by
  have hblame := Status.not_isClientError h
  rw [judge, if_neg (Status.code_ne hblame), hblame, h]
  rfl

theorem exists_judge_of_isClientError (h : s.isClientError = true) (body : String) :
    ∃ why, l.judge (.ok (s, body)) = .failed why := by
  unfold judge
  by_cases hcode : s.code = 404
  · exact ⟨_, if_pos hcode⟩
  · exact ⟨_, (if_neg hcode).trans (if_pos h)⟩

/-- A reply that may be retried is judged so. -/
theorem judge_of_mayRetry (h : (Reply.answered s body).MayRetry) :
    l.judge (.ok (s, body)) = .retryable (.of (.registryStatus s)) := by
  rw [judge, if_neg (Status.code_ne h.2), h.2, h.1]
  rfl

theorem runFrom_zero_of_retryable (hsend : Http.send t (.getting l.url) world = (answer, world'))
    (hjudge : l.judge answer = .retryable why) :
    (l.runFrom t i 0 world).1.result = .error why := by
  rw [runFrom, hsend]
  simp only [hjudge]

theorem runFrom_succ_of_retryable (hsend : Http.send t (.getting l.url) world = (answer, world'))
    (hjudge : l.judge answer = .retryable why) :
    (l.runFrom t i (left + 1) world).1.result = (l.runFrom t (i + 1) left world').1.result := by
  rw [runFrom, hsend]
  simp only [hjudge]

theorem runFrom_of_unsendable (h : (Request.getting l.url).problem? = some why) :
    (l.runFrom t i left world).1.result = .error why := by
  have hsend : Http.send t (.getting l.url) world = (.error why, world) := by
    rw [Http.send, h]
  induction left generalizing i with
  | zero => exact runFrom_zero_of_retryable hsend rfl
  | succ left ih => rw [runFrom_succ_of_retryable hsend rfl, ih]

theorem send_answered (h : (Request.getting l.url).problem? = none)
    (hreply : t (.getting l.url) world = (.answered s body, world')) :
    Http.send t (.getting l.url) world = (.ok (s, body), world') := by
  rw [Http.send, h]
  simp only [hreply]

/-- Where another attempt may help, it is made. -/
theorem exists_retryable (h : (Request.getting l.url).problem? = none)
    (hreply : t (.getting l.url) world = (reply, world')) (hretry : reply.MayRetry) :
    ∃ answer why, Http.send t (.getting l.url) world = (answer, world') ∧
      l.judge answer = .retryable why := by
  cases reply with
  | lost layers cause =>
    refine ⟨.error (lostFailure l.url layers cause), _, ?_, rfl⟩
    rw [Http.send, h]
    simp only [hreply]
    rfl
  | answered s body => exact ⟨_, _, send_answered h hreply, judge_of_mayRetry hretry⟩

/-- A document that is sent decides, whatever it holds. -/
theorem runFrom_of_isSuccess (h : (Request.getting l.url).problem? = none)
    (hreply : t (.getting l.url) world = (.answered s body, world')) (hs : s.isSuccess = true) :
    (l.runFrom t i left world).1.result = .ok a ↔ (Json.read? body).bind l.read = some a := by
  rw [runFrom, send_answered h hreply]
  simp only [judge_of_isSuccess hs]
  cases (Json.read? body).bind l.read <;> simp

/-- A fault of the client's ends the lookup without a document. -/
theorem runFrom_of_isClientError (h : (Request.getting l.url).problem? = none)
    (hreply : t (.getting l.url) world = (.answered s body, world'))
    (hs : s.isClientError = true) : (l.runFrom t i left world).1.result ≠ .ok a := by
  obtain ⟨why, hjudge⟩ := exists_judge_of_isClientError (l := l) hs body
  rw [runFrom, send_answered h hreply]
  simp only [hjudge]
  exact nofun

/-- If the first reply decides, the lookup comes to what is read in it. -/
theorem runFrom_of_not_mayRetry (h : (Request.getting l.url).problem? = none)
    (hreply : t (.getting l.url) world = (reply, world')) (hdecided : ¬ reply.MayRetry) :
    (l.runFrom t i left world).1.result = .ok a ↔
      ∃ body, Delivers t l.url body left world ∧ (Json.read? body).bind l.read = some a := by
  obtain ⟨s, body, rfl, hsuccess | hblame⟩ := Reply.exists_of_not_mayRetry hdecided
  · rw [runFrom_of_isSuccess h hreply hsuccess]
    constructor
    · exact fun hread => ⟨body, .now hreply hsuccess, hread⟩
    · rintro ⟨body', hsent, hread⟩
      obtain ⟨status, heq, -⟩ := hsent.of_not_mayRetry hreply hdecided
      cases heq
      exact hread
  · refine iff_of_false (runFrom_of_isClientError h hreply hblame) ?_
    rintro ⟨body', hsent, -⟩
    obtain ⟨status, heq, hsuccess⟩ := hsent.of_not_mayRetry hreply hdecided
    cases heq
    rw [Status.not_isClientError hsuccess] at hblame
    cases hblame

/-- A lookup comes to `a` exactly if its request can be sent, and a document is sent in the end
in which `a` is read. -/
theorem runFrom_eq_ok_iff : (l.runFrom t i left world).1.result = .ok a ↔
    (Request.getting l.url).problem? = none ∧
      ∃ body, Delivers t l.url body left world ∧ (Json.read? body).bind l.read = some a := by
  cases hproblem : (Request.getting l.url).problem? with
  | some why =>
    rw [runFrom_of_unsendable hproblem]
    refine iff_of_false nofun ?_
    rintro ⟨hnone, -⟩
    cases hnone
  | none =>
    rw [and_iff_right rfl]
    -- induction on the attempts that are left: a reply decides, or leads to the next attempt
    induction left generalizing i world with
    | zero =>
      rcases hreply : t (.getting l.url) world with ⟨reply, world'⟩
      by_cases hretry : reply.MayRetry
      · obtain ⟨answer, why, hsend, hjudge⟩ := exists_retryable hproblem hreply hretry
        rw [runFrom_zero_of_retryable hsend hjudge]
        refine iff_of_false nofun ?_
        rintro ⟨body, hsent, -⟩
        obtain ⟨less, hless, -⟩ := hsent.of_mayRetry hreply hretry
        cases hless
      · exact runFrom_of_not_mayRetry hproblem hreply hretry
    | succ left ih =>
      rcases hreply : t (.getting l.url) world with ⟨reply, world'⟩
      by_cases hretry : reply.MayRetry
      · obtain ⟨answer, why, hsend, hjudge⟩ := exists_retryable hproblem hreply hretry
        rw [runFrom_succ_of_retryable hsend hjudge, ih]
        refine exists_congr fun body => and_congr_left fun _ => ?_
        refine ⟨.again hreply hretry, fun hsent => ?_⟩
        obtain ⟨less, hless, hrest⟩ := hsent.of_mayRetry hreply hretry
        cases hless
        exact hrest
      · exact runFrom_of_not_mayRetry hproblem hreply hretry

end Lookup

end PackageGate.Http
