import PackageGate.Proofs.Http.Lookup
import PackageGate.Registry.Npm

/-!
# How often a document is asked for

A lookup asks again only while that may help, and never more often than its limit says. Between two
attempts it pauses, each time for longer. The attempts are written down once more as a loop over
their numbers, which carries the last failure along and has one of its own for the case that it was
never gone through.

- `Http.replyTo`: the replies that a transport has for one request after the other.
- `Http.Lookup.loop`: the loop, with what it does in order, and `Http.Lookup.run_eq_loop`: a lookup
  is this loop, whatever the failure is that the loop has of its own.
- `Http.Lookup.Asks`: which requests a lookup sends, and which pauses it makes.
- `Http.Lookup.asks_exactly`: how often a lookup asks, when it pauses, and what it comes to.
-/

namespace PackageGate.Http

variable {α ω : Type} {t : Transport ω} {url : Url} {world : ω} {why : Failure} {reply : Reply}

/-! ## Replies in a row -/

/-- The surroundings after `i` attempts to get a document. -/
def worldAfter (t : Transport ω) (url : Url) (world : ω) : Nat → ω
  | 0 => world
  | i + 1 => (send t (.getting url) (worldAfter t url world i)).2

/-- What the attempt that comes after `i` others is answered with. -/
def answerTo (t : Transport ω) (url : Url) (world : ω) (i : Nat) :
    Except Failure (Status × String) :=
  (send t (.getting url) (worldAfter t url world i)).1

/-- The transport's reply to the request that comes after `i` others. -/
def replyTo (t : Transport ω) (url : Url) (world : ω) (i : Nat) : Reply :=
  (t (.getting url) (worldAfter t url world i)).1

/-- A reply as it is judged. -/
def Reply.answer (url : Url) : Reply → Except Failure (Status × String)
  | lost layers cause => .error (lostFailure url layers cause)
  | answered status body => .ok (status, body)

/-- What a reply is reported as when there is no attempt left. -/
def Reply.failure (url : Url) : Reply → Failure
  | lost layers cause => lostFailure url layers cause
  | answered status _ => .of (.registryStatus status)

/-- The transport, with a list of everything that it was asked. -/
def recorded (t : Transport ω) : Transport (List Request × ω) := fun request (sent, world) =>
  ((t request world).1, sent ++ [request], (t request world).2)

theorem send_eq (h : (Request.getting url).problem? = none) (t : Transport ω) (world : ω) :
    send t (.getting url) world =
      ((t (.getting url) world).1.answer url, (t (.getting url) world).2) := by
  rw [send, h]
  rcases t (.getting url) world with ⟨_ | _, world'⟩ <;> rfl

theorem answerTo_eq (h : (Request.getting url).problem? = none) (t : Transport ω) (world : ω)
    (i : Nat) : answerTo t url world i = (replyTo t url world i).answer url := by
  rw [answerTo, send_eq h, replyTo]

/-- What cannot be sent leaves the surroundings alone. -/
theorem send_of_unsendable (h : (Request.getting url).problem? = some why) (t : Transport ω)
    (world : ω) : send t (.getting url) world = (.error why, world) := by
  rw [send, h]

theorem worldAfter_of_unsendable (h : (Request.getting url).problem? = some why)
    (t : Transport ω) (world : ω) (i : Nat) : worldAfter t url world i = world := by
  induction i with
  | zero => rfl
  | succ i ih => rw [worldAfter, send_of_unsendable h, ih]

theorem answerTo_zero (t : Transport ω) (url : Url) (world : ω) :
    answerTo t url world 0 = (send t (.getting url) world).1 :=
  rfl

theorem worldAfter_one (t : Transport ω) (url : Url) (world : ω) :
    worldAfter t url world 1 = (send t (.getting url) world).2 :=
  rfl

theorem worldAfter_succ (t : Transport ω) (url : Url) (world : ω) (i : Nat) :
    worldAfter t url world (i + 1) = worldAfter t url (send t (.getting url) world).2 i := by
  induction i with
  | zero => rfl
  | succ i ih => rw [worldAfter, ih, ← worldAfter]

theorem answerTo_succ (t : Transport ω) (url : Url) (world : ω) (i : Nat) :
    answerTo t url world (i + 1) = answerTo t url (send t (.getting url) world).2 i := by
  rw [answerTo, worldAfter_succ, ← answerTo]

/-- Every attempt at a request that can be sent is one request. -/
theorem worldAfter_recorded (h : (Request.getting url).problem? = none) (t : Transport ω)
    (sent : List Request) (world : ω) (i : Nat) :
    worldAfter (recorded t) url (sent, world) i =
      (sent ++ List.replicate i (.getting url), worldAfter t url world i) := by
  induction i with
  | zero => rw [worldAfter, worldAfter, List.replicate_zero, List.append_nil]
  | succ i ih =>
    rw [worldAfter, send_eq h, ih, worldAfter, send_eq h, List.replicate_succ', ← List.append_assoc]
    rfl

theorem answerTo_recorded (h : (Request.getting url).problem? = none) (t : Transport ω)
    (sent : List Request) (world : ω) (i : Nat) :
    answerTo (recorded t) url (sent, world) i = answerTo t url world i := by
  rw [answerTo_eq h, answerTo_eq h, replyTo, worldAfter_recorded h]
  rfl

namespace Lookup

/-! ## The loop -/

/-- Something that a lookup does. -/
inductive Act
  | attempted
  /-- It waits for some milliseconds. -/
  | paused (duration : Nat)
deriving DecidableEq

/-- The pauses among what a lookup does. -/
def pausesAmong (acts : List Act) : List Nat :=
  acts.filterMap fun | .paused duration => some duration | .attempted => none

/-- What one attempt comes to. There may be no such document. -/
def judgeOnce (l : Lookup α) : Except Failure (Status × String) → Attempt (Option α)
  | .error why => .retryable why
  | .ok (s, body) =>
    if s.code = 404 then .found none
    else if s.isClientError then .failed (.of (.registryStatus s))
    else if !s.isSuccess then .retryable (.of (.registryStatus s))
    else
      match (Json.read? body).bind l.read with
      | some a => .found (some a)
      | none => .failed (.of (.malformedReply l.url.text))

/-- What it comes to that a document is there, or is not. -/
def required (l : Lookup α) : Option α → Except Failure α
  | some a => .ok a
  | none => .error (.of l.absent)

/-- The attempts from `number` on, `left` of them. The failure `last` is the one of the attempt
before, and `never` stands for it where there is none. -/
def loopFrom (never : Failure) (t : Transport ω) (l : Lookup α) (limit : Nat) :
    (left number : Nat) → Option Failure → ω → (Except Failure (Option α) × List Act) × ω
  | 0, _, last, world => ((.error (last.getD never), []), world)
  | left + 1, number, _, world =>
    let (answer, world) := send t (.getting l.url) world
    match l.judgeOnce answer with
    | .found document => ((.ok document, [.attempted]), world)
    | .failed why => ((.error why, [.attempted]), world)
    | .retryable why =>
      let pauses := if number < limit then [.paused (100 * number)] else []
      let ((result, acts), world) := loopFrom never t l limit left (number + 1) (some why) world
      ((result, .attempted :: (pauses ++ acts)), world)

/-- The attempts with the numbers from one to the limit, or a single one if the limit is zero. -/
def loop (never : Failure) (t : Transport ω) (l : Lookup α) (limit : Nat) (world : ω) :
    (Except Failure (Option α) × List Act) × ω :=
  loopFrom never t l limit (max 1 limit) 1 none world

variable {never : Failure} {l : Lookup α} {limit left number k n : Nat} {last : Option Failure}
  {answer : Except Failure (Status × String)} {result : Except Failure (Option α)}
  {s : Status} {body : String}

/-- A document that is absent is a failure; all else is as the one attempt is judged. -/
theorem judge_eq (l : Lookup α) (answer : Except Failure (Status × String)) :
    l.judge answer = match l.judgeOnce answer with
      | .found (some a) => .found a
      | .found none => .failed (.of l.absent)
      | .failed why => .failed why
      | .retryable why => .retryable why := by
  rcases answer with why | ⟨s, body⟩
  · rfl
  · simp only [judge, judgeOnce]
    by_cases hcode : s.code = 404
    · rw [if_pos hcode, if_pos hcode]
    · rw [if_neg hcode, if_neg hcode]
      cases s.isClientError with
      | true => rfl
      | false =>
        cases s.isSuccess with
        | false => rfl
        | true => cases (Json.read? body).bind l.read <;> rfl

theorem loopFrom_succ (never : Failure) (t : Transport ω) (l : Lookup α) (limit left number : Nat)
    (last : Option Failure) (world : ω) :
    loopFrom never t l limit (left + 1) number last world =
      match l.judgeOnce (answerTo t l.url world 0) with
      | .found document => ((.ok document, [.attempted]), worldAfter t l.url world 1)
      | .failed why => ((.error why, [.attempted]), worldAfter t l.url world 1)
      | .retryable why =>
        let rest :=
          loopFrom never t l limit left (number + 1) (some why) (worldAfter t l.url world 1)
        let pauses := if number < limit then [.paused (100 * number)] else []
        ((rest.1.1, .attempted :: (pauses ++ rest.1.2)), rest.2) := by
  rw [loopFrom, answerTo_zero, worldAfter_one]

/-- What an attempt after which there is no other comes to. -/
def ended (l : Lookup α) (answer : Except Failure (Status × String)) :
    Except Failure (Option α) :=
  match l.judgeOnce answer with
  | .found document => .ok document
  | .failed why | .retryable why => .error why

/-- Whether an answer leaves room for another attempt. -/
def Retries (l : Lookup α) (answer : Except Failure (Status × String)) : Prop :=
  ∃ why, l.judgeOnce answer = .retryable why

/-- The attempt and the pause with every number from `number` on, for `k` of them, and one attempt
more. -/
def actsUntil (number k : Nat) : List Act :=
  (List.range' number k).flatMap (fun i => [.attempted, .paused (100 * i)]) ++ [.attempted]

example : actsUntil 1 2 = [.attempted, .paused 100, .attempted, .paused 200, .attempted] := rfl

theorem actsUntil_succ (number k : Nat) :
    actsUntil number (k + 1) =
      .attempted :: .paused (100 * number) :: actsUntil (number + 1) k := by
  rw [actsUntil, List.range'_succ, actsUntil, List.flatMap_cons, List.append_assoc]
  rfl

/-- The loop ends with an answer that it does not retry, or at the limit. -/
theorem loopFrom_last (h : ¬l.Retries (answerTo t l.url world 0) ∨ left = 0 ∧ ¬number < limit) :
    loopFrom never t l limit (left + 1) number last world =
      ((l.ended (answerTo t l.url world 0), [.attempted]), worldAfter t l.url world 1) := by
  rw [loopFrom_succ, ended]
  cases hjudge : l.judgeOnce (answerTo t l.url world 0) with
  | found document => rfl
  | failed why => rfl
  | retryable why =>
    obtain ⟨rfl, hlimit⟩ := h.resolve_left fun hnot => hnot ⟨why, hjudge⟩
    simp only [loopFrom, if_neg hlimit, Option.getD_some, List.nil_append]

/-- The loop goes on from an answer that it retries. -/
theorem loopFrom_retries (never : Failure) (left : Nat) (last : Option Failure)
    (h : l.Retries (answerTo t l.url world 0)) (hlimit : number < limit) :
    ∃ why, loopFrom never t l limit (left + 1) number last world =
      let rest := loopFrom never t l limit left (number + 1) (some why) (worldAfter t l.url world 1)
      ((rest.1.1, .attempted :: .paused (100 * number) :: rest.1.2), rest.2) := by
  obtain ⟨why, hjudge⟩ := h
  refine ⟨why, ?_⟩
  rw [loopFrom_succ, hjudge]
  simp only [if_pos hlimit, List.cons_append, List.nil_append]

/-- The attempt after `k` others is the last one if it is the first that leaves no room for another,
or if no attempt is left. -/
theorem loopFrom_eq (hk : k < left) (hretries : ∀ i < k, l.Retries (answerTo t l.url world i))
    (hend : ¬l.Retries (answerTo t l.url world k) ∨ k + 1 = left)
    (hnumber : 0 < number) (hleft : number + left = max 1 limit + 1) :
    loopFrom never t l limit left number last world =
      ((l.ended (answerTo t l.url world k), actsUntil number k),
        worldAfter t l.url world (k + 1)) := by
  -- induction on the attempts before the last one, each of which is followed by a pause
  induction k generalizing left number last world with
  | zero =>
    obtain ⟨left, rfl⟩ := Nat.exists_eq_add_one_of_ne_zero (Nat.ne_zero_of_lt hk)
    exact loopFrom_last (hend.imp_right fun h => ⟨by omega, by omega⟩)
  | succ k ih =>
    obtain ⟨left, rfl⟩ := Nat.exists_eq_add_one_of_ne_zero (Nat.ne_zero_of_lt hk)
    have hlimit : number < limit := by omega
    obtain ⟨why, hfirst⟩ :=
      loopFrom_retries never left last (hretries 0 (Nat.succ_pos k)) hlimit
    have hlater : ∀ i, answerTo t l.url world (i + 1) =
        answerTo t l.url (worldAfter t l.url world 1) i :=
      answerTo_succ t l.url world
    have hrest := @ih (worldAfter t l.url world 1) left (number + 1) (some why)
      (Nat.lt_of_succ_lt_succ hk) (fun i hi => hlater i ▸ hretries (i + 1) (Nat.succ_lt_succ hi))
      (hend.imp (hlater k ▸ id) (by omega)) (Nat.succ_pos number) (by omega)
    rw [hfirst, hrest, answerTo_succ, worldAfter_succ t l.url world (k + 1), actsUntil_succ,
      worldAfter_one]

theorem runFrom_zero (t : Transport ω) (l : Lookup α) (number : Nat) (world : ω) :
    l.runFrom t number 0 world = match l.judge (answerTo t l.url world 0) with
      | .found a => (⟨.ok a, []⟩, worldAfter t l.url world 1)
      | .failed why | .retryable why => (⟨.error why, []⟩, worldAfter t l.url world 1) := by
  rw [runFrom]
  rfl

theorem runFrom_succ (t : Transport ω) (l : Lookup α) (number left : Nat) (world : ω) :
    l.runFrom t number (left + 1) world = match l.judge (answerTo t l.url world 0) with
      | .found a => (⟨.ok a, []⟩, worldAfter t l.url world 1)
      | .failed why => (⟨.error why, []⟩, worldAfter t l.url world 1)
      | .retryable _ =>
        let rest := l.runFrom t (number + 1) left (worldAfter t l.url world 1)
        (⟨rest.1.result, 100 * number :: rest.1.pauses⟩, rest.2) := by
  rw [runFrom]
  rfl

/-- A lookup is the loop with at least one attempt left, so that the loop has a failure to tell of
in the end. -/
theorem runFrom_eq_loopFrom (never : Failure) (last : Option Failure) (hnumber : 0 < number)
    (hleft : number + left = max 1 limit) :
    let looped := loopFrom never t l limit (left + 1) number last world
    l.runFrom t number left world =
      (⟨looped.1.1.bind l.required, pausesAmong looped.1.2⟩, looped.2) := by
  dsimp only
  induction left generalizing number last world with
  | zero =>
    rw [runFrom_zero, loopFrom_succ, judge_eq]
    rcases l.judgeOnce (answerTo t l.url world 0) with (_ | a) | why | why
    · rfl
    · rfl
    · rfl
    · have hlimit : ¬number < limit := by omega
      simp only [loopFrom, if_neg hlimit]
      rfl
  | succ left ih =>
    rw [runFrom_succ, loopFrom_succ, judge_eq]
    rcases l.judgeOnce (answerTo t l.url world 0) with (_ | a) | why | why
    · rfl
    · rfl
    · rfl
    · have hlimit : number < limit := by omega
      simp only [if_pos hlimit]
      rw [ih (some why) (Nat.succ_pos number) (by omega)]
      rfl

/-- The lookup comes to what the loop comes to, with the same pauses. -/
theorem run_eq_loop (never : Failure) (t : Transport ω) (l : Lookup α) (limit : Nat) (world : ω) :
    let looped := l.loop never t limit world
    l.run t limit world = (⟨looped.1.1.bind l.required, pausesAmong looped.1.2⟩, looped.2) := by
  have hleft : 1 + (limit - 1) = max 1 limit := by omega
  rw [run, runFrom_eq_loopFrom never none Nat.one_pos hleft, loop, ← hleft, Nat.add_comm]

/-! ## The last attempt -/

variable {requests : List Request}

/-- The pauses grow with the number of the attempt. -/
theorem pausesAmong_actsUntil (number k : Nat) :
    pausesAmong (actsUntil number k) = (List.range' number k).map (100 * ·) := by
  induction k generalizing number with
  | zero => rfl
  | succ k ih =>
    rw [actsUntil_succ, List.range'_succ, List.map_cons, ← ih]
    rfl

/-- The document that a reply with this status and this body says there is, or why it says nothing
of the kind. -/
def decision (l : Lookup α) (s : Status) (body : String) : Except Failure (Option α) :=
  if s.code = 404 then .ok none
  else if s.isClientError then .error (.of (.registryStatus s))
  else
    match (Json.read? body).bind l.read with
    | some a => .ok (some a)
    | none => .error (.of (.malformedReply l.url.text))

theorem judgeOnce_of_mayRetry (h : reply.MayRetry) :
    l.judgeOnce (reply.answer l.url) = .retryable (reply.failure l.url) := by
  cases reply with
  | lost layers cause => rfl
  | answered s body =>
    rw [Reply.answer, judgeOnce, if_neg (Status.code_ne h.2), h.2, h.1]
    rfl

/-- A success or a fault of the client's is final. -/
theorem not_retries (h : s.isSuccess = true ∨ s.isClientError = true) (body : String) :
    ¬l.Retries (.ok (s, body)) ∧ l.ended (.ok (s, body)) = l.decision s body := by
  rw [Retries, ended, decision, judgeOnce]
  by_cases hcode : s.code = 404
  · rw [if_pos hcode, if_pos hcode]
    exact ⟨nofun, rfl⟩
  · rw [if_neg hcode, if_neg hcode]
    cases hblame : s.isClientError with
    | true => exact ⟨nofun, rfl⟩
    | false =>
      rw [h.resolve_right (ne_true_of_eq_false hblame)]
      cases (Json.read? body).bind l.read <;> exact ⟨nofun, rfl⟩

/-- A lookup makes `n` attempts with these requests, and comes to `result`. -/
structure Asks (l : Lookup α) (t : Transport ω) (limit : Nat) (world : ω) (n : Nat)
    (requests : List Request) (result : Except Failure (Option α)) : Prop where
  /-- There are pauses, each a hundred milliseconds longer than the one before, and one less than
  attempts. -/
  run_eq : l.run t limit world = (⟨result.bind l.required, (List.range' 1 (n - 1)).map (100 * ·)⟩,
    worldAfter t l.url world n)
  /-- These and no other requests are sent. -/
  requests_eq : (l.run (recorded t) limit ([], world)).2 = (requests, worldAfter t l.url world n)
  /-- The pauses come between the attempts, and the failure that the loop has of its own is not told
  of. -/
  loop_eq : ∀ never, l.loop never t limit world =
    ((result, actsUntil 1 (n - 1)), worldAfter t l.url world n)

/-- The attempt after `k` others is the last one if it is the first that leaves no room for another,
or if no attempt is left. -/
theorem loop_eq (hk : k < max 1 limit) (hretries : ∀ i < k, l.Retries (answerTo t l.url world i))
    (hend : ¬l.Retries (answerTo t l.url world k) ∨ k + 1 = max 1 limit) (never : Failure) :
    l.loop never t limit world =
      ((l.ended (answerTo t l.url world k), actsUntil 1 k), worldAfter t l.url world (k + 1)) :=
  loopFrom_eq hk hretries hend Nat.one_pos (Nat.add_comm 1 _)

/-- Where the answer number `k` is the first that is not retried, or the last that is allowed, it
decides. -/
theorem run_eq (hk : k < max 1 limit) (hretries : ∀ i < k, l.Retries (answerTo t l.url world i))
    (hend : ¬l.Retries (answerTo t l.url world k) ∨ k + 1 = max 1 limit) :
    l.run t limit world = (⟨(l.ended (answerTo t l.url world k)).bind l.required,
      (List.range' 1 k).map (100 * ·)⟩, worldAfter t l.url world (k + 1)) := by
  rw [run_eq_loop (.of l.absent), loop_eq hk hretries hend]
  dsimp only
  rw [pausesAmong_actsUntil]

theorem asks (hk : k < max 1 limit) (hretries : ∀ i < k, l.Retries (answerTo t l.url world i))
    (hend : ¬l.Retries (answerTo t l.url world k) ∨ k + 1 = max 1 limit)
    (hanswers : ∀ i, answerTo (recorded t) l.url ([], world) i = answerTo t l.url world i)
    (hsent : worldAfter (recorded t) l.url ([], world) (k + 1) =
      (requests, worldAfter t l.url world (k + 1))) :
    l.Asks t limit world (k + 1) requests (l.ended (answerTo t l.url world k)) where
  run_eq := run_eq hk hretries hend
  requests_eq := by
    rw [run_eq hk (fun i hi => hanswers i ▸ hretries i hi) (hend.imp_left (hanswers k ▸ id)), hsent]
  loop_eq := loop_eq hk hretries hend

/-- A lookup that can be sent sends one request for each attempt, always the same. -/
theorem asks_of_sendable (hsendable : (Request.getting l.url).problem? = none)
    (hk : k < max 1 limit) (hbefore : ∀ i < k, (replyTo t l.url world i).MayRetry)
    (hend : ¬l.Retries (answerTo t l.url world k) ∨ k + 1 = max 1 limit) :
    l.Asks t limit world (k + 1) (List.replicate (k + 1) (.getting l.url))
      (l.ended (answerTo t l.url world k)) := by
  refine asks hk (fun i hi => ?_) hend (answerTo_recorded hsendable t [] world)
    (worldAfter_recorded hsendable t [] world (k + 1))
  rw [answerTo_eq hsendable]
  exact ⟨_, judgeOnce_of_mayRetry (hbefore i hi)⟩

/-- A lookup that cannot be sent asks nothing, and fails with the reason. -/
theorem asks_of_unsendable (hunsendable : (Request.getting l.url).problem? = some why)
    (hk : k + 1 = max 1 limit) : l.Asks t limit world (k + 1) [] (.error why) := by
  have hanswers : ∀ i, answerTo t l.url world i = .error why := fun i => by
    rw [answerTo, send_of_unsendable hunsendable]
  have hask : l.Asks t limit world (k + 1) [] (l.ended (answerTo t l.url world k)) := by
    refine asks (by omega) (fun i _ => ?_) (.inr hk) (fun i => ?_) ?_
    · rw [hanswers]
      exact ⟨why, rfl⟩
    · rw [hanswers, answerTo, send_of_unsendable hunsendable]
    · rw [worldAfter_of_unsendable hunsendable, worldAfter_of_unsendable hunsendable]
  rwa [hanswers] at hask

/-- **How often a document is asked for.** Let `n` be the limit, or one if the limit is zero, and
let the request be one that can be sent. If the reply after `k` others is the first one that
decides, and `k` is less than `n`, then there are `k + 1` requests, and the reply decides. If each
of `n` replies leaves room for another attempt, then there are `n` requests, and the lookup comes to
the failure of the last one. A request that cannot be sent is tried `n` times without being sent. -/
theorem asks_exactly (l : Lookup α) (t : Transport ω) (limit : Nat) (world : ω) :
    ((Request.getting l.url).problem? = none →
      (∀ k s body, k < max 1 limit → (∀ i < k, (replyTo t l.url world i).MayRetry) →
        replyTo t l.url world k = .answered s body →
        s.isSuccess = true ∨ s.isClientError = true →
        l.Asks t limit world (k + 1) (List.replicate (k + 1) (.getting l.url))
          (l.decision s body)) ∧
      ((∀ i < max 1 limit, (replyTo t l.url world i).MayRetry) →
        l.Asks t limit world (max 1 limit) (List.replicate (max 1 limit) (.getting l.url))
          (.error ((replyTo t l.url world (max 1 limit - 1)).failure l.url)))) ∧
    ∀ why, (Request.getting l.url).problem? = some why →
      l.Asks t limit world (max 1 limit) [] (.error why) := by
  obtain ⟨k, hk⟩ : ∃ k, max 1 limit = k + 1 := ⟨max 1 limit - 1, by omega⟩
  refine ⟨fun hsendable => ⟨?_, fun hall => ?_⟩, fun why hunsendable => ?_⟩
  · intro k s body hk hbefore hreply hdecides
    have hanswer : answerTo t l.url world k = .ok (s, body) := by
      rw [answerTo_eq hsendable, hreply, Reply.answer]
    obtain ⟨hnot, hended⟩ := not_retries (l := l) hdecides body
    have hask := asks_of_sendable hsendable hk hbefore (.inl (hanswer ▸ hnot))
    rwa [hanswer, hended] at hask
  · rw [hk] at hall ⊢
    have hlast : l.judgeOnce (answerTo t l.url world k) =
        .retryable ((replyTo t l.url world k).failure l.url) := by
      rw [answerTo_eq hsendable]
      exact judgeOnce_of_mayRetry (hall k (Nat.lt_succ_self k))
    have hask := asks_of_sendable hsendable (hk ▸ Nat.lt_succ_self k)
      (fun i hi => hall i (Nat.lt_succ_of_lt hi)) (.inr hk.symm)
    rwa [ended, hlast] at hask
  · rw [hk]
    exact asks_of_unsendable hunsendable hk.symm

/-- The document of a package, with the version behind the newest release's tag. -/
def tagsText : String := "\x7b\"dist-tags\": \x7b\"latest\": \"1.3.0\"\x7d\x7d"

/-- A registry that is out of service when it is asked for the first time. -/
def faltering : Transport Nat := fun _ asked =>
  (if asked = 0 then .answered ⟨503⟩ "" else .answered ⟨200⟩ tagsText, asked + 1)

/-- The lookup of the newest version of a package. -/
def leftPad : Lookup (Option String) :=
  ⟨⟨"https://registry.npmjs.org", ["left-pad"]⟩, Npm.readLatest, .packageMissing .npm "left-pad"⟩

/-- The version is asked for twice, with a pause in between, and read in the second reply. -/
theorem asks_exactly_faltering :
    Npm.latest "https://registry.npmjs.org" "left-pad" = .ok leftPad ∧
    (Request.getting leftPad.url).problem? = none ∧
    replyTo faltering leftPad.url 0 0 = .answered ⟨503⟩ "" ∧
    leftPad.Asks faltering 3 0 2 [.getting leftPad.url, .getting leftPad.url]
      (.ok (some (some "1.3.0"))) ∧
    (leftPad.run faltering 3 0).1 = ⟨.ok (some "1.3.0"), [100]⟩ := by
  have hsendable : (Request.getting leftPad.url).problem? = none := by decide +kernel
  have hfirst : replyTo faltering leftPad.url 0 0 = .answered ⟨503⟩ "" := rfl
  have hsecond : replyTo faltering leftPad.url 0 1 = .answered ⟨200⟩ tagsText := by
    rw [replyTo, worldAfter, send_eq hsendable]
    rfl
  have hreads : (Json.read? tagsText).bind leftPad.read = some (some "1.3.0") := by
    decide +kernel
  have hdecision : leftPad.decision ⟨200⟩ tagsText = .ok (some (some "1.3.0")) := by
    rw [decision, hreads]
    rfl
  have hretry : ∀ i < 1, (replyTo faltering leftPad.url 0 i).MayRetry := fun i hi => by
    obtain rfl := Nat.lt_one_iff.mp hi
    rw [hfirst]
    exact ⟨rfl, rfl⟩
  have hasks := ((asks_exactly leftPad faltering 3 0).1 hsendable).1 1 ⟨200⟩ tagsText (by decide)
    hretry hsecond (.inl rfl)
  rw [hdecision] at hasks
  exact ⟨rfl, hsendable, hfirst, hasks, congrArg Prod.fst hasks.run_eq⟩

end Lookup

end PackageGate.Http
