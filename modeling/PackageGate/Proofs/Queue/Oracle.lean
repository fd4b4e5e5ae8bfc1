import PackageGate.Proofs.Queue.Exact

/-!
# A service with fixed answers

Where the analysis service answers the same question always alike, what a scan finds does
not depend on the order of steps: the verdict on a key is known in advance.

- `Queue.Oracle`: the fixed answers; `Queue.Oracle.finding?`: what they say of a key.
- `Queue.stepUnder`: the steps under an oracle.
- `Queue.Served`: the reports that are asked for are those of the submissions made.
- `Queue.Entry.finding?_eq`: every verdict on an item is the one that the oracle has on its key.
- `Queue.Completed.mem_findings`: what a call that ends well adds to the findings.
-/

namespace PackageGate

namespace Queue

/-- A service that answers the same submission, and the same request for a report, always
alike. -/
structure Oracle where
  submit : Package → Except Failure String
  report : String → Except Failure (Option Report)

/-- The finding that the service has on a key. -/
def Oracle.finding? (o : Oracle) (key : String) : Option Finding :=
  match Package.ofSpec key with
  | .error _ => none
  | .ok p =>
    match o.submit p with
    | .error _ => none
    | .ok id => findingOf key p (o.report id)

/-- Whether a label, where it is an answer of the service, is the oracle's. -/
def obeys (o : Oracle) (q : Queue) : Label → Bool
  | .submitted w reply =>
    match q.workers[w]? with
    | some (.submitting _ p) => reply = o.submit p
    | _ => true
  | .reported w reply =>
    match q.workers[w]? with
    | some (.reporting _ _ id) => reply = o.report id
    | _ => true
  | _ => true

/-- The steps of the queue where the service answers as the oracle says. -/
def stepUnder (o : Oracle) (q : Queue) (l : Label) : Option Queue :=
  if q.obeys o l then q.step l else none

variable {o : Oracle} {q₀ q q' : Queue} {keys : List String} {l : Label} {ls : List Label}
  {x : Entry}

theorem step_of_stepUnder (h : q.stepUnder o l = some q') : q.obeys o l ∧ q.step l = some q' := by
  unfold stepUnder at h
  split at h
  · exact ⟨‹_›, h⟩
  · cases h

theorem steps_of_stepUnder (h : Steps (stepUnder o) q ls q') : Steps step q ls q' :=
  h.mono fun hstep => (step_of_stepUnder hstep).2

/-- A finding on a key carries this key. -/
theorem findingOf_key {key : String} {p : Package} {reply : Except Failure (Option Report)}
    {y : Finding} (h : findingOf key p reply = some y) : y.key = key := by
  unfold findingOf at h
  split at h
  · split at h
    · split at h
      · cases h
        rfl
      · cases h
    · cases h
  · cases h

/-- The oracle's finding for a key is about this key. -/
theorem Oracle.finding?_key {key : String} {y : Finding} (h : o.finding? key = some y) :
    y.key = key := by
  unfold Oracle.finding? at h
  split at h
  · cases h
  · split at h
    · cases h
    · exact findingOf_key h

/-! ## What the oracle says of the entries -/

/-- The reports that workers wait for are those of submissions that the service has accepted. -/
def Served (o : Oracle) (q : Queue) : Prop :=
  ∀ item p id, .reporting item p id ∈ q.workers → o.submit p = .ok id

/-- What becomes of an item comes from the answers of the oracle. -/
def Entry.Told (o : Oracle) : Entry → Prop
  | refused _ p e => o.submit p = .error e
  | judged _ p id reply => o.submit p = .ok id ∧ reply = o.report id
  | _ => True

/-- An idle queue waits for no report. -/
theorem served_of_idle (h : q.held = []) : q.Served o := by
  intro item p id hmem
  have hnone := List.filterMap_eq_nil_iff.mp h _ hmem
  cases hnone

/-- A move that obeys the oracle waits for reports of accepted submissions only. -/
theorem Move.served (h : Move q l q') (hobeys : q.obeys o l) (hq : q.Served o) :
    q'.Served o := by
  have hset : ∀ {w : Nat} {s : Worker}, (∀ item p id, s = .reporting item p id →
      o.submit p = .ok id) → ∀ item p id, .reporting item p id ∈ q.workers.set w s →
      o.submit p = .ok id := by
    intro w s hs item p id hmem
    rcases List.mem_or_eq_of_mem_set hmem with hmem | rfl
    · exact hq item p id hmem
    · exact hs item p id rfl
  cases h with
  | @call c =>
    cases c with
    | analyzeAll keys => cases keys <;> exact hq
    | enqueue | drain | shutdown => exact hq
  | settle | abandon | cancel | closed | offer => exact hq
  | listen | leave | discard | reject | unsubmitted | abort | submit => exact hset nofun
  | @submitted w item p id hw =>
    have hreply : .ok id = o.submit p := by simpa [obeys, hw] using hobeys
    refine hset fun item' p' id' hs => ?_
    cases hs
    exact hreply.symm
  | @reported w item p id reply hw =>
    rcases judge_eq q item p reply with hj | ⟨_, hj⟩ <;> rw [hj] <;> exact hset nofun

theorem served_of_steps (h : Steps (stepUnder o) q ls q') (hq : q.Served o) : q'.Served o :=
  h.invariant (fun hm hstep =>
    (step_move (step_of_stepUnder hstep).2).served (step_of_stepUnder hstep).1 hm) hq

/-- What a step tells of an item comes from the answers of the oracle. -/
theorem Move.told (h : Move q l q') (hobeys : q.obeys o l) (hq : q.Served o)
    (hx : q.event? l = some (.ended x)) : x.Told o := by
  cases h with
  | call | settle | abandon | cancel | closed | listen | leave => cases hx
  | offer _ hoffer =>
    rw [event?, hoffer] at hx
    cases hx
  | discard _ hch hepoch =>
    simp only [event?, hch, ne_eq, hepoch, not_false_eq_true, if_true] at hx
    cases hx
    trivial
  | reject _ hch hepoch hspec =>
    simp only [event?, hch, ne_eq, hepoch, not_true_eq_false, if_false, hspec] at hx
    cases hx
    trivial
  | submit _ hch hepoch hspec =>
    simp only [event?, hch, ne_eq, hepoch, not_true_eq_false, if_false, hspec] at hx
    cases hx
  | submitted hw =>
    simp only [event?, hw] at hx
    cases hx
  | @unsubmitted w item p e hw =>
    simp only [event?, hw] at hx
    cases hx
    have hreply : .error e = o.submit p := by simpa [obeys, hw] using hobeys
    exact hreply.symm
  | @reported w item p id reply hw =>
    simp only [event?, hw] at hx
    by_cases hepoch : item.epoch = q.epoch
    · rw [if_pos hepoch] at hx
      cases hx
      have hreply : reply = o.report id := by simpa [obeys, hw] using hobeys
      exact ⟨hq item p id (List.mem_of_getElem? hw), hreply⟩
    · rw [if_neg hepoch] at hx
      cases hx
      trivial
  | abort hw hitem hepoch =>
    simp only [event?, hw, hitem, Option.bind_eq_bind, Option.bind_some] at hx
    cases hx
    trivial

/-- Everything that is told of items in a run under the oracle comes from its answers. -/
theorem told_of_steps (h : Steps (stepUnder o) q ls q') (hq : q.Served o)
    (hx : x ∈ q.entries ls) : x.Told o := by
  induction h with
  | refl => cases hx
  | @tail ls m l u hm hstep ih =>
    rw [entries, events, gather_concat (steps_of_stepUnder hm) (step_of_stepUnder hstep).2,
      List.flatMap_append] at hx
    rcases List.mem_append.mp hx with hx | hx
    · exact ih hx
    · obtain ⟨e, he, hx⟩ := List.mem_flatMap.mp hx
      cases e with
      | ended y =>
        obtain rfl : x = y := by simpa [Event.entries] using hx
        obtain ⟨hobeys, hstep⟩ := step_of_stepUnder hstep
        exact (step_move hstep).told hobeys (served_of_steps hm hq) (Option.mem_toList.mp he)
      | put | asked => cases hx

/-- The verdict on an item that has been dealt with is the one that the oracle has on its key. -/
theorem Entry.finding?_eq (hright : x.Right) (htold : x.Told o) :
    x.finding? = o.finding? x.item.key := by
  match x, hright, htold with
  | .rejected item, ⟨why, hwhy⟩, _ =>
    show none = o.finding? item.key
    rw [Oracle.finding?, hwhy]
  | .refused item p e, hp, he =>
    have he : o.submit p = .error e := he
    show none = o.finding? item.key
    simp only [Oracle.finding?, show Package.ofSpec item.key = .ok p from hp, he]
  | .judged item p id reply, hp, ⟨hid, hreply⟩ =>
    show findingOf item.key p reply = o.finding? item.key
    simp only [Oracle.finding?, show Package.ofSpec item.key = .ok p from hp, hid, hreply]

/-- What a call that ends well adds to the findings: what the oracle has on the keys, and on
what was left over of the epoch, as far as nothing was known of them. -/
theorem Completed.mem_findings (h : Completed q₀ keys ls q)
    (hrun : Steps (stepUnder o) (q₀.beginCall (.analyzeAll keys)) ls q) (hserved : q₀.Served o)
    {y : Finding} : y ∈ q.findings.snapshot ↔ y ∈ q₀.findings.snapshot ∨
      (q₀.findings.contains y.key = false ∧ y.key ∈ q₀.unfinished.map Item.key ++ keys ∧
        o.finding? y.key = some y) := by
  have hserved : (q₀.beginCall (.analyzeAll keys)).Served o := by
    cases keys <;> exact hserved
  have hfinding : ∀ x ∈ q₀.ownEntries keys ls, x.finding? = o.finding? x.item.key :=
    fun x hx => Entry.finding?_eq (h.own_right hx)
      (told_of_steps hrun hserved (List.mem_filter.mp hx).1)
  have hkey : ∀ key, key ∈ q₀.unfinished.map Item.key ++ keys ↔
      ∃ x ∈ q₀.ownEntries keys ls, x.item.key = key := by
    intro key
    have hperm := h.own_items.map Item.key
    rw [List.map_append, List.map_map, List.map_map] at hperm
    have hmem := hperm.mem_iff (a := key)
    rw [show keys.map (Item.key ∘ fun key => (⟨key, q₀.epoch⟩ : Item)) = keys from
      List.map_id _] at hmem
    rw [← hmem, List.mem_map]
    rfl
  rw [h.findings, Findings.mem_recordAll h.valid.isSorted]
  refine or_congr_right (and_congr_right fun _ => ?_)
  rw [hkey]
  constructor
  · intro hfind
    have hmem := List.mem_of_find?_eq_some hfind
    obtain ⟨x, hx, hxy⟩ := List.mem_filterMap.mp hmem
    rw [hfinding x hx] at hxy
    have hxkey := Oracle.finding?_key hxy
    exact ⟨⟨x, hx, hxkey.symm⟩, by rw [hxkey]; exact hxy⟩
  · rintro ⟨⟨x, hx, hxkey⟩, hy⟩
    -- All verdicts on one key are the same, so the first one is this one.
    have hmem : y ∈ (q₀.ownEntries keys ls).filterMap Entry.finding? :=
      List.mem_filterMap.mpr ⟨x, hx, by rw [hfinding x hx, hxkey]; exact hy⟩
    cases hfind : ((q₀.ownEntries keys ls).filterMap Entry.finding?).find? (·.key = y.key) with
    | none => exact absurd (List.find?_eq_none.mp hfind y hmem) (by simp)
    | some z =>
      have hzkey : z.key = y.key := by simpa using List.find?_some hfind
      obtain ⟨x', hx', hz⟩ := List.mem_filterMap.mp (List.mem_of_find?_eq_some hfind)
      rw [hfinding x' hx'] at hz
      have hxkey' : x'.item.key = y.key := (Oracle.finding?_key hz).symm.trans hzkey
      rw [hxkey', hy] at hz
      exact hz.symm

end Queue

end PackageGate
