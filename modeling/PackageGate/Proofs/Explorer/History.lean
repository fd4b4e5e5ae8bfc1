import PackageGate.Explorer
import PackageGate.Proofs.Walk.Owners

/-!
# The history of one walk

A run of the explorer is a run of each of its walks, with the steps of the others in
between. The history of one walk is read off the run.

- `Explorer.Move`, `Explorer.step_move`: the moves of the explorer.
- `Explorer.note?`, `Explorer.history`: the history of a walk in a run.
- `Explorer.called?`, `Explorer.calls`: what a walk asks for in a run.
- `Explorer.walk_invariant`: what every step of a walk keeps, every run keeps.
- `Explorer.Kept`: the walk that a run began keeps its accounts, or was given up.
-/

namespace PackageGate

namespace Explorer

/-- The moves of the explorer. -/
inductive Move (e : Explorer) : Label → Explorer → Prop
  | request {j t : Nat} {w w' : Walk} {p : Package} : e.walks[j]? = some w →
    w.step (.request t) = some w' → e.package? j t = some p → e.free ≠ 0 →
    e.remembered? p = none →
    Move e (.walk j (.request t))
      { e with walks := e.walks.set j w', free := e.free - 1, requests := e.requests ++ [p] }
  | answer {j t : Nat} {reply : Except Failure Manifest} {w w' : Walk} {p : Package} :
    e.walks[j]? = some w → w.step (.answer t reply) = some w' → e.package? j t = some p →
    Move e (.walk j (.answer t reply))
      { e with
        walks := e.walks.set j w'
        free := e.free + 1
        fetched := e.fetched + (if isAnswer reply then 1 else 0)
        memo := e.memo.map (·.keepManifest p reply) }
  | remember {j t : Nat} {w v w' : Walk} {p : Package} {m : Manifest} : e.walks[j]? = some w →
    e.package? j t = some p → e.remembered? p = some m → w.step (.request t) = some v →
    v.step (.answer t (.ok m)) = some w' → e.free ≠ 0 →
    Move e (.recall j t) { e with walks := e.walks.set j w', fetched := e.fetched + 1 }
  | start {j t : Nat} {w w' : Walk} : e.walks[j]? = some w → w.step (.start t) = some w' →
    Move e (.walk j (.start t)) { e with walks := e.walks.set j w' }
  | join {j t : Nat} {w w' : Walk} : e.walks[j]? = some w → w.step (.join t) = some w' →
    Move e (.walk j (.join t)) { e with walks := e.walks.set j w' }
  | finish {j t : Nat} {w w' : Walk} : e.walks[j]? = some w → w.step (.finish t) = some w' →
    Move e (.walk j (.finish t)) { e with walks := e.walks.set j w' }
  | cancel {j : Nat} {w w' : Walk} : e.walks[j]? = some w → w.step .cancel = some w' →
    Move e (.walk j .cancel)
      { e with
        walks := e.walks.set j w'
        free := e.free + (if w.isCalling Walk.rootId then 1 else 0) }
  | discard {j t : Nat} {w w' : Walk} : e.walks[j]? = some w → w.step (.discard t) = some w' →
    Move e (.walk j (.discard t))
      { e with walks := e.walks.set j w', free := e.free + (if w.isCalling t then 1 else 0) }

/-- Every step of the explorer is one of its moves. -/
theorem step_move {e e' : Explorer} {l : Label} (h : e.step l = some e') : Move e l e' := by
  cases l with
  | walk j l =>
    simp only [step, Option.bind_eq_bind, Option.bind_eq_some_iff] at h
    obtain ⟨w, hw, w', hw', h⟩ := h
    cases l with
    | request t =>
      simp only [Option.bind_eq_some_iff] at h
      obtain ⟨p, hp, h⟩ := h
      split at h <;> cases h
      rename_i hcond
      simp only [Bool.or_eq_true, decide_eq_true_eq, not_or, Bool.not_eq_true,
        Option.isSome_eq_false_iff, Option.isNone_iff_eq_none] at hcond
      exact .request hw hw' hp hcond.1 hcond.2
    | answer t reply =>
      simp only [Option.bind_eq_some_iff] at h
      obtain ⟨p, hp, h⟩ := h
      cases h
      exact .answer hw hw' hp
    | start t =>
      cases h
      exact .start hw hw'
    | join t =>
      cases h
      exact .join hw hw'
    | finish t =>
      cases h
      exact .finish hw hw'
    | cancel =>
      cases h
      exact .cancel hw hw'
    | discard t =>
      cases h
      exact .discard hw hw'
  | «recall» j t =>
    simp only [step, Option.bind_eq_bind, Option.bind_eq_some_iff] at h
    obtain ⟨p, hp, m, hm, w, hw, v, hv, w', hw', h⟩ := h
    split at h <;> cases h
    exact .remember hw hp hm hv hw' ‹_›

/-- The number of the walk that takes a step. -/
def Label.owner : Label → Nat
  | .walk j _ => j
  | .recall j _ => j

/-- What a step of the explorer adds to the history of the walk number `i`. -/
def note? (e : Explorer) (i : Nat) : Label → Option Walk.Entry
  | .walk j l => if j = i then (e.walks[i]?).bind (·.note? l) else none
  | .recall j t =>
    if j = i then do
      let p ← e.package? i t
      let m ← e.remembered? p
      let w ← e.walks[i]?
      let v ← w.step (.request t)
      v.note? (.answer t (.ok m))
    else none

/-- The history of the walk number `i` in a run from `e`. -/
def history (e : Explorer) (i : Nat) : List Label → List Walk.Entry
  | [] => []
  | l :: ls =>
    match e.step l with
    | some e' => (e.note? i l).toList ++ e'.history i ls
    | none => []

/-- The package that a step asks for on behalf of the walk number `i`. -/
def called? (i : Nat) (e : Explorer) : Label → Option Package
  | .walk j (.request t) | .recall j t => if j = i then e.package? i t else none
  | _ => none

/-- What the walk number `i` asks for in a run from `e`, from the registry or the memo. -/
def calls (e : Explorer) (i : Nat) (ls : List Label) : List Package := gather step (called? i) e ls

theorem history_append {e m : Explorer} {xs : List Label} (i : Nat) (ys : List Label)
    (h : Steps step e xs m) : e.history i (xs ++ ys) = e.history i xs ++ m.history i ys := by
  induction xs generalizing e with
  | nil =>
    rw [h.nil_inv]
    rfl
  | cons l xs ih =>
    obtain ⟨e', hstep, hrest⟩ := h.cons_inv
    rw [List.cons_append, history, history, hstep]
    show (e.note? i l).toList ++ e'.history i (xs ++ ys) = _
    rw [ih hrest, ← List.append_assoc]

theorem history_concat {e m e' : Explorer} {ls : List Label} {l : Label} (i : Nat)
    (h : Steps step e ls m) (hstep : m.step l = some e') :
    e.history i (ls ++ [l]) = e.history i ls ++ (m.note? i l).toList := by
  rw [history_append i [l] h]
  simp only [history, hstep, List.append_nil]

/-! ## One walk of many -/

variable {e e' e₀ : Explorer} {l : Label} {ls : List Label} {root : Package}

/-- What a move does to the walk number `i`: nothing, one step, or a request with its
remembered answer. -/
inductive Seen (e : Explorer) (i : Nat) (l : Label) (e' : Explorer) : Prop
  | aside : e'.walks[i]? = e.walks[i]? → e.note? i l = none → l.owner ≠ i → Seen e i l e'
  | step {k : Walk.Label} {w w' : Walk} : l = .walk i k → e.walks[i]? = some w →
    w.step k = some w' → e'.walks[i]? = some w' → e.note? i l = w.note? k → Seen e i l e'
  | remember {t : Nat} {p : Package} {m : Manifest} {w v w' : Walk} : l = .recall i t →
    e.package? i t = some p → e.remembered? p = some m → e.walks[i]? = some w →
    w.step (.request t) = some v → v.step (.answer t (.ok m)) = some w' →
    e'.walks[i]? = some w' → e.note? i l = v.note? (.answer t (.ok m)) → Seen e i l e'

theorem getElem?_set_self_of_some {ws : List Walk} {i : Nat} {w w' : Walk} (h : ws[i]? = some w) :
    (ws.set i w')[i]? = some w' :=
  List.getElem?_set_self (List.getElem?_eq_some_iff.mp h).1

/-- What a move does to each walk. -/
theorem Move.seen (h : Move e l e') (i : Nat) : Seen e i l e' := by
  -- A step of another walk is no step of this one.
  have haside : ∀ {w' : Walk} {l : Label} {e' : Explorer}, l.owner ≠ i →
      e'.walks = e.walks.set l.owner w' → e.note? i l = none → Seen e i l e' := by
    intro w' l e' hne hwalks hnote
    refine .aside ?_ hnote hne
    rw [hwalks, List.getElem?_set_ne hne]
  have hwalk : ∀ {j : Nat} {k : Walk.Label} {w w' : Walk} {e' : Explorer}, e.walks[j]? = some w →
      w.step k = some w' → e'.walks = e.walks.set j w' → Seen e i (.walk j k) e' := by
    intro j k w w' e' hw hw' hwalks
    by_cases hj : j = i
    · subst hj
      refine .step rfl hw hw' (by rw [hwalks, getElem?_set_self_of_some hw]) ?_
      simp only [note?, if_true, hw, Option.bind_some]
    · exact haside hj hwalks (if_neg hj)
  cases h with
  | request hw hw' _ _ _ => exact hwalk hw hw' rfl
  | answer hw hw' _ => exact hwalk hw hw' rfl
  | start hw hw' | join hw hw' | finish hw hw' => exact hwalk hw hw' rfl
  | cancel hw hw' => exact hwalk hw hw' rfl
  | discard hw hw' => exact hwalk hw hw' rfl
  | @remember j t w v w' p m hw hp hm hv hw' _ =>
    by_cases hj : j = i
    · subst hj
      refine .remember rfl hp hm hw hv hw' (getElem?_set_self_of_some hw) ?_
      simp only [note?, if_true, hp, hm, hw, hv, Option.bind_eq_bind, Option.bind_some]
    · exact haside hj rfl (if_neg hj)

/-- The walk keeps its accounts, unless it was given up. -/
def Kept (root : Package) (log : List Walk.Entry) (w : Walk) : Prop :=
  w.Gone ∨ Walk.Accounts root log w

theorem coe_append_note (log : List Walk.Entry) (x : Option Walk.Entry) :
    ((log ++ x.toList : List Walk.Entry) : Multiset Walk.Entry) = Walk.extend log x := by
  cases x with
  | none =>
    rw [Option.toList_none, List.append_nil]
    rfl
  | some x => exact Multiset.coe_eq_coe.mpr List.perm_append_comm

theorem Kept.step {log : List Walk.Entry} {w w' : Walk} {k : Walk.Label} (h : Kept root log w)
    (hstep : w.step k = some w') : Kept root (log ++ (w.note? k).toList) w' := by
  rcases h with hgone | haccounts
  · exact .inl (hgone.onward (Walk.step_onward hstep))
  · rcases Walk.gone_or_move haccounts.numbered hstep with hgone | hmove
    · exact .inl hgone
    · right
      rw [coe_append_note]
      exact haccounts.move hmove

/-! ## What a run keeps -/

theorem package?_eq {j : Nat} {w : Walk} (hw : e.walks[j]? = some w) (t : Nat) :
    e.package? j t = (w.task? t).map (·.package) := by
  simp only [package?, hw, Option.bind_eq_bind, Option.bind_some, Option.pure_def,
    Option.map_eq_bind]
  rfl

theorem result?_eq {j : Nat} {w : Walk} (hw : e.walks[j]? = some w) :
    e.result? j = w.result? := by
  simp only [result?, hw, Option.bind_eq_bind, Option.bind_some]

theorem note?_walk {i : Nat} {w : Walk} (hw : e.walks[i]? = some w) (k : Walk.Label) :
    e.note? i (.walk i k) = w.note? k := by
  simp only [note?, if_true, hw, Option.bind_some]

theorem called?_of_owner {i : Nat} (h : l.owner ≠ i) : e.called? i l = none := by
  cases l with
  | walk j k =>
    cases k with
    | request t => exact if_neg h
    | start | answer | join | finish | cancel | discard => rfl
  | «recall» j t => exact if_neg h

theorem called?_walk {i : Nat} {w : Walk} (hw : e.walks[i]? = some w) (k : Walk.Label) :
    e.called? i (.walk i k) = w.sent? k := by
  cases k with
  | request t =>
    show (if i = i then e.package? i t else none) = _
    rw [if_pos rfl, package?_eq hw]
    rfl
  | start | answer | join | finish | cancel | discard => rfl

theorem called?_recall {i : Nat} {w : Walk} (hw : e.walks[i]? = some w) (t : Nat) :
    e.called? i (.recall i t) = w.sent? (.request t) := called?_walk hw (.request t)

theorem calls_concat {m : Explorer} (i : Nat) (h : Steps step e ls m)
    (hstep : m.step l = some e') :
    e.calls i (ls ++ [l]) = e.calls i ls ++ (m.called? i l).toList :=
  gather_concat h hstep

/-- What every step of a walk keeps, with what it asks for and what becomes of that, every run
keeps. -/
theorem walk_invariant {P : List Package → List Walk.Entry → Walk → Prop}
    (hstep : ∀ {sent log w w' k}, P sent log w → w.step k = some w' →
      P (sent ++ (w.sent? k).toList) (log ++ (w.note? k).toList) w')
    (hroot : P [] [] (.ofRoot root)) (h : Steps step (e₀.begin root) ls e) :
    ∃ w, e.walks[e₀.nextWalk]? = some w ∧
      P ((e₀.begin root).calls e₀.nextWalk ls) ((e₀.begin root).history e₀.nextWalk ls) w := by
  induction h with
  | refl => exact ⟨.ofRoot root, List.getElem?_concat_length, hroot⟩
  | @tail ls m l u hm hl ih =>
    obtain ⟨w, hw, hP⟩ := ih
    rw [history_concat _ hm hl, calls_concat _ hm hl]
    cases (step_move hl).seen e₀.nextWalk with
    | aside hsame hnote howner =>
      rw [hnote, called?_of_owner howner, Option.toList_none, Option.toList_none, List.append_nil,
        List.append_nil]
      exact ⟨w, hsame.trans hw, hP⟩
    | @step k _ w' hlabel hw' hk hnext hnote =>
      obtain rfl := Option.some.inj (hw.symm.trans hw')
      subst hlabel
      rw [hnote, called?_walk hw]
      exact ⟨w', hnext, hstep hP hk⟩
    | @remember t p reply _ v w' hlabel hp _ hw' hrequest hanswer hnext hnote =>
      obtain rfl := Option.some.inj (hw.symm.trans hw')
      subst hlabel
      -- The request goes out first, then its answer is told.
      have hlast := hstep (hstep hP hrequest) hanswer
      rw [show v.sent? (.answer t (.ok reply)) = none from rfl,
        show w.note? (.request t) = none from rfl, Option.toList_none, List.append_nil,
        Option.toList_none, List.append_nil] at hlast
      rw [hnote, called?_recall hw]
      exact ⟨w', hnext, hlast⟩

/-- In every run, the walk that it began with keeps its accounts or has been given up. -/
theorem kept_of_steps (h : Steps step (e₀.begin root) ls e) :
    ∃ w, e.walks[e₀.nextWalk]? = some w ∧
      Kept root ((e₀.begin root).history e₀.nextWalk ls) w :=
  walk_invariant (P := fun _ log w => Kept root log w) Kept.step
    (.inr (Walk.Accounts.ofRoot root)) h

/-- A walk that has come to a result has not been given up. -/
theorem settled_of_steps {r : Except Failure Tree} (h : Steps step (e₀.begin root) ls e)
    (hr : e.result? e₀.nextWalk = some r) :
    ∃ w, e.walks[e₀.nextWalk]? = some w ∧ w.result? = some r ∧
      Walk.Accounts root ((e₀.begin root).history e₀.nextWalk ls) w := by
  obtain ⟨w, hw, hkept⟩ := kept_of_steps h
  have hresult : w.result? = some r := (result?_eq hw).symm.trans hr
  rcases hkept with hgone | haccounts
  · rw [hgone.result?_eq_none] at hresult
    cases hresult
  · exact ⟨w, hw, hresult, haccounts⟩

end Explorer

end PackageGate
