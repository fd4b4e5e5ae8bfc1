import PackageGate.Proofs.Queue.Moves

/-!
# The analysis of a list of keys

A caller has the keys of one root analyzed: it puts them into the channel one by
one and then waits until nothing is pending. Between the first key and the end of
the call, every key that names a package is still with the caller, waits in the
channel, or has been submitted.

- `Queue.Feeding`: this, as a condition on the queue while the call is going on.
- `Queue.Feeding.of_beginCall`, `Queue.Feeding.move`: it holds when the call begins
  and is kept by every move but those with which a caller begins or gives up.
- `Queue.Feeding.submitted`: so a call that ends has had all packages submitted.
-/

namespace PackageGate

namespace Queue

/-- The keys that a caller has not put into the channel yet. -/
def Caller.unfed : Caller → List String
  | .feeding keys => keys
  | _ => []

/-- Of a list of keys the caller puts the first one, and goes on with the others. -/
theorem Caller.offer?_feeding {rest : List String} {key : String} {next : Caller}
    (h : (Caller.feeding rest).offer? = some (key, next)) :
    rest = key :: next.unfed ∧ (next = .draining ∨ ∃ ks, next = .feeding ks) := by
  match rest, h with
  | [k], h =>
    cases h
    exact ⟨rfl, .inl rfl⟩
  | k :: k' :: ks, h =>
    cases h
    exact ⟨rfl, .inr ⟨_, rfl⟩⟩

/-- `p` has been submitted after the submissions `before`. -/
def SubmittedAfter (before : List Package) (q : Queue) (p : Package) : Prop :=
  ∃ after, q.submissions = before ++ after ∧ p ∈ after

theorem SubmittedAfter.mono {before : List Package} {q q' : Queue} {p : Package}
    (h : SubmittedAfter before q p) (hsub : q.submissions <+: q'.submissions) :
    SubmittedAfter before q' p := by
  obtain ⟨after, hafter, hp⟩ := h
  obtain ⟨more, hmore⟩ := hsub
  exact ⟨after ++ more, by rw [← hmore, hafter, List.append_assoc], List.mem_append_left _ hp⟩

/-- The call that has `keys` analyzed in the epoch `epoch` is going on, after the
submissions `before`. -/
structure Feeding (epoch : Nat) (before : List Package) (keys : List String) (q : Queue) :
    Prop where
  epoch_eq : q.epoch = epoch
  submissions : before <+: q.submissions
  covered : ∀ key ∈ keys, ∀ p, Package.ofSpec key = .ok p →
    key ∈ q.caller.unfed ∨ ⟨key, epoch⟩ ∈ q.channel ∨ SubmittedAfter before q p
  caller : (∃ rest, q.caller = .feeding rest) ∨ q.caller = .draining ∨
    (q.caller = .returned .finished ∧ q.channel = [] ∧ q.held = [])

variable {epoch : Nat} {before : List Package} {keys : List String} {q q' : Queue} {l : Label}

/-- The call begins with all keys still at the caller. -/
theorem Feeding.of_beginCall (hepoch : q.epoch = epoch) (hsub : before <+: q.submissions) :
    Feeding epoch before keys (q.beginCall (.analyzeAll keys)) := by
  cases keys with
  | nil => exact ⟨hepoch, hsub, nofun, .inr (.inl rfl)⟩
  | cons key rest => exact ⟨hepoch, hsub, fun _ hk _ _ => .inl hk, .inl ⟨_, rfl⟩⟩

/-- A change that leaves caller, channel and epoch alone, and is not made after the end
of the call, keeps the condition. -/
theorem Feeding.frame (h : Feeding epoch before keys q) (hcaller : q'.caller = q.caller)
    (hchannel : q'.channel = q.channel) (hepoch : q'.epoch = q.epoch)
    (hsub : q.submissions <+: q'.submissions) (hheld : q.held = [] → q'.held = []) :
    Feeding epoch before keys q' where
  epoch_eq := hepoch.trans h.epoch_eq
  submissions := h.submissions.trans hsub
  covered key hkey p hp := by
    rw [hcaller, hchannel]
    exact (h.covered key hkey p hp).imp_right (Or.imp_right (·.mono hsub))
  caller := by
    rw [hcaller, hchannel]
    exact h.caller.imp_right (Or.imp_right fun ⟨hret, hch, hh⟩ => ⟨hret, hch, hheld hh⟩)

/-- An item that leaves the channel must have been submitted if it was one of the call's. -/
theorem Feeding.pop {item : Item} {rest : List Item} (h : Feeding epoch before keys q)
    (hch : q.channel = item :: rest) (hcaller : q'.caller = q.caller) (hchannel : q'.channel = rest)
    (hepoch : q'.epoch = q.epoch) (hsub : q.submissions <+: q'.submissions)
    (hitem : item.epoch = epoch → ∀ p, Package.ofSpec item.key = .ok p →
      SubmittedAfter before q' p) : Feeding epoch before keys q' where
  epoch_eq := hepoch.trans h.epoch_eq
  submissions := h.submissions.trans hsub
  covered key hkey p hp := by
    rw [hcaller, hchannel]
    rcases h.covered key hkey p hp with hk | hk | hk
    · exact .inl hk
    · rw [hch] at hk
      rcases List.mem_cons.mp hk with rfl | hk
      · exact .inr (.inr (hitem rfl p hp))
      · exact .inr (.inl hk)
    · exact .inr (.inr (hk.mono hsub))
  caller := by
    rw [hcaller]
    rcases h.caller with hc | hc | ⟨-, hempty, -⟩
    · exact .inl hc
    · exact .inr (.inl hc)
    · rw [hch] at hempty
      cases hempty

/-- No move of a worker, and no move with which the caller goes on, leaves a key behind. -/
theorem Feeding.move (h : Feeding epoch before keys q) (hq : q.Accounted) (hmove : Move q l q')
    (hcall : ∀ c, l ≠ .call c) (htimeout : l ≠ .timeout) : Feeding epoch before keys q' := by
  have hsub := hmove.submissions_mono
  have hbusy : ∀ {w : Nat} {s : Worker} {item : Item}, q.workers[w]? = some s →
      s.item? = some item → q.held ≠ [] := by
    intro w s item hw hs hnil
    have hmem := mem_held hw hs
    rw [hnil] at hmem
    cases hmem
  cases hmove with
  | call => exact absurd rfl (hcall _)
  | cancel => exact absurd rfl htimeout
  | abandon => exact absurd rfl htimeout
  | @offer key next hfull hoffer =>
    -- The key goes from the caller to the end of the channel.
    obtain ⟨rest, hc⟩ : ∃ rest, q.caller = .feeding rest := by
      rcases h.caller with hc | hc | ⟨hc, -⟩
      · exact hc
      · simp [hc, Caller.offer?] at hoffer
      · simp [hc, Caller.offer?] at hoffer
    have hnext := Caller.offer?_feeding (hc ▸ hoffer)
    refine ⟨h.epoch_eq, h.submissions, fun k hk p hp => ?_, ?_⟩
    · show k ∈ next.unfed ∨ ⟨k, epoch⟩ ∈ q.channel ++ [⟨key, q.epoch⟩] ∨ SubmittedAfter before q p
      rcases h.covered k hk p hp with hk | hk | hk
      · rw [hc, Caller.unfed, hnext.1] at hk
        rcases List.mem_cons.mp hk with rfl | hk
        · rw [h.epoch_eq]
          exact .inr (.inl (List.mem_append_right _ List.mem_cons_self))
        · exact .inl hk
      · exact .inr (.inl (List.mem_append_left _ hk))
      · exact .inr (.inr hk)
    · exact hnext.2.elim (fun hn => .inr (.inl hn)) .inl
  | settle hc hpending =>
    obtain ⟨hch, hh⟩ := hq.idle hpending
    refine ⟨h.epoch_eq, h.submissions, fun k hk p hp => ?_, .inr (.inr ⟨rfl, hch, hh⟩)⟩
    have := h.covered k hk p hp
    rw [hc] at this
    exact this
  | closed hc =>
    rcases h.caller with ⟨_, hc'⟩ | hc' | ⟨hc', -⟩ <;> rw [hc] at hc' <;> cases hc'
  | listen hw => exact h.frame rfl rfl rfl hsub fun hnil => held_setWorker_eq_nil hnil hw rfl
  | leave hw => exact h.frame rfl rfl rfl hsub fun hnil => held_setWorker_eq_nil hnil hw rfl
  | discard hw hch hepoch =>
    exact h.pop hch rfl rfl rfl hsub fun he => absurd (he.trans h.epoch_eq.symm) hepoch
  | reject hw hch hepoch hspec =>
    refine h.pop hch rfl rfl rfl hsub fun _ p hp => ?_
    rw [hspec] at hp
    cases hp
  | @submit w item rest p hw hch hepoch hspec =>
    refine h.pop hch rfl rfl rfl hsub fun _ p' hp => ?_
    rw [hspec] at hp
    cases hp
    obtain ⟨between, hbetween⟩ := h.submissions
    refine ⟨between ++ [p], ?_, List.mem_append_right _ List.mem_cons_self⟩
    show q.submissions ++ [p] = before ++ (between ++ [p])
    rw [← hbetween, List.append_assoc]
  | submitted hw => exact h.frame rfl rfl rfl hsub fun hnil => absurd hnil (hbusy hw rfl)
  | unsubmitted hw => exact h.frame rfl rfl rfl hsub fun hnil => absurd hnil (hbusy hw rfl)
  | @reported w item p id reply hw =>
    rcases judge_eq q item p reply with hj | ⟨_, hj⟩ <;> rw [hj] at hsub ⊢ <;>
      exact h.frame rfl rfl rfl hsub fun hnil => absurd hnil (hbusy hw rfl)
  | abort hw hitem => exact h.frame rfl rfl rfl hsub fun hnil => absurd hnil (hbusy hw hitem)

/-- When the call has ended, every key that names a package has been submitted. -/
theorem Feeding.submitted (h : Feeding epoch before keys q)
    (hret : q.caller = .returned .finished) {key : String} (hkey : key ∈ keys) {p : Package}
    (hp : Package.ofSpec key = .ok p) : SubmittedAfter before q p := by
  have hch : q.channel = [] := by
    rcases h.caller with ⟨_, hc⟩ | hc | ⟨-, hch, -⟩
    · rw [hret] at hc
      cases hc
    · rw [hret] at hc
      cases hc
    · exact hch
  have := h.covered key hkey p hp
  rw [hret, hch] at this
  simpa [Caller.unfed] using this

end Queue

end PackageGate
