import Mathlib.Data.List.Dedup
import PackageGate.Proofs.Memo

/-!
# A registry behind a memo

Whoever asks through a memo sees what the registry has answered first with success, and the
registry sees each question no longer than it takes to answer it once.

- `Memo.Source`: a registry, whose answers may change from question to question.
- `Memo.serveAll`: questions asked one after another through a memo, each with what the registry
  is asked meanwhile.
- `Memo.firstSuccess?`, `Memo.Describes`, `Memo.serve_cases`: what a memo knows, and what one
  question adds to it.
- `Memo.Transparent`, `Memo.transparent_serveAll`: what is seen on both sides of a memo that was
  empty.
-/

namespace PackageGate

namespace Memo

/-! ## Both sides of a memo -/

/-- A question for a registry. -/
inductive Query
  | latest (name : String)
  | manifest (p : Package)
deriving DecidableEq

/-- A successful answer; a package may have no newest version. -/
inductive Answer
  | version (version : Option String)
  | manifest (m : Manifest)

/-- A question that the registry was asked, with its answer. -/
structure Exchange where
  query : Query
  reply : Except Failure Answer

/-- A registry. Its answers may depend on all that has happened, which its state tells. -/
structure Source (ω : Type) where
  latest : String → ω → Except Failure (Option String) × ω
  manifest : Package → ω → Except Failure Manifest × ω

variable {ω : Type}

/-- Asks the registry itself. -/
def Source.ask (s : Source ω) : Query → ω → Except Failure Answer × ω
  | .latest name, world =>
    let (reply, world) := s.latest name world
    (reply.map .version, world)
  | .manifest p, world =>
    let (reply, world) := s.manifest p world
    (reply.map .manifest, world)

/-- Asks the registry itself one question after another. -/
def Source.askAll (s : Source ω) : List Query → ω → List Exchange × ω
  | [], world => ([], world)
  | q :: qs, world =>
    let (reply, world) := s.ask q world
    let (rest, world) := s.askAll qs world
    (⟨q, reply⟩ :: rest, world)

/-- The registry, with a list of what it has been asked. -/
def Source.recording (s : Source ω) : Source (ω × List Exchange) where
  latest name := fun (world, asked) =>
    let (reply, world) := s.latest name world
    (reply, world, asked ++ [⟨.latest name, reply.map .version⟩])
  manifest p := fun (world, asked) =>
    let (reply, world) := s.manifest p world
    (reply, world, asked ++ [⟨.manifest p, reply.map .manifest⟩])

/-- Asks through the memo. -/
def ask (memo : Memo) (s : Source ω) : Query → ω → Except Failure Answer × Memo × ω
  | .latest name, world =>
    let (reply, memo, world) := memo.askLatest name (s.latest name) world
    (reply.map .version, memo, world)
  | .manifest p, world =>
    let (reply, memo, world) := memo.askManifest p (s.manifest p) world
    (reply.map .manifest, memo, world)

/-- A question asked through a memo: its answer, and what the registry was asked meanwhile. -/
structure Served where
  query : Query
  reply : Except Failure Answer
  asked : List Exchange

def serve (s : Source ω) (q : Query) (memo : Memo) (world : ω) : Served × Memo × ω :=
  let (reply, memo, world, asked) := memo.ask s.recording q (world, [])
  (⟨q, reply, asked⟩, memo, world)

/-- Asks one question after another through the memo. -/
def serveAll (s : Source ω) : List Query → Memo → ω → List Served × Memo × ω
  | [], memo, world => ([], memo, world)
  | q :: qs, memo, world =>
    let (served, memo, world) := serve s q memo world
    let (rest, memo, world) := serveAll s qs memo world
    (served :: rest, memo, world)

/-- What the registry was asked, in order. -/
def exchanges (served : List Served) : List Exchange := served.flatMap Served.asked

/-! ## What a memo knows -/

/-- The first success that a question was answered with. -/
def firstSuccess? (asked : List Exchange) (q : Query) : Option Answer :=
  asked.findSome? fun x => if x.query = q then x.reply.toOption else none

/-- The package whose manifest was answered with success. -/
def Exchange.fetched? : Exchange → Option Package
  | ⟨.manifest p, .ok _⟩ => some p
  | _ => none

/-- The remembered answer to a question. -/
def recalled? (memo : Memo) : Query → Option Answer
  | .latest name => (memo.latest? name).map .version
  | .manifest p => (memo.manifest? p).map .manifest

/-- After the exchanges `asked`, the memo knows of each question its first success. -/
structure Describes (asked : List Exchange) (memo : Memo) : Prop where
  recalled : ∀ q, memo.recalled? q = firstSuccess? asked q
  distinct : (memo.manifests.map Prod.fst).Nodup

/-- The memo has taken note of an exchange. -/
structure Notes (memo : Memo) (x : Exchange) (memo' : Memo) : Prop where
  recalled : ∀ q, memo'.recalled? q =
    if q = x.query then x.reply.toOption.or (memo.recalled? q) else memo.recalled? q
  distinct : (memo.manifests.map Prod.fst).Nodup → (memo'.manifests.map Prod.fst).Nodup

variable {s : Source ω} {asked : List Exchange} {memo : Memo} {q : Query} {world : ω}

/-- A new exchange counts where there was no success before. -/
theorem firstSuccess?_concat (asked : List Exchange) (x : Exchange) (q : Query) :
    firstSuccess? (asked ++ [x]) q =
      (firstSuccess? asked q).or (if x.query = q then x.reply.toOption else none) := by
  rw [firstSuccess?, List.findSome?_append, firstSuccess?]
  congr 1
  rw [List.findSome?_cons]
  split <;> simp_all

theorem toOption_map {α β : Type} (f : α → β) (x : Except Failure α) :
    (x.map f).toOption = x.toOption.map f := by
  cases x <;> rfl

theorem notes_latest (memo : Memo) (name : String) (reply : Except Failure (Option String)) :
    Notes memo ⟨.latest name, reply.map .version⟩ (memo.keepLatest name reply) where
  recalled q := by
    cases q with
    | latest name' =>
      show ((memo.keepLatest name reply).latest? name').map Answer.version = _
      rw [latest?_keepLatest]
      by_cases hname : name' = name
      · rw [if_pos hname, if_pos (congrArg Query.latest hname), toOption_map, Option.map_or]
        rfl
      · rw [if_neg hname, if_neg (fun heq => hname (Query.latest.inj heq))]
        rfl
    | manifest p =>
      rw [if_neg nofun]
      exact congrArg (Option.map Answer.manifest) (manifest?_keepLatest memo name reply p)
  distinct h := by
    cases reply <;> exact h

theorem notes_manifest (memo : Memo) (p : Package) (reply : Except Failure Manifest) :
    Notes memo ⟨.manifest p, reply.map .manifest⟩ (memo.keepManifest p reply) where
  recalled q := by
    cases q with
    | latest name =>
      rw [if_neg nofun]
      exact congrArg (Option.map Answer.version) (latest?_keepManifest memo p reply name)
    | manifest p' =>
      show ((memo.keepManifest p reply).manifest? p').map Answer.manifest = _
      rw [manifest?_keepManifest]
      by_cases hp : p' = p
      · rw [if_pos hp, if_pos (congrArg Query.manifest hp), toOption_map, Option.map_or]
        rfl
      · rw [if_neg hp, if_neg (fun heq => hp (Query.manifest.inj heq))]
        rfl
  distinct h := by
    cases reply with
    | error e => exact h
    | ok m =>
      -- What was kept for the package before is thrown away.
      show (p :: (memo.manifests.filter (·.1 ≠ p)).map Prod.fst).Nodup
      refine List.nodup_cons.2 ⟨fun hmem => ?_, h.sublist (List.filter_sublist.map _)⟩
      obtain ⟨y, hy, hyp⟩ := List.mem_map.1 hmem
      exact absurd hyp (by simpa using (List.mem_filter.1 hy).2)

/-- A question is answered from the memo, or else by the registry, which is asked once. -/
theorem serve_cases (s : Source ω) (q : Query) (memo : Memo) (world : ω) :
    (∃ a, memo.recalled? q = some a ∧ serve s q memo world = (⟨q, .ok a, []⟩, memo, world)) ∨
    (memo.recalled? q = none ∧ ∃ memo', Notes memo ⟨q, (s.ask q world).1⟩ memo' ∧
      serve s q memo world =
        (⟨q, (s.ask q world).1, [⟨q, (s.ask q world).1⟩]⟩, memo', (s.ask q world).2)) := by
  cases q with
  | latest name =>
    cases hlatest : memo.latest? name with
    | some version =>
      have hrecalled : memo.recalled? (.latest name) = some (.version version) := by
        rw [recalled?, hlatest, Option.map_some]
      refine .inl ⟨_, hrecalled, ?_⟩
      rw [serve, ask, askLatest, hlatest]
      rfl
    | none =>
      have hrecalled : memo.recalled? (.latest name) = none := by
        rw [recalled?, hlatest, Option.map_none]
      refine .inr ⟨hrecalled, _, notes_latest memo name (s.latest name world).1, ?_⟩
      rw [serve, ask, askLatest, hlatest]
      rfl
  | manifest p =>
    cases hmanifest : memo.manifest? p with
    | some m =>
      have hrecalled : memo.recalled? (.manifest p) = some (.manifest m) := by
        rw [recalled?, hmanifest, Option.map_some]
      refine .inl ⟨_, hrecalled, ?_⟩
      rw [serve, ask, askManifest, hmanifest]
      rfl
    | none =>
      have hrecalled : memo.recalled? (.manifest p) = none := by
        rw [recalled?, hmanifest, Option.map_none]
      refine .inr ⟨hrecalled, _, notes_manifest memo p (s.manifest p world).1, ?_⟩
      rw [serve, ask, askManifest, hmanifest]
      rfl

/-- What the memo takes note of is the first success, where none was known. -/
theorem Describes.note {x : Exchange} {memo' : Memo} (h : Describes asked memo)
    (hnone : memo.recalled? x.query = none) (hnotes : Notes memo x memo') :
    Describes (asked ++ [x]) memo' := by
  refine ⟨fun q => ?_, hnotes.distinct h.distinct⟩
  rw [hnotes.recalled, firstSuccess?_concat, ← h.recalled]
  by_cases hq : q = x.query
  · rw [if_pos hq, if_pos hq.symm, hq, hnone, Option.or_none, Option.none_or]
  · rw [if_neg hq, if_neg (Ne.symm hq), Option.or_none]

/-- How a question is served after the exchanges `asked`: with its first success, and then the
registry is left alone, or else with what the registry answers now. -/
def IsServedAfter (asked : List Exchange) (x : Served) : Prop :=
  match firstSuccess? asked x.query with
  | some a => x.reply = .ok a ∧ x.asked = []
  | none => x.asked = [⟨x.query, x.reply⟩]

/-- What is seen on both sides of a memo after the exchanges `before`: the questions `qs` have been
served, and the registry has been asked what the served ones say, in this order. -/
structure Sees (s : Source ω) (before : List Exchange) (qs : List Query) (world : ω)
    (served : List Served) (memo : Memo) (world' : ω) : Prop where
  queries : served.map (·.query) = qs
  isServed : ∀ as x bs, served = as ++ x :: bs → IsServedAfter (before ++ exchanges as) x
  exchanged : s.askAll ((exchanges served).map (·.query)) world = (exchanges served, world')
  describes : Describes (before ++ exchanges served) memo

theorem Source.askAll_append (s : Source ω) (qs rs : List Query) (world : ω) :
    s.askAll (qs ++ rs) world =
      ((s.askAll qs world).1 ++ (s.askAll rs (s.askAll qs world).2).1,
        (s.askAll rs (s.askAll qs world).2).2) := by
  induction qs generalizing world with
  | nil => rfl
  | cons q qs ih =>
    cases hask : s.ask q world with
    | mk reply next => simp only [List.cons_append, askAll, hask, ih]

/-- One more question in front, with what the registry is asked for it. -/
theorem Sees.cons {x : Served} {qs : List Query} {served : List Served} {memo' : Memo}
    {world' world'' : ω} (hx : x.query = q) (hserved : IsServedAfter asked x)
    (hasked : s.askAll (x.asked.map (·.query)) world = (x.asked, world'))
    (h : Sees s (asked ++ x.asked) qs world' served memo' world'') :
    Sees s asked (q :: qs) world (x :: served) memo' world'' where
  queries := by rw [List.map_cons, hx, h.queries]
  isServed as y bs heq := by
    cases as with
    | nil =>
      obtain ⟨rfl, -⟩ := List.cons.inj heq
      rw [exchanges, List.flatMap_nil, List.append_nil]
      exact hserved
    | cons z as =>
      obtain ⟨rfl, hrest⟩ := List.cons.inj heq
      rw [exchanges, List.flatMap_cons, ← List.append_assoc]
      exact h.isServed as y bs hrest
  exchanged := by
    rw [exchanges, List.flatMap_cons, List.map_append]
    have hrest : s.askAll ((served.flatMap Served.asked).map (·.query)) world' =
        (served.flatMap Served.asked, world'') := h.exchanged
    rw [Source.askAll_append, hasked, hrest]
  describes := by
    rw [exchanges, List.flatMap_cons, ← List.append_assoc]
    exact h.describes

/-- What is seen of questions that are served one after another. -/
theorem serveAll_sees (s : Source ω) (h : Describes asked memo) (qs : List Query) (world : ω) :
    Sees s asked qs world (serveAll s qs memo world).1 (serveAll s qs memo world).2.1
      (serveAll s qs memo world).2.2 := by
  induction qs generalizing asked memo world with
  | nil =>
    refine ⟨rfl, fun as x bs hnil => ?_, rfl, ?_⟩
    · exact absurd hnil.symm (List.append_ne_nil_of_right_ne_nil as (List.cons_ne_nil x bs))
    · exact (List.append_nil asked).symm ▸ h
  | cons q qs ih =>
    rw [serveAll]
    rcases serve_cases s q memo world with ⟨a, ha, hserve⟩ | ⟨hnone, memo', hnotes, hserve⟩
    · rw [hserve]
      refine Sees.cons rfl ?_ rfl (ih ?_ world)
      · rw [IsServedAfter, ← h.recalled, ha]
        exact ⟨rfl, rfl⟩
      · exact (List.append_nil asked).symm ▸ h
    · rw [hserve]
      refine Sees.cons rfl ?_ rfl (ih (h.note hnone hnotes) _)
      rw [IsServedAfter, ← h.recalled, hnone]

/-! ## A memo that was empty -/

theorem describes_empty : Describes [] empty where
  recalled q := by cases q <;> rfl
  distinct := List.nodup_nil

theorem mem_manifests (memo : Memo) (p : Package) :
    p ∈ memo.manifests.map Prod.fst ↔ (memo.manifest? p).isSome = true := by
  rw [manifest?, List.lookup_isSome_iff, List.mem_map]
  constructor
  · rintro ⟨x, hx, rfl⟩
    exact ⟨x, hx, beq_self_eq_true _⟩
  · rintro ⟨x, hx, heq⟩
    exact ⟨x, hx, (eq_of_beq heq).symm⟩

theorem mem_fetched (asked : List Exchange) (p : Package) :
    p ∈ asked.filterMap Exchange.fetched? ↔ (firstSuccess? asked (.manifest p)).isSome = true := by
  have hfetched : ∀ x : Exchange, x.fetched? = some p ↔
      (if x.query = .manifest p then x.reply.toOption else none).isSome = true := by
    rintro ⟨query, reply⟩
    cases query with
    | latest name => exact iff_of_false nofun (by simp)
    | manifest p' =>
      cases reply with
      | error e =>
        refine iff_of_false nofun ?_
        split <;> exact nofun
      | ok a =>
        show some p' = some p ↔ _
        by_cases hp : p' = p
        · simp [hp, Except.toOption]
        · simp [hp]
  rw [firstSuccess?, List.findSome?_isSome_iff, List.mem_filterMap]
  exact exists_congr fun x => and_congr_right fun _ => hfetched x

/-- A memo that knows the first successes keeps a manifest for each package that has one. -/
theorem Describes.manifestCount_eq (h : Describes asked memo) :
    memo.manifestCount = (asked.filterMap Exchange.fetched?).dedup.length := by
  have hmem : ∀ p, p ∈ memo.manifests.map Prod.fst ↔
      p ∈ (asked.filterMap Exchange.fetched?).dedup := by
    intro p
    have hrecalled : (memo.manifest? p).map Answer.manifest = firstSuccess? asked (.manifest p) :=
      h.recalled (.manifest p)
    rw [mem_manifests, List.mem_dedup, mem_fetched, ← hrecalled, Option.isSome_map]
  have hperm := (List.perm_ext_iff_of_nodup h.distinct (List.nodup_dedup _)).2 hmem
  rw [← hperm.length_eq, List.length_map]
  rfl

/-- The questions `qs` are served through a memo that was empty, from a registry in the state
`world`. -/
structure Transparent (s : Source ω) (qs : List Query) (world : ω) (served : List Served)
    (memo : Memo) (world' : ω) : Prop where
  queries : served.map (·.query) = qs
  /-- Each is answered with its first success, and the registry is left alone; or it has none yet,
  and the registry is asked once, and its answer is passed on. -/
  isServed : ∀ as x bs, served = as ++ x :: bs → IsServedAfter (exchanges as) x
  /-- That is all that the registry is asked. -/
  exchanged : s.askAll ((exchanges served).map (·.query)) world = (exchanges served, world')
  /-- As many manifests are remembered as packages have been answered with success. -/
  count : memo.manifestCount = ((exchanges served).filterMap Exchange.fetched?).dedup.length

/-- A memo that starts out empty is transparent. -/
theorem transparent_serveAll (s : Source ω) (qs : List Query) (world : ω) :
    Transparent s qs world (serveAll s qs empty world).1 (serveAll s qs empty world).2.1
      (serveAll s qs empty world).2.2 := by
  have h := serveAll_sees s describes_empty qs world
  exact ⟨h.queries, h.isServed, h.exchanged, h.describes.manifestCount_eq⟩

end Memo

end PackageGate
