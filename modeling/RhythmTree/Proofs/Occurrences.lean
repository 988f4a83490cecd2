import RhythmTree.Proofs.Forms

/-!
# Tokens where they stand

What a token leaves in a score depends on the tokens before it, and often on the latest one of a
kind. An occurrence is a token of a stream together with the tokens before it.

* `occurrences`, `occurrences_concat`, `mem_occurrences`: the tokens of a stream, each with those
  before it.
* `latest`: the text of the latest token under a keyword.
-/

namespace RhythmTree

/-- A token of a stream, and the tokens before it. -/
structure Occurrence where
  before : List Token
  token : Token

/-- The number of the token in its stream. -/
def Occurrence.index (o : Occurrence) : Nat := o.before.length

/-- The tokens behind some tokens, each with all those before it. -/
def occurrencesFrom (before : List Token) : List Token → List Occurrence
  | [] => []
  | t :: rest => ⟨before, t⟩ :: occurrencesFrom (before ++ [t]) rest

/-- The tokens of a stream in order, each with those before it. -/
def occurrences (ts : List Token) : List Occurrence := occurrencesFrom [] ts

theorem occurrencesFrom_append (before ts us : List Token) :
    occurrencesFrom before (ts ++ us) =
      occurrencesFrom before ts ++ occurrencesFrom (before ++ ts) us := by
  induction ts generalizing before with
  | nil => rw [List.nil_append, List.append_nil, occurrencesFrom, List.nil_append]
  | cons t rest ih =>
    rw [List.cons_append, occurrencesFrom, occurrencesFrom, ih, List.append_assoc, List.cons_append]
    rfl

theorem occurrences_concat (ts : List Token) (t : Token) :
    occurrences (ts ++ [t]) = occurrences ts ++ [⟨ts, t⟩] :=
  occurrencesFrom_append [] ts [t]

theorem filterMap_occurrences_concat {α : Type} (f : Occurrence → Option α) (ts : List Token)
    (t : Token) : (occurrences (ts ++ [t])).filterMap f =
      (occurrences ts).filterMap f ++ (f ⟨ts, t⟩).toList := by
  rw [occurrences_concat, List.filterMap_append]
  cases h : f ⟨ts, t⟩ with
  | none => rw [List.filterMap_cons_none h]; rfl
  | some a => rw [List.filterMap_cons_some h]; rfl

theorem mem_occurrences {ts : List Token} {o : Occurrence} :
    o ∈ occurrences ts ↔ ∃ after, ts = o.before ++ o.token :: after := by
  constructor
  · intro h
    induction ts using List.reverseRecOn with
    | nil => cases h
    | append_singleton ts t ih =>
      rw [occurrences_concat, List.mem_append, List.mem_singleton] at h
      rcases h with h | rfl
      · obtain ⟨after, e⟩ := ih h
        exact ⟨after ++ [t], by rw [← List.cons_append, ← List.append_assoc, ← e]⟩
      · exact ⟨[], rfl⟩
  · rintro ⟨after, rfl⟩
    rw [occurrences, occurrencesFrom_append, List.nil_append, occurrencesFrom]
    exact List.mem_append_right _ List.mem_cons_self

theorem Occurrence.before_isPrefix {ts : List Token} {o : Occurrence} (h : o ∈ occurrences ts) :
    o.before <+: ts := by
  obtain ⟨after, e⟩ := mem_occurrences.mp h
  exact e ▸ List.prefix_append _ _

theorem Occurrence.token_mem {ts : List Token} {o : Occurrence} (h : o ∈ occurrences ts) :
    o.token ∈ ts := by
  obtain ⟨after, e⟩ := mem_occurrences.mp h
  exact e ▸ List.mem_append_right _ List.mem_cons_self

theorem occurrences_pairwise (ts : List Token) :
    (occurrences ts).Pairwise fun o o' => o.before <+: o'.before := by
  induction ts using List.reverseRecOn with
  | nil => exact .nil
  | append_singleton ts t ih =>
    rw [occurrences_concat, List.pairwise_append]
    refine ⟨ih, List.pairwise_singleton _ _, fun o ho o' ho' => ?_⟩
    rw [List.mem_singleton.mp ho']
    exact Occurrence.before_isPrefix ho

/-- A list that tokens only add to tells what each of them has added. -/
theorem log_reached {α : Type} {view : BuilderState → List α} {entries : Occurrence → List α}
    {ts : List Token} (start : view {} = [])
    (step : ∀ before, ∀ t ∈ ts, view ((BuilderState.reached before).after before.length t) =
      view (BuilderState.reached before) ++ entries ⟨before, t⟩) :
    view (BuilderState.reached ts) = (occurrences ts).flatMap entries := by
  induction ts using List.reverseRecOn with
  | nil => exact start
  | append_singleton ts t ih =>
    have h := ih fun before u hu => step before u (List.mem_append_left _ hu)
    rw [BuilderState.reached_concat, step ts t (by simp), h, occurrences_concat,
      List.flatMap_append, List.flatMap_singleton]

/-! ### The latest text under a keyword -/

/-- The text that a token carries under a keyword. -/
def Token.textUnder? (k : Keyword) (t : Token) : Option Text :=
  if t.Carries k then t.text? else none

/-- The text of the latest token under a keyword. -/
def latest (k : Keyword) (ts : List Token) : Option Text :=
  (ts.filterMap (Token.textUnder? k)).getLast?

theorem getLast?_filterMap_concat {α β : Type} (f : α → Option β) (as : List α) (a : α) :
    ((as ++ [a]).filterMap f).getLast? = (f a).or (as.filterMap f).getLast? := by
  rw [List.filterMap_append, List.getLast?_append]
  cases h : f a with
  | none => rw [List.filterMap_cons_none h]; rfl
  | some b => rw [List.filterMap_cons_some h]; rfl

theorem latest_concat (k : Keyword) (ts : List Token) (t : Token) :
    latest k (ts ++ [t]) = (t.textUnder? k).or (latest k ts) :=
  getLast?_filterMap_concat _ ts t

end RhythmTree
