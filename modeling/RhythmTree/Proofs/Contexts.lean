import RhythmTree.Proofs.Decoration
import RhythmTree.Proofs.Occurrences

/-!
# What is current

An event is played on a leaf, by a performer, on an instrument. The current ones are the latest ones
that the tokens have named: the node of the latest leaf token that got one, and the texts of the
latest tokens of a performer and of an instrument. What became current stays so until it is
replaced.

* `createdPlace?`: the place of the node that a token adds.
* `leaf_reached`, `performer_reached`, `instrument_reached`: **what is current, told by the tokens.**
* `context?_of_isPrefix`: what is complete once stays complete.
-/

namespace RhythmTree

open BuilderState

/-! ### The latest leaf -/

/-- The places of the nodes of a forest. -/
def Forest.places (f : Forest) : List Place :=
  f.zipIdx.flatMap fun entry => entry.1.addressed.map fun node => ⟨entry.2, node.1⟩

theorem Forest.mem_places {f : Forest} {p : Place} : p ∈ f.places ↔ f.nodeAt? p ≠ none := by
  rw [nodeAt?_ne_none_iff, places, List.mem_flatMap]
  simp only [List.mem_map, subtreeAt, Option.bind_eq_some_iff, Prod.exists,
    List.mem_zipIdx_iff_getElem?]
  constructor
  · rintro ⟨t, i, ht, q, u, hu, rfl⟩
    exact ⟨u, t, ht, Rose.mem_addressed.mp hu⟩
  · rintro ⟨u, t, ht, hu⟩
    exact ⟨t, p.tree, ht, p.path, u, Rose.mem_addressed.mpr hu, rfl⟩

theorem Forest.new_addChild_iff {f : Forest} {p q : Place} {u : Tree} (h : f.subtreeAt p = some u)
    (beats : Int) : f.nodeAt? q = none ∧ (f.addChild beats p).nodeAt? q ≠ none ↔
      q = p.child u.children.length := by
  rw [nodeAt?_addChild h]
  constructor
  · rintro ⟨hn, hs⟩
    by_contra hne
    rw [if_neg hne] at hs
    exact hs hn
  · rintro rfl
    rw [if_pos rfl]
    exact ⟨nodeAt?_child_of_le h (Nat.le_refl _), Option.some_ne_none _⟩

/-- The place of the node that a token adds, the first one if there are more. -/
def createdPlace? (before : List Token) (t : Token) : Option Place :=
  (reached (before ++ [t])).forest.places.find? fun p => (reached before).forest.nodeAt? p = none

theorem creates_of_createdPlace? {before : List Token} {t : Token} {p : Place}
    (h : createdPlace? before t = some p) : Creates before t p := by
  rw [createdPlace?] at h
  have hn : (reached before).forest.nodeAt? p = none := by simpa using List.find?_some h
  exact ⟨hn, Forest.mem_places.mp (List.mem_of_find?_eq_some h)⟩

theorem createdPlace?_eq_none {before : List Token} {t : Token} (h : ∀ p, ¬ Creates before t p) :
    createdPlace? before t = none := by
  rw [Option.eq_none_iff_forall_ne_some]
  intro p hp
  exact h p (creates_of_createdPlace? hp)

theorem createdPlace?_eq_some {before : List Token} {t : Token} {p : Place}
    (h : ∀ q, Creates before t q ↔ q = p) : createdPlace? before t = some p := by
  cases hc : createdPlace? before t with
  | some q => rw [(h q).mp (creates_of_createdPlace? hc)]
  | none =>
    obtain ⟨hn, hs⟩ := (h p).mpr rfl
    rw [createdPlace?, List.find?_eq_none] at hc
    exact absurd (decide_eq_true hn) (hc p (Forest.mem_places.mpr hs))

/-- The place of the node that a leaf token adds. -/
def Occurrence.leafPlace? (o : Occurrence) : Option Place :=
  if o.token.IsAtomOf .leafNode then createdPlace? o.before o.token else none

/-- The place of the node of the latest leaf token that has got one. -/
def latestLeaf (ts : List Token) : Option Place :=
  ((occurrences ts).filterMap Occurrence.leafPlace?).getLast?

theorem latestLeaf_concat (ts : List Token) (t : Token) :
    latestLeaf (ts ++ [t]) = (Occurrence.leafPlace? ⟨ts, t⟩).or (latestLeaf ts) := by
  rw [latestLeaf, occurrences_concat, getLast?_filterMap_concat]
  rfl

/-- A token that adds no node but perhaps a tree is no leaf token with a node. -/
theorem leafPlace?_eq_none {before : List Token} {t : Token}
    (h : t.IsAtomOf .leafNode → ∀ p, ¬ Creates before t p) :
    Occurrence.leafPlace? ⟨before, t⟩ = none := by
  rw [Occurrence.leafPlace?]
  split
  · next hl => exact createdPlace?_eq_none (h hl)
  · rfl

/-- **The current leaf is the node of the latest leaf token that has got one.** -/
theorem BuilderState.leaf_reached (ts : List Token) : (reached ts).leaf = latestLeaf ts := by
  induction ts using List.reverseRecOn with
  | nil => rfl
  | append_singleton ts t ih =>
    rw [latestLeaf_concat, ← ih]
    have hc : ∀ p, Creates ts t p ↔ (reached ts).forest.nodeAt? p = none ∧
        ((reached ts).after ts.length t).forest.nodeAt? p ≠ none := by
      intro p
      rw [Creates, reached_concat]
    rw [reached_concat]
    cases nodeStep_after (reached ts) ts.length t with
    | root d a hi _ _ hl =>
      rw [leafPlace?_eq_none fun h => absurd (h.unique (Token.isAtomOf_of_addRoot hi)) (by decide),
        hl]
      rfl
    | child e path hi hp hf _ hl _ =>
      obtain ⟨u, hu⟩ := Forest.nodeAt?_ne_none_iff.mp (open_stands ts path hp)
      rw [Forest.nextChild_of_subtreeAt hu] at hl
      have hleaf := Token.isAtomOf_leafNode_iff hi
      cases ho : e.opens with
      | true =>
        rw [ho] at hl hleaf
        rw [leafPlace?_eq_none fun h => absurd (hleaf.mp h) (by decide), hl]
        rfl
      | false =>
        have hone : ∀ q, Creates ts t q ↔
            q = Place.child ⟨(reached ts).forest.length - 1, path⟩ u.children.length := by
          intro q
          rw [hc, hf]
          exact Forest.new_addChild_iff hu e.beats
        rw [ho] at hl hleaf
        rw [Occurrence.leafPlace?, if_pos (hleaf.mpr rfl), createdPlace?_eq_some hone, hl]
        rfl
    | drop e _ hf _ hl _ =>
      rw [leafPlace?_eq_none fun _ p h => ?_, hl]
      · rfl
      · rw [hc, hf] at h
        exact h.2 h.1
    | play events _ e =>
      have hp := samePlaces_attach ts.length t.name events (reached ts)
      rw [leafPlace?_eq_none fun _ p h => ?_, e, hp.leaf]
      · rfl
      · rw [hc, e, ne_eq, hp.nodeAt?] at h
        exact h.2 h.1
    | idle _ hf _ hl =>
      rw [leafPlace?_eq_none fun _ p h => ?_, hl]
      · rfl
      · rw [hc, hf] at h
        exact h.2 h.1

/-! ### The latest performer and instrument -/

/-- The performer that an instruction makes the current one. -/
def Instruction.performer? : Instruction → Option Text
  | .setPerformer id => some id
  | _ => none

/-- The instrument that an instruction makes the current one. -/
def Instruction.instrument? : Instruction → Option Text
  | .setInstrument id => some id
  | _ => none

namespace Token

variable {t : Token} {k : Keyword}

/-- What atomic tokens under a keyword ask for by their text, and no other tokens ask for, can be
read off the text. -/
theorem bind_instruction?_eq_textUnder? {ask : Instruction → Option Text}
    (make : Text → Instruction)
    (atom : ∀ t, Reading.ofAtom k t = Reading.ofPayload t.textPayload make)
    (container : ∀ name opening ts, Reading.ofContainer k name opening ts = .unrecognized)
    (made : ∀ id, ask (make id) = some id)
    (only : ∀ i c k', (ask i).isSome = true → k' ∈ i.keywords c → k' = k) (t : Token) :
    t.instruction?.bind ask = t.textUnder? k := by
  by_cases hc : t.Carries k
  · rw [textUnder?, if_pos hc, instruction?]
    cases t with
    | container name opening ts =>
      rw [Reading.ofToken_of_container hc, container]
      rfl
    | text i id =>
      rw [Reading.ofToken_of_atom rfl hc, atom]
      exact made id
    | _ =>
      rw [Reading.ofToken_of_atom rfl hc, atom]
      rfl
  · rw [textUnder?, if_neg hc, Option.eq_none_iff_forall_ne_some]
    intro id h
    obtain ⟨i, hi, ha⟩ := Option.bind_eq_some_iff.mp h
    obtain ⟨k', hk', hc'⟩ := exists_keyword_of_instruction? hi
    exact hc (only i _ k' (by rw [ha]; rfl) hk' ▸ hc')

theorem performer?_eq (t : Token) :
    t.instruction?.bind Instruction.performer? = t.textUnder? .performerId :=
  bind_instruction?_eq_textUnder? .setPerformer (fun _ => rfl) (fun _ _ _ => rfl) (fun _ => rfl)
    (fun i c k' h hk => by
      cases i with
      | setPerformer id => cases c <;> simp_all [Instruction.keywords]
      | _ => cases h) t

theorem instrument?_eq (t : Token) :
    t.instruction?.bind Instruction.instrument? = t.textUnder? .instrumentId :=
  bind_instruction?_eq_textUnder? .setInstrument (fun _ => rfl) (fun _ _ _ => rfl) (fun _ => rfl)
    (fun i c k' h hk => by
      cases i with
      | setInstrument id => cases c <;> simp_all [Instruction.keywords]
      | _ => cases h) t

end Token

namespace BuilderState

/-- The current performer and the current instrument. -/
def players (s : BuilderState) : Option Text × Option Text := (s.performer, s.instrument)

theorem players_attachNode (index : Nat) (identifier : String) (beats : Int) (level : Level)
    (s : BuilderState) : (s.attachNode index identifier beats level).2.players = s.players := by
  have hc : (s.closeLevels index level.outer).players = s.players :=
    closeLevels_induction (motive := fun s' => s'.players = s.players) rfl (fun _ _ h => h)
      fun _ _ _ h => h
  rw [← hc, attachNode, attachChild]
  split <;> rfl

theorem players_perform (index : Nat) (identifier : String) (i : Instruction) (s : BuilderState) :
    (s.perform index identifier i).players =
      (i.performer?.or s.performer, i.instrument?.or s.instrument) := by
  cases i with
  | openMeasure =>
    show s.closeMeasure.players = s.players
    unfold closeMeasure
    split <;> rfl
  | setMode mode => cases mode <;> rfl
  | addRoot d =>
    show (s.addRoot index d).players = s.players
    exact placeRoot_induction (motive := fun s' => s'.players = s.players) rfl
      (fun _ _ h => h) (fun _ _ h => h) fun _ _ _ h => h
  | addInner beats level =>
    exact addInner_induction (motive := fun s' => s'.players = s.players)
      (players_attachNode index identifier beats level s) fun _ _ h => h
  | addLeaf beats level =>
    exact addLeaf_induction (motive := fun s' => s'.players = s.players)
      (players_attachNode index identifier beats level s) fun _ _ h => h
  | storeValue value =>
    show (s.storeValue index value).players = s.players
    unfold storeValue
    split <;> rfl
  | attach events =>
    refine attach_induction (motive := fun s' => s'.players = s.players) rfl fun s' event h => ?_
    rw [← h]
    rcases attachEvent_cases index identifier event s' with ⟨c, place, -, e⟩ | e <;> rw [e] <;> rfl
  | _ => rfl

theorem players_after (s : BuilderState) (index : Nat) (t : Token) :
    (s.after index t).players =
      ((t.textUnder? .performerId).or s.performer, (t.textUnder? .instrumentId).or s.instrument) := by
  rw [← Token.performer?_eq, ← Token.instrument?_eq]
  cases hi : t.instruction? with
  | none => rcases after_of_instruction?_eq_none hi s index with e | e <;> rw [e] <;> rfl
  | some i =>
    rw [after_of_instruction? hi]
    exact players_perform index t.name i s

/-- **The current performer and the current instrument are the latest ones.** -/
theorem players_reached (ts : List Token) :
    (reached ts).players = (latest .performerId ts, latest .instrumentId ts) := by
  induction ts using List.reverseRecOn with
  | nil => rfl
  | append_singleton ts t ih =>
    obtain ⟨hp, hi⟩ := Prod.mk.inj ih
    rw [reached_concat, players_after, latest_concat, latest_concat, hp, hi]

end BuilderState

/-! ### Complete contexts -/

/-- What an event is played with. -/
structure Context where
  place : Place
  performer : Text
  instrument : Text
  deriving DecidableEq, Repr

/-- What an event behind some tokens is played with: their latest leaf, performer and instrument. -/
def context? (before : List Token) : Option Context :=
  (latestLeaf before).bind fun place =>
    (latest .performerId before).bind fun performer =>
      (latest .instrumentId before).map fun instrument => ⟨place, performer, instrument⟩

/-- What an event behind some tokens lacks. -/
def lacking (before : List Token) : List Lack :=
  (if latestLeaf before = none then [.leaf] else []) ++
    (if latest .performerId before = none then [.performer] else []) ++
      if latest .instrumentId before = none then [.instrument] else []

/-- What is current once is replaced, but never gets lost. -/
theorem getLast?_filterMap_ne_none {α β : Type} {f : α → Option β} {as bs : List α} (h : as <+: bs)
    (ha : (as.filterMap f).getLast? ≠ none) : (bs.filterMap f).getLast? ≠ none := by
  obtain ⟨more, rfl⟩ := h
  rw [List.filterMap_append, List.getLast?_append]
  cases (more.filterMap f).getLast? with
  | none => exact ha
  | some b => exact Option.some_ne_none b

theorem occurrences_isPrefix {p q : List Token} (h : p <+: q) : occurrences p <+: occurrences q := by
  obtain ⟨us, rfl⟩ := h
  rw [occurrences, occurrences, occurrencesFrom_append]
  exact List.prefix_append _ _

theorem context?_ne_none_iff {ts : List Token} : context? ts ≠ none ↔
    latestLeaf ts ≠ none ∧ latest .performerId ts ≠ none ∧ latest .instrumentId ts ≠ none := by
  rw [context?]
  cases latestLeaf ts with
  | none => simp
  | some place =>
    cases latest .performerId ts with
    | none => simp
    | some performer => simp

/-- **What is complete once stays complete.** -/
theorem context?_of_isPrefix {p q : List Token} (h : p <+: q) (hp : context? p ≠ none) :
    context? q ≠ none := by
  rw [context?_ne_none_iff] at hp ⊢
  obtain ⟨hl, hw, hi⟩ := hp
  exact ⟨getLast?_filterMap_ne_none (occurrences_isPrefix h) hl, getLast?_filterMap_ne_none h hw,
    getLast?_filterMap_ne_none h hi⟩

end RhythmTree
