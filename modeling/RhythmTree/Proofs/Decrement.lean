import RhythmTree.Proofs.OpenChain
import RhythmTree.Proofs.Voice

/-!
# Trees in decrement mode

In decrement mode a tree goes to the start of the innermost open node. Builders give times to roots
only, so this is the start of the latest tree as long as none of its inner nodes is open, and else
the start of the piece. The time of that node is taken back from the time elapsed in the measure,
and this goes wrong in one case only: the builder went back to the start of a measure behind the
latest tree, so that no time has elapsed in which to step back.

* `ElapsedSince`, `elapsedSince_reached`: **the time elapsed in the measure is at least that of the
  latest tree, or no time at all, if the builder went back to the start of a measure since.**
* `Innermost`, `innermost_reached`: what the innermost open node is.
* `decrement_of_run`: **where a tree goes in decrement mode, and when a warning is recorded.**
-/

namespace RhythmTree

open BuilderState

/-! ### The time elapsed since the latest tree -/

/-- The tokens behind the last one that adds a tree. -/
def sinceRoot (ts : List Token) : List Token := ts.rtakeWhile fun t => !t.startsTree

/-- Behind the latest tree comes a token that goes back to the start of a measure. -/
def RewoundSinceRoot (ts : List Token) : Prop := ∃ t ∈ sinceRoot ts, t.rewinds = true

instance (ts : List Token) : Decidable (RewoundSinceRoot ts) :=
  inferInstanceAs (Decidable (∃ t ∈ sinceRoot ts, t.rewinds = true))

theorem rewoundSinceRoot_concat (ts : List Token) (t : Token) :
    RewoundSinceRoot (ts ++ [t]) ↔
      t.startsTree = false ∧ (t.rewinds = true ∨ RewoundSinceRoot ts) := by
  rw [RewoundSinceRoot, sinceRoot, List.rtakeWhile_concat]
  cases t.startsTree with
  | true => simp
  | false => simp [RewoundSinceRoot, sinceRoot, or_comm, or_and_right, exists_or]

namespace Token

variable {t : Token}

theorem rewinds_of_opensMeasure (h : t.opensMeasure = true) : t.rewinds = true := by
  rw [rewinds, h, Bool.true_or]

theorem rewinds_of_mode? {m : StackMode} (ho : t.opensMeasure = false) (hm : t.mode? = some m) :
    t.rewinds = true ↔ m = .measure := by
  simp [rewinds, ho, hm]

theorem rewinds_of_idle (ho : t.opensMeasure = false) (hm : t.mode? = none) :
    t.rewinds = false := by
  simp [rewinds, ho, hm]

theorem instruction?_of_duration? {d : Duration} (h : t.duration? = some d) :
    t.instruction? = some (.addRoot d) := by
  unfold duration? at h
  split at h
  · next e he => rw [he, Option.some.inj h]
  · cases h

/-- Only a token that adds a tree may lead to a warning about the time elapsed. -/
theorem startsTree_of_mem_codes (h : "NEGATIVE_ACCUMULATOR" ∈ t.codes) : t.startsTree = true := by
  obtain ⟨i, hi, hc⟩ := exists_instruction?_of_mem_codes h (by decide) (by decide)
  cases i with
  | addRoot d => rw [startsTree, duration?, hi]; rfl
  | _ => simp [Instruction.codes] at hc

end Token

/-- How much time has elapsed in the measure, measured by the latest tree. -/
structure ElapsedSince (ts : List Token) (τ : Times) : Prop where
  /-- Behind a token that goes back to the start of a measure, no time has elapsed. -/
  rewound : RewoundSinceRoot ts → τ.elapsed = .zero
  /-- Otherwise the time of the latest tree is a part of what has elapsed. -/
  not_rewound : ¬ RewoundSinceRoot ts → ∀ s ∈ τ.spans.getLast?, s.length ≤ τ.elapsed

theorem ElapsedSince.after {ts : List Token} {s : BuilderState} (h : ElapsedSince ts s.times)
    (index : Nat) (t : Token) : ElapsedSince (ts ++ [t]) (s.after index t).times := by
  cases timedStep_after s index t with
  | bar ho hs _ e =>
    have hr : RewoundSinceRoot (ts ++ [t]) :=
      (rewoundSinceRoot_concat ts t).mpr ⟨hs, .inl (Token.rewinds_of_opensMeasure ho)⟩
    rw [e]
    exact ⟨fun _ => rfl, fun hn => absurd hr hn⟩
  | switch m ho hs hm e =>
    have hr := rewoundSinceRoot_concat ts t
    rw [Token.rewinds_of_mode? ho hm, hs] at hr
    rw [e]
    cases m with
    | measure => exact ⟨fun _ => rfl, fun hn => absurd (hr.mpr ⟨rfl, .inl rfl⟩) hn⟩
    | increment | decrement =>
      simp only [true_and, reduceCtorEq, false_or] at hr
      exact ⟨fun hw => h.rewound (hr.mp hw), fun hn => h.not_rewound fun hw => hn (hr.mpr hw)⟩
  | root d _ hs _ e =>
    have hr : ¬ RewoundSinceRoot (ts ++ [t]) := by
      rw [rewoundSinceRoot_concat, hs]
      simp
    obtain ⟨offset, elapsed, position, ht⟩ := times_addRoot index d s
    refine ⟨fun hw => absurd hw hr, fun _ span hspan => ?_⟩
    rw [e, ht] at hspan ⊢
    obtain rfl : Span.ofLength d offset = span := by simpa using hspan
    rw [Span.length_ofLength]
    have hle := Duration.add_le_add_right (Duration.zero_le elapsed) d
    rwa [Duration.zero_add] at hle
  | idle ho hs hm e =>
    have hr := rewoundSinceRoot_concat ts t
    rw [Token.rewinds_of_idle ho hm, hs] at hr
    simp only [true_and, Bool.false_eq_true, false_or] at hr
    rw [e]
    exact ⟨fun hw => h.rewound (hr.mp hw), fun hn => h.not_rewound fun hw => hn (hr.mpr hw)⟩

/-- **The time elapsed in the measure is at least that of the latest tree, or no time at all.** -/
theorem elapsedSince_reached (ts : List Token) : ElapsedSince ts (reached ts).times := by
  induction ts using List.reverseRecOn with
  | nil => exact ⟨fun _ => rfl, fun _ s hs => by cases hs⟩
  | append_singleton ts t ih =>
    rw [reached_concat]
    exact ih.after ts.length t

/-! ### The innermost open node -/

/-- The root of the latest tree is the innermost open node. -/
def RootInnermost (ts : List Token) (s : BuilderState) (n : Node) : Prop :=
  ∃ p, LatestRoot ts p ∧ s.openPlaces.head? = some p ∧ s.forest.nodeAt? p = some n

/-- No node is open, or the innermost open node is not a root. -/
def NoRootInnermost (s : BuilderState) : Prop :=
  s.openPlaces = [] ∨ ∃ p, s.openPlaces.head? = some p ∧ p.path ≠ []

/-- What the innermost open node is behind some tokens. -/
inductive Innermost (ts : List Token) (s : BuilderState) : Prop
  /-- There is none. -/
  | none (places : s.openPlaces = []) (node : s.openNode? = none)
  /-- It is a node below the root of the latest tree, and has no time. -/
  | inner (p : Place) (t : Tree) (places : s.openPlaces.head? = some p) (below : p.path ≠ [])
      (node : s.openNode? = some t) (duration : t.label.duration = .zero)
      (offset : t.label.offset = .zero)
  /-- It is the root of the latest tree. -/
  | root (t : Tree) (innermost : RootInnermost ts s t.label) (node : s.openNode? = some t)
      (latest : s.times.spans.getLast? = some t.label.span)

theorem RootInnermost.not_noRootInnermost {ts : List Token} {s : BuilderState} {n : Node}
    (h : RootInnermost ts s n) : ¬ NoRootInnermost s := by
  obtain ⟨p, ⟨_, _, _, -, -, -, hp, -⟩, hhead, -⟩ := h
  rintro (hz | ⟨q, hq, hne⟩)
  · rw [hz] at hhead
    cases hhead
  · obtain rfl : p = q := Option.some.inj (hhead.symm.trans hq)
    exact hne hp

theorem RootInnermost.unique {ts : List Token} {s : BuilderState} {n m : Node}
    (h : RootInnermost ts s n) (h' : RootInnermost ts s m) : n = m := by
  obtain ⟨p, -, hp, hn⟩ := h
  obtain ⟨q, -, hq, hm⟩ := h'
  obtain rfl : p = q := Option.some.inj (hp.symm.trans hq)
  exact Option.some.inj (hn.symm.trans hm)

/-- **The innermost open node is the root of the latest tree or has no time, or there is none.** -/
theorem innermost_reached (ts : List Token) : Innermost ts (reached ts) := by
  rcases isChain_reached ts with hz | ⟨q, hq⟩
  · refine .none (openPlaces_eq_nil_iff.mpr hz) ?_
    rw [openNode?, Stack.top?, hz]
    rfl
  · have htop : (reached ts).stack.top? = some q := hq ▸ top?_chain q
    have hhead : (reached ts).openPlaces.head? = some ⟨(reached ts).forest.length - 1, q⟩ := by
      rw [openPlaces, List.head?_map]
      exact congrArg (Option.map _) htop
    have hmem : q ∈ (reached ts).stack.items := List.mem_of_head? htop
    obtain ⟨t, ht⟩ := Forest.nodeAt?_ne_none_iff.mp (open_stands ts q hmem)
    have hnode : (reached ts).openNode? = some t := by
      rw [openNode?, htop]
      exact ht
    have hlabel : (reached ts).forest.nodeAt? ⟨(reached ts).forest.length - 1, q⟩ =
        some t.label := by
      rw [Forest.nodeAt?, ht]
      rfl
    by_cases hr : q = []
    · subst hr
      have hlast : (reached ts).forest.getLast? = some t := by
        rw [List.getLast?_eq_getElem?]
        simpa [Forest.subtreeAt] using ht
      refine .root t ⟨_, latestRoot_reached ts ?_, hhead, hlabel⟩ hnode ?_
      · rintro hn
        rw [hn] at hlast
        cases hlast
      · exact (List.getLast?_map ..).trans (congrArg (Option.map Tree.span) hlast)
    · obtain ⟨hd, ho⟩ := untimed_reached hlabel hr
      exact .inner _ t hhead hr hnode hd ho

/-! ### Stepping back -/

namespace BuilderState

theorem sub?_of_le {a b : Duration} (h : b ≤ a) : ∃ rest, a.sub? b = some rest :=
  ⟨_, dif_pos (Duration.sub_nonneg_of_le h)⟩

theorem sub?_of_lt {a b : Duration} (h : a < b) : a.sub? b = none := by
  refine dif_neg fun hn => Duration.not_le.mpr h ?_
  rw [Duration.le_def]
  grind

theorem findings_stepBack_of_le {back : Duration} {s : BuilderState} (h : back ≤ s.elapsed)
    (index : Nat) : (s.stepBack index back).findings = s.findings := by
  obtain ⟨rest, hr⟩ := sub?_of_le h
  rw [stepBack, hr]

theorem findings_stepBack_of_lt {back : Duration} {s : BuilderState} (h : s.elapsed < back)
    (index : Nat) :
    (s.stepBack index back).findings = s.findings ++ [.clamped index back s.elapsed] := by
  rw [stepBack, sub?_of_lt h]
  rfl

/-- Outside decrement mode nothing is recorded about a tree. -/
theorem findings_addRoot_of_ne {s : BuilderState} (h : s.mode ≠ .decrement) (index : Nat)
    (d : Duration) : (s.addRoot index d).findings = s.findings := by
  cases hm : s.mode with
  | measure => rw [addRoot_of_measure hm]; rfl
  | increment => rw [addRoot_of_increment hm]; rfl
  | decrement => exact absurd hm h

end BuilderState

/-! ### Trees in decrement mode -/

/-- The innermost open node is the root of the latest tree, which takes some time, and the builder
went back to the start of a measure behind it. -/
def Clamps (ts : List Token) (s : BuilderState) : Prop :=
  ∃ n, RootInnermost ts s n ∧ .zero < n.duration ∧ RewoundSinceRoot ts

/-- What a tree with a duration leads to in decrement mode: where it goes, and what is recorded. -/
structure PutsBack (ts : List Token) (d : Duration) (s s' : BuilderState) : Prop where
  innermost : (∃ n, RootInnermost ts s n) ∨ NoRootInnermost s
  at_root : ∀ n, RootInnermost ts s n → s'.forest = s.forest ++ [.ofDuration d n.offset]
  at_start : NoRootInnermost s → s'.forest = s.forest ++ [.ofDuration d .zero]
  warned : Clamps ts s → ∃ f, s'.findings = s.findings ++ [f] ∧ f.code = "NEGATIVE_ACCUMULATOR" ∧
    f.severity = .warning ∧ f.index? = some ts.length
  silent : ¬ Clamps ts s → s'.findings = s.findings

section

variable {ts : List Token} {s s' : BuilderState} {d : Duration}

/-- Without the root of the latest tree in reach, a tree goes to the start of the piece. -/
theorem PutsBack.of_noRoot (h : NoRootInnermost s)
    (hf : s'.forest = s.forest ++ [.ofDuration d .zero]) (hs : s'.findings = s.findings) :
    PutsBack ts d s s' where
  innermost := .inr h
  at_root _ hn := absurd h hn.not_noRootInnermost
  at_start _ := hf
  warned := fun ⟨_, hn, _⟩ => absurd h hn.not_noRootInnermost
  silent _ := hs

/-- The root of the latest tree is stepped back behind. Its time has elapsed in the measure unless
the builder went back to the start of one. -/
theorem ElapsedSince.putsBack_root {t : Tree} (he : ElapsedSince ts s.times)
    (hr : RootInnermost ts s t.label) (hl : s.times.spans.getLast? = some t.label.span)
    (hf : s'.forest = s.forest ++ [.ofDuration d t.label.offset])
    (hs : s'.findings = (s.stepBack ts.length t.label.duration).findings) : PutsBack ts d s s' where
  innermost := .inl ⟨_, hr⟩
  at_root n hn := by rw [hf, hn.unique hr]
  at_start h := absurd h hr.not_noRootInnermost
  warned := by
    rintro ⟨n, hn, hpos, hw⟩
    obtain rfl := hn.unique hr
    have hz : s.elapsed = .zero := he.rewound hw
    refine ⟨.clamped ts.length t.label.duration s.elapsed, ?_, rfl, rfl, rfl⟩
    rw [hs, findings_stepBack_of_lt (hz ▸ hpos)]
  silent hn := by
    rw [hs]
    refine findings_stepBack_of_le ?_ ts.length
    by_cases hw : RewoundSinceRoot ts
    · -- nothing has elapsed, but the tree takes no time either
      have hz : ¬ .zero < t.label.duration := fun hpos => hn ⟨_, hr, hpos, hw⟩
      exact Duration.le_trans (Duration.not_lt.mp hz) (Duration.zero_le _)
    · have hle := he.not_rewound hw _ hl
      rwa [Node.length_span] at hle

/-- What a tree leads to in decrement mode, by what the innermost open node is. -/
theorem Innermost.putsBack (hi : Innermost ts s) (he : ElapsedSince ts s.times)
    (hm : s.mode = .decrement) (d : Duration) :
    PutsBack ts d s (s.addRoot ts.length d) := by
  cases hi with
  | none places node =>
    rw [addRoot_of_decrement_none hm node]
    exact .of_noRoot (.inl places) rfl rfl
  | inner p t places below node duration offset =>
    rw [addRoot_of_decrement_some hm node, duration, offset]
    refine .of_noRoot (.inr ⟨p, places, below⟩) ?_ ?_
    · exact congrArg (· ++ [_]) (forest_stepBack ts.length .zero _)
    · exact findings_stepBack_of_le (Duration.zero_le _) ts.length
  | root t innermost node latest =>
    rw [addRoot_of_decrement_some hm node]
    refine he.putsBack_root innermost latest ?_ ?_
    · exact congrArg (· ++ [_]) (forest_stepBack ts.length t.label.duration _)
    · show (stepBack ts.length t.label.duration _).findings = _
      unfold stepBack
      dsimp only
      split <;> rfl

end

/-- **Where a tree goes in decrement mode, and when a warning is recorded.** In every state that a
run comes through, a tree that is added in decrement mode goes to the start of the latest tree if
the root of that tree is the innermost open node, and else to the start of the piece. A warning is
recorded if and only if the latest tree takes some time, its root is the innermost open node and the
builder went back to the start of a measure behind it. No other token leads to this warning. -/
theorem decrement_of_run {strict : Bool} {ts : List Token} {s : BuilderState}
    (h : run strict {} 0 ts = .ok s) (t : Token) :
    (∀ d, t.duration? = some d → s.mode = .decrement →
      ∃ s', s.step strict ts.length t = .ok s' ∧ PutsBack ts d s s') ∧
    (¬ (t.startsTree = true ∧ s.mode = .decrement) →
      ∃ new, foundBehind (s.step strict ts.length t) = s.findings ++ new ∧
        ∀ f ∈ new, f.code ≠ "NEGATIVE_ACCUMULATOR") := by
  obtain ⟨-, rfl⟩ : _ ∧ reached ts = s := run_lenient_eq_ok.mp (run_lenient_of_run h)
  refine ⟨fun d hd hm => ?_, fun hn => ?_⟩
  · have hi := Token.instruction?_of_duration? hd
    refine ⟨_, step_of_instruction? hi rfl strict _ _, ?_⟩
    rw [after_of_instruction? hi]
    exact (innermost_reached ts).putsBack (elapsedSince_reached ts) hm d
  · by_cases hs : t.startsTree = true
    · obtain ⟨d, hi⟩ := Token.exists_instruction?_of_startsTree hs
      have hm : (reached ts).mode ≠ .decrement := fun hm => hn ⟨hs, hm⟩
      refine ⟨[], ?_, by simp⟩
      rw [step_of_instruction? hi rfl, after_of_instruction? hi, List.append_nil]
      exact findings_addRoot_of_ne hm ts.length d
    · obtain ⟨new, e, hnew⟩ := findings_step strict (reached ts) ts.length t
      refine ⟨new, e, fun f hf hc => hs ?_⟩
      exact Token.startsTree_of_mem_codes (hc ▸ (hnew f hf).2)

open Token in
/-- A tree that is still open when the next measure begins. -/
def rewoundStream : List Token := [root (.ofNat 1), bar, switch .decrement]

/-- The second tree goes to the start of the first one, with a warning, as no time has elapsed in
the second measure. -/
theorem decrement_of_run_rewoundStream :
    Clamps rewoundStream (reached rewoundStream) ∧
      ∃ s', (reached rewoundStream).step false 3 (.root (.ofNat 2)) = .ok s' ∧
        PutsBack rewoundStream (.ofNat 2) (reached rewoundStream) s' := by
  have hrun : run false {} 0 rewoundStream = .ok (reached rewoundStream) :=
    run_lenient_eq_ok.mpr ⟨by decide +kernel, rfl⟩
  have hroot : LatestRoot rewoundStream ⟨0, []⟩ :=
    latestRoot_reached rewoundStream (by decide +kernel)
  refine ⟨⟨_, ⟨_, hroot, by decide +kernel, rfl⟩, by decide +kernel, by decide +kernel⟩, ?_⟩
  exact (decrement_of_run hrun (.root (.ofNat 2))).1 _ (by decide +kernel) (by decide +kernel)

end RhythmTree
