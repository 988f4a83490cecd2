import RhythmTree.Proofs.Forms

/-!
# The events of a token

What a token plays can be told from the token alone: pitches and articulations hold what is nested
directly in their containers, a dynamic plays one event for each of its tokens that stands for one,
and events without payload are played under their own keywords.

* `dynamics_eq`: a dynamic that can be read plays the events of its tokens in order.
* `events_eq_played`: **a well-formed token asks for the events that it plays.**
-/

namespace RhythmTree

open Token

/-- The event that a keyword plays without payload. -/
def Keyword.marker? : Keyword → Option Event
  | .rest => some .rest
  | .slurStart => some .slurStart
  | .slurStop => some .slurStop
  | .extensionStart => some .extensionStart
  | .extensionStop => some .extensionStop
  | _ => none

namespace Token

/-- The event that a token plays inside a dynamic. -/
def dynamicEvent? (t : Token) : Option Event :=
  if t.Carries .value then t.text?.map .dynamic
  else if t.Carries .spannerStart then some .dynamicStart
  else if t.Carries .spannerStop then some .dynamicStop
  else none

/-- The events that a token plays. -/
def played (t : Token) : List Event :=
  if t.IsContainerOf .pitch then [.pitch (t.nested.filterMap float?)]
  else if t.IsContainerOf .articulation then [.articulation (t.nested.filterMap text?)]
  else if t.IsContainerOf .dynamicMarking then t.nested.filterMap dynamicEvent?
  else (t.keyword?.bind Keyword.marker?).toList

variable {t : Token} {k : Keyword}

theorem dynamicEvent?_of_keyword? (h : t.keyword? = some k) : t.dynamicEvent? =
    match k with
    | .value => t.text?.map .dynamic
    | .spannerStart => some .dynamicStart
    | .spannerStop => some .dynamicStop
    | _ => none := by
  have hc : ∀ k', t.Carries k' ↔ k = k' := by
    intro k'
    rw [← keyword?_eq_some_iff, h, Option.some.injEq]
  simp only [dynamicEvent?, hc]
  cases k <;> simp

theorem dynamicEvent?_of_keyword?_eq_none (h : t.keyword? = none) : t.dynamicEvent? = none := by
  have hc : ∀ k, ¬ t.Carries k := by
    intro k hk
    rw [keyword?_eq_some_iff.mpr hk] at h
    cases h
  rw [dynamicEvent?, if_neg (hc _), if_neg (hc _), if_neg (hc _)]

end Token

namespace Reading

/-- **A dynamic that can be read plays the events of its tokens in order.** -/
theorem dynamics_eq {ts : List Token} (h : (dynamics ts).2 = none) :
    (dynamics ts).1 = ts.filterMap dynamicEvent? := by
  induction ts with
  | nil => rfl
  | cons t rest ih =>
    rw [dynamics] at h ⊢
    cases hk : t.keyword? with
    | none =>
      simp only [hk] at h ⊢
      rw [List.filterMap_cons_none (dynamicEvent?_of_keyword?_eq_none hk), ih h]
    | some k =>
      have he := dynamicEvent?_of_keyword? hk
      cases k with
      | value =>
        rcases textPayload_cases t with ⟨i, marking, rfl, hp⟩ | ⟨-, m, hp⟩
        · simp only [hk, hp] at h ⊢
          rw [List.filterMap_cons_some he, ih h]
        · simp only [hk, hp] at h
          cases h
      | spannerStart | spannerStop =>
        simp only [hk] at h ⊢
        rw [List.filterMap_cons_some he, ih h]
      | _ =>
        simp only [hk] at h ⊢
        rw [List.filterMap_cons_none he, ih h]

end Reading

namespace Token

variable {t : Token} {k : Keyword}

theorem played_of_marker {event : Event} (hk : k.marker? = some event) (hc : t.Carries k) :
    t.played = [event] := by
  have hn : ∀ {k'}, t.IsContainerOf k' → k'.marker? = none → False := by
    intro k' h hm
    rw [hc.unique h.2, hm] at hk
    cases hk
  rw [played, if_neg fun h => hn h rfl, if_neg fun h => hn h rfl, if_neg fun h => hn h rfl,
    keyword?_eq_some_iff.mpr hc, Option.bind_some, hk]
  rfl

theorem shared?_of_marker? {event : Event} (h : k.marker? = some event) :
    Reading.shared? k = some (.attach [event]) := by
  cases k <;> cases h <;> rfl

/-- **A well-formed token asks for the events that it plays.** -/
theorem events_eq_played (hw : t.isWellFormed = true) : t.events = t.played := by
  by_cases hp : t.IsContainerOf .pitch
  · rw [played, if_pos hp]
    obtain ⟨hf, hc⟩ := hp
    cases t with
    | container i opening ts => exact events_of_ofToken (Reading.ofToken_of_container hc)
    | _ => cases hf
  by_cases ha : t.IsContainerOf .articulation
  · rw [played, if_neg hp, if_pos ha]
    obtain ⟨hf, hc⟩ := ha
    cases t with
    | container i opening ts => exact events_of_ofToken (Reading.ofToken_of_container hc)
    | _ => cases hf
  by_cases hd : t.IsContainerOf .dynamicMarking
  · rw [played, if_neg hp, if_neg ha, if_pos hd]
    obtain ⟨hf, hc⟩ := hd
    cases t with
    | container i opening ts =>
      have hr : Reading.ofToken (.container i opening ts) = Reading.ofDynamics ts :=
        Reading.ofToken_of_container hc
      cases hm : (Reading.dynamics ts).2 with
      | none =>
        rw [Reading.ofDynamics, ← Prod.eta (Reading.dynamics ts), hm] at hr
        rw [events_of_ofToken hr]
        exact Reading.dynamics_eq hm
      | some m =>
        rw [Reading.ofDynamics, ← Prod.eta (Reading.dynamics ts), hm] at hr
        rw [isWellFormed, hr] at hw
        cases hw
    | _ => cases hf
  cases hm : t.keyword?.bind Keyword.marker? with
  | some event =>
    obtain ⟨k, hk, he⟩ := Option.bind_eq_some_iff.mp hm
    have hc := keyword?_eq_some_iff.mp hk
    rw [played_of_marker he hc]
    exact events_of_ofToken (Reading.ofToken_of_shared? (shared?_of_marker? he) hc)
  | none =>
    -- such a token stands for no event
    have hn : t.eventCount = 0 := by
      have hi : ¬ t.IsEvent := by
        rintro (h | h | ⟨k, hk, hc⟩)
        · exact hp h
        · exact ha h
        · rw [keyword?_eq_some_iff.mpr hc, Option.bind_some] at hm
          simp only [Keyword.markers, List.mem_cons, List.not_mem_nil, or_false] at hk
          rcases hk with rfl | rfl | rfl | rfl | rfl <;> cases hm
      rw [eventCount, if_neg hi, if_neg hd]
    rw [played, if_neg hp, if_neg ha, if_neg hd, hm]
    exact List.eq_nil_of_length_eq_zero ((length_events hw).trans hn)

end Token

end RhythmTree
