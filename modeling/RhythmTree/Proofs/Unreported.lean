import Mathlib.Tactic.MkIffOfInductiveProp
import RhythmTree.Proofs.Attribution
import RhythmTree.Proofs.Performers

/-!
# What is dropped without a word

An empty report says that no event got lost. It does not say that all of a container has become a
part of its events: what is no floating point number in a pitch, no text in an articulation and no
event in a dynamic is passed over, and in a declaration a type without an instrument, or with an
instrument that gets another type.

* `Score.Receives`, `receives_played`: **what a token adds to a score with an empty report.**
* `Token.IsUsed`: the tokens of which nothing is passed over.
* `kept_build`: **a score with an empty report keeps all of its stream exactly if every token is
  used.**
* `not_forall_keepsAll`: **there is a stream of which a part is dropped without a word.**
-/

namespace RhythmTree

open Decimal (Binary64)
open BuilderState

/-! ### One result for every item -/

section

variable {α β : Type} {g : α → Option β} {p : α → Bool} {as : List α}

theorem length_filterMap_le (h : ∀ a ∈ as, (g a).isSome → p a) :
    (as.filterMap g).length ≤ (as.filter p).length := by
  induction as with
  | nil => exact Nat.le_refl 0
  | cons a rest ih =>
    have hr := ih fun b hb => h b (List.mem_cons_of_mem a hb)
    cases hg : g a with
    | none =>
      rw [List.filterMap_cons_none hg, List.filter_cons]
      split
      · exact Nat.le_succ_of_le hr
      · exact hr
    | some b =>
      have hp : p a := h a List.mem_cons_self (hg ▸ rfl)
      rw [List.filterMap_cons_some hg, List.filter_cons_of_pos hp]
      exact Nat.succ_le_succ hr

/-- As many results as items means that every item has one. -/
theorem isSome_of_length_eq (h : ∀ a ∈ as, (g a).isSome → p a)
    (hl : (as.filterMap g).length = (as.filter p).length) :
    ∀ a ∈ as, p a → (g a).isSome := by
  induction as with
  | nil => exact fun a ha => absurd ha List.not_mem_nil
  | cons a rest ih =>
    have hr : ∀ b ∈ rest, (g b).isSome → p b := fun b hb => h b (List.mem_cons_of_mem a hb)
    cases hg : g a with
    | none =>
      rw [List.filterMap_cons_none hg] at hl
      by_cases hp : p a
      -- an item without a result cannot be made up for behind it
      · have hle := length_filterMap_le hr
        rw [List.filter_cons_of_pos hp, List.length_cons] at hl
        omega
      · rw [List.filter_cons_of_neg hp] at hl
        intro b hb hpb
        rcases List.mem_cons.mp hb with rfl | hb
        · exact absurd hpb hp
        · exact ih hr hl b hb hpb
    | some x =>
      have hp : p a := h a List.mem_cons_self (hg ▸ rfl)
      rw [List.filterMap_cons_some hg, List.filter_cons_of_pos hp,
        List.length_cons, List.length_cons, Nat.succ_inj] at hl
      intro b hb hpb
      rcases List.mem_cons.mp hb with rfl | hb
      · exact hg ▸ rfl
      · exact ih hr hl b hb hpb

theorem filterMap_eq_map (default : β) (h : ∀ a ∈ as, (g a).isSome → p a)
    (hs : ∀ a ∈ as, p a → (g a).isSome) :
    as.filterMap g = (as.filter p).map fun a => (g a).getD default := by
  induction as with
  | nil => rfl
  | cons a rest ih =>
    have hr := ih (fun b hb => h b (List.mem_cons_of_mem a hb))
      fun b hb => hs b (List.mem_cons_of_mem a hb)
    by_cases hp : p a
    · obtain ⟨x, hx⟩ := Option.isSome_iff_exists.mp (hs a List.mem_cons_self hp)
      rw [List.filterMap_cons_some hx, List.filter_cons_of_pos hp, List.map_cons,
        hx, hr]
      rfl
    · have hg : g a = none := by
        rw [← Option.not_isSome_iff_eq_none]
        exact fun hx => hp (h a List.mem_cons_self hx)
      rw [List.filterMap_cons_none hg, List.filter_cons_of_neg hp, hr]

/-- **The results are one for each of some items exactly if each of them has one.** -/
theorem exists_eq_map_iff (default : β) (h : ∀ a ∈ as, (g a).isSome → p a) :
    (∃ f : α → β, as.filterMap g = (as.filter p).map f) ↔
      ∀ a ∈ as, p a → (g a).isSome := by
  constructor
  · rintro ⟨f, hf⟩
    refine isSome_of_length_eq h ?_
    rw [hf, List.length_map]
  · intro hs
    exact ⟨_, filterMap_eq_map default h hs⟩

theorem exists_eq_map_all_iff (default : β) :
    (∃ f : α → β, as.filterMap g = as.map f) ↔ ∀ a ∈ as, (g a).isSome := by
  have h : (∃ f : α → β, as.filterMap g = (as.filter fun _ => true).map f) ↔
      ∀ a ∈ as, true = true → (g a).isSome := exists_eq_map_iff default fun _ _ _ => rfl
  simpa using h

end

/-! ### What a token adds -/

/-- The components on the node at a place. -/
def Score.componentsAt (score : Score) (p : Place) : List Component :=
  ((score.forest.nodeAt? p).map Node.components).getD []

/-- A token adds some events: the score of the tokens up to this one has a component more for each
of them, all on one node and played with one instrument, and the score of all tokens keeps these
components. -/
inductive Score.Receives (score : Score) (o : Occurrence) (events : List Event) : Prop
  | intro (earlier later : Score) (place : Place) (performer instrument : Text)
      (before : build false o.before = .ok earlier)
      (behind : build false (o.before ++ [o.token]) = .ok later)
      (added : ∀ p, later.componentsAt p = earlier.componentsAt p ++
        if p = place then events.map (⟨performer, instrument, ·⟩) else [])
      (kept : ∀ p, later.componentsAt p <+: score.componentsAt p)

section

variable {ts : List Token} {score : Score} {o : Occurrence} {events events' : List Event}

theorem componentsAt_build (hb : build false ts = .ok score) (p : Place) :
    score.componentsAt p =
      ((attributions ts).filter fun a => a.place = p).map Attribution.component := by
  obtain ⟨hw, rfl⟩ := build_lenient_eq_ok.mp hb
  have h := attributed_reached hw
  rw [Score.componentsAt, forest_toScore, Forest.map_components_nodeAt?_normalize]
  cases hp : (reached ts).forest.nodeAt? p with
  | none =>
    rw [h.filter_eq_nil hp]
    rfl
  | some n => exact h.components p n hp

/-- A token adds the same events in every way in which it adds some. -/
theorem Score.Receives.unique (h : score.Receives o events) (h' : score.Receives o events') :
    events = events' := by
  obtain ⟨earlier, later, place, performer, instrument, hbe, hbl, ha, -⟩ := h
  obtain ⟨earlier', later', place', performer', instrument', hbe', hbl', ha', -⟩ := h'
  obtain rfl := Except.ok.inj (hbe.symm.trans hbe')
  obtain rfl := Except.ok.inj (hbl.symm.trans hbl')
  have hsame : ∀ p, (if p = place then events.map (Component.mk performer instrument) else []) =
      if p = place' then events'.map (Component.mk performer' instrument') else [] := fun p =>
    List.append_cancel_left ((ha p).symm.trans (ha' p))
  by_cases hp : place = place'
  · have hm := congrArg (List.map Component.event) (hsame place)
    simpa [hp, Function.comp_def] using hm
  -- two places are both without an addition, so nothing has been added
  · have hl := hsame place
    have hr := hsame place'
    rw [if_pos rfl, if_neg hp] at hl
    rw [if_pos rfl, if_neg fun e => hp e.symm] at hr
    rw [List.map_eq_nil_iff.mp hl, List.map_eq_nil_iff.mp hr.symm]

/-! ### Scores with an empty report -/

theorem findings_eq_nil (hb : build false ts = .ok score) (hr : score.report.issues = []) :
    (reached ts).findings = [] := by
  rw [issues_build hb, List.append_eq_nil_iff] at hr
  exact List.map_eq_nil_iff.mp hr.1

/-- A token that plays something has a leaf, a performer and an instrument. -/
theorem context?_or_played (hb : build false ts = .ok score) (hr : score.report.issues = [])
    (ho : o ∈ occurrences ts) : (∃ c, context? o.before = some c) ∨ o.token.played = [] := by
  have hl : losses ts = [] := by
    rw [← lost_reached (build_lenient_eq_ok.mp hb).1, lost, findings_eq_nil hb hr]
    rfl
  have hlo : o.losses = [] := List.flatMap_eq_nil_iff.mp hl o ho
  rw [Occurrence.losses] at hlo
  cases hc : context? o.before with
  | some c => exact .inl ⟨c, rfl⟩
  | none =>
    rw [hc] at hlo
    exact .inr (List.map_eq_nil_iff.mp hlo)

theorem attributions_append (ts us : List Token) :
    attributions ts <+: attributions (ts ++ us) := by
  rw [attributions, attributions, occurrences, occurrences, occurrencesFrom_append,
    List.flatMap_append]
  exact List.prefix_append _ _

/-- **What a token adds to a score with an empty report.** -/
theorem receives_played (hb : build false ts = .ok score) (hr : score.report.issues = [])
    (ho : o ∈ occurrences ts) : score.Receives o o.token.played := by
  obtain ⟨after, hts⟩ := mem_occurrences.mp ho
  rw [List.append_cons] at hts
  have hw := (build_lenient_eq_ok.mp hb).1
  have hbe : build false o.before = .ok (reached o.before).toScore :=
    build_lenient_eq_ok.mpr ⟨fun t ht => hw t (by simp [hts, ht]), rfl⟩
  have hbl : build false (o.before ++ [o.token]) =
      .ok (reached (o.before ++ [o.token])).toScore := by
    refine build_lenient_eq_ok.mpr ⟨fun t ht => hw t ?_, rfl⟩
    rw [hts]
    exact List.mem_append_left _ ht
  have hkept : ∀ p, (reached (o.before ++ [o.token])).toScore.componentsAt p <+:
      score.componentsAt p := by
    intro p
    rw [componentsAt_build hbl, componentsAt_build hb]
    have ha : attributions (o.before ++ [o.token]) <+: attributions ts := by
      rw [hts]
      exact attributions_append _ _
    exact (ha.filter _).map _
  rcases context?_or_played hb hr ho with ⟨c, hc⟩ | hnil
  · refine .intro _ _ c.place c.performer c.instrument hbe hbl (fun p => ?_) hkept
    rw [componentsAt_build hbl, componentsAt_build hbe, attributions_concat, List.filter_append,
      List.map_append, Occurrence.attributions, hc]
    by_cases hp : p = c.place
    · subst hp
      simp [List.filter_map, Function.comp_def]
    · have hne : ¬ c.place = p := fun e => hp e.symm
      simp [List.filter_map, Function.comp_def, hp, hne]
  · refine .intro _ _ ⟨0, []⟩ "" "" hbe hbl (fun p => ?_) hkept
    rw [componentsAt_build hbl, componentsAt_build hbe, attributions_concat,
      (Occurrence.eq_nil_of_played hnil _).1, hnil, List.append_nil, List.map_nil, ite_self,
      List.append_nil]

end

/-! ### Containers of which all is used -/

/-- Nothing of a token is passed over. -/
@[mk_iff]
structure Token.IsUsed (t : Token) : Prop where
  /-- What is nested in a pitch is a floating point number, or the start of a spanner. -/
  pitch : t.IsContainerOf .pitch → ∀ u ∈ t.nested, ¬ u.IsContainerOf .spannerStart → u.float?.isSome
  articulation : t.IsContainerOf .articulation → ∀ u ∈ t.nested, u.text?.isSome
  dynamic : t.IsContainerOf .dynamicMarking → ∀ u ∈ t.nested, u.IsDynamicEvent
  /-- A type stands behind an instrument. -/
  behind : t.IsContainerOf .performerDeclaration → ∀ u ∈ occurrences t.nested,
    u.token.Carries .instrumentType → (latest .instrumentId u.before).isSome
  /-- No instrument has two types. -/
  functional : t.IsContainerOf .performerDeclaration → ∀ a ∈ assignments t.nested,
    ∀ b ∈ assignments t.nested, a.1 = b.1 → a.2 = b.2

instance (t : Token) : Decidable t.IsUsed := decidable_of_iff' _ t.isUsed_iff

/-- A type of a declaration is what the table says about the instrument that was named last before
it, as soon as the declaration has been read. -/
def Occurrence.Assigned (o u : Occurrence) : Prop :=
  ∃ performer later id kind, o.token.declared? = some performer ∧
    build false (o.before ++ [o.token]) = .ok later ∧
    latest .instrumentId u.before = some id ∧
    u.token.text?.bind Instrument.ofText? = some kind ∧
    (later.instrumentsFor performer).get? id = some kind

/-- A score keeps all of the containers of its stream. -/
structure Score.KeepsAll (score : Score) (ts : List Token) : Prop where
  /-- There is one value for each token in a pitch that does not start a spanner. -/
  pitch : ∀ o ∈ occurrences ts, o.token.IsContainerOf .pitch → ∃ value : Token → Binary64,
    score.Receives o
      [.pitch ((o.token.nested.filter fun u => ¬ u.IsContainerOf .spannerStart).map value)]
  /-- There is one marking for each token in an articulation. -/
  articulation : ∀ o ∈ occurrences ts, o.token.IsContainerOf .articulation →
    ∃ marking : Token → Text, score.Receives o [.articulation (o.token.nested.map marking)]
  /-- There is one component for each token in a dynamic. -/
  dynamic : ∀ o ∈ occurrences ts, o.token.IsContainerOf .dynamicMarking →
    ∃ event : Token → Event, score.Receives o (o.token.nested.map event)
  /-- Each type in a declaration is assigned. -/
  declaration : ∀ o ∈ occurrences ts, o.token.IsContainerOf .performerDeclaration →
    ∀ u ∈ occurrences o.token.nested, u.token.Carries .instrumentType → o.Assigned u

namespace Token

variable {t u : Token}

theorem played_of_pitch (h : t.IsContainerOf .pitch) :
    t.played = [.pitch (t.nested.filterMap float?)] := if_pos h

theorem played_of_articulation (h : t.IsContainerOf .articulation) :
    t.played = [.articulation (t.nested.filterMap text?)] := by
  have hp : ¬ t.IsContainerOf .pitch := fun hp => absurd (hp.2.unique h.2) (by decide)
  rw [played, if_neg hp, if_pos h]

theorem played_of_dynamic (h : t.IsContainerOf .dynamicMarking) :
    t.played = t.nested.filterMap dynamicEvent? := by
  have hp : ¬ t.IsContainerOf .pitch := fun hp => absurd (hp.2.unique h.2) (by decide)
  have ha : ¬ t.IsContainerOf .articulation := fun ha => absurd (ha.2.unique h.2) (by decide)
  rw [played, if_neg hp, if_neg ha, if_pos h]

theorem not_isContainerOf_of_float? (h : u.float?.isSome) (k : Keyword) : ¬ u.IsContainerOf k := by
  rintro ⟨hc, -⟩
  cases u with
  | container i opening ts => cases h
  | _ => cases hc

theorem isSome_text?_iff : u.text?.isSome ↔ u.IsText := by
  constructor
  · intro h
    cases u with
    | text i value => exact ⟨i, value, rfl⟩
    | _ => cases h
  · rintro ⟨i, value, rfl⟩
    rfl

/-- In a dynamic that is well-formed, what stands for an event is one. -/
theorem isSome_dynamicEvent?_iff (hw : t.isWellFormed = true)
    (h : t.IsContainerOf .dynamicMarking) (hu : u ∈ t.nested) :
    u.dynamicEvent?.isSome ↔ u.IsDynamicEvent := by
  have htext : u.Carries .value → u.IsText := by
    intro hc
    by_contra hn
    obtain ⟨hf, hk⟩ := h
    cases t with
    | container i opening ts => exact isWellFormed_iff.mp hw (.dynamic hk hu hc hn)
    | _ => cases hf
  rw [isDynamicEvent_iff]
  simp only [keyword?_eq_some_iff]
  unfold dynamicEvent?
  by_cases hv : u.Carries .value
  · rw [if_pos hv, Option.isSome_map]
    exact iff_of_true (isSome_text?_iff.mpr (htext hv)) (.inl hv)
  · rw [if_neg hv]
    by_cases hs : u.Carries .spannerStart
    · rw [if_pos hs]
      exact iff_of_true rfl (.inr (.inl hs))
    · rw [if_neg hs]
      by_cases he : u.Carries .spannerStop
      · rw [if_pos he]
        exact iff_of_true rfl (.inr (.inr he))
      · rw [if_neg he]
        simp [hv, hs, he]

end Token

/-! ### Types that are assigned -/

theorem mem_assignments {ts : List Token} {a : Text × Instrument} :
    a ∈ assignments ts ↔ ∃ u ∈ occurrences ts, u.assignment? = some a := List.mem_filterMap

theorem Occurrence.assignment?_eq_some_iff {u : Occurrence} {a : Text × Instrument} :
    u.assignment? = some a ↔ u.token.Carries .instrumentType ∧
      latest .instrumentId u.before = some a.1 ∧
      u.token.text?.bind Instrument.ofText? = some a.2 := by
  unfold assignment? Token.textUnder?
  by_cases hc : u.token.Carries .instrumentType
  · rw [if_pos hc, Option.bind_eq_some_iff]
    constructor
    · rintro ⟨id, hid, hk⟩
      obtain ⟨kind, hkind, rfl⟩ := Option.map_eq_some_iff.mp hk
      exact ⟨hc, hid, hkind⟩
    · rintro ⟨-, hid, hk⟩
      exact ⟨a.1, hid, by rw [hk]; rfl⟩
  · rw [if_neg hc]
    simp [hc]

namespace Token

variable {t : Token}

/-- In a declaration without unknown types, every type is one. -/
theorem exists_kind_of_mem (hw : t.isWellFormed = true) (h : t.IsContainerOf .performerDeclaration)
    (hn : t.unknownType? = none) {u : Occurrence} (hu : u ∈ occurrences t.nested)
    (hc : u.token.Carries .instrumentType) :
    ∃ kind, u.token.text?.bind Instrument.ofText? = some kind := by
  obtain ⟨-, -, hs, -⟩ := exists_declared? hw h
  have hknown : ∀ w ∈ t.nested, ∀ name, w.textUnder? .instrumentType = some name →
      Instrument.ofText? name ≠ none := by
    intro w hw name hname he
    have hf := List.find?_eq_none.mp hn name (List.mem_filterMap.mpr ⟨w, hw, hname⟩)
    exact hf (decide_eq_true he)
  by_cases ht : u.token.IsText
  · obtain ⟨i, name, he⟩ := ht
    have hname : u.token.textUnder? .instrumentType = some name := by
      rw [textUnder?, if_pos hc, he]
      rfl
    obtain ⟨kind, hk⟩ := Option.ne_none_iff_exists'.mp
      (hknown _ (Occurrence.token_mem hu) name hname)
    exact ⟨kind, by rw [he]; exact hk⟩
  · refine absurd ?_ hs
    obtain ⟨after, hafter⟩ := mem_occurrences.mp hu
    refine ⟨u.before, u.token, after, hafter, ⟨.inr hc, ht⟩, ?_⟩
    rintro w hw ⟨hk, i, name, rfl, he⟩
    refine hknown _ (hafter ▸ List.mem_append_left _ hw) name ?_ he
    rw [textUnder?, if_pos hk]
    rfl

end Token

section

variable {ts : List Token} {score later : Score} {o u : Occurrence} {performer : Text}

theorem unknownType?_eq_none (hb : build false ts = .ok score) (hr : score.report.issues = [])
    (ho : o ∈ occurrences ts) (hd : o.token.declared? = some performer) :
    o.token.unknownType? = none := by
  have hl : refusals ts = [] := by
    rw [← errors_reached (build_lenient_eq_ok.mp hb).1, errors, findings_eq_nil hb hr]
    rfl
  have hn := List.filterMap_eq_nil_iff.mp hl o ho
  rw [Occurrence.refusal?, hd, Option.bind_some, Option.map_eq_none_iff] at hn
  exact hn

/-- Right behind a declaration, the score holds its assignments. -/
theorem collects_instrumentsFor (hb : build false (o.before ++ [o.token]) = .ok later)
    (hd : o.token.declared? = some performer) (hu : o.token.unknownType? = none) :
    (later.instrumentsFor performer).Collects (assignments o.token.nested) := by
  have h := (lists_build hb).instruments performer
  rw [declarationsOf_concat, if_pos ⟨hd, hu⟩, List.getLast?_concat] at h
  exact h

theorem assigned_iff (hb : build false (o.before ++ [o.token]) = .ok later)
    (hd : o.token.declared? = some performer) (hc : u.token.Carries .instrumentType) :
    o.Assigned u ↔ ∃ a, u.assignment? = some a ∧
      (later.instrumentsFor performer).get? a.1 = some a.2 := by
  simp only [Occurrence.assignment?_eq_some_iff]
  constructor
  · rintro ⟨performer', later', id, kind, hd', hb', hid, hk, hg⟩
    obtain rfl := Option.some.inj (hd.symm.trans hd')
    obtain rfl := Except.ok.inj (hb.symm.trans hb')
    exact ⟨(id, kind), ⟨hc, hid, hk⟩, hg⟩
  · rintro ⟨a, ⟨-, hid, hk⟩, hg⟩
    exact ⟨performer, later, a.1, a.2, hd, hb, hid, hk, hg⟩

/-- **The types of a declaration are assigned exactly if each stands behind an instrument, and none
is replaced.** -/
theorem assigned_all_iff (hb : build false ts = .ok score) (hr : score.report.issues = [])
    (ho : o ∈ occurrences ts) (h : o.token.IsContainerOf .performerDeclaration) :
    (∀ u ∈ occurrences o.token.nested, u.token.Carries .instrumentType → o.Assigned u) ↔
      (∀ u ∈ occurrences o.token.nested, u.token.Carries .instrumentType →
        (latest .instrumentId u.before).isSome) ∧
      ∀ a ∈ assignments o.token.nested, ∀ b ∈ assignments o.token.nested,
        a.1 = b.1 → a.2 = b.2 := by
  have hw := (build_lenient_eq_ok.mp hb).1 _ (Occurrence.token_mem ho)
  obtain ⟨performer, hd, -, -⟩ := Token.exists_declared? hw h
  have hu := unknownType?_eq_none hb hr ho hd
  obtain ⟨earlier, later, -, -, -, -, hbl, -, -⟩ := receives_played hb hr ho
  have hcollects := collects_instrumentsFor hbl hd hu
  constructor
  · intro hall
    have hget : ∀ a ∈ assignments o.token.nested,
        (later.instrumentsFor performer).get? a.1 = some a.2 := by
      intro a ha
      obtain ⟨u, hm, hua⟩ := mem_assignments.mp ha
      have hc := (Occurrence.assignment?_eq_some_iff.mp hua).1
      obtain ⟨a', hua', hg⟩ := (assigned_iff hbl hd hc).mp (hall u hm hc)
      obtain rfl := Option.some.inj (hua.symm.trans hua')
      exact hg
    refine ⟨fun u hm hc => ?_, fun a ha b hb he => ?_⟩
    · obtain ⟨a, hua, -⟩ := (assigned_iff hbl hd hc).mp (hall u hm hc)
      rw [(Occurrence.assignment?_eq_some_iff.mp hua).2.1]
      rfl
    · have hga := hget a ha
      rw [he, hget b hb] at hga
      exact (Option.some.inj hga).symm
  · rintro ⟨hbehind, hfun⟩ u hm hc
    obtain ⟨id, hid⟩ := Option.isSome_iff_exists.mp (hbehind u hm hc)
    obtain ⟨kind, hk⟩ := Token.exists_kind_of_mem hw h hu hm hc
    have hua : u.assignment? = some (id, kind) :=
      Occurrence.assignment?_eq_some_iff.mpr ⟨hc, hid, hk⟩
    have hmem : (id, kind) ∈ (assignments o.token.nested).filter fun pair => pair.1 = id :=
      List.mem_filter.mpr ⟨mem_assignments.mpr ⟨u, hm, hua⟩, decide_eq_true rfl⟩
    refine (assigned_iff hbl hd hc).mpr ⟨(id, kind), hua, ?_⟩
    rw [hcollects.get?]
    -- the last type of the instrument is the one in question, as it has no other
    cases hlast : ((assignments o.token.nested).filter fun pair => pair.1 = id).getLast? with
    | none =>
      rw [List.getLast?_eq_none_iff.mp hlast] at hmem
      cases hmem
    | some b =>
      obtain ⟨hb, hbid⟩ := List.mem_filter.mp (List.mem_of_getLast? hlast)
      have he := hfun (id, kind) (List.mem_filter.mp hmem).1 b hb (of_decide_eq_true hbid).symm
      rw [Option.map_some, ← he]

/-! ### Scores that keep all -/

theorem pitch_kept_iff (h : score.Receives o o.token.played) (hp : o.token.IsContainerOf .pitch) :
    (∃ value : Token → Binary64, score.Receives o
      [.pitch ((o.token.nested.filter fun u => ¬ u.IsContainerOf .spannerStart).map value)]) ↔
      ∀ u ∈ o.token.nested, ¬ u.IsContainerOf .spannerStart → u.float?.isSome := by
  have hfloat : ∀ u ∈ o.token.nested, u.float?.isSome →
      decide (¬ u.IsContainerOf .spannerStart) := fun u _ hf =>
    decide_eq_true (Token.not_isContainerOf_of_float? hf .spannerStart)
  have hone := exists_eq_map_iff Binary64.nan hfloat
  simp only [decide_eq_true_eq] at hone
  rw [Token.played_of_pitch hp] at h
  rw [← hone]
  constructor
  · rintro ⟨value, hv⟩
    exact ⟨value, Event.pitch.inj (List.singleton_inj.mp (h.unique hv))⟩
  · rintro ⟨value, hv⟩
    exact ⟨value, hv ▸ h⟩

theorem articulation_kept_iff (h : score.Receives o o.token.played)
    (ha : o.token.IsContainerOf .articulation) :
    (∃ marking : Token → Text, score.Receives o [.articulation (o.token.nested.map marking)]) ↔
      ∀ u ∈ o.token.nested, u.text?.isSome := by
  rw [Token.played_of_articulation ha] at h
  rw [← exists_eq_map_all_iff (default : Text)]
  constructor
  · rintro ⟨marking, hm⟩
    exact ⟨marking, Event.articulation.inj (List.singleton_inj.mp (h.unique hm))⟩
  · rintro ⟨marking, hm⟩
    exact ⟨marking, hm ▸ h⟩

theorem dynamic_kept_iff (h : score.Receives o o.token.played) (hw : o.token.isWellFormed = true)
    (hd : o.token.IsContainerOf .dynamicMarking) :
    (∃ event : Token → Event, score.Receives o (o.token.nested.map event)) ↔
      ∀ u ∈ o.token.nested, u.IsDynamicEvent := by
  have hall : (∀ u ∈ o.token.nested, u.dynamicEvent?.isSome) ↔
      ∀ u ∈ o.token.nested, u.IsDynamicEvent :=
    forall₂_congr fun u hu => Token.isSome_dynamicEvent?_iff hw hd hu
  rw [Token.played_of_dynamic hd] at h
  rw [← hall, ← exists_eq_map_all_iff Event.rest]
  constructor
  · rintro ⟨event, he⟩
    exact ⟨event, h.unique he⟩
  · rintro ⟨event, he⟩
    exact ⟨event, he ▸ h⟩

theorem keepsAll_iff (hb : build false ts = .ok score) (hr : score.report.issues = []) :
    score.KeepsAll ts ↔ ∀ t ∈ ts, t.IsUsed := by
  have hrec : ∀ o ∈ occurrences ts, score.Receives o o.token.played := fun o ho =>
    receives_played hb hr ho
  have hwell : ∀ o ∈ occurrences ts, o.token.isWellFormed = true := fun o ho =>
    (build_lenient_eq_ok.mp hb).1 _ (Occurrence.token_mem ho)
  constructor
  · intro h t ht
    obtain ⟨before, after, rfl⟩ := List.append_of_mem ht
    have ho : ⟨before, t⟩ ∈ occurrences (before ++ t :: after) :=
      mem_occurrences.mpr ⟨after, rfl⟩
    have hdecl := fun hc => (assigned_all_iff hb hr ho hc).mp (h.declaration _ ho hc)
    exact
      { pitch := fun hc => (pitch_kept_iff (hrec _ ho) hc).mp (h.pitch _ ho hc)
        articulation := fun hc =>
          (articulation_kept_iff (hrec _ ho) hc).mp (h.articulation _ ho hc)
        dynamic := fun hc =>
          (dynamic_kept_iff (hrec _ ho) (hwell _ ho) hc).mp (h.dynamic _ ho hc)
        behind := fun hc => (hdecl hc).1
        functional := fun hc => (hdecl hc).2 }
  · intro h
    have hused : ∀ o ∈ occurrences ts, o.token.IsUsed := fun o ho => h _ (Occurrence.token_mem ho)
    exact
      { pitch := fun o ho hc => (pitch_kept_iff (hrec o ho) hc).mpr ((hused o ho).pitch hc)
        articulation := fun o ho hc =>
          (articulation_kept_iff (hrec o ho) hc).mpr ((hused o ho).articulation hc)
        dynamic := fun o ho hc =>
          (dynamic_kept_iff (hrec o ho) (hwell o ho) hc).mpr ((hused o ho).dynamic hc)
        declaration := fun o ho hc => (assigned_all_iff hb hr ho hc).mpr
          ⟨(hused o ho).behind hc, (hused o ho).functional hc⟩ }

/-- **A score with an empty report has got every event of its stream, and it keeps all of its
containers exactly if every token is used.** -/
theorem kept_build (hb : build false ts = .ok score) (hr : score.report.issues = []) :
    (∀ o ∈ occurrences ts, score.Receives o o.token.played) ∧
      (score.KeepsAll ts ↔ ∀ t ∈ ts, t.IsUsed) :=
  ⟨fun _ ho => receives_played hb hr ho, keepsAll_iff hb hr⟩

end

open Token in
/-- A player declares an instrument and plays a pitch of some tokens on a note. -/
def pitchStream (nested : List Token) : List Token :=
  [.declaration "strings" [("first", "Violin")],
    .text Keyword.performerId.spelling "strings", .text Keyword.instrumentId.spelling "first",
    root (.ofNat 4), leaf 1 (.below 0), .container Keyword.pitch.spelling none nested]

/-- A floating point number and the start of a spanner. -/
def keptPitch : List Token :=
  [.float Keyword.value.spelling (.ofInt 60), .container Keyword.spannerStart.spelling none []]

/-- A whole number. -/
def droppedPitch : List Token := [.int Keyword.value.spelling 60 none]

theorem build_pitchStream (nested : List Token)
    (hw : ∀ t ∈ pitchStream nested, t.isWellFormed) :
    build false (pitchStream nested) = .ok (reached (pitchStream nested)).toScore :=
  build_lenient_eq_ok.mpr ⟨hw, rfl⟩

theorem kept_build_pitchStream :
    ∃ score, build false (pitchStream keptPitch) = .ok score ∧ score.report.issues = [] ∧
      score.KeepsAll (pitchStream keptPitch) := by
  have hb := build_pitchStream keptPitch (by decide +kernel)
  have hr : (reached (pitchStream keptPitch)).toScore.report.issues = [] := by decide +kernel
  have hu : ∀ t ∈ pitchStream keptPitch, t.IsUsed := by decide +kernel
  exact ⟨_, hb, hr, (kept_build hb hr).2.mpr hu⟩

/-- **There is a stream of which a part is dropped without a word.** -/
theorem not_forall_keepsAll :
    ¬ ∀ (ts : List Token) (score : Score), build false ts = .ok score →
      score.report.issues = [] → score.KeepsAll ts := by
  intro h
  have hb := build_pitchStream droppedPitch (by decide +kernel)
  have hr : (reached (pitchStream droppedPitch)).toScore.report.issues = [] := by decide +kernel
  have hu : ¬ ∀ t ∈ pitchStream droppedPitch, t.IsUsed := by decide +kernel
  exact hu ((keepsAll_iff hb hr).mp (h _ _ hb hr))

end RhythmTree
