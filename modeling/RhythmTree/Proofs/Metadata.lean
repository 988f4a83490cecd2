import Mathlib.Data.List.DropRight
import RhythmTree.Proofs.Contexts
import RhythmTree.Proofs.Layers
import RhythmTree.Proofs.Tables

/-!
# Metadata

A key waits for the value behind it. The next value takes it, another key replaces it, and a value
that finds no key is dropped. What a score says about its title and its metadata can be read off the
stream: every value is stored under the latest key before it, unless another value has taken that
key already, and the title is what was said last, be it by a title or by a value under the key of
the title.

* `keyFor?`, `Occurrence.pair?`, `Occurrence.orphan?`, `Occurrence.title?`: what a token about
  metadata leaves in the score, told by the tokens before it.
* `BuilderState.Files.after`, `files_reached`: **a builder keeps track of the keys and their
  values.**
* `metadata_build`: **the title, the metadata and the dropped values of a score, which depend on
  the tokens about them alone.**
-/

namespace RhythmTree

open BuilderState

/-! ### Keys and their values -/

/-- The tokens behind the latest one under a keyword. -/
def behindLatest (k : Keyword) (ts : List Token) : List Token :=
  ts.rtakeWhile fun t => t.textUnder? k = none

/-- The key for a value behind some tokens: the latest key, unless a value lies between them. -/
def keyFor? (before : List Token) : Option Text :=
  if latest .metadataValue (behindLatest .metadataKey before) = none then
    latest .metadataKey before
  else none

theorem keyFor?_concat (ts : List Token) (t : Token) :
    keyFor? (ts ++ [t]) = (t.textUnder? .metadataKey).or
      (if t.textUnder? .metadataValue = none then keyFor? ts else none) := by
  rw [keyFor?, latest_concat, behindLatest, List.rtakeWhile_concat]
  cases t.textUnder? .metadataKey with
  | some key => rfl
  | none =>
    rw [if_pos (decide_eq_true rfl), latest_concat]
    cases t.textUnder? .metadataValue with
    | none => rfl
    | some value => rfl

namespace Occurrence

/-- The pair that a value is stored in: its key and the value itself. -/
def pair? (o : Occurrence) : Option (Text × Text) :=
  (keyFor? o.before).bind fun key =>
    (o.token.textUnder? .metadataValue).map fun value => (key, value)

/-- The issue about a value without a key. -/
def orphan? (o : Occurrence) : Option Issue :=
  if keyFor? o.before = none then
    (o.token.textUnder? .metadataValue).map fun value =>
      { severity := .info
        code := "ORPHAN_METADATA_VALUE"
        message := Text.ofString ("Dropped metadata value " ++ value.quote ++ ": no pending key")
        location := some (tokenPlace o.index) }
  else none

/-- What a token says about the title: the text of a title, or a value under its key. -/
def title? (o : Occurrence) : Option Text :=
  (o.token.textUnder? .title).or
    (o.pair?.bind fun pair => if pair.1 = Keyword.title.spelling then some pair.2 else none)

end Occurrence

/-! ### What a token says -/

/-- The title that an instruction sets. -/
def Instruction.title? : Instruction → Option Text
  | .setTitle title => some title
  | _ => none

/-- The key that an instruction sets. -/
def Instruction.key? : Instruction → Option Text
  | .setKey key => some key
  | _ => none

/-- The value of metadata that an instruction stores. -/
def Instruction.value? : Instruction → Option Text
  | .storeValue value => some value
  | _ => none

namespace Token

theorem title?_eq (t : Token) : t.instruction?.bind Instruction.title? = t.textUnder? .title :=
  bind_instruction?_eq_textUnder? .setTitle (fun _ => rfl) (fun _ _ _ => rfl) (fun _ => rfl)
    (fun i c k' h hk => by
      cases i with
      | setTitle _ => cases c <;> simp_all [Instruction.keywords]
      | _ => cases h) t

theorem key?_eq (t : Token) : t.instruction?.bind Instruction.key? = t.textUnder? .metadataKey :=
  bind_instruction?_eq_textUnder? .setKey (fun _ => rfl) (fun _ _ _ => rfl) (fun _ => rfl)
    (fun i c k' h hk => by
      cases i with
      | setKey _ => cases c <;> simp_all [Instruction.keywords]
      | _ => cases h) t

theorem value?_eq (t : Token) :
    t.instruction?.bind Instruction.value? = t.textUnder? .metadataValue :=
  bind_instruction?_eq_textUnder? .storeValue (fun _ => rfl) (fun _ _ _ => rfl) (fun _ => rfl)
    (fun i c k' h hk => by
      cases i with
      | storeValue _ => cases c <;> simp_all [Instruction.keywords]
      | _ => cases h) t

end Token

namespace BuilderState

/-- The findings about values without a key. -/
def orphans (s : BuilderState) : List Finding :=
  s.findings.filter fun f => f.code = "ORPHAN_METADATA_VALUE"

theorem orphans_perform_of_not {i : Instruction} (h : i.isImprint = false) (index : Nat)
    (identifier : String) (s : BuilderState) :
    (s.perform index identifier i).orphans = s.orphans := by
  refine (records_perform index identifier i s).filter_eq fun f hf => decide_eq_false fun hc => ?_
  rw [hc] at hf
  cases i with
  | storeValue _ => cases h
  | _ => simp [Instruction.codes] at hf

theorem orphans_record {f : Finding} (h : f.code = "ORPHAN_METADATA_VALUE") (s : BuilderState) :
    (s.record f).orphans = s.orphans ++ [f] := by
  simp only [orphans, record, List.filter_append, List.filter_cons, h, decide_true, if_true,
    List.filter_nil]

theorem orphans_record_unrecognized (s : BuilderState) (index : Nat) (kind : String)
    (identifier : Text) : (s.record (.unrecognized index kind identifier)).orphans = s.orphans := by
  rw [orphans, record, List.filter_append]
  exact List.append_nil _

/-- What a state knows about the title and the metadata, told by the tokens behind which it is
reached. -/
structure Files (ts : List Token) (s : BuilderState) : Prop where
  pendingKey : s.pendingKey = keyFor? ts
  metadata : s.metadata.Collects ((occurrences ts).filterMap Occurrence.pair?)
  title : s.title = ((occurrences ts).filterMap Occurrence.title?).getLast?.getD ""
  orphans : s.orphans.map Finding.issue = (occurrences ts).filterMap Occurrence.orphan?

namespace Files

variable {ts : List Token} {s s' : BuilderState} {t : Token}

theorem start : Files [] {} := ⟨rfl, Table.collects_empty, rfl, rfl⟩

theorem concat (h : Files ts s)
    (pendingKey : s'.pendingKey = (t.textUnder? .metadataKey).or
      (if t.textUnder? .metadataValue = none then s.pendingKey else none))
    (metadata : s'.metadata.Collects
      ((occurrences ts).filterMap Occurrence.pair? ++ (Occurrence.pair? ⟨ts, t⟩).toList))
    (title : s'.title = (Occurrence.title? ⟨ts, t⟩).getD s.title)
    (orphans : s'.orphans.map Finding.issue =
      s.orphans.map Finding.issue ++ (Occurrence.orphan? ⟨ts, t⟩).toList) :
    Files (ts ++ [t]) s' where
  pendingKey := by rw [pendingKey, h.pendingKey, keyFor?_concat]
  metadata := by
    rw [filterMap_occurrences_concat]
    exact metadata
  title := by
    rw [title, h.title, occurrences_concat, getLast?_filterMap_concat]
    cases Occurrence.title? ⟨ts, t⟩ <;> rfl
  orphans := by rw [orphans, h.orphans, filterMap_occurrences_concat]

/-- A token without a value stores no pair and leaves none unstored. -/
theorem concat_of_no_value (h : Files ts s) (hv : t.textUnder? .metadataValue = none)
    (pendingKey : s'.pendingKey = (t.textUnder? .metadataKey).or s.pendingKey)
    (metadata : s'.metadata = s.metadata)
    (title : s'.title = (t.textUnder? .title).getD s.title)
    (orphans : s'.orphans = s.orphans) : Files (ts ++ [t]) s' := by
  have hp : Occurrence.pair? ⟨ts, t⟩ = none := by simp [Occurrence.pair?, hv]
  have ho : Occurrence.orphan? ⟨ts, t⟩ = none := by simp [Occurrence.orphan?, hv]
  refine h.concat ?_ ?_ ?_ ?_
  · rw [pendingKey, if_pos hv]
  · rw [metadata, hp, Option.toList_none, List.append_nil]
    exact h.metadata
  · rw [title, Occurrence.title?, hp, Option.bind_none, Option.or_none]
  · rw [orphans, ho, Option.toList_none, List.append_nil]

/-- A value takes the key that waits, or is dropped. -/
theorem concat_storeValue (h : Files ts s) {value : Text} (ht : t.textUnder? .title = none)
    (hk : t.textUnder? .metadataKey = none) (hv : t.textUnder? .metadataValue = some value) :
    Files (ts ++ [t]) (s.storeValue ts.length value) := by
  cases hp : s.pendingKey with
  | none =>
    have hkey : keyFor? ts = none := h.pendingKey ▸ hp
    have hpair : Occurrence.pair? ⟨ts, t⟩ = none := by simp [Occurrence.pair?, hkey]
    have horphan : Occurrence.orphan? ⟨ts, t⟩ =
        some (Finding.orphanValue ts.length value).issue := by
      simp only [Occurrence.orphan?, hkey, if_true, hv]
      rfl
    rw [storeValue, hp]
    refine h.concat ?_ ?_ ?_ ?_
    · rw [hk, hv, Option.none_or, if_neg (Option.some_ne_none value)]
      exact hp
    · rw [hpair, Option.toList_none, List.append_nil]
      exact h.metadata
    · rw [Occurrence.title?, ht, hpair]
      rfl
    · rw [horphan, orphans_record rfl, List.map_append]
      rfl
  | some key =>
    have hkey : keyFor? ts = some key := h.pendingKey ▸ hp
    have hpair : Occurrence.pair? ⟨ts, t⟩ = some (key, value) := by
      simp [Occurrence.pair?, hkey, hv]
    have horphan : Occurrence.orphan? ⟨ts, t⟩ = none := by simp [Occurrence.orphan?, hkey]
    rw [storeValue, hp]
    refine h.concat ?_ ?_ ?_ ?_
    · rw [hk, hv, Option.none_or, if_neg (Option.some_ne_none value)]
    · rw [hpair]
      exact h.metadata.put key value
    · rw [Occurrence.title?, ht, hpair, Option.none_or, Option.bind_some]
      dsimp only
      split <;> rfl
    · rw [horphan, Option.toList_none, List.append_nil]
      rfl

theorem after (h : Files ts s) (t : Token) : Files (ts ++ [t]) (s.after ts.length t) := by
  have ht := t.title?_eq
  have hk := t.key?_eq
  have hv := t.value?_eq
  cases hi : t.instruction? with
  | none =>
    rw [hi, Option.bind_none] at ht hk hv
    rcases after_of_instruction?_eq_none hi s ts.length with e | e <;> rw [e]
    · exact h.concat_of_no_value hv.symm (by rw [← hk]; rfl) rfl (by rw [← ht]; rfl) rfl
    · exact h.concat_of_no_value hv.symm (by rw [← hk]; rfl) rfl (by rw [← ht]; rfl)
        (orphans_record_unrecognized s _ _ _)
  | some i =>
    rw [hi, Option.bind_some] at ht hk hv
    rw [after_of_instruction? hi]
    cases hn : i.isImprint with
    | false =>
      obtain ⟨et, er⟩ := Prod.mk.inj (imprint_perform_of_not hn ts.length t.name s)
      obtain ⟨em, ek⟩ := Prod.mk.inj er
      have hnone : i.title? = none ∧ i.key? = none ∧ i.value? = none := by
        cases i with
        | setTitle _ | setKey _ | storeValue _ => cases hn
        | _ => exact ⟨rfl, rfl, rfl⟩
      refine h.concat_of_no_value (hv ▸ hnone.2.2) ?_ em ?_ (orphans_perform_of_not hn _ _ s)
      · rw [← hk, hnone.2.1, ek, Option.none_or]
      · rw [← ht, hnone.1, et, Option.getD_none]
    | true =>
      cases i with
      | setTitle title =>
        exact h.concat_of_no_value hv.symm (by rw [← hk]; rfl) rfl (by rw [← ht]; rfl) rfl
      | setKey key =>
        exact h.concat_of_no_value hv.symm (by rw [← hk]; rfl) rfl (by rw [← ht]; rfl) rfl
      | storeValue value => exact h.concat_storeValue ht.symm hk.symm hv.symm
      | _ => cases hn

end Files

/-- **A builder keeps track of the keys and their values.** -/
theorem files_reached (ts : List Token) : Files ts (reached ts) := by
  induction ts using List.reverseRecOn with
  | nil => exact .start
  | append_singleton ts t ih =>
    rw [reached_concat]
    exact ih.after t

end BuilderState

/-- **The findings about values without a key are a layer,** together with the key that waits. -/
theorem layer_orphans :
    Layer Token.IsImprint fun s => (s.imprint, s.orphans.map Finding.unplaced) :=
  .of_perform Token.isImprint_of_instruction?
    (fun s _ _ _ => by rw [orphans_record_unrecognized]; rfl)
    (fun {i s s'} a b identifier hi h => by
      obtain ⟨him, ho⟩ := Prod.mk.inj h
      cases i with
      | setTitle title => exact congrArg (fun x => ((title, x.1.2), x.2)) h
      | setKey key => exact congrArg (fun x => ((x.1.1, x.1.2.1, some key), x.2)) h
      | storeValue value =>
        refine Prod.ext (imprint_storeValue a b value him) ?_
        have hp : s.pendingKey = s'.pendingKey := congrArg (fun x => x.2.2) him
        show (s.storeValue a value).orphans.map _ = (s'.storeValue b value).orphans.map _
        rw [storeValue, storeValue, hp]
        cases s'.pendingKey with
        | some key => exact ho
        | none =>
          dsimp only
          rw [orphans_record rfl, orphans_record rfl, List.map_append, List.map_append, ho]
          rfl
      | _ => cases hi)
    (fun s a identifier hi => by
      rw [imprint_perform_of_not hi, orphans_perform_of_not hi])

/-! ### Scores -/

theorem title_toScore (s : BuilderState) : s.toScore.title = s.title :=
  congrArg Catalogue.title (catalogue_closeMeasure s)

theorem metadata_toScore (s : BuilderState) : s.toScore.metadata = s.metadata :=
  congrArg Catalogue.metadata (catalogue_closeMeasure s)

theorem orphans_build {ts : List Token} {score : Score} (h : build false ts = .ok score) :
    score.report.withCode "ORPHAN_METADATA_VALUE" = (reached ts).orphans.map Finding.issue :=
  withCode_build h (by decide)

/-- What the issues about values without a key say does not depend on where the values stand. -/
theorem messages_orphans_build {ts : List Token} {score : Score} (h : build false ts = .ok score) :
    (score.report.withCode "ORPHAN_METADATA_VALUE").map Issue.message =
      ((reached ts).orphans.map Finding.unplaced).map fun f => Text.ofString f.message := by
  rw [orphans_build h, List.map_map, List.map_map]
  exact List.map_congr_left fun f _ => congrArg Text.ofString f.message_unplaced.symm

/-- **Every value is stored under the latest key before it, unless another value lies between them;
it is dropped with one issue if there is no such key.** The metadata of a score maps every key to
the value that was stored last, in the order in which the keys were first stored. The title is what
was said last, by a title or by a value under the key of the title. The tokens about the title and
the metadata leave the same without those between them. -/
theorem metadata_build {ts : List Token} {score : Score} (h : build false ts = .ok score) :
    score.metadata.Collects ((occurrences ts).filterMap Occurrence.pair?) ∧
      score.report.withCode "ORPHAN_METADATA_VALUE" =
        (occurrences ts).filterMap Occurrence.orphan? ∧
      score.title = ((occurrences ts).filterMap Occurrence.title?).getLast?.getD "" ∧
      ∃ core, build false (ts.filter fun t => t.IsImprint) = .ok core ∧
        core.title = score.title ∧ core.metadata = score.metadata ∧
        (core.report.withCode "ORPHAN_METADATA_VALUE").map Issue.message =
          (score.report.withCode "ORPHAN_METADATA_VALUE").map Issue.message := by
  have hfiles := files_reached ts
  have horphans := orphans_build h
  have hmessages := messages_orphans_build h
  obtain ⟨hwell, rfl⟩ := build_lenient_eq_ok.mp h
  have hcore : build false (ts.filter fun t => t.IsImprint) =
      .ok (reached (ts.filter fun t => t.IsImprint)).toScore :=
    build_lenient_eq_ok.mpr ⟨fun t ht => hwell t (List.mem_of_mem_filter ht), rfl⟩
  have himprint := layer_imprint.view_reached ts
  have hlayer := congrArg Prod.snd (layer_orphans.view_reached ts)
  refine ⟨?_, ?_, ?_, _, hcore, ?_, ?_, ?_⟩
  · rw [metadata_toScore]
    exact hfiles.metadata
  · rw [horphans, hfiles.orphans]
  · rw [title_toScore, hfiles.title]
  · rw [title_toScore, title_toScore]
    exact congrArg Prod.fst himprint.symm
  · rw [metadata_toScore, metadata_toScore]
    exact congrArg (fun x => x.2.1) himprint.symm
  · rw [hmessages, messages_orphans_build hcore]
    exact congrArg _ hlayer.symm

open Token in
/-- A value without a key, a key that another one replaces, a value under the key of the title, a
title, two values under one key, and a second value behind a key that has been taken, with a measure
between a key and its value. -/
def keysAndValues : List Token :=
  [.text Keyword.metadataValue.spelling "early",
    .text Keyword.metadataKey.spelling "Composer", .text Keyword.metadataKey.spelling "Title",
    bar, root (.ofNat 4), .text Keyword.metadataValue.spelling "Study",
    .text Keyword.metadataKey.spelling "Style", .text Keyword.metadataValue.spelling "slow",
    .text Keyword.title.spelling "Air",
    .text Keyword.metadataKey.spelling "Title", .text Keyword.metadataValue.spelling "Aria",
    .text Keyword.metadataKey.spelling "Style", .text Keyword.metadataValue.spelling "fast",
    .text Keyword.metadataValue.spelling "late"]

theorem metadata_build_keysAndValues :
    ∃ score core, build false keysAndValues = .ok score ∧
      score.metadata.keys = (["Title", "Style"] : List Text) ∧
      score.metadata.get? "Title" = some "Aria" ∧ score.metadata.get? "Style" = some "fast" ∧
      score.title = "Aria" ∧
      (score.report.withCode "ORPHAN_METADATA_VALUE").map Issue.location =
        ([some "token[0]", some "token[13]"] : List (Option Text)) ∧
      build false (keysAndValues.filter fun t => t.IsImprint) = .ok core ∧
      core.title = score.title ∧ core.metadata = score.metadata := by
  have h : build false keysAndValues = .ok (reached keysAndValues).toScore :=
    build_lenient_eq_ok.mpr ⟨by decide +kernel, rfl⟩
  obtain ⟨hm, ho, ht, core, hc, het, hem, -⟩ := metadata_build h
  refine ⟨_, core, h, ?_, ?_, ?_, ?_, ?_, hc, het, hem⟩
  · rw [hm.keys]
    decide +kernel
  · rw [hm.get?]
    decide +kernel
  · rw [hm.get?]
    decide +kernel
  · rw [ht]
    decide +kernel
  · rw [ho]
    decide +kernel

end RhythmTree
