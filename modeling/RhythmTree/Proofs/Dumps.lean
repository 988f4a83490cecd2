import RhythmTree.Proofs.Outcomes
import RhythmTree.Proofs.WrittenDurations

/-!
# Tokens as plain data

A token can be written out as a record, and the record is checked like any other. It has every field
that the check looks for, in the one spelling that the check leaves as it is, so nothing of the
laxity of the check is left to be used a second time.

* `token_toDocument`, `tokens_toDocuments`: **the record of a token describes the token.**
* `parseReporting_list`: a stream is built from the tokens that its items describe.
* `dump_round_trip`: **tokens written out and the tokens themselves parse as what they were read
  from.**
-/

namespace RhythmTree

namespace Schema

theorem optionalLevel_number (l : Level) : optionalLevel (.int l.number) = .ok (some l) := by
  have hl : Level.ofInt? l.number = some l := by
    have h := l.one_le
    rw [Level.ofInt?, dif_pos (by omega)]
    rfl
  simp only [optionalLevel, int, hl]

theorem optionalLevel_toDocument (level : Option Level) :
    optionalLevel (match level with
      | some l => .int l.number
      | none => .null) = .ok level := by
  cases level with
  | none => rfl
  | some l => exact optionalLevel_number l

theorem optionalText_toDocument (opening : Option Text) :
    optionalText (match opening with
      | some value => .text value
      | none => .null) = .ok opening := by
  cases opening <;> rfl

theorem duration_text (d : Duration) : duration (.text d.text) = .ok d := by
  rw [duration, Duration.ofDocument_text]

theorem token_of_duration_fields {fields : Document.Fields} {id : Text} {d : Duration}
    (hk : kindOf fields = .ok "duration")
    (hi : Document.valueOf? "identifier" fields = some (.text id))
    (hv : Document.valueOf? "value" fields = some (.text d.text)) :
    token (.record fields) = .ok (.duration id d) := by
  rw [token_of_duration hk, identifier, required, required, hi, hv]
  dsimp only
  rw [duration_text]
  rfl

theorem token_of_int_fields {fields : Document.Fields} {id : Text} {n : Int} {l : Document}
    {level : Option Level} (hk : kindOf fields = .ok "int")
    (hi : Document.valueOf? "identifier" fields = some (.text id))
    (hv : Document.valueOf? "value" fields = some (.int n))
    (hl : Document.valueOf? "indentation_level" fields = some l)
    (hlevel : optionalLevel l = .ok level) :
    token (.record fields) = .ok (.int id n level) := by
  rw [token_of_atom hk (by decide)]
  show Checked.under _ (Checked.both (fun number level => Token.int number.1 number.2 level)
      (.both Prod.mk (identifier fields) (required "value" int fields))
      (withDefault "indentation_level" none optionalLevel fields)) = _
  rw [identifier, required, required, withDefault, hi, hv, hl]
  dsimp only
  rw [hlevel]
  rfl

theorem token_of_container_fields {fields : Document.Fields} {id : Text} {o : Document}
    {opening : Option Text} {items : List Document} {ts : List Token}
    (hk : kindOf fields = .ok "container")
    (hi : Document.valueOf? "identifier" fields = some (.text id))
    (ho : Document.valueOf? "opening_value" fields = some o)
    (ht : Document.valueOf? "tokens" fields = some (.list items))
    (hopening : optionalText o = .ok opening) (htokens : tokens 0 items = .ok ts) :
    token (.record fields) = .ok (.container id opening ts) := by
  rw [token_of_container hk, nested_eq_tokens ht rfl, htokens, identifier, required, withDefault,
    hi, ho]
  dsimp only
  rw [hopening]
  rfl

mutual

/-- **The record of a token describes the token.** -/
theorem token_toDocument (t : Token) : token t.toDocument = .ok t := by
  cases t with
  | text id value => rfl
  | float id value => rfl
  | int id value level =>
    exact token_of_int_fields rfl rfl rfl rfl (optionalLevel_toDocument level)
  | duration id value => exact token_of_duration_fields rfl rfl rfl
  | container id opening ts =>
    exact token_of_container_fields rfl rfl rfl rfl (optionalText_toDocument opening)
      (tokens_toDocuments ts 0)

/-- **The records of tokens describe the tokens.** -/
theorem tokens_toDocuments (ts : List Token) (first : Nat) :
    tokens first (Token.toDocuments ts) = .ok ts := by
  cases ts with
  | nil => rfl
  | cons t rest =>
    rw [Token.toDocuments, tokens, token_toDocument t, tokens_toDocuments rest (first + 1)]
    rfl

end

end Schema

/-- A stream is built from the tokens that its items describe, and what a builder leaves that has
halted is left. -/
theorem parseReporting_list {items : List Document} {ts : List Token}
    (h : Schema.stream (.list items) = .ok ts) (strict : Bool) :
    parseReporting strict (.list items) =
      (build strict ts).mapError fun halted =>
        (.halted halted.error, .ofFindings halted.findings) := by
  have hs : Schema.tokens 0 items = .ok ts := h
  have ht : tokensOf (.list items) = .ok ts := by
    simp only [tokensOf, Document.items?, hs]
  rw [parseReporting, ht]
  dsimp only
  cases build strict ts <;> rfl

/-- **Tokens written out and the tokens themselves parse as what they were read from.** Take the
items of a stream that pass the check. The records of their tokens pass it, too, and describe the
same tokens, which have the same records again. A builder makes of the records, of the items and of
the tokens the same score, or it halts at the same error and leaves the same report. -/
theorem dump_round_trip {items : List Document} {ts : List Token}
    (h : Schema.stream (.list items) = .ok ts) :
    (∃ us, Schema.stream (.list (Token.toDocuments ts)) = .ok us ∧ us = ts ∧
        Token.toDocuments us = Token.toDocuments ts) ∧
      ∀ strict, parseReporting strict (.list items) =
          ((build strict ts).mapError fun halted =>
            (.halted halted.error, .ofFindings halted.findings)) ∧
        parseReporting strict (.list (Token.toDocuments ts)) =
          parseReporting strict (.list items) ∧
        parse strict (.list items) =
          ((build strict ts).mapError fun halted => .halted halted.error) ∧
        parse strict (.list (Token.toDocuments ts)) = parse strict (.list items) := by
  have hd : Schema.stream (.list (Token.toDocuments ts)) = .ok ts :=
    Schema.tokens_toDocuments ts 0
  refine ⟨⟨ts, hd, rfl, rfl⟩, fun strict => ?_⟩
  have hi := parseReporting_list h strict
  have hr : parseReporting strict (.list (Token.toDocuments ts)) =
      parseReporting strict (.list items) := by
    rw [hi, parseReporting_list hd strict]
  refine ⟨hi, hr, ?_, ?_⟩
  · rw [parse, hi]
    cases build strict ts <;> rfl
  · rw [parse, parse, hr]

/-- A weight in a text, a level that is a truth value and a duration that is a pair, inside a
container with a field that no token has. -/
def laxItems : List Document :=
  [.record [("kind", .text "container"), ("identifier", .text "Pitch"), ("colour", .null),
    ("tokens", .list [
      .record [("value", .text " 7.0 "), ("kind", .text "int"), ("identifier", .text "Value"),
        ("indentation_level", .bool true)],
      .record [("kind", .text "duration"), ("identifier", .text "Length"),
        ("value", .list [.int 6, .text "3"])],
      .record [("kind", .text "float"), ("identifier", .text "Value"), ("value", .bool true)]])]]

/-- The tokens that these items describe. -/
def laxTokens : List Token :=
  [.container "Pitch" none [.int "Value" 7 (some ⟨1, Nat.le_refl 1⟩), .duration "Length" (.ofNat 2),
    .float "Value" (.ofInt 1)]]

theorem dump_round_trip_laxItems :
    Schema.stream (.list laxItems) = .ok laxTokens ∧
      Schema.stream (.list (Token.toDocuments laxTokens)) = .ok laxTokens ∧
      parse true (.list (Token.toDocuments laxTokens)) = parse true (.list laxItems) := by
  have hl : Schema.stream (.list laxItems) = .ok laxTokens := rfl
  obtain ⟨⟨us, hu, rfl, -⟩, hp⟩ := dump_round_trip hl
  exact ⟨hl, hu, (hp true).2.2.2⟩

end RhythmTree
