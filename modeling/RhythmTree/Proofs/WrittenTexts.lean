import Mathlib.Data.List.Chain
import RhythmTree.Document.Json.Printer
import RhythmTree.Document.Json.Reader

/-!
# Texts in JSON

A text is written in ASCII between quotes. A character outside of the basic plane is written as two
halves, and so is a half that stands alone, so a reader cannot tell the two halves of one character
from two halves that stand side by side.

* `symbolsOf_flatMap_pieces`: **two halves of one character that stand side by side are joined, and
  every other symbol is read back.**
* `joined_eq_self_iff`: **a text is read back as it is unless it has two such halves.**
* `Lexes.quoted`: the lexeme that a quoted text is.
-/

namespace RhythmTree

/-! ### Halves side by side -/

namespace Text

theorem not_surrogate (c : Char) : c.toNat < 0xD800 ∨ 0xE000 ≤ c.toNat := by
  rcases c.valid with h | h
  · exact .inl h
  · exact .inr (by have := h.1; exact this)

/-- The symbols with every two halves of one character joined. -/
def joinHalves : List Symbol → List Symbol
  | .half high :: .half low :: rest =>
    if isPair (Symbol.half high).code (Symbol.half low).code then
      .char (ofPair (Symbol.half high).code (Symbol.half low).code) :: joinHalves rest
    else .half high :: joinHalves (.half low :: rest)
  | symbol :: rest => symbol :: joinHalves rest
  | [] => []

/-- The text with every two halves of one character joined. -/
def joined (t : Text) : Text := ⟨joinHalves t.symbols⟩

/-- No two halves of one character stand side by side. -/
def Unpaired (t : Text) : Prop :=
  t.symbols.IsChain fun a b => isPair a.code b.code = false

instance (t : Text) : Decidable t.Unpaired := inferInstanceAs (Decidable (List.IsChain _ _))

theorem isPair_iff {high low : Nat} :
    isPair high low = true ↔ 0xD800 ≤ high ∧ high < 0xDC00 ∧ 0xDC00 ≤ low ∧ low < 0xE000 := by
  simp only [isPair, Bool.and_eq_true, decide_eq_true_eq, and_assoc]

theorem isPair_char_left (c : Char) (low : Nat) : isPair c.toNat low = false := by
  have := not_surrogate c
  rw [Bool.eq_false_iff, ne_eq, isPair_iff]
  omega

theorem isPair_char_right (high : Nat) (c : Char) : isPair high c.toNat = false := by
  have := not_surrogate c
  rw [Bool.eq_false_iff, ne_eq, isPair_iff]
  omega

theorem length_joinHalves_le (symbols : List Symbol) :
    (joinHalves symbols).length ≤ symbols.length := by
  induction symbols using joinHalves.induct with
  | case1 high low rest h ih =>
    rw [joinHalves, if_pos h, List.length_cons, List.length_cons, List.length_cons]
    omega
  | case2 high low rest h ih =>
    rw [joinHalves, if_neg h, List.length_cons, List.length_cons]
    omega
  | case3 symbol rest h ih =>
    rw [joinHalves, List.length_cons, List.length_cons]
    · omega
    · exact h
  | case4 => exact Nat.le_refl _

/-- **A text stays as it is unless two halves of one character stand side by side.** -/
theorem joinHalves_eq_self_iff (symbols : List Symbol) :
    joinHalves symbols = symbols ↔
      symbols.IsChain fun a b => isPair a.code b.code = false := by
  induction symbols using joinHalves.induct with
  | case1 high low rest h ih =>
    rw [joinHalves, if_pos h, List.isChain_cons_cons]
    constructor
    · intro he
      have hl := congrArg List.length he
      have hle := length_joinHalves_le rest
      simp only [List.length_cons] at hl
      omega
    · rintro ⟨hf, -⟩
      rw [h] at hf
      cases hf
  | case2 high low rest h ih =>
    rw [joinHalves, if_neg h, List.cons_inj_right, ih, List.isChain_cons_cons]
    exact ⟨fun hr => ⟨Bool.eq_false_iff.mpr h, hr⟩, And.right⟩
  | case3 symbol rest h ih =>
    rw [joinHalves, List.cons_inj_right, ih]
    · cases rest with
      | nil => simp
      | cons next rest =>
        have hpair : isPair symbol.code next.code = false := by
          cases symbol with
          | char c => exact isPair_char_left c _
          | half high =>
            cases next with
            | char c => exact isPair_char_right _ c
            | half low => exact absurd rfl (h high low rest rfl)
        rw [List.isChain_cons_cons]
        exact ⟨fun hr => ⟨hpair, hr⟩, And.right⟩
    · exact h
  | case4 => simp [joinHalves]

theorem joined_eq_self_iff (t : Text) : t.joined = t ↔ t.Unpaired := by
  obtain ⟨symbols⟩ := t
  rw [joined, Text.mk.injEq]
  exact joinHalves_eq_self_iff symbols

end Text

namespace Document.Json

open Text (Symbol isPair ofPair joinHalves)

/-! ### The parts of a quoted text -/

/-- The high half of a character outside of the basic plane. -/
def highHalf (c : Char) : Nat := 0xD800 + (c.toNat - 0x10000) / 0x400

/-- The low half of a character outside of the basic plane. -/
def lowHalf (c : Char) : Nat := 0xDC00 + (c.toNat - 0x10000) % 0x400

/-- A character that is not written by its code units. -/
def isSpelled (c : Char) : Bool :=
  c = '\n' || c = '\r' || c = '\t' || c = '\x08' || c = '\x0c' ||
    0x20 ≤ c.toNat && c.toNat < 0x7F

/-- The parts that a symbol is written as. -/
def pieces : Symbol → List Piece
  | .char c =>
    if isSpelled c then [.symbol (.char c)]
    else if c.toNat < 0x10000 then [.escape c.toNat]
    else [.escape (highHalf c), .escape (lowHalf c)]
  | .half number => [.escape (Symbol.half number).code]

theorem isPair_halves {c : Char} (h : 0x10000 ≤ c.toNat) :
    isPair (highHalf c) (lowHalf c) = true ∧ ofPair (highHalf c) (lowHalf c) = c := by
  have hlt : c.toNat < 0x110000 := by
    rcases c.valid with hv | hv
    · exact Nat.lt_trans hv (by decide)
    · exact hv.2
  constructor
  · rw [Text.isPair_iff]
    unfold highHalf lowHalf
    omega
  · have hn : 0x10000 + (highHalf c - 0xD800) * 0x400 + (lowHalf c - 0xDC00) = c.toNat := by
      unfold highHalf lowHalf
      omega
    rw [ofPair, hn, Char.ofNat_toNat]

theorem ofCode_toNat (c : Char) : Symbol.ofCode c.toNat = .char c := by
  have := Text.not_surrogate c
  rw [Symbol.ofCode, dif_neg (by omega), Char.ofNat_toNat]

theorem ofCode_half (number : Fin 2048) :
    Symbol.ofCode (Symbol.half number).code = .half number := by
  have := number.isLt
  rw [Symbol.ofCode, dif_pos (by simp only [Symbol.code]; omega)]
  simp [Symbol.code]

/-- A code unit is read alone if it does not begin a pair. -/
theorem symbolsOf_escape {code : Nat} {rest : List Piece}
    (h : ∀ low ps, rest = .escape low :: ps → isPair code low = false) :
    symbolsOf (.escape code :: rest) = .ofCode code :: symbolsOf rest := by
  rcases rest with _ | ⟨⟨s⟩ | ⟨low⟩, ps⟩
  · rw [symbolsOf]
    rintro _ _ ⟨⟩
  · rw [symbolsOf]
    rintro _ _ ⟨⟩
  · have hp := h low ps rfl
    rw [symbolsOf, hp]
    rfl

theorem pieces_char (c : Char) :
    pieces (.char c) =
      if isSpelled c then [.symbol (.char c)]
      else if c.toNat < 0x10000 then [.escape c.toNat]
      else [.escape (highHalf c), .escape (lowHalf c)] := rfl

theorem symbolsOf_pieces_char (c : Char) (rest : List Piece) :
    symbolsOf (pieces (.char c) ++ rest) = .char c :: symbolsOf rest := by
  rw [pieces_char]
  split
  · rw [List.singleton_append, symbolsOf]
  · split
    · rw [List.singleton_append, symbolsOf_escape fun low ps _ => Text.isPair_char_left c low,
        ofCode_toNat]
    · next h =>
      obtain ⟨hp, hc⟩ := isPair_halves (c := c) (by omega)
      rw [List.cons_append, List.singleton_append, symbolsOf, if_pos hp, hc]

/-- No character begins with a low half. -/
theorem isPair_pieces_char (c : Char) {rest ps : List Piece} {high low : Nat}
    (h : pieces (.char c) ++ rest = .escape low :: ps) : isPair high low = false := by
  rw [pieces_char] at h
  split at h
  · cases h
  · split at h
    · cases h
      exact Text.isPair_char_right high c
    · next hc =>
      cases h
      have hp := Text.isPair_iff.mp (isPair_halves (c := c) (by omega)).1
      rw [Bool.eq_false_iff, ne_eq, Text.isPair_iff]
      omega

/-- **Two halves of one character that stand side by side are joined, and every other symbol is read
back.** -/
theorem symbolsOf_flatMap_pieces (symbols : List Symbol) :
    symbolsOf (symbols.flatMap pieces) = joinHalves symbols := by
  induction symbols using Text.joinHalves.induct with
  | case1 high low rest h ih =>
    rw [joinHalves, if_pos h, ← ih, List.flatMap_cons, List.flatMap_cons]
    simp only [pieces, List.singleton_append]
    rw [symbolsOf, if_pos h]
  | case2 high low rest h ih =>
    rw [joinHalves, if_neg h, ← ih, List.flatMap_cons, List.flatMap_cons]
    simp only [pieces, List.singleton_append]
    rw [symbolsOf, if_neg h, ofCode_half]
  | case3 symbol rest h ih =>
    rw [joinHalves, ← ih, List.flatMap_cons]
    · cases symbol with
      | char c => exact symbolsOf_pieces_char c _
      | half high =>
        simp only [pieces, List.singleton_append]
        rw [symbolsOf_escape, ofCode_half]
        intro low ps hps
        rcases rest with _ | ⟨⟨c⟩ | ⟨number⟩, rest⟩
        · cases hps
        · exact isPair_pieces_char c hps
        · exact absurd rfl (h high number rest rfl)
    · exact h
  | case4 => rfl

/-! ### Lexemes -/

/-- The lexemes of some characters. -/
def Lexes (cs : List Char) (lexemes : List Lexeme) : Prop :=
  lexFrom .between (cs.map .char) = some lexemes

/-- What follows a bare word: nothing, or a character that is not a part of it. -/
def Bounded (cs : List Char) : Prop := ∀ c ∈ cs.head?, isWordChar c = false

section

variable {cs : List Char} {ls : List Lexeme}

attribute [local simp] lexFrom

theorem Lexes.nil : Lexes [] [] := rfl

theorem Lexes.mark {c : Char} {l : Lexeme} (hc : mark? c = some l) (hg : isGap c = false)
    (h : Lexes cs ls) : Lexes (c :: cs) (l :: ls) := by
  unfold Lexes at h ⊢
  simp [enter, hc, hg, h]

theorem Lexes.gap {c : Char} (hc : isGap c = true) (h : Lexes cs ls) : Lexes (c :: cs) ls := by
  unfold Lexes at h ⊢
  simp [enter, hc, h]

theorem Lexes.gaps {gaps : List Char} (hg : ∀ c ∈ gaps, isGap c = true) (h : Lexes cs ls) :
    Lexes (gaps ++ cs) ls := by
  induction gaps with
  | nil => exact h
  | cons c gaps ih =>
    exact (ih fun d hd => hg d (List.mem_cons_of_mem c hd)).gap (hg c List.mem_cons_self)

/-- A bare word goes on up to a character that is not a part of it. -/
theorem lexFrom_word {word : List Char} (hw : ∀ c ∈ word, isWordChar c = true) (read : List Char)
    {v : Document} (hv : word? (read.reverse ++ word) = some v) (h : Lexes cs ls)
    (hb : Bounded cs) :
    lexFrom (.word read) ((word ++ cs).map .char) = some (.scalar v :: ls) := by
  induction word generalizing read with
  | nil =>
    rw [List.append_nil] at hv
    unfold Lexes at h
    cases cs with
    | nil =>
      obtain rfl := Option.some.inj h
      rw [List.nil_append, List.map_nil, lexFrom, hv]
      rfl
    | cons c cs =>
      rw [List.map_cons, lexFrom] at h
      rw [List.nil_append, List.map_cons, lexFrom, hb c rfl, hv]
      generalize enter c = entered at h ⊢
      obtain ⟨lexeme, position⟩ := entered
      obtain ⟨after, ha, rfl⟩ := Option.map_eq_some_iff.mp h
      simp only [Bool.false_eq_true, if_false, ha, Option.map_some, List.cons_append]
  | cons c word ih =>
    have hc := hw c List.mem_cons_self
    rw [List.cons_append, List.map_cons, lexFrom, if_pos hc]
    refine ih (fun d hd => hw d (List.mem_cons_of_mem c hd)) (c :: read) ?_
    rw [List.reverse_cons, List.append_assoc, List.singleton_append]
    exact hv

theorem enter_of_isWordChar {c : Char} (h : isWordChar c = true) : enter c = (none, .word [c]) := by
  simp only [isWordChar, Bool.and_eq_true, Bool.not_eq_true', Option.isNone_iff_eq_none, ne_eq,
    decide_not, decide_eq_false_iff_not] at h
  obtain ⟨⟨hg, hm⟩, hq⟩ := h
  simp [enter, hg, hm, hq]

theorem Lexes.word (word : List Char) (hne : word ≠ []) (hw : ∀ c ∈ word, isWordChar c = true)
    {v : Document} (hv : word? word = some v) (h : Lexes cs ls) (hb : Bounded cs) :
    Lexes (word ++ cs) (.scalar v :: ls) := by
  obtain ⟨c, rest, rfl⟩ := List.exists_cons_of_ne_nil hne
  have hrest := lexFrom_word (fun d hd => hw d (List.mem_cons_of_mem c hd)) [c] hv h hb
  unfold Lexes
  rw [List.cons_append, List.map_cons, lexFrom, enter_of_isWordChar (hw c List.mem_cons_self)]
  dsimp only
  rw [hrest]
  rfl

/-! ### Quoted texts -/

theorem lexFrom_plain {units : List Piece} {rest : List Symbol} {c : Char} (hq : c ≠ '"')
    (hb : c ≠ '\\') (hc : 0x20 ≤ c.toNat) :
    lexFrom (.quoted units) (.char c :: rest) =
      lexFrom (.quoted (.symbol (.char c) :: units)) rest := by
  rw [lexFrom, if_neg hq, if_neg hb, if_neg (by omega)]

theorem hexDigit?_digitChar {d : Nat} (h : d < 16) : hexDigit? (Nat.digitChar d) = some d := by
  revert d
  decide

theorem hexDigits_four {n : Nat} (h : n < 0x10000) :
    Text.hexDigits 4 n = [Nat.digitChar (n / 4096), Nat.digitChar (n / 256 % 16),
      Nat.digitChar (n / 16 % 16), Nat.digitChar (n % 16)] := by
  have hlast : ∀ m, m < 16 → Nat.toDigits 16 m = [Nat.digitChar m] := by
    intro m hm
    rw [Nat.toDigits_eq_if (by decide), if_pos hm]
  have hmore : ∀ m, 16 ≤ m →
      Nat.toDigits 16 m = Nat.toDigits 16 (m / 16) ++ [Nat.digitChar (m % 16)] := by
    intro m hm
    rw [Nat.toDigits_eq_if (by decide), if_neg (by omega)]
  have h1 : n / 16 / 16 = n / 256 := by omega
  have h2 : n / 256 / 16 = n / 4096 := by omega
  unfold Text.hexDigits
  by_cases hn : n < 16
  · have e1 : n / 4096 = 0 := by omega
    have e2 : n / 256 % 16 = 0 := by omega
    have e3 : n / 16 % 16 = 0 := by omega
    have e4 : n % 16 = n := by omega
    rw [hlast n hn, e1, e2, e3, e4]
    rfl
  · rw [hmore n (by omega)]
    by_cases hn' : n / 16 < 16
    · have e1 : n / 4096 = 0 := by omega
      have e2 : n / 256 % 16 = 0 := by omega
      have e3 : n / 16 % 16 = n / 16 := by omega
      rw [hlast _ hn', e1, e2, e3]
      rfl
    · rw [hmore _ (by omega), h1]
      by_cases hn'' : n / 256 < 16
      · have e1 : n / 4096 = 0 := by omega
        have e2 : n / 256 % 16 = n / 256 := by omega
        rw [hlast _ hn'', e1, e2]
        rfl
      · rw [hmore _ (by omega), h2, hlast _ (by omega)]
        rfl

theorem lexFrom_hex {units : List Piece} {rest : List Symbol} {value left d : Nat} (hd : d < 16) :
    lexFrom (.hex units value (left + 1)) (.char (Nat.digitChar d) :: rest) =
      lexFrom (.hex units (16 * value + d) left) rest := by
  simp [hexDigit?_digitChar hd]

theorem lexFrom_hex_last {units : List Piece} {rest : List Symbol} {value d : Nat} (hd : d < 16) :
    lexFrom (.hex units value 0) (.char (Nat.digitChar d) :: rest) =
      lexFrom (.quoted (.escape (16 * value + d) :: units)) rest := by
  simp [hexDigit?_digitChar hd]

/-- A code unit in base sixteen is read back. -/
theorem lexFrom_unitEscape {units : List Piece} {rest : List Symbol} {n : Nat} (h : n < 0x10000) :
    lexFrom (.quoted units) ((unitEscape n).map .char ++ rest) =
      lexFrom (.quoted (.escape n :: units)) rest := by
  have hvalue :
      16 * (16 * (16 * (16 * 0 + n / 4096) + n / 256 % 16) + n / 16 % 16) + n % 16 = n := by
    omega
  rw [unitEscape, hexDigits_four h]
  simp only [List.map_cons, List.map_nil, List.cons_append, List.nil_append]
  rw [lexFrom, if_neg (by decide), if_pos rfl, lexFrom, if_pos rfl, lexFrom_hex (by omega),
    lexFrom_hex (by omega), lexFrom_hex (by omega), lexFrom_hex_last (by omega), hvalue]

/-- The characters that have an escape of one letter. -/
def lettered : List Char := ['"', '\\', '\n', '\r', '\t', '\x08', '\x0c']

theorem lexFrom_lettered {c : Char} (hc : c ∈ lettered) {units : List Piece} {rest : List Symbol} :
    lexFrom (.quoted units) ((escapedChar c).map .char ++ rest) =
      lexFrom (.quoted ((pieces (.char c)).reverse ++ units)) rest := by
  simp only [lettered, List.mem_cons, List.not_mem_nil, or_false] at hc
  rcases hc with rfl | rfl | rfl | rfl | rfl | rfl | rfl <;> rfl

theorem escapedChar_of_not_lettered {c : Char} (hc : c ∉ lettered) :
    escapedChar c =
        (if 0x20 ≤ c.toNat && c.toNat < 0x7F then [c]
        else if c.toNat < 0x10000 then unitEscape c.toNat
        else unitEscape (highHalf c) ++ unitEscape (lowHalf c)) ∧
      isSpelled c = (0x20 ≤ c.toNat && c.toNat < 0x7F) ∧ c ≠ '"' ∧ c ≠ '\\' := by
  simp only [lettered, List.mem_cons, List.not_mem_nil, or_false, not_or] at hc
  obtain ⟨hq, hb, hn, hr, ht, hback, hfeed⟩ := hc
  refine ⟨?_, ?_, hq, hb⟩
  · simp only [escapedChar, hq, hb, hn, hr, ht, hback, hfeed, decide_false, Bool.or_self,
      Bool.false_eq_true, if_false]
    rfl
  · simp only [isSpelled, hn, hr, ht, hback, hfeed, decide_false, Bool.or_self, Bool.false_or]

/-- The characters of a character are read as its parts. -/
theorem lexFrom_escapedChar (c : Char) {units : List Piece} {rest : List Symbol} :
    lexFrom (.quoted units) ((escapedChar c).map .char ++ rest) =
      lexFrom (.quoted ((pieces (.char c)).reverse ++ units)) rest := by
  by_cases hc : c ∈ lettered
  · exact lexFrom_lettered hc
  · obtain ⟨he, hs, hq, hb⟩ := escapedChar_of_not_lettered hc
    rw [he, pieces_char, hs]
    by_cases hplain : (0x20 ≤ c.toNat && c.toNat < 0x7F) = true
    · rw [if_pos hplain, if_pos hplain]
      rw [Bool.and_eq_true, decide_eq_true_eq] at hplain
      exact lexFrom_plain hq hb hplain.1
    · rw [if_neg hplain, if_neg hplain]
      by_cases hbasic : c.toNat < 0x10000
      · rw [if_pos hbasic, if_pos hbasic]
        exact lexFrom_unitEscape hbasic
      · obtain ⟨hp, -⟩ := isPair_halves (c := c) (by omega)
        rw [Text.isPair_iff] at hp
        rw [if_neg hbasic, if_neg hbasic, List.map_append, List.append_assoc,
          lexFrom_unitEscape (by omega), lexFrom_unitEscape (by omega)]
        rfl

theorem lexFrom_escapedSymbols (symbols : List Symbol) {units : List Piece} {rest : List Symbol} :
    lexFrom (.quoted units) ((symbols.flatMap escapedSymbol).map .char ++ rest) =
      lexFrom (.quoted ((symbols.flatMap pieces).reverse ++ units)) rest := by
  induction symbols generalizing units with
  | nil => rfl
  | cons symbol symbols ih =>
    rw [List.flatMap_cons, List.flatMap_cons, List.map_append, List.append_assoc,
      List.reverse_append, List.append_assoc, ← ih]
    cases symbol with
    | char c => exact lexFrom_escapedChar c
    | half number =>
      have hn := number.isLt
      exact lexFrom_unitEscape (by simp only [Symbol.code]; omega)

/-- **A quoted text is one lexeme**, the text with the halves that stand side by side joined. -/
theorem Lexes.quoted (t : Text) (h : Lexes cs ls) :
    Lexes (quoted t ++ cs) (.scalar (.text t.joined) :: ls) := by
  unfold Lexes at h ⊢
  unfold Json.quoted
  simp only [List.cons_append, List.append_assoc, List.nil_append, List.map_cons, List.map_append]
  rw [lexFrom]
  change Option.map _ (lexFrom (.quoted []) _) = _
  rw [lexFrom_escapedSymbols, lexFrom, if_pos rfl, h, List.append_nil, List.reverse_reverse,
    symbolsOf_flatMap_pieces]
  rfl

end

end Document.Json

end RhythmTree
