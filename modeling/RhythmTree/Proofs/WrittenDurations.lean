import Mathlib.Data.Rat.Defs
import RhythmTree.Duration.Reader
import RhythmTree.Proofs.Numerals

/-!
# Written durations

A duration is written as its amount in lowest terms: a numerator, and a denominator behind a slash
unless it is one. A stream may hold such a text in the place of the duration.

* `ratioOfText?_toList_ratText`: the text is read as the numerator over the denominator.
* `ofText?_text`: **a duration is read back from its text.**
* `text_injective`: no two durations have the same text.
-/

namespace RhythmTree.Duration

open Text

theorem toList_toString_of_nonneg {n : Int} (h : 0 ≤ n) :
    (toString n).toList = Nat.toDigits 10 n.toNat := by
  obtain ⟨m, rfl⟩ := Int.eq_ofNat_of_zero_le h
  show (toString m).toList = _
  rw [Nat.toString_eq_ofList_toDigits, String.toList_ofList, Int.toNat_natCast]

theorem toList_ratText {q : Rat} (h : 0 ≤ q) :
    (ratText q).toList =
      if q.den = 1 then Nat.toDigits 10 q.num.toNat
      else Nat.toDigits 10 q.num.toNat ++ '/' :: Nat.toDigits 10 q.den := by
  have hn := toList_toString_of_nonneg (Rat.num_nonneg.mpr h)
  have hd : (toString q.den).toList = Nat.toDigits 10 q.den := by
    rw [Nat.toString_eq_ofList_toDigits, String.toList_ofList]
  unfold ratText
  split
  · exact hn
  · rw [String.toList_append, String.toList_append, hn, hd, List.append_assoc]
    rfl

theorem digits?_toDigits (n : Nat) : digits? (Nat.toDigits 10 n) =
    some (asciiValues (Nat.toDigits 10 n)) :=
  groupedDigits?_of_isDigit Nat.toDigits_ne_nil fun _ hc => isDigit_of_mem_toDigits hc

/-- No digit is a mark. -/
theorem ne_of_isDigit {c m : Char} (hm : m.isDigit = false) (h : c.isDigit = true) : c ≠ m := by
  rintro rfl
  rw [h] at hm
  cases hm

theorem splitSign_toDigits_append (n : Nat) (rest : List Char) :
    splitSign (Nat.toDigits 10 n ++ rest) = (false, Nat.toDigits 10 n ++ rest) := by
  obtain ⟨c, cs, hcs⟩ := List.exists_cons_of_ne_nil (Nat.toDigits_ne_nil (n := n) (b := 10))
  have hc : c.isDigit = true := isDigit_of_mem_toDigits (n := n) (hcs ▸ List.mem_cons_self)
  rw [hcs, List.cons_append, splitSign_of_isDigit hc]

theorem decimal?_toDigits (n : Nat) : decimal? digits? (Nat.toDigits 10 n) =
    some ⟨asciiValues (Nat.toDigits 10 n), [], 0⟩ := by
  have hmark : ∀ mark : Char → Bool, (∀ c : Char, c.isDigit = true → mark c = false) →
      splitAtFirst mark (Nat.toDigits 10 n) = (Nat.toDigits 10 n, none) := by
    intro mark h
    exact splitAtFirst_of_all fun c hc => h c (isDigit_of_mem_toDigits hc)
  have hpower := hmark (fun c => c = 'e' || c = 'E') fun c hc => by
    simp [ne_of_isDigit (m := 'e') rfl hc, ne_of_isDigit (m := 'E') rfl hc]
  have hpoint := hmark (· = '.') fun c hc => by simp [ne_of_isDigit (m := '.') rfl hc]
  have hempty : (Nat.toDigits 10 n).isEmpty = false := by
    simp [Nat.toDigits_ne_nil]
  have hvalues : (asciiValues (Nat.toDigits 10 n)).isEmpty = false := by
    simp [asciiValues, Nat.toDigits_ne_nil]
  simp only [decimal?, hpower, hpoint, optionalRun?, hempty, Bool.false_eq_true, if_false,
    digits?_toDigits, Option.getD_none, List.isEmpty_nil, if_true, Option.bind_eq_bind,
    Option.bind_some, hvalues, Bool.false_and]

theorem not_slash_of_mem_toDigits {n : Nat} : ∀ c ∈ Nat.toDigits 10 n,
    decide (c = '/') = false := by
  intro c hc
  simp [ne_of_isDigit (m := '/') rfl (isDigit_of_mem_toDigits hc)]

/-- Two numbers with a slash between them are read as a numerator over a denominator. -/
theorem ratioOfText?_slash (n m : Nat) :
    Ratio.ofText? (Nat.toDigits 10 n ++ '/' :: Nat.toDigits 10 m) = some ⟨n, m⟩ := by
  have hd : decide ('/' = '/') = true := rfl
  simp only [Ratio.ofText?, splitSign_toDigits_append,
    splitAtFirst_append not_slash_of_mem_toDigits hd,
    digits?_toDigits, ofDigits_toDigits, Option.bind_eq_bind, Option.bind_some, signed,
    Bool.false_eq_true, if_false, Option.pure_def]

/-- The text of an amount is read as its numerator over its denominator. -/
theorem ratioOfText?_toList_ratText {q : Rat} (h : 0 ≤ q) :
    Ratio.ofText? (ratText q).toList = some ⟨q.num, q.den⟩ := by
  have hn : (q.num.toNat : Int) = q.num := Int.toNat_of_nonneg (Rat.num_nonneg.mpr h)
  rw [toList_ratText h]
  split
  · next hd =>
    have hs := splitSign_toDigits_append q.num.toNat []
    rw [List.append_nil] at hs
    simp only [Ratio.ofText?, hs, splitAtFirst_of_all not_slash_of_mem_toDigits, decimal?_toDigits,
      Option.map_some, Ratio.ofDecimal, DecimalParts.coefficient, DecimalParts.scale, List.append_nil,
      ofDigits_toDigits, List.length_nil, hd]
    simp [signed, hn]
  · rw [ratioOfText?_slash, hn]

/-- The text of an amount denotes the amount. -/
theorem value?_ratText {q : Rat} (h : 0 ≤ q) :
    (Ratio.ofText? (ratText q).toList).bind Ratio.value? = some q := by
  rw [ratioOfText?_toList_ratText h, Option.bind_some, Ratio.value?, if_neg q.den_ne_zero,
    Rat.num_divInt_den]

theorem isBlank_of_mem_ratText {q : Rat} (h : 0 ≤ q) : ∀ c ∈ (ratText q).toList,
    isBlank c = false := by
  intro c hc
  rw [toList_ratText h] at hc
  have hdigit : ∀ n, c ∈ Nat.toDigits 10 n → isBlank c = false := by
    intro n hn
    exact isBlank_of_isDigit (isDigit_of_mem_toDigits hn)
  split at hc
  · exact hdigit _ hc
  · rcases List.mem_append.mp hc with hc | hc
    · exact hdigit _ hc
    · rcases List.mem_cons.mp hc with rfl | hc
      · rfl
      · exact hdigit _ hc

theorem ofRat?_value (d : Duration) : ofRat? d.value = some d := dif_pos d.nonneg

/-- **A duration is read back from its text.** -/
theorem ofText?_text (d : Duration) : ofText? (Text.ofString d.text) = some d := by
  have htrim : trim isBlank d.text.toList = d.text.toList :=
    trim_of_all (isBlank_of_mem_ratText d.nonneg)
  obtain ⟨ratio, hratio, hvalue⟩ := Option.bind_eq_some_iff.mp (value?_ratText d.nonneg)
  rw [← text] at hratio
  simp only [ofText?, Text.ofString, Text.chars?_ofChars, Option.bind_eq_bind, Option.bind_some,
    htrim, hratio, hvalue, ofRat?_value]

theorem ofDocument_text (d : Duration) : ofDocument (.text d.text) = .ok d := by
  rw [ofDocument, ofText?_text]

/-- **No two durations have the same text.** -/
theorem text_injective {d e : Duration} (h : d.text = e.text) : d = e := by
  have hd := ofText?_text d
  rw [h, ofText?_text] at hd
  exact (Option.some.inj hd).symm

end RhythmTree.Duration
