import RhythmTree.Proofs.WrittenNumbers
import RhythmTree.Proofs.WrittenTexts

/-!
# Documents in JSON

A document is written lexeme by lexeme, with nothing but blanks between them, and the machine that
reads the lexemes finishes every value where the writer did. JSON has fewer kinds of values than
documents have, so what is read back is the document as JSON keeps it: pairs and sets are lists,
moments and octets are texts, halves that stand side by side are joined, and of fields that have one
name then the last counts.

* `reread`: a document as JSON keeps it.
* `lexes_write`: **what is written is lexed as the lexemes of the document.**
* `run_lexemes`: **the machine reads the lexemes of a document as one value.**
* `read?_print`: **reading what was written gives the document as JSON keeps it.**
-/

namespace RhythmTree.Document.Json

open Decimal (Binary64)

/-! ### Documents as JSON keeps them -/

/-- The text that a name is written as. -/
def writtenName : Name → Text
  | .text t => t
  | .moment m => m.text
  | .octets value => .ofChars (value.map fun octet => Char.ofNat octet.toNat)

mutual

/-- A document as JSON keeps it. -/
def reread : Document → Document
  | .null => .null
  | .bool b => .bool b
  | .int n => .int n
  | .float x => .float x
  | .text t => .text t.joined
  | .moment m => .text (Text.ofString m.text).joined
  | .octets value =>
    .text (Text.ofChars (value.map fun octet => Char.ofNat octet.toNat)).joined
  | .pair first second => .list [reread first, reread second]
  | .ancestor _ => .null
  | .set items | .list items => .list (rereadAll items)
  | .record fields => closeRecord (rereadFields fields).reverse

/-- Items as JSON keeps them. -/
def rereadAll : List Document → List Document
  | [] => []
  | item :: rest => reread item :: rereadAll rest

/-- Fields as JSON keeps them one by one. -/
def rereadFields : Fields → List (Text × Document)
  | [] => []
  | (name, value) :: rest => ((writtenName name).joined, reread value) :: rereadFields rest

end

/-! ### The lexemes of a document -/

/-- The lexeme of a name. -/
def nameLexeme (name : Name) : Lexeme := .scalar (.text (writtenName name).joined)

mutual

/-- The lexemes of a document. -/
def lexemes : Document → List Lexeme
  | .pair first second => .openList :: (lexemes first ++ .comma :: (lexemes second ++ [.closeList]))
  | .set [] | .list [] => [.openList, .closeList]
  | .set (item :: rest) | .list (item :: rest) =>
    .openList :: (lexemes item ++ lexemesOfItems rest)
  | .record [] => [.openRecord, .closeRecord]
  | .record ((name, value) :: rest) =>
    .openRecord :: nameLexeme name :: .colon :: (lexemes value ++ lexemesOfFields rest)
  | .null => [.scalar (reread .null)]
  | .bool b => [.scalar (reread (.bool b))]
  | .int n => [.scalar (reread (.int n))]
  | .float x => [.scalar (reread (.float x))]
  | .text t => [.scalar (reread (.text t))]
  | .moment m => [.scalar (reread (.moment m))]
  | .octets value => [.scalar (reread (.octets value))]
  | .ancestor isRecord => [.scalar (reread (.ancestor isRecord))]

/-- The lexemes of a list after its first item. -/
def lexemesOfItems : List Document → List Lexeme
  | [] => [.closeList]
  | item :: rest => .comma :: (lexemes item ++ lexemesOfItems rest)

/-- The lexemes of a record after its first field. -/
def lexemesOfFields : Fields → List Lexeme
  | [] => [.closeRecord]
  | (name, value) :: rest =>
    .comma :: nameLexeme name :: .colon :: (lexemes value ++ lexemesOfFields rest)

end

/-! ### Writing -/

/-- Nothing but blanks stands between two lexemes. -/
def Style.Blank : Style → Prop
  | .line => True
  | .indented filler => ∀ c ∈ filler, isGap c = true

theorem blank_blanks (width : Nat) : (Style.blanks width).Blank := by
  intro c hc
  rw [List.eq_of_mem_replicate hc]
  rfl

section

variable {style : Style} {cs : List Char} {ls : List Lexeme}

theorem Style.Blank.edge (h : style.Blank) (level : Nat) :
    ∀ c ∈ style.edge level, isGap c = true := by
  intro c hc
  cases style with
  | line => cases hc
  | indented filler =>
    rcases List.mem_cons.mp hc with rfl | hc
    · rfl
    · obtain ⟨line, hl, hc⟩ := List.mem_flatten.mp hc
      rw [List.eq_of_mem_replicate hl] at hc
      exact h c hc

theorem Bounded.cons {c : Char} (h : isWordChar c = false) (cs : List Char) :
    Bounded (c :: cs) := by
  rintro d ⟨⟩
  exact h

theorem bounded_edge {level : Nat} (h : Bounded cs) : Bounded (style.edge level ++ cs) := by
  cases style with
  | line => exact h
  | indented filler => exact .cons rfl _

theorem bounded_separator (level : Nat) (cs : List Char) :
    Bounded (style.separator level ++ cs) := by
  cases style with
  | line => exact .cons rfl _
  | indented filler => exact .cons rfl _

/-- A comma stands between two items. -/
theorem lexes_separator (hs : style.Blank) (level : Nat) (h : Lexes cs ls) :
    Lexes (style.separator level ++ cs) (.comma :: ls) := by
  cases style with
  | line => exact (h.gap rfl).mark rfl rfl
  | indented filler => exact (h.gaps (hs.edge level)).mark rfl rfl

theorem lexes_quotedName (name : Name) (h : Lexes cs ls) :
    Lexes (quotedName name ++ cs) (nameLexeme name :: ls) := by
  cases name <;> exact h.quoted _

theorem isWordChar_of_isDigit {c : Char} (h : c.isDigit = true) : isWordChar c = true := by
  have hdigits : ∀ n < 58, 48 ≤ n → isWordChar (Char.ofNat n) = true := by decide
  have hc := Text.isDigit_iff.mp h
  rw [← Char.ofNat_toNat c]
  exact hdigits c.toNat (by omega) hc.1

/-- A numeral is one word. -/
theorem Numeral.Proper.isWordChar {n : Numeral} (h : n.Proper) {c : Char} (hc : c ∈ n.chars) :
    Json.isWordChar c = true := by
  have hdigit : c.isDigit = true → Json.isWordChar c = true := isWordChar_of_isDigit
  unfold Numeral.chars Numeral.mantissa Numeral.exponent at hc
  rcases List.mem_append.mp hc with hc | hc
  · split at hc
    · obtain rfl := List.mem_singleton.mp hc
      rfl
    · cases hc
  · rcases List.mem_append.mp hc with hc | hc
    · rcases List.mem_append.mp hc with hc | hc
      · exact hdigit (h.front_isDigit c hc)
      · cases hb : n.back with
        | none =>
          rw [hb] at hc
          cases hc
        | some ds =>
          rw [hb] at hc
          rcases List.mem_cons.mp hc with rfl | hc
          · rfl
          · exact hdigit (h.back_isDigit ds hb c hc)
    · cases hp : n.power with
      | none =>
        rw [hp] at hc
        cases hc
      | some p =>
        rw [hp] at hc
        rcases List.mem_cons.mp hc with rfl | hc
        · rfl
        · rcases List.mem_cons.mp hc with rfl | hc
          · split <;> rfl
          · exact hdigit (h.power_isDigit p hp c hc)

theorem lexes_numeral {n : Numeral} (hn : n.Proper) (h : Lexes cs ls) (hb : Bounded cs) :
    Lexes (n.chars ++ cs) (.scalar n.value :: ls) := by
  obtain ⟨c, rest, -, hc⟩ := hn.exists_digit
  have hne : n.chars ≠ [] := by
    rcases hc with hc | hc <;> rw [hc] <;> exact List.cons_ne_nil _ _
  exact h.word _ hne (fun c => hn.isWordChar) (word?_chars hn) hb

/-- The words that JSON has are bare. -/
theorem lexes_fixed (word : List Char) {v : Document} (hne : word ≠ [])
    (hw : word.all isWordChar = true) (hv : word? word = some v) (h : Lexes cs ls)
    (hb : Bounded cs) : Lexes (word ++ cs) (.scalar v :: ls) :=
  h.word word hne (List.all_eq_true.mp hw) hv hb

theorem lexes_float (x : Binary64) (h : Lexes cs ls) (hb : Bounded cs) :
    Lexes ((Decimal.Layout.json.text x).toList ++ cs) (.scalar (.float x) :: ls) := by
  cases x with
  | nan => exact lexes_fixed _ (by decide) rfl rfl h hb
  | infinite negative =>
    cases negative
    · exact lexes_fixed _ (by decide) rfl rfl h hb
    · exact lexes_fixed _ (by decide) rfl rfl h hb
  | finite negative code =>
    obtain ⟨n, hn, hc, hv⟩ := exists_numeral_float negative code
    rw [← hc, ← hv]
    exact lexes_numeral hn h hb

theorem lexes_int (m : Int) (h : Lexes cs ls) (hb : Bounded cs) :
    Lexes ((toString m).toList ++ cs) (.scalar (.int m) :: ls) := by
  obtain ⟨n, hn, hc, hv⟩ := exists_numeral_int m
  rw [← hc, ← hv]
  exact lexes_numeral hn h hb

theorem bounded_writeItems {level : Nat} (items : List Document) (hb : Bounded cs) :
    Bounded (writeItems style level items ++ cs) := by
  cases items with
  | nil => exact hb
  | cons item rest =>
    rw [writeItems, List.append_assoc, List.append_assoc]
    exact bounded_separator level _

theorem bounded_writeFields {level : Nat} (fields : Fields) (hb : Bounded cs) :
    Bounded (writeFields style level fields ++ cs) := by
  cases fields with
  | nil => exact hb
  | cons field rest =>
    rw [writeFields]
    simp only [List.append_assoc]
    exact bounded_separator level _

theorem lexes_close {c : Char} {l : Lexeme} (hs : style.Blank) (level : Nat) (hc : mark? c = some l)
    (hg : isGap c = false) (h : Lexes cs ls) : Lexes (style.edge level ++ c :: cs) (l :: ls) :=
  (h.mark hc hg).gaps (hs.edge level)

theorem lexes_field (name : Name) (h : Lexes cs ls) :
    Lexes (quotedName name ++ ':' :: ' ' :: cs) (nameLexeme name :: .colon :: ls) :=
  lexes_quotedName name ((h.gap rfl).mark rfl rfl)

end

mutual

/-- **What is written is lexed as the lexemes of the document.** -/
theorem lexes_write {style : Style} (hs : style.Blank) (d : Document) (level : Nat)
    {cs : List Char} {ls : List Lexeme} (h : Lexes cs ls) (hb : Bounded cs) :
    Lexes (write style level d ++ cs) (lexemes d ++ ls) := by
  cases d with
  | null => exact lexes_fixed "null".toList (by decide) rfl rfl h hb
  | bool b =>
    cases b
    · exact lexes_fixed "false".toList (by decide) rfl rfl h hb
    · exact lexes_fixed "true".toList (by decide) rfl rfl h hb
  | int n => exact lexes_int n h hb
  | float x => exact lexes_float x h hb
  | text t => exact h.quoted t
  | moment m => exact h.quoted _
  | octets value => exact h.quoted _
  | ancestor isRecord => exact lexes_fixed "null".toList (by decide) rfl rfl h hb
  | pair first second =>
    have hclose := lexes_close (c := ']') hs level rfl rfl h
    have hbclose : Bounded (style.edge level ++ ']' :: cs) := bounded_edge (.cons rfl cs)
    have hsecond := lexes_write hs second (level + 1) hclose hbclose
    have hseparator := lexes_separator hs (level + 1) hsecond
    have hfirst := lexes_write hs first (level + 1) hseparator (bounded_separator (level + 1) _)
    have hlist := (hfirst.gaps (hs.edge (level + 1))).mark (c := '[') rfl rfl
    simpa only [write, lexemes, List.cons_append, List.append_assoc, List.nil_append] using hlist
  | list items | set items =>
    cases items with
    | nil => exact (h.mark rfl rfl).mark rfl rfl
    | cons item rest =>
      have hclose := lexes_close (c := ']') hs level rfl rfl h
      have hbclose : Bounded (style.edge level ++ ']' :: cs) := bounded_edge (.cons rfl cs)
      have hitems := lexes_writeItems hs rest (level + 1) hclose hbclose
      have hitem := lexes_write hs item (level + 1) hitems (bounded_writeItems rest hbclose)
      have hlist := (hitem.gaps (hs.edge (level + 1))).mark (c := '[') rfl rfl
      simpa only [write, lexemes, List.cons_append, List.append_assoc, List.nil_append] using hlist
  | record fields =>
    cases fields with
    | nil => exact (h.mark rfl rfl).mark rfl rfl
    | cons field rest =>
      obtain ⟨name, value⟩ := field
      have hclose := lexes_close (c := '\x7d') hs level rfl rfl h
      have hbclose : Bounded (style.edge level ++ '\x7d' :: cs) := bounded_edge (.cons rfl cs)
      have hfields := lexes_writeFields hs rest (level + 1) hclose hbclose
      have hvalue := lexes_write hs value (level + 1) hfields (bounded_writeFields rest hbclose)
      have hfield := lexes_field name hvalue
      have hrecord := (hfield.gaps (hs.edge (level + 1))).mark (c := '\x7b') rfl rfl
      simpa only [write, lexemes, List.cons_append, List.append_assoc, List.nil_append]
        using hrecord

theorem lexes_writeItems {style : Style} (hs : style.Blank) (items : List Document) (level : Nat)
    {cs : List Char} {ls : List Lexeme} (h : Lexes cs (.closeList :: ls)) (hb : Bounded cs) :
    Lexes (writeItems style level items ++ cs) (lexemesOfItems items ++ ls) := by
  cases items with
  | nil => exact h
  | cons item rest =>
    have hrest := lexes_writeItems hs rest level h hb
    have hitem := lexes_write hs item level hrest (bounded_writeItems rest hb)
    have hall := lexes_separator hs level hitem
    simpa only [writeItems, lexemesOfItems, List.cons_append, List.append_assoc] using hall

theorem lexes_writeFields {style : Style} (hs : style.Blank) (fields : Fields) (level : Nat)
    {cs : List Char} {ls : List Lexeme} (h : Lexes cs (.closeRecord :: ls)) (hb : Bounded cs) :
    Lexes (writeFields style level fields ++ cs) (lexemesOfFields fields ++ ls) := by
  cases fields with
  | nil => exact h
  | cons field rest =>
    obtain ⟨name, value⟩ := field
    have hrest := lexes_writeFields hs rest level h hb
    have hvalue := lexes_write hs value level hrest (bounded_writeFields rest hb)
    have hall := lexes_separator hs level (lexes_field name hvalue)
    simpa only [writeFields, lexemesOfFields, List.cons_append, List.append_assoc] using hall

end

/-! ### Reading -/

/-- What the machine has read after some lexemes. -/
def run (r : Reading) (ls : List Lexeme) : Option Reading := ls.foldlM step r

theorem run_cons {r r' : Reading} {l : Lexeme} (h : step r l = some r') (ls : List Lexeme) :
    run r (l :: ls) = run r' ls := by
  rw [run, List.foldlM_cons, h]
  rfl

theorem run_comma {v : Document} {done : List Document} {around : List Frame} (ls : List Lexeme) :
    run (.complete v (.list done :: around)) (.comma :: ls) =
      run (.value (.list (v :: done) :: around)) ls := run_cons rfl ls

theorem run_closeList {v : Document} {done : List Document} {around : List Frame}
    (ls : List Lexeme) :
    run (.complete v (.list done :: around)) (.closeList :: ls) =
      run (.complete (.list (v :: done).reverse) around) ls := run_cons rfl ls

/-- No value begins with the end of a list. -/
theorem exists_lexemes_eq_cons (d : Document) :
    ∃ l ls, lexemes d = l :: ls ∧ ∀ around,
      step (.firstItem around) l = step (.value (.list [] :: around)) l := by
  cases d with
  | list items | set items => cases items <;> exact ⟨_, _, rfl, fun _ => rfl⟩
  | record fields => cases fields <;> exact ⟨_, _, rfl, fun _ => rfl⟩
  | _ => exact ⟨_, _, rfl, fun _ => rfl⟩

theorem run_firstItem (d : Document) (around : List Frame) (ls : List Lexeme) :
    run (.firstItem around) (lexemes d ++ ls) =
      run (.value (.list [] :: around)) (lexemes d ++ ls) := by
  obtain ⟨l, rest, hl, hstep⟩ := exists_lexemes_eq_cons d
  rw [hl, List.cons_append, run, run, List.foldlM_cons, List.foldlM_cons, hstep]

mutual

/-- **The machine reads the lexemes of a document as one value.** -/
theorem run_lexemes (d : Document) (around : List Frame) (ls : List Lexeme) :
    run (.value around) (lexemes d ++ ls) = run (.complete (reread d) around) ls := by
  cases d with
  | list items | set items =>
    cases items with
    | nil => exact (run_cons rfl _).trans (run_cons rfl _)
    | cons item rest =>
      rw [lexemes, List.cons_append, List.append_assoc]
      refine (run_cons rfl _).trans ?_
      rw [run_firstItem, run_lexemes item, run_items rest]
      rw [reread, rereadAll]
      rfl
  | pair first second =>
    rw [lexemes, List.cons_append, List.append_assoc]
    refine (run_cons rfl _).trans ?_
    rw [run_firstItem, run_lexemes first, List.cons_append, List.append_assoc, run_comma,
      run_lexemes second, List.singleton_append, run_closeList, reread]
    rfl
  | record fields =>
    cases fields with
    | nil => exact (run_cons rfl _).trans (run_cons rfl _)
    | cons field rest =>
      obtain ⟨name, value⟩ := field
      rw [lexemes]
      simp only [List.cons_append, List.append_assoc]
      refine (run_cons rfl _).trans ((run_cons rfl _).trans ((run_cons rfl _).trans ?_))
      rw [run_lexemes value, run_fields rest]
      rw [reread, rereadFields]
      rfl
  | _ => exact run_cons rfl ls

/-- The machine reads the items of a list after the first. -/
theorem run_items (items : List Document) (v : Document) (done : List Document)
    (around : List Frame) (ls : List Lexeme) :
    run (.complete v (.list done :: around)) (lexemesOfItems items ++ ls) =
      run (.complete (.list (done.reverse ++ v :: rereadAll items)) around) ls := by
  cases items with
  | nil =>
    rw [lexemesOfItems, List.singleton_append, run_closeList, rereadAll, List.reverse_cons]
  | cons item rest =>
    rw [lexemesOfItems, List.cons_append, List.append_assoc, run_comma, run_lexemes item,
      run_items rest, rereadAll, List.reverse_cons, List.append_assoc, List.singleton_append]

/-- The machine reads the fields of a record after the first. -/
theorem run_fields (fields : Fields) (v : Document) (name : Text) (done : List (Text × Document))
    (around : List Frame) (ls : List Lexeme) :
    run (.complete v (.record done name :: around)) (lexemesOfFields fields ++ ls) =
      run (.complete (closeRecord (done.reverse ++ (name, v) :: rereadFields fields).reverse)
        around) ls := by
  cases fields with
  | nil =>
    rw [lexemesOfFields, List.singleton_append, rereadFields, ← List.reverse_cons,
      List.reverse_reverse]
    exact run_cons rfl ls
  | cons field rest =>
    obtain ⟨name', value⟩ := field
    rw [lexemesOfFields]
    simp only [List.cons_append, List.append_assoc]
    refine (run_cons rfl _).trans ((run_cons rfl _).trans ((run_cons rfl _).trans ?_))
    rw [run_lexemes value, run_fields rest, rereadFields, List.reverse_cons, List.append_assoc,
      List.singleton_append]

end

theorem ofLexemes?_lexemes (d : Document) : ofLexemes? (lexemes d) = some (reread d) := by
  have h := run_lexemes d [] []
  rw [List.append_nil] at h
  rw [ofLexemes?, ← run, h]
  rfl

/-- **Reading what was written gives the document as JSON keeps it.** -/
theorem read?_print {style : Style} (hs : style.Blank) (d : Document) :
    read? (Text.ofString (print style d)) = some (reread d) := by
  have h := lexes_write hs d 0 Lexes.nil (by rintro c ⟨⟩)
  rw [List.append_nil, List.append_nil] at h
  have hlex : lex (Text.ofString (print style d)) = some (lexemes d) := by
    rw [lex, Text.ofString, print, String.toList_ofList]
    exact h
  rw [read?, hlex, Option.bind_some, ofLexemes?_lexemes]

end RhythmTree.Document.Json
