import Mathlib.Data.List.DropRight
import RhythmTree.Library.Basic
import RhythmTree.Proofs.Tables

/-!
# Sessions with a library

A library is asked for streams again and again while the files that it reads change. What it
remembers of a name is the stream of the first look-up that was successful since its memory was
cleared. Nothing else leaves a trace in it.

* `Library.get_cases`: what a look-up answers, and what the library remembers then.
* `Library.get?_found_get`: a look-up adds its stream unless there is one under the same key.
* `Session.found_after`: **what a library remembers after any calls.**
* `get_after`: **what a library answers after any calls**, and which calls do not matter.
-/

namespace RhythmTree

/-! ### Look-ups -/

theorem Document.key?_of_isCollection {d : Document} (h : d.isCollection = true) :
    d.key? = none := by
  cases d <;> first | rfl | cases h

theorem Document.sameKey_iff {a b : Document} {key : Key} (h : b.key? = some key) :
    a.sameKey b = true ↔ a.key? = some key := by
  rw [sameKey, Option.any_eq_true, h]
  simp [eq_comm]

namespace Library

variable {l : Library} {files : FileTree} {name : Document} {key : Document.Key}

/-- A look-up answers with the stream that is remembered, or it finds one and remembers it, or it
finds none and the library stays as it is. -/
theorem get_cases (files : FileTree) (l : Library) (name : Document) :
    (∃ s, name.key?.bind l.found.get? = some s ∧ l.get files name = (.ok (some s), l)) ∨
      (∃ s, name.key?.bind l.found.get? = none ∧
        l.get files name = (.ok (some s), l.remember name s)) ∨
      (name.key?.bind l.found.get? = none ∧ (∀ s, (l.get files name).1 ≠ .ok (some s)) ∧
        (l.get files name).2 = l) := by
  unfold get
  by_cases hc : name.isCollection = true
  · rw [if_pos hc, Document.key?_of_isCollection hc]
    exact .inr (.inr ⟨rfl, fun s h => (by cases h), rfl⟩)
  · rw [if_neg hc]
    cases hf : name.key?.bind l.found.get? with
    | some s => exact .inl ⟨s, rfl, rfl⟩
    | none =>
      refine .inr ?_
      dsimp only
      split
      · next s _ => exact .inl ⟨s, rfl, rfl⟩
      · next hn => exact .inr ⟨rfl, hn, rfl⟩

/-- What is not remembered is looked up as if nothing were remembered. -/
theorem get_of_found (files : FileTree) (l : Library) (name : Document) :
    (l.get files name).1 = (name.key?.bind l.found.get?).elim (l.forget.get files name).1
      fun s => .ok (some s) := by
  have hempty : name.key?.bind l.forget.found.get? = none := by
    cases name.key? <;> rfl
  have hstream : l.forget.streamOf? files name = l.streamOf? files name := rfl
  unfold get
  by_cases hc : name.isCollection = true
  · rw [if_pos hc, if_pos hc, Document.key?_of_isCollection hc]
    rfl
  · rw [if_neg hc, if_neg hc, hempty, hstream]
    cases name.key?.bind l.found.get? with
    | some s => rfl
    | none =>
      dsimp only [Option.elim_none]
      split <;> rfl

end Library

/-! ### Calls -/

/-- What happens to a library and to the files that it reads. -/
inductive Call
  /-- The stream of a name is looked up. -/
  | get (name : Document)
  | list
  /-- The file at a path is read. -/
  | load (path : Path)
  /-- The memory is cleared. -/
  | forget
  /-- The files become others. -/
  | change (files : FileTree)

/-- What a call gives back. -/
inductive Answer
  | stream (found : Except StreamError (Option NamedStream))
  | entries (found : Except StreamError (List Listing))
  | file (content : Except StreamError NamedStream)
  | nothing

/-- The stream that a look-up gives back. -/
def Answer.stream? : Answer → Option NamedStream
  | .stream (.ok found) => found
  | _ => none

/-- A call that clears the memory. -/
def Call.isForget : Call → Bool
  | .forget => true
  | _ => false

/-- The stream that an entry of a log has brought for a name. -/
def foundBy? (name : Document) : Call × Answer → Option NamedStream
  | (.get other, answer) => if other.sameKey name then answer.stream? else none
  | _ => none

/-- The stream of the first successful look-up of a name since the memory was last cleared. -/
def firstFound? (name : Document) (log : List (Call × Answer)) : Option NamedStream :=
  (log.rtakeWhile fun entry => !entry.1.isForget).findSome? (foundBy? name)

theorem firstFound?_concat (name : Document) (log : List (Call × Answer))
    (entry : Call × Answer) :
    firstFound? name (log ++ [entry]) =
      if entry.1.isForget then none else (firstFound? name log).or (foundBy? name entry) := by
  by_cases h : entry.1.isForget = true
  · rw [if_pos h, firstFound?, List.rtakeWhile_concat_neg _ _ _ (by simp [h])]
    rfl
  · rw [if_neg h, firstFound?, List.rtakeWhile_concat_pos _ _ _ (by simpa using h),
      List.findSome?_append, List.findSome?_singleton, firstFound?]

theorem foundBy?_of_key? {name other : Document} {key : Document.Key}
    (hk : name.key? = some key) (answer : Answer) :
    foundBy? name (.get other, answer) =
      if other.key? = some key then answer.stream? else none := by
  rw [foundBy?]
  exact if_congr (Document.sameKey_iff hk) rfl rfl

/-- A look-up adds its stream to what is remembered, unless there is one under the same key. -/
theorem Library.get?_found_get {name : Document} {key : Document.Key} (hk : name.key? = some key)
    (files : FileTree) (l : Library) (other : Document) :
    (l.get files other).2.found.get? key =
      (l.found.get? key).or (foundBy? name (.get other, .stream (l.get files other).1)) := by
  rw [foundBy?_of_key? hk]
  rcases get_cases files l other with ⟨s, hs, e⟩ | ⟨s, hs, e⟩ | ⟨-, hn, e⟩
  · rw [e]
    by_cases ho : other.key? = some key
    · rw [ho, Option.bind_some] at hs
      rw [if_pos ho, hs]
      rfl
    · rw [if_neg ho, Option.or_none]
  · rw [e]
    by_cases ho : other.key? = some key
    · rw [ho, Option.bind_some] at hs
      rw [if_pos ho, hs, remember, ho]
      exact (Table.get?_put _ _ _ _).trans (if_pos rfl)
    · rw [if_neg ho, Option.or_none, remember]
      cases hother : other.key? with
      | none => rfl
      | some k =>
        have hne : key ≠ k := fun e => ho (hother.trans (congrArg some e.symm))
        exact (Table.get?_put _ _ _ _).trans (if_neg hne)
  · have ha : (Answer.stream (l.get files other).1).stream? = none := by
      cases h : (l.get files other).1 with
      | error error => rfl
      | ok found =>
        cases found with
        | none => rfl
        | some s => exact absurd h (hn s)
    rw [e, ha, ite_self, Option.or_none]

/-- The directories stay the same. -/
theorem Library.forget_get (files : FileTree) (l : Library) (name : Document) :
    (l.get files name).2.forget = l.forget := by
  rcases get_cases files l name with ⟨s, -, e⟩ | ⟨s, -, e⟩ | ⟨-, -, e⟩
  · rw [e]
  · rw [e, remember]
    cases name.key? <;> rfl
  · rw [e]

/-! ### Sessions -/

/-- A library and the files that it reads. -/
structure Session where
  files : FileTree
  library : Library

namespace Session

/-- What a call gives back. -/
def answer (s : Session) : Call → Answer
  | .get name => .stream (s.library.get s.files name).1
  | .list => .entries (s.library.list s.files)
  | .load path => .file (NamedStream.load s.files path)
  | .forget | .change _ => .nothing

/-- The library and the files after a call. -/
def step (s : Session) : Call → Session
  | .get name => { s with library := (s.library.get s.files name).2 }
  | .list | .load _ => s
  | .forget => { s with library := s.library.forget }
  | .change files => { s with files := files }

/-- The library and the files after several calls. -/
def after (s : Session) (calls : List Call) : Session := calls.foldl step s

/-- Several calls, each with what it gives back. -/
def log (s : Session) : List Call → List (Call × Answer)
  | [] => []
  | call :: rest => (call, s.answer call) :: (s.step call).log rest

theorem after_cons (s : Session) (call : Call) (rest : List Call) :
    s.after (call :: rest) = (s.step call).after rest := rfl

theorem after_append (s : Session) (calls more : List Call) :
    s.after (calls ++ more) = (s.after calls).after more := List.foldl_append

theorem after_concat (s : Session) (calls : List Call) (call : Call) :
    s.after (calls ++ [call]) = (s.after calls).step call := s.after_append calls [call]

theorem log_concat (s : Session) (calls : List Call) (call : Call) :
    s.log (calls ++ [call]) = s.log calls ++ [(call, (s.after calls).answer call)] := by
  induction calls generalizing s with
  | nil => rfl
  | cons first rest ih =>
    rw [List.cons_append, log, log, ih, List.cons_append]
    rfl

/-- The directories of a library stay the same. -/
theorem forget_library_after (s : Session) (calls : List Call) :
    (s.after calls).library.forget = s.library.forget := by
  induction calls using List.reverseRecOn with
  | nil => rfl
  | append_singleton calls call ih =>
    rw [after_concat, ← ih]
    cases call with
    | get name => exact Library.forget_get _ _ _
    | _ => rfl

/-- What one call does to the memory. -/
theorem get?_found_step {name : Document} {key : Document.Key} (hk : name.key? = some key)
    (s : Session) (call : Call) :
    (s.step call).library.found.get? key =
      if call.isForget then none
      else (s.library.found.get? key).or (foundBy? name (call, s.answer call)) := by
  cases call with
  | get other => exact Library.get?_found_get hk s.files s.library other
  | forget => rfl
  | _ => exact Option.or_none.symm

/-- **A library remembers what was first found since its memory was cleared.** -/
theorem found_after {s : Session} (hs : s.library.found = .empty) {name : Document}
    {key : Document.Key} (hk : name.key? = some key) (calls : List Call) :
    (s.after calls).library.found.get? key = firstFound? name (s.log calls) := by
  induction calls using List.reverseRecOn with
  | nil =>
    show s.library.found.get? key = none
    rw [hs]
    rfl
  | append_singleton calls call ih =>
    rw [after_concat, log_concat, firstFound?_concat, get?_found_step hk, ih]

theorem firstFound?_of_key? {name : Document} (hk : name.key? = none)
    (log : List (Call × Answer)) : firstFound? name log = none := by
  rw [firstFound?, List.findSome?_eq_none_iff]
  rintro ⟨call, answer⟩ -
  cases call with
  | get other =>
    have hs : other.sameKey name = false := by
      rw [Document.sameKey_comm, Document.sameKey, hk]
      rfl
    rw [foundBy?, hs]
    rfl
  | _ => rfl

/-- What a look-up answers after any calls. -/
theorem answer_get_after {s : Session} (hs : s.library.found = .empty) (calls : List Call)
    (name : Document) :
    (s.after calls).answer (.get name) =
      .stream ((firstFound? name (s.log calls)).elim
        (s.library.get (s.after calls).files name).1 fun found => .ok (some found)) := by
  have hlibrary : s.library.forget = s.library := by rw [Library.forget, ← hs]
  have hfirst : name.key?.bind (s.after calls).library.found.get? =
      firstFound? name (s.log calls) := by
    cases hk : name.key? with
    | none => exact (firstFound?_of_key? hk _).symm
    | some key => exact found_after hs hk calls
  rw [answer, Library.get_of_found, hfirst, forget_library_after, hlibrary]

/-- A call that brings no stream to a name: a list, a file that is read by its path, and a look-up
that finds nothing or fails. -/
def Fruitless (s : Session) : Call → Prop
  | .get name => (s.answer (.get name)).stream? = none
  | .list | .load _ => True
  | .forget | .change _ => False

theorem step_of_fruitless {s : Session} {call : Call} (h : s.Fruitless call) :
    s.step call = s := by
  cases call with
  | get name =>
    have hl : (s.library.get s.files name).2 = s.library := by
      rcases Library.get_cases s.files s.library name with ⟨found, -, e⟩ | ⟨found, -, e⟩ | ⟨-, -, e⟩
      · rw [e]
      · rw [Fruitless, answer, e] at h
        cases h
      · exact e
    rw [step, hl]
  | list => rfl
  | load path => rfl
  | forget => cases h
  | change files => cases h

end Session

/-- A library that has not been asked for anything, and some files. -/
def Session.start (shared : Path) (project : Option Path) (files : FileTree) : Session :=
  ⟨files, { shared := shared, project := project }⟩

/-- **A library answers with what was first found since its memory was cleared**, and if there is
no such stream, it answers as a new library would with the files as they are now. Calls that bring
no stream to a name can be left out: they change no later answer. -/
theorem get_after (shared : Path) (project : Option Path) (files : FileTree)
    (calls : List Call) :
    (∀ name, ((Session.start shared project files).after calls).answer (.get name) =
      .stream ((firstFound? name ((Session.start shared project files).log calls)).elim
        (({ shared := shared, project := project } : Library).get
          ((Session.start shared project files).after calls).files name).1
        fun found => .ok (some found))) ∧
    ∀ call later name, ((Session.start shared project files).after calls).Fruitless call →
      ((Session.start shared project files).after (calls ++ call :: later)).answer (.get name) =
        ((Session.start shared project files).after (calls ++ later)).answer (.get name) := by
  refine ⟨Session.answer_get_after rfl calls, ?_⟩
  intro call later name h
  rw [Session.after_append, Session.after_append, Session.after_cons,
    Session.step_of_fruitless h]

/-- One stream file in the shared directory. -/
def sharedShelf : FileTree := FileTree.empty.write ⟨"", ["shared", "a.json"]⟩ [91, 93]

/-- The same, and a stream file of the same name in the directory of the project. -/
def shadowedShelf : FileTree := sharedShelf.write ⟨"", ["project", "a.json"]⟩ [91, 93]

/-- A library of these directories. -/
def shelvesStart : Session := .start ⟨"", ["shared"]⟩ (some ⟨"", ["project"]⟩) sharedShelf

/-- The stream in a file without tokens. -/
def emptyStream (path : Path) : NamedStream := ⟨.text "a", .text "", path, []⟩

theorem get_after_shadowed :
    (shelvesStart.after [.get (.text "a"), .change shadowedShelf, .list]).answer (.get (.text "a")) =
        .stream (.ok (some (emptyStream ⟨"", ["shared", "a.json"]⟩))) ∧
      (shelvesStart.after [.get (.text "a"), .change shadowedShelf, .forget]).answer
          (.get (.text "a")) =
        .stream (.ok (some (emptyStream ⟨"", ["project", "a.json"]⟩))) ∧
      (shelvesStart.after [.get (.text "b")]).answer (.get (.text "a")) =
        (shelvesStart.after []).answer (.get (.text "a")) := by
  refine ⟨?_, ?_, ?_⟩
  · exact ((get_after _ _ _ _).1 _).trans rfl
  · exact ((get_after _ _ _ _).1 _).trans rfl
  · exact (get_after _ _ _ []).2 (.get (.text "b")) [] _ rfl

end RhythmTree
