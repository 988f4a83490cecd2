import RhythmTree.Proofs.Outline
import RhythmTree.Proofs.Parts

/-!
# What a run records

A builder only adds to its findings. Those about a token come behind those about the tokens before
it, and every instruction records findings of its own kinds only. The nodes that cannot be divided
are found last, when the trees are normalized.

* `records_perform`, `records_after`: **what one token adds to the findings.**
* `findings_step`: the same for a step of either builder, which the token may halt.
* `numbers_reached`: the numbers of the tokens never decrease along the findings.
* `issues_build`: the report of a score is made of the findings of its run, then of the nodes that
  cannot be divided.
* `inOrder_build`: **issues come in the order of their tokens, and those about weights come last.**
-/

namespace RhythmTree

/-- The codes of the findings that an instruction may record. -/
def Instruction.codes : Instruction → List String
  | .addRoot _ => ["NEGATIVE_ACCUMULATOR"]
  | .addInner _ _ | .addLeaf _ _ => ["STACK_UNDERFLOW", "NO_OPEN_CONTAINER"]
  | .storeValue _ => ["ORPHAN_METADATA_VALUE"]
  | .rejectDeclaration _ _ => ["INVALID_INSTRUMENT_TYPE"]
  | .attach _ => ["MISSING_CONTEXT"]
  | _ => []

namespace BuilderState

/-! ### One token -/

/-- A state has the findings of another one and some more, all of them about one token and with
codes among some. -/
def Records (index : Nat) (codes : List String) (s s' : BuilderState) : Prop :=
  ∃ new, s'.findings = s.findings ++ new ∧ ∀ f ∈ new, f.index? = some index ∧ f.code ∈ codes

namespace Records

variable {index : Nat} {codes : List String} {s s' s'' : BuilderState}

theorem of_eq (h : s'.findings = s.findings) : Records index codes s s' :=
  ⟨[], by rw [h, List.append_nil], by simp⟩

theorem record {f : Finding} (hi : f.index? = some index) (hc : f.code ∈ codes) :
    Records index codes s (s.record f) :=
  ⟨[f], rfl, fun g hg => by rw [List.mem_singleton.mp hg]; exact ⟨hi, hc⟩⟩

theorem trans (h : Records index codes s s') (h' : Records index codes s' s'') :
    Records index codes s s'' := by
  obtain ⟨new, e, hn⟩ := h
  obtain ⟨more, e', hm⟩ := h'
  refine ⟨new ++ more, by rw [e', e, List.append_assoc], fun f hf => ?_⟩
  rcases List.mem_append.mp hf with hf | hf
  · exact hn f hf
  · exact hm f hf

/-- No finding with another code is added. -/
theorem filter_eq (h : Records index codes s s') {p : Finding → Bool}
    (hp : ∀ f, f.code ∈ codes → p f = false) : s'.findings.filter p = s.findings.filter p := by
  obtain ⟨new, e, hn⟩ := h
  have hnil : new.filter p = [] := by
    refine List.filter_eq_nil_iff.mpr fun f hf => ?_
    rw [hp f (hn f hf).2]
    exact Bool.false_ne_true
  rw [e, List.filter_append, hnil, List.append_nil]

theorem countP_eq (h : Records index codes s s') {p : Finding → Bool}
    (hp : ∀ f, f.code ∈ codes → p f = false) : s'.findings.countP p = s.findings.countP p := by
  rw [List.countP_eq_length_filter, h.filter_eq hp, List.countP_eq_length_filter]

end Records

theorem records_addRoot (index : Nat) (d : Duration) (s : BuilderState) :
    Records index ["NEGATIVE_ACCUMULATOR"] s (s.addRoot index d) :=
  placeRoot_induction (motive := Records index ["NEGATIVE_ACCUMULATOR"] s) (.of_eq rfl)
    (fun _ _ h => h) (fun _ _ h => h) fun _ _ _ h => h.trans (.record rfl (by simp [Finding.code]))

theorem records_closeLevels (index depth : Nat) (s : BuilderState) :
    Records index ["STACK_UNDERFLOW", "NO_OPEN_CONTAINER"] s (s.closeLevels index depth) :=
  closeLevels_induction (.of_eq rfl) (fun _ _ h => h)
    fun _ _ _ h => h.trans (.record rfl (by simp [Finding.code]))

theorem records_attachNode (index : Nat) (identifier : String) (beats : Int) (level : Level)
    (s : BuilderState) : Records index ["STACK_UNDERFLOW", "NO_OPEN_CONTAINER"] s
      (s.attachNode index identifier beats level).2 := by
  refine (records_closeLevels index level.outer s).trans ?_
  unfold attachNode attachChild
  split
  · exact .record rfl (by simp [Finding.code])
  · exact .of_eq rfl

theorem records_addInner (index : Nat) (identifier : String) (beats : Int) (level : Level)
    (s : BuilderState) : Records index ["STACK_UNDERFLOW", "NO_OPEN_CONTAINER"] s
      (s.addInner index identifier beats level) :=
  addInner_induction (records_attachNode index identifier beats level s) fun _ _ h => h

theorem records_addLeaf (index : Nat) (identifier : String) (beats : Int) (level : Level)
    (s : BuilderState) : Records index ["STACK_UNDERFLOW", "NO_OPEN_CONTAINER"] s
      (s.addLeaf index identifier beats level) :=
  addLeaf_induction (records_attachNode index identifier beats level s) fun _ _ h => h

theorem records_attachEvent (index : Nat) (identifier : String) (s : BuilderState)
    (event : Event) :
    Records index ["MISSING_CONTEXT"] s (s.attachEvent index identifier event) := by
  unfold attachEvent
  split
  · exact .of_eq rfl
  · exact .record rfl (by simp [Finding.code])

theorem records_attach (index : Nat) (identifier : String) (events : List Event)
    (s : BuilderState) :
    Records index ["MISSING_CONTEXT"] s (s.attach index identifier events) :=
  attach_induction (.of_eq rfl) fun s' event h =>
    h.trans (records_attachEvent index identifier s' event)

theorem findings_closeMeasure (s : BuilderState) : s.closeMeasure.findings = s.findings := by
  unfold closeMeasure
  split <;> rfl

/-- **An instruction records findings about its token, of its own kinds.** -/
theorem records_perform (index : Nat) (identifier : String) (i : Instruction) (s : BuilderState) :
    Records index i.codes s (s.perform index identifier i) := by
  cases i with
  | openMeasure => exact .of_eq (findings_closeMeasure s)
  | setMode mode => exact .of_eq (by cases mode <;> rfl)
  | addRoot d => exact records_addRoot index d s
  | addInner beats level => exact records_addInner index identifier beats level s
  | addLeaf beats level => exact records_addLeaf index identifier beats level s
  | storeValue value =>
    show Records index _ s (s.storeValue index value)
    unfold storeValue
    split
    · exact .record rfl (by simp [Instruction.codes, Finding.code])
    · exact .of_eq rfl
  | rejectDeclaration performer typeName =>
    exact .record rfl (by simp [Instruction.codes, Finding.code])
  | attach events => exact records_attach index identifier events s
  | _ => exact .of_eq rfl

/-- A token adds findings about itself. -/
theorem records_after (s : BuilderState) (index : Nat) (t : Token) :
    ∃ codes, Records index codes s (s.after index t) := by
  cases hi : t.instruction? with
  | none =>
    rcases after_of_instruction?_eq_none hi s index with h | h <;> rw [h]
    · exact ⟨[], .of_eq rfl⟩
    · exact ⟨[_], .record rfl (List.mem_singleton_self _)⟩
  | some i =>
    rw [after_of_instruction? hi]
    exact ⟨i.codes, records_perform index t.name i s⟩

/-! ### Steps of either builder -/

/-- What a builder has found behind a step, also if the step has halted it. -/
def foundBehind : Except Halted BuilderState → List Finding
  | .ok s => s.findings
  | .error halted => halted.findings

/-- A token halts no builder unless it is malformed or a declaration that is rejected. -/
theorem step_of_instruction? {t : Token} {i : Instruction} (h : t.instruction? = some i)
    (hr : i.rejection? = none) (strict : Bool) (s : BuilderState) (index : Nat) :
    s.step strict index t = .ok (s.after index t) := by
  rw [step, after, Token.ofToken_of_instruction? h]
  simp only [hr]

end BuilderState

/-- The codes of the findings that a token may lead to. -/
def Token.codes (t : Token) : List String :=
  match Reading.ofToken t with
  | .unrecognized => ["UNRECOGNIZED_IDENTIFIER"]
  | .malformed _ _ => ["MISSING_CONTEXT"]
  | .instruct i => i.codes

/-- Apart from two codes, a token has those of its instruction only. -/
theorem Token.exists_instruction?_of_mem_codes {t : Token} {code : String} (h : code ∈ t.codes)
    (hu : code ≠ "UNRECOGNIZED_IDENTIFIER") (hm : code ≠ "MISSING_CONTEXT") :
    ∃ i, t.instruction? = some i ∧ code ∈ i.codes := by
  unfold codes at h
  split at h
  · exact absurd (List.mem_singleton.mp h) hu
  · exact absurd (List.mem_singleton.mp h) hm
  · next i hi => exact ⟨i, by rw [instruction?, hi], h⟩

namespace BuilderState

/-- **A step adds findings about its token, whether or not the token halts the builder.** -/
theorem findings_step (strict : Bool) (s : BuilderState) (index : Nat) (t : Token) :
    ∃ new, foundBehind (s.step strict index t) = s.findings ++ new ∧
      ∀ f ∈ new, f.index? = some index ∧ f.code ∈ t.codes := by
  unfold step Token.codes
  cases Reading.ofToken t with
  | unrecognized =>
    refine ⟨[_], rfl, fun f hf => ?_⟩
    rw [List.mem_singleton.mp hf]
    exact ⟨rfl, List.mem_singleton_self _⟩
  | malformed before m => exact records_attach index t.name before s
  | instruct i =>
    have hrec := records_perform index t.name i s
    dsimp only
    split <;> exact hrec

/-! ### Runs -/

theorem findings_afterAll_isPrefix (s : BuilderState) (index : Nat) (ts : List Token) :
    s.findings <+: (s.afterAll index ts).findings := by
  induction ts generalizing s index with
  | nil => exact List.prefix_rfl
  | cons t rest ih =>
    obtain ⟨codes, new, e, -⟩ := records_after s index t
    exact (e ▸ List.prefix_append _ _ : s.findings <+: (s.after index t).findings).trans (ih _ _)

/-- **The numbers of the tokens never decrease along the findings of a run.** -/
theorem numbers_reached (ts : List Token) :
    ∃ numbers : List Nat, (reached ts).findings.map Finding.index? = numbers.map some ∧
      numbers.Pairwise (· ≤ ·) ∧ ∀ n ∈ numbers, n < ts.length := by
  induction ts using List.reverseRecOn with
  | nil => exact ⟨[], rfl, .nil, by simp⟩
  | append_singleton ts t ih =>
    obtain ⟨numbers, hm, hp, hl⟩ := ih
    obtain ⟨codes, new, e, hn⟩ := records_after (reached ts) ts.length t
    have hnew : new.map Finding.index? = (List.replicate new.length ts.length).map some := by
      rw [List.map_replicate]
      exact List.map_eq_replicate_iff.mpr fun f hf => (hn f hf).1
    refine ⟨numbers ++ List.replicate new.length ts.length, ?_, ?_, fun n h => ?_⟩
    · rw [reached_concat, e, List.map_append, List.map_append, hm, hnew]
    · rw [List.pairwise_append]
      refine ⟨hp, List.pairwise_replicate.mpr (.inr (Nat.le_refl _)), fun a ha b hb => ?_⟩
      rw [List.eq_of_mem_replicate hb]
      exact Nat.le_of_lt (hl a ha)
    · rw [List.length_append, List.length_singleton]
      rcases List.mem_append.mp h with h | h
      · exact Nat.lt_succ_of_lt (hl n h)
      · rw [List.eq_of_mem_replicate h]
        exact Nat.lt_succ_self _

end BuilderState

open BuilderState

/-! ### Reports -/

namespace Report

/-- The issues with a code. -/
def withCode (r : Report) (code : String) : List Issue :=
  r.issues.filter fun i => i.code = Text.ofString code

/-- The issues with another code. -/
def withoutCode (r : Report) (code : String) : List Issue :=
  r.issues.filter fun i => ¬ i.code = Text.ofString code

/-- The issues about tokens come in the order of the tokens. Those about weights that cannot divide
a node have no place, and come last. -/
structure InOrder (r : Report) : Prop where
  weights_last : r.issues = r.withoutCode "BEAT_WEIGHT" ++ r.withCode "BEAT_WEIGHT"
  places : ∃ numbers : List Nat, numbers.Pairwise (· ≤ ·) ∧
    (r.withoutCode "BEAT_WEIGHT").map Issue.location =
      numbers.map fun n => some (Text.ofString (tokenPlace n))
  no_place : ∀ i ∈ r.withCode "BEAT_WEIGHT", i.location = none

end Report

theorem Finding.code_issue_eq_iff (f : Finding) (code : String) :
    f.issue.code = Text.ofString code ↔ f.code = code :=
  ⟨fun h => Text.ofString_injective h, fun h => congrArg Text.ofString h⟩

/-- What stands out about a finding that no token has led to. -/
theorem Finding.code_eq_iff (f : Finding) : f.code = "BEAT_WEIGHT" ↔ f.index? = none := by
  cases f <;> simp [code, index?]

theorem code_of_mem_reached {ts : List Token} {f : Finding} (h : f ∈ (reached ts).findings) :
    f.code ≠ "BEAT_WEIGHT" := by
  obtain ⟨numbers, hm, -⟩ := numbers_reached ts
  have hf : f.index? ∈ numbers.map some := hm ▸ List.mem_map_of_mem h
  obtain ⟨n, -, hn⟩ := List.mem_map.mp hf
  rw [ne_eq, f.code_eq_iff, ← hn]
  exact Option.some_ne_none n

theorem code_of_mem_indivisible {f : Forest} {x : Finding} (h : x ∈ indivisible f) :
    x.code = "BEAT_WEIGHT" := by
  obtain ⟨t, -, ht⟩ := List.mem_flatMap.mp h
  obtain ⟨problem, -, rfl⟩ := List.mem_map.mp ht
  rfl

section

variable {ts : List Token} {score : Score}

/-- The report of a score is made of the findings of its run and of the nodes that cannot be
divided. -/
theorem issues_build (hb : build false ts = .ok score) :
    score.report.issues = (reached ts).findings.map Finding.issue ++
      (indivisible (reached ts).forest).map Finding.issue := by
  obtain ⟨-, rfl⟩ := build_lenient_eq_ok.mp hb
  simp only [toScore, Report.ofFindings, findings_closeMeasure, forest_closeMeasure,
    List.map_append]

/-- The issues that are not about weights are the findings of the run. -/
theorem withoutCode_build (hb : build false ts = .ok score) :
    score.report.withoutCode "BEAT_WEIGHT" = (reached ts).findings.map Finding.issue := by
  rw [Report.withoutCode, issues_build hb, List.filter_append, List.filter_map, List.filter_map,
    List.filter_eq_self.mpr, List.filter_eq_nil_iff.mpr, List.map_nil, List.append_nil]
  · intro f hf
    simp [f.code_issue_eq_iff, code_of_mem_indivisible hf]
  · intro f hf
    simp [f.code_issue_eq_iff, code_of_mem_reached hf]

/-- The issues with any other code are the findings of the run with this code. -/
theorem withCode_build (hb : build false ts = .ok score) {code : String}
    (h : code ≠ "BEAT_WEIGHT") : score.report.withCode code =
      ((reached ts).findings.filter fun f => f.code = code).map Finding.issue := by
  have hn : ((indivisible (reached ts).forest).map Finding.issue).filter
      (fun i => i.code = Text.ofString code) = [] := by
    refine List.filter_eq_nil_iff.mpr fun i hi => ?_
    obtain ⟨f, hf, rfl⟩ := List.mem_map.mp hi
    rw [decide_eq_true_eq, f.code_issue_eq_iff, code_of_mem_indivisible hf]
    exact h.symm
  rw [Report.withCode, issues_build hb, List.filter_append, hn, List.append_nil, List.filter_map]
  refine congrArg (List.map Finding.issue) (List.filter_congr fun f _ => ?_)
  exact decide_eq_decide.mpr (f.code_issue_eq_iff code)

/-- The issues about weights are the nodes that cannot be divided. -/
theorem withCode_weight_build (hb : build false ts = .ok score) :
    score.report.withCode "BEAT_WEIGHT" =
      (indivisible (reached ts).forest).map Finding.issue := by
  rw [Report.withCode, issues_build hb, List.filter_append, List.filter_map, List.filter_map,
    List.filter_eq_nil_iff.mpr, List.filter_eq_self.mpr, List.map_nil, List.nil_append]
  · intro f hf
    simp [f.code_issue_eq_iff, code_of_mem_indivisible hf]
  · intro f hf
    simp [f.code_issue_eq_iff, code_of_mem_reached hf]

/-- **Issues come in the order of their tokens, and those about weights come last.** -/
theorem inOrder_build (hb : build false ts = .ok score) : score.report.InOrder := by
  obtain ⟨numbers, hm, hp, -⟩ := numbers_reached ts
  refine ⟨?_, ⟨numbers, hp, ?_⟩, fun i hi => ?_⟩
  · rw [withoutCode_build hb, withCode_weight_build hb, issues_build hb]
  · have hl : (reached ts).findings.map (fun f => f.issue.location) =
        ((reached ts).findings.map Finding.index?).map
          (Option.map fun n => Text.ofString (tokenPlace n)) := by
      rw [List.map_map]
      rfl
    rw [withoutCode_build hb, List.map_map, Function.comp_def, hl, hm, List.map_map]
    rfl
  · rw [withCode_weight_build hb] at hi
    obtain ⟨f, hf, rfl⟩ := List.mem_map.mp hi
    have hn := f.code_eq_iff.mp (code_of_mem_indivisible hf)
    show f.index?.map _ = none
    rw [hn]
    rfl

end

end RhythmTree
