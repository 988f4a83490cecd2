import RhythmTree.Proofs.Conservation
import RhythmTree.Proofs.OpenChain
import RhythmTree.Proofs.Strictness

/-!
# Dropped nodes

A node without an open node to go to is dropped. Only a tree opens a node when none is open, so a
drop is followed by drops until the next tree. More nodes can be closed than are open only where
nothing stays open, so that the node is dropped as well.

* `closeLevels_cases`: closing levels pops the stack, or it empties it and records an underflow.
* `followed_step`, `followed_recorded`: **what a step and a run record: behind every underflow, the
  drop of the same node.**
* `outline_afterAll_of_empty`: while no node is open, no tree changes its shape until the next one.
* `underflows_and_drops`: **underflows and drops along the runs of a stream.**
-/

namespace RhythmTree

open BuilderState

/-! ### Lists of findings -/

/-- Behind every underflow comes the drop of the same node. -/
def UnderflowsFollowed (fs : List Finding) : Prop :=
  ∀ k f, fs[k]? = some f → f.code = "STACK_UNDERFLOW" →
    ∃ g, fs[k + 1]? = some g ∧ g.code = "NO_OPEN_CONTAINER" ∧ g.index? = f.index?

namespace UnderflowsFollowed

variable {fs gs : List Finding}

theorem of_forall_ne (h : ∀ f ∈ fs, f.code ≠ "STACK_UNDERFLOW") : UnderflowsFollowed fs :=
  fun _ f hf hc => absurd hc (h f (List.mem_of_getElem? hf))

theorem append (h : UnderflowsFollowed fs) (h' : UnderflowsFollowed gs) :
    UnderflowsFollowed (fs ++ gs) := by
  intro k f hf hc
  rcases Nat.lt_or_ge k fs.length with hlt | hge
  · rw [List.getElem?_append_left hlt] at hf
    obtain ⟨g, hg, hgc⟩ := h k f hf hc
    have hlt' : k + 1 < fs.length := (List.getElem?_eq_some_iff.mp hg).1
    exact ⟨g, by rw [List.getElem?_append_left hlt', hg], hgc⟩
  · rw [List.getElem?_append_right hge] at hf
    obtain ⟨g, hg, hgc⟩ := h' _ f hf hc
    refine ⟨g, ?_, hgc⟩
    rw [List.getElem?_append_right (by omega),
      show k + 1 - fs.length = k - fs.length + 1 by omega, hg]

theorem underflow (index needed closed : Nat) (identifier : String) (beats : Int) :
    UnderflowsFollowed
      [.underflow index needed closed, .noContainer index identifier beats] := by
  intro k f hf hc
  match k, hf with
  | 0, hf =>
    obtain rfl := Option.some.inj hf
    exact ⟨_, rfl, rfl, rfl⟩
  | 1, hf =>
    obtain rfl := Option.some.inj hf
    simp [Finding.code] at hc

end UnderflowsFollowed

/-- In a report, behind every underflow comes the drop of a node, at the same token. -/
def Report.UnderflowsFollowed (r : Report) : Prop :=
  ∀ (k : Nat) (i : Issue), r.issues[k]? = some i → i.code = Text.ofString "STACK_UNDERFLOW" →
    ∃ (n : Nat) (j : Issue), r.issues[k + 1]? = some j ∧
      j.code = Text.ofString "NO_OPEN_CONTAINER" ∧
      i.location = some (Text.ofString (tokenPlace n)) ∧ j.location = i.location

theorem UnderflowsFollowed.report {fs : List Finding} (h : UnderflowsFollowed fs) :
    (Report.ofFindings fs).UnderflowsFollowed := by
  intro k i hi hc
  obtain ⟨f, hf, rfl⟩ := Option.map_eq_some_iff.mp ((List.getElem?_map ..).symm.trans hi)
  have hcode : f.code = "STACK_UNDERFLOW" := (f.code_issue_eq_iff _).mp hc
  obtain ⟨g, hg, hgc, hindex⟩ := h k f hf hcode
  obtain ⟨n, hn⟩ : ∃ n, f.index? = some n := by
    refine Option.ne_none_iff_exists'.mp fun hz => ?_
    rw [f.code_eq_iff.mpr hz] at hcode
    exact absurd hcode (by decide)
  refine ⟨n, g.issue, ?_, (g.code_issue_eq_iff _).mpr hgc, ?_, ?_⟩
  · exact (List.getElem?_map ..).trans (congrArg (Option.map Finding.issue) hg)
  · show f.index?.map _ = _
    rw [hn]
    rfl
  · show g.index?.map _ = f.index?.map _
    rw [hindex]

/-- A node is dropped: the trees stay as they are, and among what is recorded about its token there
is one finding that says so. -/
structure Drops (index : Nat) (new : List Finding) (s s' : BuilderState) : Prop where
  forest : s'.forest = s.forest
  findings : s'.findings = s.findings ++ new
  token : ∀ f ∈ new, f.index? = some index
  once : new.countP (fun f => f.code = "NO_OPEN_CONTAINER") = 1

namespace BuilderState

/-! ### One node -/

/-- Closing levels pops the stack, or it empties it and records that there were too few of them. -/
theorem closeLevels_cases (index depth : Nat) (s : BuilderState) :
    (∃ stack, s.closeLevels index depth = { s with stack := stack }) ∨
      depth < s.depth ∧ ∃ needed closed, s.closeLevels index depth =
        { s.record (.underflow index needed closed) with stack := .empty } := by
  unfold closeLevels
  by_cases hd : depth < s.depth
  · rw [if_pos hd]
    by_cases hc : s.stack.closable (s.depth - depth : Nat) < s.depth - depth
    · refine .inr ⟨hd, s.depth - depth, s.stack.closable (s.depth - depth : Nat), ?_⟩
      -- as many nodes are closed as are open
      have hall : s.stack.pop (s.depth - depth : Nat) = .empty := by
        refine congrArg Stack.mk (List.drop_eq_nil_of_le ?_)
        rw [Stack.closable, Int.toNat_natCast] at hc ⊢
        show s.stack.size ≤ _
        omega
      simp only [if_pos hc, hall]
      rfl
    · exact .inl ⟨_, if_neg hc⟩
  · exact .inl ⟨s.stack, if_neg hd⟩

section

variable {s : BuilderState} {e : Extension} {index : Nat}

/-- Where closing levels leaves no node open, the new node is dropped. -/
theorem perform_extension_of_empty (h : (s.closeLevels index e.level.outer).stack.items = [])
    (identifier : String) :
    s.perform index identifier e.instruction =
      (s.closeLevels index e.level.outer).record (.noContainer index identifier e.beats) :=
  perform_extension_of_none (attachChild_empty h index identifier e.beats e.level.outer)

/-- Where closing levels leaves a node open, nothing is recorded about the new node. -/
theorem findings_perform_extension (h : (s.closeLevels index e.level.outer).stack.items ≠ [])
    (identifier : String) :
    (s.perform index identifier e.instruction).findings =
      (s.closeLevels index e.level.outer).findings := by
  obtain ⟨path, rest, hi⟩ := List.exists_cons_of_ne_nil h
  have ht : (s.closeLevels index e.level.outer).stack.top? = some path := by
    rw [Stack.top?, hi]
    rfl
  have hs : ∃ p after, s.attachNode index identifier e.beats e.level = (some p, after) ∧
      after.findings = (s.closeLevels index e.level.outer).findings := by
    rw [attachNode, attachChild, ht]
    exact ⟨_, _, rfl, rfl⟩
  obtain ⟨p, after, ha, hf⟩ := hs
  rw [perform_extension_of_some ha, ← hf]
  cases e.opens <;> rfl

/-- **A node adds nothing to the findings, or its drop, maybe behind an underflow.** -/
theorem followed_perform_extension (s : BuilderState) (e : Extension) (index : Nat)
    (identifier : String) :
    ∃ new, (s.perform index identifier e.instruction).findings = s.findings ++ new ∧
      UnderflowsFollowed new := by
  rcases closeLevels_cases index e.level.outer s with ⟨stack, h⟩ | ⟨-, needed, closed, h⟩
  · by_cases hi : (s.closeLevels index e.level.outer).stack.items = []
    · refine ⟨[.noContainer index identifier e.beats], ?_, .of_forall_ne ?_⟩
      · rw [perform_extension_of_empty hi, h]
        rfl
      · simp [Finding.code]
    · refine ⟨[], ?_, .of_forall_ne (by simp)⟩
      rw [findings_perform_extension hi, h, List.append_nil]
  · -- no node is open behind an underflow
    have hi : (s.closeLevels index e.level.outer).stack.items = [] := by
      rw [h]
      rfl
    refine ⟨_, ?_, .underflow index needed closed identifier e.beats⟩
    rw [perform_extension_of_empty hi, h]
    exact List.append_assoc ..

/-- **While no node is open, nodes are dropped**, and no underflow comes before the drop of a node
that is not below the level of the latest one. -/
theorem drops_of_empty (h : s.stack.items = []) (e : Extension) (index : Nat)
    (identifier : String) :
    ∃ new, Drops index new s (s.perform index identifier e.instruction) ∧
      (s.depth ≤ e.level.outer → ∃ f, new = [f]) := by
  have hi : (s.closeLevels index e.level.outer).stack.items = [] := by
    refine List.eq_nil_iff_forall_not_mem.mpr fun q hq => ?_
    have hm := (closeLevels_spec index e.level.outer s).2.2.1 q hq
    rw [h] at hm
    cases hm
  rw [perform_extension_of_empty hi]
  rcases closeLevels_cases index e.level.outer s with ⟨stack, hc⟩ | ⟨hd, needed, closed, hc⟩
  · rw [hc]
    refine ⟨[.noContainer index identifier e.beats], ⟨rfl, rfl, ?_, rfl⟩, fun _ => ⟨_, rfl⟩⟩
    simp [Finding.index?]
  · rw [hc]
    refine ⟨[.underflow index needed closed, .noContainer index identifier e.beats],
      ⟨rfl, List.append_assoc .., ?_, rfl⟩, fun hle => absurd hd (Nat.not_lt.mpr hle)⟩
    simp [Finding.index?]

end

end BuilderState

/-! ### Runs -/

theorem Extension.rejection?_instruction (e : Extension) : e.instruction.rejection? = none := by
  rw [instruction]
  split <;> rfl

theorem Extension.instruction_ne_attach (e : Extension) (events : List Event) :
    e.instruction ≠ .attach events := by
  rw [instruction]
  split <;> exact Instruction.noConfusion

namespace BuilderState

theorem step_of_extension? {t : Token} {e : Extension} (h : t.extension? = some e) (strict : Bool)
    (s : BuilderState) (index : Nat) :
    s.step strict index t = .ok (s.perform index t.name e.instruction) := by
  have hi := instruction?_of_extension? h
  rw [step_of_instruction? hi e.rejection?_instruction, after_of_instruction? hi]

theorem extension?_ne_none_of_mem_codes {t : Token} (h : "STACK_UNDERFLOW" ∈ t.codes) :
    t.extension? ≠ none := by
  obtain ⟨i, hi, hc⟩ := Token.exists_instruction?_of_mem_codes h (by decide) (by decide)
  cases i with
  | addInner beats level | addLeaf beats level =>
    rw [Token.extension?, hi]
    exact Option.some_ne_none _
  | _ => simp [Instruction.codes] at hc

theorem followed_step (strict : Bool) (s : BuilderState) (index : Nat) (t : Token) :
    ∃ new, foundBehind (s.step strict index t) = s.findings ++ new ∧ UnderflowsFollowed new := by
  cases he : t.extension? with
  | some e =>
    rw [step_of_extension? he]
    exact followed_perform_extension s e index t.name
  | none =>
    obtain ⟨new, hf, hnew⟩ := findings_step strict s index t
    refine ⟨new, hf, .of_forall_ne fun f hmem hc => ?_⟩
    exact extension?_ne_none_of_mem_codes (hc ▸ (hnew f hmem).2) he

theorem followed_run (strict : Bool) {s : BuilderState} (h : UnderflowsFollowed s.findings)
    (index : Nat) (ts : List Token) : UnderflowsFollowed (foundBy (run strict s index ts)) := by
  induction ts generalizing s index with
  | nil =>
    refine h.append (.of_forall_ne fun f hf => ?_)
    rw [code_of_mem_indivisible hf]
    decide
  | cons t rest ih =>
    obtain ⟨new, hf, hnew⟩ := followed_step strict s index t
    rw [run]
    cases hs : s.step strict index t with
    | error halted =>
      rw [hs] at hf
      show UnderflowsFollowed (foundBehind (.error halted))
      exact hf ▸ h.append hnew
    | ok s' =>
      rw [hs] at hf
      have h' : UnderflowsFollowed (foundBehind (.ok s')) := hf ▸ h.append hnew
      exact ih h' (index + 1)

end BuilderState

/-- **Behind every underflow comes the drop of the same node**, however a run ends. -/
theorem followed_recorded (strict : Bool) (ts : List Token) :
    UnderflowsFollowed (recorded strict ts) :=
  followed_run strict (.of_forall_ne fun _ hf => by cases hf) 0 ts

/-! ### While no node is open -/

namespace Outline

theorem addNode_of_empty {o : Outline} (h : o.stack.items = []) (opens : Bool) (beats : Int)
    (depth : Nat) : ∃ losses, o.addNode opens beats depth = { o with losses := losses } := by
  have hs : o.stack = .empty := congrArg Stack.mk h
  have hc : ∃ losses, o.closeLevels depth = { o with losses := losses } := by
    unfold closeLevels
    split
    · rw [hs, Stack.pop, Stack.empty, List.drop_nil]
      exact ⟨_, rfl⟩
    · exact ⟨o.losses, rfl⟩
  obtain ⟨losses, hc⟩ := hc
  refine ⟨losses ++ [.dropped], ?_⟩
  rw [addNode, hc, attachChild_of_none]
  rw [hs]
  rfl

variable {ts : List Token}

/-- While no node is open, only a tree changes more in an outline than what got lost. -/
theorem foldl_after_of_empty {o : Outline} (h : o.stack.items = [])
    (hts : ∀ t ∈ ts, t.startsTree = false) :
    ∃ losses, ts.foldl after o = { o with losses := losses } := by
  induction ts generalizing o with
  | nil => exact ⟨o.losses, rfl⟩
  | cons t rest ih =>
    obtain ⟨ht, hrest⟩ := List.forall_mem_cons.mp hts
    have step : ∃ losses, o.after t = { o with losses := losses } := by
      cases step_after o t with
      | tree d hs _ =>
        rw [ht] at hs
        cases hs
      | node e _ _ eq => exact eq ▸ addNode_of_empty h e.opens e.beats e.level.outer
      | idle _ _ eq => exact ⟨o.losses, eq⟩
    obtain ⟨losses, hl⟩ := step
    obtain ⟨more, hm⟩ := ih (o := o.after t) (by rw [hl]; exact h) hrest
    exact ⟨more, by rw [List.foldl_cons, hm, hl]⟩

end Outline

namespace BuilderState

variable {ts : List Token}

/-- **While no node is open, no tree changes its shape until the next one.** -/
theorem outline_afterAll_of_empty {s : BuilderState} (h : s.stack.items = [])
    (hts : ∀ t ∈ ts, t.startsTree = false) (index : Nat) :
    ∃ losses, (s.afterAll index ts).outline = { s.outline with losses := losses } := by
  rw [outline_afterAll]
  exact Outline.foldl_after_of_empty h hts

/-- Before the first tree no node is open, and no level has been entered. -/
theorem fresh_of_treeCount_eq_zero (h : treeCount ts = 0) :
    (reached ts).stack.items = [] ∧ (reached ts).depth = 0 := by
  have hts : ∀ t ∈ ts, t.startsTree = false := by simpa [treeCount] using h
  obtain ⟨losses, ho⟩ := outline_afterAll_of_empty (s := {}) rfl hts 0
  exact ⟨congrArg (fun o => o.stack.items) ho, congrArg Outline.depth ho⟩

/-- **A node that is not added leaves no node open.** -/
theorem stack_of_forest_eq {s : BuilderState} (ho : s.OpenStands) {t : Token} {e : Extension}
    (he : t.extension? = some e) {index : Nat} (hf : (s.after index t).forest = s.forest) :
    (s.after index t).stack.items = [] := by
  have hi := instruction?_of_extension? he
  cases nodeStep_after s index t with
  | root d a asks _ _ _ =>
    exact absurd (Option.some.inj (hi.symm.trans asks)) (e.instruction_ne_addRoot d)
  | child e' path _ top forest _ _ _ =>
    -- the place of the new child was free
    obtain ⟨u, hu⟩ := Forest.nodeAt?_ne_none_iff.mp (ho path top)
    have hnew := Forest.nodeAt?_addChild hu e'.beats
      (Place.child ⟨s.forest.length - 1, path⟩ u.children.length)
    rw [← forest, hf, Forest.nodeAt?_child_of_le hu (Nat.le_refl _), if_pos rfl] at hnew
    cases hnew
  | drop _ _ _ stack _ _ => exact stack
  | play events asks _ =>
    exact absurd (Option.some.inj (hi.symm.trans asks)) (e.instruction_ne_attach events)
  | idle asks _ _ _ =>
    have ha := asks _ hi
    rw [e.isAboutNodes_instruction] at ha
    cases ha

end BuilderState

/-- **Underflows and drops.** In the report of every run an underflow is followed by the drop of
the same node. Before the first tree every node is dropped, and nothing else is recorded about it.
Once a node is not added, every node is dropped until the next tree, and the trees keep their
shapes. -/
theorem underflows_and_drops (strict : Bool) :
    (∀ ts, (Report.ofFindings (recorded strict ts)).UnderflowsFollowed) ∧
    (∀ ts s t, run strict {} 0 ts = .ok s → treeCount ts = 0 → t.extension? ≠ none →
      ∃ s' f, s.step strict ts.length t = .ok s' ∧ Drops ts.length [f] s s') ∧
    ∀ before t after s₀ s₁ s, run strict {} 0 before = .ok s₀ → t.extension? ≠ none →
      s₀.step strict before.length t = .ok s₁ → s₁.forest = s₀.forest →
      (∀ u ∈ after, u.startsTree = false) → run strict s₁ (before.length + 1) after = .ok s →
        s.forest.map (Rose.map Node.beats) = s₀.forest.map (Rose.map Node.beats) ∧
        ∀ u, u.extension? ≠ none → ∃ s' new,
          s.step strict (before.length + 1 + after.length) u = .ok s' ∧
            Drops (before.length + 1 + after.length) new s s' := by
  refine ⟨fun ts => (followed_recorded strict ts).report, fun ts s t hr hz hn => ?_,
    fun before t after s₀ s₁ s hr hn hs hf hafter hr' => ?_⟩
  · obtain ⟨-, rfl⟩ : _ ∧ reached ts = s := run_lenient_eq_ok.mp (run_lenient_of_run hr)
    obtain ⟨e, he⟩ := Option.ne_none_iff_exists'.mp hn
    obtain ⟨hstack, hdepth⟩ := fresh_of_treeCount_eq_zero hz
    obtain ⟨new, hdrop, hone⟩ := drops_of_empty hstack e ts.length t.name
    obtain ⟨f, rfl⟩ := hone (hdepth ▸ Nat.zero_le _)
    exact ⟨_, f, step_of_extension? he strict _ _, hdrop⟩
  · obtain ⟨-, rfl⟩ : _ ∧ reached before = s₀ := run_lenient_eq_ok.mp (run_lenient_of_run hr)
    obtain ⟨-, rfl⟩ := step_lenient_eq_ok.mp (step_lenient_of_step hs)
    obtain ⟨-, rfl⟩ := run_lenient_eq_ok.mp (run_lenient_of_run hr')
    obtain ⟨e, he⟩ := Option.ne_none_iff_exists'.mp hn
    have hstack := stack_of_forest_eq (open_stands before) he hf
    obtain ⟨losses, ho⟩ := outline_afterAll_of_empty hstack hafter (before.length + 1)
    refine ⟨(congrArg Outline.trees ho).trans (congrArg _ hf), fun u hu => ?_⟩
    obtain ⟨e', he'⟩ := Option.ne_none_iff_exists'.mp hu
    have hstack' := (congrArg (fun o => o.stack.items) ho).trans hstack
    obtain ⟨new, hdrop, -⟩ :=
      drops_of_empty hstack' e' (before.length + 1 + after.length) u.name
    exact ⟨_, new, step_of_extension? he' strict _ _, hdrop⟩

open Token in
/-- A tree with a leaf that skips three levels. -/
def leapStream : List Token := [root (.ofNat 4), leaf 1 (.below 3)]

/-- The next leaf would close three nodes where one is open, so it is dropped, and so is another one
behind a bar. -/
theorem underflows_and_drops_leapStream :
    (Report.ofFindings (recorded false (leapStream ++ [.leaf 1 (.below 0)]))).UnderflowsFollowed ∧
      (recorded false (leapStream ++ [.leaf 1 (.below 0)])).map Finding.code =
        ["STACK_UNDERFLOW", "NO_OPEN_CONTAINER"] ∧
      (∃ s' f, step false {} 0 (.leaf 1 (.below 0)) = .ok s' ∧ Drops 0 [f] {} s') ∧
      (afterAll ((reached leapStream).after 2 (.leaf 1 (.below 0))) 3 [.bar]).forest.map
          (Rose.map Node.beats) = (reached leapStream).forest.map (Rose.map Node.beats) ∧
      ∃ s' new, step false (afterAll ((reached leapStream).after 2 (.leaf 1 (.below 0))) 3 [.bar])
          4 (.leaf 1 (.below 0)) = .ok s' ∧
        Drops 4 new (afterAll ((reached leapStream).after 2 (.leaf 1 (.below 0))) 3 [.bar]) s' := by
  have hleaf : (Token.leaf 1 (.below 0)).extension? ≠ none := by
    rw [extension?_leaf]
    exact Option.some_ne_none _
  obtain ⟨hreport, hfirst, hlater⟩ := underflows_and_drops false
  have hafter := hlater leapStream (.leaf 1 (.below 0)) [.bar] _ _ _
    (run_lenient_eq_ok.mpr ⟨by decide +kernel, rfl⟩) hleaf
    (step_lenient_eq_ok.mpr ⟨by decide +kernel, rfl⟩) rfl (by decide +kernel)
    (run_lenient_eq_ok.mpr ⟨by decide +kernel, rfl⟩)
  exact ⟨hreport _, by decide +kernel, hfirst [] {} _ rfl rfl hleaf, hafter.1, hafter.2 _ hleaf⟩

end RhythmTree
