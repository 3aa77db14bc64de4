import QuerySteps.Pipeline.Basic

/-!
# Steps that do nothing

A step without content asks for nothing: no columns, a blank formula, or a derived column under a
blank name, whatever its formula is.  Such a step is *idle* (`Step.isIdle`).  It must give back the
very query and not a level over it, since a table is summarised on the level that wraps it and a
level is nested first; `isIdle_iff` says that the idle steps are those that give back every query,
and that a single table is enough to tell them.

So idle steps may be put in anywhere (`Pipeline.Padded`), in the pipelines of a join too, and the
pipeline still builds the same query or ends with the same error.  The run of the steps is compared
first, by induction on the places where steps were put in, and then the pipelines, by the recursion
through the sides of joins.
-/

namespace QuerySteps

/-- Whether a formula is a blank text. -/
def FormulaText.isBlank : FormulaText → Bool
  | text s => Text.isBlankText s
  | tree _ => false

namespace Step

/-- Whether a step asks for nothing.  Under a blank name the formula does not matter. -/
def isIdle : Step → Bool
  | select names => names.isEmpty
  | rename columns => columns.isEmpty
  | filter formula => formula.isBlank
  | derive name formula => Text.isBlankText name || formula.isBlank
  | sample _ => false
  | summarise _ _ => false

variable {ops : Formula.Operators} {q : Query} {step : Step}

/-! ## One step -/

theorem resolve_of_isBlank {formula : FormulaText} (h : formula.isBlank = true) :
    formula.resolve ops = .ok none := by
  cases formula with
  | text s =>
    change Text.isBlankText s = true at h
    rw [FormulaText.resolve, if_pos h]
  | tree t => cases h

/-- A formula that is not blank stands for an expression, or it cannot be read. -/
theorem resolve_of_not_isBlank {formula : FormulaText} (h : formula.isBlank = false) :
    formula.resolve ops ≠ .ok none := by
  intro hnone
  cases formula with
  | text s =>
    change Text.isBlankText s = false at h
    rw [FormulaText.resolve, h] at hnone
    simp only [Bool.false_eq_true, if_false] at hnone
    split at hnone
    · cases hnone
    · split at hnone <;> cases hnone
  | tree t =>
    rw [FormulaText.resolve] at hnone
    split at hnone <;> cases hnone

/-- An idle step gives back the query as it is. -/
theorem apply_of_isIdle (h : step.isIdle = true) (ops : Formula.Operators) (q : Query) :
    step.apply ops q = .ok q := by
  cases step with
  | select names => exact congrArg Except.ok (if_pos h)
  | rename columns =>
    obtain rfl : columns = [] := List.isEmpty_iff.mp h
    rfl
  | filter formula =>
    rw [Step.apply, resolve_of_isBlank h]
    rfl
  | derive name formula =>
    by_cases hname : Text.isBlankText name = true
    · rw [Step.apply, if_pos hname]
    · have hformula : formula.isBlank = true := by simpa [isIdle, hname] using h
      rw [Step.apply, if_neg hname, resolve_of_isBlank hformula]
      rfl
  | sample rows => cases h
  | summarise keys aggregates => cases h

/-- An argument that is read and leaves a table as it is stands for nothing. -/
private theorem eq_none_of_map {α : Type} {arg : Except Error (Option α)} {name : String}
    {f : Option α → Query} (hlevel : ∀ a, ∃ source c, f (some a) = .level source c)
    (h : arg.map f = .ok (.table name)) : arg = .ok none := by
  cases arg with
  | error e => cases h
  | ok found =>
    cases found with
    | none => rfl
    | some a =>
      obtain ⟨source, c, hf⟩ := hlevel a
      change Except.ok (f (some a)) = _ at h
      rw [hf] at h
      cases h

/-- A step that leaves one table as it is asks for nothing. -/
theorem isIdle_of_apply_table {name : String}
    (h : step.apply ops (.table name) = .ok (.table name)) : step.isIdle = true := by
  cases step with
  | select names =>
    cases names with
    | nil => rfl
    | cons first names => cases h
  | rename columns =>
    cases columns with
    | nil => rfl
    | cons first columns => cases h
  | filter formula =>
    have hnone : formula.resolve ops = .ok none := eq_none_of_map (fun _ => ⟨_, _, rfl⟩) h
    cases hformula : formula.isBlank with
    | true => exact hformula
    | false => exact absurd hnone (resolve_of_not_isBlank hformula)
  | derive column formula =>
    cases hcolumn : Text.isBlankText column with
    | true => simp [isIdle, hcolumn]
    | false =>
      rw [Step.apply, hcolumn] at h
      have hnone : formula.resolve ops = .ok none := eq_none_of_map (fun _ => ⟨_, _, rfl⟩) h
      cases hformula : formula.isBlank with
      | true => simp [isIdle, hformula]
      | false => exact absurd hnone (resolve_of_not_isBlank hformula)
  | sample rows => cases h
  | summarise keys aggregates => cases h

/-- **The idle steps are those that give back every query as it is**, whatever the operators. -/
theorem isIdle_iff (ops : Formula.Operators) :
    step.isIdle = true ↔ ∀ q, step.apply ops q = .ok q :=
  ⟨fun h q => apply_of_isIdle h ops q, fun h => isIdle_of_apply_table (h (.table "t"))⟩

/-! ## Runs of steps -/

/-- Steps, and the same steps with idle ones put in between. -/
inductive Padded : List Step → List Step → Prop
  | nil : Padded [] []
  | keep {steps padded : List Step} (step : Step) (more : Padded steps padded) :
      Padded (step :: steps) (step :: padded)
  | idle {steps padded : List Step} {step : Step} (isIdle : step.isIdle = true)
      (more : Padded steps padded) : Padded steps (step :: padded)

/-- Steps with idle ones between them lead to the same query or the same error. -/
theorem Padded.applyAll_eq {steps padded : List Step} (h : Padded steps padded) (q : Query) :
    applyAll ops q padded = applyAll ops q steps := by
  induction h generalizing q with
  | nil => rfl
  | keep step _ ih =>
    rw [applyAll, applyAll]
    cases step.apply ops q with
    | error e => rfl
    | ok next => exact ih next
  | idle isIdle _ ih =>
    rw [applyAll, apply_of_isIdle isIdle]
    exact ih q

end Step

/-! ## Pipelines -/

mutual

/-- A pipeline, and the same pipeline with idle steps put in, on the sides of joins as well. -/
inductive Pipeline.Padded : Pipeline → Pipeline → Prop
  | mk {source source' : Source} {steps steps' : List Step}
      (paddedSource : Source.Padded source source') (paddedSteps : Step.Padded steps steps') :
      Pipeline.Padded (.mk source steps) (.mk source' steps')

/-- A source, and the same source with idle steps put into the pipelines of its joins. -/
inductive Source.Padded : Source → Source → Prop
  | table (name : String) : Source.Padded (.table name) (.table name)
  | join {left left' right right' : Pipeline} (paddedLeft : Pipeline.Padded left left')
      (paddedRight : Pipeline.Padded right right') (on : List JoinKey) :
      Source.Padded (.join left right on) (.join left' right' on)

end

mutual

private theorem Pipeline.Padded.build_eq {ops : Formula.Operators} :
    ∀ {p p' : Pipeline}, Pipeline.Padded p p' → p'.build ops = p.build ops
  | .mk source steps, _, .mk paddedSource paddedSteps => by
    rw [Pipeline.build, Pipeline.build, paddedSource.build_eq]
    cases source.build ops with
    | error e => rfl
    | ok q => exact paddedSteps.applyAll_eq q

private theorem Source.Padded.build_eq {ops : Formula.Operators} :
    ∀ {s s' : Source}, Source.Padded s s' → s'.build ops = s.build ops
  | _, _, .table name => rfl
  | _, _, .join paddedLeft paddedRight on => by
    rw [Source.build, Source.build, paddedLeft.build_eq, paddedRight.build_eq]

end

/-- **Idle steps can be put in anywhere and left out again.**  They are the steps that give back
every query as it is; and a pipeline builds the same query, or ends with the same error, with idle
steps put in at any places of its steps and of the steps of its joined pipelines. -/
theorem Pipeline.build_padded (ops : Formula.Operators) :
    (∀ step : Step, step.isIdle = true ↔ ∀ q, step.apply ops q = .ok q) ∧
      ∀ p p' : Pipeline, p.Padded p' → p'.build ops = p.build ops :=
  ⟨fun _ => Step.isIdle_iff ops, fun _ _ h => h.build_eq⟩

/-- Idle steps of every kind on both sides of a join and above it, one of them before the summary
of a table, and idle steps around a formula that cannot be read. -/
theorem Pipeline.build_padded_report :
    let left (steps : List Step) := Pipeline.mk (.table "a") steps
    let right (steps : List Step) := Pipeline.mk (.table "b") steps
    let plain := Pipeline.mk (.join (left [.summarise ["k"] []]) (right []) [.shared "k"])
      [.sample 3]
    let padded := Pipeline.mk
      (.join (left [.select [], .derive " " (.text "a >"), .summarise ["k"] [], .rename []])
        (right [.filter (.text "\t")]) [.shared "k"])
      [.derive "" (.tree (.operator "+" [])), .sample 3, .derive "x" (.text " ")]
    let broken := Pipeline.mk (.table "t") [.filter (.text "a >")]
    let brokenPadded := Pipeline.mk (.table "t")
      [.rename [], .filter (.text "a >"), .derive "" (.text "b >")]
    plain.Padded padded ∧ padded.build .default = plain.build .default ∧
      (plain.build .default).toOption.isSome ∧ broken.Padded brokenPadded ∧
      brokenPadded.build .default = broken.build .default ∧
      broken.build .default = .error (.formula ⟨3, .expressionExpected ""⟩) := by
  intro left right plain padded broken brokenPadded
  have hleft : (left [.summarise ["k"] []]).Padded
      (left [.select [], .derive " " (.text "a >"), .summarise ["k"] [], .rename []]) :=
    .mk (.table "a") (.idle rfl (.idle rfl (.keep _ (.idle rfl .nil))))
  have hright : (right []).Padded (right [.filter (.text "\t")]) :=
    .mk (.table "b") (.idle rfl .nil)
  have hplain : plain.Padded padded :=
    .mk (.join hleft hright [.shared "k"]) (.idle rfl (.keep (.sample 3) (.idle rfl .nil)))
  have hbroken : broken.Padded brokenPadded :=
    .mk (.table "t") (.idle rfl (.keep _ (.idle rfl .nil)))
  exact ⟨hplain, (build_padded .default).2 plain padded hplain, rfl, hbroken,
    (build_padded .default).2 broken brokenPadded hbroken, rfl⟩

end QuerySteps
