import QuerySteps.Proofs.Json.Calls
import QuerySteps.Proofs.Json.ReadValues

/-!
# Pipelines loaded, saved and loaded again

A pipeline that was read of a JSON text is written in one form, whatever forms the text used:
records by position or with their keys in any order, keys that nobody knows, lists that were left
out.  What is written is read as the same pipeline (`Pipeline.readJson?_toJson`), because its
scalars are those that were read, and because it nests no deeper than the text did
(`Pipeline.rewritten_toJson`).

The doubles are left to the rounding of the reader.  One that misses the nearest double may read
what is written for a double as its neighbour; that it does not is assumed of the doubles of the
pipeline (`Json.ReadsBack`), and of no other number.

There is one exception.  Of the lists that may be left out, the steps of a pipeline and the
aggregates of a summary have a neighbour that is nested as deep, but the arguments of a call have
none.  A pipeline with such a call at the deepest level is read, and what is written for it is not
(`Pipeline.readJson?_cut`).
-/

namespace QuerySteps

open Json (deepest fields? choiceFields? strictForm FromPart Rewritten rewritten_self
  rewritten_empty rewritten_array rewritten_object rewritten_choice inside_object inside_of_choice?
  inside_of_fields? eq_text_of_text? eq_object_of_choice?)

/-! ## The levels of calls without arguments -/

/-- The levels of the calls without arguments in a step. -/
def Step.bareCalls (depth : Nat) : Step → List Nat
  | .filter formula => formula.bareCalls (depth + 1)
  | .derive _ formula => formula.bareCalls (depth + 2)
  | _ => []

mutual

/-- The levels of the calls without arguments in a pipeline. -/
def Pipeline.bareCalls (depth : Nat) : Pipeline → List Nat
  | .mk source steps => source.bareCalls (depth + 1) ++ steps.flatMap (Step.bareCalls (depth + 2))

/-- The levels of the calls without arguments in a source. -/
def Source.bareCalls (depth : Nat) : Source → List Nat
  | .table _ => []
  | .join left right _ => left.bareCalls (depth + 2) ++ right.bareCalls (depth + 2)

end

/-! ## Keys, columns and aggregates -/

/-- A join key is written as it was read. -/
theorem JoinKey.eq_toJson {v : Json} {key : JoinKey} (h : ofJson? v = some key) :
    v = key.toJson := by
  unfold ofJson? at h
  split at h <;> cases h <;> rfl

theorem JoinKey.ofJson?_toJson (key : JoinKey) : ofJson? key.toJson = some key := by
  cases key <;> rfl

/-- A column choice is written as it was read. -/
theorem ColumnChoice.eq_toJson {v : Json} {choice : ColumnChoice} (h : ofJson? v = some choice) :
    v = choice.toJson := by
  unfold ofJson? at h
  split at h <;> cases h <;> rfl

theorem ColumnChoice.ofJson?_toJson (choice : ColumnChoice) :
    ofJson? choice.toJson = some choice := by
  cases choice with
  | keep column => rfl
  | pair column newName => cases newName <;> rfl

/-- An aggregate is written as it was read. -/
theorem Aggregate.eq_toJson {v : Json} {a : Aggregate} (h : ofJson? strictForm v = some a) :
    v = a.toJson := by
  unfold ofJson? at h
  split at h
  · next function column output rest =>
    split at h
    · next hrest =>
      obtain rfl : rest = [] := by simpa [strictForm] using hrest
      cases h
      rfl
    · cases h
  · cases h

theorem Aggregate.ofJson?_toJson (a : Aggregate) : ofJson? strictForm a.toJson = some a :=
  rfl

/-! ## Steps -/

/-- In JSON text the record of a choice is read like any other. -/
theorem choiceFields?_eq (known : List String) (v : Json) :
    choiceFields? strictForm known v = fields? strictForm known v := by
  unfold choiceFields?
  split
  · rfl
  · rfl

namespace Step

section

variable (record : Json)

private theorem ofJson?_select : ofJson? strictForm (.object [("select_columns", record)]) = (do
    return select (← record.all? Json.text?)) :=
  rfl

private theorem ofJson?_rename : ofJson? strictForm (.object [("aliases", record)]) = (do
    return rename (← record.all? ColumnChoice.ofJson?)) :=
  rfl

private theorem ofJson?_filter : ofJson? strictForm (.object [("where", record)]) = (do
    return filter (← FormulaText.ofJson? record)) :=
  rfl

private theorem ofJson?_derive : ofJson? strictForm (.object [("derive", record)]) = (do
    match ← choiceFields? strictForm ["name", "expression"] record with
    | (_, [some name, some formula]) =>
      return derive (← name.text?) (← FormulaText.ofJson? formula)
    | _ => none) :=
  rfl

private theorem ofJson?_sample (n : Int) :
    ofJson? strictForm (.object [("sample", .scalar (.integer n))]) =
      if 0 ≤ n ∧ n ≤ greatestSample then some (sample n.toNat) else none :=
  rfl

private theorem ofJson?_summarise : ofJson? strictForm (.object [("summarise", record)]) = (do
    match ← choiceFields? strictForm ["keys", "aggregates"] record with
    | (_, [some keys, some aggregates]) =>
      return summarise (← keys.all? Json.text?)
        (← aggregates.all? (Aggregate.ofJson? strictForm))
    | (_, [some keys, none]) => return summarise (← keys.all? Json.text?) []
    | _ => none) :=
  rfl

end

private theorem all?_texts (names : List String) :
    Json.all? Json.text? (Json.texts names) = some names :=
  Json.all?_map fun name _ => Json.text?_text name

/-- **A written step is read back**, if its sample can be written. -/
theorem ofJson?_toJson {step : Step} (h : step.toJson.isCanonical) :
    ofJson? strictForm step.toJson = some step := by
  cases step with
  | select names =>
    rw [toJson, ofJson?_select, all?_texts]
    rfl
  | rename columns =>
    rw [toJson, ofJson?_rename, Json.all?_map fun c _ => ColumnChoice.ofJson?_toJson c]
    rfl
  | filter formula =>
    rw [toJson, ofJson?_filter, FormulaText.ofJson?_toJson]
    rfl
  | derive name formula =>
    rw [toJson, ofJson?_derive, choiceFields?_eq, Json.fields?_pair _ _ (by decide)]
    simp [FormulaText.ofJson?_toJson]
  | sample rows =>
    have hrange : Scalar.inRange rows := by
      simpa [toJson, Json.isCanonical, Json.canonicalMembers, Scalar.isCanonical] using h
    obtain ⟨-, hhigh⟩ := Formula.inRange_iff.mp hrange
    have hgreatest : greatestSample = 18446744073709551615 := rfl
    rw [toJson, ofJson?_sample, if_pos (by omega), Int.toNat_natCast]
  | summarise keys aggregates =>
    have haggregates : Json.all? (Aggregate.ofJson? strictForm)
        (.array (aggregates.map (·.toJson))) = some aggregates :=
      Json.all?_map fun a _ => Aggregate.ofJson?_toJson a
    rw [toJson, ofJson?_summarise, choiceFields?_eq, Json.fields?_pair _ _ (by decide)]
    simp [all?_texts, haggregates]

private theorem eq_texts {v : Json} {names : List String} (h : v.all? Json.text? = some names) :
    v = Json.texts names :=
  Json.eq_array_of_all? (fun _ _ h => eq_text_of_text? h) h

section

variable {depth : Nat} {record : Json} {step : Step}

private theorem rewritten_select
    (h : ofJson? strictForm (.object [("select_columns", record)]) = some step) :
    Rewritten depth (.object [("select_columns", record)]) step.toJson (step.bareCalls depth) := by
  rw [ofJson?_select] at h
  obtain ⟨names, hnames, h⟩ := Option.bind_eq_some_iff.mp h
  cases h
  rw [eq_texts hnames]
  exact rewritten_self ..

private theorem rewritten_rename
    (h : ofJson? strictForm (.object [("aliases", record)]) = some step) :
    Rewritten depth (.object [("aliases", record)]) step.toJson (step.bareCalls depth) := by
  rw [ofJson?_rename] at h
  obtain ⟨columns, hcolumns, h⟩ := Option.bind_eq_some_iff.mp h
  cases h
  rw [Json.eq_array_of_all? (fun _ _ h => ColumnChoice.eq_toJson h) hcolumns]
  exact rewritten_self ..

private theorem rewritten_filter
    (h : ofJson? strictForm (.object [("where", record)]) = some step) :
    Rewritten depth (.object [("where", record)]) step.toJson (step.bareCalls depth) := by
  rw [ofJson?_filter] at h
  obtain ⟨formula, hformula, h⟩ := Option.bind_eq_some_iff.mp h
  cases h
  exact rewritten_choice ⟨record, inside_object List.mem_cons_self,
    FormulaText.rewritten_toJson hformula⟩ "where"

private theorem rewritten_derive
    (h : ofJson? strictForm (.object [("derive", record)]) = some step) :
    Rewritten depth (.object [("derive", record)]) step.toJson (step.bareCalls depth) := by
  rw [ofJson?_derive, choiceFields?_eq] at h
  obtain ⟨⟨asArray, fields⟩, hfields, h⟩ := Option.bind_eq_some_iff.mp h
  have hinside := inside_of_fields? hfields
  split at h
  · next name formula heq =>
    cases heq
    obtain ⟨s, hs, h⟩ := Option.bind_eq_some_iff.mp h
    obtain ⟨f, hf, h⟩ := Option.bind_eq_some_iff.mp h
    cases h
    have hname := (hinside name (by simp)).fromPart (depth + 1) (f.bareCalls (depth + 2))
    have hformula : FromPart (depth + 1) record f.toJson (f.bareCalls (depth + 2)) :=
      ⟨formula, hinside formula (by simp), FormulaText.rewritten_toJson hf⟩
    rw [eq_text_of_text? hs] at hname
    exact rewritten_choice ⟨record, inside_object List.mem_cons_self,
      rewritten_object (List.cons_ne_nil _ _) (by simpa using ⟨hname, hformula⟩)⟩ "derive"
  · cases h

private theorem rewritten_sample
    (h : ofJson? strictForm (.object [("sample", record)]) = some step) :
    Rewritten depth (.object [("sample", record)]) step.toJson (step.bareCalls depth) := by
  unfold ofJson? at h
  simp only [Json.choice?, Option.bind_eq_bind, Option.bind_some] at h
  split at h
  · next n =>
    split at h
    · next hrange =>
      cases h
      have hn : ((n.toNat : Nat) : Int) = n := Int.toNat_of_nonneg hrange.1
      rw [toJson, hn]
      exact rewritten_self ..
    · cases h
  · cases h

/-- Aggregates that were left out are nested no deeper than the keys beside them. -/
private theorem rewritten_summarise
    (h : ofJson? strictForm (.object [("summarise", record)]) = some step) :
    Rewritten depth (.object [("summarise", record)]) step.toJson (step.bareCalls depth) := by
  rw [ofJson?_summarise, choiceFields?_eq] at h
  obtain ⟨⟨asArray, fields⟩, hfields, h⟩ := Option.bind_eq_some_iff.mp h
  have hinside := inside_of_fields? hfields
  split at h
  · next keys aggregates heq =>
    cases heq
    obtain ⟨ks, hks, h⟩ := Option.bind_eq_some_iff.mp h
    obtain ⟨as, has, h⟩ := Option.bind_eq_some_iff.mp h
    cases h
    have hkeys := (hinside keys (by simp)).fromPart (depth + 1) []
    have haggregates := (hinside aggregates (by simp)).fromPart (depth + 1) []
    rw [eq_texts hks] at hkeys
    rw [Json.eq_array_of_all? (fun _ _ h => Aggregate.eq_toJson h) has] at haggregates
    exact rewritten_choice ⟨record, inside_object List.mem_cons_self,
      rewritten_object (List.cons_ne_nil _ _) (by simpa using ⟨hkeys, haggregates⟩)⟩ "summarise"
  · next keys heq =>
    cases heq
    obtain ⟨ks, hks, h⟩ := Option.bind_eq_some_iff.mp h
    cases h
    obtain rfl := eq_texts hks
    have hkeys := hinside _ (List.mem_cons_self ..)
    have hpos : 0 < (Json.texts ks).height := Nat.succ_pos _
    have haggregates : FromPart (depth + 1) record (.array []) [] :=
      ⟨_, hkeys, rewritten_empty hpos ..⟩
    exact rewritten_choice ⟨record, inside_object List.mem_cons_self,
      rewritten_object (List.cons_ne_nil _ _)
        (by simpa using ⟨hkeys.fromPart (depth + 1) [], haggregates⟩)⟩ "summarise"
  · cases h

end

/-- **A step is written as it was read**, but for calls without arguments and for aggregates that
were left out. -/
theorem rewritten_toJson {depth : Nat} {v : Json} {step : Step}
    (h : ofJson? strictForm v = some step) :
    Rewritten depth v step.toJson (step.bareCalls depth) := by
  obtain ⟨⟨kind, record⟩, hchoice, hrecord⟩ := Option.bind_eq_some_iff.mp h
  obtain rfl := eq_object_of_choice? hchoice
  simp only at hrecord
  split at hrecord
  · exact rewritten_select h
  · exact rewritten_rename h
  · exact rewritten_filter h
  · exact rewritten_derive h
  · exact rewritten_sample h
  · exact rewritten_summarise h
  · cases hrecord

/-- A step with a formula whose text needs too many brackets is not read. -/
theorem ofJson?_cut {depth : Nat} {step : Step} (h : deepest ∈ step.bareCalls depth) :
    ofJson? strictForm (step.toJson.cut depth) = none := by
  cases step with
  | filter formula =>
    refine Json.read_cut_choice rfl fun _ => ?_
    rw [ofJson?_filter, FormulaText.ofJson?_cut h]
    rfl
  | derive name formula =>
    refine Json.read_cut_choice rfl fun _ => ?_
    rw [ofJson?_derive, choiceFields?_eq, Json.fields?_cut_pair (by decide)]
    split
    · simp [FormulaText.ofJson?_cut h]
    · rfl
  | select names => exact (List.not_mem_nil h).elim
  | rename columns => exact (List.not_mem_nil h).elim
  | sample rows => exact (List.not_mem_nil h).elim
  | summarise keys aggregates => exact (List.not_mem_nil h).elim

end Step

/-! ## Pipelines -/

private theorem Source.ofJson?_join (form : Json.Form) (pipeline? : Json → Option Pipeline)
    (record : Json) : Source.ofJson? form pipeline? (.object [("join", record)]) = (do
      match ← choiceFields? form ["left", "right", "on"] record with
      | (_, [some left, some right, some on]) =>
        return .join (← pipeline? left) (← pipeline? right) (← on.all? JoinKey.ofJson?)
      | _ => none) :=
  rfl

private theorem Pipeline.readJson?_succ (n : Nat) (v : Json) :
    Pipeline.readJson? strictForm (n + 1) v = (do
      match ← fields? strictForm ["source", "steps"] v with
      | (_, [some source, steps]) =>
        let source ← Source.ofJson? strictForm (Pipeline.readJson? strictForm n) source
        match steps with
        | some steps => return .mk source (← steps.all? (Step.ofJson? strictForm))
        | none => return .mk source []
      | _ => none) :=
  rfl

mutual

/-- **A written pipeline is read back**, if its literals and samples can be written. -/
theorem Pipeline.readJson?_toJson : ∀ (p : Pipeline) {n : Nat}, p.toJson.height ≤ n →
    p.toJson.isCanonical → Pipeline.readJson? strictForm n p.toJson = some p
  | .mk _ _, 0, h, _ => by simp [Pipeline.toJson, Json.height] at h
  | .mk source steps, n + 1, h, hv => by
    simp only [Pipeline.toJson, Json.height, Json.heightMembers] at h
    obtain ⟨hsource, hsteps, -⟩ : source.toJson.isCanonical ∧
        Json.canonicalItems (steps.map Step.toJson) ∧ True := by
      simpa [Pipeline.toJson, Json.isCanonical, Json.canonicalMembers] using hv
    have hread := Source.ofJson?_toJson source (n := n) (by omega) hsource
    have hall : Json.all? (Step.ofJson? strictForm) (.array (steps.map Step.toJson)) =
        some steps :=
      Json.all?_map fun step hstep => Step.ofJson?_toJson
        (Json.canonicalItems_iff.mp hsteps _ (List.mem_map_of_mem hstep))
    rw [Pipeline.toJson, Pipeline.readJson?_succ, Json.fields?_pair _ _ (by decide)]
    simp [hread, hall]

theorem Source.ofJson?_toJson : ∀ (s : Source) {n : Nat}, s.toJson.height ≤ n →
    s.toJson.isCanonical →
    Source.ofJson? strictForm (Pipeline.readJson? strictForm n) s.toJson = some s
  | .table name, n, _, _ => rfl
  | .join left right on, n, h, hv => by
    simp only [Source.toJson, Json.height, Json.heightMembers] at h
    obtain ⟨hleft, hright, -⟩ : left.toJson.isCanonical ∧ right.toJson.isCanonical ∧ _ := by
      simpa [Source.toJson, Json.isCanonical, Json.canonicalMembers] using hv
    have hleft := Pipeline.readJson?_toJson left (n := n) (by omega) hleft
    have hright := Pipeline.readJson?_toJson right (n := n) (by omega) hright
    have hon : Json.all? JoinKey.ofJson? (.array (on.map (·.toJson))) = some on :=
      Json.all?_map fun key _ => JoinKey.ofJson?_toJson key
    rw [Source.toJson, Source.ofJson?_join, choiceFields?_eq,
      Json.fields?_triple _ _ _ (by decide) (by decide) (by decide)]
    simp [hleft, hright, hon]

end

/-- A source is written as it was read, if the pipelines of a join are. -/
theorem Source.rewritten_toJson {pipeline? : Json → Option Pipeline} {depth : Nat} {v : Json}
    {s : Source} (hpipeline : ∀ {v p depth}, pipeline? v = some p →
      Rewritten depth v p.toJson (p.bareCalls depth))
    (h : Source.ofJson? strictForm pipeline? v = some s) :
    Rewritten depth v s.toJson (s.bareCalls depth) := by
  obtain ⟨⟨kind, record⟩, hchoice, h⟩ := Option.bind_eq_some_iff.mp h
  have hrecord := inside_of_choice? hchoice
  simp only at h
  split at h
  · obtain ⟨name, hname, h⟩ := Option.bind_eq_some_iff.mp h
    cases h
    rw [eq_text_of_text? hname] at hrecord
    exact rewritten_choice (hrecord.fromPart depth _) "table"
  · obtain ⟨⟨asArray, fields⟩, hfields, h⟩ := Option.bind_eq_some_iff.mp h
    rw [choiceFields?_eq] at hfields
    have hinside := inside_of_fields? hfields
    split at h
    · next left right on heq =>
      cases heq
      obtain ⟨l, hl, h⟩ := Option.bind_eq_some_iff.mp h
      obtain ⟨r, hr, h⟩ := Option.bind_eq_some_iff.mp h
      obtain ⟨keys, hkeys, h⟩ := Option.bind_eq_some_iff.mp h
      cases h
      have hleft : FromPart (depth + 1) record l.toJson (l.bareCalls (depth + 2)) :=
        ⟨left, hinside left (by simp), hpipeline hl⟩
      have hright : FromPart (depth + 1) record r.toJson (r.bareCalls (depth + 2)) :=
        ⟨right, hinside right (by simp), hpipeline hr⟩
      have hon := (hinside on (by simp)).fromPart (depth + 1)
        (l.bareCalls (depth + 2) ++ r.bareCalls (depth + 2))
      rw [Json.eq_array_of_all? (fun _ _ h => JoinKey.eq_toJson h) hkeys] at hon
      exact rewritten_choice ⟨record, hrecord, rewritten_object (List.cons_ne_nil _ _)
        (by simpa using ⟨hleft.mono (List.subset_append_left _ _),
          hright.mono (List.subset_append_right _ _), hon⟩)⟩ "join"
    · cases h
  · cases h

theorem Source.height_pos {pipeline? : Json → Option Pipeline} {v : Json} {s : Source}
    (h : Source.ofJson? strictForm pipeline? v = some s) : 0 < v.height := by
  obtain ⟨⟨kind, record⟩, hchoice, -⟩ := Option.bind_eq_some_iff.mp h
  exact Nat.zero_lt_of_lt (inside_of_choice? hchoice).height

/-- **A pipeline is written as it was read**, but for lists that were left out. -/
theorem Pipeline.rewritten_toJson {n depth : Nat} {v : Json} {p : Pipeline}
    (h : Pipeline.readJson? strictForm n v = some p) :
    Rewritten depth v p.toJson (p.bareCalls depth) := by
  induction n generalizing v p depth with
  | zero => cases h
  | succ n ih =>
    obtain ⟨⟨asArray, fields⟩, hfields, h⟩ := Option.bind_eq_some_iff.mp h
    have hinside := inside_of_fields? hfields
    split at h
    · next source steps heq =>
      cases heq
      obtain ⟨s, hs, h⟩ := Option.bind_eq_some_iff.mp h
      have hsource : FromPart depth v s.toJson (s.bareCalls (depth + 1)) :=
        ⟨source, hinside source (by simp), Source.rewritten_toJson ih hs⟩
      split at h
      · next steps =>
        obtain ⟨all, hall, h⟩ := Option.bind_eq_some_iff.mp h
        cases h
        obtain ⟨items, rfl, hitems⟩ := Json.all?_eq_some hall
        have hsteps : Rewritten (depth + 1) (.array items) (.array (all.map Step.toJson))
            (all.flatMap (Step.bareCalls (depth + 2))) := by
          refine rewritten_array fun step hstep => ?_
          obtain ⟨item, hitem, hread⟩ := Json.exists_item hitems step hstep
          exact ⟨item, hitem, (Step.rewritten_toJson hread).mono fun level hlevel =>
            List.mem_flatMap.mpr ⟨step, hstep, hlevel⟩⟩
        have hpart : FromPart depth v _ _ := ⟨_, hinside _ (by simp), hsteps⟩
        exact rewritten_object (List.cons_ne_nil _ _)
          (by simpa using ⟨hsource.mono (List.subset_append_left _ _),
            hpart.mono (List.subset_append_right _ _)⟩)
      · cases h
        have hpart : FromPart depth v (.array []) (Pipeline.bareCalls depth (.mk s [])) :=
          ⟨source, hinside source (by simp), rewritten_empty (Source.height_pos hs) ..⟩
        exact rewritten_object (List.cons_ne_nil _ _)
          (by simpa using ⟨hsource.mono (List.subset_append_left _ _), hpart⟩)
    · cases h

mutual

/-- **A pipeline with a call whose text needs too many brackets is not read.** -/
theorem Pipeline.readJson?_cut : ∀ (p : Pipeline) {n depth : Nat},
    deepest ∈ p.bareCalls depth →
    Pipeline.readJson? strictForm n (p.toJson.cut depth) = none
  | _, 0, _, _ => rfl
  | .mk source steps, n + 1, depth, h => by
    rw [Pipeline.toJson, Pipeline.readJson?_succ, Json.fields?_cut_pair (by decide)]
    split
    · rcases List.mem_append.mp h with h | h
      · have hsource := Source.ofJson?_cut source (n := n) h
        simp [hsource]
      · obtain ⟨step, hstep, hcall⟩ := List.mem_flatMap.mp h
        have hsteps : Json.all? (Step.ofJson? strictForm)
            ((Json.array (steps.map Step.toJson)).cut (depth + 1)) = none := by
          rw [Json.all?_cut]
          split
          · exact Json.all?_eq_none (List.mem_map_of_mem (List.mem_map_of_mem hstep))
              (Step.ofJson?_cut hcall)
          · rfl
        simp [hsteps]
    · rfl

theorem Source.ofJson?_cut : ∀ (s : Source) {n depth : Nat}, deepest ∈ s.bareCalls depth →
    Source.ofJson? strictForm (Pipeline.readJson? strictForm n) (s.toJson.cut depth) = none
  | .table _, _, _, h => (List.not_mem_nil h).elim
  | .join left right on, n, depth, h => by
    refine Json.read_cut_choice rfl fun _ => ?_
    rw [Source.ofJson?_join, choiceFields?_eq,
      Json.fields?_cut_triple (by decide) (by decide) (by decide)]
    split
    · rcases List.mem_append.mp h with h | h
      · simp [Pipeline.readJson?_cut left (n := n) h]
      · simp [Pipeline.readJson?_cut right (n := n) h]
    · rfl

end

/-! ## Loading, saving and loading again -/

/-- Every part of a written step has a value. -/
theorem Step.readable_toJson (step : Step) : step.toJson.readable := by
  have htexts : ∀ names, (Json.texts names).readable := fun names => by
    simp [Json.texts, Json.readable, Json.readableItems_iff, Json.text]
  have hformula : ∀ f : FormulaText, f.toJson.readable := fun f => by
    cases f with
    | text s => rfl
    | tree t => exact Tree.readable_toJson t
  cases step with
  | select names => simp [toJson, Json.readable, Json.readableMembers, htexts]
  | rename columns =>
    have hcolumns : ∀ c : ColumnChoice, c.toJson.readable := fun c => by
      cases c with
      | keep column => rfl
      | pair column newName => cases newName <;> rfl
    simp [toJson, Json.readable, Json.readableMembers, Json.readableItems_iff, hcolumns]
  | filter formula => simp [toJson, Json.readable, Json.readableMembers, hformula]
  | derive name formula =>
    simp [toJson, Json.readable, Json.readableMembers, Json.text, hformula]
  | sample rows => rfl
  | summarise keys aggregates =>
    simp [toJson, Json.readable, Json.readableMembers, Json.readableItems_iff, htexts,
      Aggregate.toJson]

mutual

/-- Every part of a written pipeline has a value. -/
theorem Pipeline.readable_toJson : ∀ p : Pipeline, p.toJson.readable
  | .mk source steps => by
    simp [Pipeline.toJson, Json.readable, Json.readableMembers, Json.readableItems_iff,
      Source.readable_toJson source, Step.readable_toJson]

theorem Source.readable_toJson : ∀ s : Source, s.toJson.readable
  | .table _ => rfl
  | .join left right on => by
    have hon : ∀ key : JoinKey, key.toJson.readable := fun key => by cases key <;> rfl
    simp [Source.toJson, Json.readable, Json.readableMembers, Json.readableItems_iff,
      Pipeline.readable_toJson left, Pipeline.readable_toJson right, hon]

end

namespace Pipeline

variable {rounding : Numeral.Rounding} {s : String} {p : Pipeline}

/-- A loaded pipeline is written as it was read. -/
private theorem rewritten_of_parseJsonBy (h : parseJsonBy rounding s = .ok p) :
    ∃ v, Json.Fits 0 v ∧ Rewritten 0 v p.toJson (p.bareCalls 0) := by
  unfold parseJsonBy at h
  split at h
  · cases h
  · next hread =>
    cases h
    obtain ⟨v, hv, hp⟩ := Option.bind_eq_some_iff.mp hread
    exact ⟨v, Json.fits_parseBy? hv, rewritten_toJson hp⟩

/-- What is read of the text of a loaded pipeline: the pipeline, or nothing if the text needs too
many brackets. -/
theorem parseJsonBy_toJsonText (h : parseJsonBy rounding s = .ok p)
    (hback : ∀ x ∈ p.toJson.doubles, Json.ReadsBack rounding x) :
    parseJsonBy rounding p.toJsonText =
      if deepest ∈ p.bareCalls 0 then .error .json else .ok p := by
  obtain ⟨v, ⟨hcanonical, hheight⟩, hrewritten⟩ := rewritten_of_parseJsonBy h
  have hparse := Json.parseBy?_compact (readable_toJson p) (hrewritten.canonical hcanonical) hback
  by_cases hcall : deepest ∈ p.bareCalls 0
  · have hnone : ofJson? strictForm (p.toJson.cut 0) = none := readJson?_cut p hcall
    simp only [parseJsonBy, toJsonText, hparse, Option.bind_some, hnone, if_pos hcall]
  · have hfits := hrewritten.height (hheight (Nat.zero_le _)) hcall
    have hread : ofJson? strictForm p.toJson = some p :=
      readJson?_toJson p (Nat.le_refl _) (hrewritten.canonical hcanonical)
    rw [Json.cut_eq_self _ hfits] at hparse
    simp only [parseJsonBy, toJsonText, hparse, Option.bind_some, hread, if_neg hcall]

/-- The doubles of a pipeline that was loaded are read back by a reader that takes the nearest. -/
theorem readsBack_of_parseJson (h : parseJson s = .ok p) :
    ∀ x ∈ p.toJson.doubles, Json.ReadsBack .nearest x := by
  intro x hx
  obtain ⟨v, ⟨hcanonical, -⟩, hrewritten⟩ := rewritten_of_parseJsonBy h
  exact Json.readsBack_nearest
    (Json.isFinite_of_mem_doubles (hrewritten.canonical hcanonical) x hx)

/-- **A pipeline that was loaded and saved loads again**, as the same pipeline, which builds the
same query or fails with the same error whatever the operators are.  The exception are pipelines
with a call without arguments at the deepest level: saved, the call has an array of arguments that
is nested too deep, and the text is refused.

Nothing is known of the reader's rounding but that it reads back the doubles of this pipeline. -/
theorem saved_loads_again (h : parseJsonBy rounding s = .ok p)
    (hback : ∀ x ∈ p.toJson.doubles, Json.ReadsBack rounding x) :
    (deepest ∉ p.bareCalls 0 → parseJsonBy rounding p.toJsonText = .ok p ∧
      ∀ ops, ((parseJsonBy rounding p.toJsonText).bind fun q => q.build ops) = p.build ops) ∧
    (deepest ∈ p.bareCalls 0 → parseJsonBy rounding p.toJsonText = .error .json) := by
  have hread := parseJsonBy_toJsonText h hback
  refine ⟨fun hcalls => ?_, fun hcall => ?_⟩
  · rw [if_neg hcalls] at hread
    refine ⟨hread, fun ops => ?_⟩
    rw [hread]
    rfl
  · rw [if_pos hcall] at hread
    exact hread

/-- A join given by position, with an unknown key, without steps and without arguments, and how it
is saved.  The reader takes the nearest double. -/
theorem saved_loads_again_by_position :
    let v : Json := .array
      [.object [("join", .array
        [.object [("note", .texts ["ignored"]), ("source", .object [("table", .text "a")])],
          .array [.object [("table", .text "b")]],
          .array [.text "id", .array [.text "k", .text "=", .text "n"]]])],
        .array [.object [("where", .object [("pos", .scalar (.integer 3)),
            ("function", .text "f")])],
          .object [("derive", .array [.text "d", .object [("literal", .scalar (.float 0.1))]])],
          .object [("summarise", .object [("keys", .texts ["d"])])]]]
    let p : Pipeline := .mk (.join (.mk (.table "a") []) (.mk (.table "b") [])
      [.shared "id", .criterion "k" "=" "n"])
      [.filter (.tree (.function "f" [])), .derive "d" (.tree (.literal (.float 0.1))),
        .summarise ["d"] []]
    parseJson v.compact = .ok p ∧
    p.toJsonText = "\x7b\"source\":\x7b\"join\":\x7b\"left\":" ++
      "\x7b\"source\":\x7b\"table\":\"a\"\x7d,\"steps\":[]\x7d,\"right\":" ++
      "\x7b\"source\":\x7b\"table\":\"b\"\x7d,\"steps\":[]\x7d," ++
      "\"on\":[\"id\",[\"k\",\"=\",\"n\"]]\x7d\x7d,\"steps\":[" ++
      "\x7b\"where\":\x7b\"function\":\"f\",\"args\":[]\x7d\x7d," ++
      "\x7b\"derive\":\x7b\"name\":\"d\",\"expression\":\x7b\"literal\":0.1\x7d\x7d\x7d," ++
      "\x7b\"summarise\":\x7b\"keys\":[\"d\"],\"aggregates\":[]\x7d\x7d]\x7d" ∧
    (∀ x ∈ p.toJson.doubles, Json.ReadsBack .nearest x) ∧
    deepest ∉ p.bareCalls 0 ∧ parseJson p.toJsonText = .ok p := by
  intro v p
  have hv : v.cut 0 = v := Json.cut_eq_self v (by decide)
  have hread : ofJson? strictForm v = some p := rfl
  have hparse : parseJsonBy .nearest v.compact = .ok p := by
    have hvalue : Json.parseBy? .nearest v.compact = some v :=
      (Json.parse?_compact (by decide) (by decide)).trans (congrArg some hv)
    rw [parseJsonBy, hvalue, Option.bind_some, hread]
  have hback := readsBack_of_parseJson hparse
  have hcalls : deepest ∉ p.bareCalls 0 := by decide
  exact ⟨hparse, by decide +kernel, hback, hcalls, ((saved_loads_again hparse hback).1 hcalls).1⟩

/-! ## A call at the deepest level -/

/-- The negation of a tree, as a JSON value. -/
private def negation (v : Json) : Json :=
  .object [("operator", .text "NOT"), ("args", .array [v])]

private theorem isCanonical_negations (v : Json) (n : Nat) :
    (negation^[n] v).isCanonical = v.isCanonical := by
  induction n with
  | zero => rfl
  | succ n ih =>
    rw [Function.iterate_succ_apply']
    simp [negation, Json.isCanonical, Json.canonicalMembers, Json.canonicalItems, Json.text,
      Scalar.isCanonical, ih]

private theorem readable_negations (v : Json) (n : Nat) :
    (negation^[n] v).readable = v.readable := by
  induction n with
  | zero => rfl
  | succ n ih =>
    rw [Function.iterate_succ_apply']
    simp [negation, Json.readable, Json.readableMembers, Json.readableItems, Json.text, ih]

/-- A negation has two brackets, its braces and the array of its argument. -/
private theorem height_negations (v : Json) (n : Nat) :
    (negation^[n] v).height = 2 * n + v.height := by
  induction n with
  | zero => simp
  | succ n ih =>
    rw [Function.iterate_succ_apply']
    simp only [negation, Json.height, Json.heightMembers, Json.heightItems, Json.text, ih]
    omega

private theorem readJson?_negations {depth : Nat} {v : Json} {t : Tree}
    (h : Tree.readJson? depth v = some t) (n : Nat) :
    Tree.readJson? (depth + n) (negation^[n] v) =
      some ((fun t => .operator "NOT" [t])^[n] t) := by
  induction n with
  | zero => exact h
  | succ n ih =>
    rw [Function.iterate_succ_apply', Function.iterate_succ_apply']
    have hargs : Json.all? (Tree.readJson? (depth + n)) (.array [negation^[n] v]) =
        some [(fun t => .operator "NOT" [t])^[n] t] := by
      simp [Json.all?, ih]
    have hfields : Json.objectFields? ["operator", "args"]
        [("operator", .text "NOT"), ("args", .array [negation^[n] v])] =
          some [some (.text "NOT"), some (.array [negation^[n] v])] := rfl
    rw [negation, ← Nat.add_assoc]
    simp [Tree.readJson?, Tree.operatorOf?, hfields, hargs]

private theorem bareCalls_negations (t : Tree) (n depth : Nat) :
    ((fun t => .operator "NOT" [t])^[n] t : Tree).bareCalls depth =
      t.bareCalls (depth + 2 * n) := by
  induction n generalizing depth with
  | zero => rfl
  | succ n ih =>
    rw [Function.iterate_succ_apply']
    simp only [Tree.bareCalls, Tree.bareCallsOf, List.append_nil, ih]
    congr 1
    omega

/-- The pipeline that derives one column of a table, as a JSON value. -/
private def derivation (expression : Json) : Json :=
  .object [("source", .object [("table", .text "t")]), ("steps", .array
    [.object [("derive", .object [("name", .text "c"), ("expression", expression)])]])]

private theorem height_derivation (expression : Json) :
    (derivation expression).height = expression.height + 4 := by
  simp only [derivation, Json.height, Json.heightMembers, Json.heightItems, Json.text]
  omega

private theorem ofJson?_derivation {expression : Json} {t : Tree}
    (h : Tree.ofJson? expression = some t) :
    ofJson? strictForm (derivation expression) =
      some (.mk (.table "t") [.derive "c" (.tree t)]) := by
  have hstep : Step.ofJson? strictForm
      (.object [("derive", .object [("name", .text "c"), ("expression", expression)])]) =
        some (.derive "c" (.tree t)) := by
    rw [Step.ofJson?_derive, choiceFields?_eq, Json.fields?_pair _ _ (by decide)]
    simp [FormulaText.ofJson?_of_tree h]
  have hsource : ∀ pipeline?, Source.ofJson? strictForm pipeline?
      (.object [("table", .text "t")]) = some (.table "t") := fun _ => rfl
  rw [ofJson?, height_derivation, derivation, readJson?_succ, Json.fields?_pair _ _ (by decide)]
  simp [hsource, Json.all?, hstep]

private theorem parseJson_derivation {expression : Json} {t : Tree}
    (hcanonical : expression.isCanonical) (hheight : expression.height + 4 ≤ deepest)
    (h : Tree.ofJson? expression = some t) :
    parseJson (derivation expression).compact =
      .ok (.mk (.table "t") [.derive "c" (.tree t)]) := by
  have hexpression : expression.readable := by
    obtain ⟨members, rfl, hmembers⟩ := Tree.eq_object_of_ofJson? h
    exact hmembers
  have hreadable : (derivation expression).readable := by
    simp [derivation, Json.readable, Json.readableMembers, Json.readableItems, Json.text,
      hexpression]
  have hcanonical' : (derivation expression).isCanonical := by
    simp [derivation, Json.isCanonical, Json.canonicalMembers, Json.canonicalItems, Json.text,
      Scalar.isCanonical, hcanonical]
  have hcut : (derivation expression).cut 0 = derivation expression :=
    Json.cut_eq_self _ (by rw [height_derivation]; omega)
  have hvalue : Json.parseBy? .nearest (derivation expression).compact =
      some (derivation expression) :=
    (Json.parse?_compact hreadable hcanonical').trans (congrArg some hcut)
  rw [parseJson, parseJsonBy, hvalue, Option.bind_some, ofJson?_derivation h]

/-- A call without arguments inside so many operators that its own braces are the deepest ones. -/
theorem bare_call_is_not_loaded_again :
    let bare : Json := (fun v => .object [("operator", .text "NOT"), ("args", .array [v])])^[61]
      (.object [("function", .text "f")])
    let chain : Tree := (fun t => .operator "NOT" [t])^[61] (.function "f" [])
    let v : Json := .object [("source", .object [("table", .text "t")]), ("steps", .array
      [.object [("derive", .object [("name", .text "c"), ("expression", bare)])]])]
    let p : Pipeline := .mk (.table "t") [.derive "c" (.tree chain)]
    v.height = deepest ∧ parseJson v.compact = .ok p ∧ parseJson p.toJsonText = .error .json := by
  intro bare chain v p
  have hbare : bare = negation^[61] (.object [("function", .text "f")]) := rfl
  have hheight : bare.height = 123 := by
    rw [hbare, height_negations]
    rfl
  have hcanonical : bare.isCanonical := by
    rw [hbare, isCanonical_negations]
    rfl
  have htree : Tree.ofJson? bare = some chain := by
    have hreadable : bare.readable := by
      rw [hbare, readable_negations]
      rfl
    have hcall : Tree.readJson? 62 (.object [("function", .text "f")]) =
        some (.function "f" []) := rfl
    rw [Tree.ofJson?, if_pos hreadable, hheight, hbare]
    exact readJson?_negations hcall 61
  have hparse : parseJson v.compact = .ok p :=
    parseJson_derivation hcanonical (by rw [hheight]; decide) htree
  have hcall : deepest ∈ p.bareCalls 0 := by
    have hlevels : chain.bareCalls 4 = [127] := bareCalls_negations _ 61 4
    simp [p, Pipeline.bareCalls, Source.bareCalls, Step.bareCalls, FormulaText.bareCalls, hlevels,
      deepest]
  have hsaved := parseJsonBy_toJsonText hparse (readsBack_of_parseJson hparse)
  rw [if_pos hcall] at hsaved
  exact ⟨(height_derivation bare).trans (by rw [hheight]; rfl), hparse, hsaved⟩

end Pipeline

end QuerySteps
