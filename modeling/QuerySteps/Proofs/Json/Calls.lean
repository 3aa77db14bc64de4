import QuerySteps.Pipeline.Json
import QuerySteps.Proofs.Json.Expressions
import QuerySteps.Proofs.Json.NodeKinds

/-!
# Calls without arguments

The arguments of a call may be left out, and are written as an empty array.  That array is one
bracket deeper than the call, and nothing beside it is.  A call without arguments whose braces are
at the deepest level is read, and what is written for it is not.  `Tree.bareCalls` lists the levels
of these calls; but for them a tree is written as it was read (`Tree.rewritten_toJson`).
-/

namespace QuerySteps

open Json (deepest Inside FromPart Rewritten rewritten_self rewritten_array rewritten_object
  rewritten_choice inside_of_lookup)

mutual

/-- The levels of brackets at which a tree inside `depth` brackets has a call without arguments. -/
def Tree.bareCalls (depth : Nat) : Tree → List Nat
  | .operator _ args => Tree.bareCallsOf (depth + 2) args
  | .function _ args => if args.isEmpty then [depth + 1] else Tree.bareCallsOf (depth + 2) args
  | .literal _ => []
  | .name _ => []

/-- The levels of the calls without arguments in several trees. -/
def Tree.bareCallsOf (depth : Nat) : List Tree → List Nat
  | [] => []
  | arg :: args => arg.bareCalls depth ++ Tree.bareCallsOf depth args

end

/-- The levels of the calls without arguments in a formula. -/
def FormulaText.bareCalls (depth : Nat) : FormulaText → List Nat
  | .text _ => []
  | .tree t => t.bareCalls depth

/-! ## Trees -/

namespace Tree

variable {members : List (String × Json)}

theorem bareCalls_subset {args : List Tree} {arg : Tree} (h : arg ∈ args) (depth : Nat) :
    arg.bareCalls depth ⊆ bareCallsOf depth args := by
  induction args with
  | nil => cases h
  | cons first args ih =>
    rcases List.mem_cons.mp h with rfl | h
    · exact List.subset_append_left _ _
    · exact List.Subset.trans (ih h) (List.subset_append_right _ _)

private theorem bareCallsOf_subset (f : String) (args : List Tree) (depth : Nat) :
    bareCallsOf (depth + 2) args ⊆ (function f args).bareCalls depth := by
  cases args with
  | nil => exact List.nil_subset _
  | cons arg args => exact List.Subset.refl _

/-- The arguments of a node are written as they were read. -/
private theorem fromPart_args {n depth : Nat} {items : List Json} {args : List Tree}
    (ih : ∀ {v t depth}, readJson? n v = some t → Rewritten depth v t.toJson (t.bareCalls depth))
    (given : Json.HasOnce members "args" (.array items))
    (each : items.map (readJson? n) = args.map some) :
    FromPart depth (.object members) (.array (argsToJson args)) (bareCallsOf (depth + 2) args) := by
  rw [argsToJson_eq_map]
  refine ⟨_, inside_of_lookup given.lookup, rewritten_array fun arg harg => ?_⟩
  obtain ⟨item, hitem, hread⟩ : ∃ item ∈ items, readJson? n item = some arg := by
    rw [← List.mem_map, each]
    exact List.mem_map_of_mem harg
  exact ⟨item, hitem, (ih hread).mono (bareCalls_subset harg _)⟩

/-- Arguments that were left out are written as an empty array, one bracket deeper than the call. -/
private theorem fromPart_noArgs {value : Json} (h : Inside value (.object members)) (depth : Nat) :
    FromPart depth (.object members) (.array []) [depth + 1] := by
  refine ⟨value, h, fun _ => rfl, fun hheight hcalls => ?_⟩
  have hne : deepest ≠ depth + 1 := fun heq => hcalls (List.mem_singleton.mpr heq)
  simp only [Json.height, Json.heightItems]
  omega

/-- **A tree is written as it was read**, but for the arguments of calls that have none. -/
theorem rewritten_toJson {n depth : Nat} {v : Json} {t : Tree} (h : readJson? n v = some t) :
    Rewritten depth v t.toJson (t.bareCalls depth) := by
  induction n generalizing v t depth with
  | zero => cases h
  | succ n ih =>
    cases v with
    | object members =>
      cases (readJson?_object_iff.mp h).1 with
      | @operator op items args own given each =>
        have hop := (inside_of_lookup own.lookup).fromPart depth (bareCallsOf (depth + 2) args)
        exact rewritten_object (List.cons_ne_nil _ _)
          (by simpa using ⟨hop, fromPart_args ih given each⟩)
      | @function f items args own given each =>
        have hf := (inside_of_lookup own.lookup).fromPart depth ((function f args).bareCalls depth)
        have hargs := (fromPart_args ih given each).mono (bareCallsOf_subset f args depth)
        exact rewritten_object (List.cons_ne_nil _ _) (by simpa using ⟨hf, hargs⟩)
      | bareCall own leftOut =>
        have hf := inside_of_lookup own.lookup
        exact rewritten_object (List.cons_ne_nil _ _)
          (by simpa [argsToJson] using ⟨hf.fromPart depth [depth + 1], fromPart_noArgs hf depth⟩)
      | literal own =>
        exact rewritten_choice ((inside_of_lookup own.lookup).fromPart depth _) "literal"
      | name own => exact rewritten_choice ((inside_of_lookup own.lookup).fromPart depth _) "name"
    | _ => simp [readJson?] at h

mutual

/-- A call without arguments stands inside its tree, and its text needs one bracket more. -/
theorem lt_of_mem_bareCalls : ∀ (t : Tree) {level depth : Nat}, level ∈ t.bareCalls depth →
    depth < level ∧ level < depth + t.toJson.height
  | operator _ args, level, depth, h => by
    have := lt_of_mem_bareCallsOf args h
    simp only [toJson, Json.height, Json.heightMembers]
    omega
  | function _ args, level, depth, h => by
    rw [bareCalls] at h
    simp only [toJson, Json.height, Json.heightMembers]
    split at h
    · have := List.mem_singleton.mp h
      omega
    · have := lt_of_mem_bareCallsOf args h
      omega
  | literal _, _, _, h => (List.not_mem_nil h).elim
  | name _, _, _, h => (List.not_mem_nil h).elim

theorem lt_of_mem_bareCallsOf : ∀ (args : List Tree) {level depth : Nat},
    level ∈ bareCallsOf depth args →
    depth < level ∧ level < depth + Json.heightItems (argsToJson args)
  | [], _, _, h => (List.not_mem_nil h).elim
  | arg :: args, level, depth, h => by
    simp only [argsToJson, Json.heightItems]
    rcases List.mem_append.mp h with h | h
    · have := lt_of_mem_bareCalls arg h
      omega
    · have := lt_of_mem_bareCallsOf args h
      omega

end

end Tree

/-! ## Formulas -/

namespace FormulaText

private theorem ofJson?_of_container {v : Json} (h : v.text? = none) :
    ofJson? v = (Tree.ofJson? v).map tree := by
  unfold ofJson?
  split
  · cases h
  · rfl

/-- A value that is read as a tree is a formula given as a tree. -/
theorem ofJson?_of_tree {v : Json} {t : Tree} (h : Tree.ofJson? v = some t) :
    ofJson? v = some (tree t) := by
  obtain ⟨members, rfl, -⟩ := Tree.eq_object_of_ofJson? h
  rw [ofJson?_of_container rfl, h, Option.map_some]

theorem ofJson?_toJson (f : FormulaText) : ofJson? f.toJson = some f := by
  cases f with
  | text s => rfl
  | tree t =>
    exact ofJson?_of_tree (Tree.ofJson?_toJson t)

theorem rewritten_toJson {depth : Nat} {v : Json} {f : FormulaText} (h : ofJson? v = some f) :
    Rewritten depth v f.toJson (f.bareCalls depth) := by
  unfold ofJson? at h
  split at h
  · cases h
    exact rewritten_self ..
  · obtain ⟨t, ht, rfl⟩ := Option.map_eq_some_iff.mp h
    unfold Tree.ofJson? at ht
    split at ht
    · exact Tree.rewritten_toJson ht
    · cases ht

/-- A formula whose text needs too many brackets is not read. -/
theorem ofJson?_cut {depth : Nat} {f : FormulaText} (h : deepest ∈ f.bareCalls depth) :
    ofJson? (f.toJson.cut depth) = none := by
  cases f with
  | text s => exact (List.not_mem_nil h).elim
  | tree t =>
    obtain ⟨hdepth, hheight⟩ := Tree.lt_of_mem_bareCalls t h
    have hread := Json.readable_cut t.toJson (Nat.le_of_lt hdepth) hheight
    have hcontainer : (t.toJson.cut depth).text? = none := by
      cases t <;> (simp only [Tree.toJson, Json.cut, Json.nested]; split <;> rfl)
    rw [toJson, ofJson?_of_container hcontainer, Tree.ofJson?, hread]
    rfl

end FormulaText

end QuerySteps
