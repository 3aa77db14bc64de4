import QuerySteps.Proofs.Decimal.Packing
import QuerySteps.Proofs.Json.Nesting

/-!
# What is read

Whatever text is read, the value has only canonical scalars and nests no deeper than
`Json.deepest`: numbers out of range, lone surrogates and brackets that are nested too deep are
marked as unreadable.  So a value that has been read can be written again.  This does not depend on
the rounding of the reader.
-/

namespace QuerySteps.Json

open Text (skipSpace)

/-- What is read inside `depth` brackets: canonical scalars, and no brackets beyond the deepest. -/
structure Fits (depth : Nat) (v : Json) : Prop where
  canonical : v.isCanonical
  height : depth ≤ deepest → depth + v.height ≤ deepest

variable {rounding : Numeral.Rounding} {depth : Nat}

theorem fits_scalar {v : Scalar} (h : v.isCanonical) (depth : Nat) : Fits depth (scalar v) :=
  ⟨h, fun hdepth => hdepth⟩

theorem fits_unreadable (depth : Nat) : Fits depth unreadable :=
  ⟨rfl, fun hdepth => hdepth⟩

/-- Brackets around what fits inside them fit. -/
theorem fits_nested {v : Json} (hv : v.isCanonical)
    (hheight : depth + 1 ≤ deepest → depth + v.height ≤ deepest) : Fits depth (nested depth v) := by
  unfold nested
  split
  · next hlt => exact ⟨hv, fun _ => hheight hlt⟩
  · exact fits_unreadable depth

theorem fits_array {items : List Json} (h : ∀ item ∈ items, Fits (depth + 1) item) :
    Fits depth (nested depth (array items)) := by
  refine fits_nested (canonicalItems_iff.mpr fun item hitem => (h item hitem).canonical) ?_
  intro hdepth
  have hitems : heightItems items ≤ deepest - (depth + 1) := by
    refine heightItems_le_iff.mpr fun item hitem => ?_
    have := (h item hitem).height hdepth
    omega
  rw [height]
  omega

theorem fits_object {members : List (Option String × Json)}
    (h : ∀ member ∈ members, Fits (depth + 1) member.2) :
    Fits depth (nested depth (ofMembers members)) := by
  unfold ofMembers
  split
  · have hmembers : ∀ member ∈ members.map fun member => (member.1.getD "", member.2),
        Fits (depth + 1) member.2 := by
      intro member hmember
      obtain ⟨source, hsource, rfl⟩ := List.mem_map.mp hmember
      exact h source hsource
    refine fits_nested
      (canonicalMembers_iff.mpr fun member hmember => (hmembers member hmember).canonical) ?_
    intro hdepth
    have hheight : heightMembers (members.map fun member => (member.1.getD "", member.2)) ≤
        deepest - (depth + 1) := by
      refine heightMembers_le_iff.mpr fun member hmember => ?_
      have := (hmembers member hmember).height hdepth
      omega
    rw [height]
    omega
  · exact fits_nested rfl fun hdepth => by
      rw [height]
      omega

/-- A number is an integer in range or a finite double. -/
private theorem isCanonical_of_valueBy? {minus : Bool} {n : Numeral} {v : Scalar}
    (h : n.valueBy? rounding minus = some v) : v.isCanonical := by
  let whole : Int := Decimal.ofDigits n.whole
  by_cases hwhole : n.isWhole ∧ Scalar.inRange (if minus then -whole else whole)
  · obtain rfl : Scalar.integer (if minus then -whole else whole) = v :=
      Option.some.inj ((if_pos hwhole).symm.trans h)
    exact hwhole.2
  · have hfloat : ((rounding.double? n).map fun x => Scalar.float (if minus then -x else x)) =
        some v := (if_neg hwhole).symm.trans h
    obtain ⟨x, hx, rfl⟩ := Option.map_eq_some_iff.mp hfloat
    have hfinite := rounding.isFinite hx
    cases minus with
    | true => exact Decimal.isFinite_neg hfinite
    | false => exact hfinite

private theorem fits_numberValue (minus : Bool) (n : Numeral) (depth : Nat) :
    Fits depth (numberValue rounding minus n) := by
  unfold numberValue
  split
  · exact fits_scalar (by decide) depth
  · cases hv : n.valueBy? rounding minus with
    | none => exact fits_unreadable depth
    | some v => exact fits_scalar (isCanonical_of_valueBy? hv) depth

private theorem fits_number? {minus : Bool} {s r : List Char} {v : Json}
    (h : number? rounding minus s = some (v, r)) (depth : Nat) : Fits depth v := by
  unfold number? at h
  split at h
  · cases h
  · split at h
    · cases h
      exact fits_numberValue ..
    · cases h

/-- All that is read with some fuel fits: values, items and members. -/
private structure ReadsFit (rounding : Numeral.Rounding) (fuel : Nat) : Prop where
  value : ∀ {depth : Nat} {s r : List Char} {v : Json},
    readValue? rounding fuel depth s = some (v, r) → Fits depth v
  items : ∀ {depth : Nat} {s r : List Char} {items : List Json},
    readItems? rounding fuel depth s = some (items, r) → ∀ item ∈ items, Fits depth item
  members : ∀ {depth : Nat} {s r : List Char} {members : List (Option String × Json)},
    readMembers? rounding fuel depth s = some (members, r) → ∀ member ∈ members, Fits depth member.2

namespace ReadsFit

variable {fuel : Nat} {s r : List Char}

private theorem value_succ (ih : ReadsFit rounding fuel) {v : Json}
    (h : readValue? rounding (fuel + 1) depth s = some (v, r)) : Fits depth v := by
  rw [readValue?] at h
  split at h
  · cases h
    exact fits_scalar rfl depth
  · cases h
    exact fits_scalar rfl depth
  · cases h
    exact fits_scalar rfl depth
  · obtain ⟨⟨s, after⟩, hs, hv⟩ := Option.bind_eq_some_iff.mp h
    cases hv
    cases s with
    | none => exact fits_unreadable depth
    | some s => exact fits_scalar rfl depth
  · split at h
    · cases h
      exact fits_array fun _ hitem => (List.not_mem_nil hitem).elim
    · obtain ⟨⟨items, after⟩, hitems, hv⟩ := Option.bind_eq_some_iff.mp h
      cases hv
      exact fits_array (ih.items hitems)
  · split at h
    · cases h
      have hnone : ∀ member ∈ ([] : List (Option String × Json)), Fits (depth + 1) member.2 :=
        fun _ hmember => (List.not_mem_nil hmember).elim
      exact fits_object hnone
    · obtain ⟨⟨members, after⟩, hmembers, hv⟩ := Option.bind_eq_some_iff.mp h
      cases hv
      exact fits_object (ih.members hmembers)
  · exact fits_number? h depth
  · exact fits_number? h depth

private theorem items_succ (ih : ReadsFit rounding fuel) {items : List Json}
    (h : readItems? rounding (fuel + 1) depth s = some (items, r)) :
    ∀ item ∈ items, Fits depth item := by
  rw [readItems?] at h
  obtain ⟨⟨item, rest⟩, hitem, h⟩ := Option.bind_eq_some_iff.mp h
  simp only at h
  split at h
  · obtain ⟨⟨more, after⟩, hmore, hv⟩ := Option.bind_eq_some_iff.mp h
    cases hv
    exact List.forall_mem_cons.mpr ⟨ih.value hitem, ih.items hmore⟩
  · cases h
    exact List.forall_mem_singleton.mpr (ih.value hitem)
  · cases h

private theorem members_succ (ih : ReadsFit rounding fuel) {members : List (Option String × Json)}
    (h : readMembers? rounding (fuel + 1) depth s = some (members, r)) :
    ∀ member ∈ members, Fits depth member.2 := by
  rw [readMembers?] at h
  split at h
  · obtain ⟨⟨key, rest⟩, -, h⟩ := Option.bind_eq_some_iff.mp h
    simp only at h
    split at h
    · obtain ⟨⟨value, rest⟩, hvalue, h⟩ := Option.bind_eq_some_iff.mp h
      simp only at h
      split at h
      · obtain ⟨⟨more, after⟩, hmore, hv⟩ := Option.bind_eq_some_iff.mp h
        cases hv
        exact List.forall_mem_cons.mpr ⟨ih.value hvalue, ih.members hmore⟩
      · cases h
        exact List.forall_mem_singleton.mpr (ih.value hvalue)
      · cases h
    · cases h
  · cases h

end ReadsFit

private theorem readsFit (fuel : Nat) : ReadsFit rounding fuel := by
  induction fuel with
  | zero =>
    constructor
    · intro depth s r v h
      cases h
    · intro depth s r items h
      cases h
    · intro depth s r members h
      cases h
  | succ fuel ih => exact ⟨ih.value_succ, ih.items_succ, ih.members_succ⟩

/-- **What a text is read as has canonical scalars and is not nested too deep.** -/
theorem fits_parseBy? {s : String} {v : Json} (h : parseBy? rounding s = some v) : Fits 0 v := by
  obtain ⟨⟨value, rest⟩, hvalue, h⟩ := Option.bind_eq_some_iff.mp h
  simp only at h
  split at h
  · cases h
    exact (readsFit _).value hvalue
  · cases h

end QuerySteps.Json
