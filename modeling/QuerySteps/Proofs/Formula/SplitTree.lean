import QuerySteps.Tree.Basic

/-!
# The tree of a chain of operators

A chain is a first operand and links, each an operator with the operand to its right.  Its tree is
given here without any parsing: split the chain at the rightmost operator of lowest precedence and
go on with both sides (`splitTree`).  `splitLowest_eq_some_iff` confirms that the split is at that
operator and no other, and `splitTree_split` is the equation by which the tree is computed.
-/

namespace QuerySteps.Formula

/-- A binary operator and the operand to its right. -/
structure Link where
  op : String
  operand : Tree

variable (precedence : String → Nat)

/-- The rightmost operator of lowest precedence, with the links before and behind it. -/
def splitLowest : List Link → Option (List Link × Link × List Link)
  | [] => none
  | link :: links =>
    match splitLowest links with
    | none => some ([], link, [])
    | some (before, lowest, behind) =>
      if precedence lowest.op ≤ precedence link.op then some (link :: before, lowest, behind)
      else some ([], link, links)

variable {precedence}

theorem splitLowest_eq_none_iff {links : List Link} :
    splitLowest precedence links = none ↔ links = [] := by
  cases links with
  | nil => simp [splitLowest]
  | cons link links =>
    simp only [splitLowest, reduceCtorEq, iff_false]
    split
    · simp
    · split <;> simp

private theorem splitLowest_sound {links before behind : List Link} {lowest : Link}
    (h : splitLowest precedence links = some (before, lowest, behind)) :
    links = before ++ lowest :: behind ∧
      (∀ link ∈ before, precedence lowest.op ≤ precedence link.op) ∧
      ∀ link ∈ behind, precedence lowest.op < precedence link.op := by
  induction links generalizing before lowest behind with
  | nil => cases h
  | cons link links ih =>
    simp only [splitLowest] at h
    split at h
    · next hnone =>
      cases h
      rw [splitLowest_eq_none_iff] at hnone
      subst hnone
      simp
    · next before' lowest' behind' hsome =>
      obtain ⟨rfl, hbefore, hbehind⟩ := ih hsome
      split at h
      · next hle =>
        cases h
        refine ⟨rfl, ?_, hbehind⟩
        intro l hl
        rcases List.mem_cons.mp hl with rfl | hl
        · exact hle
        · exact hbefore l hl
      · next hlt =>
        cases h
        refine ⟨rfl, by simp, ?_⟩
        -- every other link lies above the lowest of them, and that one above this
        intro l hl
        rcases List.mem_append.mp hl with hl | hl
        · have := hbefore l hl
          omega
        · rcases List.mem_cons.mp hl with rfl | hl
          · omega
          · have := hbehind l hl
            omega

private theorem splitLowest_behind {lowest : Link} {behind : List Link}
    (hbehind : ∀ link ∈ behind, precedence lowest.op < precedence link.op) :
    splitLowest precedence (lowest :: behind) = some ([], lowest, behind) := by
  simp only [splitLowest]
  split
  · next hnone =>
    rw [splitLowest_eq_none_iff] at hnone
    rw [hnone]
  · next before' lowest' behind' hsome =>
    obtain ⟨rfl, -, -⟩ := splitLowest_sound hsome
    have := hbehind lowest' (by simp)
    rw [if_neg (by omega)]

/-- **The split is at the rightmost operator of lowest precedence**: no operator before it binds
looser, and all behind it bind tighter. -/
theorem splitLowest_eq_some_iff {links before behind : List Link} {lowest : Link} :
    splitLowest precedence links = some (before, lowest, behind) ↔
      links = before ++ lowest :: behind ∧
        (∀ link ∈ before, precedence lowest.op ≤ precedence link.op) ∧
        ∀ link ∈ behind, precedence lowest.op < precedence link.op := by
  refine ⟨splitLowest_sound, ?_⟩
  rintro ⟨rfl, hbefore, hbehind⟩
  induction before with
  | nil => exact splitLowest_behind hbehind
  | cons link before ih =>
    have htail := ih fun l hl => hbefore l (List.mem_cons_of_mem _ hl)
    simp only [List.cons_append, splitLowest, htail]
    rw [if_pos (hbefore link List.mem_cons_self)]

variable (precedence)

/-- The tree of a chain: the rightmost operator of lowest precedence stands above the trees of the
chains on its two sides. -/
def splitTree (first : Tree) (links : List Link) : Tree :=
  match _h : splitLowest precedence links with
  | none => first
  | some (before, lowest, behind) =>
    .operator lowest.op [splitTree first before, splitTree lowest.operand behind]
termination_by links.length
decreasing_by
  all_goals
    obtain ⟨rfl, -, -⟩ := splitLowest_eq_some_iff.mp _h
    simp only [List.length_append, List.length_cons]
    omega

@[simp] theorem splitTree_nil (first : Tree) : splitTree precedence first [] = first := by
  rw [splitTree]
  split
  · rfl
  · next h => cases h

variable {precedence}

/-- The tree of a chain whose rightmost operator of lowest precedence is known. -/
theorem splitTree_split (first : Tree) {before behind : List Link} {lowest : Link}
    (hbefore : ∀ link ∈ before, precedence lowest.op ≤ precedence link.op)
    (hbehind : ∀ link ∈ behind, precedence lowest.op < precedence link.op) :
    splitTree precedence first (before ++ lowest :: behind) =
      .operator lowest.op
        [splitTree precedence first before, splitTree precedence lowest.operand behind] := by
  have hsplit : splitLowest precedence (before ++ lowest :: behind) =
      some (before, lowest, behind) :=
    splitLowest_eq_some_iff.mpr ⟨rfl, hbefore, hbehind⟩
  rw [splitTree]
  split
  · next h =>
    rw [hsplit] at h
    cases h
  · next h =>
    rw [hsplit] at h
    cases h
    rfl

end QuerySteps.Formula
