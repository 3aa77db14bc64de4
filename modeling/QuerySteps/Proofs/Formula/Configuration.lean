import QuerySteps.Proofs.Formula.AbsentOperators

/-!
# Tables and the order of their additions

A table of operators is made by additions, one after the other (`Operators.addAll`).  What a text is
read as depends on the operators that the table then has and on their precedences, and on nothing
else: not on the order in which they were added, as long as no operator was given two precedences
(`addAll_perm`, `parse_same`).

The order would matter if the longest operator at the front of a text were not one operator.  It is.
Operators are recognised in two ways, words up to the case of ASCII letters and all others as they
are written; but all are kept in one form (`Operators.Canonical`), which no change of the case of
ASCII letters keeps, and among operators in this form no two of one length stand at one place
(`eq_of_stripOperator`).  `Longest` says without an order what is looked for, and
`longestMatch_eq_some_iff` that it is found.
-/

namespace QuerySteps.Formula

open Text (isLetter byteLength byteLength_append byteLength_toList upper upperChar toList_upper
  upper_upper flatMap_upperChar_congr)

variable {ops ops' start : Operators} {op other : String} {keys keys' : List String}
  {s r r' w w' : List Char}

/-! ## The case of ASCII letters -/

/-- The case of ASCII letters makes no difference to the number of bytes. -/
theorem utf8Size_toUpper (c : Char) : c.toUpper.utf8Size = c.utf8Size := by
  have hone : ∀ {c : Char}, c.toNat < 0x80 → c.utf8Size = 1 := by
    intro c hc
    rw [Char.utf8Size_eq_one_iff, UInt32.le_iff_toNat_le]
    exact Nat.lt_succ_iff.mp hc
  by_cases hlower : c.isLower
  · have halpha : c.isAlpha := by simp [Char.isAlpha, hlower]
    have hupper := isUpper_iff_toNat.mp (isUpper_toUpper_iff.mpr halpha)
    rw [hone (toNat_lt_of_isAlpha halpha), hone (by omega)]
  · rw [toUpper_of_not_isLower hlower]

theorem byteLength_map_toUpper (s : List Char) :
    byteLength (s.map Char.toUpper) = byteLength s := by
  induction s with
  | nil => rfl
  | cons c s ih => rw [List.map_cons, byteLength, byteLength, utf8Size_toUpper, ih]

/-- Only letters differ from others in the case of ASCII letters. -/
theorem isLetter_of_toUpper_eq {c d : Char} (h : c.toUpper = d.toUpper) (hc : isLetter c) :
    isLetter d := by
  by_cases halpha : c.isAlpha
  · have hd : d.isAlpha := by rwa [← isUpper_toUpper_iff, ← h, isUpper_toUpper_iff]
    exact isLetter_of_isAlpha hd
  · have hd : ¬ d.isAlpha := by rwa [← isUpper_toUpper_iff, ← h, isUpper_toUpper_iff]
    rw [toUpper_of_not_isLower fun hl => halpha (by simp [Char.isAlpha, hl]),
      toUpper_of_not_isLower fun hl => hd (by simp [Char.isAlpha, hl])] at h
    exact h ▸ hc

theorem all_isLetter_of_map_toUpper_eq (h : w.map Char.toUpper = w'.map Char.toUpper)
    (hw : w.all isLetter) : w'.all isLetter := by
  induction w generalizing w' with
  | nil =>
    obtain rfl : w' = [] := by simpa using h.symm
    rfl
  | cons c w ih =>
    cases w' with
    | nil => cases h
    | cons d w' =>
      obtain ⟨hc, hrest⟩ := List.cons.inj h
      rw [List.all_cons, Bool.and_eq_true] at hw ⊢
      exact ⟨isLetter_of_toUpper_eq hc hw.1, ih hrest hw.2⟩

/-- A spelling has as many bytes as the operator. -/
theorem byteLength_of_spells (h : Spells op w) : byteLength w = op.utf8ByteSize := by
  rw [← byteLength_toList]
  unfold Spells at h
  split at h
  · calc byteLength w
        = byteLength (w.map Char.toUpper) := (byteLength_map_toUpper w).symm
      _ = byteLength (op.toList.map Char.toUpper) := by rw [h]
      _ = byteLength op.toList := byteLength_map_toUpper op.toList
  · rw [h]

/-- Two beginnings of a text that have as many bytes are one. -/
theorem eq_of_byteLength_eq (h : w ++ r = w' ++ r') (hlength : byteLength w = byteLength w') :
    w = w' := by
  have hnil : ∀ x, byteLength x = 0 → x = [] := by
    intro x hx
    cases x with
    | nil => rfl
    | cons c x =>
      have hpos := c.utf8Size_pos
      rw [byteLength] at hx
      omega
  rcases List.append_eq_append_iff.mp h with ⟨x, rfl, -⟩ | ⟨x, rfl, -⟩
  · rw [byteLength_append] at hlength
    rw [hnil x (by omega), List.append_nil]
  · rw [byteLength_append] at hlength
    rw [hnil x (by omega), List.append_nil]

/-! ## One operator of one length -/

/-- The form in which an operator is kept is kept. -/
theorem canonical_canonical (op : String) : canonical (canonical op) = canonical op := by
  unfold canonical
  by_cases hop : isWord op
  · rw [if_pos hop, upper_upper, ite_self]
  · rw [if_neg hop, if_neg hop]

/-- Operators in the form in which they are kept that are spelled alike are one operator. -/
theorem eq_of_spells (hop : canonical op = op) (hother : canonical other = other)
    (h : Spells op w) (h' : Spells other w) : op = other := by
  -- a word and an operator that is none differ in more than the case of ASCII letters
  have hmixed : ∀ {a b : String}, isWord a → ¬ isWord b → Spells a w → Spells b w → False := by
    intro a b ha hb hspells hspells'
    rw [Spells, if_pos ha] at hspells
    rw [Spells, if_neg hb] at hspells'
    rw [hspells'] at hspells
    exact hb (all_isLetter_of_map_toUpper_eq hspells.symm ha)
  by_cases hword : isWord op
  · by_cases hword' : isWord other
    · rw [Spells, if_pos hword] at h
      rw [Spells, if_pos hword'] at h'
      rw [canonical, if_pos hword] at hop
      rw [canonical, if_pos hword'] at hother
      apply String.toList_injective
      calc op.toList
          = op.toList.flatMap upperChar := by rw [← toList_upper, hop]
        _ = other.toList.flatMap upperChar := flatMap_upperChar_congr (h.symm.trans h')
        _ = other.toList := by rw [← toList_upper, hother]
    · exact (hmixed hword hword' h h').elim
  · by_cases hword' : isWord other
    · exact (hmixed hword' hword h' h).elim
    · rw [Spells, if_neg hword] at h
      rw [Spells, if_neg hword'] at h'
      exact String.toList_injective (h.symm.trans h')

/-- **At one place of a text stands one operator of one length.** -/
theorem eq_of_stripOperator (hop : canonical op = op) (hother : canonical other = other)
    (h : stripOperator op s = some r) (h' : stripOperator other s = some r')
    (hlength : op.utf8ByteSize = other.utf8ByteSize) : op = other := by
  obtain ⟨w, rfl, hspells, -⟩ := stripOperator_eq_some_iff.mp h
  obtain ⟨w', htext, hspells', -⟩ := stripOperator_eq_some_iff.mp h'
  have hw : w = w' := by
    apply eq_of_byteLength_eq htext
    rw [byteLength_of_spells hspells, byteLength_of_spells hspells', hlength]
  exact eq_of_spells hop hother hspells (hw ▸ hspells')

/-! ## The longest operator -/

/-- An operator at the front of a text, than which no other one there is longer. -/
structure Longest (keys : List String) (s : List Char) (op : String) : Prop where
  mem : op ∈ keys
  stands : (stripOperator op s).isSome
  longest : ∀ other ∈ keys, (stripOperator other s).isSome →
    other.utf8ByteSize ≤ op.utf8ByteSize

theorem longest_of_longestMatch (h : longestMatch keys s = some (op, r)) : Longest keys s op := by
  obtain ⟨hmem, hstrip⟩ := mem_of_longestMatch h
  refine ⟨hmem, by rw [hstrip]; rfl, ?_⟩
  induction keys generalizing op r with
  | nil => cases h
  | cons first keys ih =>
    rw [longestMatch] at h
    split at h
    · next hfirst =>
      obtain ⟨hmem', hstrip'⟩ := mem_of_longestMatch h
      intro other hother hstands
      rcases List.mem_cons.mp hother with rfl | hother
      · rw [hfirst] at hstands
        cases hstands
      · exact ih h hmem' hstrip' other hother hstands
    · next rest hfirst hnone =>
      cases h
      intro other hother hstands
      rcases List.mem_cons.mp hother with rfl | hother
      · exact Nat.le_refl _
      · rw [longestMatch_eq_none_iff.mp hnone other hother] at hstands
        cases hstands
    · next rest best hfirst hbest =>
      obtain ⟨hmem', hstrip'⟩ := mem_of_longestMatch hbest
      have hlongest := ih hbest hmem' hstrip'
      split at h
      · next hlonger =>
        cases h
        intro other hother hstands
        rcases List.mem_cons.mp hother with rfl | hother
        · exact Nat.le_refl _
        · exact Nat.le_trans (hlongest other hother hstands) (Nat.le_of_lt hlonger)
      · next hshorter =>
        cases h
        intro other hother hstands
        rcases List.mem_cons.mp hother with rfl | hother
        · exact Nat.not_lt.mp hshorter
        · exact hlongest other hother hstands

/-- **There is one longest operator.** -/
theorem Longest.eq (hkeys : ∀ op ∈ keys, canonical op = op) (h : Longest keys s op)
    (h' : Longest keys s other) : op = other := by
  obtain ⟨r, hr⟩ := Option.isSome_iff_exists.mp h.stands
  obtain ⟨r', hr'⟩ := Option.isSome_iff_exists.mp h'.stands
  exact eq_of_stripOperator (hkeys op h.mem) (hkeys other h'.mem) hr hr'
    (Nat.le_antisymm (h'.longest op h.mem h.stands) (h.longest other h'.mem h'.stands))

/-- The longest operator is found, and what follows it. -/
theorem longestMatch_eq_some_iff (hkeys : ∀ op ∈ keys, canonical op = op) :
    longestMatch keys s = some (op, r) ↔ Longest keys s op ∧ stripOperator op s = some r := by
  refine ⟨fun h => ⟨longest_of_longestMatch h, (mem_of_longestMatch h).2⟩, ?_⟩
  rintro ⟨hlongest, hstrip⟩
  apply longestMatch_of_longest hlongest.mem hstrip
  intro other hother hne hstands
  apply Nat.lt_of_le_of_ne (hlongest.longest other hother hstands)
  intro hlength
  obtain ⟨r', hr'⟩ := Option.isSome_iff_exists.mp hstands
  exact hne (eq_of_stripOperator (hkeys other hother) (hkeys op hlongest.mem) hr' hstrip hlength)

theorem Longest.congr (hmem : ∀ op, op ∈ keys ↔ op ∈ keys') (h : Longest keys s op) :
    Longest keys' s op :=
  ⟨(hmem op).mp h.mem, h.stands, fun other hother => h.longest other ((hmem other).mpr hother)⟩

/-- The longest operator does not depend on the order of the operators. -/
theorem longestMatch_congr (hkeys : ∀ op ∈ keys, canonical op = op)
    (hmem : ∀ op, op ∈ keys ↔ op ∈ keys') : longestMatch keys s = longestMatch keys' s := by
  have hkeys' : ∀ op ∈ keys', canonical op = op := fun op hop => hkeys op ((hmem op).mpr hop)
  apply Option.ext
  rintro ⟨op, r⟩
  rw [longestMatch_eq_some_iff hkeys, longestMatch_eq_some_iff hkeys']
  exact and_congr_left fun _ => ⟨.congr hmem, .congr fun op => (hmem op).symm⟩

/-! ## Tables with the same operators -/

namespace Operators

/-- All operators of a table are in the form in which they are kept. -/
structure Canonical (ops : Operators) : Prop where
  binary : ∀ op ∈ ops.keys, canonical op = op
  unary : ∀ op ∈ ops.unary, canonical op = op

/-- Two tables have the same operators, and these the same precedences. -/
structure Same (ops ops' : Operators) : Prop where
  binary : ∀ op, ops.binary.lookup op = ops'.binary.lookup op
  unary : ∀ op, op ∈ ops.unary ↔ op ∈ ops'.unary

theorem Same.refl (ops : Operators) : Same ops ops :=
  ⟨fun _ => rfl, fun _ => Iff.rfl⟩

theorem Same.trans {ops'' : Operators} (h : Same ops ops') (h' : Same ops' ops'') :
    Same ops ops'' :=
  ⟨fun op => (h.binary op).trans (h'.binary op), fun op => (h.unary op).trans (h'.unary op)⟩

theorem mem_keys_iff : op ∈ ops.keys ↔ (ops.binary.lookup op).isSome := by
  rw [List.lookup_isSome_iff, keys, List.mem_map]
  constructor
  · rintro ⟨entry, hentry, rfl⟩
    exact ⟨entry, hentry, by simp⟩
  · rintro ⟨entry, hentry, heq⟩
    exact ⟨entry, hentry, (beq_iff_eq.mp heq).symm⟩

theorem Same.mem_keys (h : Same ops ops') (op : String) : op ∈ ops.keys ↔ op ∈ ops'.keys := by
  rw [mem_keys_iff, mem_keys_iff, h.binary op]

theorem Same.reserves (h : Same ops ops') (name : String) :
    ops.reserves name = ops'.reserves name := by
  have hunary : ops.unary.contains (upper name) = ops'.unary.contains (upper name) := by
    rw [Bool.eq_iff_iff, List.contains_iff_mem, List.contains_iff_mem]
    exact h.unary (upper name)
  rw [Operators.reserves, Operators.reserves, h.binary, hunary]

/-- In tables with the same operators the reader finds the same. -/
theorem Same.alike (h : Same ops ops') (hops : ops.Canonical) (s : List Char) :
    Alike ops ops' s :=
  ⟨fun _ _ => longestMatch_congr hops.binary h.mem_keys, fun _ _ op _ _ => h.binary op,
    fun _ _ => longestMatch_congr hops.unary h.unary, fun _ _ name _ _ => h.reserves name⟩

end Operators

open Operators (Same Canonical)

/-- **Tables with the same operators read every text alike.** -/
theorem parse_same (h : Same ops ops') (hops : ops.Canonical) (text : String) :
    parse ops text = parse ops' text :=
  parse_alike (h.alike hops text.toList)

/-! ## Additions -/

/-- What may be added to a table. -/
inductive Addition
  | binary (op : String) (precedence : Nat)
  | unary (op : String)

/-- Two additions do not give two precedences to one operator. -/
def Addition.Compatible : Addition → Addition → Prop
  | .binary op p, .binary op' p' => canonical op = canonical op' → p = p'
  | _, _ => True

namespace Operators

/-- A table with one addition. -/
def add (ops : Operators) : Addition → Operators
  | .binary op precedence => ops.addBinary op precedence
  | .unary op => ops.addUnary op

/-- A table after additions, the first of the list made first. -/
def addAll (ops : Operators) (additions : List Addition) : Operators :=
  additions.foldl add ops

theorem lookup_addBinary (ops : Operators) (op other : String) (precedence : Nat) :
    (ops.addBinary op precedence).binary.lookup other =
      if other = canonical op then some precedence else ops.binary.lookup other := by
  split
  · next heq =>
    subst heq
    exact List.lookup_cons_self
  · next hne => exact lookup_addBinary_of_ne hne precedence

theorem mem_addUnary (ops : Operators) (op other : String) :
    other ∈ (ops.addUnary op).unary ↔ other = canonical op ∨ other ∈ ops.unary := by
  rw [addUnary, List.mem_cons, List.mem_filter]
  by_cases heq : other = canonical op <;> simp [heq]

theorem canonical_empty : Canonical .empty :=
  ⟨fun _ h => (List.not_mem_nil h).elim, fun _ h => (List.not_mem_nil h).elim⟩

theorem canonical_default : Canonical .default := by
  have hkeys : ∀ op ∈ Operators.default.keys, canonical op = op := by decide
  have hunary : ∀ op ∈ Operators.default.unary, canonical op = op := by decide
  exact ⟨hkeys, hunary⟩

theorem Canonical.add (h : ops.Canonical) (addition : Addition) : (ops.add addition).Canonical := by
  cases addition with
  | binary added precedence =>
    refine ⟨fun op hop => ?_, h.unary⟩
    rcases mem_keys_addBinary hop with rfl | hop
    · exact canonical_canonical added
    · exact h.binary op hop
  | unary added =>
    refine ⟨h.binary, fun op hop => ?_⟩
    rcases (mem_addUnary ops added op).mp hop with rfl | hop
    · exact canonical_canonical added
    · exact h.unary op hop

theorem Canonical.addAll (h : ops.Canonical) (additions : List Addition) :
    (ops.addAll additions).Canonical := by
  induction additions generalizing ops with
  | nil => exact h
  | cons addition additions ih => exact ih (h.add addition)

theorem Same.add (h : Same ops ops') (addition : Addition) :
    Same (ops.add addition) (ops'.add addition) := by
  cases addition with
  | binary added precedence =>
    refine ⟨fun op => ?_, h.unary⟩
    rw [Operators.add, Operators.add, lookup_addBinary, lookup_addBinary, h.binary]
  | unary added =>
    refine ⟨h.binary, fun op => ?_⟩
    rw [Operators.add, Operators.add, mem_addUnary, mem_addUnary, h.unary]

theorem Same.addAll (h : Same ops ops') (additions : List Addition) :
    Same (ops.addAll additions) (ops'.addAll additions) := by
  induction additions generalizing ops ops' with
  | nil => exact h
  | cons addition additions ih => exact ih (h.add addition)

/-- Two additions may change places. -/
theorem add_comm (ops : Operators) {a b : Addition} (h : a.Compatible b) :
    Same ((ops.add a).add b) ((ops.add b).add a) := by
  cases a with
  | binary op p =>
    cases b with
    | binary op' p' =>
      refine ⟨fun other => ?_, fun _ => Iff.rfl⟩
      simp only [Operators.add, lookup_addBinary]
      by_cases hop : other = canonical op
      · by_cases hop' : other = canonical op'
        · rw [if_pos hop', if_pos hop, h (hop.symm.trans hop')]
        · rw [if_neg hop', if_pos hop, if_pos hop]
      · rw [if_neg hop, if_neg hop]
    | unary op' => exact .refl _
  | unary op =>
    cases b with
    | binary op' p' => exact .refl _
    | unary op' =>
      refine ⟨fun _ => rfl, fun other => ?_⟩
      simp only [Operators.add, mem_addUnary]
      exact or_left_comm

/-- **The order of additions makes no difference**, if they give no operator two precedences. -/
theorem addAll_perm {additions others : List Addition} (h : additions.Perm others)
    (hcompatible : ∀ a ∈ additions, ∀ b ∈ additions, a.Compatible b) (ops : Operators) :
    Same (ops.addAll additions) (ops.addAll others) := by
  induction h generalizing ops with
  | nil => exact .refl ops
  | cons addition _ ih =>
    exact ih (fun a ha b hb =>
      hcompatible a (List.mem_cons_of_mem _ ha) b (List.mem_cons_of_mem _ hb)) (ops.add addition)
  | swap a b additions =>
    have hswap := add_comm ops (hcompatible b List.mem_cons_self a
      (List.mem_cons_of_mem _ List.mem_cons_self))
    exact hswap.addAll additions
  | trans hfirst _ ih ih' =>
    have hmiddle := fun a ha b hb => hcompatible a (hfirst.mem_iff.mpr ha) b (hfirst.mem_iff.mpr hb)
    exact (ih hcompatible ops).trans (ih' hmiddle ops)

end Operators

/-- **Operators match in one way, and the order of configuration does not matter.**  Let a table be
made by any additions to the empty table or to the usual one.  At the front of any text stands at
most one longest binary operator of the table, and at most one longest unary operator.  And if no
two of the additions give two precedences to one operator, then every text is read alike with the
same additions made in any other order: it has the same tree, or the same cause of failure at the
same position. -/
theorem additions_in_any_order (hstart : start = .empty ∨ start = .default)
    (additions : List Addition) :
    (∀ s op other, Longest (start.addAll additions).keys s op →
      Longest (start.addAll additions).keys s other → op = other) ∧
    (∀ s op other, Longest (start.addAll additions).unary s op →
      Longest (start.addAll additions).unary s other → op = other) ∧
    ∀ others, additions.Perm others → (∀ a ∈ additions, ∀ b ∈ additions, a.Compatible b) →
      ∀ text, parse (start.addAll additions) text = parse (start.addAll others) text := by
  have hcanonical : start.Canonical := by
    rcases hstart with rfl | rfl
    · exact Operators.canonical_empty
    · exact Operators.canonical_default
  have hkept : (start.addAll additions).Canonical := hcanonical.addAll additions
  refine ⟨?_, ?_, ?_⟩
  · intro s op other h h'
    exact h.eq hkept.binary h'
  · intro s op other h h'
    exact h.eq hkept.unary h'
  intro others hperm hcompatible text
  exact parse_same (Operators.addAll_perm hperm hcompatible start) hkept text

instance (a b : Addition) : Decidable (a.Compatible b) :=
  match a, b with
  | .binary op p, .binary op' p' =>
    inferInstanceAs (Decidable (canonical op = canonical op' → p = p'))
  | .binary _ _, .unary _ => .isTrue trivial
  | .unary _, .binary _ _ => .isTrue trivial
  | .unary _, .unary _ => .isTrue trivial

/-- A word in two spellings, and an operator that begins with a shorter one and is unary too. -/
private def wordAndPower : List Addition :=
  [.binary "is" 3, .unary "**", .binary "**" 6, .binary "IS" 3]

/-- The tree of `a*b ** 2 Is - ** c`. -/
private def wordAndPowerTree : Tree :=
  .operator "IS"
    [.operator "*" [.name "a", .operator "**" [.name "b", .literal (.integer 2)]],
      .operator "-" [.operator "**" [.name "c"]]]

/-- Additions to the usual table, forwards and backwards. -/
theorem additions_in_any_order_power :
    (∀ a ∈ wordAndPower, ∀ b ∈ wordAndPower, a.Compatible b) ∧
      wordAndPower.Perm wordAndPower.reverse ∧
      Longest (Operators.default.addAll wordAndPower).keys "** 2".toList "**" ∧
      (∀ op, Longest (Operators.default.addAll wordAndPower).keys "** 2".toList op → op = "**") ∧
      parse (Operators.default.addAll wordAndPower) "a*b ** 2 Is - ** c" = .ok wordAndPowerTree ∧
      parse (Operators.default.addAll wordAndPower.reverse) "a*b ** 2 Is - ** c" =
        .ok wordAndPowerTree := by
  have hcompatible : ∀ a ∈ wordAndPower, ∀ b ∈ wordAndPower, a.Compatible b := by decide
  have hperm : wordAndPower.Perm wordAndPower.reverse := (List.reverse_perm _).symm
  have hfound : longestMatch (Operators.default.addAll wordAndPower).keys "** 2".toList =
      some ("**", " 2".toList) := rfl
  have hlongest := longest_of_longestMatch hfound
  have hparse : parse (Operators.default.addAll wordAndPower) "a*b ** 2 Is - ** c" =
      .ok wordAndPowerTree := rfl
  obtain ⟨hbinary, -, horder⟩ := additions_in_any_order (.inr rfl) wordAndPower
  exact ⟨hcompatible, hperm, hlongest, fun op hop => hbinary _ op "**" hop hlongest, hparse,
    (horder _ hperm hcompatible _).symm.trans hparse⟩

end QuerySteps.Formula
