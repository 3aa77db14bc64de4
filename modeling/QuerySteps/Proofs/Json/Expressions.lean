import QuerySteps.Expr.Json
import QuerySteps.Tree.Json
import QuerySteps.Proofs.Formula.RoundTrip
import QuerySteps.Proofs.Json.NodeKinds

/-!
# Trees and expressions in JSON

A tree is written as JSON text and read again, and so is an expression.  The readers try the kinds
of nodes one after the other; every written node is claimed by its own kind and by none that is
tried before it (`readJson?_toJson`).  What decides is the nesting of the text: up to `Json.deepest`
brackets inside each other it is read as what was written, and beyond that it is not read at all.
The reader of trees refuses a value with an unreadable part, while the reader of expressions has to
come upon it (`Expr.readJson?_cut`).
-/

namespace QuerySteps

open Json (deepest fields? strictForm)

/-! ## Trees -/

namespace Tree

theorem argsToJson_eq_map (args : List Tree) : argsToJson args = args.map toJson := by
  induction args with
  | nil => rfl
  | cons arg args ih => rw [argsToJson, ih, List.map_cons]

mutual

/-- Every part of a written tree has a value. -/
theorem readable_toJson : ∀ t : Tree, t.toJson.readable
  | operator _ args => by
    simp [toJson, Json.readable, Json.readableMembers, Json.text, readable_argsToJson args]
  | function _ args => by
    simp [toJson, Json.readable, Json.readableMembers, Json.text, readable_argsToJson args]
  | literal _ => rfl
  | name _ => rfl

theorem readable_argsToJson : ∀ args : List Tree, Json.readableItems (argsToJson args)
  | [] => rfl
  | arg :: args => by
    rw [argsToJson, Json.readableItems, readable_toJson arg, readable_argsToJson args]
    rfl

end

mutual

/-- A written tree is canonical if its literals are. -/
theorem isCanonical_toJson : ∀ t : Tree, (∀ v ∈ t.literals, v.isCanonical) → t.toJson.isCanonical
  | operator _ args, h => by
    simp [toJson, Json.isCanonical, Json.canonicalMembers, Json.text, Scalar.isCanonical,
      canonical_argsToJson args h]
  | function _ args, h => by
    simp [toJson, Json.isCanonical, Json.canonicalMembers, Json.text, Scalar.isCanonical,
      canonical_argsToJson args h]
  | literal value, h => by
    simp [toJson, Json.isCanonical, Json.canonicalMembers, h value (by simp [literals])]
  | name _, _ => rfl

theorem canonical_argsToJson : ∀ args : List Tree, (∀ v ∈ literalsOf args, v.isCanonical) →
    Json.canonicalItems (argsToJson args)
  | [], _ => rfl
  | arg :: args, h => by
    have harg := isCanonical_toJson arg fun v hv => h v (List.mem_append_left _ hv)
    have hargs := canonical_argsToJson args fun v hv => h v (List.mem_append_right _ hv)
    rw [argsToJson, Json.canonicalItems, harg, hargs]
    rfl

end

mutual

/-- **A written tree is read back**, each kind of node as itself: the object has no other kind's own
key. -/
theorem readJson?_toJson : ∀ (t : Tree) {n : Nat}, t.toJson.height ≤ n →
    readJson? n t.toJson = some t
  | t, 0, h => by cases t <;> simp [toJson, Json.height] at h
  | operator op args, n + 1, h => by
    simp only [toJson, Json.height, Json.heightMembers] at h
    have hargs := map_argsToJson args (n := n) (by omega)
    exact readJson?_object_iff.mpr
      ⟨.operator rfl rfl hargs, fun _ hu => hu.rank_le (by simp [ownKey])⟩
  | function f args, n + 1, h => by
    simp only [toJson, Json.height, Json.heightMembers] at h
    have hargs := map_argsToJson args (n := n) (by omega)
    exact readJson?_object_iff.mpr
      ⟨.function rfl rfl hargs, fun _ hu => hu.rank_le (by simp [ownKey])⟩
  | literal value, n + 1, _ =>
    readJson?_object_iff.mpr ⟨.literal rfl, fun _ hu => hu.rank_le (by simp [ownKey])⟩
  | name m, n + 1, _ =>
    readJson?_object_iff.mpr ⟨.name rfl, fun _ hu => hu.rank_le (by simp [ownKey])⟩

theorem map_argsToJson : ∀ (args : List Tree) {n : Nat},
    Json.heightItems (argsToJson args) ≤ n →
    (argsToJson args).map (readJson? n) = args.map some
  | [], _, _ => rfl
  | arg :: args, n, h => by
    simp only [argsToJson, Json.heightItems] at h
    rw [argsToJson, List.map_cons, List.map_cons, readJson?_toJson arg (by omega),
      map_argsToJson args (by omega)]

end

theorem ofJson?_toJson (t : Tree) : ofJson? t.toJson = some t := by
  rw [ofJson?, if_pos (readable_toJson t), readJson?_toJson t (Nat.le_refl _)]

/-- What is read of a written tree: the tree, or nothing if it is nested too deep. -/
theorem parseJson_toJsonText {t : Tree} (h : ∀ v ∈ t.literals, v.isCanonical) :
    parseJson t.toJsonText =
      if t.toJson.height ≤ deepest then .ok t else .error .unrecognised := by
  have hparse := Json.parse?_compact (readable_toJson t) (isCanonical_toJson t h)
  by_cases hheight : t.toJson.height ≤ deepest
  · rw [Json.cut_eq_self _ (by omega)] at hparse
    simp only [parseJson, toJsonText, hparse, ofJson?_toJson, if_pos hheight]
  · have hread := Json.readable_cut t.toJson (Nat.zero_le deepest) (by omega)
    have hnone : ofJson? (t.toJson.cut 0) = none := if_neg (by simp [hread])
    simp only [parseJson, toJsonText, hparse, hnone, if_neg hheight]

end Tree

/-! ## Expressions -/

namespace Expr

mutual

/-- The literals in an expression. -/
def literals : Expr → List Scalar
  | column _ _ => []
  | literal value => [value]
  | binary left _ right => left.literals ++ right.literals
  | unary _ operand => operand.literals
  | call _ args => argLiterals args
  | cast operand _ => operand.literals

/-- The literals in arguments. -/
def argLiterals : List Expr → List Scalar
  | [] => []
  | arg :: args => arg.literals ++ argLiterals args

end

mutual

/-- Every part of a written expression has a value. -/
theorem readable_toJson : ∀ e : Expr, e.toJson.readable
  | column _ table => by cases table <;> rfl
  | literal _ => rfl
  | binary left _ right => by
    simp [toJson, Json.readable, Json.readableMembers, Json.text, readable_toJson left,
      readable_toJson right]
  | unary _ operand => by
    simp [toJson, Json.readable, Json.readableMembers, Json.text, readable_toJson operand]
  | call _ args => by
    simp [toJson, Json.readable, Json.readableMembers, Json.text, readable_argsToJson args]
  | cast operand _ => by
    simp [toJson, Json.readable, Json.readableMembers, Json.text, readable_toJson operand]

theorem readable_argsToJson : ∀ args : List Expr, Json.readableItems (argsToJson args)
  | [] => rfl
  | arg :: args => by
    rw [argsToJson, Json.readableItems, readable_toJson arg, readable_argsToJson args]
    rfl

end

mutual

/-- A written expression is canonical if its literals are. -/
theorem isCanonical_toJson : ∀ e : Expr, (∀ v ∈ e.literals, v.isCanonical) → e.toJson.isCanonical
  | column _ table, _ => by cases table <;> rfl
  | literal value, h => by
    simp [toJson, Json.isCanonical, Json.canonicalMembers, h value (by simp [literals])]
  | binary left _ right, h => by
    have hleft := isCanonical_toJson left fun v hv => h v (List.mem_append_left _ hv)
    have hright := isCanonical_toJson right fun v hv => h v (List.mem_append_right _ hv)
    simp [toJson, Json.isCanonical, Json.canonicalMembers, Json.text, Scalar.isCanonical, hleft,
      hright]
  | unary _ operand, h => by
    simp [toJson, Json.isCanonical, Json.canonicalMembers, Json.text, Scalar.isCanonical,
      isCanonical_toJson operand h]
  | call _ args, h => by
    simp [toJson, Json.isCanonical, Json.canonicalMembers, Json.text, Scalar.isCanonical,
      canonical_argsToJson args h]
  | cast operand _, h => by
    simp [toJson, Json.isCanonical, Json.canonicalMembers, Json.text, Scalar.isCanonical,
      isCanonical_toJson operand h]

theorem canonical_argsToJson : ∀ args : List Expr, (∀ v ∈ argLiterals args, v.isCanonical) →
    Json.canonicalItems (argsToJson args)
  | [], _ => rfl
  | arg :: args, h => by
    have harg := isCanonical_toJson arg fun v hv => h v (List.mem_append_left _ hv)
    have hargs := canonical_argsToJson args fun v hv => h v (List.mem_append_right _ hv)
    rw [argsToJson, Json.canonicalItems, harg, hargs]
    rfl

end

/-! What is read of the record of each kind. -/

section

variable (n : Nat) (record : Json)

private theorem readJson?_column : readJson? (n + 1) (.object [("Column", record)]) = (do
    match ← fields? strictForm ["name", "table"] record with
    | (asArray, [some name, table]) =>
      if asArray && table.isNone then none
      else return column (← name.text?) (← Json.optionalText? table)
    | _ => none) :=
  rfl

private theorem readJson?_literal (v : Scalar) :
    readJson? (n + 1) (.object [("Literal", .scalar v)]) = some (literal v) :=
  rfl

private theorem readJson?_binary : readJson? (n + 1) (.object [("Binary", record)]) = (do
    match ← fields? strictForm ["left", "op", "right"] record with
    | (_, [some left, some op, some right]) =>
      return binary (← readJson? n left) (← op.text?) (← readJson? n right)
    | _ => none) :=
  rfl

private theorem readJson?_unary : readJson? (n + 1) (.object [("Unary", record)]) = (do
    match ← fields? strictForm ["op", "expr"] record with
    | (_, [some op, some operand]) => return unary (← op.text?) (← readJson? n operand)
    | _ => none) :=
  rfl

private theorem readJson?_call : readJson? (n + 1) (.object [("Function", record)]) = (do
    match ← fields? strictForm ["name", "args"] record with
    | (_, [some name, some args]) => return call (← name.text?) (← args.all? (readJson? n))
    | _ => none) :=
  rfl

private theorem readJson?_cast : readJson? (n + 1) (.object [("Cast", record)]) = (do
    match ← fields? strictForm ["expr", "type_name"] record with
    | (_, [some operand, some typeName]) =>
      return cast (← readJson? n operand) (← typeName.text?)
    | _ => none) :=
  rfl

end

mutual

/-- **A written expression is read back.** -/
theorem readJson?_toJson : ∀ (e : Expr) {n : Nat}, e.toJson.height < n →
    readJson? n e.toJson = some e
  | e, 0, h => absurd h (Nat.not_lt_zero _)
  | column name table, n + 1, _ => by
    cases table <;>
      rw [toJson, readJson?_column, Json.fields?_pair _ _ (by decide)] <;> rfl
  | literal value, n + 1, _ => readJson?_literal n value
  | binary left op right, n + 1, h => by
    simp only [toJson, Json.height, Json.heightMembers] at h
    have hleft := readJson?_toJson left (n := n) (by omega)
    have hright := readJson?_toJson right (n := n) (by omega)
    rw [toJson, readJson?_binary, Json.fields?_triple _ _ _ (by decide) (by decide) (by decide)]
    simp [hleft, hright]
  | unary op operand, n + 1, h => by
    simp only [toJson, Json.height, Json.heightMembers] at h
    have hoperand := readJson?_toJson operand (n := n) (by omega)
    rw [toJson, readJson?_unary, Json.fields?_pair _ _ (by decide)]
    simp [hoperand]
  | call function args, n + 1, h => by
    simp only [toJson, Json.height, Json.heightMembers] at h
    have hargs := all?_argsToJson args (n := n) (by omega)
    rw [toJson, readJson?_call, Json.fields?_pair _ _ (by decide)]
    simp [hargs]
  | cast operand typeName, n + 1, h => by
    simp only [toJson, Json.height, Json.heightMembers] at h
    have hoperand := readJson?_toJson operand (n := n) (by omega)
    rw [toJson, readJson?_cast, Json.fields?_pair _ _ (by decide)]
    simp [hoperand]

theorem all?_argsToJson : ∀ (args : List Expr) {n : Nat},
    Json.heightItems (argsToJson args) < n →
    Json.all? (readJson? n) (.array (argsToJson args)) = some args
  | [], _, _ => rfl
  | arg :: args, n, h => by
    simp only [argsToJson, Json.heightItems] at h
    exact Json.all?_cons (readJson?_toJson arg (by omega)) (all?_argsToJson args (by omega))

end

/-- An expression cannot be read if its record cannot, or if there is no room for it. -/
private theorem readJson?_cut_choice {n d : Nat} {kind : String} {record : Json}
    (h : ∀ m, d < deepest → readJson? (m + 1) (.object [(kind, record.cut (d + 1))]) = none) :
    readJson? n ((Json.object [(kind, record)]).cut d) = none := by
  cases n with
  | zero => rfl
  | succ n => exact Json.read_cut_choice rfl (h n)

mutual

/-- **What brackets leave of an expression that is nested too deep is no expression.** -/
theorem readJson?_cut : ∀ (e : Expr) {n d : Nat}, d ≤ deepest →
    deepest < d + e.toJson.height → readJson? n (e.toJson.cut d) = none
  | column name table, n, d, _, h => by
    have hheight : (column name table).toJson.height = 2 := by cases table <;> rfl
    rw [hheight] at h
    refine readJson?_cut_choice fun m hlt => ?_
    rw [readJson?_column, Json.fields?_cut_pair (by decide), if_neg (by omega)]
    rfl
  | literal value, n, d, hd, h => by
    simp only [toJson, Json.height, Json.heightMembers] at h
    exact readJson?_cut_choice fun m hlt => by omega
  | binary left op right, n, d, _, h => by
    simp only [toJson, Json.height, Json.heightMembers, Json.text] at h
    refine readJson?_cut_choice fun m hlt => ?_
    rw [readJson?_binary, Json.fields?_cut_triple (by decide) (by decide) (by decide)]
    split
    · next hrecord =>
      by_cases hleft : deepest < d + 2 + left.toJson.height
      · simp [readJson?_cut left (n := m) (by omega) hleft]
      · have hright := readJson?_cut right (n := m) (d := d + 2) (by omega) (by omega)
        simp [hright]
    · rfl
  | unary op operand, n, d, _, h => by
    simp only [toJson, Json.height, Json.heightMembers, Json.text] at h
    refine readJson?_cut_choice fun m hlt => ?_
    rw [readJson?_unary, Json.fields?_cut_pair (by decide)]
    split
    · have hoperand := readJson?_cut operand (n := m) (d := d + 2) (by omega) (by omega)
      simp [hoperand]
    · rfl
  | call function args, n, d, _, h => by
    simp only [toJson, Json.height, Json.heightMembers, Json.text] at h
    refine readJson?_cut_choice fun m hlt => ?_
    rw [readJson?_call, Json.fields?_cut_pair (by decide)]
    split
    · have hargs : Json.all? (readJson? m) ((Json.array (argsToJson args)).cut (d + 2)) = none := by
        rw [Json.all?_cut]
        split
        · obtain ⟨item, hitem, hnone⟩ :=
            exists_cut_eq_none args (n := m) (d := d + 3) (by omega) (by omega)
          exact Json.all?_eq_none (List.mem_map_of_mem hitem) hnone
        · rfl
      simp [hargs]
    · rfl
  | cast operand typeName, n, d, _, h => by
    simp only [toJson, Json.height, Json.heightMembers, Json.text] at h
    refine readJson?_cut_choice fun m hlt => ?_
    rw [readJson?_cast, Json.fields?_cut_pair (by decide)]
    split
    · have hoperand := readJson?_cut operand (n := m) (d := d + 2) (by omega) (by omega)
      simp [hoperand]
    · rfl

theorem exists_cut_eq_none : ∀ (args : List Expr) {n d : Nat}, d ≤ deepest →
    deepest < d + Json.heightItems (argsToJson args) →
    ∃ item ∈ argsToJson args, readJson? n (item.cut d) = none
  | [], n, d, hd, h => by
    simp only [argsToJson, Json.heightItems] at h
    omega
  | arg :: args, n, d, hd, h => by
    simp only [argsToJson, Json.heightItems] at h
    by_cases harg : deepest < d + arg.toJson.height
    · exact ⟨arg.toJson, List.mem_cons_self, readJson?_cut arg hd harg⟩
    · obtain ⟨item, hitem, hnone⟩ := exists_cut_eq_none args (n := n) hd (by omega)
      exact ⟨item, List.mem_cons_of_mem _ hitem, hnone⟩

end

/-- What is read of a written expression: the expression, or nothing if it is nested too deep. -/
theorem parseJson_toJsonText {e : Expr} (h : ∀ v ∈ e.literals, v.isCanonical) :
    parseJson e.toJsonText = if e.toJson.height ≤ deepest then .ok e else .error .json := by
  have hparse := Json.parse?_compact (readable_toJson e) (isCanonical_toJson e h)
  by_cases hheight : e.toJson.height ≤ deepest
  · have hread : ofJson? e.toJson = some e := readJson?_toJson e (Nat.lt_succ_self _)
    rw [Json.cut_eq_self _ (by omega)] at hparse
    simp only [parseJson, toJsonText, hparse, Option.bind_some, hread, if_pos hheight]
  · have hnone : ofJson? (e.toJson.cut 0) = none :=
      readJson?_cut e (Nat.zero_le deepest) (by omega)
    simp only [parseJson, toJsonText, hparse, Option.bind_some, hnone, if_neg hheight]

end Expr

/-! ## Both -/

/-- **The JSON text of a tree or an expression reads back** if its literals are canonical: as the
same tree or expression if the text nests at most `Json.deepest` arrays and objects, and otherwise
not at all. -/
theorem json_text_reads_back :
    (∀ t : Tree, (∀ v ∈ t.literals, v.isCanonical) →
      (t.toJson.height ≤ deepest → Tree.parseJson t.toJsonText = .ok t) ∧
      (deepest < t.toJson.height → Tree.parseJson t.toJsonText = .error .unrecognised)) ∧
    (∀ e : Expr, (∀ v ∈ e.literals, v.isCanonical) →
      (e.toJson.height ≤ deepest → Expr.parseJson e.toJsonText = .ok e) ∧
      (deepest < e.toJson.height → Expr.parseJson e.toJsonText = .error .json)) := by
  refine ⟨fun t ht => ⟨fun hheight => ?_, fun hheight => ?_⟩,
    fun e he => ⟨fun hheight => ?_, fun hheight => ?_⟩⟩
  · rw [Tree.parseJson_toJsonText ht, if_pos hheight]
  · rw [Tree.parseJson_toJsonText ht, if_neg (Nat.not_le_of_lt hheight)]
  · rw [Expr.parseJson_toJsonText he, if_pos hheight]
  · rw [Expr.parseJson_toJsonText he, if_neg (Nat.not_le_of_lt hheight)]

/-- A tree with literals of all kinds, a chain of operators that just fits, one that does not, and
an expression around the greatest integer. -/
theorem json_text_reads_back_samples :
    let leaves : Tree := .function "f" [.literal .null, .literal (.bool true),
      .literal (.integer (-9223372036854775808)), .literal (.integer 18446744073709551615),
      .literal (.float (-1e-7)), .literal (.text "a\n\"\x01")]
    let chain (n : Nat) : Tree := (fun t => .operator "NOT" [t])^[n] (.name "x")
    let e : Expr := .cast (.literal (.integer 18446744073709551615)) "TEXT"
    leaves.toJsonText = "\x7b\"function\":\"f\",\"args\":[\x7b\"literal\":null\x7d," ++
      "\x7b\"literal\":true\x7d,\x7b\"literal\":-9223372036854775808\x7d," ++
      "\x7b\"literal\":18446744073709551615\x7d,\x7b\"literal\":-1e-7\x7d," ++
      "\x7b\"literal\":\"a\\n\\\"\\u0001\"\x7d]\x7d" ∧
    Tree.parseJson leaves.toJsonText = .ok leaves ∧
    (chain 63).toJson.height = deepest ∧ Tree.parseJson (chain 63).toJsonText = .ok (chain 63) ∧
    Tree.parseJson (chain 64).toJsonText = .error .unrecognised ∧
    Expr.parseJson e.toJsonText = .ok e := by
  intro leaves chain e
  have hleaves : ∀ v ∈ leaves.literals, v.isCanonical := by decide
  have hchain : ∀ n, ∀ v ∈ (chain n).literals, v.isCanonical := by
    intro n
    induction n with
    | zero => exact fun v hv => (List.not_mem_nil hv).elim
    | succ n ih =>
      have hsucc : chain (n + 1) = .operator "NOT" [chain n] := Function.iterate_succ_apply' ..
      rw [hsucc]
      simpa [Tree.literals, Tree.literalsOf] using ih
  have he : ∀ v ∈ e.literals, v.isCanonical := by decide
  have hheight : ∀ n, (chain n).toJson.height = 2 * n + 1 := by
    intro n
    induction n with
    | zero => rfl
    | succ n ih =>
      have hsucc : chain (n + 1) = .operator "NOT" [chain n] := Function.iterate_succ_apply' ..
      rw [hsucc]
      simp only [Tree.toJson, Tree.argsToJson, Json.height, Json.heightMembers, Json.heightItems,
        Json.text, ih]
      omega
  refine ⟨by decide +kernel, (json_text_reads_back.1 leaves hleaves).1 (by decide), hheight 63,
    (json_text_reads_back.1 _ (hchain 63)).1 ?_, (json_text_reads_back.1 _ (hchain 64)).2 ?_,
    (json_text_reads_back.2 e he).1 (by decide)⟩
  · rw [hheight]
    decide
  · rw [hheight]
    decide

end QuerySteps
