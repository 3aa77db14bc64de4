import QuerySteps.Proofs.Decimal.ReadBack

/-!
# Formulas and their SQL

The SQL of an expression is itself a formula, and for the same tree: operators stand between blanks
and in parentheses, names and calls are written as they are, and literals are read back.  Texts are
the exception: SQL keeps them only without a single quote (`Tree.Unquoted`).

A text that is read as one operand is described by `ReadsAs`, which leaves open what stands behind
the text, as long as it stops an operand.  Every well-formed tree has an expression whose SQL is such
a text (`reads_sql`), by induction on the tree; the depth of parentheses that is needed is bounded by
the length of the text.  `parse_sql` puts this together with the result that every tree that is read
is well-formed.
-/

namespace QuerySteps

open Text (isSpace skipSpace)

/-! ## Literals of a tree -/

mutual

/-- The literals in a tree. -/
def Tree.literals : Tree → List Scalar
  | .operator _ args => Tree.literalsOf args
  | .function _ args => Tree.literalsOf args
  | .literal value => [value]
  | .name _ => []

/-- The literals in several trees. -/
def Tree.literalsOf : List Tree → List Scalar
  | [] => []
  | tree :: trees => tree.literals ++ Tree.literalsOf trees

end

theorem Tree.mem_literalsOf {args : List Tree} {arg : Tree} (harg : arg ∈ args) {value : Scalar}
    (h : value ∈ arg.literals) : value ∈ Tree.literalsOf args := by
  induction args with
  | nil => cases harg
  | cons first args ih =>
    rw [Tree.literalsOf, List.mem_append]
    rcases List.mem_cons.mp harg with rfl | harg
    · exact .inl h
    · exact .inr (ih harg)

/-- No text among the literals has a single quote in it. -/
def Tree.Unquoted (tree : Tree) : Prop := ∀ s, Scalar.text s ∈ tree.literals → '\'' ∉ s.toList

theorem Tree.Unquoted.of_mem {tree arg : Tree} {args : List Tree} (h : tree.Unquoted)
    (hliterals : tree.literals = Tree.literalsOf args) (harg : arg ∈ args) : arg.Unquoted := by
  intro s hs
  refine h s ?_
  rw [hliterals]
  exact Tree.mem_literalsOf harg hs

namespace Formula

variable {ops : Operators} {s inner k : List Char} {tree : Tree} {d : Nat}

/-! ## Texts that are read as one operand -/

/-- A text is read as one operand with the given tree, whatever stops it. -/
structure ReadsAs (ops : Operators) (s : List Char) (tree : Tree) : Prop where
  head : ∃ c rest, s = c :: rest ∧ isSpace c = false ∧ c ≠ ')'
  read : ∀ {d k}, s.length ≤ d → Stops k → operandAt ops d (s ++ k) = .ok (tree, k)

private theorem stops_blank_closing (k : List Char) : Stops (' ' :: ')' :: k) :=
  ⟨rfl, fun _ _ h => by cases h; rfl, fun _ h => by cases h⟩

private theorem next?_blank_closing (hreg : ops.Regular) (k : List Char) :
    ops.next? (' ' :: ')' :: k) = none :=
  next?_of_head hreg (c := ')') rfl rfl rfl k

/-- An operand by itself is a formula. -/
theorem formula_of_readsAs (hreg : ops.Regular) (h : ReadsAs ops s tree) (hd : s.length ≤ d)
    (gap : List Char) (hgap : gap.all isSpace) (hk : Stops k) (hnext : ops.next? k = none) :
    formula ops (d + 1) (gap ++ (s ++ k)) = .ok (tree, k) :=
  (formula_succ_eq_ok_iff hreg).mpr
    ⟨tree, k, [], operandAt_gap hreg hgap (h.read hd hk), .done k, hnext, by simp⟩

/-- A formula between parentheses and blanks is an operand. -/
theorem readsAs_parenthesised (hreg : ops.Regular)
    (h : ∀ {d}, inner.length ≤ d → ∀ k,
      formula ops (d + 1) (' ' :: (inner ++ ' ' :: ')' :: k)) = .ok (tree, ' ' :: ')' :: k)) :
    ReadsAs ops ('(' :: ' ' :: (inner ++ [' ', ')'])) tree := by
  refine ⟨⟨'(', _, rfl, rfl, by decide⟩, ?_⟩
  intro d k hd _
  obtain ⟨d, rfl⟩ : ∃ n, d = n + 1 := ⟨d - 1, by simp only [List.length_cons] at hd; omega⟩
  have hinner : inner.length ≤ d := by
    simp only [List.length_cons, List.length_append] at hd
    omega
  have htext : '(' :: ' ' :: (inner ++ [' ', ')']) ++ k =
      '(' :: ' ' :: (inner ++ ' ' :: ')' :: k) := by
    simp
  have hformula := h hinner k
  rw [htext, operandAt, operand_opening hreg, parenthesised, hformula]
  rfl

/-! ## Operators -/

private theorem spells_self (op : String) : Spells op op.toList := by
  unfold Spells
  split <;> rfl

theorem reads_binary (hreg : ops.Regular) {op : String} (hop : op ∈ ops.keys)
    {left right : Expr} {leftTree rightTree : Tree} (hleft : ReadsAs ops left.sql.toList leftTree)
    (hright : ReadsAs ops right.sql.toList rightTree) :
    ReadsAs ops (Expr.binary left op right).sql.toList (.operator op [leftTree, rightTree]) := by
  have hsql : (Expr.binary left op right).sql.toList =
      '(' :: ' ' :: ((left.sql.toList ++ ' ' :: (op.toList ++ ' ' :: right.sql.toList)) ++
        [' ', ')']) := by
    simp [Expr.sql]
  rw [hsql]
  apply readsAs_parenthesised hreg
  intro d hd k
  simp only [List.length_append, List.length_cons] at hd
  have hspells := spells_self op
  obtain ⟨p, hlevel, hprec⟩ := Operators.lookup_of_mem_keys hop
  have hnext := next?_written hreg hop hspells (right.sql.toList ++ ' ' :: ')' :: k)
  have hstops := stops_operator (hreg.binary op hop) hspells
    (' ' :: (right.sql.toList ++ ' ' :: ')' :: k))
  have hreadLeft := operandAt_blank hreg (hleft.read (d := d) (by omega) hstops)
  have hreadRight := operandAt_blank hreg
    (hright.read (d := d) (by omega) (stops_blank_closing k))
  refine (formula_succ_eq_ok_iff hreg).mpr ⟨leftTree, _, [⟨op, rightTree⟩], ?_,
    .link hnext hprec hlevel hreadRight (.done _), next?_blank_closing hreg k, ?_⟩
  · simpa using hreadLeft
  · have hsplit : splitTree ops.precedence leftTree ([] ++ ⟨op, rightTree⟩ :: []) =
        .operator op [splitTree ops.precedence leftTree [],
          splitTree ops.precedence rightTree []] := splitTree_split leftTree (by simp) (by simp)
    simpa using hsplit.symm

theorem reads_unary (hext : ops.ExtendsDefault) {op : String} (hop : op ∈ ops.unary)
    {operand : Expr} (hoperand : ReadsAs ops operand.sql.toList tree)
    (hfold : applyUnary op tree = .operator op [tree]) :
    ReadsAs ops (Expr.unary op operand).sql.toList (.operator op [tree]) := by
  have hreg := hext.regular
  have hsql : (Expr.unary op operand).sql.toList =
      '(' :: ' ' :: ((op.toList ++ ' ' :: operand.sql.toList) ++ [' ', ')']) := by
    simp [Expr.sql]
  rw [hsql]
  apply readsAs_parenthesised hreg
  intro d hd k
  simp only [List.length_append, List.length_cons] at hd
  have hread := operandAt_blank hreg
    (hoperand.read (d := d) (by omega) (stops_blank_closing k))
  rw [hext.unary_eq] at hop
  have hunary : operandAt ops d (' ' :: (op.toList ++ ' ' :: (operand.sql.toList ++
      ' ' :: ')' :: k))) = .ok (.operator op [tree], ' ' :: ')' :: k) := by
    have hfuel : (' ' :: (operand.sql.toList ++ ' ' :: ')' :: k)).length <
        (' ' :: (op.toList ++ ' ' :: (operand.sql.toList ++ ' ' :: ')' :: k))).length := by
      simp only [List.length_cons, List.length_append]
      omega
    have hinner := operand_of_operandAt hreg hread hfuel
    rw [operandAt, operand_blank,
      operand_unary hext.unary_eq hop (spells_self op) (fun _ => rfl), hinner, ← hfold]
  refine (formula_succ_eq_ok_iff hreg).mpr ⟨_, _, [], ?_, .done _, next?_blank_closing hreg k,
    (splitTree_nil _ _).symm⟩
  simpa using hunary

/-! ## Calls -/

private theorem head_of_isName {name : String} (h : IsName ops name) :
    ∃ c rest, name.toList = c :: rest ∧ isSpace c = false ∧ c ≠ ')' := by
  obtain ⟨c, rest, hspelled, hc, -⟩ := h.spelled
  have hchar := isNameChar_of_startsName hc
  refine ⟨c, rest, hspelled, isSpace_of_isNameChar hchar, ?_⟩
  rintro rfl
  exact absurd hchar (by decide)

private theorem argsSql_cons_cons (arg next : Expr) (more : List Expr) :
    (Expr.argsSql (arg :: next :: more)).toList =
      arg.sql.toList ++ ',' :: ' ' :: (Expr.argsSql (next :: more)).toList := by
  simp [Expr.argsSql]

/-- The arguments of a call are read one after the other. -/
private theorem arguments_argsSql (hreg : ops.Regular) {args : List Expr} {trees : List Tree}
    (h : List.Forall₂ (fun arg tree => ReadsAs ops arg.sql.toList tree) args trees)
    (hne : args ≠ []) {fuel : Nat} (hfuel : args.length ≤ fuel)
    (hd : (Expr.argsSql args).toList.length ≤ d) (gap : List Char) (hgap : gap.all isSpace)
    (k : List Char) :
    arguments (formula ops (d + 1)) fuel (gap ++ ((Expr.argsSql args).toList ++ ')' :: k)) =
      .ok (trees, k) := by
  induction h generalizing fuel gap with
  | nil => exact absurd rfl hne
  | @cons arg tree args trees harg hargs ih =>
    obtain ⟨fuel, rfl⟩ : ∃ n, fuel = n + 1 := ⟨fuel - 1, by
      simp only [List.length_cons] at hfuel
      omega⟩
    cases hargs with
    | nil =>
      have hclosing := formula_of_readsAs hreg harg hd gap hgap (.closing k)
        (next?_of_head hreg rfl rfl rfl k)
      have hskip : skipSpace (')' :: k) = ')' :: k := rfl
      rw [Expr.argsSql, arguments, hclosing]
      simp only [hskip]
    | @cons next nextTree more moreTrees hnext hmore =>
      simp only [argsSql_cons_cons, List.length_append, List.length_cons] at hd
      have hsql : (Expr.argsSql (arg :: next :: more)).toList ++ ')' :: k =
          arg.sql.toList ++ ',' :: (' ' :: ((Expr.argsSql (next :: more)).toList ++ ')' :: k)) := by
        simp [argsSql_cons_cons]
      have hcomma := formula_of_readsAs hreg harg (d := d) (by omega) gap hgap
        (.comma (' ' :: ((Expr.argsSql (next :: more)).toList ++ ')' :: k)))
        (next?_of_head hreg rfl rfl rfl _)
      have hskip : ∀ s, skipSpace (',' :: s) = ',' :: s := fun _ => rfl
      have hrest := ih (by simp) (Nat.le_of_succ_le_succ hfuel) (by omega) [' '] rfl
      rw [List.singleton_append] at hrest
      rw [hsql, arguments, hcomma]
      simp only [hskip, hrest]

private theorem length_le_argsSql (args : List Expr) :
    args.length ≤ (Expr.argsSql args).toList.length + 1 := by
  induction args with
  | nil => simp
  | cons arg args ih =>
    cases args with
    | nil => simp
    | cons next more =>
      simp only [argsSql_cons_cons, List.length_append, List.length_cons] at ih ⊢
      omega

private theorem head_argsSql {arg : Expr} (h : ReadsAs ops arg.sql.toList tree)
    (args : List Expr) :
    ∃ c rest, (Expr.argsSql (arg :: args)).toList = c :: rest ∧ isSpace c = false ∧ c ≠ ')' := by
  obtain ⟨c, rest, hsql, hspace, hclosing⟩ := h.head
  cases args with
  | nil => exact ⟨c, rest, hsql, hspace, hclosing⟩
  | cons next more =>
    refine ⟨c, rest ++ ',' :: ' ' :: (Expr.argsSql (next :: more)).toList, ?_, hspace, hclosing⟩
    rw [argsSql_cons_cons, hsql, List.cons_append]

/-- The arguments of a call, from behind its opening parenthesis on. -/
private theorem call_argsSql (hreg : ops.Regular) (name : String) {args : List Expr}
    {trees : List Tree}
    (h : List.Forall₂ (fun arg tree => ReadsAs ops arg.sql.toList tree) args trees)
    (hd : (Expr.argsSql args).toList.length ≤ d) (k : List Char) :
    call (formula ops (d + 1)) name ((Expr.argsSql args).toList ++ ')' :: k) =
      .ok (.function name trees, k) := by
  rw [call]
  cases h with
  | nil => rfl
  | @cons arg tree args trees harg hargs =>
    have hall : List.Forall₂ (fun arg tree => ReadsAs ops arg.sql.toList tree) (arg :: args)
        (tree :: trees) := .cons harg hargs
    obtain ⟨c, rest, hargsSql, hspace, hclosing⟩ := head_argsSql harg args
    have hskip : skipSpace ((Expr.argsSql (arg :: args)).toList ++ ')' :: k) =
        (Expr.argsSql (arg :: args)).toList ++ ')' :: k := by
      rw [hargsSql, List.cons_append]
      exact skipSpace_cons_of_not_isSpace hspace _
    have hfuel : (arg :: args).length ≤
        ((Expr.argsSql (arg :: args)).toList ++ ')' :: k).length + 1 := by
      have := length_le_argsSql (arg :: args)
      simp only [List.length_append]
      omega
    have hread := arguments_argsSql hreg hall (List.cons_ne_nil _ _) hfuel hd [] rfl k
    rw [List.nil_append] at hread
    rw [hskip]
    split
    · next heq =>
      rw [hargsSql] at heq
      cases heq
      exact absurd rfl hclosing
    · rw [hread]

theorem reads_call (hreg : ops.Regular) {name : String} (hname : IsName ops name)
    {args : List Expr} {trees : List Tree}
    (h : List.Forall₂ (fun arg tree => ReadsAs ops arg.sql.toList tree) args trees) :
    ReadsAs ops (Expr.call name args).sql.toList (.function name trees) := by
  have hsql : (Expr.call name args).sql.toList =
      name.toList ++ ('(' :: ((Expr.argsSql args).toList ++ [')'])) := by
    simp [Expr.sql]
  rw [hsql]
  constructor
  · obtain ⟨c, rest, hspelled, hspace, hclosing⟩ := head_of_isName hname
    exact ⟨c, rest ++ ('(' :: ((Expr.argsSql args).toList ++ [')'])), by rw [hspelled]; rfl,
      hspace, hclosing⟩
  · intro d k hd hk
    simp only [List.length_append, List.length_cons] at hd
    obtain ⟨d, rfl⟩ : ∃ n, d = n + 1 := ⟨d - 1, by omega⟩
    have htext : name.toList ++ ('(' :: ((Expr.argsSql args).toList ++ [')'])) ++ k =
        name.toList ++ ('(' :: ((Expr.argsSql args).toList ++ ')' :: k)) := by
      simp
    rw [htext, operandAt, operand_name hreg hname rfl]
    exact call_argsSql hreg name h (by omega) k

/-! ## Trees -/

private theorem readsAs_literal (hext : ops.ExtendsDefault) {value : Scalar}
    (h : IsLiteral value) (hunquoted : (Tree.literal value).Unquoted) :
    ReadsAs ops value.sql.toList (.literal value) := by
  refine ⟨head_literalSql h, ?_⟩
  intro d k _ hk
  obtain ⟨c, rest, hsql, -⟩ := head_literalSql h
  obtain ⟨n, hn⟩ : ∃ n, (value.sql.toList ++ k).length = n + 1 :=
    ⟨(rest ++ k).length, by rw [hsql]; rfl⟩
  rw [operandAt, hn]
  cases h with
  | text s => exact operand_textSql hext.regular (hunquoted s List.mem_cons_self) hk
  | integer range => exact operand_integerSql hext range hk.ends
  | float finite =>
    exact operand_floatSql hext finite (Decimal.readsBack_of_isFinite finite) hk.ends

private theorem readsAs_name (hreg : ops.Regular) {name : String} (h : IsName ops name) :
    ReadsAs ops (Expr.named name).sql.toList (.name name) := by
  have hne : name ≠ "*" := by
    rintro rfl
    exact absurd (h.all '*' (by decide)) (by decide)
  have hsql : (Expr.named name).sql = name := by
    simp [Expr.named, Expr.sql, Expr.columnSql, hne]
  rw [hsql]
  refine ⟨head_of_isName h, ?_⟩
  intro d k _ hk
  rw [operandAt, operand_name hreg h (continuesName_of_endsToken hk.ends)]
  split
  · next args hargs => exact absurd hargs (hk.opening args)
  · rfl

/-- **The SQL of a well-formed tree is read as the tree**, in any place where an operand may
stand. -/
theorem reads_sql (hext : ops.ExtendsDefault) (h : WellFormed ops tree)
    (hunquoted : tree.Unquoted) :
    ∃ e, tree.toExpr = .ok e ∧ ReadsAs ops e.sql.toList tree := by
  have hreg := hext.regular
  induction h with
  | @literal value isLiteral =>
    exact ⟨.literal value, rfl, readsAs_literal hext isLiteral hunquoted⟩
  | @name name isName => exact ⟨.named name, rfl, readsAs_name hreg isName⟩
  | @function name args isName _ ih =>
    have hargs : ∀ arg ∈ args, ∃ e, arg.toExpr = .ok e ∧ ReadsAs ops e.sql.toList arg := by
      intro arg harg
      exact ih arg harg (hunquoted.of_mem rfl harg)
    obtain ⟨es, hes, hreads⟩ := exists_toExprs hargs
    exact ⟨.call name es, by simp only [Tree.toExpr, hes], reads_call hreg isName hreads⟩
  | @unary op operand mem folded _ ih =>
    obtain ⟨e, he, hread⟩ := ih (hunquoted.of_mem rfl List.mem_cons_self)
    have hfold : applyUnary op operand = .operator op [operand] := by
      cases operand with
      | literal value =>
        have hnot : ¬ ((op == "-" && value.isNumeric) = true) := by
          intro h
          obtain ⟨hop, hnumeric⟩ := (Bool.and_eq_true _ _).mp h
          rw [folded (by simpa using hop) value rfl] at hnumeric
          cases hnumeric
        rw [applyUnary, if_neg hnot]
      | operator op' args => rfl
      | function name args => rfl
      | name name => rfl
    exact ⟨.unary op e, by simp only [Tree.toExpr, Tree.toExprs, he],
      reads_unary hext mem hread hfold⟩
  | @binary op left right mem _ _ ihLeft ihRight =>
    have hleft : left ∈ [left, right] := List.mem_cons_self
    have hright : right ∈ [left, right] := List.mem_cons_of_mem _ List.mem_cons_self
    obtain ⟨l, hl, hreadLeft⟩ := ihLeft (hunquoted.of_mem rfl hleft)
    obtain ⟨r, hr, hreadRight⟩ := ihRight (hunquoted.of_mem rfl hright)
    exact ⟨.binary l op r, by simp only [Tree.toExpr, Tree.toExprs, hl, hr],
      reads_binary hreg mem hreadLeft hreadRight⟩

/-! ## Round trip -/

/-- An operand by itself is a formula and nothing else. -/
private theorem parse_of_readsAs (hreg : ops.Regular) {text : String}
    (h : ReadsAs ops text.toList tree) : parse ops text = .ok tree := by
  have hformula := formula_of_readsAs hreg h (Nat.le_refl _) [] rfl .nil (next?_nil hreg)
  rw [List.nil_append, List.append_nil] at hformula
  have hread : read ops text.toList = .ok tree :=
    read_eq_ok_iff.mpr ⟨[], hformula, fun _ h => (List.not_mem_nil h).elim⟩
  simp only [parse, hread]

/-- **The SQL of a formula is a formula for the same tree.**  Every well-formed tree has an
expression, and its SQL is read as that tree; and since every tree that is read is well-formed,
reading the SQL of a formula gives its tree back. -/
theorem parse_sql (hext : ops.ExtendsDefault) :
    (∀ tree, WellFormed ops tree → tree.Unquoted →
      ∃ e, tree.toExpr = .ok e ∧ parse ops e.sql = .ok tree) ∧
    (∀ text tree, parse ops text = .ok tree → tree.Unquoted →
      ∃ e, tree.toExpr = .ok e ∧ parse ops e.sql = .ok tree) := by
  have hreg := hext.regular
  have hforth : ∀ tree, WellFormed ops tree → tree.Unquoted →
      ∃ e, tree.toExpr = .ok e ∧ parse ops e.sql = .ok tree := by
    intro tree h hunquoted
    obtain ⟨e, he, hread⟩ := reads_sql hext h hunquoted
    exact ⟨e, he, parse_of_readsAs hreg hread⟩
  exact ⟨hforth, fun text tree h hunquoted => hforth tree (wellFormed_of_parse h) hunquoted⟩

/-! ## A tree with every kind of node -/

/-- The least integer, a small negative double, and a minus sign that belongs to no number. -/
private def sampleTree : Tree :=
  .operator "OR"
    [.operator "NOT" [.function "f" [.name "x", .literal (.integer (-9223372036854775808))]],
      .operator "<=" [.operator "-" [.name "y"], .operator "-"
        [.literal (.text "it"), .literal (.float (-1e-7))]]]

private theorem sampleTree_wellFormed : WellFormed .default sampleTree := by
  have hname : ∀ {name : String} {c : Char}, name.toList = [c] → startsName c →
      Operators.default.reserves name = false → IsName .default name :=
    fun h hc hfree => ⟨⟨_, [], h, hc, fun _ h => (List.not_mem_nil h).elim⟩, hfree⟩
  refine .binary (by decide) (.unary (by decide) (fun h => absurd h (by decide)) ?_)
    (.binary (by decide) (.unary (by decide) (fun _ _ h => Tree.noConfusion h) ?_)
      (.binary (by decide) (.literal (.text "it")) (.literal (.float (by decide)))))
  · refine .function (hname rfl (by decide) (by decide)) fun arg harg => ?_
    rcases List.mem_cons.mp harg with rfl | harg
    · exact .name (hname rfl (by decide) (by decide))
    · obtain rfl := List.mem_singleton.mp harg
      exact .literal (.integer (by decide))
  · exact .name (hname rfl (by decide) (by decide))

private theorem sampleTree_unquoted : sampleTree.Unquoted := by
  intro s hs
  obtain rfl : s = "it" := by
    simpa [sampleTree, Tree.literals, Tree.literalsOf] using hs
  decide

/-- The SQL of the sample, written and read. -/
theorem parse_sql_sampleTree :
    Operators.default.ExtendsDefault ∧ WellFormed .default sampleTree ∧
      sampleTree.Unquoted ∧
      ∃ e, sampleTree.toExpr = .ok e ∧ parse .default e.sql = .ok sampleTree ∧
        e.sql = "( ( NOT f(x, -9223372036854775808) ) OR ( ( - y ) <= ( 'it' - -1e-7 ) ) )" := by
  have hforth := (parse_sql .usual).1 sampleTree sampleTree_wellFormed sampleTree_unquoted
  refine ⟨.usual, sampleTree_wellFormed, sampleTree_unquoted, ?_⟩
  obtain ⟨e, he, hparse⟩ := hforth
  refine ⟨e, he, hparse, ?_⟩
  cases he
  decide +kernel

end Formula

end QuerySteps
