import QuerySteps.Proofs.Formula.Operands

/-!
# Precedence and associativity

A formula is written as operands with binary operators between them, with single blanks around the
operators (`chainText`).  Each operand is accepted by itself, and each operator is one of the table
in any spelling.  `parse_chainText` says that the formula is accepted and that its tree is the one
that `splitTree` gives: split at the rightmost operator of lowest precedence, go on with both sides,
and put at the leaves the trees that the operands have by themselves.

It holds for every table that extends the usual one, and for any number of operators.
-/

namespace QuerySteps.Formula

open Text (isSpace skipSpace)

/-- An operand of a formula, with the tree that it has by itself. -/
structure WrittenOperand (ops : Operators) where
  text : String
  tree : Tree
  shape : IsOperand ops text.toList
  accepted : parse ops text = .ok tree

/-- A binary operator in one of its spellings, with the operand to its right. -/
structure WrittenLink (ops : Operators) where
  /-- The operator as the table keeps it. -/
  op : String
  written : String
  operand : WrittenOperand ops
  mem : op ∈ ops.keys
  spells : Spells op written.toList

variable {ops : Operators}

/-- The link between trees. -/
def WrittenLink.link (link : WrittenLink ops) : Link := ⟨link.op, link.operand.tree⟩

/-- Operators and operands with single blanks before them. -/
def linksText : List (WrittenLink ops) → String
  | [] => ""
  | link :: links => " " ++ link.written ++ " " ++ link.operand.text ++ linksText links

/-- A formula of operands and operators with single blanks between them. -/
def chainText (first : WrittenOperand ops) (links : List (WrittenLink ops)) : String :=
  first.text ++ linksText links

theorem parse_eq_ok_iff {text : String} {tree : Tree} :
    parse ops text = .ok tree ↔ read ops text.toList = .ok tree := by
  unfold parse
  cases read ops text.toList <;> simp

theorem toList_linksText_cons (link : WrittenLink ops) (links : List (WrittenLink ops)) :
    (linksText (link :: links)).toList =
      ' ' :: (link.written.toList ++ ' ' :: (link.operand.text.toList ++
        (linksText links).toList)) := by
  simp [linksText]

private theorem linksText_stops (hext : ops.ExtendsDefault) (links : List (WrittenLink ops)) :
    Stops (linksText links).toList := by
  cases links with
  | nil => exact .nil
  | cons link links =>
    rw [toList_linksText_cons]
    exact stops_operator (hext.regular.binary _ link.mem) link.spells _

/-- An operand is read within a formula as it is by itself. -/
private theorem operandAt_written (hext : ops.ExtendsDefault) (operand : WrittenOperand ops)
    {d : Nat} (hd : operand.text.toList.length ≤ d) {k : List Char} (hk : Stops k) :
    operandAt ops d (operand.text.toList ++ k) = .ok (operand.tree, k) := by
  have halone := operandAt_of_accepts hext operand.shape (parse_eq_ok_iff.mp operand.accepted)
  exact operandAt_append hext.regular hd halone hk

/-- The operators and operands of a formula are read as its links. -/
private theorem links_linksText (hext : ops.ExtendsDefault) {d : Nat}
    (links : List (WrittenLink ops)) (hd : (linksText links).toList.length ≤ d) :
    Links ops (operandAt ops d) ops.levels (linksText links).toList
      (links.map WrittenLink.link) [] := by
  induction links with
  | nil => exact .done []
  | cons link links ih =>
    rw [toList_linksText_cons] at hd ⊢
    simp only [List.length_cons, List.length_append] at hd
    obtain ⟨p, hlevel, hprec⟩ := Operators.lookup_of_mem_keys link.mem
    have hnext := next?_written hext.regular link.mem link.spells
      (link.operand.text.toList ++ (linksText links).toList)
    have hread := operandAt_written hext link.operand (d := d) (by omega)
      (linksText_stops hext links)
    exact .link hnext hprec hlevel (operandAt_blank hext.regular hread) (ih (by omega))

/-- **Precedence and associativity.**  A formula of operands and operators is accepted, and its tree
is the one obtained by splitting at the rightmost operator of lowest precedence, again and again. -/
theorem parse_chainText (hext : ops.ExtendsDefault) (first : WrittenOperand ops)
    (links : List (WrittenLink ops)) :
    parse ops (chainText first links) =
      .ok (splitTree ops.precedence first.tree (links.map WrittenLink.link)) := by
  have hreg := hext.regular
  have htext : (chainText first links).toList = first.text.toList ++ (linksText links).toList := by
    simp [chainText]
  have hd : first.text.toList.length ≤ (chainText first links).toList.length ∧
      (linksText links).toList.length ≤ (chainText first links).toList.length := by
    simp [htext]
  rw [parse_eq_ok_iff, read_eq_ok_iff]
  refine ⟨[], (formula_succ_eq_ok_iff hreg).mpr ⟨first.tree, (linksText links).toList,
    links.map WrittenLink.link, ?_, ?_, next?_nil hreg, rfl⟩, by simp⟩
  · rw [htext]
    have hfirst := operandAt_written hext first hd.1 (linksText_stops hext links)
    rwa [htext] at hfirst
  · exact links_linksText hext links hd.2

/-! ## A rearranged table -/

/-- The usual operators with a looser one and a word of their own, and with `OR` above all others. -/
def rearranged : Operators :=
  ((Operators.default.addBinary "in" 3).addBinary "<=>" 0).addBinary "or" 7

theorem rearranged_extends : rearranged.ExtendsDefault := by
  refine .add (.add (.add .usual ?_ 3) ?_ 0) ?_ 7
  · exact ⟨by decide, .inl (List.all_eq_true.mp rfl)⟩
  · exact ⟨by decide, .inr (List.all_eq_true.mp rfl)⟩
  · exact ⟨by decide, .inl (List.all_eq_true.mp rfl)⟩

private theorem rearranged_isName (name : String) {c : Char} (h : name.toList = [c])
    (hc : startsName c) (hfree : rearranged.reserves name = false) : IsName rearranged name :=
  ⟨⟨c, [], h, hc, fun _ h => (List.not_mem_nil h).elim⟩, hfree⟩

private def nameOperand (name : String) (h : IsName rearranged name)
    (accepted : parse rearranged name = .ok (.name name)) : WrittenOperand rearranged :=
  ⟨name, .name name, .name h, accepted⟩

private def callOperand : WrittenOperand rearranged where
  text := "f(x, 1)"
  tree := .function "f" [.name "x", .literal (.integer 1)]
  shape := by
    have hf := rearranged_isName "f" rfl (by decide) (by decide)
    have hargs : IsArguments rearranged (['x'] ++ ',' :: [' ', '1']) :=
      .more ⟨_, rfl⟩ (.last ⟨_, rfl⟩)
    have hgap : ([] : List Char).all isSpace := rfl
    exact .call hf hgap (.inr hargs)
  accepted := rfl

private def negationOperand : WrittenOperand rearranged where
  text := "Not c"
  tree := .operator "NOT" [.name "c"]
  shape := by
    have hc := rearranged_isName "c" rfl (by decide) (by decide)
    have hspells : Spells "NOT" ['N', 'o', 't'] := by decide
    have hgap : [' '].all isSpace := rfl
    exact .unary (by decide) hspells hgap (fun _ => rfl) (.name hc)
  accepted := rfl

private def differenceOperand : WrittenOperand rearranged where
  text := "(d -2)"
  tree := .operator "-" [.name "d", .literal (.integer 2)]
  shape := by
    have hinner : Accepts rearranged ['d', ' ', '-', '2'] := ⟨_, rfl⟩
    exact .parenthesised hinner
  accepted := rfl

/-- Operators in several spellings and of several precedences, over operands of several shapes. -/
theorem parse_chainText_rearranged :
    rearranged.ExtendsDefault ∧
      parse rearranged "a + b iN f(x, 1) <=> Not c or (d -2)" =
        .ok (splitTree rearranged.precedence (.name "a")
          [⟨"+", .name "b"⟩, ⟨"IN", .function "f" [.name "x", .literal (.integer 1)]⟩,
            ⟨"<=>", .operator "NOT" [.name "c"]⟩,
            ⟨"OR", .operator "-" [.name "d", .literal (.integer 2)]⟩]) := by
  have ha := rearranged_isName "a" rfl (by decide) (by decide)
  have hb := rearranged_isName "b" rfl (by decide) (by decide)
  refine ⟨rearranged_extends, ?_⟩
  exact parse_chainText rearranged_extends (nameOperand "a" ha rfl)
    [⟨"+", "+", nameOperand "b" hb rfl, by decide, by decide⟩,
      ⟨"IN", "iN", callOperand, by decide, by decide⟩,
      ⟨"<=>", "<=>", negationOperand, by decide, by decide⟩,
      ⟨"OR", "or", differenceOperand, by decide, by decide⟩]

end QuerySteps.Formula
