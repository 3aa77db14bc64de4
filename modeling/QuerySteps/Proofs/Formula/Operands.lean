import QuerySteps.Proofs.Formula.Fragments

/-!
# Texts that are one operand

`IsOperand` says of a text what it is to be one operand of a formula: a name, a number, a quoted
text, a call or a formula in parentheses, with any unary operators before it.  It speaks of the text
alone; of a formula inside it asks only that it is a formula by itself (`Accepts`).

Such a text is read as a whole or not at all (`IsOperand.reads_all`).  So if it is accepted as a
formula, it is so as a single operand without operators behind it (`operandAt_of_accepts`).
-/

namespace QuerySteps.Formula

open Text (isLetter isSpace isBlank skipSpace)

/-! ## Shapes -/

/-- Whether a text is a formula by itself. -/
def Accepts (ops : Operators) (s : List Char) : Prop :=
  ∃ tree, read ops s = .ok tree

/-- The texts in quotes: one piece, or several with white space between them. -/
inductive IsQuoted : List Char → Prop
  | piece {q : Char} {body : List Char} (quote : isQuote q) (closed : q ∉ body) :
      IsQuoted (q :: body ++ [q])
  | more {q : Char} {body gap rest : List Char} (quote : isQuote q) (closed : q ∉ body)
      (space : gap.all isSpace) (more : IsQuoted rest) : IsQuoted (q :: body ++ q :: (gap ++ rest))

/-- Arguments of a call: formulas with commas between them. -/
inductive IsArguments (ops : Operators) : List Char → Prop
  | last {s : List Char} (formula : Accepts ops s) : IsArguments ops s
  | more {s rest : List Char} (formula : Accepts ops s) (more : IsArguments ops rest) :
      IsArguments ops (s ++ ',' :: rest)

/-- The texts that are one operand. -/
inductive IsOperand (ops : Operators) : List Char → Prop
  | name {name : String} (isName : IsName ops name) : IsOperand ops name.toList
  | number {s : List Char} {n : Numeral} (numeral : Numeral.take? s = some (n, [])) :
      IsOperand ops s
  | text {s : List Char} (quoted : IsQuoted s) : IsOperand ops s
  | call {name : String} {gap args : List Char} (isName : IsName ops name)
      (space : gap.all isSpace) (arguments : args.all isSpace ∨ IsArguments ops args) :
      IsOperand ops (name.toList ++ (gap ++ '(' :: (args ++ [')'])))
  | parenthesised {inner : List Char} (formula : Accepts ops inner) :
      IsOperand ops ('(' :: (inner ++ [')']))
  | unary {op : String} {written gap s : List Char} (mem : op ∈ ["NOT", "-"])
      (spells : Spells op written) (space : gap.all isSpace)
      (ends : isWord op = true → continuesName (gap ++ s) = false) (operand : IsOperand ops s) :
      IsOperand ops (written ++ (gap ++ s))

variable {ops : Operators} {s r k : List Char} {d fuel : Nat} {tree : Tree}

/-! ## Formulas inside an operand -/

theorem read_eq_ok_iff :
    read ops s = .ok tree ↔
      ∃ r, formula ops (s.length + 1) s = .ok (tree, r) ∧ ∀ c ∈ r, isBlank c := by
  unfold read
  constructor
  · intro h
    split at h
    · cases h
    · next inner r hinner =>
      split at h
      · next htrim =>
        obtain rfl : inner = tree := by simpa using h
        exact ⟨r, hinner, by simpa [Text.trimStart, List.dropWhile_eq_nil_iff] using htrim⟩
      · cases h
  · rintro ⟨r, hr, hblank⟩
    have htrim : Text.trimStart r = [] := by
      rwa [Text.trimStart, List.dropWhile_eq_nil_iff]
    simp only [hr, htrim]

/-- A formula that is accepted by itself, read with more behind it: whatever reader succeeds there
stops in the blanks behind the formula. -/
private theorem formula_of_accepts (hreg : ops.Regular) (h : Accepts ops s) (hk : Stops k)
    (hnext : ops.next? k = none) (hread : formula ops d (s ++ k) = .ok (tree, r)) :
    ∃ blanks, (∀ c ∈ blanks, isBlank c) ∧ r = blanks ++ k := by
  obtain ⟨inner, hinner⟩ := h
  obtain ⟨blanks, hformula, hblanks⟩ := read_eq_ok_iff.mp hinner
  refine ⟨blanks, hblanks, ?_⟩
  -- both readings are compared at a depth beyond both
  have hleft := (formula_local hreg (Nat.le_max_left (s.length + 1) d) _ _ _ hformula).2 k hk
    (.inr hnext)
  have hright := (formula_local hreg (Nat.le_max_right (s.length + 1) d) _ _ _ hread).2 [] .nil
    (.inr (next?_nil hreg))
  rw [List.append_nil, List.append_nil, hleft] at hright
  cases hright
  rfl

/-- Behind blanks, the first character that may end a formula is the one that was put there. -/
private theorem head_behind_blanks {blanks rest : List Char} {c found : Char}
    (hblanks : ∀ c ∈ blanks, isBlank c) (hspace : isSpace c = false)
    (hfound : isBlank found = false) (h : skipSpace (blanks ++ c :: k) = found :: rest) :
    found = c ∧ rest = k := by
  by_cases hb : skipSpace blanks = []
  · rw [skipSpace_append_of_eq_nil hb, skipSpace_cons_of_not_isSpace hspace] at h
    cases h
    exact ⟨rfl, rfl⟩
  · obtain ⟨c', cs, hcs⟩ := List.exists_cons_of_ne_nil hb
    have hmem : c' ∈ blanks := by
      apply (List.dropWhile_suffix isSpace).mem
      rw [← Text.skipSpace, hcs]
      exact List.mem_cons_self
    rw [skipSpace_append_of_ne_nil hb, hcs] at h
    obtain ⟨rfl, -⟩ : c' = found ∧ cs ++ c :: k = rest := by simpa using h
    rw [hblanks c' hmem] at hfound
    cases hfound

private theorem parenthesised_reads_all (hreg : ops.Regular) (h : Accepts ops s)
    (hread : parenthesised (formula ops d) (s ++ [')']) = .ok (tree, r)) : r = [] := by
  rw [parenthesised] at hread
  split at hread
  · cases hread
  · next inner rest hinner =>
    obtain ⟨blanks, hblanks, rfl⟩ :=
      formula_of_accepts hreg h (.closing []) (next?_of_head hreg rfl rfl rfl []) hinner
    split at hread
    · next after hafter =>
      obtain ⟨-, rfl⟩ : inner = tree ∧ after = r := by simpa using hread
      exact (head_behind_blanks hblanks rfl rfl hafter).2
    · cases hread

private theorem arguments_reads_all (hreg : ops.Regular) (h : IsArguments ops s) {args : List Tree}
    (hread : arguments (formula ops d) fuel (s ++ [')']) = .ok (args, r)) : r = [] := by
  induction h generalizing fuel args with
  | @last s haccepts =>
    cases fuel with
    | zero => cases hread
    | succ fuel =>
      rw [arguments] at hread
      split at hread
      · cases hread
      · next arg rest harg =>
        obtain ⟨blanks, hblanks, rfl⟩ := formula_of_accepts hreg haccepts (.closing [])
          (next?_of_head hreg rfl rfl rfl []) harg
        split at hread
        · next after hafter =>
          have hcomma := (head_behind_blanks hblanks rfl rfl hafter).1
          cases hcomma
        · next after hafter =>
          obtain ⟨-, rfl⟩ : [arg] = args ∧ after = r := by simpa using hread
          exact (head_behind_blanks hblanks rfl rfl hafter).2
        · cases hread
  | @more s rest haccepts _ ih =>
    cases fuel with
    | zero => cases hread
    | succ fuel =>
      rw [List.append_assoc, List.cons_append, arguments] at hread
      split at hread
      · cases hread
      · next arg rest' harg =>
        obtain ⟨blanks, hblanks, rfl⟩ := formula_of_accepts hreg haccepts (.comma _)
          (next?_of_head hreg rfl rfl rfl _) harg
        split at hread
        · next after hafter =>
          obtain ⟨-, rfl⟩ := head_behind_blanks hblanks rfl rfl hafter
          split at hread
          · cases hread
          · next args' r' hargs =>
            obtain ⟨-, rfl⟩ : arg :: args' = args ∧ r' = r := by simpa using hread
            exact ih hargs
        · next after hafter =>
          have hclosing := (head_behind_blanks hblanks rfl rfl hafter).1
          cases hclosing
        · cases hread

/-! ## Operands -/

theorem isSpace_of_isQuote {q : Char} (h : isQuote q) : isSpace q = false := by
  rcases eq_of_isQuote h with rfl | rfl <;> rfl

private theorem piece?_quoted {q : Char} {body rest : List Char} (quote : isQuote q)
    (closed : q ∉ body) : piece? (q :: body ++ q :: rest) = .ok (some (body, rest)) :=
  piece?_eq_some_iff.mpr ⟨q, quote, closed, rfl⟩

private theorem morePieces_of_isQuoted (h : IsQuoted s) {fuel : Nat} (hfuel : s.length ≤ fuel)
    (read : List Char) {gap : List Char} (hgap : gap.all isSpace) :
    ∃ all, morePieces fuel read (gap ++ s) = .ok (all, []) := by
  induction h generalizing fuel read gap with
  | @piece q body quote closed =>
    obtain ⟨n, rfl⟩ : ∃ n, fuel = n + 1 := ⟨fuel - 1, by
      simp only [List.length_append, List.length_cons] at hfuel
      omega⟩
    have hskip : skipSpace (gap ++ (q :: body ++ [q])) = q :: body ++ [q] := by
      rw [skipSpace_gap hgap]
      exact skipSpace_cons_of_not_isSpace (isSpace_of_isQuote quote) _
    refine ⟨read ++ body, ?_⟩
    simp only [morePieces, hskip, piece?_quoted quote closed]
    exact morePieces_stops .nil n _
  | @more q body gap' rest quote closed space _ ih =>
    obtain ⟨n, rfl⟩ : ∃ n, fuel = n + 1 := ⟨fuel - 1, by
      simp only [List.length_append, List.length_cons] at hfuel
      omega⟩
    have hskip : skipSpace (gap ++ (q :: body ++ q :: (gap' ++ rest))) =
        q :: body ++ q :: (gap' ++ rest) := by
      rw [skipSpace_gap hgap]
      exact skipSpace_cons_of_not_isSpace (isSpace_of_isQuote quote) _
    have hn : rest.length ≤ n := by
      simp only [List.length_append, List.length_cons] at hfuel
      omega
    obtain ⟨all, hall⟩ := ih hn (read ++ body) space
    refine ⟨all, ?_⟩
    simp only [morePieces, hskip, piece?_quoted quote closed]
    exact hall

/-- A quoted text is one text token. -/
theorem text?_of_isQuoted (h : IsQuoted s) :
    ∃ q rest t, s = q :: rest ∧ isQuote q ∧ text? s = .ok (some (t, [])) := by
  cases h with
  | @piece q body quote closed =>
    refine ⟨q, body ++ [q], String.ofList body, rfl, quote, ?_⟩
    simp only [text?, piece?_quoted quote closed, morePieces_stops .nil]
  | @more q body gap rest quote closed space more =>
    have hlength : rest.length ≤ (gap ++ rest).length := by simp
    obtain ⟨all, hall⟩ := morePieces_of_isQuoted more hlength body space
    refine ⟨q, body ++ q :: (gap ++ rest), String.ofList all, rfl, quote, ?_⟩
    simp only [text?, piece?_quoted quote closed, hall]

/-- A formula does not begin with a closing parenthesis. -/
theorem formula_ne_closing (hreg : ops.Regular)
    (h : formula ops d s = .ok (tree, r)) (rest : List Char) : skipSpace s ≠ ')' :: rest := by
  intro hs
  cases d with
  | zero => cases h
  | succ d =>
    obtain ⟨first, after, -, hfirst, -⟩ := (formula_succ_eq_ok_iff hreg).mp h
    have hunary := longestMatch_of_head hreg.unary (c := ')') rfl rfl rest
    have hskip : skipSpace (')' :: rest) = ')' :: rest := rfl
    rw [operandAt, operand, hs, hunary, primary, hskip, primaryHere_token _ _ (by simp),
      text?_of_head rfl, number?_of_head rfl] at hfirst
    cases hfirst

/-- White space before a formula makes no difference. -/
theorem formula_gap (hreg : ops.Regular) {gap : List Char} (hgap : gap.all isSpace)
    (h : formula ops d s = .ok (tree, r)) : formula ops d (gap ++ s) = .ok (tree, r) := by
  cases d with
  | zero => cases h
  | succ d =>
    obtain ⟨first, after, links, hfirst, hlinks⟩ := (formula_succ_eq_ok_iff hreg).mp h
    exact (formula_succ_eq_ok_iff hreg).mpr
      ⟨first, after, links, operandAt_gap hreg hgap hfirst, hlinks⟩

theorem formula_of_skipSpace (hreg : ops.Regular)
    (h : formula ops d (skipSpace s) = .ok (tree, r)) : formula ops d s = .ok (tree, r) := by
  have hgap : (s.takeWhile isSpace).all isSpace := by simp
  have hall := formula_gap hreg hgap h
  rwa [Text.skipSpace, List.takeWhile_append_dropWhile] at hall

theorem arguments_of_skipSpace (hreg : ops.Regular) {args : List Tree}
    (h : arguments (formula ops d) fuel (skipSpace s) = .ok (args, r)) :
    arguments (formula ops d) fuel s = .ok (args, r) := by
  cases fuel with
  | zero => cases h
  | succ fuel =>
    rw [arguments] at h ⊢
    split at h
    · cases h
    · next arg rest harg =>
      rw [formula_of_skipSpace hreg harg]
      exact h

/-- What is read of arguments is not nothing. -/
private theorem isArguments_ne_closing (hreg : ops.Regular) (h : IsArguments ops s)
    (rest : List Char) : skipSpace (s ++ [')']) ≠ ')' :: rest := by
  cases h with
  | last accepts =>
    obtain ⟨tree, htree⟩ := accepts
    obtain ⟨r, hr, -⟩ := read_eq_ok_iff.mp htree
    have hread := (formula_local hreg (Nat.le_refl _) _ _ _ hr).2 [')'] (.closing [])
      (.inr (next?_of_head hreg rfl rfl rfl []))
    exact formula_ne_closing hreg hread rest
  | @more s tail accepts _ =>
    obtain ⟨tree, htree⟩ := accepts
    obtain ⟨r, hr, -⟩ := read_eq_ok_iff.mp htree
    have hread := (formula_local hreg (Nat.le_refl _) _ _ _ hr).2 (',' :: (tail ++ [')']))
      (.comma _) (.inr (next?_of_head hreg rfl rfl rfl _))
    rw [List.append_assoc]
    exact formula_ne_closing hreg hread rest

private theorem call_reads_all (hreg : ops.Regular) {name : String}
    (h : s.all isSpace ∨ IsArguments ops s)
    (hread : call (formula ops d) name (s ++ [')']) = .ok (tree, r)) : r = [] := by
  rw [call] at hread
  rcases h with hspace | hargs
  · have hskip : skipSpace (s ++ [')']) = [')'] := skipSpace_gap hspace _
    rw [hskip] at hread
    cases hread
    rfl
  · split at hread
    · next rest hrest => exact absurd hrest (isArguments_ne_closing hreg hargs rest)
    · split at hread
      · cases hread
      · next args rest hrest =>
        obtain ⟨-, rfl⟩ : .function name args = tree ∧ rest = r := by simpa using hread
        exact arguments_reads_all hreg hargs (arguments_of_skipSpace hreg hrest)

private theorem number_reads_all {n : Numeral} (h : Numeral.take? s = some (n, []))
    {found : Option (Scalar × List Char)} (hread : number? s = .ok found) :
    ∃ value, found = some (value, []) := by
  simp only [number?, h] at hread
  split at hread
  · cases hread
  · cases hv : n.value? false with
    | none => simp [hv] at hread
    | some value => exact ⟨value, by simpa [hv] using hread.symm⟩

theorem head_of_take? {n : Numeral} (h : Numeral.take? s = some (n, r)) :
    ∃ c rest, s = c :: rest ∧ startsNumber c := by
  cases s with
  | nil => cases h
  | cons c s =>
    refine ⟨c, s, rfl, ?_⟩
    cases hc : startsNumber c with
    | true => rfl
    | false =>
      rw [take?_of_head hc] at h
      cases h

/-- White space ends a name. -/
theorem continuesName_gap {gap : List Char} (h : gap.all isSpace) (hs : continuesName s = false) :
    continuesName (gap ++ s) = false := by
  cases gap with
  | nil => exact hs
  | cons c gap =>
    have hc : isSpace c := List.all_eq_true.mp h c List.mem_cons_self
    cases hname : isNameChar c with
    | false => exact hname
    | true =>
      rw [isSpace_of_isNameChar hname] at hc
      cases hc

private theorem exists_fuel {p : List Char → Read} (h : operand ops p fuel s = .ok (tree, r)) :
    ∃ n, fuel = n + 1 := by
  cases fuel with
  | zero => cases h
  | succ n => exact ⟨n, rfl⟩

/-- **A text that is one operand is read as a whole**, if the reader of operands succeeds. -/
theorem IsOperand.reads_all (hext : ops.ExtendsDefault) (h : IsOperand ops s)
    (hread : operand ops (primary ops (formula ops d)) fuel s = .ok (tree, r)) : r = [] := by
  have hreg := hext.regular
  induction h generalizing fuel tree with
  | @name name isName =>
    obtain ⟨fuel, rfl⟩ := exists_fuel hread
    have hname : operand ops (primary ops (formula ops d)) (fuel + 1) (name.toList ++ []) =
        .ok (.name name, []) := operand_name hreg isName rfl
    rw [List.append_nil, hread] at hname
    cases hname
    rfl
  | @number s n numeral =>
    obtain ⟨fuel, rfl⟩ := exists_fuel hread
    obtain ⟨c, s, rfl, hc⟩ := head_of_take? numeral
    rw [operand_number hreg hc] at hread
    split at hread
    · cases hread
    · next value rest hnumber =>
      obtain ⟨value', hvalue⟩ := number_reads_all numeral hnumber
      cases hvalue
      cases hread
      rfl
    · next hnumber =>
      obtain ⟨value', hvalue⟩ := number_reads_all numeral hnumber
      cases hvalue
  | text quoted =>
    obtain ⟨fuel, rfl⟩ := exists_fuel hread
    obtain ⟨q, rest, t, rfl, quote, htext⟩ := text?_of_isQuoted quoted
    rw [operand_quote hreg quote htext] at hread
    cases hread
    rfl
  | @call name gap args isName space arguments =>
    obtain ⟨fuel, rfl⟩ := exists_fuel hread
    have hskip : skipSpace (gap ++ '(' :: (args ++ [')'])) = '(' :: (args ++ [')']) :=
      skipSpace_gap space _
    rw [operand_name hreg isName (continuesName_gap space rfl), hskip] at hread
    exact call_reads_all hreg arguments hread
  | @parenthesised inner accepts =>
    obtain ⟨fuel, rfl⟩ := exists_fuel hread
    rw [operand_opening hreg] at hread
    exact parenthesised_reads_all hreg accepts hread
  | @unary op written gap s mem spells space ends _ ih =>
    obtain ⟨fuel, rfl⟩ := exists_fuel hread
    rw [operand_unary hext.unary_eq mem spells ends] at hread
    split at hread
    · cases hread
    · next inner rest hinner =>
      cases hread
      obtain ⟨fuel, rfl⟩ := exists_fuel hinner
      rw [operand_gap space] at hinner
      exact ih hinner

/-- An operand that is accepted as a formula is one operand with nothing behind it. -/
theorem operandAt_of_accepts (hext : ops.ExtendsDefault) (h : IsOperand ops s)
    (hread : read ops s = .ok tree) : operandAt ops s.length s = .ok (tree, []) := by
  have hreg := hext.regular
  obtain ⟨r, hr, -⟩ := read_eq_ok_iff.mp hread
  obtain ⟨first, rest, links, hfirst, hlinks, -, rfl⟩ := (formula_succ_eq_ok_iff hreg).mp hr
  obtain rfl := h.reads_all hext hfirst
  cases hlinks with
  | done => simpa using hfirst
  | link next =>
    rw [next?_nil hreg] at next
    cases next

/-! ## Texts of one operand -/

/-- An operand that takes the whole text is the formula. -/
theorem parse_of_operandAt (hreg : ops.Regular) {s : String} {tree : Tree}
    (h : operandAt ops s.toList.length s.toList = .ok (tree, [])) : parse ops s = .ok tree := by
  have hformula := (formula_succ_eq_ok_iff hreg).mpr
    ⟨_, _, [], h, .done _, next?_nil hreg, rfl⟩
  have hread : read ops s.toList = .ok tree :=
    read_eq_ok_iff.mpr ⟨[], by simpa using hformula, by simp⟩
  rw [parse, hread]

theorem chain_of_operand_error {operand : List Char → Read} {e : Failure}
    (h : operand s = .error e) (levels : List Nat) : chain ops operand levels s = .error e := by
  induction levels with
  | nil => exact h
  | cons precedence tighter ih => simp only [chain, ih]

/-- A formula whose first operand fails, fails there. -/
theorem parse_of_operandAt_error {s : String} {e : Failure}
    (h : operandAt ops s.toList.length s.toList = .error e) :
    parse ops s = .error (e.toError s.toList) := by
  have hformula : formula ops (s.toList.length + 1) s.toList = .error e :=
    chain_of_operand_error h ops.levels
  simp only [parse, read, hformula]

end QuerySteps.Formula
