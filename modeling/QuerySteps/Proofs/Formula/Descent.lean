import QuerySteps.Proofs.Formula.Alike
import QuerySteps.Proofs.Formula.FailurePlaces

/-!
# The reader comes down

The reader of formulas calls itself in circles, through parentheses and calls, and has loops: unary
operators before an operand, operators behind a tree, arguments, and pieces of a text.  It is
written with bounds on all of them.  Here the bounds are taken away.

A `Request` is what one function of the reader is called for, or what one of its loops has to go on
with.  Its plan says what is done then: it is answered, or something else is asked for first.  No
bound occurs in it.  A plan `Ends` with a result if it comes to one in finitely many steps, and if
every request that comes up is smaller than the one that it comes up for: less text is left, or the
same text for a function further inside, where the precedences that are left count.

That every plan ends needs that readers take something off their text, since an operator need not: a
binary operator may be empty.  A unary one may not, or the reader would ask for the same operand
again (`Request.not_ends_operand`).  The induction is on the size of requests
(`Request.answered_all`); the result is the answer of the reader, and so no answer is due to a
bound.
-/

namespace QuerySteps.Formula

open Text (skipSpace byteLength byteLength_append byteLength_toList)

variable {ops : Operators} {f g : List Char → Read} {s r t : List Char} {fuel bound d e : Nat}

/-! ## Readers of less text -/

/-- A text begins with a given character, or it does not. -/
theorem begins_or (c : Char) (s : List Char) : (∃ r, s = c :: r) ∨ ∀ r, s ≠ c :: r := by
  by_cases h : ∃ r, s = c :: r
  · exact .inl h
  · exact .inr (not_exists.mp h)

/-- The reader of a name or a call asks for formulas behind its front only. -/
theorem named_below (hf : Consumes f) (h : ∀ t, Behind s t → f t = g t) :
    named ops f s = named ops g s := by
  unfold named
  split
  · rfl
  · next name rest hname =>
    split
    · rfl
    · split
      · next args hargs =>
        have hbehind := (behind_of_name? hname).trans (behind_of_skipSpace hargs)
        exact call_alike hf (fun t ht => h t (hbehind.suffix ht)) name args List.suffix_rfl
      · rfl

/-- The reader of an operand asks for formulas behind its front only. -/
theorem primary_below (hf : Consumes f) (h : ∀ t, Behind s t → f t = g t) :
    primary ops f s = primary ops g s := by
  have hskip := skipSpace_suffix s
  unfold primary
  rcases begins_or '(' (skipSpace s) with ⟨rest, hrest⟩ | hopening
  · have hagree : AgreeOn rest f g :=
      fun t ht => h t ((behind_of_skipSpace hrest).suffix ht)
    rw [hrest]
    exact parenthesised_alike hagree rest List.suffix_rfl
  · rw [primaryHere_token ops f hopening, primaryHere_token ops g hopening,
      named_below hf fun t ht => h t (.of_suffix hskip ht)]

theorem operand_agree (h : AgreeOn s f g) (fuel : Nat) :
    AgreeOn s (operand ops f fuel) (operand ops g fuel) := by
  induction fuel with
  | zero =>
    intro t _
    rfl
  | succ fuel ih =>
    intro t ht
    have hskip : skipSpace t <:+ s := (skipSpace_suffix t).trans ht
    simp only [operand]
    split
    · exact h _ hskip
    · next op rest hop => rw [ih rest ((suffix_of_longestMatch hop).trans hskip)]

theorem chain_agree (hf : Consumes f) (h : AgreeOn s f g) (levels : List Nat) :
    AgreeOn s (chain ops f levels) (chain ops g levels) := by
  have halike := chain_alike (.refl ops s) hf h (fun _ _ _ _ _ _ _ => rfl) levels
  rwa [List.filter_true] at halike

/-! ## The bound on parentheses -/

/-- Levels of parentheses beyond the length of the text make no difference. -/
theorem operandAt_depth (hd : s.length ≤ d) (he : s.length ≤ e) :
    operandAt ops d s = operandAt ops e s := by
  induction d generalizing e s with
  | zero =>
    obtain rfl : s = [] := List.length_eq_zero_iff.mp (Nat.le_zero.mp hd)
    have hbelow : AgreeOn [] (primary ops (formula ops 0)) (primary ops (formula ops e)) := by
      intro t ht
      refine primary_below (formula_consumes ops 0) fun u hu => ?_
      have hlength := ht.length_le
      exact absurd hu.2 (by simp only [List.length_nil] at hlength; omega)
    exact operand_agree hbelow _ [] List.suffix_rfl
  | succ d ih =>
    have hbelow : AgreeOn s (primary ops (formula ops (d + 1))) (primary ops (formula ops e)) := by
      intro t ht
      refine primary_below (formula_consumes ops (d + 1)) fun u hu => ?_
      have hlength := ht.length_le
      have hshorter := hu.2
      obtain ⟨e, rfl⟩ : ∃ n, e = n + 1 := ⟨e - 1, by omega⟩
      have hoperand : AgreeOn u (operandAt ops d) (operandAt ops e) := by
        intro v hv
        have hlength' := hv.length_le
        exact ih (by omega) (by omega)
      exact chain_agree (operandAt_consumes ops d) hoperand ops.levels u List.suffix_rfl
    exact operand_agree hbelow _ s List.suffix_rfl

theorem chain_depth (hd : s.length ≤ d) (he : s.length ≤ e) (levels : List Nat) :
    AgreeOn s (chain ops (operandAt ops d) levels) (chain ops (operandAt ops e) levels) := by
  refine chain_agree (operandAt_consumes ops d) ?_ levels
  intro t ht
  exact operandAt_depth (ht.length_le.trans hd) (ht.length_le.trans he)

theorem formula_depth (hd : s.length < d) (he : s.length < e) :
    AgreeOn s (formula ops d) (formula ops e) := by
  obtain ⟨d, rfl⟩ : ∃ n, d = n + 1 := ⟨d - 1, by omega⟩
  obtain ⟨e, rfl⟩ : ∃ n, e = n + 1 := ⟨e - 1, by omega⟩
  exact chain_depth (Nat.le_of_lt_succ hd) (Nat.le_of_lt_succ he) ops.levels

theorem more_depth (hd : s.length ≤ d) (he : s.length ≤ e) {tighter : List Nat}
    {precedence : Nat} {left : Tree} :
    more ops (chain ops (operandAt ops d) tighter) precedence fuel left s =
      more ops (chain ops (operandAt ops e) tighter) precedence fuel left s :=
  more_alike (.refl ops s) (chain_consumes (operandAt_consumes ops d) tighter)
    (chain_depth hd he tighter) precedence fuel left s List.suffix_rfl

theorem arguments_depth (hd : s.length < d) (he : s.length < e) :
    arguments (formula ops d) fuel s = arguments (formula ops e) fuel s :=
  arguments_alike (formula_consumes ops d) (formula_depth hd he) fuel s List.suffix_rfl

/-! ## The bounds on loops -/

/-- An operator that is not empty takes something off the front. -/
theorem behind_of_longestMatch {keys : List String} (hne : "" ∉ keys) {op : String}
    (h : longestMatch keys s = some (op, r)) : Behind s r := by
  obtain ⟨hmem, hstrip⟩ := mem_of_longestMatch h
  obtain ⟨w, rfl, hspells, -⟩ := stripOperator_eq_some_iff.mp hstrip
  refine behind_append ?_ r
  rintro rfl
  have hnil : op.toList = [] := by
    unfold Spells at hspells
    split at hspells
    · simpa using hspells.symm
    · exact hspells.symm
  have hempty : op = "" := String.toList_injective hnil
  exact hne (hempty ▸ hmem)

theorem operand_bound (hne : "" ∉ ops.unary) (hfuel : s.length < fuel) (hbound : s.length < bound) :
    operand ops f fuel s = operand ops f bound s := by
  induction fuel generalizing bound s with
  | zero => omega
  | succ fuel ih =>
    obtain ⟨bound, rfl⟩ : ∃ n, bound = n + 1 := ⟨bound - 1, by omega⟩
    simp only [operand]
    split
    · rfl
    · next op rest hop =>
      have hshorter := (Behind.of_suffix (skipSpace_suffix s) (behind_of_longestMatch hne hop)).2
      have hinner : operand ops f fuel rest = operand ops f bound rest :=
        ih (by omega) (by omega)
      rw [hinner]

theorem more_bound (hf : Consumes f) (precedence : Nat) {left : Tree} (hfuel : s.length < fuel)
    (hbound : s.length < bound) :
    more ops f precedence fuel left s = more ops f precedence bound left s := by
  induction fuel generalizing bound left s with
  | zero => omega
  | succ fuel ih =>
    obtain ⟨bound, rfl⟩ : ∃ n, bound = n + 1 := ⟨bound - 1, by omega⟩
    simp only [more]
    split
    · rfl
    · next op rest hop =>
      have hrest : rest <:+ s := (suffix_of_longestMatch hop).trans (skipSpace_suffix s)
      split
      · split
        · rfl
        · next right after hright =>
          have hshorter := (Behind.of_suffix hrest (hf _ _ _ hright)).2
          exact ih (by omega) (by omega)
      · rfl

theorem arguments_bound (hf : Consumes f) (hfuel : s.length < fuel) (hbound : s.length < bound) :
    arguments f fuel s = arguments f bound s := by
  induction fuel generalizing bound s with
  | zero => omega
  | succ fuel ih =>
    obtain ⟨bound, rfl⟩ : ∃ n, bound = n + 1 := ⟨bound - 1, by omega⟩
    simp only [arguments]
    split
    · rfl
    · next arg rest harg =>
      split
      · next after hafter =>
        have hshorter := ((hf _ _ _ harg).trans (behind_of_skipSpace hafter)).2
        have hargs : arguments f fuel after = arguments f bound after := ih (by omega) (by omega)
        rw [hargs]
      · rfl
      · rfl

theorem morePieces_bound {read : List Char} (hfuel : s.length ≤ fuel) (hbound : s.length ≤ bound) :
    morePieces fuel read s = morePieces bound read s := by
  induction fuel generalizing bound read s with
  | zero =>
    obtain rfl : s = [] := List.length_eq_zero_iff.mp (Nat.le_zero.mp hfuel)
    exact (morePieces_of_noQuoteNext (by simp [NoQuoteNext, skipSpace]) bound read).symm
  | succ fuel ih =>
    cases bound with
    | zero =>
      obtain rfl : s = [] := List.length_eq_zero_iff.mp (Nat.le_zero.mp hbound)
      exact morePieces_of_noQuoteNext (by simp [NoQuoteNext, skipSpace]) _ read
    | succ bound =>
      simp only [morePieces]
      split
      · rfl
      · rfl
      · next piece rest hpiece =>
        have hshorter := piece?_length hpiece
        have hskip := skipSpace_length_le s
        exact ih (by omega) (by omega)

/-! ## Requests -/

/-- What the reader is called for, or has to go on with, at the front of a text. -/
inductive Request
  /-- Operands and operators of the given precedences, the loosest first. -/
  | chain (levels : List Nat) (s : List Char)
  /-- More operators of a precedence behind a tree, with operands of the tighter precedences. -/
  | more (precedence : Nat) (tighter : List Nat) (left : Tree) (s : List Char)
  | operand (s : List Char)
  | primary (s : List Char)
  /-- More pieces of a text that has begun. -/
  | pieces (read : List Char) (s : List Char)
  | call (name : String) (s : List Char)
  /-- More arguments of a call. -/
  | arguments (name : String) (args : List Tree) (s : List Char)

namespace Request

/-- The text that is left. -/
def text : Request → List Char
  | .chain _ s => s
  | .more _ _ _ s => s
  | .operand s => s
  | .primary s => s
  | .pieces _ s => s
  | .call _ s => s
  | .arguments _ _ s => s

/-- Whether something has been read before, behind which nothing more need follow. -/
def mayEnd : Request → Bool
  | .more .. => true
  | .pieces .. => true
  | _ => false

/-- How far outside a function is.  Arguments are whole formulas; behind a tree stand chains of the
tighter precedences. -/
def rank (ops : Operators) : Request → Nat
  | .primary _ => 0
  | .pieces .. => 0
  | .operand _ => 1
  | .chain levels _ => levels.length + 2
  | .more _ tighter _ _ => tighter.length + 3
  | .arguments .. => ops.levels.length + 3
  | .call .. => ops.levels.length + 4

/-- The size of a request: first the text that is left, then the rank of the function. -/
def size (ops : Operators) (request : Request) : Nat ×ₗ Nat :=
  toLex (request.text.length, request.rank ops)

theorem size_lt_of_length {a b : Request} (h : a.text.length < b.text.length) :
    a.size ops < b.size ops :=
  Prod.Lex.toLex_lt_toLex.mpr (.inl h)

theorem size_lt_of_rank {a b : Request} (h : a.text.length ≤ b.text.length)
    (hrank : a.rank ops < b.rank ops) : a.size ops < b.size ops := by
  rcases Nat.lt_or_eq_of_le h with hlt | heq
  · exact size_lt_of_length hlt
  · exact Prod.Lex.toLex_lt_toLex.mpr (.inr ⟨heq, hrank⟩)

theorem wellFounded_size (ops : Operators) :
    WellFounded fun a b : Request => a.size ops < b.size ops :=
  InvImage.wf (size ops) wellFounded_lt

end Request

/-! ## Plans -/

/-- What is done with a request: it is answered, or something else is asked for first, of which a
failure is handed on. -/
inductive Plan
  | done (result : Read)
  | ask (request : Request) (next : Tree → List Char → Plan)

/-- To answer what another request is answered. -/
def Plan.pass (request : Request) : Plan :=
  .ask request fun tree rest => .done (.ok (tree, rest))

namespace Request

/-- A name, or a call. -/
def planNamed (ops : Operators) (s : List Char) : Plan :=
  match name? s with
  | none => .done (.error (expected s))
  | some (name, rest) =>
    if ops.reserves name then .done (.error ⟨s, .operatorUnexpected name⟩)
    else match skipSpace rest with
      | '(' :: args => .pass (.call name args)
      | _ => .done (.ok (.name name, rest))

/-- An operand that begins at the first character. -/
def planHere (ops : Operators) (s : List Char) : Plan :=
  match s with
  | '(' :: rest =>
    .ask (.chain ops.levels rest) fun tree rest =>
      match skipSpace rest with
      | ')' :: rest => .done (.ok (tree, rest))
      | rest => .done (.error ⟨rest, .closingExpected⟩)
  | s =>
    match piece? s with
    | .error e => .done (.error e)
    | .ok (some (first, rest)) => .pass (.pieces first rest)
    | .ok none =>
      match number? s with
      | .error e => .done (.error e)
      | .ok (some (value, rest)) => .done (.ok (.literal value, rest))
      | .ok none => planNamed ops s

/-- What the reader does with a request, without any bound. -/
def plan (ops : Operators) : Request → Plan
  | .chain [] s => .pass (.operand s)
  | .chain (precedence :: tighter) s =>
    .ask (.chain tighter s) fun left rest => .pass (.more precedence tighter left rest)
  | .more precedence tighter left s =>
    match ops.next? s with
    | none => .done (.ok (left, s))
    | some (op, after) =>
      if ops.binary.lookup op = some precedence then
        .ask (.chain tighter after) fun right rest =>
          .pass (.more precedence tighter (.operator op [left, right]) rest)
      else
        .done (.ok (left, s))
  | .operand s =>
    match longestMatch ops.unary (skipSpace s) with
    | none => .pass (.primary (skipSpace s))
    | some (op, rest) =>
      .ask (.operand rest) fun tree rest => .done (.ok (applyUnary op tree, rest))
  | .primary s => planHere ops (skipSpace s)
  | .pieces read s =>
    match piece? (skipSpace s) with
    | .error e => .done (.error e)
    | .ok none => .done (.ok (.literal (.text (String.ofList read)), s))
    | .ok (some (piece, rest)) => .pass (.pieces (read ++ piece) rest)
  | .call name s =>
    match skipSpace s with
    | ')' :: rest => .done (.ok (.function name [], rest))
    | s => .pass (.arguments name [] s)
  | .arguments name args s =>
    .ask (.chain ops.levels s) fun arg rest =>
      match skipSpace rest with
      | ',' :: rest => .pass (.arguments name (args ++ [arg]) rest)
      | ')' :: rest => .done (.ok (.function name (args ++ [arg]), rest))
      | rest => .done (.error ⟨rest, .argumentEndExpected⟩)

/-- What the reader answers to a request. -/
def answer (ops : Operators) : Request → Read
  | .chain levels s => Formula.chain ops (operandAt ops s.length) levels s
  | .more precedence tighter left s =>
    Formula.more ops (Formula.chain ops (operandAt ops s.length) tighter) precedence
      (s.length + 1) left s
  | .operand s => operandAt ops s.length s
  | .primary s => Formula.primary ops (formula ops s.length) s
  | .pieces read s =>
    match morePieces s.length read s with
    | .error e => .error e
    | .ok (all, rest) => .ok (.literal (.text (String.ofList all)), rest)
  | .call name s => Formula.call (formula ops (s.length + 1)) name s
  | .arguments name args s =>
    match Formula.arguments (formula ops (s.length + 1)) (s.length + 1) s with
    | .error e => .error e
    | .ok (found, rest) => .ok (.function name (args ++ found), rest)

end Request

/-- A plan ends with a result, and so do the plans for all requests that come up.  Each of these is
smaller than the given size, which is that of the request that the plan is for. -/
inductive Ends (ops : Operators) : Nat ×ₗ Nat → Plan → Read → Prop
  | done {size : Nat ×ₗ Nat} (result : Read) : Ends ops size (.done result) result
  | failed {size : Nat ×ₗ Nat} {request : Request} {next : Tree → List Char → Plan} {e : Failure}
      (smaller : request.size ops < size)
      (asked : Ends ops (request.size ops) (request.plan ops) (.error e)) :
      Ends ops size (.ask request next) (.error e)
  | answered {size : Nat ×ₗ Nat} {request : Request} {next : Tree → List Char → Plan} {tree : Tree}
      {rest : List Char} {result : Read} (smaller : request.size ops < size)
      (asked : Ends ops (request.size ops) (request.plan ops) (.ok (tree, rest)))
      (behind : Ends ops size (next tree rest) result) :
      Ends ops size (.ask request next) result

/-- A plan ends in one way. -/
theorem Ends.eq {size size' : Nat ×ₗ Nat} {plan : Plan} {result result' : Read}
    (h : Ends ops size plan result) (h' : Ends ops size' plan result') : result = result' := by
  induction h generalizing size' result' with
  | done result =>
    cases h'
    rfl
  | failed _ _ ih =>
    cases h' with
    | failed _ asked => exact ih asked
    | answered _ asked _ => cases ih asked
  | answered _ _ _ ih ih' =>
    cases h' with
    | failed _ asked => cases ih asked
    | answered _ asked behind =>
      cases ih asked
      exact ih' behind

/-! ## Every plan ends -/

namespace Request

/-- The plan for a request ends with the answer of the reader. -/
def Answered (ops : Operators) (request : Request) : Prop :=
  Ends ops (request.size ops) (request.plan ops) (request.answer ops)

/-- All smaller requests are answered. -/
def AnsweredBelow (ops : Operators) (request : Request) : Prop :=
  ∀ other : Request, other.size ops < request.size ops → other.Answered ops

variable {request other : Request} {next : Tree → List Char → Plan} {result : Read}

/-- To ask for a smaller request ends with what the plan behind it ends with for its answer. -/
theorem AnsweredBelow.ask (h : AnsweredBelow ops request)
    (smaller : other.size ops < request.size ops)
    (hfailed : ∀ e, other.answer ops = .error e → result = .error e)
    (hanswered : ∀ tree rest, other.answer ops = .ok (tree, rest) →
      Ends ops (request.size ops) (next tree rest) result) :
    Ends ops (request.size ops) (.ask other next) result := by
  have hother := h other smaller
  cases hanswer : other.answer ops with
  | error e =>
    obtain rfl := hfailed e hanswer
    exact .failed smaller (hanswer ▸ hother)
  | ok found =>
    obtain ⟨tree, rest⟩ := found
    exact .answered smaller (hanswer ▸ hother) (hanswered tree rest hanswer)

theorem AnsweredBelow.pass (h : AnsweredBelow ops request)
    (smaller : other.size ops < request.size ops) (heq : other.answer ops = result) :
    Ends ops (request.size ops) (.pass other) result := by
  refine h.ask smaller ?_ ?_
  · intro e he
    exact heq.symm.trans he
  · intro tree rest hok
    have hresult : result = .ok (tree, rest) := heq.symm.trans hok
    exact hresult ▸ .done _

theorem answered_chain {levels : List Nat} (h : AnsweredBelow ops (.chain levels s)) :
    (chain levels s).Answered ops := by
  cases levels with
  | nil => exact h.pass (size_lt_of_rank (Nat.le_refl _) (Nat.lt_succ_self _)) rfl
  | cons precedence tighter =>
    rw [Answered, plan, answer, Formula.chain]
    refine h.ask (size_lt_of_rank (Nat.le_refl _) (Nat.lt_succ_self _)) ?_ ?_
    · intro e he
      rw [answer] at he
      rw [he]
    · intro left rest hleft
      rw [answer] at hleft
      rw [hleft]
      have hrest := chain_consumes (operandAt_consumes ops s.length) tighter _ _ _ hleft
      exact h.pass (size_lt_of_length hrest.2) (more_depth (Nat.le_refl _) (Nat.le_of_lt hrest.2))

theorem answered_more {precedence : Nat} {tighter : List Nat} {left : Tree}
    (h : AnsweredBelow ops (.more precedence tighter left s)) :
    (more precedence tighter left s).Answered ops := by
  have hnext : longestMatch (ops.binary.map (·.1)) (skipSpace s) = ops.next? s := rfl
  have hconsumes : ∀ d, Consumes (Formula.chain ops (operandAt ops d) tighter) :=
    fun d => chain_consumes (operandAt_consumes ops d) tighter
  rw [Answered, plan, answer, Formula.more, hnext]
  cases hop : ops.next? s with
  | none => exact .done _
  | some found =>
    obtain ⟨op, after⟩ := found
    have hafter : after <:+ s := (suffix_of_longestMatch hop).trans (skipSpace_suffix s)
    have hright : (chain tighter after).answer ops =
        Formula.chain ops (operandAt ops s.length) tighter after :=
      chain_depth (Nat.le_refl _) hafter.length_le tighter after List.suffix_rfl
    simp only
    split
    · rw [← hright]
      refine h.ask (size_lt_of_rank hafter.length_le (Nat.lt_succ_self _)) ?_ ?_
      · intro e he
        rw [he]
      · intro right rest hanswer
        rw [hanswer]
        rw [hright] at hanswer
        have hrest : Behind s rest := .of_suffix hafter (hconsumes _ _ _ _ hanswer)
        refine h.pass (size_lt_of_length hrest.2) ?_
        rw [answer, more_depth (Nat.le_refl _) (Nat.le_of_lt hrest.2)]
        exact more_bound (hconsumes _) precedence (Nat.lt_succ_self _) hrest.2
    · exact .done _

theorem answered_operand (hne : "" ∉ ops.unary) (h : AnsweredBelow ops (.operand s)) :
    (operand s).Answered ops := by
  have hskip := skipSpace_suffix s
  rw [Answered, plan, answer, operandAt, Formula.operand]
  cases hop : longestMatch ops.unary (skipSpace s) with
  | none =>
    refine h.pass (size_lt_of_rank hskip.length_le Nat.zero_lt_one) ?_
    refine primary_below (formula_consumes ops _) fun t ht => ?_
    exact formula_depth ht.2 (Nat.lt_of_lt_of_le ht.2 hskip.length_le) t List.suffix_rfl
  | some found =>
    obtain ⟨op, rest⟩ := found
    have hrest : Behind s rest := .of_suffix hskip (behind_of_longestMatch hne hop)
    have hinner : (operand rest).answer ops =
        Formula.operand ops (Formula.primary ops (formula ops s.length)) s.length rest :=
      calc operandAt ops rest.length rest
          = operandAt ops s.length rest :=
            operandAt_depth (Nat.le_refl _) (Nat.le_of_lt hrest.2)
        _ = Formula.operand ops (Formula.primary ops (formula ops s.length)) s.length rest :=
            operand_bound hne (Nat.lt_succ_self _) hrest.2
    simp only
    rw [← hinner]
    refine h.ask (size_lt_of_length hrest.2) ?_ ?_
    · intro e he
      rw [he]
    · intro tree after hanswer
      rw [hanswer]
      exact .done _

theorem ends_parenthesised (h : AnsweredBelow ops (.primary s)) (hr : Behind s r) :
    Ends ops ((primary s).size ops) (planHere ops ('(' :: r))
      (parenthesised (formula ops s.length) r) := by
  have hinner : (chain ops.levels r).answer ops = formula ops s.length r :=
    formula_depth (Nat.lt_succ_self _) hr.2 r List.suffix_rfl
  rw [planHere, parenthesised, ← hinner]
  refine h.ask (size_lt_of_length hr.2) ?_ ?_
  · intro e he
    rw [he]
  · intro tree rest hanswer
    rw [hanswer]
    rcases begins_or ')' (skipSpace rest) with ⟨after, hafter⟩ | hclosing
    · simp only [hafter]
      exact .done _
    -- the plan and the reader take the same branch, for the same reason `hclosing`
    · simp only
      exact .done _

theorem ends_named (h : AnsweredBelow ops (.primary s)) (ht : t <:+ s) :
    Ends ops ((primary s).size ops) (planNamed ops t) (named ops (formula ops s.length) t) := by
  rw [planNamed, named]
  cases hname : name? t with
  | none => exact .done _
  | some found =>
    obtain ⟨name, rest⟩ := found
    by_cases hreserved : ops.reserves name
    · simp only [hreserved, if_true]
      exact .done _
    · simp only [hreserved, Bool.false_eq_true, if_false]
      rcases begins_or '(' (skipSpace rest) with ⟨args, hargs⟩ | hopening
      · have hbehind : Behind s args :=
          .of_suffix ht ((behind_of_name? hname).trans (behind_of_skipSpace hargs))
        simp only [hargs]
        refine h.pass (size_lt_of_length hbehind.2) ?_
        exact call_alike (formula_consumes ops _)
          (formula_depth (Nat.lt_succ_self _) hbehind.2) name args List.suffix_rfl
      · simp only
        exact .done _

/-- What does not begin with a parenthesis begins with a token. -/
theorem planHere_token (hopening : ∀ rest, s ≠ '(' :: rest) :
    planHere ops s = match piece? s with
      | .error e => .done (.error e)
      | .ok (some (first, rest)) => .pass (.pieces first rest)
      | .ok none => match number? s with
        | .error e => .done (.error e)
        | .ok (some (value, rest)) => .done (.ok (.literal value, rest))
        | .ok none => planNamed ops s := by
  unfold planHere
  split
  · next rest => exact absurd rfl (hopening rest)
  · rfl

theorem answered_primary (h : AnsweredBelow ops (.primary s)) : (primary s).Answered ops := by
  have hskip := skipSpace_suffix s
  have hanswer : (primary s).answer ops =
      primaryHere ops (formula ops s.length) (skipSpace s) := rfl
  rw [Answered, plan, hanswer]
  rcases begins_or '(' (skipSpace s) with ⟨rest, hrest⟩ | hopening
  · rw [hrest]
    exact ends_parenthesised h (behind_of_skipSpace hrest)
  · rw [planHere_token hopening, primaryHere_token ops _ hopening, text?]
    cases hpiece : piece? (skipSpace s) with
    | error e => exact .done _
    | ok found =>
      cases found with
      | some found =>
        obtain ⟨first, rest⟩ := found
        have hlength := piece?_length hpiece
        have hle := hskip.length_le
        refine h.pass (size_lt_of_length (Nat.lt_of_lt_of_le hlength hle)) ?_
        rw [answer]
        simp only
        cases morePieces rest.length first rest with
        | error e => rfl
        | ok found => rfl
      | none =>
        simp only
        cases number? (skipSpace s) with
        | error e => exact .done _
        | ok found =>
          cases found with
          | some found => exact .done _
          | none => exact ends_named h hskip

theorem answered_pieces {read : List Char} (h : AnsweredBelow ops (.pieces read s)) :
    (pieces read s).Answered ops := by
  have hskip := skipSpace_length_le s
  rw [Answered, plan, answer, morePieces_bound (Nat.le_refl _) (Nat.le_succ _), morePieces]
  cases hpiece : piece? (skipSpace s) with
  | error e => exact .done _
  | ok found =>
    cases found with
    | none => exact .done _
    | some found =>
      obtain ⟨piece, rest⟩ := found
      have hshorter : rest.length < s.length := by
        have hlength := piece?_length hpiece
        omega
      refine h.pass (size_lt_of_length hshorter) ?_
      rw [answer, morePieces_bound (Nat.le_refl _) (Nat.le_of_lt hshorter)]

theorem answered_call {name : String} (h : AnsweredBelow ops (.call name s)) :
    (call name s).Answered ops := by
  rw [Answered, plan, answer, Formula.call]
  rcases begins_or ')' (skipSpace s) with ⟨rest, hrest⟩ | hclosing
  · simp only [hrest]
    exact .done _
  · have hlength := (skipSpace_suffix s).length_le
    simp only
    refine h.pass (size_lt_of_rank hlength (Nat.lt_succ_self _)) ?_
    rw [answer, arguments_depth (Nat.lt_succ_self _) (Nat.lt_succ_of_le hlength)]
    rfl

theorem answered_arguments {name : String} {args : List Tree}
    (h : AnsweredBelow ops (.arguments name args s)) : (arguments name args s).Answered ops := by
  rw [Answered, plan, answer, Formula.arguments]
  refine h.ask (size_lt_of_rank (Nat.le_refl _) (Nat.lt_succ_self _)) ?_ ?_
  · intro e he
    have hformula : formula ops (s.length + 1) s = .error e := he
    rw [hformula]
  · intro arg rest hanswer
    have hformula : formula ops (s.length + 1) s = .ok (arg, rest) := hanswer
    rw [hformula]
    have hrest : Behind s rest := formula_consumes ops _ _ _ _ hformula
    rcases begins_or ',' (skipSpace rest) with ⟨after, hafter⟩ | hcomma
    · have hbehind : Behind s after := hrest.trans (behind_of_skipSpace hafter)
      have hargs : Formula.arguments (formula ops (after.length + 1)) (after.length + 1) after =
          Formula.arguments (formula ops (s.length + 1)) s.length after := by
        rw [arguments_depth (Nat.lt_succ_self _) (Nat.lt_succ_of_lt hbehind.2)]
        exact arguments_bound (formula_consumes ops _) (Nat.lt_succ_self _) hbehind.2
      simp only [hafter]
      refine h.pass (size_lt_of_length hbehind.2) ?_
      rw [answer, hargs]
      cases Formula.arguments (formula ops (s.length + 1)) s.length after with
      | error e => rfl
      | ok found => simp only [List.append_assoc, List.singleton_append]
    · rcases begins_or ')' (skipSpace rest) with ⟨after, hafter⟩ | hclosing
      · simp only [hafter]
        exact .done _
      · simp only
        exact .done _

/-- **Every plan ends, and with the answer of the reader.** -/
theorem answered_all (hne : "" ∉ ops.unary) (request : Request) : request.Answered ops := by
  induction request using (wellFounded_size ops).induction with | _ request ih
  have hbelow : AnsweredBelow ops request := ih
  cases request with
  | chain => exact answered_chain hbelow
  | more => exact answered_more hbelow
  | operand => exact answered_operand hne hbelow
  | primary => exact answered_primary hbelow
  | pieces => exact answered_pieces hbelow
  | call => exact answered_call hbelow
  | arguments => exact answered_arguments hbelow

/-- Where a unary operator stands that takes nothing off the text, no operand comes to an end: the
same operand is asked for again. -/
theorem not_ends_operand {op : String} (hop : longestMatch ops.unary (skipSpace s) = some (op, s))
    (result : Read) :
    ¬ Ends ops ((operand s).size ops) ((operand s).plan ops) result := by
  intro h
  rw [plan, hop] at h
  cases h with
  | failed smaller _ => exact lt_irrefl _ smaller
  | answered smaller _ _ => exact lt_irrefl _ smaller

end Request

/-! ## What is left over -/

theorem suffix_of_piece? {piece : List Char} (h : piece? s = .ok (some (piece, r))) : r <:+ s := by
  obtain ⟨q, -, -, rfl⟩ := piece?_eq_some_iff.mp h
  exact ⟨q :: piece ++ [q], by simp⟩

theorem suffix_of_morePieces {read all : List Char} (h : morePieces fuel read s = .ok (all, r)) :
    r <:+ s := by
  induction fuel generalizing read s with
  | zero =>
    cases h
    exact List.suffix_rfl
  | succ fuel ih =>
    rw [morePieces] at h
    split at h
    · cases h
    · cases h
      exact List.suffix_rfl
    · next hpiece => exact (ih h).trans ((suffix_of_piece? hpiece).trans (skipSpace_suffix s))

theorem morePieces_failsWithin (fuel : Nat) (read : List Char) :
    FailsWithin (morePieces fuel read) := by
  induction fuel generalizing read with
  | zero =>
    intro s e h
    cases h
  | succ fuel ih =>
    intro s e h
    rw [morePieces] at h
    split at h
    · next herror =>
      cases h
      exact (piece?_eq_error herror).1 ▸ skipSpace_suffix s
    · cases h
    · next hpiece =>
      exact (ih _).behind h ((suffix_of_piece? hpiece).trans (skipSpace_suffix s))

namespace Request

/-- What is left over behind an answer is the end of the text, and less than the text unless
something was read before. -/
theorem answer_suffix {request : Request} {tree : Tree}
    (h : request.answer ops = .ok (tree, r)) :
    r <:+ request.text ∧ (request.mayEnd = false → r.length < request.text.length) := by
  have hformula : ∀ d, Consumes (formula ops d) := formula_consumes ops
  have hchain : ∀ d levels, Consumes (Formula.chain ops (operandAt ops d) levels) :=
    fun d => chain_consumes (operandAt_consumes ops d)
  cases request with
  | chain levels s =>
    have hr : Behind s r := hchain _ levels _ _ _ h
    exact ⟨hr.1, fun _ => hr.2⟩
  | more precedence tighter left s => exact ⟨suffix_of_more (hchain _ tighter) h, nofun⟩
  | operand s =>
    have hr : Behind s r := operandAt_consumes ops _ _ _ _ h
    exact ⟨hr.1, fun _ => hr.2⟩
  | primary s =>
    have hr : Behind s r := primary_consumes (hformula _) _ _ _ h
    exact ⟨hr.1, fun _ => hr.2⟩
  | pieces read s =>
    rw [answer] at h
    split at h
    · cases h
    · next hpieces =>
      cases h
      exact ⟨suffix_of_morePieces hpieces, nofun⟩
  | call name s =>
    have hr : Behind s r := call_consumes (hformula _) name _ _ _ h
    exact ⟨hr.1, fun _ => hr.2⟩
  | arguments name args s =>
    rw [answer] at h
    split at h
    · cases h
    · next hargs =>
      cases h
      have hr : Behind s r := arguments_consumes (hformula _) _ _ _ _ hargs
      exact ⟨hr.1, fun _ => hr.2⟩

/-- A failure is at a place of the text. -/
theorem answer_failsWithin {request : Request} {e : Failure}
    (h : request.answer ops = .error e) : e.rest <:+ request.text := by
  have hformula : ∀ d, FailsWithin (formula ops d) := formula_failsWithin ops
  have hchain : ∀ d levels, FailsWithin (Formula.chain ops (operandAt ops d) levels) := fun d =>
    chain_failsWithin (operandAt_failsWithin (hformula d)) (operandAt_consumes ops d)
  cases request with
  | chain levels s => exact hchain _ levels _ _ h
  | more precedence tighter left s =>
    exact more_failsWithin (hchain _ tighter) (chain_consumes (operandAt_consumes ops _) tighter)
      _ _ _ _ _ h
  | operand s => exact operandAt_failsWithin (hformula _) _ _ h
  | primary s => exact primary_failsWithin (hformula _) (formula_consumes ops _) _ _ h
  | pieces read s =>
    rw [answer] at h
    split at h
    · next herror =>
      cases h
      exact morePieces_failsWithin _ _ _ _ herror
    · cases h
  | call name s => exact call_failsWithin (hformula _) (formula_consumes ops _) name _ _ h
  | arguments name args s =>
    rw [answer] at h
    split at h
    · next herror =>
      cases h
      exact arguments_failsWithin (hformula _) (formula_consumes ops _) _ _ _ herror
    · cases h

end Request

/-- The subtraction in the position of an error leaves nothing out. -/
theorem position_add_byteLength {text : String} {e : ParseError} (h : parse ops text = .error e) :
    ∃ failure, read ops text.toList = .error failure ∧ failure.rest <:+ text.toList ∧
      e.position + byteLength failure.rest = text.utf8ByteSize ∧ e.cause = failure.cause := by
  obtain ⟨before, failure, htext, hread, rfl⟩ := exists_before_error h
  refine ⟨failure, hread, ⟨before, htext.symm⟩, ?_, rfl⟩
  rw [← byteLength_append, ← htext, byteLength_toList]

/-- **The reader comes down.**  Unless a unary operator is empty, what the reader does with a
request ends with its answer and in no other way, and every request that comes up has less text, or
the same text further inside.  Behind an answer is the end of the text, and less than the text; a
failure is at a place of it, so that the position of an error is a difference of lengths. -/
theorem reader_comes_down (ops : Operators) (hne : "" ∉ ops.unary) :
    (∀ (request : Request) (result : Read),
      Ends ops (request.size ops) (request.plan ops) result ↔ result = request.answer ops) ∧
    (∀ (request : Request) (tree : Tree) (rest : List Char),
      request.answer ops = .ok (tree, rest) → rest <:+ request.text ∧
        (request.mayEnd = false → rest.length < request.text.length)) ∧
    (∀ (request : Request) (failure : Failure),
      request.answer ops = .error failure → failure.rest <:+ request.text) ∧
    (∀ s d, s.length < d → formula ops d s = (Request.chain ops.levels s).answer ops) ∧
    ∀ text e, parse ops text = .error e →
      ∃ failure, read ops text.toList = .error failure ∧ failure.rest <:+ text.toList ∧
        e.position + byteLength failure.rest = text.utf8ByteSize ∧ e.cause = failure.cause := by
  refine ⟨?_, ?_, ?_, ?_, ?_⟩
  · intro request result
    have hanswer := Request.answered_all hne request
    constructor
    · intro h
      exact h.eq hanswer
    · rintro rfl
      exact hanswer
  · intro request tree rest h
    exact Request.answer_suffix h
  · intro request failure h
    exact Request.answer_failsWithin h
  · intro s d hd
    exact formula_depth hd (Nat.lt_succ_self _) s List.suffix_rfl
  · intro text e h
    exact position_add_byteLength h

/-- The usual table with an operator between operands that follow each other. -/
private def juxtaposed : Operators := Operators.default.addBinary "" 4

/-- Two operands without an operator between them, and a name that is left over: an operator that is
empty stands before no letter. -/
theorem reader_comes_down_juxtaposed :
    "" ∉ juxtaposed.unary ∧ "" ∈ juxtaposed.keys ∧
      Ends juxtaposed ((Request.chain juxtaposed.levels "a 'b' x".toList).size juxtaposed)
        ((Request.chain juxtaposed.levels "a 'b' x".toList).plan juxtaposed)
        (.ok (.operator "" [.name "a", .literal (.text "b")], " x".toList)) ∧
      parse juxtaposed "a 'b' x" = .error ⟨6, .operatorExpected "x"⟩ ∧
      ∃ failure, read juxtaposed "a 'b' x".toList = .error failure ∧
        6 + byteLength failure.rest = "a 'b' x".utf8ByteSize := by
  have hne : "" ∉ juxtaposed.unary := by decide
  have hparse : parse juxtaposed "a 'b' x" = .error ⟨6, .operatorExpected "x"⟩ := rfl
  obtain ⟨hends, -, -, -, hposition⟩ := reader_comes_down juxtaposed hne
  obtain ⟨failure, hread, -, hsum, -⟩ := hposition _ _ hparse
  exact ⟨hne, by decide, (hends _ _).mpr rfl, hparse, failure, hread, hsum⟩

end QuerySteps.Formula
