import QuerySteps.Proofs.Formula.AbsentOperators

/-!
# Words of any script as operators

A word that is added to the usual operators is looked for in two ways.  Names are refused that have
its upper case, in the upper case of Unicode; so every spelling of the word is reserved
(`reserves_of_upper_eq`).  The operator itself is found where the text differs from its upper case in
the case of ASCII letters only (`Spells`).

For words of ASCII letters this is the same (`spells_of_isAlpha`).  Beyond ASCII it is not: `parse_word`
says for every word and each of its spellings what becomes of a formula with the spelling between two
names.  It is the operator over the names if the spelling differs from the upper case in ASCII letters
only; all other spellings are neither operators nor names, and the formula ends before them.

A spelling need not be a word itself: the upper case of some letters is a letter with a mark behind
it.  It still begins with a letter, and no mark in it stands where an OR, AND or LIKE could end
(`marked_of_upper_eq`), so that it is not taken for one of the usual operators.
-/

namespace QuerySteps.Formula

open Text (isLetter isBlank skipSpace trimStart byteLength upper upperChar toList_upper upper_upper
  flatMap_upperChar_eq_nil byteLength_append Marked carriesMark marked_flatMap_upperChar
  upperChar_of_not_isLetter)

variable {ops : Operators} {a b v w : String} {k r x : List Char} {p d : Nat}

/-! ## Spellings -/

/-- A word in any spelling has the marks of the upper case of a word. -/
theorem marked_of_upper_eq (hword : isWord w ∨ isWord v) (hupper : upper v = upper w) :
    Marked (v.toList.flatMap upperChar) := by
  rcases hword with hw | hv
  · rw [← toList_upper, hupper, toList_upper]
    exact marked_flatMap_upperChar (List.all_eq_true.mp hw)
  · exact marked_flatMap_upperChar (List.all_eq_true.mp hv)

/-- A spelling begins with a letter. -/
theorem head_of_marked (hne : v ≠ "") (hv : Marked (v.toList.flatMap upperChar)) :
    ∃ c rest, v.toList = c :: rest ∧ isLetter c := by
  cases hs : v.toList with
  | nil => exact absurd (String.toList_injective hs) hne
  | cons c rest =>
    refine ⟨c, rest, rfl, ?_⟩
    cases hc : isLetter c with
    | true => rfl
    | false =>
      rw [hs, List.flatMap_cons, upperChar_of_not_isLetter hc] at hv
      rw [hv.head c rfl] at hc
      cases hc

/-- White space before a spelling is skipped, and nothing of the spelling. -/
theorem skipSpace_word (hne : v ≠ "") (hv : Marked (v.toList.flatMap upperChar)) (k : List Char) :
    skipSpace (' ' :: (v.toList ++ k)) = v.toList ++ k := by
  obtain ⟨c, rest, hs, hc⟩ := head_of_marked hne hv
  rw [skipSpace_cons_blank, hs, List.cons_append]
  exact skipSpace_cons_of_not_isSpace (isSpace_of_isNameChar (isNameChar_of_isLetter hc)) _

theorem trimStart_word (hne : v ≠ "") (hv : Marked (v.toList.flatMap upperChar)) (k : List Char) :
    trimStart (' ' :: (v.toList ++ k)) = v.toList ++ k := by
  obtain ⟨c, rest, hs, hc⟩ := head_of_marked hne hv
  have hblank : isBlank ' ' = true := rfl
  simp [trimStart, hs, hblank, isBlank_of_isLetter hc]

/-- Every spelling of a word is reserved by it. -/
theorem reserves_of_upper_eq (hw : isWord w) (h : upper v = upper w) (p : Nat) :
    (ops.addBinary w p).reserves v = true := by
  simp [Operators.reserves, Operators.addBinary, canonical, hw, h]

/-- Of a word of ASCII letters, every spelling in ASCII letters is recognised. -/
theorem spells_of_isAlpha (hw : ∀ c ∈ w.toList, c.isAlpha) (hv : ∀ c ∈ v.toList, c.isAlpha)
    (h : upper v = upper w) : Spells (canonical w) v.toList := by
  have hword : isWord w := List.all_eq_true.mpr fun c hc => isLetter_of_isAlpha (hw c hc)
  have hletters : ∀ c ∈ (upper w).toList, c.isUpper := by
    rw [toList_upper_of_isAlpha hw]
    intro c hc
    obtain ⟨d, hd, rfl⟩ := List.mem_map.mp hc
    exact isUpper_toUpper_iff.mpr (hw d hd)
  rw [canonical, if_pos hword, Spells, if_pos (isWord_of_letters hletters)]
  calc v.toList.map Char.toUpper
      = (upper w).toList := by rw [← toList_upper_of_isAlpha hv, h]
    _ = (upper w).toList.map id := (List.map_id _).symm
    _ = (upper w).toList.map Char.toUpper :=
        List.map_congr_left fun c hc => (toUpper_of_isUpper (hletters c hc)).symm

/-- Two texts of one upper case at the front of a text are the same. -/
theorem eq_of_upper_eq {u : List Char} (hs : u ++ k = x ++ r)
    (hupper : u.flatMap upperChar = x.flatMap upperChar) : u = x := by
  rcases List.append_eq_append_iff.mp hs with ⟨y, rfl, -⟩ | ⟨y, rfl, -⟩
  · rw [List.flatMap_append] at hupper
    obtain rfl := flatMap_upperChar_eq_nil.mp (List.self_eq_append_right.mp hupper)
    simp
  · rw [List.flatMap_append] at hupper
    obtain rfl := flatMap_upperChar_eq_nil.mp (List.append_right_eq_self.mp hupper)
    simp

/-- Where a spelling of a word stands, the word is recognised if the spelling differs from it in
ASCII letters only, and nothing else is taken for it. -/
theorem stripOperator_word (hupper : upper v = upper w)
    (hk : continuesName k = false) :
    stripOperator (canonical w) (v.toList ++ k) =
      if Spells (canonical w) v.toList then some k else none := by
  split
  · next hspells => exact stripOperator_eq_some_iff.mpr ⟨v.toList, rfl, hspells, fun _ => hk⟩
  · next hspells =>
    rw [Option.eq_none_iff_forall_ne_some]
    intro rest hstrip
    obtain ⟨x, hs, hx, -⟩ := stripOperator_eq_some_iff.mp hstrip
    have hsame : v.toList.flatMap upperChar = x.flatMap upperChar := by
      rw [← toList_upper, hupper]
      rcases eq_or_upper_of_spells hx with rfl | hx
      · rw [toList_upper]
      · exact hx.symm
    obtain rfl := eq_of_upper_eq hs hsame
    exact hspells hx

/-! ## The operators of the table -/

/-- OR, AND and LIKE end in letters that carry no mark. -/
private theorem last_of_default {op : String} (hop : op ∈ Operators.default.keys)
    (hword : isWord op) {c : Char} (hc : op.toList.getLast? = some c) :
    carriesMark c.toNat = false := by
  have hall : (Operators.default.keys.all fun op =>
      !isWord op || op.toList.getLast?.all fun c => !carriesMark c.toNat) = true := by decide
  have hlast := List.all_eq_true.mp hall op hop
  simpa [hword, hc] using hlast

/-- In a spelling, what comes behind OR, AND or LIKE is a letter. -/
private theorem isLetter_behind_default {op : String} (hop : op ∈ Operators.default.keys)
    (hword : isWord op) (nonempty : op.toList ≠ []) (hx : x.flatMap upperChar = op.toList) {m : Char}
    (hv : Marked ((x ++ m :: k).flatMap upperChar)) : isLetter m := by
  cases hm : isLetter m with
  | true => rfl
  | false =>
    rw [List.flatMap_append, List.flatMap_cons, hx, upperChar_of_not_isLetter hm] at hv
    have hlast := List.getLast?_eq_some_getLast nonempty
    rcases (List.isChain_append.mp hv.chain).2.2 _ hlast m rfl with hcarries | hletter
    · rw [last_of_default hop hword hlast] at hcarries
      cases hcarries
    · rw [hm] at hletter
      cases hletter

private theorem flatMap_upperChar_of_spells {op : String} (letters : ∀ c ∈ op.toList, c.isUpper)
    (hx : Spells op x) : x.flatMap upperChar = op.toList := by
  have halpha := isAlpha_of_spells letters hx
  have hlist := toList_upper_of_isAlpha (s := String.ofList x) (by simpa using halpha)
  rwa [toList_upper, String.toList_ofList, map_toUpper_of_spells letters hx] at hlist

/-- Where a spelling that is no usual operator begins with the letters of one, they run on into a
name: the operator cannot take in the blank behind the spelling, nor end inside it. -/
private theorem continuesName_behind_default {op : String} (hop : op ∈ Operators.default.keys)
    (nonempty : op.toList ≠ []) (letters : ∀ c ∈ op.toList, c.isUpper)
    (hv : Marked (v.toList.flatMap upperChar)) (hfree : Operators.default.reserves v = false)
    (hs : v.toList ++ ' ' :: k = x ++ r) (hx : Spells op x) : continuesName r = true := by
  have hword := isWord_of_letters letters
  have hupper := flatMap_upperChar_of_spells letters hx
  have hnot : v.toList ≠ x := by
    intro heq
    have hvop : upper v = op := by
      apply String.toList_injective
      rw [toList_upper, heq, hupper]
    obtain ⟨p, -, hp⟩ := Operators.lookup_of_mem_keys hop
    simp [Operators.reserves, hvop, hp] at hfree
  rcases List.append_eq_append_iff.mp hs with ⟨y, hy, hblank⟩ | ⟨y, hy, hrest⟩
  · cases y with
    | nil => exact absurd (by simpa using hy.symm) hnot
    | cons c y =>
      obtain ⟨rfl, -⟩ := List.cons.inj hblank
      exact absurd (isAlpha_of_spells letters hx ' ' (by simp [hy])) (by decide)
  · cases y with
    | nil => exact absurd (by simpa using hy) hnot
    | cons m y =>
      rw [hy] at hv
      rw [hrest]
      exact isNameChar_of_isLetter (isLetter_behind_default hop hword nonempty hupper hv)

/-- Spellings that are not usual operators are not taken for one. -/
private theorem default_of_word (hne : v ≠ "") (hv : Marked (v.toList.flatMap upperChar))
    (hfree : Operators.default.reserves v = false) (k : List Char) :
    longestMatch Operators.default.keys (v.toList ++ ' ' :: k) = none := by
  rw [longestMatch_eq_none_iff]
  intro op hop
  rw [Option.eq_none_iff_forall_ne_some]
  intro rest hstrip
  obtain ⟨x, hs, hx, hends⟩ := stripOperator_eq_some_iff.mp hstrip
  cases Operators.ExtendsDefault.usual.regular.binary op hop with
  | marks nonempty marks =>
    obtain ⟨c, cs, hv', hc⟩ := head_of_marked hne hv
    obtain ⟨m, ms, hop'⟩ := List.exists_cons_of_ne_nil nonempty
    rw [eq_of_spells_marks nonempty marks hx, hop', hv'] at hs
    obtain rfl : c = m := (List.cons.inj hs).1
    rw [isLetter_of_isMark (marks c (by simp [hop']))] at hc
    cases hc
  | word nonempty letters =>
    have hcontinues := continuesName_behind_default hop nonempty letters hv hfree hs hx
    rw [hends (isWord_of_letters letters)] at hcontinues
    cases hcontinues

/-- Behind a blank, a spelling of an added word is the next operator or none is. -/
private theorem next?_word (hne : v ≠ "") (hv : Marked (v.toList.flatMap upperChar))
    (hfree : Operators.default.reserves w = false) (hupper : upper v = upper w) (k : List Char) :
    (Operators.default.addBinary w p).next? (' ' :: (v.toList ++ ' ' :: k)) =
      if Spells (canonical w) v.toList then some (canonical w, ' ' :: k) else none := by
  have hothers : longestMatch (Operators.default.keys.filter (· != canonical w))
      (v.toList ++ ' ' :: k) = none := by
    have hfree' : Operators.default.reserves v = false := by
      rwa [Operators.reserves, hupper]
    have hnone := longestMatch_eq_none_iff.mp (default_of_word hne hv hfree' k)
    rw [longestMatch_eq_none_iff]
    intro op hop
    exact hnone op (List.mem_filter.mp hop).1
  rw [Operators.next?, skipSpace_word hne hv, keys_addBinary, longestMatch,
    stripOperator_word hupper rfl, hothers]
  by_cases hspells : Spells (canonical w) v.toList
  · rw [if_pos hspells, if_pos hspells]
  · rw [if_neg hspells, if_neg hspells]

/-- Nothing comes next at the end of a text. -/
private theorem next?_end (hne : w ≠ "") (p : Nat) :
    (Operators.default.addBinary w p).next? [] = none := by
  change longestMatch (Operators.default.addBinary w p).keys [] = none
  rw [keys_addBinary, longestMatch_eq_none_iff]
  intro op hop
  rcases List.mem_cons.mp hop with rfl | hop
  · rw [Option.eq_none_iff_forall_ne_some]
    intro rest hstrip
    obtain ⟨x, hs, hx, -⟩ := stripOperator_eq_some_iff.mp hstrip
    obtain ⟨rfl, -⟩ : x = [] ∧ rest = [] := by simpa using hs
    rcases eq_or_upper_of_spells hx with hnil | hnil
    · exact hne (String.toList_injective hnil.symm)
    · rw [toList_upper] at hnil
      exact hne (String.toList_injective (flatMap_upperChar_eq_nil.mp hnil.symm))
  · exact stripOperator_nil
      (Operators.ExtendsDefault.usual.regular.binary op (List.mem_filter.mp hop).1)

/-- The names of the table are read as operands. -/
private theorem operand_name_added {f : List Char → Read} {fuel : Nat}
    (h : IsName (Operators.default.addBinary w p) a) (hk : continuesName k = false)
    (hopening : ∀ args, skipSpace k ≠ '(' :: args) :
    operand (Operators.default.addBinary w p) (primary (Operators.default.addBinary w p) f)
      (fuel + 1) (a.toList ++ k) = .ok (.name a, k) := by
  have hfree : IsName .default a := by
    refine ⟨h.spelled, ?_⟩
    have hall := h.free
    by_cases heq : upper a = canonical w
    · simp [Operators.reserves, Operators.addBinary, heq] at hall
    · rw [Operators.reserves, lookup_addBinary_of_ne heq] at hall
      exact hall
  have hunary : longestMatch (Operators.default.addBinary w p).unary (a.toList ++ k) = none :=
    unary_of_isName Operators.ExtendsDefault.usual.regular hfree hk
  rw [operand_of_name h hunary hk]
  split
  · next args hargs => exact absurd hargs (hopening args)
  · rfl

/-! ## The formula -/

/-- Without any condition on the operators: an operand, the links behind it and nothing to go on. -/
theorem formula_of_links {first : Tree} {s rest : List Char} {links : List Link}
    (hfirst : operandAt ops d s = .ok (first, rest))
    (hlinks : Links ops (operandAt ops d) ops.levels rest links k) (hk : ops.next? k = none) :
    formula ops (d + 1) s = .ok (splitTree ops.precedence first links, k) := by
  have hadvances : Advances (operandAt ops d) :=
    fun s tree r h => (operandAt_consumes ops d s tree r h).2
  rw [formula_succ, chain_eq_ok_iff hadvances ops.levels_ordered]
  exact ⟨first, rest, links, hfirst, hlinks, Operators.halts_levels_iff.mpr hk, rfl⟩

private theorem splitTree_single (first : Tree) (link : Link) :
    splitTree ops.precedence first [link] = .operator link.op [first, link.operand] := by
  have hsplit := @splitTree_split ops.precedence first [] [] link (by simp) (by simp)
  simpa using hsplit

/-- The name before a spelling is an operand at every depth, and no call. -/
private theorem operandAt_before_word (hvne : v ≠ "") (hv : Marked (v.toList.flatMap upperChar))
    (ha : IsName (Operators.default.addBinary w p) a) (k : List Char) (d : Nat) :
    operandAt (Operators.default.addBinary w p) d (a.toList ++ ' ' :: (v.toList ++ k)) =
      .ok (.name a, ' ' :: (v.toList ++ k)) := by
  refine operand_name_added ha rfl ?_
  intro args hargs
  obtain ⟨c, rest, hs, hc⟩ := head_of_marked hvne hv
  rw [skipSpace_word hvne hv, hs] at hargs
  cases hargs
  cases hc

/-- So is the name behind it, where the text ends. -/
private theorem operandAt_behind_word (hb : IsName (Operators.default.addBinary w p) b) (d : Nat) :
    operandAt (Operators.default.addBinary w p) d (' ' :: b.toList) = .ok (.name b, []) := by
  have hname := @operand_name_added b w [] p (formula (Operators.default.addBinary w p) d)
    (' ' :: b.toList).length hb rfl (fun args h => by cases h)
  rw [List.append_nil] at hname
  rwa [operandAt, operand_blank]

private theorem read_word (hne : w ≠ "") (hvne : v ≠ "")
    (hfree : Operators.default.reserves w = false)
    (hv : Marked (v.toList.flatMap upperChar)) (hupper : upper v = upper w)
    (ha : IsName (Operators.default.addBinary w p) a)
    (hb : IsName (Operators.default.addBinary w p) b) :
    read (Operators.default.addBinary w p) (a.toList ++ ' ' :: (v.toList ++ ' ' :: b.toList)) =
      if Spells (canonical w) v.toList then .ok (.operator (canonical w) [.name a, .name b])
      else .error ⟨v.toList ++ ' ' :: b.toList,
        .operatorExpected (String.ofList (v.toList ++ ' ' :: b.toList))⟩ := by
  have hnext := next?_word (p := p) hvne hv hfree hupper b.toList
  have hfirst := operandAt_before_word hvne hv ha (' ' :: b.toList)
  by_cases hspells : Spells (canonical w) v.toList
  · rw [if_pos hspells, read_eq_ok_iff]
    rw [if_pos hspells] at hnext
    have hprecedence : (Operators.default.addBinary w p).binary.lookup (canonical w) = some p := by
      simp [Operators.addBinary]
    have hlevel : p ∈ (Operators.default.addBinary w p).levels :=
      Operators.mem_levels.mpr ⟨canonical w, List.mem_cons_self⟩
    have hformula := fun d => formula_of_links (hfirst d)
      (.link hnext hprecedence hlevel (operandAt_behind_word hb d) (.done [])) (next?_end hne p)
    simp only [splitTree_single] at hformula
    exact ⟨[], hformula _, by simp⟩
  · rw [if_neg hspells]
    rw [if_neg hspells] at hnext
    have hformula := fun d => formula_of_links (hfirst d) (.done _) hnext
    simp only [splitTree_nil] at hformula
    obtain ⟨c, rest, hs, -⟩ := head_of_marked hvne hv
    have htrim := trimStart_word hvne hv (' ' :: b.toList)
    rw [hs, List.cons_append] at htrim hformula
    simp only [read, hs, List.cons_append, hformula, htrim]

/-- **A word between two names.**  A spelling of a word that was added to the usual operators is the
operator exactly if it differs from the upper case of the word in the case of ASCII letters only;
the formula is refused before any other spelling. -/
theorem parse_word (hne : w ≠ "") (hfree : Operators.default.reserves w = false) (p : Nat)
    (hword : isWord w ∨ isWord v) (hupper : upper v = upper w)
    (ha : IsName (Operators.default.addBinary w p) a)
    (hb : IsName (Operators.default.addBinary w p) b) :
    parse (Operators.default.addBinary w p) (a ++ " " ++ v ++ " " ++ b) =
      if Spells (canonical w) v.toList then .ok (.operator (canonical w) [.name a, .name b])
      else .error ⟨byteLength (a ++ " ").toList, .operatorExpected (v ++ " " ++ b)⟩ := by
  have hvne : v ≠ "" := by
    rintro rfl
    have hnil := congrArg String.toList hupper
    rw [toList_upper, toList_upper] at hnil
    exact hne (String.toList_injective (flatMap_upperChar_eq_nil.mp hnil.symm))
  have htext : (a ++ " " ++ v ++ " " ++ b).toList =
      a.toList ++ ' ' :: (v.toList ++ ' ' :: b.toList) := by simp
  have hrest : String.ofList (v.toList ++ ' ' :: b.toList) = v ++ " " ++ b := by
    apply String.toList_injective
    simp
  have hposition : byteLength (a.toList ++ ' ' :: (v.toList ++ ' ' :: b.toList)) -
      byteLength (v.toList ++ ' ' :: b.toList) = byteLength (a ++ " ").toList := by
    have hsplit : a.toList ++ ' ' :: (v.toList ++ ' ' :: b.toList) =
        (a ++ " ").toList ++ (v.toList ++ ' ' :: b.toList) := by simp
    rw [hsplit, byteLength_append]
    omega
  rw [parse, htext, read_word hne hvne hfree (marked_of_upper_eq hword hupper) hupper ha hb]
  split
  · next e he =>
    split at he
    · cases he
    · next hspells =>
      cases he
      rw [if_neg hspells, Failure.toError, hposition, hrest]
  · next tree htree =>
    split at htree
    · next hspells =>
      cases htree
      rw [if_pos hspells]
    · cases htree

private theorem isName_single (a w : String) {c : Char} (h : a.toList = [c]) (hc : startsName c)
    (hfree : (Operators.default.addBinary w 3).reserves a = false) :
    IsName (Operators.default.addBinary w 3) a :=
  ⟨⟨c, [], h, hc, fun _ h => (List.not_mem_nil h).elim⟩, hfree⟩

/-- A letter beyond ASCII in its two cases, and one whose upper case has a mark. -/
theorem parse_word_accented :
    Operators.default.reserves "é" = false ∧ isWord "É" ∧ isWord "é" ∧ upper "É" = upper "é" ∧
      IsName (Operators.default.addBinary "é" 3) "a" ∧
      IsName (Operators.default.addBinary "é" 3) "b" ∧
      parse (Operators.default.addBinary "é" 3) "a É b" =
        .ok (.operator "É" [.name "a", .name "b"]) ∧
      parse (Operators.default.addBinary "é" 3) "a é b" = .error ⟨2, .operatorExpected "é b"⟩ ∧
      isWord "j\u030c" = false ∧ upper "j\u030c" = upper "\u01f0" ∧
      parse (Operators.default.addBinary "\u01f0" 3) "a j\u030c b" =
        .error ⟨2, .operatorExpected "j\u030c b"⟩ := by
  have hfree : Operators.default.reserves "é" = false := by decide
  have hupper : isWord "É" := by decide
  have hlower : isWord "é" := by decide
  have hsame : upper "É" = upper "é" := by decide
  have ha := isName_single "a" "é" rfl (by decide) (by decide)
  have hb := isName_single "b" "é" rfl (by decide) (by decide)
  have hmark : upper "j\u030c" = upper "\u01f0" := by decide +kernel
  have ha' := isName_single "a" "\u01f0" rfl (by decide) (by decide +kernel)
  have hb' := isName_single "b" "\u01f0" rfl (by decide) (by decide +kernel)
  have hfirst := parse_word (by decide) hfree 3 (.inr hupper) hsame ha hb
  have hsecond := parse_word (by decide) hfree 3 (.inr hlower) rfl ha hb
  have hthird := parse_word (by decide) (by decide +kernel) 3 (.inl (by decide +kernel)) hmark
    ha' hb'
  rw [if_pos (by decide)] at hfirst
  rw [if_neg (by decide)] at hsecond
  rw [if_neg (by decide +kernel)] at hthird
  exact ⟨hfree, hupper, hlower, hsame, ha, hb, hfirst, hsecond, by decide +kernel, hmark, hthird⟩

/-- Not every spelling of a word that was added is the operator. -/
theorem exists_spelling_refused :
    ¬ ∀ (w v a b : String) (p : Nat), w ≠ "" → isWord w → Operators.default.reserves w = false →
      upper v = upper w → IsName (Operators.default.addBinary w p) a →
      IsName (Operators.default.addBinary w p) b →
      parse (Operators.default.addBinary w p) (a ++ " " ++ v ++ " " ++ b) =
        .ok (.operator (canonical w) [.name a, .name b]) := by
  intro h
  have ha := isName_single "a" "é" rfl (by decide) (by decide)
  have hb := isName_single "b" "é" rfl (by decide) (by decide)
  have hok := h "é" "é" "a" "b" 3 (by decide) (by decide) (by decide) rfl ha hb
  have herror : parse (Operators.default.addBinary "é" 3) "a é b" =
      .error ⟨2, .operatorExpected "é b"⟩ := rfl
  have htext : "a" ++ " " ++ "é" ++ " " ++ "b" = "a é b" := rfl
  rw [htext, herror] at hok
  cases hok

end QuerySteps.Formula
