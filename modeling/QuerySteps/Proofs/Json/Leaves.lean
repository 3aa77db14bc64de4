import QuerySteps.Json.Writer
import QuerySteps.Proofs.Decimal.ReadBack
import QuerySteps.Proofs.Json.Nesting

/-!
# Scalars as JSON text

Every scalar that JSON can express is read back from its text: the words, the integers that are
kept exactly, the finite doubles and all texts (`Scalar.isCanonical`).  Texts need one lemma for an
escaped character, which covers the seven short escapes, the control characters behind them and the
characters that stand for themselves.  Numbers need to know what follows them, and that is all that
may follow a value inside a compact text (`Json.Stops`).

Whether a double is read back depends on the rounding of the reader (`Json.ReadsBack`).  If it is to
the nearest double, every finite double is (`Json.readsBack_nearest`).
-/

namespace QuerySteps

namespace Json

open Text (skipSpace hex4? isSpace)
open Decimal (digitsOf isDigit_digitsOf digitsOf_ne_nil ofDigits_digitsOf printed)

variable {rounding : Numeral.Rounding} {k : List Char} {fuel depth : Nat}

/-! ## Texts -/

private theorem unit_control : ∀ n < 32,
    (hex4? '0' '0' (hexChar (n / 16)) (hexChar (n % 16))).map Piece.ofUnit =
      some (.char (Char.ofNat n)) := by
  decide

/-- An escaped character is read as the character. -/
theorem pieces?_escape (c : Char) (rest : List Char) :
    pieces? (escape c ++ rest) = (pieces? rest).map fun read => (.char c :: read.1, read.2) := by
  unfold escape
  split
  iterate 7 simp [pieces?, escaped?]; cases pieces? rest <;> rfl
  next hquote hbackslash _ _ _ _ _ =>
    split
    · next hcontrol =>
      have hunit := unit_control c.toNat hcontrol
      rw [Char.ofNat_toNat] at hunit
      obtain ⟨unit, hunit, hpiece⟩ := Option.map_eq_some_iff.mp hunit
      simp [pieces?, hunit, hpiece]; cases pieces? rest <;> rfl
    · next hcontrol =>
      rw [List.singleton_append, pieces?, if_neg hcontrol]
      · cases pieces? rest <;> rfl
      · exact hquote
      · exact fun _ _ _ _ _ h _ => hbackslash h
      · exact fun _ _ h _ => hbackslash h

private theorem pieces?_flatMap_escape (s rest : List Char) :
    pieces? (s.flatMap escape ++ '"' :: rest) = some (s.map .char, rest) := by
  induction s with
  | nil => simp [pieces?]
  | cons c s ih =>
    rw [List.flatMap_cons, List.append_assoc, pieces?_escape, ih]
    rfl

private theorem joined?_map_char (s : List Char) : joined? (s.map .char) = some s := by
  induction s with
  | nil => rfl
  | cons c s ih => simp [joined?, ih]

theorem toList_quote (s : String) (k : List Char) :
    (quote s).toList ++ k = '"' :: (s.toList.flatMap escape ++ '"' :: k) := by
  simp [quote]

/-- **A quoted text is read as the text.** -/
theorem quoted?_quote (s : String) (rest : List Char) :
    quoted? (s.toList.flatMap escape ++ '"' :: rest) = some (some s, rest) := by
  simp [quoted?, pieces?_flatMap_escape, joined?_map_char]

/-! ## What follows a value -/

/-- What follows a value inside a compact text: nothing, a comma or a closing bracket. -/
def Stops (k : List Char) : Prop :=
  ∀ c ∈ k.head?, c = ',' ∨ c = ']' ∨ c = '\x7d'

theorem stops_nil : Stops [] := by
  simp [Stops]

theorem stops_comma (k : List Char) : Stops (',' :: k) := by
  simp [Stops]

theorem stops_bracket (k : List Char) : Stops (']' :: k) := by
  simp [Stops]

theorem stops_brace (k : List Char) : Stops ('\x7d' :: k) := by
  simp [Stops]

private theorem ends_of_stops (hk : Stops k) : Numeral.Ends k := by
  intro c hc
  obtain rfl | rfl | rfl := hk c hc <;> decide

private theorem startsExponent_of_stops (hk : Stops k) : startsExponent k = false := by
  cases k with
  | nil => rfl
  | cons c k => obtain rfl | rfl | rfl := hk c rfl <;> rfl

/-! ## Numbers -/

private theorem number?_spelling {n : Numeral} (hn : n.Spelled) (hwell : wellFormed n)
    (hk : Stops k) (plusSign minus : Bool) :
    number? rounding minus (n.spelling plusSign ++ k) = some (numberValue rounding minus n, k) := by
  simp only [number?, Numeral.take?_spelling hn (ends_of_stops hk), hwell,
    startsExponent_of_stops hk, Bool.not_false, Bool.and_self, if_true]

private theorem number?_digitsOf (minus : Bool) (n : Nat) (hk : Stops k) :
    number? rounding minus (digitsOf n ++ k) =
      some (numberValue rounding minus ⟨digitsOf n, none, none⟩, k) := by
  have hspelled : Numeral.Spelled ⟨digitsOf n, none, none⟩ :=
    ⟨isDigit_digitsOf n, digitsOf_ne_nil n, by simp, by simp⟩
  have hwell : wellFormed ⟨digitsOf n, none, none⟩ := by
    have hempty : (digitsOf n).isEmpty = false := by simpa using digitsOf_ne_nil n
    by_cases hn : n = 0
    · subst hn
      rfl
    · simp [wellFormed, Decimal.head_digitsOf hn, hempty]
  simpa [Numeral.spelling, Numeral.fractionText, Numeral.exponentText] using
    number?_spelling hspelled hwell hk false minus

/-- The digits of a number in range are read as the number, with a minus before them or not. -/
private theorem numberValue_digitsOf {minus : Bool} {n : Nat} (hzero : minus → n ≠ 0)
    (hrange : Scalar.inRange (if minus then -(n : Int) else n)) :
    numberValue rounding minus ⟨digitsOf n, none, none⟩ =
      scalar (.integer (if minus then -(n : Int) else n)) := by
  have hnot : (minus && Numeral.isWhole ⟨digitsOf n, none, none⟩ &&
      Decimal.ofDigits (digitsOf n) == 0) = false := by
    rw [ofDigits_digitsOf]
    cases minus with
    | false => rfl
    | true => simpa [Numeral.isWhole] using hzero rfl
  have hvalue : Numeral.valueBy? rounding minus ⟨digitsOf n, none, none⟩ =
      some (.integer (if minus then -(n : Int) else n)) := by
    simp only [Numeral.valueBy?, ofDigits_digitsOf]
    exact if_pos ⟨rfl, hrange⟩
  simp only [numberValue, hnot, Bool.false_eq_true, if_false, hvalue]

/-- A numeral that begins like a number other than zero is one of JSON, unless its point is its
last character. -/
private theorem wellFormed_of_head {m : Numeral} {n : Nat} (hn : n ≠ 0)
    (hhead : m.whole.head? = (digitsOf n).head?) (hfraction : m.fraction ≠ some []) :
    wellFormed m := by
  have hempty : m.whole ≠ [] := by
    intro h
    rw [h, List.head?_nil] at hhead
    exact digitsOf_ne_nil n (List.head?_eq_none_iff.mp hhead.symm)
  have hzero := Decimal.head_digitsOf hn
  rw [← hhead] at hzero
  simp [wellFormed, hempty, hzero, hfraction]

private theorem wellFormed_plainNumeral {n : Nat} (hn : n ≠ 0) (exponent : Int) :
    wellFormed (Decimal.plainNumeral (digitsOf n) exponent) := by
  have hne := digitsOf_ne_nil n
  unfold Decimal.plainNumeral
  simp only
  split
  · exact wellFormed_of_head hn (List.head?_append_of_ne_nil _ hne) (by simp)
  · split
    · have hfraction : (digitsOf n).drop (((digitsOf n).length : Int) + exponent).toNat ≠ [] := by
        rw [ne_eq, List.drop_eq_nil_iff]
        omega
      refine wellFormed_of_head hn ?_ (by simpa using hfraction)
      rw [List.head?_take, if_neg (by omega)]
    · simp [wellFormed, hne]

private theorem wellFormed_exponentNumeral {n : Nat} (hn : n ≠ 0) (leading : Int) :
    wellFormed (Decimal.exponentNumeral (digitsOf n) leading) := by
  refine wellFormed_of_head hn ?_ ?_
  · simp [Decimal.exponentNumeral, List.head?_take]
  · simp only [Decimal.exponentNumeral]
    split
    · simp
    · next h => simpa using h

/-- A double is written as a numeral of JSON. -/
private theorem wellFormed_written (d : Decimal) :
    wellFormed (Decimal.written Decimal.jsonLayout d) := by
  unfold Decimal.written
  simp only
  split
  · rfl
  · next hn =>
    split
    · exact wellFormed_plainNumeral hn _
    · exact wellFormed_exponentNumeral hn _

/-- The numeral of a double is read as its value. -/
private theorem number?_printed (minus : Bool) (x : Float) (hk : Stops k) :
    number? rounding minus (Decimal.write Decimal.jsonLayout (printed x) ++ k) =
      some (numberValue rounding minus (Decimal.written Decimal.jsonLayout (printed x)), k) := by
  rw [Decimal.write_eq_spelling]
  exact number?_spelling (Decimal.spelled_written _ _) (wellFormed_written _) hk ..

/-- To the nearest double, the numeral of a double is the double. -/
private theorem numberValue_printed {x : Float} (hx : x.isFinite) :
    numberValue .nearest (Decimal.signBit x) (Decimal.written Decimal.jsonLayout (printed x)) =
      scalar (.float x) := by
  have hwhole := Decimal.isWhole_written Decimal.jsonLayout (printed x)
  obtain ⟨y, hy, hsign⟩ :=
    Option.map_eq_some_iff.mp (Decimal.toFloat?_written Decimal.jsonLayout hx)
  have hnearest : Numeral.Rounding.nearest.double?
      (Decimal.written Decimal.jsonLayout (printed x)) = some y := hy
  simp only [numberValue, Numeral.valueBy?, hwhole, Bool.and_false, Bool.false_and,
    Bool.false_eq_true, false_and, if_false, hnearest, Option.map_some, hsign]

/-! ## Scalars -/

theorem readValue?_quote (fuel depth : Nat) (rest : List Char) :
    readValue? rounding (fuel + 1) depth ('"' :: rest) = (quoted? rest).bind fun read =>
      some (match read.1 with | some s => text s | none => unreadable, read.2) :=
  rfl

private theorem readValue?_minus (fuel depth : Nat) (rest : List Char) :
    readValue? rounding (fuel + 1) depth ('-' :: rest) = number? rounding true rest :=
  rfl

/-- A value that begins with a digit is a number. -/
private theorem readValue?_of_isDigit {c : Char} (hc : c.isDigit) (fuel depth : Nat)
    (s : List Char) :
    readValue? rounding (fuel + 1) depth (c :: s) = number? rounding false (c :: s) := by
  have hspace : skipSpace (c :: s) = c :: s := by
    have hname := Formula.isNameChar_of_startsNumber (c := c) (by simp [Formula.startsNumber, hc])
    exact Formula.skipSpace_cons_of_not_isSpace (Formula.isSpace_of_isNameChar hname) s
  rw [readValue?, hspace]
  split <;> first | rfl | (next h => cases h; cases hc)

/-- A number is read behind its sign. -/
theorem readValue?_signed {minus : Bool} {body : List Char} {read : Json × List Char}
    (hbody : ∃ c cs, body = c :: cs ∧ c.isDigit) (h : number? rounding minus body = some read)
    (fuel depth : Nat) :
    readValue? rounding (fuel + 1) depth ((if minus then ['-'] else []) ++ body) = some read := by
  cases minus with
  | true => exact (readValue?_minus fuel depth body).trans h
  | false =>
    obtain ⟨c, cs, rfl, hc⟩ := hbody
    exact (readValue?_of_isDigit hc fuel depth cs).trans h

private theorem exists_digit_cons {s : List Char} (hne : s ≠ []) (hs : ∀ c ∈ s, c.isDigit)
    (k : List Char) : ∃ c cs, s ++ k = c :: cs ∧ c.isDigit := by
  obtain ⟨c, cs, rfl⟩ := List.exists_cons_of_ne_nil hne
  exact ⟨c, cs ++ k, rfl, hs c List.mem_cons_self⟩

theorem toList_integer (n : Int) :
    (toString n).toList = (if n < 0 then ['-'] else []) ++ digitsOf n.natAbs := by
  have htext : toString n = if 0 ≤ n then n.toNat.repr else "-" ++ (-n).toNat.repr :=
    Int.repr_eq_if ..
  rw [htext]
  by_cases hn : 0 ≤ n
  · obtain ⟨m, rfl⟩ : ∃ m : Nat, n = m := ⟨n.toNat, by omega⟩
    simp [Nat.toList_repr, digitsOf]
  · obtain ⟨m, rfl⟩ : ∃ m : Nat, n = -(m : Int) := ⟨(-n).toNat, by omega⟩
    have hneg : -(m : Int) < 0 := by omega
    rw [if_neg hn, if_pos hneg]
    simp [Nat.toList_repr, digitsOf]

private theorem readValue?_integer {n : Int} (hn : Scalar.inRange n) (hk : Stops k)
    (fuel depth : Nat) :
    readValue? rounding (fuel + 1) depth ((toString n).toList ++ k) =
      some (scalar (.integer n), k) := by
  have hsigned : (if decide (n < 0) then -(n.natAbs : Int) else n.natAbs) = n := by
    simp only [decide_eq_true_eq]
    split <;> omega
  have hvalue : numberValue rounding (decide (n < 0)) ⟨digitsOf n.natAbs, none, none⟩ =
      scalar (.integer n) := by
    rw [numberValue_digitsOf, hsigned]
    · simp only [decide_eq_true_eq]
      omega
    · rwa [hsigned]
  have hnumber : number? rounding (decide (n < 0)) (digitsOf n.natAbs ++ k) =
      some (scalar (.integer n), k) := by
    rw [number?_digitsOf _ _ hk, hvalue]
  have hdigits := exists_digit_cons (digitsOf_ne_nil n.natAbs) (isDigit_digitsOf _) k
  have hread := readValue?_signed hdigits hnumber fuel depth
  simp only [decide_eq_true_eq] at hread
  rwa [toList_integer, List.append_assoc]

private theorem readValue?_float {x : Float} (hx : x.isFinite) (hk : Stops k)
    (fuel depth : Nat) :
    readValue? rounding (fuel + 1) depth ((writeScalar (.float x)).toList ++ k) =
      some (numberValue rounding (Decimal.signBit x)
        (Decimal.written Decimal.jsonLayout (printed x)), k) := by
  have hspelled := Decimal.spelled_written Decimal.jsonLayout (printed x)
  have hdigits : ∃ c cs, Decimal.write Decimal.jsonLayout (printed x) ++ k = c :: cs ∧
      c.isDigit := by
    rw [Decimal.write_eq_spelling, Numeral.spelling, List.append_assoc]
    exact exists_digit_cons hspelled.nonempty hspelled.whole _
  rw [writeScalar, Decimal.toList_writeFloat _ hx, List.append_assoc]
  exact readValue?_signed hdigits (number?_printed _ x hk) fuel depth

/-- A double whose text is read as the double. -/
def ReadsBack (rounding : Numeral.Rounding) (x : Float) : Prop :=
  parseBy? rounding (scalar (.float x)).compact = some (scalar (.float x))

theorem readsBack_iff {x : Float} (hx : x.isFinite) :
    ReadsBack rounding x ↔
      numberValue rounding (Decimal.signBit x)
        (Decimal.written Decimal.jsonLayout (printed x)) = scalar (.float x) := by
  let text := (writeScalar (.float x)).toList
  have hread : readValue? rounding (2 * text.length + 1) 0 (text ++ []) = some (_, []) :=
    readValue?_float hx stops_nil _ _
  rw [List.append_nil] at hread
  simp only [ReadsBack, compact, parseBy?, text] at hread ⊢
  rw [hread]
  exact Option.some_inj

/-- **A reader that takes the nearest double reads every finite double back.** -/
theorem readsBack_nearest {x : Float} (hx : x.isFinite) : ReadsBack .nearest x :=
  (readsBack_iff hx).mpr (numberValue_printed hx)

/-- **The text of a canonical scalar is read as the scalar**, if its doubles are read back. -/
theorem readValue?_writeScalar {v : Scalar} (hv : v.isCanonical)
    (hback : ∀ x ∈ (scalar v).doubles, ReadsBack rounding x) (hk : Stops k) (fuel depth : Nat) :
    readValue? rounding (fuel + 1) depth ((writeScalar v).toList ++ k) = some (scalar v, k) := by
  cases v with
  | null => rfl
  | bool b => cases b <;> rfl
  | integer n => exact readValue?_integer hv hk fuel depth
  | float x =>
    have hx := (readsBack_iff hv).mp (hback x List.mem_cons_self)
    exact hx ▸ readValue?_float hv hk fuel depth
  | text s =>
    rw [writeScalar, toList_quote, readValue?_quote, quoted?_quote]
    rfl

/-- A sign or a digit is neither white space nor a closing bracket. -/
private theorem head_signed (minus : Bool) {body : List Char}
    (hbody : ∃ c cs, body = c :: cs ∧ c.isDigit) :
    ∃ c cs, (if minus then ['-'] else []) ++ body = c :: cs ∧ isSpace c = false ∧ c ≠ ']' := by
  obtain ⟨c, cs, rfl, hc⟩ := hbody
  cases minus with
  | true => exact ⟨'-', c :: cs, rfl, rfl, by decide⟩
  | false =>
    have hname := Formula.isNameChar_of_startsNumber (c := c) (by simp [Formula.startsNumber, hc])
    refine ⟨c, cs, rfl, Formula.isSpace_of_isNameChar hname, ?_⟩
    rintro rfl
    cases hc

/-- The text of a canonical scalar begins with neither white space nor a closing bracket. -/
theorem head_writeScalar {v : Scalar} (hv : v.isCanonical) :
    ∃ c cs, (writeScalar v).toList = c :: cs ∧ isSpace c = false ∧ c ≠ ']' := by
  cases v with
  | null => exact ⟨'n', ['u', 'l', 'l'], rfl, rfl, by decide⟩
  | bool b =>
    cases b with
    | true => exact ⟨'t', ['r', 'u', 'e'], rfl, rfl, by decide⟩
    | false => exact ⟨'f', ['a', 'l', 's', 'e'], rfl, rfl, by decide⟩
  | integer n =>
    have hdigits := exists_digit_cons (digitsOf_ne_nil n.natAbs) (isDigit_digitsOf _) []
    rw [List.append_nil] at hdigits
    have hhead := head_signed (decide (n < 0)) hdigits
    simp only [decide_eq_true_eq] at hhead
    rwa [writeScalar, toList_integer]
  | float x =>
    have hspelled := Decimal.spelled_written Decimal.jsonLayout (printed x)
    have hdigits := exists_digit_cons hspelled.nonempty hspelled.whole
    rw [writeScalar, Decimal.toList_writeFloat _ hv, Decimal.write_eq_spelling, Numeral.spelling]
    exact head_signed _ (hdigits _)
  | text s =>
    have htext := toList_quote s []
    rw [List.append_nil] at htext
    exact ⟨'"', _, htext, rfl, by decide⟩

end Json

end QuerySteps
