import QuerySteps.Proofs.Json.Leaves

/-!
# Reading written JSON

What `Json.compact` writes, `Json.parse?` reads.  The text of a value whose parts can all be written
is read as what the brackets leave of the value (`Json.cut`): as the value itself, unless it is
nested too deep.  A reader with another rounding does the same where it reads the doubles of the
value back (`Json.parseBy?_compact`).

The reader has fuel; twice the length of the text is enough for it, since each bracket costs two
units and the scalars inside are not empty.
-/

namespace QuerySteps.Json

open Text (skipSpace isSpace)
open Formula (skipSpace_cons_of_not_isSpace)

/-! ## One step of the reader -/

variable {rounding : Numeral.Rounding} {fuel depth : Nat} {k : List Char}

/-- Where a value may begin. -/
def Starts (s : List Char) : Prop :=
  ∃ c cs, s = c :: cs ∧ isSpace c = false ∧ c ≠ ']'

theorem Starts.length_pos {s : List Char} (h : Starts s) : 0 < s.length := by
  obtain ⟨c, cs, rfl, -⟩ := h
  exact Nat.zero_lt_succ _

theorem Starts.append {s : List Char} (h : Starts s) (k : List Char) : Starts (s ++ k) := by
  obtain ⟨c, cs, rfl, hc⟩ := h
  exact ⟨c, cs ++ k, rfl, hc⟩

private theorem readValue?_array {s : List Char} (hs : Starts s) (fuel depth : Nat) :
    readValue? rounding (fuel + 1) depth ('[' :: s) =
      (readItems? rounding fuel (depth + 1) s).bind fun read =>
        some (nested depth (array read.1), read.2) := by
  obtain ⟨c, cs, rfl, hspace, hclosing⟩ := hs
  have hopening : skipSpace ('[' :: c :: cs) = '[' :: c :: cs :=
    skipSpace_cons_of_not_isSpace (by decide) _
  simp only [readValue?, hopening, skipSpace_cons_of_not_isSpace hspace]
  split
  · next h => exact absurd (List.cons.inj h).1 hclosing
  · rfl

theorem readValue?_object (s : List Char) (fuel depth : Nat) :
    readValue? rounding (fuel + 1) depth ('\x7b' :: '"' :: s) =
      (readMembers? rounding fuel (depth + 1) ('"' :: s)).bind fun read =>
        some (nested depth (ofMembers read.1), read.2) :=
  rfl

/-- An item is followed by other items or by the end of the array. -/
private theorem readItems?_last {s : List Char} {item : Json}
    (h : readValue? rounding fuel depth s = some (item, ']' :: k)) :
    readItems? rounding (fuel + 1) depth s = some ([item], k) := by
  rw [readItems?, h]
  rfl

private theorem readItems?_more {s r : List Char} {item : Json}
    (h : readValue? rounding fuel depth s = some (item, ',' :: r)) :
    readItems? rounding (fuel + 1) depth s =
      (readItems? rounding fuel depth r).map fun read => (item :: read.1, read.2) := by
  rw [readItems?, h]
  change (readItems? rounding fuel depth r).bind _ = _
  cases readItems? rounding fuel depth r <;> rfl

/-- A member is its key, a colon and its value. -/
theorem readMembers?_last {key : String} {s : List Char} {value : Json}
    (h : readValue? rounding fuel depth s = some (value, '\x7d' :: k)) :
    readMembers? rounding (fuel + 1) depth ((quote key).toList ++ ':' :: s) =
      some ([(some key, value)], k) := by
  rw [toList_quote]
  change (quoted? (key.toList.flatMap escape ++ '"' :: ':' :: s)).bind _ = _
  rw [quoted?_quote]
  change (readValue? rounding fuel depth s).bind _ = _
  rw [h]
  rfl

private theorem readMembers?_more {key : String} {s r : List Char} {value : Json}
    (h : readValue? rounding fuel depth s = some (value, ',' :: r)) :
    readMembers? rounding (fuel + 1) depth ((quote key).toList ++ ':' :: s) =
      (readMembers? rounding fuel depth r).map fun read =>
        ((some key, value) :: read.1, read.2) := by
  rw [toList_quote]
  change (quoted? (key.toList.flatMap escape ++ '"' :: ':' :: s)).bind _ = _
  rw [quoted?_quote]
  change (readValue? rounding fuel depth s).bind _ = _
  rw [h]
  change (readMembers? rounding fuel depth r).bind _ = _
  cases readMembers? rounding fuel depth r <;> rfl

/-- Members whose keys can all be read make an object. -/
theorem ofMembers_some (members : List (String × Json)) :
    ofMembers (members.map fun member => (some member.1, member.2)) = object members := by
  simp [ofMembers, Function.comp_def]

/-! ## Whole values -/

theorem starts_compact {v : Json} (hread : v.readable) (hv : v.isCanonical) :
    Starts v.compact.toList := by
  cases v with
  | scalar v => exact head_writeScalar hv
  | array items =>
    exact ⟨'[', (compactItems items ++ "]").toList, by simp [compact], rfl, by decide⟩
  | object members =>
    exact ⟨'\x7b', (compactMembers members ++ "\x7d").toList, by simp [compact], rfl, by decide⟩
  | unreadable => cases hread

theorem starts_compactItems {item : Json} (items : List Json) (hread : item.readable)
    (h : item.isCanonical) :
    Starts (compactItems (item :: items)).toList := by
  cases items with
  | nil => exact starts_compact hread h
  | cons next items =>
    have hstart := (starts_compact hread h).append (("," ++ compactItems (next :: items)).toList)
    simpa [compactItems, String.append_assoc] using hstart

private theorem length_array (items : List Json) :
    (array items).compact.toList.length = (compactItems items).toList.length + 2 := by
  simp [compact]

private theorem length_object (members : List (String × Json)) :
    (object members).compact.toList.length = (compactMembers members).toList.length + 2 := by
  simp [compact]

private theorem toList_compactItems_cons (item next : Json) (items : List Json) (k : List Char) :
    (compactItems (item :: next :: items)).toList ++ k =
      item.compact.toList ++ ',' :: ((compactItems (next :: items)).toList ++ k) := by
  simp [compactItems]

private theorem toList_compactMembers_singleton (key : String) (value : Json) (k : List Char) :
    (compactMembers [(key, value)]).toList ++ k =
      (quote key).toList ++ ':' :: (value.compact.toList ++ k) := by
  simp [compactMembers]

private theorem toList_compactMembers_cons (key : String) (value : Json)
    (next : String × Json) (members : List (String × Json)) (k : List Char) :
    (compactMembers ((key, value) :: next :: members)).toList ++ k =
      (quote key).toList ++ ':' ::
        (value.compact.toList ++ ',' :: ((compactMembers (next :: members)).toList ++ k)) := by
  simp [compactMembers]

private theorem head_compactMembers (member : String × Json) (members : List (String × Json)) :
    ∃ cs, (compactMembers (member :: members)).toList = '"' :: cs := by
  obtain ⟨key, value⟩ := member
  cases members with
  | nil =>
    exact ⟨_, by
      rw [← List.append_nil (String.toList _), toList_compactMembers_singleton, toList_quote]⟩
  | cons next members =>
    exact ⟨_, by rw [← List.append_nil (String.toList _), toList_compactMembers_cons, toList_quote]⟩

mutual

/-- **The text of a value is read as the value**, less what is nested too deep. -/
theorem readValue?_compact : ∀ (v : Json) (fuel depth : Nat) {k : List Char}, v.readable →
    v.isCanonical → (∀ x ∈ v.doubles, ReadsBack rounding x) → Stops k →
    2 * v.compact.toList.length ≤ fuel + 1 →
    readValue? rounding fuel depth (v.compact.toList ++ k) = some (v.cut depth, k)
  | scalar v, fuel, depth, k, _, hv, hback, hk, hfuel => by
    obtain ⟨c, cs, hcs, -⟩ := head_writeScalar hv
    obtain ⟨fuel, rfl⟩ : ∃ n, fuel = n + 1 := by
      rw [compact, hcs, List.length_cons] at hfuel
      exact ⟨fuel - 1, by omega⟩
    exact readValue?_writeScalar hv hback hk fuel depth
  | unreadable, _, _, _, hread, _, _, _, _ => by cases hread
  | array items, fuel, depth, k, hread, hv, hback, hk, hfuel => by
    rw [length_array] at hfuel
    obtain ⟨fuel, rfl⟩ : ∃ n, fuel = n + 1 := ⟨fuel - 1, by omega⟩
    have htext : (array items).compact.toList ++ k =
        '[' :: ((compactItems items).toList ++ ']' :: k) := by simp [compact]
    rw [htext]
    cases items with
    | nil => rfl
    | cons item items =>
      have hstart := (starts_compactItems items (Bool.and_eq_true_iff.mp hread).1
        (Bool.and_eq_true_iff.mp hv).1).append (']' :: k)
      have hread := readItems?_compact (item :: items) fuel (depth + 1) (k := k) (by simp) hread
        hv hback (by omega)
      rw [readValue?_array hstart, hread]
      rfl
  | object members, fuel, depth, k, hread, hv, hback, hk, hfuel => by
    rw [length_object] at hfuel
    obtain ⟨fuel, rfl⟩ : ∃ n, fuel = n + 1 := ⟨fuel - 1, by omega⟩
    have htext : (object members).compact.toList ++ k =
        '\x7b' :: ((compactMembers members).toList ++ '\x7d' :: k) := by simp [compact]
    rw [htext]
    cases members with
    | nil => rfl
    | cons member members =>
      obtain ⟨cs, hcs⟩ := head_compactMembers member members
      have hread := readMembers?_compact (member :: members) fuel (depth + 1) (k := k) (by simp)
        hread hv hback (by omega)
      rw [hcs, List.cons_append] at hread ⊢
      rw [readValue?_object, hread]
      simp only [Option.bind_some, ofMembers_some, cut]

theorem readItems?_compact : ∀ (items : List Json) (fuel depth : Nat) {k : List Char},
    items ≠ [] → readableItems items → canonicalItems items →
    (∀ x ∈ itemDoubles items, ReadsBack rounding x) →
    2 * (compactItems items).toList.length ≤ fuel →
    readItems? rounding fuel depth ((compactItems items).toList ++ ']' :: k) =
      some (cutItems depth items, k)
  | [], _, _, _, hne, _, _, _, _ => absurd rfl hne
  | item :: items, fuel, depth, k, _, hread, hv, hback, hfuel => by
    obtain ⟨hreadItem, hreadItems⟩ := Bool.and_eq_true_iff.mp hread
    obtain ⟨hitem, hitems⟩ := Bool.and_eq_true_iff.mp hv
    obtain ⟨hbackItem, hbackItems⟩ := List.forall_mem_append.mp hback
    cases items with
    | nil =>
      obtain ⟨fuel, rfl⟩ : ∃ n, fuel = n + 1 := ⟨fuel - 1, by
        have := (starts_compact hreadItem hitem).length_pos
        rw [compactItems] at hfuel
        omega⟩
      rw [compactItems] at hfuel
      exact readItems?_last (readValue?_compact item fuel depth hreadItem hitem hbackItem
        (stops_bracket k) (by omega))
    | cons next items =>
      have hlength := congrArg List.length (toList_compactItems_cons item next items [])
      simp only [List.append_nil, List.length_append, List.length_cons] at hlength
      obtain ⟨fuel, rfl⟩ : ∃ n, fuel = n + 1 := ⟨fuel - 1, by omega⟩
      have hread := readValue?_compact item fuel depth hreadItem hitem hbackItem
        (stops_comma ((compactItems (next :: items)).toList ++ ']' :: k)) (by omega)
      rw [toList_compactItems_cons, readItems?_more hread,
        readItems?_compact (next :: items) fuel depth (by simp) hreadItems hitems hbackItems
          (by omega)]
      rfl

theorem readMembers?_compact : ∀ (members : List (String × Json)) (fuel depth : Nat)
    {k : List Char}, members ≠ [] → readableMembers members → canonicalMembers members →
    (∀ x ∈ memberDoubles members, ReadsBack rounding x) →
    2 * (compactMembers members).toList.length ≤ fuel →
    readMembers? rounding fuel depth ((compactMembers members).toList ++ '\x7d' :: k) =
      some ((cutMembers depth members).map fun member => (some member.1, member.2), k)
  | [], _, _, _, hne, _, _, _, _ => absurd rfl hne
  | (key, value) :: members, fuel, depth, k, _, hread, hv, hback, hfuel => by
    obtain ⟨hreadValue, hreadMembers⟩ := Bool.and_eq_true_iff.mp hread
    obtain ⟨hvalue, hmembers⟩ := Bool.and_eq_true_iff.mp hv
    obtain ⟨hbackValue, hbackMembers⟩ := List.forall_mem_append.mp hback
    cases members with
    | nil =>
      have hlength := congrArg List.length (toList_compactMembers_singleton key value [])
      simp only [List.append_nil, List.length_append, List.length_cons] at hlength
      obtain ⟨fuel, rfl⟩ : ∃ n, fuel = n + 1 := ⟨fuel - 1, by omega⟩
      have hread := readValue?_compact value fuel depth hreadValue hvalue hbackValue
        (stops_brace k) (by omega)
      rw [toList_compactMembers_singleton, readMembers?_last hread]
      rfl
    | cons next members =>
      have hlength := congrArg List.length (toList_compactMembers_cons key value next members [])
      simp only [List.append_nil, List.length_append, List.length_cons] at hlength
      obtain ⟨fuel, rfl⟩ : ∃ n, fuel = n + 1 := ⟨fuel - 1, by omega⟩
      have hread := readValue?_compact value fuel depth hreadValue hvalue hbackValue
        (stops_comma ((compactMembers (next :: members)).toList ++ '\x7d' :: k)) (by omega)
      have hrest := readMembers?_compact (next :: members) fuel depth (k := k) (by simp)
        hreadMembers hmembers hbackMembers (by omega)
      rw [toList_compactMembers_cons, readMembers?_more hread, hrest]
      rfl

end

/-- **The text of a value is read as the value**, less what is nested too deep, by every reader that
reads its doubles back. -/
theorem parseBy?_compact {v : Json} (hread : v.readable) (hv : v.isCanonical)
    (hback : ∀ x ∈ v.doubles, ReadsBack rounding x) :
    parseBy? rounding v.compact = some (v.cut 0) := by
  have hvalue := readValue?_compact v (2 * v.compact.toList.length + 1) 0 hread hv hback stops_nil
    (by omega)
  rw [List.append_nil] at hvalue
  rw [parseBy?, hvalue]
  rfl

/-- To the nearest double, the text of every value is read as the value. -/
theorem parse?_compact {v : Json} (hread : v.readable) (hv : v.isCanonical) :
    parse? v.compact = some (v.cut 0) :=
  parseBy?_compact hread hv fun x hx => readsBack_nearest (isFinite_of_mem_doubles hv x hx)

end QuerySteps.Json
