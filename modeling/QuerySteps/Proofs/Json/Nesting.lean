import QuerySteps.Json.Basic
import QuerySteps.Json.Reader

/-!
# Nested values

How deep a value is nested decides whether its text can be read: arrays and objects inside too many
brackets come back without a value.  `Json.cut` is the value that is left when a value stands inside
`depth` brackets.  It is the value itself as long as that is not nested deeper than `Json.deepest`
(`cut_eq_self`), and has an unreadable part otherwise (`readable_cut`).

`isCanonical` says of a value that all its scalars can be written as JSON text.
-/

namespace QuerySteps

/-- Scalars that JSON text expresses: no integer is out of range and no double is an infinity or
"not a number". -/
def Scalar.isCanonical : Scalar → Bool
  | .integer n => inRange n
  | .float x => x.isFinite
  | _ => true

namespace Json

/-! ## Canonical values -/

mutual

/-- Whether all scalars in a value are canonical. -/
def isCanonical : Json → Bool
  | scalar v => v.isCanonical
  | array items => canonicalItems items
  | object members => canonicalMembers members
  | unreadable => true

/-- Whether all scalars in the items are canonical. -/
def canonicalItems : List Json → Bool
  | [] => true
  | item :: items => item.isCanonical && canonicalItems items

/-- Whether all scalars in the members are canonical. -/
def canonicalMembers : List (String × Json) → Bool
  | [] => true
  | (_, value) :: members => value.isCanonical && canonicalMembers members

end

theorem canonicalItems_iff {items : List Json} :
    canonicalItems items ↔ ∀ item ∈ items, item.isCanonical := by
  induction items with
  | nil => simp [canonicalItems]
  | cons item items ih => simp [canonicalItems, ih]

theorem canonicalMembers_iff {members : List (String × Json)} :
    canonicalMembers members ↔ ∀ member ∈ members, member.2.isCanonical := by
  induction members with
  | nil => simp [canonicalMembers]
  | cons member members ih => simp [canonicalMembers, ih]

theorem readableItems_iff {items : List Json} :
    readableItems items ↔ ∀ item ∈ items, item.readable := by
  induction items with
  | nil => simp [readableItems]
  | cons item items ih => simp [readableItems, ih]

theorem readableMembers_iff {members : List (String × Json)} :
    readableMembers members ↔ ∀ member ∈ members, member.2.readable := by
  induction members with
  | nil => simp [readableMembers]
  | cons member members ih => simp [readableMembers, ih]

/-! ## The doubles of a value -/

mutual

/-- The doubles in a value. -/
def doubles : Json → List Float
  | scalar (.float x) => [x]
  | scalar _ => []
  | array items => itemDoubles items
  | object members => memberDoubles members
  | unreadable => []

/-- The doubles in the items. -/
def itemDoubles : List Json → List Float
  | [] => []
  | item :: items => item.doubles ++ itemDoubles items

/-- The doubles in the members. -/
def memberDoubles : List (String × Json) → List Float
  | [] => []
  | (_, value) :: members => value.doubles ++ memberDoubles members

end

mutual

/-- The doubles in a canonical value are finite. -/
theorem isFinite_of_mem_doubles : ∀ {v : Json}, v.isCanonical → ∀ x ∈ v.doubles, x.isFinite
  | scalar (.float x), hv, y, hy => by
    obtain rfl := List.mem_singleton.mp hy
    exact hv
  | scalar .null, _, _, hx => (List.not_mem_nil hx).elim
  | scalar (.bool _), _, _, hx => (List.not_mem_nil hx).elim
  | scalar (.integer _), _, _, hx => (List.not_mem_nil hx).elim
  | scalar (.text _), _, _, hx => (List.not_mem_nil hx).elim
  | array items, hv, x, hx => @isFinite_of_mem_itemDoubles items hv x hx
  | object members, hv, x, hx => @isFinite_of_mem_memberDoubles members hv x hx
  | unreadable, _, _, hx => (List.not_mem_nil hx).elim

theorem isFinite_of_mem_itemDoubles : ∀ {items : List Json}, canonicalItems items →
    ∀ x ∈ itemDoubles items, x.isFinite
  | [], _, _, hx => (List.not_mem_nil hx).elim
  | item :: items, hv, x, hx => by
    obtain ⟨hitem, hitems⟩ := Bool.and_eq_true_iff.mp hv
    rcases List.mem_append.mp hx with hx | hx
    · exact isFinite_of_mem_doubles hitem x hx
    · exact isFinite_of_mem_itemDoubles hitems x hx

theorem isFinite_of_mem_memberDoubles : ∀ {members : List (String × Json)},
    canonicalMembers members → ∀ x ∈ memberDoubles members, x.isFinite
  | [], _, _, hx => (List.not_mem_nil hx).elim
  | (_, value) :: members, hv, x, hx => by
    obtain ⟨hvalue, hmembers⟩ := Bool.and_eq_true_iff.mp hv
    rcases List.mem_append.mp hx with hx | hx
    · exact isFinite_of_mem_doubles hvalue x hx
    · exact isFinite_of_mem_memberDoubles hmembers x hx

end

/-! ## Heights -/

theorem heightItems_le_iff {items : List Json} {n : Nat} :
    heightItems items ≤ n ↔ ∀ item ∈ items, item.height ≤ n := by
  induction items with
  | nil => simp [heightItems]
  | cons item items ih => rw [heightItems, Nat.max_le, ih, List.forall_mem_cons]

theorem heightMembers_le_iff {members : List (String × Json)} {n : Nat} :
    heightMembers members ≤ n ↔ ∀ member ∈ members, member.2.height ≤ n := by
  induction members with
  | nil => simp [heightMembers]
  | cons member members ih => rw [heightMembers, Nat.max_le, ih, List.forall_mem_cons]

/-! ## Values inside brackets -/

mutual

/-- What is left of a value inside `depth` brackets. -/
def cut (depth : Nat) : Json → Json
  | scalar v => scalar v
  | array items => nested depth (array (cutItems (depth + 1) items))
  | object members => nested depth (object (cutMembers (depth + 1) members))
  | unreadable => unreadable

/-- What is left of items inside `depth` brackets. -/
def cutItems (depth : Nat) : List Json → List Json
  | [] => []
  | item :: items => item.cut depth :: cutItems depth items

/-- What is left of members inside `depth` brackets. -/
def cutMembers (depth : Nat) : List (String × Json) → List (String × Json)
  | [] => []
  | (key, value) :: members => (key, value.cut depth) :: cutMembers depth members

end

theorem cutItems_eq_map (depth : Nat) (items : List Json) :
    cutItems depth items = items.map (cut depth) := by
  induction items with
  | nil => rfl
  | cons item items ih => rw [cutItems, ih, List.map_cons]

mutual

/-- A value that is not nested too deep is left as it is. -/
theorem cut_eq_self : ∀ (v : Json) {depth : Nat}, depth + v.height ≤ deepest → v.cut depth = v
  | scalar _, _, _ => rfl
  | unreadable, _, _ => rfl
  | array items, depth, h => by
    rw [height] at h
    rw [cut, nested, if_pos (by omega), cutItems_eq_self items (by omega)]
  | object members, depth, h => by
    rw [height] at h
    rw [cut, nested, if_pos (by omega), cutMembers_eq_self members (by omega)]

theorem cutItems_eq_self : ∀ (items : List Json) {depth : Nat},
    depth + heightItems items ≤ deepest → cutItems depth items = items
  | [], _, _ => rfl
  | item :: items, depth, h => by
    rw [heightItems] at h
    rw [cutItems, cut_eq_self item (by omega), cutItems_eq_self items (by omega)]

theorem cutMembers_eq_self : ∀ (members : List (String × Json)) {depth : Nat},
    depth + heightMembers members ≤ deepest → cutMembers depth members = members
  | [], _, _ => rfl
  | (key, value) :: members, depth, h => by
    rw [heightMembers] at h
    rw [cutMembers, cut_eq_self value (by omega), cutMembers_eq_self members (by omega)]

end

mutual

/-- A value that is nested too deep is left with an unreadable part. -/
theorem readable_cut : ∀ (v : Json) {depth : Nat}, depth ≤ deepest →
    deepest < depth + v.height → (v.cut depth).readable = false
  | scalar _, depth, hdepth, h => by
    rw [height] at h
    omega
  | unreadable, _, _, _ => rfl
  | array items, depth, _, h => by
    rw [height] at h
    rw [cut, nested]
    split
    · next hlt => exact readableItems_cut items hlt (by omega)
    · rfl
  | object members, depth, _, h => by
    rw [height] at h
    rw [cut, nested]
    split
    · next hlt => exact readableMembers_cut members hlt (by omega)
    · rfl

theorem readableItems_cut : ∀ (items : List Json) {depth : Nat}, depth ≤ deepest →
    deepest < depth + heightItems items → readableItems (cutItems depth items) = false
  | [], depth, hdepth, h => by
    rw [heightItems] at h
    omega
  | item :: items, depth, hdepth, h => by
    rw [heightItems] at h
    rw [cutItems, readableItems, Bool.and_eq_false_iff]
    by_cases hitem : deepest < depth + item.height
    · exact .inl (readable_cut item hdepth hitem)
    · exact .inr (readableItems_cut items hdepth (by omega))

theorem readableMembers_cut : ∀ (members : List (String × Json)) {depth : Nat},
    depth ≤ deepest → deepest < depth + heightMembers members →
    readableMembers (cutMembers depth members) = false
  | [], depth, hdepth, h => by
    rw [heightMembers] at h
    omega
  | (key, value) :: members, depth, hdepth, h => by
    rw [heightMembers] at h
    rw [cutMembers, readableMembers, Bool.and_eq_false_iff]
    by_cases hvalue : deepest < depth + value.height
    · exact .inl (readable_cut value hdepth hvalue)
    · exact .inr (readableMembers_cut members hdepth (by omega))

end

end Json

end QuerySteps
