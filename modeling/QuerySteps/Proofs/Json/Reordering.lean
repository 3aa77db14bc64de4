import QuerySteps.Proofs.Formula.Fragments
import QuerySteps.Proofs.Json.NodeKinds
import QuerySteps.Query.Step

/-!
# Members in another order

A tree may be given as JSON text or as a JSON value that a program has built.  The text has the
members of its objects in the order in which they are written, and perhaps repeated keys; the value
keeps the last of repeated keys, and its members in an order of its own.  `Json.Reordered` relates
values that differ in nothing but the order of members, at any depth, and `Json.Denotes` relates a
text to the values that it may be given as.

Which kinds of nodes an object fits does not depend on the order of its members, and so neither does
what a value is read as (`Tree.ofJson?_reordered`).  The two ways of giving a tree therefore agree
as long as no key is repeated.
-/

namespace QuerySteps

namespace Json

open Text (isBlank skipSpace)

variable {members members' : List (String × Json)} {key k : String} {u v w x : Json}

/-! ## Reordered values -/

/-- The same value with members of its objects in another order, at any depth. -/
inductive Reordered : Json → Json → Prop
  | same (v : Json) : Reordered v v
  | order {members members' : List (String × Json)} (h : members.Perm members') :
      Reordered (object members) (object members')
  | item (before after : List Json) {v w : Json} (h : Reordered v w) :
      Reordered (array (before ++ v :: after)) (array (before ++ w :: after))
  | member (before after : List (String × Json)) (key : String) {v w : Json} (h : Reordered v w) :
      Reordered (object (before ++ (key, v) :: after)) (object (before ++ (key, w) :: after))
  | trans {u v w : Json} (h : Reordered u v) (h' : Reordered v w) : Reordered u w

theorem Reordered.symm (h : Reordered v w) : Reordered w v := by
  induction h with
  | same v => exact .same v
  | order h => exact .order h.symm
  | item before after _ ih => exact .item before after ih
  | member before after key _ ih => exact .member before after key ih
  | trans _ _ ih ih' => exact ih'.trans ih

/-- Reordering keeps all parts readable. -/
theorem Reordered.readable (h : Reordered v w) (hv : v.readable) : w.readable := by
  induction h with
  | same v => exact hv
  | order h =>
    refine readableMembers_iff.mpr fun member hmember => ?_
    exact readableMembers_iff.mp hv member (h.mem_iff.mpr hmember)
  | item before after _ ih =>
    simp only [Json.readable, readableItems_iff, List.forall_mem_append, List.forall_mem_cons]
      at hv ⊢
    exact ⟨hv.1, ih hv.2.1, hv.2.2⟩
  | member before after key _ ih =>
    simp only [Json.readable, readableMembers_iff, List.forall_mem_append, List.forall_mem_cons]
      at hv ⊢
    exact ⟨hv.1, ih hv.2.1, hv.2.2⟩
  | trans _ _ ih ih' => exact ih' (ih hv)

theorem Reordered.eq_scalar (h : Reordered v w) {s : Scalar} (hv : v = scalar s) :
    w = scalar s := by
  induction h with
  | same v => exact hv
  | order h => cases hv
  | item before after _ _ => cases hv
  | member before after key _ _ => cases hv
  | trans _ _ ih ih' => exact ih' (ih hv)

/-- Items are reordered one by one: what reads reordered values alike reads reordered items alike. -/
theorem Reordered.map_items {α : Type} {read : Json → α}
    (hread : ∀ v w, Reordered v w → read v = read w) (h : Reordered v w) {items : List Json}
    (hv : v = array items) : ∃ items', w = array items' ∧ items'.map read = items.map read := by
  induction h generalizing items with
  | same v => exact ⟨items, hv, rfl⟩
  | order h => cases hv
  | item before after h _ =>
    cases hv
    refine ⟨_, rfl, ?_⟩
    simp only [List.map_append, List.map_cons, hread _ _ h]
  | member before after key _ _ => cases hv
  | trans _ _ ih ih' =>
    obtain ⟨items', rfl, hsame⟩ := ih hv
    obtain ⟨items'', rfl, hsame'⟩ := ih' rfl
    exact ⟨items'', rfl, hsame'.trans hsame⟩

/-! ## Members that occur once -/

theorem lookup_eq_none_iff : members.lookup k = none ↔ k ∉ members.map Prod.fst := by
  rw [List.lookup_eq_none_iff, List.mem_map]
  constructor
  · rintro h ⟨member, hmember, rfl⟩
    simpa using h member hmember
  · intro h member hmember
    exact bne_iff_ne.mpr fun heq => h ⟨member, hmember, heq.symm⟩

theorem HasOnce.perm (hperm : members.Perm members') (h : HasOnce members k x) :
    HasOnce members' k x := by
  have hfilter := hperm.filter (·.1 == k)
  rw [h] at hfilter
  exact (List.singleton_perm.mp hfilter).symm

/-- Another value in place of a member: the member itself has it, and all others stay. -/
theorem HasOnce.replace {before after : List (String × Json)}
    (h : HasOnce (before ++ (key, v) :: after) k x) (w : Json) :
    HasOnce (before ++ (key, w) :: after) k x ∨
      x = v ∧ HasOnce (before ++ (key, w) :: after) k w := by
  unfold HasOnce at h ⊢
  by_cases hkey : key = k
  · subst hkey
    right
    rw [List.filter_append, List.filter_cons_of_pos (by simp)] at h ⊢
    rcases List.append_eq_singleton_iff.mp h with ⟨hbefore, hafter⟩ | ⟨-, hafter⟩
    · obtain ⟨hmember, hafter⟩ := List.cons.inj hafter
      exact ⟨(congrArg Prod.snd hmember).symm, by rw [hbefore, hafter, List.nil_append]⟩
    · cases hafter
  · left
    rw [List.filter_append, List.filter_cons_of_neg (by simpa using hkey)] at h ⊢
    exact h

/-! ## Repeated keys -/

mutual

/-- Whether no object in a value has a key twice. -/
def keysDistinct : Json → Bool
  | scalar _ => true
  | array items => keysDistinctItems items
  | object members => decide (members.map Prod.fst).Nodup && keysDistinctMembers members
  | unreadable => true

/-- Whether no object in the items has a key twice. -/
def keysDistinctItems : List Json → Bool
  | [] => true
  | item :: items => item.keysDistinct && keysDistinctItems items

/-- Whether no object in the members has a key twice. -/
def keysDistinctMembers : List (String × Json) → Bool
  | [] => true
  | (_, value) :: members => value.keysDistinct && keysDistinctMembers members

end

mutual

/-- Without repeated keys there is nothing to replace. -/
theorem lastWins_eq_self : ∀ v : Json, v.keysDistinct → v.lastWins = v
  | scalar _, _ => rfl
  | unreadable, _ => rfl
  | array items, h => by rw [lastWins, lastWinsItems_eq_self items h]
  | object members, h => by
    simp only [keysDistinct, Bool.and_eq_true, decide_eq_true_eq] at h
    rw [lastWins, lastWinsMembers_eq_self members h.1 h.2]

theorem lastWinsItems_eq_self : ∀ items : List Json, keysDistinctItems items →
    lastWinsItems items = items
  | [], _ => rfl
  | item :: items, h => by
    simp only [keysDistinctItems, Bool.and_eq_true] at h
    rw [lastWinsItems, lastWins_eq_self item h.1, lastWinsItems_eq_self items h.2]

theorem lastWinsMembers_eq_self : ∀ members : List (String × Json),
    (members.map Prod.fst).Nodup → keysDistinctMembers members → lastWinsMembers members = members
  | [], _, _ => rfl
  | (key, value) :: members, hnodup, h => by
    simp only [keysDistinctMembers, Bool.and_eq_true] at h
    obtain ⟨hkey, hnodup⟩ := List.nodup_cons.mp hnodup
    have hfirst : ¬ members.any (·.1 == key) := by simpa using hkey
    rw [lastWinsMembers, lastWins_eq_self value h.1, lastWinsMembers_eq_self members hnodup h.2]
    exact if_neg hfirst

end

/-- A text and the values that it may be given as: every part can be read, the last of repeated
keys counts, and members may stand in any order. -/
def Denotes (s : String) (w : Json) : Prop :=
  ∃ v, parseReadable? s = some v ∧ Reordered v.lastWins w

/-! ## Texts that say something -/

open Formula (startsNumber)

private theorem startsNumber_of_isBlank {c : Char} (h : isBlank c) : startsNumber c = false := by
  rw [Bool.eq_false_iff]
  intro hstart
  simp only [startsNumber, Bool.or_eq_true, beq_iff_eq] at hstart
  rcases hstart with hdigit | rfl
  · have hnat := Formula.isDigit_iff_toNat.mp hdigit
    simp [isBlank, Text.inRanges, Text.blankRanges] at h
    omega
  · exact absurd h (by decide)

private theorem readValue?_of_blank {rounding : Numeral.Rounding} {fuel depth : Nat}
    {s : List Char} (h : ∀ c ∈ s, isBlank c) :
    readValue? rounding fuel depth s = none := by
  cases fuel with
  | zero => rfl
  | succ fuel =>
    have hrest : ∀ c ∈ skipSpace s, isBlank c := fun c hc =>
      h c ((List.dropWhile_sublist _).subset hc)
    rw [readValue?]
    split
    case h_8 =>
      cases hs : skipSpace s with
      | nil => rfl
      | cons c t =>
        rw [hs] at hrest
        rw [number?, Formula.take?_of_head
          (startsNumber_of_isBlank (hrest c List.mem_cons_self))]
    -- every other value starts with a character that is not blank
    all_goals
      next heq =>
        rw [heq] at hrest
        exact absurd (hrest _ List.mem_cons_self) (by decide)

theorem isBlankText_of_parse? {s : String} (h : parse? s = some v) :
    Text.isBlankText s = false := by
  rw [Bool.eq_false_iff]
  intro hblank
  rw [parse?, parseBy?, readValue?_of_blank (List.all_eq_true.mp hblank)] at h
  cases h

end Json

namespace Tree

open Json (HasOnce Reordered lookup_eq_none_iff)

variable {members members' : List (String × Json)} {v w : Json}

theorem Fits.perm {read : Json → Option Tree} {t : Tree} (hperm : members.Perm members')
    (h : t.Fits read members) : t.Fits read members' := by
  refine h.transfer (fun _ _ h => h.perm hperm) (fun items h => ⟨items, h.perm hperm, rfl⟩) ?_
  simp only [lookup_eq_none_iff, (hperm.map Prod.fst).mem_iff, imp_self]

theorem Fits.replace {read : Json → Option Tree} {t : Tree} {key : String}
    (hread : ∀ v w, Reordered v w → read v = read w) (hvw : Reordered v w)
    {before after : List (String × Json)} (h : t.Fits read (before ++ (key, v) :: after)) :
    t.Fits read (before ++ (key, w) :: after) := by
  refine h.transfer (fun k s h => ?_) (fun items h => ?_) ?_
  · obtain h | ⟨hv, h⟩ := h.replace w
    · exact h
    · obtain rfl := hvw.eq_scalar hv.symm
      exact h
  · obtain h | ⟨hv, h⟩ := h.replace w
    · exact ⟨items, h, rfl⟩
    · obtain ⟨items', rfl, hsame⟩ := hvw.map_items hread hv.symm
      exact ⟨items', h, hsame⟩
  · simp only [lookup_eq_none_iff, List.map_append, List.map_cons, imp_self]

/-- **What a value is read as does not depend on the order of members.** -/
theorem readJson?_reordered (n : Nat) (h : Reordered v w) : readJson? n v = readJson? n w := by
  induction n generalizing v w with
  | zero => cases v <;> cases w <;> rfl
  | succ n ih =>
    have hread : ∀ v w, Reordered v w → readJson? n v = readJson? n w := fun _ _ => ih
    induction h with
    | same v => rfl
    | order h => exact readJson?_object_congr fun u => ⟨Fits.perm h, Fits.perm h.symm⟩
    | item before after _ _ => rfl
    | member before after key h _ =>
      exact readJson?_object_congr fun u => ⟨Fits.replace hread h, Fits.replace hread h.symm⟩
    | trans _ _ ih ih' => exact ih.trans ih'

theorem ofJson?_reordered (h : Reordered v w) : ofJson? v = ofJson? w := by
  unfold ofJson?
  by_cases hv : v.readable
  · rw [if_pos hv, if_pos (h.readable hv)]
    calc readJson? v.height v
      _ = readJson? (max v.height w.height) v :=
        readJson?_eq_of_height (Nat.le_refl _) (Nat.le_max_left _ _)
      _ = readJson? (max v.height w.height) w := readJson?_reordered _ h
      _ = readJson? w.height w := readJson?_eq_of_height (Nat.le_max_right _ _) (Nat.le_refl _)
  · rw [if_neg hv, if_neg fun hw => hv (h.symm.readable hw)]

end Tree

namespace ExprArgument

open Json (Denotes parse? parseReadable?)

variable {s : String} {v w : Json}

/-- What a JSON value stands for, unless it is null or a text. -/
theorem ofJson_eq (hnull : v ≠ .scalar .null) (htext : v.text? = none) :
    ofJson v =
      match Tree.ofJson? v with
      | none => .error .unrecognised
      | some node => node.toExpr.map some := by
  unfold ofJson
  split
  · exact absurd rfl hnull
  · cases htext
  · rfl

/-- What a JSON text stands for. -/
theorem ofText_eq (h : parse? s = some v) :
    ofText s =
      match Tree.ofJson? v with
      | none => .error .unrecognised
      | some node => node.toExpr.map some := by
  rw [ofText, if_neg (by simp [Json.isBlankText_of_parse? h])]
  simp only [Tree.parseJson, h]
  cases Tree.ofJson? v with
  | none => rfl
  | some node =>
    change (node.toExpr.bind fun e => .ok (some e)) = node.toExpr.map some
    cases node.toExpr <;> rfl

/-- **A tree may be given as text or as a value.**  A text that denotes a value stands for the same
expression as the value, or fails with the same error, so steps that are given the one or the other
have the same result; a text that denotes no value fails. -/
theorem text_and_value_agree (hparse : parse? s = some v) (hkeys : v.keysDistinct)
    (hnull : v ≠ .scalar .null) (htext : v.text? = none) :
    (∀ w, Denotes s w →
      ((∃ e, (text s).resolve = .ok (some e)) ∨ ∃ err, (text s).resolve = .error err) ∧
      (text s).resolve = (json w).resolve ∧
      ∀ q : Query, q.filterBy (text s) = q.filterBy (json w) ∧
        ∀ name, q.deriveBy name (text s) = q.deriveBy name (json w)) ∧
    ((∀ w, ¬ Denotes s w) → (text s).resolve = .error .unrecognised) := by
  have hof : (text s).resolve = _ := ofText_eq hparse
  constructor
  · rintro w ⟨v', hv', hreordered⟩
    obtain rfl : v' = v := by
      rw [parseReadable?, hparse, Option.bind_eq_bind, Option.bind_some] at hv'
      split at hv'
      · exact (Option.some.inj hv').symm
      · cases hv'
    rw [Json.lastWins_eq_self v' hkeys] at hreordered
    have hwnull : w ≠ .scalar .null := fun h => hnull (hreordered.symm.eq_scalar h)
    have hwtext : w.text? = none := by
      refine Option.eq_none_iff_forall_ne_some.mpr fun t ht => ?_
      rw [hreordered.symm.eq_scalar (Json.eq_text_of_text? ht)] at htext
      cases htext
    have hsame : (text s).resolve = (json w).resolve := by
      have hw : (json w).resolve = _ := ofJson_eq hwnull hwtext
      rw [hof, hw, Tree.ofJson?_reordered hreordered]
    refine ⟨?_, hsame, fun q => ⟨?_, fun name => ?_⟩⟩
    · rw [hof]
      cases Tree.ofJson? v' with
      | none => exact .inr ⟨_, rfl⟩
      | some node =>
        change (∃ e, node.toExpr.map some = .ok (some e)) ∨
          ∃ err, node.toExpr.map some = .error err
        cases node.toExpr with
        | error err => exact .inr ⟨err, rfl⟩
        | ok e => exact .inl ⟨e, rfl⟩
    · rw [Query.filterBy, hsame, Query.filterBy]
    · rw [Query.deriveBy, hsame, Query.deriveBy]
  · intro hnone
    have hv : ¬ v.readable := fun hv =>
      hnone _ ⟨v, by rw [parseReadable?, hparse]; exact if_pos hv, .same _⟩
    rw [hof, Tree.ofJson?, if_neg hv]

/-- A function over a nested operator, given as a value that has all members in another order. -/
theorem text_and_value_agree_report :
    let plus : List (String × Json) := [("operator", .text "+"), ("note", .scalar .null),
      ("args", .array [.object [("name", .text "n")], .object [("literal", .scalar (.integer 2))]])]
    let v : Json := .object [("function", .text "ABS"), ("args", .array [.object plus])]
    let w : Json := .object [("args", .array [.object plus.reverse]), ("function", .text "ABS")]
    let e : Expr := .call "ABS" [.binary (.named "n") "+" (.literal (.integer 2))]
    Denotes v.compact w ∧ (text v.compact).resolve = .ok (some e) ∧
      (text v.compact).resolve = (json w).resolve := by
  intro plus v w e
  have hparse : parse? v.compact = some v := Json.parse?_compact (by decide) (by decide)
  have hreordered : Json.Reordered v w :=
    .trans (.member [("function", .text "ABS")] [] "args"
      (.item [] [] (.order (List.reverse_perm plus).symm))) (.order (List.Perm.swap _ _ _))
  have hdenotes : Denotes v.compact w := ⟨v, by rw [parseReadable?, hparse]; rfl, hreordered⟩
  have hsame := ((text_and_value_agree hparse (by decide) (by simp) rfl).1 w hdenotes).2.1
  exact ⟨hdenotes, hsame, hsame⟩

end ExprArgument

end QuerySteps
