import QuerySteps.Json.Record
import QuerySteps.Proofs.Json.Nesting

/-!
# Written records

A record that is written as an object with all its fields in order is read with all of them, and a
list that is written item by item is read item by item.  Inside too many brackets there is nothing
to read: then neither the fields of a record nor the name of a choice are found.
-/

namespace QuerySteps.Json

variable {α : Type}

@[simp] theorem text?_text (s : String) : (text s).text? = some s := rfl

@[simp] theorem cut_text (depth : Nat) (s : String) : (text s).cut depth = text s := rfl

/-! ## Fields -/

private theorem filter_zip_length {known : List String} (hnodup : known.Nodup)
    {values : List Json} (hlength : known.length = values.length) (key : String) :
    ((known.zip values).filter (·.1 == key)).length ≤ 1 := by
  have hkeys : (known.zip values).map Prod.fst = known :=
    List.map_fst_zip (Nat.le_of_eq hlength)
  have hcount : ((known.zip values).filter (·.1 == key)).length = known.count key := by
    conv => rhs; rw [← hkeys]
    rw [List.count_eq_countP, List.countP_map, List.countP_eq_length_filter]
    rfl
  rw [hcount]
  exact List.nodup_iff_count.mp hnodup key

private theorem map_lookup_zip {known : List String} (hnodup : known.Nodup)
    {values : List Json} (hlength : known.length = values.length) :
    known.map (fun key => (known.zip values).lookup key) = values.map some := by
  induction known generalizing values with
  | nil =>
    obtain rfl := List.length_eq_zero_iff.mp hlength.symm
    rfl
  | cons key known ih =>
    cases values with
    | nil => cases hlength
    | cons value values =>
      obtain ⟨hkey, hrest⟩ := List.nodup_cons.mp hnodup
      have hlookups := ih hrest (Nat.succ.inj hlength)
      have hskip : ∀ other ∈ known, (((key, value) :: known.zip values).lookup other) =
          (known.zip values).lookup other := by
        intro other hother
        have hne : other ≠ key := by
          rintro rfl
          exact hkey hother
        rw [List.lookup_cons, beq_eq_false_iff_ne.mpr hne]
      rw [List.zip_cons_cons, List.map_cons, List.map_congr_left hskip, hlookups]
      simp

/-- **A record written with all its fields is read with all of them.** -/
theorem objectFields?_zip (known : List String) (values : List Json) (hnodup : known.Nodup)
    (hlength : known.length = values.length) :
    objectFields? known (known.zip values) = some (values.map some) := by
  have hdistinct : distinctKeys known (known.zip values) := by
    simp only [distinctKeys, List.all_eq_true, decide_eq_true_eq]
    exact fun key _ => filter_zip_length hnodup hlength key
  rw [objectFields?, if_pos hdistinct, map_lookup_zip hnodup hlength]

theorem fields?_zip (form : Form) (known : List String) (values : List Json)
    (hnodup : known.Nodup) (hlength : known.length = values.length) :
    fields? form known (object (known.zip values)) = some (false, values.map some) := by
  rw [fields?, objectFields?_zip known values hnodup hlength, Option.map_some]

section

variable {form : Form} {k l m : String} (a b c : Json)

theorem fields?_pair (hkl : k ≠ l) :
    fields? form [k, l] (object [(k, a), (l, b)]) = some (false, [some a, some b]) :=
  fields?_zip form [k, l] [a, b] (by simp [hkl]) rfl

theorem fields?_triple (hkl : k ≠ l) (hkm : k ≠ m) (hlm : l ≠ m) :
    fields? form [k, l, m] (object [(k, a), (l, b), (m, c)]) =
      some (false, [some a, some b, some c]) :=
  fields?_zip form [k, l, m] [a, b, c] (by simp [hkl, hkm, hlm]) rfl

end

/-! ## Lists -/

theorem all?_cons {read : Json → Option α} {item : Json} {items : List Json} {x : α} {xs : List α}
    (h : read item = some x) (hrest : all? read (array items) = some xs) :
    all? read (array (item :: items)) = some (x :: xs) := by
  rw [all?] at hrest ⊢
  simp [h, hrest]

/-- Items that are read one by one are read together. -/
theorem all?_map {read : Json → Option α} {write : α → Json} {xs : List α}
    (h : ∀ x ∈ xs, read (write x) = some x) : all? read (array (xs.map write)) = some xs := by
  induction xs with
  | nil => rfl
  | cons x xs ih =>
    exact all?_cons (h x List.mem_cons_self) (ih fun y hy => h y (List.mem_cons_of_mem _ hy))

/-- Items cannot be read together if one of them cannot be read. -/
theorem all?_eq_none {read : Json → Option α} {items : List Json} {item : Json}
    (hitem : item ∈ items) (h : read item = none) : all? read (array items) = none := by
  rw [all?]
  induction items with
  | nil => cases hitem
  | cons first items ih =>
    rw [List.mapM_cons]
    rcases List.mem_cons.mp hitem with rfl | hitem
    · rw [h]
      rfl
    · rw [ih hitem]
      cases read first <;> rfl

/-! ## Inside brackets -/

/-- Nothing is read of a choice if nothing is read of its record, or if there is no room for it. -/
theorem read_cut_choice {read : Json → Option α} (hnone : read unreadable = none) {key : String}
    {record : Json} {depth : Nat}
    (h : depth < deepest → read (object [(key, record.cut (depth + 1))]) = none) :
    read ((object [(key, record)]).cut depth) = none := by
  rw [cut, nested]
  split
  · next hlt => exact h hlt
  · exact hnone

theorem fields?_cut_pair {form : Form} {k l : String} (hkl : k ≠ l) (a b : Json) (depth : Nat) :
    fields? form [k, l] ((object [(k, a), (l, b)]).cut depth) =
      if depth < deepest then
        some (false, [some (a.cut (depth + 1)), some (b.cut (depth + 1))])
      else none := by
  rw [cut, nested]
  split
  · exact fields?_pair _ _ hkl
  · rfl

theorem fields?_cut_triple {form : Form} {k l m : String} (hkl : k ≠ l) (hkm : k ≠ m)
    (hlm : l ≠ m) (a b c : Json) (depth : Nat) :
    fields? form [k, l, m] ((object [(k, a), (l, b), (m, c)]).cut depth) =
      if depth < deepest then
        some (false, [some (a.cut (depth + 1)), some (b.cut (depth + 1)),
          some (c.cut (depth + 1))])
      else none := by
  rw [cut, nested]
  split
  · exact fields?_triple _ _ _ hkl hkm hlm
  · rfl

theorem all?_cut {read : Json → Option α} (items : List Json) (depth : Nat) :
    all? read ((array items).cut depth) =
      if depth < deepest then all? read (array (items.map (cut (depth + 1)))) else none := by
  rw [cut, nested, cutItems_eq_map]
  split <;> rfl

end QuerySteps.Json
