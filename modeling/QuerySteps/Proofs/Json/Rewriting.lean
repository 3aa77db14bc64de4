import QuerySteps.Json.Record
import QuerySteps.Proofs.Json.Nesting

/-!
# Values read and written again

A record may be read of an object or of an array, with fields in any order, unknown keys and fields
left out; it is written in one form only.  What matters for the text that is written is that it is
canonical if the text that was read is, and that it nests no deeper (`Rewritten`).  Both follow part
by part: every part that is written was read of a value that stands directly inside the value read
(`Inside`).

An array that was left out and is written empty may be one bracket too much.  The levels where that
happens are listed in `calls`.
-/

namespace QuerySteps.Json

variable {α : Type} {form : Form} {known : List String} {v w value record : Json} {key : String}

/-! ## What readers have read -/

theorem eq_text_of_text? {s : String} (h : v.text? = some s) : v = text s := by
  unfold text? at h
  split at h
  · cases h
    rfl
  · cases h

theorem eq_object_of_choice? (h : v.choice? = some (key, record)) : v = object [(key, record)] := by
  unfold choice? at h
  split at h
  · cases h
    rfl
  · cases h

theorem objectFields?_eq_some {members : List (String × Json)} {fields : List (Option Json)}
    (h : objectFields? known members = some fields) :
    fields = known.map fun key => members.lookup key := by
  unfold objectFields? at h
  split at h
  · exact (Option.some.inj h).symm
  · cases h

theorem all?_eq_some {read : Json → Option α} {xs : List α} (h : all? read v = some xs) :
    ∃ items, v = array items ∧ items.mapM read = some xs := by
  unfold all? at h
  split at h
  · next items => exact ⟨items, rfl, h⟩
  · cases h

private theorem mapM_cons_eq_some {read : Json → Option α} {item : Json} {items : List Json}
    {xs : List α} (h : (item :: items).mapM read = some xs) :
    ∃ x rest, read item = some x ∧ items.mapM read = some rest ∧ xs = x :: rest := by
  rw [List.mapM_cons] at h
  obtain ⟨x, hx, h⟩ := Option.bind_eq_some_iff.mp h
  obtain ⟨rest, hrest, h⟩ := Option.bind_eq_some_iff.mp h
  cases h
  exact ⟨x, rest, hx, hrest, rfl⟩

/-- Items are read one by one. -/
theorem exists_item {read : Json → Option α} {items : List Json} {xs : List α}
    (h : items.mapM read = some xs) : ∀ x ∈ xs, ∃ item ∈ items, read item = some x := by
  induction items generalizing xs with
  | nil =>
    cases h
    exact fun x hx => (List.not_mem_nil hx).elim
  | cons item items ih =>
    obtain ⟨first, rest, hfirst, hrest, rfl⟩ := mapM_cons_eq_some h
    intro x hx
    rcases List.mem_cons.mp hx with rfl | hx
    · exact ⟨item, List.mem_cons_self, hfirst⟩
    · obtain ⟨item', hitem', hread⟩ := ih hrest x hx
      exact ⟨item', List.mem_cons_of_mem _ hitem', hread⟩

/-- A list is written as it was read, if its items are. -/
theorem eq_array_of_all? {read : Json → Option α} {write : α → Json} {xs : List α}
    (hread : ∀ item x, read item = some x → item = write x) (h : all? read v = some xs) :
    v = array (xs.map write) := by
  obtain ⟨items, rfl, hitems⟩ := all?_eq_some h
  congr 1
  clear h
  induction items generalizing xs with
  | nil =>
    cases hitems
    rfl
  | cons item items ih =>
    obtain ⟨x, rest, hx, hrest, rfl⟩ := mapM_cons_eq_some hitems
    rw [List.map_cons, ← hread _ _ hx, ih hrest]

/-! ## Parts of values -/

/-- A value that stands directly inside another one. -/
structure Inside (value v : Json) : Prop where
  height : value.height < v.height
  canonical : v.isCanonical → value.isCanonical

theorem inside_array {items : List Json} (h : value ∈ items) : Inside value (array items) := by
  refine ⟨?_, fun hv => canonicalItems_iff.mp hv value h⟩
  have := heightItems_le_iff.mp (Nat.le_refl (heightItems items)) value h
  rw [height]
  omega

theorem inside_object {members : List (String × Json)} (h : (key, value) ∈ members) :
    Inside value (object members) := by
  refine ⟨?_, fun hv => canonicalMembers_iff.mp hv _ h⟩
  have : value.height ≤ heightMembers members :=
    heightMembers_le_iff.mp (Nat.le_refl _) _ h
  rw [height]
  omega

theorem inside_of_lookup {members : List (String × Json)} (h : members.lookup key = some value) :
    Inside value (object members) := by
  obtain ⟨front, rest, rfl, -⟩ := List.lookup_eq_some_iff.mp h
  exact inside_object (List.mem_append_right front List.mem_cons_self)

theorem inside_of_choice? (h : v.choice? = some (key, record)) : Inside record v := by
  rw [eq_object_of_choice? h]
  exact inside_object List.mem_cons_self

/-- A field stands inside its record, in either form. -/
theorem inside_of_fields? {asArray : Bool} {fields : List (Option Json)}
    (h : fields? form known v = some (asArray, fields)) :
    ∀ value, some value ∈ fields → Inside value v := by
  intro value hvalue
  unfold fields? at h
  split at h
  · obtain ⟨found, hfound, hpair⟩ := Option.map_eq_some_iff.mp h
    cases hpair
    rw [objectFields?_eq_some hfound] at hvalue
    obtain ⟨key, -, hkey⟩ := List.mem_map.mp hvalue
    exact inside_of_lookup hkey
  · obtain ⟨found, hfound, hpair⟩ := Option.map_eq_some_iff.mp h
    cases hpair
    unfold arrayFields? at hfound
    split at hfound
    · cases hfound
      obtain ⟨n, -, hn⟩ := List.mem_map.mp hvalue
      exact inside_array (List.mem_of_getElem? hn)
    · cases hfound
  · cases h

/-! ## Written again -/

/-- How `w`, written for what was read of `v` inside `depth` brackets, compares with `v`. -/
structure Rewritten (depth : Nat) (v w : Json) (calls : List Nat) : Prop where
  canonical : v.isCanonical → w.isCanonical
  height : depth + v.height ≤ deepest → deepest ∉ calls → depth + w.height ≤ deepest

variable {depth : Nat} {calls more : List Nat}

theorem rewritten_self (depth : Nat) (v : Json) (calls : List Nat) : Rewritten depth v v calls :=
  ⟨fun hv => hv, fun hheight _ => hheight⟩

theorem Rewritten.mono (h : Rewritten depth v w calls) (hsub : calls ⊆ more) :
    Rewritten depth v w more :=
  ⟨h.canonical, fun hheight hmore => h.height hheight fun hcalls => hmore (hsub hcalls)⟩

/-- An empty array needs no more room than any other array or object. -/
theorem rewritten_empty (h : 0 < v.height) (depth : Nat) (calls : List Nat) :
    Rewritten depth v (array []) calls := by
  refine ⟨fun _ => rfl, fun hheight _ => ?_⟩
  simp only [Json.height, heightItems]
  omega

/-- A written list is rewritten if its items are. -/
theorem rewritten_array {items : List Json} {xs : List α} {write : α → Json}
    (h : ∀ x ∈ xs, ∃ item ∈ items, Rewritten (depth + 1) item (write x) calls) :
    Rewritten depth (array items) (array (xs.map write)) calls := by
  refine ⟨fun hcanonical => canonicalItems_iff.mpr fun item hitem => ?_,
    fun hheight hcalls => ?_⟩
  · obtain ⟨x, hx, rfl⟩ := List.mem_map.mp hitem
    obtain ⟨item, hitem, hrewritten⟩ := h x hx
    exact hrewritten.canonical (canonicalItems_iff.mp hcanonical item hitem)
  · rw [Json.height] at hheight
    have hitems : heightItems (xs.map write) ≤ deepest - (depth + 1) := by
      refine heightItems_le_iff.mpr fun item hitem => ?_
      obtain ⟨x, hx, rfl⟩ := List.mem_map.mp hitem
      obtain ⟨item, hitem, hrewritten⟩ := h x hx
      have hitem := heightItems_le_iff.mp (Nat.le_refl _) item hitem
      have := hrewritten.height (by omega) hcalls
      omega
    rw [Json.height]
    omega

/-- What is written for a part of the value read. -/
def FromPart (depth : Nat) (v w : Json) (calls : List Nat) : Prop :=
  ∃ value, Inside value v ∧ Rewritten (depth + 1) value w calls

theorem FromPart.mono (h : FromPart depth v w calls) (hsub : calls ⊆ more) :
    FromPart depth v w more := by
  obtain ⟨value, hinside, hrewritten⟩ := h
  exact ⟨value, hinside, hrewritten.mono hsub⟩

/-- A part that is written as it is. -/
theorem Inside.fromPart (h : Inside value v) (depth : Nat) (calls : List Nat) :
    FromPart depth v value calls :=
  ⟨value, h, rewritten_self ..⟩

/-- A written record is rewritten if each of its parts is. -/
theorem rewritten_object {members : List (String × Json)} (hne : members ≠ [])
    (h : ∀ member ∈ members, FromPart depth v member.2 calls) :
    Rewritten depth v (object members) calls := by
  refine ⟨fun hcanonical => canonicalMembers_iff.mpr fun member hmember => ?_,
    fun hheight hcalls => ?_⟩
  · obtain ⟨value, hinside, hrewritten⟩ := h member hmember
    exact hrewritten.canonical (hinside.canonical hcanonical)
  · have hfits : ∀ member ∈ members, depth + 1 + member.2.height ≤ deepest := by
      intro member hmember
      obtain ⟨value, hinside, hrewritten⟩ := h member hmember
      have hvalue := hinside.height
      exact hrewritten.height (by omega) hcalls
    obtain ⟨first, rest, rfl⟩ := List.exists_cons_of_ne_nil hne
    have hfirst := hfits first List.mem_cons_self
    have hmembers : heightMembers (first :: rest) ≤ deepest - (depth + 1) := by
      refine heightMembers_le_iff.mpr fun member hmember => ?_
      have := hfits member hmember
      omega
    rw [Json.height]
    omega

/-- A choice is rewritten if its record is. -/
theorem rewritten_choice (h : FromPart depth v w calls) (key : String) :
    Rewritten depth v (object [(key, w)]) calls :=
  rewritten_object (List.cons_ne_nil _ _) (by simpa using h)

end QuerySteps.Json
