import Mathlib.Data.Option.Basic
import QuerySteps.Proofs.Json.Records
import QuerySteps.Proofs.Json.Rewriting
import QuerySteps.Proofs.Json.RoundTrip
import QuerySteps.Tree.Json

/-!
# What an object is read as

A node of a tree is read of an object by trying the kinds of nodes one after the other.  Which kind
it is read as can be said without the order of the attempts: an object may have the complete form of
several kinds (`Tree.Fits`), and is read as the first of them (`Tree.readJson?_object_iff`).  The
depth that the reader is given does not matter as long as it is enough, so the same holds of
`Tree.ofJson?`, at the top of a value and at every place inside `args`.

An object with the key `operator` is therefore an operator node if its operator record is well
formed, whatever its other keys are.  If the record is malformed the object is not refused at once:
it may still have the complete form of another kind, and then it is read as that.
-/

namespace QuerySteps

namespace Json

variable {members : List (String × Json)} {key k l : String} {value a b : Json}

/-- The key occurs once in the object, and has the given value. -/
def HasOnce (members : List (String × Json)) (key : String) (value : Json) : Prop :=
  members.filter (·.1 == key) = [(key, value)]

theorem lookup_eq_head?_filter (members : List (String × Json)) (key : String) :
    members.lookup key = (members.filter (·.1 == key)).head?.map Prod.snd := by
  induction members with
  | nil => rfl
  | cons member members ih =>
    obtain ⟨other, value⟩ := member
    by_cases h : other = key
    · simp [h]
    · have hother : (key == other) = false := beq_eq_false_iff_ne.mpr fun heq => h heq.symm
      rw [List.lookup_cons, hother, ih, List.filter_cons_of_neg (by simpa using h)]

theorem hasOnce_iff :
    HasOnce members key value ↔
      (members.filter (·.1 == key)).length ≤ 1 ∧ members.lookup key = some value := by
  have hkey : ∀ member ∈ members.filter (·.1 == key), member.1 = key := by simp
  rw [HasOnce, lookup_eq_head?_filter]
  cases h : members.filter (·.1 == key) with
  | nil => simp
  | cons first rest =>
    have hfirst : first.1 = key := hkey first (by simp [h])
    cases rest <;> simp [Prod.ext_iff, hfirst]

theorem HasOnce.lookup (h : HasOnce members key value) : members.lookup key = some value :=
  (hasOnce_iff.mp h).2

theorem HasOnce.mem_keys (h : HasOnce members key value) : key ∈ members.map Prod.fst := by
  have hmem : (key, value) ∈ members.filter (·.1 == key) := by
    rw [h]
    exact List.mem_cons_self
  exact List.mem_map.mpr ⟨_, (List.mem_filter.mp hmem).1, rfl⟩

theorem length_filter_of_lookup (h : members.lookup key = none) :
    (members.filter (·.1 == key)).length ≤ 1 := by
  rw [lookup_eq_head?_filter] at h
  have hnil : members.filter (·.1 == key) = [] := by simpa using h
  rw [hnil]
  exact Nat.zero_le 1

theorem objectFields?_eq_some_iff {known : List String} {fields : List (Option Json)} :
    objectFields? known members = some fields ↔
      (∀ key ∈ known, (members.filter (·.1 == key)).length ≤ 1) ∧
        known.map (fun key => members.lookup key) = fields := by
  simp [objectFields?, distinctKeys]

/-- An object whose two known keys are both there. -/
theorem objectFields?_both_iff :
    objectFields? [k, l] members = some [some a, some b] ↔
      HasOnce members k a ∧ HasOnce members l b := by
  simp only [objectFields?_eq_some_iff, hasOnce_iff]
  simp [and_and_and_comm]

/-- An object with the first of its two known keys alone. -/
theorem objectFields?_first_iff :
    objectFields? [k, l] members = some [some a, none] ↔
      HasOnce members k a ∧ members.lookup l = none := by
  simp only [objectFields?_eq_some_iff, hasOnce_iff]
  constructor
  · rintro ⟨hdistinct, hfields⟩
    obtain ⟨ha, hnone⟩ : members.lookup k = some a ∧ members.lookup l = none := by
      simpa only [List.map_cons, List.map_nil, List.cons.injEq, and_true] using hfields
    exact ⟨⟨hdistinct k (by simp), ha⟩, hnone⟩
  · rintro ⟨⟨hdistinct, ha⟩, hnone⟩
    refine ⟨?_, by simp only [List.map_cons, List.map_nil, ha, hnone]⟩
    simpa using ⟨hdistinct, length_filter_of_lookup hnone⟩

theorem objectFields?_single_iff :
    objectFields? [k] members = some [some a] ↔ HasOnce members k a := by
  simp only [objectFields?_eq_some_iff, hasOnce_iff]
  simp

theorem text?_eq_some_iff {s : String} : value.text? = some s ↔ value = text s :=
  ⟨eq_text_of_text?, fun h => h ▸ rfl⟩

/-- A list is read if each of its items is. -/
theorem all?_eq_some_iff {α : Type} {read : Json → Option α} {xs : List α} :
    all? read value = some xs ↔
      ∃ items, value = array items ∧ items.map read = xs.map some := by
  have hitems : ∀ (items : List Json) (xs : List α),
      items.mapM read = some xs ↔ items.map read = xs.map some := by
    intro items
    induction items with
    | nil => intro xs; cases xs <;> simp
    | cons item items ih =>
      intro xs
      simp only [List.mapM_cons, Option.bind_eq_bind, Option.bind_eq_some_iff, ih, Option.pure_def,
        Option.some.injEq, List.map_cons]
      constructor
      · rintro ⟨x, hx, rest, hrest, rfl⟩
        rw [hx, hrest, List.map_cons]
      · intro h
        obtain ⟨x, rest, rfl, hx, hrest⟩ := List.map_eq_cons_iff.mp h.symm
        exact ⟨x, hx.symm, rest, hrest.symm, rfl⟩
  constructor
  · intro h
    obtain ⟨items, rfl, hread⟩ := all?_eq_some h
    exact ⟨items, rfl, (hitems items xs).mp hread⟩
  · rintro ⟨items, rfl, hread⟩
    exact (hitems items xs).mpr hread

/-! ## Places inside `args` -/

/-- The items of the `args` of an object, if that is an array. -/
def argItems : Json → List Json
  | object members =>
    match members.lookup "args" with
    | some (array items) => items
    | _ => []
  | _ => []

/-- The value at a place inside `args`, given by the position at each level. -/
def argAt? : List Nat → Json → Option Json
  | [], v => some v
  | i :: path, v => v.argItems[i]? >>= argAt? path

theorem readable_argItems {v : Json} (h : v.readable) : ∀ item ∈ v.argItems, item.readable := by
  intro item hitem
  unfold argItems at hitem
  split at hitem
  · next members =>
    split at hitem
    · next items hlookup =>
      obtain ⟨front, rest, rfl, -⟩ := List.lookup_eq_some_iff.mp hlookup
      have hitems : (array items).readable :=
        readableMembers_iff.mp h ("args", _) (List.mem_append_right front List.mem_cons_self)
      exact readableItems_iff.mp hitems item hitem
    · exact (List.not_mem_nil hitem).elim
  · exact (List.not_mem_nil hitem).elim

/-- Every place inside a readable value has a readable value. -/
theorem readable_argAt? {path : List Nat} {v w : Json} (h : v.readable)
    (hw : v.argAt? path = some w) : w.readable := by
  induction path generalizing v with
  | nil =>
    obtain rfl := Option.some.inj hw
    exact h
  | cons i path ih =>
    obtain ⟨item, hitem, hw⟩ := Option.bind_eq_some_iff.mp hw
    exact ih (readable_argItems h item (List.mem_of_getElem? hitem)) hw

end Json

namespace Tree

open Json (HasOnce text?_eq_some_iff objectFields?_both_iff objectFields?_first_iff
  objectFields?_single_iff all?_eq_some_iff)

variable {members : List (String × Json)} {t : Tree}

/-! ## Which kind an object is read as -/

/-- The object as a node of each kind, with its parts read by the given reader. -/
inductive Fits (read : Json → Option Tree) (members : List (String × Json)) : Tree → Prop
  | operator {op : String} {items : List Json} {args : List Tree}
      (own : HasOnce members "operator" (.text op)) (given : HasOnce members "args" (.array items))
      (each : items.map read = args.map some) :
      Fits read members (.operator op args)
  | function {f : String} {items : List Json} {args : List Tree}
      (own : HasOnce members "function" (.text f)) (given : HasOnce members "args" (.array items))
      (each : items.map read = args.map some) :
      Fits read members (.function f args)
  | bareCall {f : String} (own : HasOnce members "function" (.text f))
      (leftOut : members.lookup "args" = none) : Fits read members (.function f [])
  | literal {v : Scalar} (own : HasOnce members "literal" (.scalar v)) :
      Fits read members (.literal v)
  | name {n : String} (own : HasOnce members "name" (.text n)) : Fits read members (.name n)

/-- The key that a kind of node has to itself. -/
def ownKey : Tree → String
  | operator _ _ => "operator"
  | function _ _ => "function"
  | literal _ => "literal"
  | name _ => "name"

/-- The place of a kind in the order in which the kinds are tried. -/
def rank : Tree → Nat
  | operator _ _ => 0
  | function _ _ => 1
  | literal _ => 2
  | name _ => 3

variable {read : Json → Option Tree} {u : Tree}

theorem Fits.ownKey_mem (h : t.Fits read members) : t.ownKey ∈ members.map Prod.fst := by
  cases h with
  | operator own _ _ => exact own.mem_keys
  | function own _ _ => exact own.mem_keys
  | bareCall own _ => exact own.mem_keys
  | literal own => exact own.mem_keys
  | name own => exact own.mem_keys

/-- An object with no kind's own key but that of `t` fits no kind that is tried before `t`. -/
theorem Fits.rank_le (h : u.Fits read members)
    (honly : ∀ key ∈ members.map Prod.fst, key = t.ownKey ∨ key = "args") : t.rank ≤ u.rank := by
  have hkey := honly _ h.ownKey_mem
  cases t <;> cases u <;> simp [ownKey, rank] at hkey ⊢

theorem operatorOf?_iff_fits :
    operatorOf? (Json.all? read) members = some t ↔ t.Fits read members ∧ t.rank = 0 := by
  simp only [operatorOf?, Option.bind_eq_bind, Option.bind_eq_some_iff]
  constructor
  · rintro ⟨fields, hfields, h⟩
    split at h
    · next op value =>
      obtain ⟨hop, hvalue⟩ := objectFields?_both_iff.mp hfields
      simp only [Option.bind_eq_some_iff, text?_eq_some_iff, all?_eq_some_iff] at h
      obtain ⟨op, rfl, args, ⟨items, rfl, hitems⟩, h⟩ := h
      cases h
      exact ⟨.operator hop hvalue hitems, rfl⟩
    · cases h
  · rintro ⟨hfits, hrank⟩
    cases hfits with
    | operator own given each =>
      have hargs := all?_eq_some_iff.mpr ⟨_, rfl, each⟩
      exact ⟨_, objectFields?_both_iff.mpr ⟨own, given⟩, by simp [hargs]⟩
    | _ => cases hrank

theorem functionOf?_iff_fits :
    functionOf? (Json.all? read) members = some t ↔ t.Fits read members ∧ t.rank = 1 := by
  simp only [functionOf?, Option.bind_eq_bind, Option.bind_eq_some_iff]
  constructor
  · rintro ⟨fields, hfields, h⟩
    split at h
    · next f value =>
      obtain ⟨hf, hvalue⟩ := objectFields?_both_iff.mp hfields
      simp only [Option.bind_eq_some_iff, text?_eq_some_iff, all?_eq_some_iff] at h
      obtain ⟨f, rfl, args, ⟨items, rfl, hitems⟩, h⟩ := h
      cases h
      exact ⟨.function hf hvalue hitems, rfl⟩
    · next f =>
      obtain ⟨hf, hnone⟩ := objectFields?_first_iff.mp hfields
      simp only [Option.bind_eq_some_iff, text?_eq_some_iff] at h
      obtain ⟨f, rfl, h⟩ := h
      cases h
      exact ⟨.bareCall hf hnone, rfl⟩
    · cases h
  · rintro ⟨hfits, hrank⟩
    cases hfits with
    | function own given each =>
      have hargs := all?_eq_some_iff.mpr ⟨_, rfl, each⟩
      exact ⟨_, objectFields?_both_iff.mpr ⟨own, given⟩, by simp [hargs]⟩
    | bareCall own leftOut => exact ⟨_, objectFields?_first_iff.mpr ⟨own, leftOut⟩, by simp⟩
    | _ => cases hrank

theorem literalOf?_iff_fits (read : Json → Option Tree) :
    literalOf? members = some t ↔ t.Fits read members ∧ t.rank = 2 := by
  simp only [literalOf?, Option.bind_eq_bind, Option.bind_eq_some_iff]
  constructor
  · rintro ⟨fields, hfields, h⟩
    split at h
    · cases h
      exact ⟨.literal (objectFields?_single_iff.mp hfields), rfl⟩
    · cases h
  · rintro ⟨hfits, hrank⟩
    cases hfits with
    | literal own => exact ⟨_, objectFields?_single_iff.mpr own, rfl⟩
    | _ => cases hrank

theorem nameOf?_iff_fits (read : Json → Option Tree) :
    nameOf? members = some t ↔ t.Fits read members ∧ t.rank = 3 := by
  simp only [nameOf?, Option.bind_eq_bind, Option.bind_eq_some_iff]
  constructor
  · rintro ⟨fields, hfields, h⟩
    split at h
    · simp only [Option.bind_eq_some_iff, text?_eq_some_iff] at h
      obtain ⟨n, rfl, h⟩ := h
      cases h
      exact ⟨.name (objectFields?_single_iff.mp hfields), rfl⟩
    · cases h
  · rintro ⟨hfits, hrank⟩
    cases hfits with
    | name own => exact ⟨_, objectFields?_single_iff.mpr own, by simp⟩
    | _ => cases hrank

/-- **An object is read as the first kind of node that it fits.** -/
theorem readJson?_object_iff {n : Nat} :
    readJson? (n + 1) (.object members) = some t ↔
      t.Fits (readJson? n) members ∧ ∀ u, Fits (readJson? n) members u → t.rank ≤ u.rank := by
  simp only [readJson?, Option.orElse_eq_some, Option.eq_none_iff_forall_ne_some, ne_eq,
    operatorOf?_iff_fits, functionOf?_iff_fits, literalOf?_iff_fits (readJson? n),
    nameOf?_iff_fits (readJson? n)]
  constructor
  · rintro (⟨h, hrank⟩ | ⟨h₀, ⟨h, hrank⟩ | ⟨h₁, ⟨h, hrank⟩ | ⟨h₂, h, hrank⟩⟩⟩) <;>
      refine ⟨h, fun u hu => ?_⟩
    · omega
    · have : u.rank ≠ 0 := fun hr => h₀ u ⟨hu, hr⟩
      omega
    · have : u.rank ≠ 0 := fun hr => h₀ u ⟨hu, hr⟩
      have : u.rank ≠ 1 := fun hr => h₁ u ⟨hu, hr⟩
      omega
    · have : u.rank ≠ 0 := fun hr => h₀ u ⟨hu, hr⟩
      have : u.rank ≠ 1 := fun hr => h₁ u ⟨hu, hr⟩
      have : u.rank ≠ 2 := fun hr => h₂ u ⟨hu, hr⟩
      omega
  · rintro ⟨h, hfirst⟩
    have hearlier : ∀ k < t.rank, ∀ u : Tree, ¬ (u.Fits (readJson? n) members ∧ u.rank = k) := by
      rintro k hk u ⟨hu, rfl⟩
      exact absurd (hfirst u hu) (Nat.not_le.mpr hk)
    obtain hrank | hrank | hrank | hrank :
        t.rank = 0 ∨ t.rank = 1 ∨ t.rank = 2 ∨ t.rank = 3 := by
      cases t <;> simp [rank]
    · exact .inl ⟨h, hrank⟩
    · exact .inr ⟨hearlier 0 (by omega), .inl ⟨h, hrank⟩⟩
    · exact .inr ⟨hearlier 0 (by omega), .inr ⟨hearlier 1 (by omega), .inl ⟨h, hrank⟩⟩⟩
    · exact .inr ⟨hearlier 0 (by omega), .inr ⟨hearlier 1 (by omega),
        .inr ⟨hearlier 2 (by omega), h, hrank⟩⟩⟩

theorem readJson?_object_congr {members' : List (String × Json)} {n m : Nat}
    (h : ∀ u, Fits (readJson? n) members u ↔ Fits (readJson? m) members' u) :
    readJson? (n + 1) (.object members) = readJson? (m + 1) (.object members') := by
  refine Option.ext fun t => ?_
  simp only [readJson?_object_iff, h]

/-- What an object fits depends on its scalars and on what is read of its arguments. -/
theorem Fits.transfer {read' : Json → Option Tree} {members' : List (String × Json)}
    (hscalar : ∀ key v, HasOnce members key (.scalar v) → HasOnce members' key (.scalar v))
    (hargs : ∀ items, HasOnce members "args" (.array items) →
      ∃ items', HasOnce members' "args" (.array items') ∧ items'.map read' = items.map read)
    (hnone : members.lookup "args" = none → members'.lookup "args" = none)
    (h : t.Fits read members) : t.Fits read' members' := by
  cases h with
  | operator own given each =>
    obtain ⟨items', given', hsame⟩ := hargs _ given
    exact .operator (hscalar _ _ own) given' (hsame.trans each)
  | function own given each =>
    obtain ⟨items', given', hsame⟩ := hargs _ given
    exact .function (hscalar _ _ own) given' (hsame.trans each)
  | bareCall own leftOut => exact .bareCall (hscalar _ _ own) (hnone leftOut)
  | literal own => exact .literal (hscalar _ _ own)
  | name own => exact .name (hscalar _ _ own)

/-- The same object is read alike by readers that read its arguments alike. -/
theorem Fits.congr {read' : Json → Option Tree}
    (hread : ∀ items, HasOnce members "args" (.array items) →
      ∀ item ∈ items, read' item = read item) :
    t.Fits read members ↔ t.Fits read' members := by
  constructor
  · exact Fits.transfer (fun _ _ h => h)
      (fun items hitems => ⟨items, hitems, List.map_congr_left (hread items hitems)⟩) id
  · exact Fits.transfer (fun _ _ h => h)
      (fun items hitems => ⟨items, hitems, (List.map_congr_left (hread items hitems)).symm⟩) id

/-! ## The depth that is allowed for -/

theorem height_arg_lt {items : List Json} (h : HasOnce members "args" (.array items)) :
    ∀ item ∈ items, item.height < Json.heightMembers members := by
  intro item hitem
  have harray := (Json.inside_array hitem).height
  have hobject := (Json.inside_of_lookup h.lookup).height
  simp only [Json.height] at harray hobject
  omega

/-- What is read does not depend on the depth that is allowed for, if that is enough. -/
theorem readJson?_eq_of_height {n m : Nat} {v : Json} (hn : v.height ≤ n) (hm : v.height ≤ m) :
    readJson? n v = readJson? m v := by
  induction n generalizing m v with
  | zero => cases v <;> simp_all [readJson?, Json.height]
  | succ n ih =>
    cases v with
    | object members =>
      rw [Json.height] at hn hm
      obtain ⟨m, rfl⟩ := Nat.exists_eq_succ_of_ne_zero (by omega : m ≠ 0)
      refine readJson?_object_congr fun u => Fits.congr fun items hitems item hitem => ?_
      have := height_arg_lt hitems item hitem
      exact (ih (by omega) (by omega)).symm
    | _ => simp [readJson?]

theorem readable_arg {items : List Json} (hreadable : Json.readableMembers members)
    (h : HasOnce members "args" (.array items)) : ∀ item ∈ items, item.readable := by
  simpa only [Json.argItems, h.lookup] using Json.readable_argItems (v := .object members) hreadable

/-- **A readable object is read as the first kind of node that it fits.** -/
theorem ofJson?_object_iff (hreadable : (Json.object members).readable) :
    ofJson? (.object members) = some t ↔
      t.Fits ofJson? members ∧ ∀ u, Fits ofJson? members u → t.rank ≤ u.rank := by
  have hfits : ∀ u, Fits (readJson? (Json.heightMembers members)) members u ↔
      Fits ofJson? members u := by
    refine fun u => Fits.congr fun items hitems item hitem => ?_
    rw [ofJson?, if_pos (readable_arg hreadable hitems item hitem)]
    exact readJson?_eq_of_height (Nat.le_refl _) (Nat.le_of_lt (height_arg_lt hitems item hitem))
  rw [ofJson?, if_pos hreadable, Json.height, readJson?_object_iff]
  simp only [hfits]

/-! ## The nodes of a tree -/

/-- The arguments of a node. -/
def args : Tree → List Tree
  | operator _ args => args
  | function _ args => args
  | _ => []

/-- The node at a place inside the arguments, given by the position at each level. -/
def nodeAt? : List Nat → Tree → Option Tree
  | [], t => some t
  | i :: path, t => t.args[i]? >>= nodeAt? path

theorem Fits.exists_item {i : Nat} {arg : Tree} (h : t.Fits read members)
    (harg : t.args[i]? = some arg) :
    ∃ item, (Json.object members).argItems[i]? = some item ∧ read item = some arg := by
  have hitem : ∀ {items : List Json} {args : List Tree},
      HasOnce members "args" (.array items) → items.map read = args.map some →
      args[i]? = some arg →
      ∃ item, (Json.object members).argItems[i]? = some item ∧ read item = some arg := by
    intro items args given each harg
    have hget : (items.map read)[i]? = some (some arg) := by
      rw [each, List.getElem?_map, harg, Option.map_some]
    rw [List.getElem?_map] at hget
    obtain ⟨item, hitem, hread⟩ := Option.map_eq_some_iff.mp hget
    refine ⟨item, ?_, hread⟩
    simpa only [Json.argItems, given.lookup] using hitem
  cases h with
  | operator own given each => exact hitem given each harg
  | function own given each => exact hitem given each harg
  | bareCall own leftOut => cases harg
  | literal own => cases harg
  | name own => cases harg

/-- A value that is read as a tree is an object, and readable. -/
theorem eq_object_of_ofJson? {v : Json} (h : ofJson? v = some t) :
    ∃ members, v = .object members ∧ (Json.object members).readable := by
  unfold ofJson? at h
  split at h
  · next hreadable =>
    cases v with
    | object members => exact ⟨members, rfl, hreadable⟩
    | _ => simp [readJson?] at h
  · cases h

/-- **Every node of a tree was read of the value at its place.** -/
theorem ofJson?_argAt? {v : Json} {path : List Nat} (h : ofJson? v = some t)
    (hu : t.nodeAt? path = some u) : ∃ w, v.argAt? path = some w ∧ ofJson? w = some u := by
  induction path generalizing v t with
  | nil =>
    obtain rfl := Option.some.inj hu
    exact ⟨v, rfl, h⟩
  | cons i path ih =>
    obtain ⟨arg, harg, hu⟩ := Option.bind_eq_some_iff.mp hu
    obtain ⟨members, rfl, hreadable⟩ := eq_object_of_ofJson? h
    obtain ⟨item, hitem, hread⟩ := ((ofJson?_object_iff hreadable).mp h).1.exists_item harg
    obtain ⟨w, hw, hwu⟩ := ih hread hu
    exact ⟨w, by rw [Json.argAt?, hitem]; exact hw, hwu⟩

/-! ## Operator records -/

/-- What an object is read as: its operator record, if that is well formed; otherwise the first of
the other kinds that it has the complete form of. -/
inductive RecordOutcome (members : List (String × Json)) : Tree → Prop
  | record {op : String} {args : List Tree} (fits : (operator op args).Fits ofJson? members) :
      RecordOutcome members (operator op args)
  | other {u : Tree} (malformed : ∀ op args, ¬ (operator op args).Fits ofJson? members)
      (fits : u.Fits ofJson? members) (kind : u.ownKey ∈ ["function", "literal", "name"])
      (present : u.ownKey ∈ members.map Prod.fst)
      (first : ∀ w, Fits ofJson? members w → u.rank ≤ w.rank) : RecordOutcome members u

theorem recordOutcome_of_ofJson? (h : ofJson? (.object members) = some t) :
    RecordOutcome members t := by
  obtain ⟨members', heq, hreadable⟩ := eq_object_of_ofJson? h
  obtain rfl := Json.object.inj heq
  obtain ⟨hfits, hfirst⟩ := (ofJson?_object_iff hreadable).mp h
  cases t with
  | operator op args => exact .record hfits
  | _ =>
    -- an operator node would have come first
    refine .other (fun op args hop => ?_) hfits (by simp [ownKey]) hfits.ownKey_mem hfirst
    simpa [rank] using hfirst _ hop

theorem ofJson?_operator {op : String} {args : List Tree}
    (hreadable : (Json.object members).readable)
    (h : (operator op args).Fits ofJson? members) :
    ofJson? (.object members) = some (operator op args) :=
  (ofJson?_object_iff hreadable).mpr ⟨h, fun _ _ => Nat.zero_le _⟩

/-- **A readable object is read as its outcome**, and refused only if it has none. -/
theorem ofJson?_iff_recordOutcome (hreadable : (Json.object members).readable) :
    ofJson? (.object members) = some t ↔ RecordOutcome members t := by
  constructor
  · exact recordOutcome_of_ofJson?
  · intro h
    cases h with
    | record fits => exact ofJson?_operator hreadable fits
    | other malformed fits kind present first =>
      exact (ofJson?_object_iff hreadable).mpr ⟨fits, first⟩

theorem parseJson_eq_ok_iff {s : String} {v : Json} (hparse : Json.parse? s = some v) :
    parseJson s = .ok t ↔ ofJson? v = some t := by
  simp only [parseJson, hparse]
  cases ofJson? v <;> simp

/-- **An object with the key `operator` is read as its operator record if that is well formed,
whatever its other keys are.**  A malformed record makes the object unrecognised, unless the object
also has the complete form of a function, a literal or a name: then it is read as the first of
these.  The same holds at every place inside `args`.

What is read and what the outcome is are equivalent, so that nothing that has an outcome is
refused. -/
theorem operator_key_read {s : String} {v : Json} (hparse : Json.parse? s = some v) :
    (∀ members op args, v = .object members → v.readable →
      (operator op args).Fits ofJson? members → parseJson s = .ok (operator op args)) ∧
    (∀ members t, v = .object members → v.readable →
      (parseJson s = .ok t ↔ RecordOutcome members t)) ∧
    (∀ path members u, v.readable → v.argAt? path = some (.object members) →
      (ofJson? (.object members) = some u ↔ RecordOutcome members u)) ∧
    (∀ e, parseJson s = .error e → e = .unrecognised) ∧
    ∀ t, parseJson s = .ok t → ∀ path u, t.nodeAt? path = some u →
      ∃ members, v.argAt? path = some (.object members) ∧ RecordOutcome members u := by
  refine ⟨?_, ?_, ?_, ?_, ?_⟩
  · rintro members op args rfl hreadable hfits
    exact (parseJson_eq_ok_iff hparse).mpr (ofJson?_operator hreadable hfits)
  · rintro members t rfl hreadable
    rw [parseJson_eq_ok_iff hparse, ofJson?_iff_recordOutcome hreadable]
  · intro path members u hreadable hat
    exact ofJson?_iff_recordOutcome (Json.readable_argAt? hreadable hat)
  · intro e he
    simp only [parseJson, hparse] at he
    split at he
    · exact (Except.error.inj he).symm
    · cases he
  · intro t ht path u hu
    obtain ⟨w, hw, hwu⟩ := ofJson?_argAt? ((parseJson_eq_ok_iff hparse).mp ht) hu
    obtain ⟨members, rfl, -⟩ := eq_object_of_ofJson? hwu
    exact ⟨members, hw, recordOutcome_of_ofJson? hwu⟩

/-- An operator without arguments that also has a name, as the argument of a well-formed record that
has a name as well. -/
theorem operator_key_read_nested :
    let inner : List (String × Json) := [("operator", .text "+"), ("name", .text "x")]
    let v : Json := .object [("name", .text "y"), ("operator", .text "NOT"),
      ("args", .array [.object inner])]
    Json.parse? v.compact = some v ∧
    parseJson v.compact = .ok (operator "NOT" [name "x"]) ∧
    v.argAt? [0] = some (.object inner) ∧ RecordOutcome inner (name "x") ∧
    ofJson? (.object inner) = some (name "x") := by
  intro inner v
  have hparse : Json.parse? v.compact = some v := Json.parse?_compact (by decide) (by decide)
  have hfits : (operator "NOT" [name "x"]).Fits ofJson?
      [("name", .text "y"), ("operator", .text "NOT"), ("args", .array [.object inner])] :=
    .operator rfl rfl rfl
  obtain ⟨hrecord, -, hplaces, -, hnodes⟩ := operator_key_read hparse
  have hread := hrecord _ _ _ rfl (by decide) hfits
  obtain ⟨members, hat, houtcome⟩ := hnodes _ hread [0] (name "x") rfl
  cases hat
  exact ⟨hparse, hread, rfl, houtcome, (hplaces [0] inner _ (by decide) rfl).mpr houtcome⟩

/-- An object with the key `operator` may be read as a node of another kind. -/
theorem operator_key_read_as_name :
    ¬ ∀ s members, Json.parse? s = some (.object members) → "operator" ∈ members.map Prod.fst →
      (∃ op args, parseJson s = .ok (operator op args)) ∨ ∃ e, parseJson s = .error e := by
  intro h
  have hparse : Json.parse? "\x7b\"operator\": \"+\", \"name\": \"x\"\x7d" =
      some (.object [("operator", .text "+"), ("name", .text "x")]) := by cbv
  have hread : parseJson "\x7b\"operator\": \"+\", \"name\": \"x\"\x7d" = .ok (name "x") := by cbv
  rcases h _ _ hparse (by decide) with ⟨op, args, hop⟩ | ⟨e, he⟩
  · cases hread.symm.trans hop
  · cases hread.symm.trans he

end Tree

end QuerySteps
