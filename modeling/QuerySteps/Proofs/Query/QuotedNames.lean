import Mathlib.Data.List.Chain
import QuerySteps.Proofs.Query.Parts
import QuerySteps.Proofs.Store.Quoting

/-!
# Reading quoted names

SQL reads a quoted name up to the first double quote that is not doubled.  The compiler puts quotes
around a name and leaves the name as it is.  So a name without quotes is read as itself, and a name
with one is not (`Query.names_read_iff`).

For the first half a quote that closes a name must not be followed by another quote, or SQL would
take both for one in the name.  This is a property of the separators alone: between two parts of a
statement, one of them ends or starts with a character that is no quote (`Spaced`), whatever names
and texts stand in them.  The same property makes the parts independent: the statement is read part
by part, if every part can be read by itself (`Spaced.reads_iff`).  Texts that are written as they
are can fail to be, such as a literal with an apostrophe; this is a premise on those parts.
-/

namespace QuerySteps

/-! ## No quote meets another -/

namespace Part

/-- The part has a first character, and it is no quote. -/
def Starts (p : Part) : Prop := ∃ c ∈ p.sql.toList.head?, ¬ Store.IsQuote c

/-- The part has a last character, and it is no quote. -/
def Ends (p : Part) : Prop := ∃ c ∈ p.sql.toList.getLast?, ¬ Store.IsQuote c

-- found by search, an instance could go through all characters there are
instance (p : Part) : Decidable p.Starts := Option.decidableExistsMem p.sql.toList.head?

instance (p : Part) : Decidable p.Ends := Option.decidableExistsMem p.sql.toList.getLast?

/-- A part behind which another one starts anew. -/
def Apart (p q : Part) : Prop := p.Ends ∨ q.Starts

/-- A text that keeps what is before it apart from what is behind it. -/
def Separates (p : Part) : Prop := p.Starts ∧ p.Ends

instance (p : Part) : Decidable p.Separates := inferInstanceAs (Decidable (_ ∧ _))

end Part

/-- Parts of which each starts anew behind the one before it. -/
def Spaced (parts : List Part) : Prop := parts.IsChain Part.Apart

theorem spaced_cons {p : Part} (hp : p.Ends) {parts : List Part} (h : Spaced parts) :
    Spaced (p :: parts) :=
  List.isChain_cons.mpr ⟨fun _ _ => .inl hp, h⟩

theorem spaced_cons_cons {p q : Part} (hq : q.Starts) {parts : List Part}
    (h : Spaced (q :: parts)) : Spaced (p :: q :: parts) :=
  List.isChain_cons_cons.mpr ⟨.inr hq, h⟩

theorem spaced_append {p : Part} (hp : p.Starts) {first second : List Part} (hfirst : Spaced first)
    (hsecond : Spaced (p :: second)) : Spaced (first ++ p :: second) := by
  refine List.isChain_append.mpr ⟨hfirst, hsecond, fun _ _ q hq => .inr ?_⟩
  obtain rfl : p = q := by simpa using hq
  exact hp

theorem spaced_joinParts {separator : String} (hseparator : (Part.bare separator).Separates)
    {items : List (List Part)} (h : ∀ item ∈ items, Spaced item) :
    Spaced (joinParts separator items) := by
  induction items with
  | nil => exact .nil
  | cons item items ih =>
    have hitem := h item List.mem_cons_self
    have hrest := ih fun next hnext => h next (List.mem_cons_of_mem _ hnext)
    cases items with
    | nil => simpa [joinParts] using hitem
    | cons next items =>
      rw [joinParts_cons_cons]
      exact spaced_append hseparator.1 hitem (spaced_cons hseparator.2 hrest)

theorem Selected.spaced_parts (s : Selected) : Spaced s.parts := by
  obtain ⟨expr, newName⟩ := s
  cases newName with
  | none => exact .singleton _
  | some newName => exact spaced_cons_cons (by decide) (spaced_cons (by decide) (.singleton _))

theorem spaced_derivedParts (column : String × Expr) : Spaced (derivedParts column) :=
  spaced_cons_cons (by decide) (spaced_cons (by decide) (.singleton _))

/-- A line of a statement: a keyword, and what follows it. -/
def IsLine (line : List Part) : Prop :=
  ∃ keyword rest, line = .bare keyword :: rest ∧ (Part.bare keyword).Separates ∧ Spaced rest

theorem isLine_cons {keyword : String} (hkeyword : (Part.bare keyword).Separates)
    {rest : List Part} (hrest : Spaced rest) : IsLine (.bare keyword :: rest) :=
  ⟨keyword, rest, rfl, hkeyword, hrest⟩

namespace Clauses

variable (c : Clauses)

theorem spaced_projectionParts : ∀ item ∈ c.projectionParts, Spaced item := by
  have hstar : Spaced [.bare "*"] := .singleton _
  have hcolumns : ∀ item ∈ c.columnParts, Spaced item := by
    intro item hitem
    rcases List.mem_append.mp hitem with hitem | hderived
    · rcases List.mem_append.mp hitem with hall | hcolumn
      · split at hall
        · exact List.mem_singleton.mp hall ▸ hstar
        · exact (List.not_mem_nil hall).elim
      · obtain ⟨s, -, rfl⟩ := List.mem_map.mp hcolumn
        exact s.spaced_parts
    · obtain ⟨column, -, rfl⟩ := List.mem_map.mp hderived
      exact spaced_derivedParts column
  unfold projectionParts
  split
  · exact fun item hitem => List.mem_singleton.mp hitem ▸ hstar
  · exact hcolumns

theorem isLine_lineParts {source : List Part} (h : Spaced source) :
    ∀ line ∈ c.lineParts source, IsLine line := by
  have hfilters : ∀ item ∈ c.filters.map fun e => [Part.bare e.sql], Spaced item := by
    intro item hitem
    obtain ⟨e, -, rfl⟩ := List.mem_map.mp hitem
    exact .singleton _
  have hkeys : ∀ item ∈ c.groupBy.map fun key => [Part.name key], Spaced item := by
    intro item hitem
    obtain ⟨key, -, rfl⟩ := List.mem_map.mp hitem
    exact .singleton _
  intro line hline
  simp only [lineParts, List.mem_append, List.mem_cons, List.not_mem_nil, or_false] at hline
  rcases hline with (((rfl | rfl) | hfilter) | hgroup) | hsample
  · exact isLine_cons (by decide) (spaced_joinParts (by decide) c.spaced_projectionParts)
  · exact isLine_cons (by decide) h
  · obtain rfl := eq_of_mem_unless hfilter
    exact isLine_cons (by decide) (spaced_joinParts (by decide) hfilters)
  · obtain rfl := eq_of_mem_unless hgroup
    exact isLine_cons (by decide) (spaced_joinParts (by decide) hkeys)
  · unfold sampleParts at hsample
    split at hsample
    · obtain rfl := List.mem_singleton.mp hsample
      exact isLine_cons (by decide) (spaced_cons_cons (by decide) (.singleton _))
    · exact (List.not_mem_nil hsample).elim

end Clauses

namespace Join

theorem Output.spaced_parts (o : Output) : Spaced o.parts :=
  spaced_cons_cons (by decide) (spaced_cons (by decide) (.singleton _))

theorem spaced_comparisonParts (c : Criterion) : Spaced (comparisonParts c) := by
  have hop : Spaced (.bare c.op :: .bare " " ::
      (Output.parts ⟨rightName, c.right⟩ ++ [.bare " )"])) :=
    spaced_cons_cons (by decide)
      (spaced_cons (by decide) (spaced_append (by decide) (Output.spaced_parts _) (.singleton _)))
  exact spaced_cons (by decide)
    (spaced_append (by decide) (Output.spaced_parts _) (spaced_cons (by decide) hop))

theorem isLine_lineParts (criteria : List Criterion) (leftColumns rightColumns : List Column)
    {left right : List Part} (hleft : Spaced left) (hright : Spaced right) :
    ∀ line ∈ lineParts criteria leftColumns rightColumns left right, IsLine line := by
  have houtputs : ∀ item ∈ (outputs criteria leftColumns rightColumns).map Output.parts,
      Spaced item := by
    intro item hitem
    obtain ⟨o, -, rfl⟩ := List.mem_map.mp hitem
    exact o.spaced_parts
  have hcomparisons : ∀ item ∈ criteria.map comparisonParts, Spaced item := by
    intro item hitem
    obtain ⟨c, -, rfl⟩ := List.mem_map.mp hitem
    exact spaced_comparisonParts c
  intro line hline
  simp only [lineParts, List.mem_append, List.mem_cons, List.not_mem_nil, or_false] at hline
  rcases hline with (rfl | rfl) | hconditions
  · exact isLine_cons (by decide) (spaced_joinParts (by decide) houtputs)
  · refine isLine_cons (by decide) (spaced_append (by decide) hleft (spaced_cons (by decide) ?_))
    exact spaced_append (by decide) hright (.singleton _)
  · obtain rfl := eq_of_mem_unless hconditions
    exact isLine_cons (by decide) (spaced_joinParts (by decide) hcomparisons)

end Join

theorem spaced_bodyParts (depth : Nat) {lines : List (List Part)}
    (h : ∀ line ∈ lines, IsLine line) : Spaced (bodyParts depth lines) := by
  refine spaced_joinParts (by decide) fun item hitem => ?_
  obtain ⟨line, hline, rfl⟩ := List.mem_map.mp hitem
  obtain ⟨keyword, rest, rfl, hkeyword, hrest⟩ := h line hline
  exact spaced_cons_cons hkeyword.1 (spaced_cons hkeyword.2 hrest)

theorem spaced_placedParts (outer : Bool) (depth : Nat) {body : List Part} (h : Spaced body) :
    Spaced (placedParts outer depth body) := by
  cases outer with
  | true => exact h
  | false =>
    refine spaced_cons (by decide) (spaced_append (by decide) h ?_)
    exact spaced_cons (by decide) (spaced_cons_cons (by decide) (.singleton _))

theorem Query.spaced_parts {b : Backend} {q : Query} {outer : Bool} {depth : Nat}
    {parts : List Part} (h : (q.parts b outer depth).result = .ok parts) : Spaced parts := by
  induction q generalizing outer depth parts with
  | table name =>
    cases h
    cases outer with
    | true => exact spaced_cons_cons (by decide) (spaced_cons (by decide) (.singleton _))
    | false => exact .singleton _
  | level source c ih =>
    obtain ⟨sourceParts, hsource, rfl⟩ := Asked.map_eq_ok h
    exact spaced_placedParts outer depth
      (spaced_bodyParts depth (c.isLine_lineParts (ih hsource)))
  | join left right criteria ihLeft ihRight =>
    obtain ⟨leftColumns, -, h, -⟩ := Asked.bind_eq_ok h
    obtain ⟨rightColumns, -, h, -⟩ := Asked.bind_eq_ok h
    obtain ⟨leftParts, hleft, h, -⟩ := Asked.bind_eq_ok h
    obtain ⟨rightParts, hright, rfl⟩ := Asked.map_eq_ok h
    exact spaced_placedParts outer depth (spaced_bodyParts depth
      (Join.isLine_lineParts criteria leftColumns rightColumns (ihLeft hleft) (ihRight hright)))

/-! ## Reading the statement -/

/-- The stretches that a part is meant to be read as: a text by itself, and a name as one quoted
name. -/
inductive Part.Means : Part → List Store.Stretch → Prop
  | bare {text : String} {stretches : List Store.Stretch} (h : Store.Reads text.toList stretches) :
      Means (.bare text) stretches
  | name (n : String) : Means (.name n) [.quoted '"' n.toList]

namespace Part

/-- The stretches of a part that has no quotes but those around a name. -/
def stretches : Part → List Store.Stretch
  | bare text => text.toList.map .plain
  | name n => [.quoted '"' n.toList]

/-- The part has no quotes but those around a name. -/
def Plain : Part → Prop
  | bare text => ∀ c ∈ text.toList, ¬ Store.IsQuote c
  | name _ => True

instance : (p : Part) → Decidable p.Plain
  | bare text => List.decidableBAll (fun c => ¬ Store.IsQuote c) text.toList
  | name _ => inferInstanceAs (Decidable True)

theorem Plain.means : {p : Part} → p.Plain → p.Means p.stretches
  | bare _, h => .bare (Store.reads_map_plain h)
  | name n, _ => .name n

end Part

theorem forall₂_means {parts : List Part} (h : ∀ p ∈ parts, p.Plain) :
    List.Forall₂ Part.Means parts (parts.map Part.stretches) :=
  List.forall₂_map_right_iff.mpr (List.forall₂_same.mpr fun p hp => (h p hp).means)

theorem Part.Apart.head?_ne {p q : Part} (h : p.Apart q) {parts : List Part} {c : Char}
    (hc : c ∈ p.sql.toList.getLast?) (hquote : Store.IsQuote c) :
    (partsText (q :: parts)).toList.head? ≠ some c := by
  rcases h with ⟨d, hd, hplain⟩ | ⟨d, hd, hplain⟩
  · obtain rfl : c = d := Option.mem_unique hc hd
    exact absurd hquote hplain
  · intro heq
    rw [partsText_cons, String.toList_append, List.head?_append, Option.mem_def.mp hd] at heq
    cases heq
    exact hplain hquote

/-- What follows a part does not go on with a quote that ends it. -/
theorem Spaced.head?_ne {p : Part} {parts : List Part} (h : Spaced (p :: parts)) :
    ∀ c ∈ p.sql.toList.getLast?, Store.IsQuote c → (partsText parts).toList.head? ≠ some c := by
  intro c hc hquote
  cases parts with
  | nil => simp [partsText]
  | cons q parts => exact (List.isChain_cons_cons.mp h).1.head?_ne hc hquote

theorem Spaced.head?_ne_quote {n : String} {parts : List Part} (h : Spaced (.name n :: parts)) :
    (partsText parts).toList.head? ≠ some '"' := by
  have hlast : (Part.name n).sql.toList = ('"' :: n.toList) ++ ['"'] := by
    simp [Part.sql, quoteName]
  refine h.head?_ne '"' ?_ (.inl rfl)
  rw [hlast]
  exact List.getLast?_concat

theorem toList_partsText_name (n : String) (after : List Part) :
    (partsText (.name n :: after)).toList =
      '"' :: (n.toList ++ '"' :: (partsText after).toList) := by
  simp [Part.sql, quoteName]

/-- **At the place of a name that name is read**, and the text behind it is left, exactly if the
name has no quote. -/
theorem Spaced.token?_iff {n : String} {after : List Part} (h : Spaced (.name n :: after))
    (rest : List Char) : Store.token? (partsText (.name n :: after)).toList = some (.name n, rest) ↔
      '"' ∉ n.toList ∧ rest = (partsText after).toList := by
  have htoken : Store.token? (partsText (.name n :: after)).toList =
      (Store.quoted? '"' (n.toList ++ '"' :: (partsText after).toList)).map fun read =>
        (.name (String.ofList read.1), read.2) := by
    rw [toList_partsText_name]
    rfl
  rw [htoken, ← Store.quoted?_self_iff h.head?_ne_quote, Option.map_eq_some_iff]
  constructor
  · rintro ⟨⟨name, rest'⟩, hread, heq⟩
    obtain ⟨hname, rfl⟩ := Prod.mk.inj heq
    have hn : name = n.toList := by rw [← Store.Token.name.inj hname, String.toList_ofList]
    rwa [hn] at hread
  · intro hread
    exact ⟨_, hread, by rw [String.ofList_toList]⟩

/-- **The parts are read one by one, each as it is meant, exactly if no name has a quote.** -/
theorem Spaced.reads_iff {parts : List Part} (h : Spaced parts)
    {stretches : List (List Store.Stretch)} (hmeans : List.Forall₂ Part.Means parts stretches) :
    Store.Reads (partsText parts).toList stretches.flatten ↔
      ∀ n, .name n ∈ parts → '"' ∉ n.toList := by
  induction hmeans with
  | nil => simp [partsText, Store.Reads.nil]
  | @cons part first parts others hpart hothers ih =>
    have htail : Spaced parts := (List.isChain_cons.mp h).2
    cases hpart with
    | @bare text _ hreads =>
      have hmeet := h.head?_ne
      rw [partsText_cons, String.toList_append, List.flatten_cons, Part.sql,
        hreads.append_iff hmeet, ih htail]
      simp
    | name n =>
      have hrest := h.head?_ne_quote
      rw [toList_partsText_name, List.flatten_cons, List.singleton_append,
        Store.reads_quoted_iff (.inl rfl)]
      simp [Store.quoted?_self_iff hrest, ih htail, and_assoc]

/-- **A statement is read back by its quotes exactly if no quoted name has one.**  Every statement
consists of parts, among them all the names that it quotes.  At the place of a name, SQL reads that
very name and goes on with the text behind it exactly if the name has no double quote; and if every
other part can be read by itself, the whole statement is read as the parts are meant exactly if none
of the names has one. -/
theorem Query.names_read_iff {b : Backend} {q : Query} {outer : Bool} {depth : Nat} {text : String}
    (h : (q.compile b outer depth).result = .ok text) :
    ∃ parts, (q.parts b outer depth).result = .ok parts ∧ partsText parts = text ∧
      (∀ n, .name n ∈ parts ↔ q.Quotes b n) ∧
      (∀ before n after, parts = before ++ .name n :: after → ∀ rest,
        Store.token? (text.toList.drop (partsText before).length) = some (.name n, rest) ↔
          '"' ∉ n.toList ∧ rest = (partsText after).toList) ∧
      ∀ stretches, List.Forall₂ Part.Means parts stretches →
        (Store.Reads text.toList stretches.flatten ↔ ∀ n, q.Quotes b n → '"' ∉ n.toList) := by
  rw [compile_eq_parts] at h
  obtain ⟨parts, hparts, rfl⟩ := Asked.map_eq_ok h
  have hspaced := spaced_parts hparts
  refine ⟨parts, hparts, rfl, fun n => name_mem_parts hparts, ?_, ?_⟩
  · rintro before n after rfl rest
    have hafter : Spaced (.name n :: after) := (List.isChain_append.mp hspaced).2.1
    have hplace : (partsText (before ++ .name n :: after)).toList.drop (partsText before).length =
        (partsText (.name n :: after)).toList := by
      rw [partsText_append, String.toList_append, ← String.length_toList, List.drop_left]
    rw [hplace, hafter.token?_iff]
  · intro stretches hmeans
    rw [hspaced.reads_iff hmeans]
    simp only [name_mem_parts hparts]

/-- A summary by day: the name of its total is read at its place, and the whole statement as it is
meant. -/
theorem Query.names_read_iff_summary :
    let q := (Query.table "orders").summarise ["day"] [⟨"SUM", "price", "total price"⟩]
    let sql := "SELECT day AS \"day\", SUM(price) AS \"total price\"\nFROM orders\nGROUP BY \"day\""
    let before : List Part := [.bare "", .bare "SELECT ", .bare "day", .bare " AS ", .name "day",
      .bare ", ", .bare "SUM(price)", .bare " AS "]
    let after : List Part := [.bare "\n", .bare "", .bare "FROM ", .bare "orders", .bare "\n",
      .bare "", .bare "GROUP BY ", .name "day"]
    (q.toSql orderBook).result = .ok sql ∧ q.Quotes orderBook "total price" ∧
      Store.token? (sql.toList.drop (partsText before).length) =
        some (.name "total price", "\nFROM orders\nGROUP BY \"day\"".toList) ∧
      Store.Reads sql.toList
        ((before ++ .name "total price" :: after).map Part.stretches).flatten := by
  intro q sql before after
  have hsql : (q.toSql orderBook).result = .ok sql := rfl
  obtain ⟨parts, hparts, -, hquotes, hplace, hreads⟩ := Query.names_read_iff hsql
  obtain rfl : before ++ .name "total price" :: after = parts := Except.ok.inj hparts
  refine ⟨hsql, (hquotes _).mp (by simp), (hplace _ _ _ rfl _).mpr (by decide), ?_⟩
  refine (hreads _ (forall₂_means (by decide))).mpr fun n hn => ?_
  obtain rfl | rfl : n = "day" ∨ n = "total price" := by
    simpa [before, after, or_comm, or_assoc] using (hquotes n).mpr hn
  · decide
  · decide

/-- A derived column that has a quote in its name: at its place another name is read, and the quote
behind it opens one that is never closed. -/
theorem Query.derived_name_cut :
    let q := (Query.table "t").derive "a\"b" (some (.named "x"))
    let sql := "SELECT *, x AS \"a\"b\"\nFROM t"
    let before : List Part :=
      [.bare "", .bare "SELECT ", .bare "*", .bare ", ", .bare "x", .bare " AS "]
    let after : List Part := [.bare "\n", .bare "", .bare "FROM ", .bare "t"]
    (q.toSql orderBook).result = .ok sql ∧
      (q.parts orderBook true 0).result = .ok (before ++ .name "a\"b" :: after) ∧
      Store.token? (sql.toList.drop (partsText before).length) =
        some (.name "a", "b\"\nFROM t".toList) ∧
      Store.tokens? sql = none := by
  refine ⟨rfl, rfl, ?_, ?_⟩
  · decide
  · decide

end QuerySteps
