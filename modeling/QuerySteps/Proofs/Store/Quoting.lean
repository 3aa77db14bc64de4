import QuerySteps.Store.Token
import Mathlib.Data.List.Basic

/-!
# Quotes in SQL texts

Between quotes, a quote is written twice.  `quoted?` reads such a text up to the quote that closes
it, and `quoted?_eq_some_iff` says what it has read: the text with every quote doubled, then the
quote that closes it, then a rest that does not go on with a quote.  All other laws follow from this
one.  A text that is put between quotes as it is, without doubling, is found again exactly if it has
no quote (`quoted?_self_iff`).

`Reads` divides a whole text into what stands between quotes and the characters outside.  It goes
through `++` wherever a quote that closes does not meet one that opens (`Reads.append_iff`).
-/

namespace QuerySteps.Store

/-! ## One quoted text -/

/-- A text as it is written between quotes: every quote in it stands twice. -/
def doubled (quote : Char) (s : List Char) : List Char :=
  s.flatMap fun c => if c = quote then [quote, quote] else [c]

variable {quote : Char}

theorem doubled_cons_self (s : List Char) :
    doubled quote (quote :: s) = quote :: quote :: doubled quote s := by
  simp [doubled]

theorem doubled_cons_of_ne {c : Char} (hc : c ≠ quote) (s : List Char) :
    doubled quote (c :: s) = c :: doubled quote s := by
  simp [doubled, hc]

theorem doubled_of_not_mem {s : List Char} (h : quote ∉ s) : doubled quote s = s := by
  induction s with
  | nil => rfl
  | cons c s ih =>
    obtain ⟨hc, hs⟩ := not_or.mp (mt List.mem_cons.mpr h)
    rw [doubled_cons_of_ne (Ne.symm hc), ih hs]

theorem quoted?_doubled (v : List Char) {rest : List Char} (h : rest.head? ≠ some quote) :
    quoted? quote (doubled quote v ++ quote :: rest) = some (v, rest) := by
  induction v with
  | nil =>
    cases rest with
    | nil => simp [doubled, quoted?]
    | cons c rest =>
      have hc : c ≠ quote := fun heq => h (by rw [heq]; rfl)
      simp [doubled, quoted?, hc]
  | cons c v ih =>
    by_cases hc : c = quote
    · subst hc
      simp [doubled_cons_self, quoted?, ih]
    · obtain ⟨d, s, hs⟩ : ∃ d s, doubled quote v ++ quote :: rest = d :: s :=
        List.exists_cons_of_ne_nil (by simp)
      rw [hs] at ih
      rw [doubled_cons_of_ne hc, List.cons_append, hs, quoted?, if_neg hc, ih]
      rfl

theorem quoted?_text {s v rest : List Char} (h : quoted? quote s = some (v, rest)) :
    s = doubled quote v ++ quote :: rest ∧ rest.head? ≠ some quote := by
  fun_induction quoted? quote s generalizing v rest with
  | case1 => cases h
  | case2 =>
    cases h
    exact ⟨rfl, by simp⟩
  | case3 => cases h
  | case4 s ih =>
    obtain ⟨read, hread, heq⟩ := Option.map_eq_some_iff.mp h
    cases heq
    obtain ⟨hs, hrest⟩ := ih hread
    rw [doubled_cons_self, hs]
    exact ⟨rfl, hrest⟩
  | case5 d s hd =>
    cases h
    exact ⟨rfl, fun heq => hd (Option.some.inj heq)⟩
  | case6 c d s hc ih =>
    obtain ⟨read, hread, heq⟩ := Option.map_eq_some_iff.mp h
    cases heq
    obtain ⟨hs, hrest⟩ := ih hread
    rw [doubled_cons_of_ne hc, hs]
    exact ⟨rfl, hrest⟩

/-- **What is read up to a closing quote** is the text with its quotes halved, and nothing that
could go on from it follows. -/
theorem quoted?_eq_some_iff {s v rest : List Char} : quoted? quote s = some (v, rest) ↔
    s = doubled quote v ++ quote :: rest ∧ rest.head? ≠ some quote :=
  ⟨quoted?_text, fun ⟨hs, hrest⟩ => hs ▸ quoted?_doubled v hrest⟩

/-- Where quotes are still owed by a doubled text, the same text without doubling has to make up for
them behind its end. -/
private theorem head?_of_doubled_eq {n r rest : List Char} {k : Nat}
    (h : List.replicate (k + 1) quote ++ (doubled quote n ++ quote :: r) = n ++ quote :: rest) :
    rest.head? = some quote := by
  induction n generalizing k with
  | nil =>
    have hrest : rest = List.replicate k quote ++ quote :: r := by
      simpa [List.replicate_succ, doubled] using h.symm
    rw [hrest]
    cases k <;> rfl
  | cons c n ih =>
    rw [List.replicate_succ, List.cons_append, List.cons_append] at h
    -- the next character is one of the quotes owed, and doubled it owes two more
    obtain ⟨rfl, h⟩ := List.cons.inj h
    rw [doubled_cons_self, List.cons_append, List.cons_append] at h
    refine ih (k := k + 1) ?_
    rw [← h, List.replicate_succ', List.replicate_succ']
    simp

theorem not_mem_of_doubled_eq {n r rest : List Char} (hrest : rest.head? ≠ some quote)
    (h : doubled quote n ++ quote :: r = n ++ quote :: rest) : quote ∉ n := by
  induction n with
  | nil => exact List.not_mem_nil
  | cons c n ih =>
    have hc : c ≠ quote := by
      rintro rfl
      rw [doubled_cons_self] at h
      exact hrest (head?_of_doubled_eq (k := 0) (List.cons.inj h).2)
    rw [doubled_cons_of_ne hc] at h
    exact List.not_mem_cons_of_ne_of_not_mem (Ne.symm hc) (ih (List.cons.inj h).2)

/-- **A text that is put between quotes as it is, is read again exactly if it has no quote.** -/
theorem quoted?_self_iff {n rest : List Char} (hrest : rest.head? ≠ some quote) (r : List Char) :
    quoted? quote (n ++ quote :: rest) = some (n, r) ↔ quote ∉ n ∧ r = rest := by
  rw [quoted?_eq_some_iff]
  constructor
  · rintro ⟨h, -⟩
    have hn : quote ∉ n := not_mem_of_doubled_eq hrest h.symm
    rw [doubled_of_not_mem hn] at h
    exact ⟨hn, by simpa using h.symm⟩
  · rintro ⟨hn, rfl⟩
    exact ⟨by rw [doubled_of_not_mem hn], hrest⟩

theorem quoted?_append {s v rest t : List Char} (h : quoted? quote s = some (v, rest))
    (hmeet : rest = [] → t.head? ≠ some quote) :
    quoted? quote (s ++ t) = some (v, rest ++ t) := by
  obtain ⟨rfl, hrest⟩ := quoted?_text h
  refine quoted?_eq_some_iff.mpr ⟨by simp, ?_⟩
  cases rest with
  | nil => exact hmeet rfl
  | cons c rest => exact hrest

/-! ## Whole texts -/

/-- The characters that open a quoted name or a quoted text. -/
def IsQuote (c : Char) : Prop := c = '"' ∨ c = '\''

instance (c : Char) : Decidable (IsQuote c) := inferInstanceAs (Decidable (_ ∨ _))

/-- A stretch of a text: a character outside quotes, or what stands between two quotes. -/
inductive Stretch where
  | plain (c : Char)
  | quoted (quote : Char) (content : List Char)
  deriving DecidableEq

/-- The stretches of a text from its front to its end. -/
inductive Reads : List Char → List Stretch → Prop where
  | nil : Reads [] []
  | plain {c : Char} {s : List Char} {stretches : List Stretch} (hc : ¬ IsQuote c)
      (hs : Reads s stretches) : Reads (c :: s) (.plain c :: stretches)
  | quoted {quote : Char} {s content rest : List Char} {stretches : List Stretch}
      (hquote : IsQuote quote) (hread : quoted? quote s = some (content, rest))
      (hrest : Reads rest stretches) : Reads (quote :: s) (.quoted quote content :: stretches)

theorem reads_plain_iff {c : Char} (hc : ¬ IsQuote c) {s : List Char} {stretches : List Stretch} :
    Reads (c :: s) (.plain c :: stretches) ↔ Reads s stretches := by
  constructor
  · intro h
    cases h
    assumption
  · exact .plain hc

theorem reads_quoted_iff (hquote : IsQuote quote) {s content : List Char}
    {stretches : List Stretch} : Reads (quote :: s) (.quoted quote content :: stretches) ↔
      ∃ rest, quoted? quote s = some (content, rest) ∧ Reads rest stretches := by
  constructor
  · intro h
    cases h with
    | quoted _ hread hrest => exact ⟨_, hread, hrest⟩
  · rintro ⟨rest, hread, hrest⟩
    exact .quoted hquote hread hrest

/-- A text without quotes is read as its characters. -/
theorem reads_map_plain {s : List Char} (h : ∀ c ∈ s, ¬ IsQuote c) : Reads s (s.map .plain) := by
  induction s with
  | nil => exact .nil
  | cons c s ih =>
    exact .plain (h c List.mem_cons_self) (ih fun d hd => h d (List.mem_cons_of_mem c hd))

/-- **A text goes on as if nothing stood before it**, unless a quote that closes meets one that
opens. -/
theorem Reads.append_iff {s t : List Char} {first second : List Stretch} (hs : Reads s first)
    (hmeet : ∀ c ∈ s.getLast?, IsQuote c → t.head? ≠ some c) :
    Reads (s ++ t) (first ++ second) ↔ Reads t second := by
  induction hs with
  | nil => rfl
  | @plain c s stretches hc _ ih =>
    have hmeet' : ∀ d ∈ s.getLast?, IsQuote d → t.head? ≠ some d := fun d hd =>
      hmeet d (List.mem_getLast?_cons hd)
    exact (reads_plain_iff hc).trans (ih hmeet')
  | @quoted quote s content rest stretches hquote hread _ ih =>
    obtain ⟨rfl, -⟩ := quoted?_text hread
    have hclosed : rest = [] → t.head? ≠ some quote := by
      rintro rfl
      refine hmeet quote (List.mem_getLast?_cons ?_) hquote
      exact List.mem_getLast?_append_of_mem_getLast? rfl
    have hmeet' : ∀ d ∈ rest.getLast?, IsQuote d → t.head? ≠ some d := fun d hd =>
      hmeet d (List.mem_getLast?_cons
        (List.mem_getLast?_append_of_mem_getLast? (List.mem_getLast?_cons hd)))
    have hread' := quoted?_append hread hclosed
    calc Reads (quote :: (doubled quote content ++ quote :: rest) ++ t)
            (.quoted quote content :: stretches ++ second)
        ↔ Reads (rest ++ t) (stretches ++ second) := by
          refine (reads_quoted_iff hquote).trans ⟨?_, fun h => ⟨_, hread', h⟩⟩
          rintro ⟨rest', hrest', h⟩
          obtain ⟨-, rfl⟩ := Prod.mk.inj (Option.some.inj (hread'.symm.trans hrest'))
          exact h
      _ ↔ Reads t second := ih hmeet'

end QuerySteps.Store
