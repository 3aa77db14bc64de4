import QuerySteps.Formula.Reader
import QuerySteps.Proofs.Formula.SplitTree
import QuerySteps.Proofs.Formula.TokenEnds

/-!
# Chains of operators

`chain` reads operators of one precedence after the other and looks at every operator once for each
of them.  What it reads is described here without precedences: a first operand and a run of links
(`Links`), up to a place where no operator of the given precedences stands (`Halts`).  The tree it
builds is the one that `splitTree` gives to them.

The operators and the reader of operands are arbitrary but for two premises: operands take at least
one character (`Advances`), and the precedences increase.  `chain_eq_ok_iff` is the result, in both
directions; it goes by induction on the precedences and, within one precedence, on the loop `more`,
whose invariant is that everything to the left of the place it has come to binds at least as tight
as its own precedence.
-/

namespace QuerySteps.Formula

open Text (skipSpace)

namespace Operators

/-- The binary operators. -/
def keys (ops : Operators) : List String := ops.binary.map (·.1)

/-- The precedence of an operator in the form in which it is kept; other texts get the lowest. -/
def precedence (ops : Operators) (op : String) : Nat := (ops.binary.lookup op).getD 0

/-- The binary operator that comes next, and what follows it. -/
def next? (ops : Operators) (s : List Char) : Option (String × List Char) :=
  longestMatch ops.keys (skipSpace s)

theorem precedence_eq {ops : Operators} {op : String} {p : Nat}
    (h : ops.binary.lookup op = some p) : ops.precedence op = p := by
  simp [precedence, h]

end Operators

/-- A reader that takes at least one character. -/
def Advances (read : List Char → Read) : Prop :=
  ∀ s tree rest, read s = .ok (tree, rest) → rest.length < s.length

theorem stripOperator_length {op : String} {s r : List Char}
    (h : stripOperator op s = some r) : r.length ≤ s.length := by
  obtain ⟨w, rfl, -, -⟩ := stripOperator_eq_some_iff.mp h
  simp

theorem Operators.next?_length {ops : Operators} {s : List Char} {op : String} {r : List Char}
    (h : ops.next? s = some (op, r)) : r.length ≤ s.length := by
  have hstrip := stripOperator_length (mem_of_longestMatch h).2
  have hskip := skipSpace_length_le s
  omega

section

variable (ops : Operators) (operand : List Char → Read)

/-- From one place in a text to another there are links: operators of the given precedences, each
with the operand that is read behind it. -/
inductive Links (levels : List Nat) : List Char → List Link → List Char → Prop
  | done (s : List Char) : Links levels s [] s
  | link {s rest after k : List Char} {op : String} {p : Nat} {tree : Tree} {links : List Link}
      (next : ops.next? s = some (op, rest)) (prec : ops.binary.lookup op = some p)
      (level : p ∈ levels) (read : operand rest = .ok (tree, after))
      (more : Links levels after links k) : Links levels s (⟨op, tree⟩ :: links) k

/-- No operator of the given precedences comes next. -/
def Halts (levels : List Nat) (k : List Char) : Prop :=
  ∀ op rest, ops.next? k = some (op, rest) → ∀ p ∈ levels, ops.binary.lookup op ≠ some p

end

variable {ops : Operators} {operand : List Char → Read} {levels tighter : List Nat} {p : Nat}
  {s k mid : List Char} {links seg : List Link} {first left tree : Tree}

/-! ## Links -/

theorem Links.mono {wider : List Nat} (hsub : ∀ p ∈ levels, p ∈ wider)
    (h : Links ops operand levels s links k) : Links ops operand wider s links k := by
  induction h with
  | done s => exact .done s
  | link next prec level read _ ih => exact .link next prec (hsub _ level) read ih

theorem Links.append (h : Links ops operand levels s seg mid)
    (hmore : Links ops operand levels mid links k) :
    Links ops operand levels s (seg ++ links) k := by
  induction h with
  | done s => exact hmore
  | link next prec level read _ ih => exact .link next prec level read (ih hmore)

theorem Links.length_le (hadv : Advances operand) (h : Links ops operand levels s links k) :
    k.length ≤ s.length := by
  induction h with
  | done s => exact Nat.le_refl _
  | link next _ _ read _ ih =>
    have hnext := Operators.next?_length next
    have hread := hadv _ _ _ read
    omega

/-- The operators of links have one of the given precedences. -/
theorem Links.precedence_mem (h : Links ops operand levels s links k) :
    ∀ link ∈ links, ops.precedence link.op ∈ levels := by
  induction h with
  | done s => simp
  | link _ prec level _ _ ih =>
    intro l hl
    rcases List.mem_cons.mp hl with rfl | hl
    · rw [Operators.precedence_eq prec]
      exact level
    · exact ih l hl

/-- Links of several precedences begin with links of all but the loosest, up to a place where none
of them goes on. -/
theorem Links.split (h : Links ops operand (p :: tighter) s links k)
    (hk : Halts ops (p :: tighter) k) :
    ∃ seg mid links', links = seg ++ links' ∧ Links ops operand tighter s seg mid ∧
      Halts ops tighter mid ∧ Links ops operand (p :: tighter) mid links' k := by
  induction h with
  | done k =>
    have htighter : Halts ops tighter k :=
      fun op rest hn q hq => hk op rest hn q (List.mem_cons_of_mem p hq)
    exact ⟨[], k, [], rfl, .done k, htighter, .done k⟩
  | @link s rest after k op q tree links next prec level read more ih =>
    by_cases hq : q ∈ tighter
    · obtain ⟨seg, mid, links', rfl, hseg, hmid, hmore⟩ := ih hk
      exact ⟨⟨op, tree⟩ :: seg, mid, links', rfl, .link next prec hq read hseg, hmid, hmore⟩
    · refine ⟨[], s, _, rfl, .done s, ?_, .link next prec level read more⟩
      intro op' rest' hn q' hq' hprec
      rw [next] at hn
      cases hn
      rw [prec] at hprec
      cases hprec
      exact hq hq'

/-! ## From the reader to the links -/

private theorem splitTree_more (hlow : ∀ link ∈ links, p ≤ ops.precedence link.op)
    {op : String} (hop : ops.binary.lookup op = some p)
    (hhigh : ∀ link ∈ seg, p < ops.precedence link.op) (right : Tree) :
    splitTree ops.precedence first (links ++ ⟨op, right⟩ :: seg) =
      .operator op
        [splitTree ops.precedence first links, splitTree ops.precedence right seg] := by
  apply splitTree_split
  · intro l hl
    rw [Operators.precedence_eq hop]
    exact hlow l hl
  · intro l hl
    rw [Operators.precedence_eq hop]
    exact hhigh l hl

/-- Behind an operator of the loosest precedence and tighter ones, everything binds at least as tight
as it. -/
private theorem low_append (hlow : ∀ link ∈ seg, p ≤ ops.precedence link.op) {op : String}
    (hop : ops.binary.lookup op = some p) (hhigh : ∀ link ∈ links, p < ops.precedence link.op)
    (right : Tree) : ∀ link ∈ seg ++ ⟨op, right⟩ :: links, p ≤ ops.precedence link.op := by
  intro l hl
  rcases List.mem_append.mp hl with hl | hl
  · exact hlow l hl
  · rcases List.mem_cons.mp hl with rfl | hl
    · exact Nat.le_of_eq (Operators.precedence_eq hop).symm
    · exact Nat.le_of_lt (hhigh l hl)

private theorem more_succ (read : List Char → Read) (fuel : Nat) (left : Tree) (s : List Char) :
    more ops read p (fuel + 1) left s =
      match ops.next? s with
      | none => .ok (left, s)
      | some (op, rest) =>
        if ops.binary.lookup op = some p then
          match read rest with
          | .error e => .error e
          | .ok (right, rest) => more ops read p fuel (.operator op [left, right]) rest
        else
          .ok (left, s) :=
  rfl

/-- What a reader of chains answers, in terms of links. -/
private def ReadsLinks (ops : Operators) (operand : List Char → Read) (levels : List Nat)
    (read : List Char → Read) : Prop :=
  ∀ s tree k, read s = .ok (tree, k) ↔
    ∃ first rest links, operand s = .ok (first, rest) ∧ Links ops operand levels rest links k ∧
      Halts ops levels k ∧ tree = splitTree ops.precedence first links

private theorem links_of_more {read : List Char → Read} (hadv : Advances operand)
    (hread : ReadsLinks ops operand tighter read) (hlt : ∀ q ∈ tighter, p < q) {fuel : Nat}
    (hfuel : s.length < fuel) (hlow : ∀ link ∈ seg, p ≤ ops.precedence link.op)
    (hs : Halts ops tighter s)
    (h : more ops read p fuel (splitTree ops.precedence first seg) s = .ok (tree, k)) :
    ∃ links, Links ops operand (p :: tighter) s links k ∧ Halts ops (p :: tighter) k ∧
      tree = splitTree ops.precedence first (seg ++ links) := by
  induction fuel generalizing s seg with
  | zero => omega
  | succ fuel ih =>
    rw [more_succ] at h
    cases hn : ops.next? s with
    | none =>
      obtain ⟨rfl, rfl⟩ : splitTree ops.precedence first seg = tree ∧ s = k := by
        simpa [hn] using h
      refine ⟨[], .done s, ?_, by simp⟩
      intro op rest hnext
      rw [hn] at hnext
      cases hnext
    | some found =>
      obtain ⟨op, rest⟩ := found
      simp only [hn] at h
      by_cases hop : ops.binary.lookup op = some p
      · rw [if_pos hop] at h
        split at h
        · cases h
        · next right after hright =>
          obtain ⟨second, behind, links, hsecond, hlinks, hafter, rfl⟩ := (hread _ _ _).mp hright
          have hhigh : ∀ link ∈ links, p < ops.precedence link.op :=
            fun l hl => hlt _ (hlinks.precedence_mem l hl)
          rw [← splitTree_more hlow hop hhigh] at h
          have hshort : after.length < fuel := by
            have h1 := Operators.next?_length hn
            have h2 := hadv _ _ _ hsecond
            have h3 := hlinks.length_le hadv
            omega
          have hlow' := low_append hlow hop hhigh second
          obtain ⟨links', hlinks', hk, rfl⟩ := ih hshort hlow' hafter h
          refine ⟨⟨op, second⟩ :: links ++ links', ?_, hk, by simp⟩
          exact .link hn hop List.mem_cons_self hsecond
            ((hlinks.mono fun q hq => List.mem_cons_of_mem _ hq).append hlinks')
      · rw [if_neg hop] at h
        obtain ⟨rfl, rfl⟩ : splitTree ops.precedence first seg = tree ∧ s = k := by
          simpa using h
        refine ⟨[], .done s, ?_, by simp⟩
        intro op' rest' hnext q hq
        rcases List.mem_cons.mp hq with rfl | hq
        · rw [hn] at hnext
          cases hnext
          exact hop
        · exact hs op' rest' hnext q hq

/-! ## From the links to the reader -/

private theorem more_of_links {read : List Char → Read} (hadv : Advances operand)
    (hread : ReadsLinks ops operand tighter read) (hlt : ∀ q ∈ tighter, p < q) {fuel : Nat}
    (hfuel : s.length < fuel) (hlow : ∀ link ∈ seg, p ≤ ops.precedence link.op)
    (hs : Halts ops tighter s) (hlinks : Links ops operand (p :: tighter) s links k)
    (hk : Halts ops (p :: tighter) k) :
    more ops read p fuel (splitTree ops.precedence first seg) s =
      .ok (splitTree ops.precedence first (seg ++ links), k) := by
  induction fuel generalizing s seg links with
  | zero => omega
  | succ fuel ih =>
    rw [more_succ]
    cases hlinks with
    | done =>
      cases hn : ops.next? k with
      | none => simp
      | some found =>
        have hop := hk found.1 found.2 hn p List.mem_cons_self
        simp [hop]
    | @link _ rest after _ op q second links next prec level readSecond more =>
      -- an operator of a tighter precedence cannot come next, so it is one of this precedence
      obtain rfl : q = p := by
        rcases List.mem_cons.mp level with rfl | hq
        · rfl
        · exact absurd prec (hs op rest next q hq)
      obtain ⟨links₁, mid, links₂, rfl, hlinks₁, hmid, hlinks₂⟩ := more.split hk
      have hright := (hread rest _ mid).mpr ⟨second, after, links₁, readSecond, hlinks₁, hmid, rfl⟩
      have hhigh : ∀ link ∈ links₁, q < ops.precedence link.op :=
        fun l hl => hlt _ (hlinks₁.precedence_mem l hl)
      have hshort : mid.length < fuel := by
        have h1 := Operators.next?_length next
        have h2 := hadv _ _ _ readSecond
        have h3 := hlinks₁.length_le hadv
        omega
      have hlow' := low_append hlow prec hhigh second
      simp only [next, if_pos prec, hright, ← splitTree_more hlow prec hhigh]
      rw [ih hshort hlow' hmid hlinks₂]
      simp

/-- **A chain is an operand and the links behind it, and its tree is the one that splitting them
gives.** -/
theorem chain_eq_ok_iff (hadv : Advances operand) (ordered : levels.Pairwise (· < ·)) :
    chain ops operand levels s = .ok (tree, k) ↔
      ∃ first rest links, operand s = .ok (first, rest) ∧ Links ops operand levels rest links k ∧
        Halts ops levels k ∧ tree = splitTree ops.precedence first links := by
  induction levels generalizing s tree k with
  | nil =>
    constructor
    · intro h
      exact ⟨tree, k, [], h, .done k, fun _ _ _ _ hp => (List.not_mem_nil hp).elim, by simp⟩
    · rintro ⟨first, rest, links, hfirst, hlinks, -, rfl⟩
      cases hlinks with
      | done => simpa [chain] using hfirst
      | link _ _ level => exact (List.not_mem_nil level).elim
  | cons p tighter ih =>
    obtain ⟨hlt, ordered⟩ := List.pairwise_cons.mp ordered
    have hread : ReadsLinks ops operand tighter (chain ops operand tighter) :=
      fun s tree k => ih ordered
    have hhigh : ∀ {rest mid seg}, Links ops operand tighter rest seg mid →
        ∀ link ∈ seg, p ≤ ops.precedence link.op :=
      fun hseg l hl => Nat.le_of_lt (hlt _ (hseg.precedence_mem l hl))
    constructor
    · intro h
      rw [chain] at h
      split at h
      · cases h
      · next left mid hleft =>
        obtain ⟨first, rest, seg, hfirst, hseg, hmid, rfl⟩ := (hread _ _ _).mp hleft
        obtain ⟨links, hlinks, hk, rfl⟩ :=
          links_of_more hadv hread hlt (Nat.lt_succ_self _) (hhigh hseg) hmid h
        refine ⟨first, rest, seg ++ links, hfirst, ?_, hk, rfl⟩
        exact (hseg.mono fun q hq => List.mem_cons_of_mem _ hq).append hlinks
    · rintro ⟨first, rest, links, hfirst, hlinks, hk, rfl⟩
      obtain ⟨seg, mid, links', rfl, hseg, hmid, hlinks'⟩ := hlinks.split hk
      have hleft := (hread s _ mid).mpr ⟨first, rest, seg, hfirst, hseg, hmid, rfl⟩
      simp only [chain, hleft]
      exact more_of_links hadv hread hlt (Nat.lt_succ_self _) (hhigh hseg) hmid hlinks' hk

/-! ## Where a chain fails -/

/-- Links lead to an operator behind which no operand is read. -/
def FailsBehind (ops : Operators) (operand : List Char → Read) (levels : List Nat) (s : List Char)
    (e : Failure) : Prop :=
  ∃ links k op after p, Links ops operand levels s links k ∧ ops.next? k = some (op, after) ∧
    ops.binary.lookup op = some p ∧ p ∈ levels ∧ operand after = .error e

theorem FailsBehind.mono {wider : List Nat} {e : Failure} (hsub : ∀ p ∈ levels, p ∈ wider)
    (h : FailsBehind ops operand levels s e) : FailsBehind ops operand wider s e := by
  obtain ⟨links, k, op, after, p, hlinks, hnext, hprec, hp, hafter⟩ := h
  exact ⟨links, k, op, after, p, hlinks.mono hsub, hnext, hprec, hsub p hp, hafter⟩

theorem FailsBehind.of_links {e : Failure} (hlinks : Links ops operand levels s seg mid)
    (h : FailsBehind ops operand levels mid e) : FailsBehind ops operand levels s e := by
  obtain ⟨links, k, op, after, p, hmore, hnext, hprec, hp, hafter⟩ := h
  exact ⟨seg ++ links, k, op, after, p, hlinks.append hmore, hnext, hprec, hp, hafter⟩

private theorem failsBehind_of_more {read : List Char → Read}
    (hread : ReadsLinks ops operand tighter read)
    (hfails : ∀ s e, read s = .error e → operand s = .error e ∨
      ∃ first rest, operand s = .ok (first, rest) ∧ FailsBehind ops operand tighter rest e)
    {fuel : Nat} {e : Failure} (h : more ops read p fuel left s = .error e) :
    FailsBehind ops operand (p :: tighter) s e := by
  have hsub : ∀ q ∈ tighter, q ∈ p :: tighter := fun q hq => List.mem_cons_of_mem p hq
  induction fuel generalizing left s with
  | zero => cases h
  | succ fuel ih =>
    rw [more_succ] at h
    split at h
    · cases h
    · next op rest hn =>
      split at h
      · next hprec =>
        split at h
        · next e' herror =>
          cases h
          rcases hfails _ _ herror with hoperand | ⟨second, after, hsecond, hbehind⟩
          · exact ⟨[], s, op, rest, p, .done s, hn, hprec, List.mem_cons_self, hoperand⟩
          · exact .of_links (.link hn hprec List.mem_cons_self hsecond (.done after))
              (hbehind.mono hsub)
        · next right after hright =>
          obtain ⟨second, behind, links, hsecond, hlinks, -, rfl⟩ := (hread _ _ _).mp hright
          exact .of_links (.link hn hprec List.mem_cons_self hsecond (hlinks.mono hsub)) (ih h)
      · cases h

/-- **A chain fails where one of its operands does.** -/
theorem chain_eq_error (hadv : Advances operand) (ordered : levels.Pairwise (· < ·)) {e : Failure}
    (h : chain ops operand levels s = .error e) :
    operand s = .error e ∨
      ∃ first rest, operand s = .ok (first, rest) ∧ FailsBehind ops operand levels rest e := by
  induction levels generalizing s e with
  | nil => exact .inl h
  | cons p tighter ih =>
    obtain ⟨-, ordered⟩ := List.pairwise_cons.mp ordered
    have hread : ReadsLinks ops operand tighter (chain ops operand tighter) :=
      fun s tree k => chain_eq_ok_iff hadv ordered
    have hsub : ∀ q ∈ tighter, q ∈ p :: tighter := fun q hq => List.mem_cons_of_mem p hq
    rw [chain] at h
    split at h
    · next e' herror =>
      cases h
      rcases ih ordered herror with hoperand | ⟨first, rest, hfirst, hbehind⟩
      · exact .inl hoperand
      · exact .inr ⟨first, rest, hfirst, hbehind.mono hsub⟩
    · next left mid hleft =>
      obtain ⟨first, rest, links, hfirst, hlinks, -, rfl⟩ := (hread _ _ _).mp hleft
      have hbehind := failsBehind_of_more hread (fun _ _ => ih ordered) h
      exact .inr ⟨first, rest, hfirst, .of_links (hlinks.mono hsub) hbehind⟩

end QuerySteps.Formula
