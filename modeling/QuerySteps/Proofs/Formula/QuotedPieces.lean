import QuerySteps.Proofs.Formula.FailurePlaces
import QuerySteps.Proofs.Formula.Operands

/-!
# Texts in pieces

A text may be written in several pieces.  Each stands between two quotes of one kind, which do not
occur in it, and white space may come between the pieces.  Nothing else ends a piece: the other
quote may stand in it, and two quotes next to each other are an empty piece, never a quote inside of
one.

So what is read is the bodies of the pieces put together (`morePieces_pieces`, one step of the loop
for each piece), and the first quote that is not closed is where reading fails.  An operand that
begins with a quote cannot be anything else, and no operator begins with one; that makes the text, or
the failure, the answer for the whole formula (`parse_pieces`).
-/

namespace QuerySteps.Formula

open Text (isSpace skipSpace byteLength)

/-- A piece of a text as it is written: the white space before it, its quote, and what stands between
the quotes. -/
structure Piece where
  gap : List Char
  quote : Char
  body : List Char
  blank : gap.all isSpace
  quoted : isQuote quote
  closed : quote ∉ body

namespace Piece

/-- A piece without the white space before it. -/
def token (p : Piece) : List Char := p.quote :: p.body ++ [p.quote]

/-- Pieces as they are written. -/
def written (pieces : List Piece) : List Char := pieces.flatMap fun p => p.gap ++ p.token

/-- What pieces say. -/
def content (pieces : List Piece) : List Char := pieces.flatMap body

theorem length_le_written (pieces : List Piece) : pieces.length ≤ (written pieces).length := by
  induction pieces with
  | nil => exact Nat.le_refl 0
  | cons p pieces ih =>
    have hwritten : written (p :: pieces) = p.gap ++ p.token ++ written pieces := rfl
    rw [hwritten]
    simp only [List.length_append, List.length_cons, token]
    omega

end Piece

open Piece (written content)

variable {ops : Operators} {f : List Char → Read} {s k tail gap : List Char} {fuel : Nat} {q : Char}

/-! ## The loop over the pieces -/

/-- **Each piece is one step of the loop**, which adds its body to what has been read. -/
theorem morePieces_pieces {pieces : List Piece} (hfuel : pieces.length ≤ fuel) (read k : List Char) :
    morePieces fuel read (written pieces ++ k) =
      morePieces (fuel - pieces.length) (read ++ content pieces) k := by
  induction pieces generalizing fuel read with
  | nil => simp [written, content]
  | cons p pieces ih =>
    obtain ⟨fuel, rfl⟩ : ∃ n, fuel = n + 1 := ⟨fuel - 1, by simp at hfuel; omega⟩
    have htext : written (p :: pieces) ++ k =
        p.gap ++ (p.quote :: p.body ++ p.quote :: (written pieces ++ k)) := by
      simp [written, Piece.token]
    have hmore : pieces.length ≤ fuel := by simpa using hfuel
    have hcontent : read ++ p.body ++ content pieces = read ++ content (p :: pieces) := by
      simp [content]
    rw [htext, morePieces_piece p.blank p.quoted p.closed, ih hmore, hcontent, List.length_cons,
      Nat.add_sub_add_right]

/-- The loop begins behind the first piece, with at least one step left for each character behind the
pieces. -/
theorem text?_pieces (first : Piece) (more : List Piece) (k : List Char) :
    ∃ fuel, k.length ≤ fuel ∧ text? (first.token ++ (written more ++ k)) =
      (morePieces fuel (first.body ++ content more) k).map fun found =>
        some (String.ofList found.1, found.2) := by
  have hmore := Piece.length_le_written more
  have hfirst : piece? (first.token ++ (written more ++ k)) =
      .ok (some (first.body, written more ++ k)) :=
    piece?_eq_some_iff.mpr ⟨first.quote, first.quoted, first.closed, by simp [Piece.token]⟩
  have hsteps : more.length ≤ (written more ++ k).length := by
    rw [List.length_append]
    omega
  refine ⟨(written more ++ k).length - more.length, ?_, ?_⟩
  · rw [List.length_append]
    omega
  · simp only [text?, hfirst, morePieces_pieces hsteps first.body k]
    cases morePieces ((written more ++ k).length - more.length) (first.body ++ content more) k <;> rfl

/-! ## A quote that is not closed -/

theorem piece?_unclosed (hq : isQuote q) (hopen : q ∉ tail) :
    piece? (q :: tail) = .error ⟨q :: tail, .unterminatedText⟩ := by
  have hdrop : tail.dropWhile (· != q) = [] := by
    rw [List.dropWhile_eq_nil_iff]
    intro c hc
    simp only [bne_iff_ne]
    rintro rfl
    exact hopen hc
  rw [piece?, if_pos hq, hdrop]

theorem morePieces_unclosed (hgap : gap.all isSpace) (hq : isQuote q) (hopen : q ∉ tail)
    (read : List Char) :
    morePieces (fuel + 1) read (gap ++ q :: tail) = .error ⟨q :: tail, .unterminatedText⟩ := by
  have hskip : skipSpace (gap ++ q :: tail) = q :: tail := by
    rw [skipSpace_gap hgap]
    exact skipSpace_cons_of_not_isSpace (isSpace_of_isQuote hq) tail
  simp only [morePieces, hskip, piece?_unclosed hq hopen]

theorem operand_quote_error (hreg : ops.Regular) (hq : isQuote q) {e : Failure}
    (h : text? (q :: s) = .error e) :
    operand ops (primary ops f) (fuel + 1) (q :: s) = .error e := by
  obtain ⟨halpha, hmark, hopening⟩ : q.isAlpha = false ∧ isMark q = false ∧ q ≠ '(' := by
    rcases eq_of_isQuote hq with rfl | rfl <;> decide
  have hunary := longestMatch_of_head hreg.unary halpha hmark s
  rw [operand_of_head (isSpace_of_isQuote hq) hunary,
    primaryHere_token ops f (by simp [hopening]), h]

/-! ## Whole formulas -/

/-- A formula that begins with a piece is read, or fails, as its text does. -/
private theorem operandAt_pieces (hreg : ops.Regular) (d : Nat) (first : Piece) (k : List Char) :
    (∀ text r, text? (first.token ++ k) = .ok (some (text, r)) →
      operandAt ops d (first.gap ++ (first.token ++ k)) = .ok (.literal (.text text), r)) ∧
    ∀ e, text? (first.token ++ k) = .error e →
      operandAt ops d (first.gap ++ (first.token ++ k)) = .error e := by
  rw [operandAt, operand_gap first.blank]
  exact ⟨fun _ _ htext => operand_quote hreg first.quoted htext,
    fun _ htext => operand_quote_error hreg first.quoted htext⟩

/-- **Pieces that follow each other are one text.**  Pieces of any number, with any white space
before each of them, are the formula that is the literal of their bodies put together.  If behind
them one more quote is opened and not closed, the formula fails at the byte where that quote
stands. -/
theorem parse_pieces {pieces : List Piece} (hne : pieces ≠ []) :
    parse .default (String.ofList (written pieces)) =
        .ok (.literal (.text (String.ofList (content pieces)))) ∧
      ∀ gap q tail, gap.all isSpace → isQuote q → q ∉ tail →
        parse .default (String.ofList (written pieces ++ gap ++ q :: tail)) =
          .error ⟨byteLength (written pieces ++ gap), .unterminatedText⟩ := by
  have hreg := Operators.ExtendsDefault.usual.regular
  obtain ⟨first, more, rfl⟩ := List.exists_cons_of_ne_nil hne
  have hwritten : ∀ k, written (first :: more) ++ k =
      first.gap ++ (first.token ++ (written more ++ k)) := by
    simp [written]
  constructor
  · obtain ⟨fuel, -, htext⟩ := text?_pieces first more []
    rw [morePieces_stops .nil] at htext
    have hread := (operandAt_pieces hreg (written (first :: more)).length first _).1 _ _ htext
    rw [← hwritten, List.append_nil] at hread
    apply parse_of_operandAt hreg
    rwa [String.toList_ofList]
  · intro gap q tail hgap hq hopen
    obtain ⟨fuel, hfuel, htext⟩ := text?_pieces first more (gap ++ q :: tail)
    obtain ⟨fuel, rfl⟩ : ∃ n, fuel = n + 1 := ⟨fuel - 1, by simp at hfuel; omega⟩
    rw [morePieces_unclosed hgap hq hopen] at htext
    have hread := (operandAt_pieces hreg
      (written (first :: more) ++ gap ++ q :: tail).length first _).2 _ htext
    rw [← hwritten, ← List.append_assoc] at hread
    rw [parse_of_operandAt_error (by rwa [String.toList_ofList]), String.toList_ofList]
    exact congrArg Except.error (Failure.toError_append _ ⟨q :: tail, .unterminatedText⟩)

/-- Three pieces: one with the other quote and a letter of two bytes, one behind a line break, and an
empty one that could be taken for a quote that is doubled. -/
private def samplePieces : List Piece :=
  [⟨[], '\'', ['é', '"'], rfl, rfl, by decide⟩,
    ⟨[' ', '\n'], '"', "it's".toList, rfl, rfl, by decide⟩, ⟨[], '\'', [], rfl, rfl, by decide⟩]

/-- The pieces in a row, and with a quote behind them that nothing closes. -/
theorem parse_pieces_sample :
    samplePieces ≠ [] ∧ [' '].all isSpace ∧ isQuote '"' ∧ '"' ∉ "'a".toList ∧
      parse .default "'é\"' \n\"it's\"''" = .ok (.literal (.text "é\"it's")) ∧
      parse .default "'é\"' \n\"it's\"'' \"'a" = .error ⟨16, .unterminatedText⟩ := by
  have hne : samplePieces ≠ [] := List.cons_ne_nil _ _
  obtain ⟨hread, hfail⟩ := parse_pieces hne
  exact ⟨hne, rfl, rfl, by decide, hread,
    hfail [' '] '"' "'a".toList rfl rfl (by decide)⟩

end QuerySteps.Formula
