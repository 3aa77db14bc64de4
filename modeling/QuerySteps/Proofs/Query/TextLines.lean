import Mathlib.Data.List.Basic
import QuerySteps.Query.Compile

/-!
# Lines and indentation

A statement is text over several lines.  `textLines` cuts a text at its line breaks and nothing is
lost by that (`joinWith_textLines`); lines that have no break themselves are found again
(`textLines_joinWith`).

Moving a text to the right puts spaces in front of every line.  The first line needs them from the
place where the text is put, all others behind a line break, so `shift` adds spaces behind line
breaks only.  That makes it a function of the characters one by one: it goes through `++`
(`shift_append`), leaves a single line alone (`shift_of_oneLine`), and `textLines_shift` says that
with the indentation in front it moves every line.
-/

namespace QuerySteps

/-- A text without a line break. -/
def OneLine (s : String) : Prop := '\n' ∉ s.toList

instance (s : String) : Decidable (OneLine s) := inferInstanceAs (Decidable ('\n' ∉ s.toList))

theorem oneLine_append {s t : String} : OneLine (s ++ t) ↔ OneLine s ∧ OneLine t := by
  simp [OneLine]

theorem oneLine_ofList {s : List Char} : OneLine (String.ofList s) ↔ '\n' ∉ s := by
  simp [OneLine]

theorem oneLine_indent (depth : Nat) : OneLine (indent depth) := by
  rw [indent, oneLine_ofList]
  intro h
  cases List.eq_of_mem_replicate h

theorem joinWith_cons (separator part next : String) (parts : List String) :
    joinWith separator (part :: next :: parts) =
      part ++ separator ++ joinWith separator (next :: parts) :=
  String.intercalate_cons_cons

theorem oneLine_joinWith {separator : String} (hseparator : OneLine separator) {parts : List String}
    (h : ∀ part ∈ parts, OneLine part) : OneLine (joinWith separator parts) := by
  induction parts with
  | nil => exact List.not_mem_nil
  | cons part parts ih =>
    cases parts with
    | nil => exact h part List.mem_cons_self
    | cons next parts =>
      rw [joinWith_cons, oneLine_append, oneLine_append]
      exact ⟨⟨h part List.mem_cons_self, hseparator⟩,
        ih fun part hpart => h part (List.mem_cons_of_mem _ hpart)⟩

/-! ## Lines -/

/-- The lines of a text. -/
def textLines (s : String) : List String :=
  (s.toList.splitOn '\n').map String.ofList

theorem toList_joinWith_newline (lines : List String) :
    (joinWith "\n" lines).toList = ['\n'].intercalate (lines.map String.toList) :=
  String.toList_intercalate

/-- A text is its lines with breaks between them. -/
theorem joinWith_textLines (s : String) : joinWith "\n" (textLines s) = s := by
  have hlists : (textLines s).map String.toList = s.toList.splitOn '\n' := by
    simp [textLines, Function.comp_def]
  rw [← String.toList_inj, toList_joinWith_newline, hlists, List.intercalate_splitOn]

/-- Single lines with breaks between them are found again. -/
theorem textLines_joinWith {lines : List String} (hne : lines ≠ [])
    (h : ∀ line ∈ lines, OneLine line) : textLines (joinWith "\n" lines) = lines := by
  rw [textLines, toList_joinWith_newline, List.splitOn_intercalate]
  · simp [Function.comp_def]
  · intro line hline
    obtain ⟨single, hsingle, rfl⟩ := List.mem_map.mp hline
    exact h single hsingle
  · simpa using hne

theorem textLines_ne_nil (s : String) : textLines s ≠ [] := by
  simp [textLines, List.splitOn_ne_nil]

private theorem not_mem_of_mem_splitOn {c : Char} {s part : List Char} (h : part ∈ s.splitOn c) :
    c ∉ part := by
  induction s generalizing part with
  | nil =>
    obtain rfl : part = [] := by simpa using h
    exact List.not_mem_nil
  | cons d s ih =>
    rw [List.splitOn_cons_eq_if_modifyHead] at h
    obtain ⟨first, rest, hs⟩ := List.exists_cons_of_ne_nil (List.splitOn_ne_nil c s)
    rw [hs] at h ih
    split at h
    · rcases List.mem_cons.mp h with rfl | h
      · exact List.not_mem_nil
      · exact ih h
    · next hne =>
      rcases List.mem_cons.mp h with rfl | h
      · have hfirst : c ∉ first := ih List.mem_cons_self
        have hdc : c ≠ d := fun heq => hne (by simp [heq])
        simp [hdc, hfirst]
      · exact ih (List.mem_cons_of_mem _ h)

theorem oneLine_of_mem_textLines {s line : String} (h : line ∈ textLines s) : OneLine line := by
  obtain ⟨part, hpart, rfl⟩ := List.mem_map.mp h
  exact oneLine_ofList.mpr (not_mem_of_mem_splitOn hpart)

theorem joinWith_append (separator : String) {parts more : List String} (hparts : parts ≠ [])
    (hmore : more ≠ []) :
    joinWith separator (parts ++ more) =
      joinWith separator parts ++ separator ++ joinWith separator more := by
  induction parts with
  | nil => exact absurd rfl hparts
  | cons part parts ih =>
    cases parts with
    | nil =>
      obtain ⟨next, rest, rfl⟩ := List.exists_cons_of_ne_nil hmore
      exact joinWith_cons _ _ _ _
    | cons next parts =>
      have hrest := ih (List.cons_ne_nil _ _)
      rw [List.cons_append, List.cons_append, joinWith_cons, ← List.cons_append, hrest, joinWith_cons]
      simp only [String.append_assoc]

/-- A break separates the lines before it from the lines behind it. -/
theorem textLines_append (s t : String) :
    textLines (s ++ "\n" ++ t) = textLines s ++ textLines t := by
  have hs := textLines_ne_nil s
  have ht := textLines_ne_nil t
  calc textLines (s ++ "\n" ++ t)
      = textLines (joinWith "\n" (textLines s ++ textLines t)) := by
        rw [joinWith_append _ hs ht, joinWith_textLines, joinWith_textLines]
    _ = textLines s ++ textLines t := by
        refine textLines_joinWith (List.append_ne_nil_of_left_ne_nil hs _) fun line hline => ?_
        rcases List.mem_append.mp hline with hline | hline
        · exact oneLine_of_mem_textLines hline
        · exact oneLine_of_mem_textLines hline

theorem textLines_of_oneLine {s : String} (h : OneLine s) : textLines s = [s] := by
  have hall : ∀ line ∈ [s], OneLine line := fun line hline => by
    rwa [List.mem_singleton.mp hline]
  exact textLines_joinWith (List.cons_ne_nil s []) hall

/-- The lines of texts with breaks between them are the lines of each. -/
theorem textLines_joinWith_flatMap {texts : List String} (hne : texts ≠ []) :
    textLines (joinWith "\n" texts) = texts.flatMap textLines := by
  induction texts with
  | nil => exact absurd rfl hne
  | cons s texts ih =>
    cases texts with
    | nil =>
      have hjoin : joinWith "\n" [s] = s := rfl
      simp only [hjoin, List.flatMap_cons, List.flatMap_nil, List.append_nil]
    | cons t texts =>
      rw [joinWith_cons, textLines_append, ih (List.cons_ne_nil _ _)]
      rfl

/-! ## Indentation -/

theorem indent_add (d e : Nat) : indent (d + e) = indent d ++ indent e := by
  rw [indent, indent, indent, ← String.ofList_append, List.replicate_append_replicate,
    Nat.mul_add]

/-- The text with the indentation of a depth behind every line break. -/
def shift (d : Nat) (s : String) : String :=
  String.ofList (s.toList.flatMap fun c => if c = '\n' then '\n' :: (indent d).toList else [c])

theorem shift_append (d : Nat) (s t : String) : shift d (s ++ t) = shift d s ++ shift d t := by
  simp [shift, String.ofList_append]

theorem shift_of_oneLine (d : Nat) {s : String} (h : OneLine s) : shift d s = s := by
  have hchars : ∀ c ∈ s.toList, (if c = '\n' then '\n' :: (indent d).toList else [c]) = [c] := by
    intro c hc
    have hne : c ≠ '\n' := fun heq => h (heq ▸ hc)
    rw [if_neg hne]
  rw [shift, List.flatMap_congr hchars, List.flatMap_singleton', String.ofList_toList]

theorem map_shift_of_oneLine (d : Nat) {lines : List String} (h : ∀ line ∈ lines, OneLine line) :
    lines.map (shift d) = lines :=
  (List.map_congr_left fun line hline => shift_of_oneLine d (h line hline)).trans (List.map_id' _)

theorem shift_newline (d : Nat) : shift d "\n" = "\n" ++ indent d := by
  rw [← String.toList_inj]
  simp [shift]

/-- Shifted lines are the lines, each shifted, with the indentation between them. -/
theorem indent_shift_joinWith (d : Nat) {lines : List String} (hne : lines ≠ []) :
    indent d ++ shift d (joinWith "\n" lines) =
      joinWith "\n" (lines.map fun line => indent d ++ shift d line) := by
  induction lines with
  | nil => exact absurd rfl hne
  | cons line lines ih =>
    cases lines with
    | nil => rfl
    | cons next lines =>
      have hrest := ih (List.cons_ne_nil _ _)
      calc indent d ++ shift d (joinWith "\n" (line :: next :: lines))
          = indent d ++ shift d line ++ "\n" ++
              (indent d ++ shift d (joinWith "\n" (next :: lines))) := by
            simp only [joinWith_cons, shift_append, shift_newline, String.append_assoc]
        _ = joinWith "\n" ((line :: next :: lines).map fun line => indent d ++ shift d line) := by
            rw [hrest]
            exact (joinWith_cons _ _ _ _).symm

/-- **Shifting moves every line.** -/
theorem textLines_shift (d : Nat) (s : String) :
    textLines (indent d ++ shift d s) = (textLines s).map (indent d ++ ·) := by
  have hshift : (textLines s).map (fun line => indent d ++ shift d line) =
      (textLines s).map (indent d ++ ·) :=
    List.map_congr_left fun line hline => by
      rw [shift_of_oneLine d (oneLine_of_mem_textLines hline)]
  have hne := textLines_ne_nil s
  calc textLines (indent d ++ shift d s)
      = textLines (indent d ++ shift d (joinWith "\n" (textLines s))) := by
        rw [joinWith_textLines]
    _ = textLines (joinWith "\n" ((textLines s).map (indent d ++ ·))) := by
        rw [indent_shift_joinWith d hne, hshift]
    _ = (textLines s).map (indent d ++ ·) := by
        refine textLines_joinWith (by simpa using hne) ?_
        intro line hline
        obtain ⟨single, hsingle, rfl⟩ := List.mem_map.mp hline
        exact oneLine_append.mpr ⟨oneLine_indent d, oneLine_of_mem_textLines hsingle⟩

end QuerySteps
