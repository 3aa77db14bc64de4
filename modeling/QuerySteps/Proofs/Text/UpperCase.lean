import Mathlib.Data.List.Basic
import Mathlib.Data.List.Chain
import QuerySteps.Proofs.Formula.Matching
import QuerySteps.Text.Upper

/-!
# Upper case is final

What upper case makes of a character, upper case leaves alone (`upperChar_of_mem`), so taking it twice
is taking it once (`upper_upper`).  Below U+0080 this is arithmetic.  Beyond, it is a fact about the
tables: nothing that they give is a character that they change.  It is looked up for pairs of runs
(`CaseRun.apart`) and not for single characters.

Two texts that differ in the case of ASCII letters only have one upper case
(`flatMap_upperChar_congr`); the converse fails, since other characters may share an upper case.

Only letters are changed (`upperChar_of_not_isLetter`), but a letter may become several characters,
and these need not all be letters: there are letters with a mark that upper case knows only as the
letter and the mark behind it.  Such a mark never stands first, and behind few letters of ASCII
(`MarkAfter`).  That too is looked up in the tables.
-/

namespace QuerySteps.Text

open Formula (isUpper_iff_toNat isLower_iff_toNat isUpper_toUpper_iff toUpper_of_isUpper
  toUpper_of_not_isLower)

/-! ## The tables -/

/-- Whether nothing that one run gives is changed by another.  Both may move every second character
of one range. -/
def CaseRun.apart (run other : CaseRun) : Bool :=
  -- `Nat.blt` and not `<`: the kernel computes it directly, and there are many pairs
  (run.target + (run.last - run.first)).blt other.first || other.last.blt run.target ||
    ((run.step == 2 || run.first == run.last) && other.step == 2 &&
      (run.target + other.first) % 2 == 1)

/-- One code point as a run that moves it nowhere. -/
def CaseRun.single (n : Nat) : CaseRun := ⟨n, n, 1, n⟩

/-- Whether the code points that a run gives are characters. -/
def CaseRun.valid (run : CaseRun) : Bool :=
  (run.target + (run.last - run.first)).blt 0xd800 ||
    (Nat.blt 0xdfff run.target && (run.target + (run.last - run.first)).blt 0x110000)

/-- The code points that occur in the upper case of letters that become several characters. -/
def longTargets : List Nat := (longUpperCases.flatMap (·.2)).dedup

private theorem runs_apart_runs :
    caseRuns.all (fun run => run.valid && caseRuns.all run.apart) = true := by
  decide +kernel

private theorem runs_apart_long :
    caseRuns.all (fun run => longUpperCases.all fun entry => run.apart (.single entry.1)) = true := by
  decide +kernel

private theorem long_apart_runs :
    longTargets.all (fun n => (CaseRun.single n).valid && caseRuns.all (CaseRun.single n).apart) =
      true := by
  decide +kernel

private theorem long_apart_long :
    longTargets.all (fun n => longUpperCases.all fun entry => n != entry.1) = true := by
  decide +kernel

theorem CaseRun.upper?_eq_some_iff {run : CaseRun} {n m : Nat} :
    run.upper? n = some m ↔ run.first ≤ n ∧ n ≤ run.last ∧ (n - run.first) % run.step = 0 ∧
      run.target + (n - run.first) = m := by
  unfold CaseRun.upper?
  split <;> simp_all

theorem CaseRun.apart_iff {run other : CaseRun} :
    run.apart other ↔ run.target + (run.last - run.first) < other.first ∨ other.last < run.target ∨
      (run.step = 2 ∨ run.first = run.last) ∧ other.step = 2 ∧
        (run.target + other.first) % 2 = 1 := by
  simp [CaseRun.apart, Nat.blt_eq, or_assoc, and_assoc]

/-- What a run gives is not changed by a run apart from it. -/
theorem CaseRun.upper?_of_apart {run other : CaseRun} {n m : Nat} (hapart : run.apart other)
    (h : run.upper? n = some m) : other.upper? m = none := by
  obtain ⟨hfirst, hlast, hstep, rfl⟩ := CaseRun.upper?_eq_some_iff.mp h
  rw [Option.eq_none_iff_forall_ne_some]
  intro k hk
  obtain ⟨hfirst', hlast', hstep', -⟩ := CaseRun.upper?_eq_some_iff.mp hk
  rcases CaseRun.apart_iff.mp hapart with hbelow | habove | ⟨hsecond, hother, hodd⟩
  · omega
  · omega
  · rw [hother] at hstep'
    rcases hsecond with hsecond | hsingle
    · rw [hsecond] at hstep
      omega
    · omega

theorem CaseRun.isValidChar_of_valid {run : CaseRun} {n m : Nat} (hvalid : run.valid)
    (h : run.upper? n = some m) : m.isValidChar := by
  obtain ⟨hfirst, hlast, -, rfl⟩ := CaseRun.upper?_eq_some_iff.mp h
  simp only [CaseRun.valid, Bool.or_eq_true, Bool.and_eq_true, Nat.blt_eq] at hvalid
  unfold Nat.isValidChar
  omega

theorem CaseRun.upper?_single (n : Nat) : (CaseRun.single n).upper? n = some n :=
  CaseRun.upper?_eq_some_iff.mpr ⟨Nat.le_refl n, Nat.le_refl n, Nat.mod_one _, by simp [single]⟩

/-- The code points that the tables leave alone. -/
structure Final (n : Nat) : Prop where
  valid : n.isValidChar
  runs : ∀ run ∈ caseRuns, run.upper? n = none
  long : longUpperCases.lookup n = none

theorem final_of_run {run : CaseRun} (hrun : run ∈ caseRuns) {n m : Nat}
    (h : run.upper? n = some m) : Final m := by
  have hruns := List.all_eq_true.mp runs_apart_runs run hrun
  rw [Bool.and_eq_true] at hruns
  have hlong := List.all_eq_true.mp runs_apart_long run hrun
  refine ⟨run.isValidChar_of_valid hruns.1 h, ?_, ?_⟩
  · intro other hother
    exact run.upper?_of_apart (List.all_eq_true.mp hruns.2 other hother) h
  · rw [List.lookup_eq_none_iff]
    intro entry hentry
    have hnone := run.upper?_of_apart (List.all_eq_true.mp hlong entry hentry) h
    rw [bne_iff_ne]
    rintro rfl
    rw [CaseRun.upper?_single] at hnone
    cases hnone

theorem final_of_long {entry : Nat × List Nat} (hentry : entry ∈ longUpperCases) {n : Nat}
    (h : n ∈ entry.2) : Final n := by
  have hn : n ∈ longTargets := List.mem_dedup.mpr (List.mem_flatMap.mpr ⟨entry, hentry, h⟩)
  have hruns := List.all_eq_true.mp long_apart_runs n hn
  rw [Bool.and_eq_true] at hruns
  have hlong := List.all_eq_true.mp long_apart_long n hn
  refine ⟨CaseRun.isValidChar_of_valid hruns.1 (CaseRun.upper?_single n), ?_, ?_⟩
  · intro other hother
    exact CaseRun.upper?_of_apart (List.all_eq_true.mp hruns.2 other hother)
      (CaseRun.upper?_single n)
  · rw [List.lookup_eq_none_iff]
    intro entry hentry
    exact List.all_eq_true.mp hlong entry hentry

/-! ## Characters -/

private theorem mem_of_lookup {n : Nat} {ns : List Nat} (h : longUpperCases.lookup n = some ns) :
    (n, ns) ∈ longUpperCases := by
  obtain ⟨front, rest, hentries, -⟩ := List.lookup_eq_some_iff.mp h
  simp [hentries]

private theorem upperChar_of_ascii {c : Char} (h : c.toNat < 0x80) : upperChar c = [c.toUpper] :=
  if_pos h

private theorem upperChar_of_final {n : Nat} (h : Final n) :
    upperChar (Char.ofNat n) = [Char.ofNat n] := by
  have hn : (Char.ofNat n).toNat = n := by rw [Char.toNat_ofNat, if_pos h.valid]
  by_cases hascii : n < 0x80
  · have hlower : ¬ (Char.ofNat n).isLower := by
      rw [isLower_iff_toNat, hn]
      intro hlower
      -- the first run of the table is that of the ASCII letters
      have hrun := h.runs ⟨0x61, 0x7a, 1, 0x41⟩ List.mem_cons_self
      have hsome : CaseRun.upper? ⟨0x61, 0x7a, 1, 0x41⟩ n = some (0x41 + (n - 0x61)) :=
        CaseRun.upper?_eq_some_iff.mpr ⟨hlower.1, hlower.2, Nat.mod_one _, rfl⟩
      rw [hsome] at hrun
      cases hrun
    rw [upperChar_of_ascii (by rwa [hn]), toUpper_of_not_isLower hlower]
  · have hruns : caseRuns.findSome? (·.upper? n) = none := List.findSome?_eq_none_iff.mpr h.runs
    simp only [upperChar, hn, if_neg hascii, hruns, h.long]

/-- **What upper case makes of a character, upper case leaves alone.** -/
theorem upperChar_of_mem {c d : Char} (h : d ∈ upperChar c) : upperChar d = [d] := by
  unfold upperChar at h
  split at h
  · next hascii =>
    obtain rfl := List.mem_singleton.mp h
    by_cases hlower : c.isLower
    · have hupper : c.toUpper.isUpper := isUpper_toUpper_iff.mpr (by simp [Char.isAlpha, hlower])
      have hnat := isUpper_iff_toNat.mp hupper
      rw [upperChar_of_ascii (by omega), toUpper_of_isUpper hupper]
    · rw [toUpper_of_not_isLower hlower, upperChar_of_ascii hascii, toUpper_of_not_isLower hlower]
  · next hascii =>
    split at h
    · next n hfound =>
      obtain rfl := List.mem_singleton.mp h
      obtain ⟨run, hrun, hn⟩ := List.exists_of_findSome?_eq_some hfound
      exact upperChar_of_final (final_of_run hrun hn)
    · next hruns =>
      split at h
      · next ns hfound =>
        obtain ⟨n, hn, rfl⟩ := List.mem_map.mp h
        exact upperChar_of_final (final_of_long (mem_of_lookup hfound) hn)
      · next hlong =>
        obtain rfl := List.mem_singleton.mp h
        simp only [upperChar, if_neg hascii, hruns, hlong]

/-- Every character has an upper case. -/
theorem upperChar_ne_nil (c : Char) : upperChar c ≠ [] := by
  have hentries : longUpperCases.all (fun entry => !entry.2.isEmpty) = true := by decide +kernel
  unfold upperChar
  split
  · simp
  · split
    · simp
    · split
      · next ns hfound =>
        have hentry := List.all_eq_true.mp hentries (c.toNat, ns) (mem_of_lookup hfound)
        simpa using hentry
      · simp

/-- The case of an ASCII letter makes no difference to its upper case. -/
theorem upperChar_congr {c d : Char} (h : c.toUpper = d.toUpper) : upperChar c = upperChar d := by
  have hascii : ∀ {c d : Char}, c.toUpper = d.toUpper → c.isLower → upperChar c = upperChar d := by
    intro c d h hc
    have hd : d.isAlpha := by
      rw [← isUpper_toUpper_iff, ← h, isUpper_toUpper_iff]
      simp [Char.isAlpha, hc]
    have hnat := isLower_iff_toNat.mp hc
    rw [upperChar_of_ascii (by omega), upperChar_of_ascii (Formula.toNat_lt_of_isAlpha hd), h]
  by_cases hc : c.isLower
  · exact hascii h hc
  · by_cases hd : d.isLower
    · exact (hascii h.symm hd).symm
    · rw [toUpper_of_not_isLower hc, toUpper_of_not_isLower hd] at h
      rw [h]

/-! ## Letters -/

/-- The letters of all blocks in which there is upper case, those with most of it first. -/
def casedLetters : List (Nat × Nat) :=
  europeanLetters ++ (southeastLetters ++ (generalLetters ++ (compatibilityLetters ++
    (ancientLetters ++ (brahmicLetters ++ furtherLetters)))))

/-- Whether all code points of a range are letters. -/
def lettersFrom (first last : Nat) : Bool :=
  casedLetters.any fun range => range.1.ble first && last.ble range.2

/-- Whether a run holds letters only and gives letters only.  What it gives may be every second
character of a range that has others between them. -/
def CaseRun.ofLetters (run : CaseRun) : Bool :=
  lettersFrom run.first run.last &&
    (lettersFrom run.target (run.target + (run.last - run.first)) ||
      run.step == 2 && (List.range ((run.last - run.first) / 2 + 1)).all fun k =>
        lettersFrom (run.target + 2 * k) (run.target + 2 * k))

/-- Whether upper case may have a mark behind a character: behind H, J, T, W and Y, and beyond
ASCII. -/
def carriesMark (n : Nat) : Bool :=
  Nat.ble 0x80 n || [0x48, 0x4a, 0x54, 0x57, 0x59].contains n

/-- Whether only letters stand behind characters that carry no mark. -/
def marksCarried : List Nat → Bool
  | p :: q :: ns => (carriesMark p || lettersFrom q q) && marksCarried (q :: ns)
  | _ => true

private theorem runs_of_letters : caseRuns.all CaseRun.ofLetters = true := by
  decide +kernel

private theorem long_of_letters :
    longUpperCases.all (fun entry => lettersFrom entry.1 entry.1 &&
      entry.2.head?.all (fun n => lettersFrom n n) && marksCarried entry.2) = true := by
  decide +kernel

private theorem ascii_letterRanges :
    letterRanges.all (fun range => Nat.ble 0x80 range.1 ||
      range.1.ble 0x5a && Nat.ble 0x41 range.1 && range.2.ble 0x5a ||
      Nat.ble 0x61 range.1 && range.2.ble 0x7a) = true := by
  decide +kernel

theorem isLetter_of_inRanges {c : Char} (h : inRanges letterRanges c.toNat) : isLetter c := by
  unfold isLetter
  split
  · next hascii =>
    obtain ⟨range, hrange, hc⟩ := List.any_eq_true.mp h
    have hrange := List.all_eq_true.mp ascii_letterRanges range hrange
    simp only [Bool.or_eq_true, Bool.and_eq_true, Nat.ble_eq, decide_eq_true_eq] at hrange hc
    rw [Char.isAlpha, Bool.or_eq_true, isUpper_iff_toNat, isLower_iff_toNat]
    omega
  · exact h

theorem isLetter_of_lettersFrom {first last : Nat} (h : lettersFrom first last) {c : Char}
    (hfirst : first ≤ c.toNat) (hlast : c.toNat ≤ last) : isLetter c := by
  obtain ⟨range, hrange, hbounds⟩ := List.any_eq_true.mp h
  simp only [Bool.and_eq_true, Nat.ble_eq] at hbounds
  have hmem : range ∈ letterRanges := by
    simp only [casedLetters, letterRanges, List.mem_append] at hrange ⊢
    tauto
  refine isLetter_of_inRanges (List.any_eq_true.mpr ⟨range, hmem, ?_⟩)
  simp only [Bool.and_eq_true, decide_eq_true_eq]
  omega

/-- A character that a run changes is a letter, and so is what the run gives. -/
theorem isLetter_of_run {run : CaseRun} (hrun : run ∈ caseRuns) {c : Char} {n : Nat}
    (h : run.upper? c.toNat = some n) : isLetter c ∧ isLetter (Char.ofNat n) := by
  have hn : (Char.ofNat n).toNat = n := by
    rw [Char.toNat_ofNat, if_pos (final_of_run hrun h).valid]
  obtain ⟨hfirst, hlast, hstep, htarget⟩ := CaseRun.upper?_eq_some_iff.mp h
  have hletters := List.all_eq_true.mp runs_of_letters run hrun
  simp only [CaseRun.ofLetters, Bool.and_eq_true, Bool.or_eq_true, beq_iff_eq,
    List.all_eq_true, List.mem_range] at hletters
  obtain ⟨hsource, htargets | ⟨htwo, htargets⟩⟩ := hletters
  · exact ⟨isLetter_of_lettersFrom hsource hfirst hlast,
      isLetter_of_lettersFrom htargets (by omega) (by omega)⟩
  · rw [htwo] at hstep
    have hplace := htargets ((c.toNat - run.first) / 2) (by omega)
    exact ⟨isLetter_of_lettersFrom hsource hfirst hlast,
      isLetter_of_lettersFrom hplace (by omega) (by omega)⟩

private theorem letters_of_long {entry : Nat × List Nat} (hentry : entry ∈ longUpperCases) :
    lettersFrom entry.1 entry.1 ∧ (∀ n ∈ entry.2.head?, lettersFrom n n) ∧
      marksCarried entry.2 := by
  have h := List.all_eq_true.mp long_of_letters entry hentry
  simp only [Bool.and_eq_true, Option.all_eq_true, and_assoc] at h
  exact h

/-- **Only letters are changed by upper case.** -/
theorem upperChar_of_not_isLetter {c : Char} (h : isLetter c = false) : upperChar c = [c] := by
  have hnot : ¬ isLetter c := by simp [h]
  by_cases hascii : c.toNat < 0x80
  · have hlower : ¬ c.isLower := fun hlower =>
      hnot (Formula.isLetter_of_isAlpha (by simp [Char.isAlpha, hlower]))
    rw [upperChar_of_ascii hascii, toUpper_of_not_isLower hlower]
  · have hruns : caseRuns.findSome? (·.upper? c.toNat) = none := by
      rw [List.findSome?_eq_none_iff]
      intro run hrun
      exact Option.eq_none_iff_forall_ne_some.mpr fun n hn => hnot (isLetter_of_run hrun hn).1
    have hlong : longUpperCases.lookup c.toNat = none := by
      refine Option.eq_none_iff_forall_ne_some.mpr fun ns hns => hnot ?_
      exact isLetter_of_lettersFrom (letters_of_long (mem_of_lookup hns)).1 (Nat.le_refl _)
        (Nat.le_refl _)
    simp only [upperChar, if_neg hascii, hruns, hlong]

/-- What upper case makes of letters: a letter comes first, and a mark only behind a character that
carries one. -/
structure Marked (s : List Char) : Prop where
  head : ∀ c ∈ s.head?, isLetter c
  chain : s.IsChain fun p q => carriesMark p.toNat ∨ isLetter q

theorem marked_singleton {c : Char} (h : isLetter c) : Marked [c] :=
  ⟨fun _ hd => Option.some.inj hd ▸ h, List.isChain_singleton c⟩

theorem Marked.append {s t : List Char} (hs : Marked s) (ht : Marked t) : Marked (s ++ t) := by
  refine ⟨?_, List.isChain_append.mpr ⟨hs.chain, ht.chain, fun p _ q hq => .inr (ht.head q hq)⟩⟩
  cases s with
  | nil => exact ht.head
  | cons c s => exact hs.head

private theorem isChain_of_marksCarried {ns : List Nat} (hvalid : ∀ n ∈ ns, n.isValidChar)
    (h : marksCarried ns) :
    (ns.map Char.ofNat).IsChain fun p q => carriesMark p.toNat ∨ isLetter q := by
  have htoNat : ∀ n ∈ ns, (Char.ofNat n).toNat = n := fun n hn => by
    rw [Char.toNat_ofNat, if_pos (hvalid n hn)]
  induction ns with
  | nil => exact List.isChain_nil
  | cons p ns ih =>
    cases ns with
    | nil => exact List.isChain_singleton _
    | cons q ns =>
      simp only [marksCarried, Bool.and_eq_true, Bool.or_eq_true] at h
      have hp := htoNat p (by simp)
      have hq := htoNat q (by simp)
      refine List.isChain_cons_cons.mpr ⟨?_, ih (fun n hn => hvalid n (List.mem_cons_of_mem _ hn))
        h.2 fun n hn => htoNat n (List.mem_cons_of_mem _ hn)⟩
      rw [hp]
      exact h.1.imp_right fun hletter => isLetter_of_lettersFrom hletter (by omega) (by omega)

/-- What upper case makes of one letter. -/
theorem marked_upperChar {c : Char} (h : isLetter c) : Marked (upperChar c) := by
  unfold upperChar
  split
  · next hascii =>
    refine marked_singleton (Formula.isLetter_of_isAlpha ?_)
    have halpha : c.isAlpha := by simpa [isLetter, hascii] using h
    simp [Char.isAlpha, isUpper_toUpper_iff.mpr halpha]
  · split
    · next n hfound =>
      obtain ⟨run, hrun, hn⟩ := List.exists_of_findSome?_eq_some hfound
      exact marked_singleton (isLetter_of_run hrun hn).2
    · split
      · next ns hfound =>
        have hentry := mem_of_lookup hfound
        obtain ⟨-, hhead, hmarks⟩ := letters_of_long hentry
        have hvalid : ∀ n ∈ ns, n.isValidChar := fun n hn => (final_of_long hentry hn).valid
        refine ⟨fun d hd => ?_, isChain_of_marksCarried hvalid hmarks⟩
        rw [List.head?_map, Option.mem_map] at hd
        obtain ⟨n, hn, rfl⟩ := hd
        have hn' : (Char.ofNat n).toNat = n := by
          rw [Char.toNat_ofNat, if_pos (hvalid n (List.mem_of_mem_head? hn))]
        exact isLetter_of_lettersFrom (hhead n hn) (by omega) (by omega)
      · exact marked_singleton h

/-! ## Texts -/

theorem toList_upper (s : String) : (upper s).toList = s.toList.flatMap upperChar := by
  rw [upper, String.toList_ofList]

private theorem flatMap_upperChar_flatMap (s : List Char) :
    (s.flatMap upperChar).flatMap upperChar = s.flatMap upperChar := by
  induction s with
  | nil => rfl
  | cons c s ih =>
    have hc : (upperChar c).flatMap upperChar = (upperChar c).flatMap fun d => [d] :=
      List.flatMap_congr fun d hd => upperChar_of_mem hd
    rw [List.flatMap_cons, List.flatMap_append, ih, hc, List.flatMap_singleton']

/-- **Upper case taken twice is upper case.** -/
theorem upper_upper (s : String) : upper (upper s) = upper s := by
  apply String.toList_injective
  rw [toList_upper, toList_upper, flatMap_upperChar_flatMap]

/-- Texts that differ in the case of ASCII letters only have one upper case. -/
theorem flatMap_upperChar_congr {v w : List Char} (h : v.map Char.toUpper = w.map Char.toUpper) :
    v.flatMap upperChar = w.flatMap upperChar := by
  induction v generalizing w with
  | nil =>
    obtain rfl : w = [] := by simpa using h.symm
    rfl
  | cons c v ih =>
    cases w with
    | nil => cases h
    | cons d w =>
      obtain ⟨hc, hv⟩ := List.cons.inj h
      rw [List.flatMap_cons, List.flatMap_cons, upperChar_congr hc, ih hv]

/-- What upper case makes of a word. -/
theorem marked_flatMap_upperChar {s : List Char} (h : ∀ c ∈ s, isLetter c) :
    Marked (s.flatMap upperChar) := by
  induction s with
  | nil => exact ⟨fun _ hc => (Option.not_mem_none _ hc).elim, List.isChain_nil⟩
  | cons c s ih =>
    rw [List.forall_mem_cons] at h
    rw [List.flatMap_cons]
    exact (marked_upperChar h.1).append (ih h.2)

/-- Only the empty text has an empty upper case. -/
theorem flatMap_upperChar_eq_nil {s : List Char} : s.flatMap upperChar = [] ↔ s = [] := by
  constructor
  · intro h
    cases s with
    | nil => rfl
    | cons c s =>
      rw [List.flatMap_cons, List.append_eq_nil_iff] at h
      exact absurd h.1 (upperChar_ne_nil c)
  · rintro rfl
    rfl

end QuerySteps.Text
