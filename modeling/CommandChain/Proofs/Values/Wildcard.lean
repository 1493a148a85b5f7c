import CommandChain.Text.Wildcard
import Mathlib.Data.List.Infix
import Mathlib.Tactic.Linarith
/-!
# Wildcard patterns are matched exactly

A comparison remembers only the last star. That is enough: whatever an earlier star could still take,
the last one can take as well, since the pattern between the two has no star and so stands for a fixed
number of characters. Each step keeps what the comparison will accept, and there are at most as many
steps as the text has characters for each character of the pattern and one more.
-/

namespace CommandChain.Text.Wildcard

variable {pattern text passed read behind tried : List Char} {p c : Char} {s s' : Scan}

/-! ## The language of a pattern -/

/-- A star takes any run of characters, also none. -/
theorem matches_star_iff :
    Matches ('*' :: pattern) text ↔ ∃ run rest, text = run ++ rest ∧ Matches pattern rest := by
  constructor
  · intro h
    cases h with
    | star run tail => exact ⟨run, _, rfl, tail⟩
    | same _ star _ _ => exact absurd rfl star
  · rintro ⟨run, rest, rfl, tail⟩
    exact .star run tail

/-- A character of a pattern that is no star takes one character, any if it is a question mark. -/
theorem matches_cons_iff (hp : p ≠ '*') :
    Matches (p :: pattern) (c :: text) ↔ (p = '?' ∨ p = c) ∧ Matches pattern text := by
  constructor
  · intro h
    generalize hwhole : c :: text = whole at h
    cases h with
    | star => exact absurd rfl hp
    | one _ tail =>
      cases hwhole
      exact ⟨.inl rfl, tail⟩
    | same _ _ _ tail =>
      cases hwhole
      exact ⟨.inr rfl, tail⟩
  · rintro ⟨hfits, tail⟩
    by_cases hone : p = '?'
    · subst hone
      exact .one c tail
    · obtain rfl := hfits.resolve_left hone
      exact .same p hp hone tail

/-- A text ends with what a pattern ends with once the pattern is nothing but stars. -/
theorem matches_nil_iff : Matches pattern [] ↔ pattern.all (· == '*') = true := by
  induction pattern with
  | nil => exact iff_of_true .done rfl
  | cons p pattern ih =>
    rw [List.all_cons, Bool.and_eq_true, beq_iff_eq, ← ih]
    constructor
    · intro h
      generalize htext : ([] : List Char) = text at h
      cases h with
      | star run tail =>
        rw [(List.append_eq_nil_iff.mp htext.symm).2] at tail
        rw [← htext]
        exact ⟨rfl, tail⟩
      | one => cases htext
      | same => cases htext
    · rintro ⟨rfl, tail⟩
      exact .star [] tail

theorem not_matches_nil_left : ¬ Matches [] (c :: text) := by
  rintro ⟨⟩

/-- A star takes whatever stands before what it would match. -/
theorem matches_star_of_suffix (h : Matches ('*' :: pattern) read) (hsuffix : read <:+ text) :
    Matches ('*' :: pattern) text := by
  obtain ⟨before, rfl⟩ := hsuffix
  obtain ⟨run, rest, rfl, tail⟩ := matches_star_iff.mp h
  exact matches_star_iff.mpr ⟨before ++ run, rest, (List.append_assoc ..).symm, tail⟩

/-- A pattern without a star stands for as many characters as it has. -/
theorem exists_of_matches_append (hpassed : '*' ∉ passed) (h : Matches (passed ++ pattern) text) :
    ∃ read rest, text = read ++ rest ∧ read.length = passed.length ∧ Matches pattern rest := by
  induction passed generalizing text with
  | nil => exact ⟨[], text, rfl, rfl, h⟩
  | cons p passed ih =>
    rw [List.mem_cons, not_or] at hpassed
    cases text with
    | nil =>
      have hstar := matches_nil_iff.mp h
      rw [List.cons_append, List.all_cons, Bool.and_eq_true, beq_iff_eq] at hstar
      exact absurd hstar.1.symm hpassed.1
    | cons c text =>
      obtain ⟨-, tail⟩ := (matches_cons_iff (Ne.symm hpassed.1)).mp h
      obtain ⟨read, rest, rfl, hlength, hrest⟩ := ih hpassed.2 tail
      exact ⟨c :: read, rest, rfl, congrArg (· + 1) hlength, hrest⟩

/-! ## One step -/

/-- The last star can still take characters, at least one, so that what is left fits. -/
def Star.CanTake (star : Star) : Prop :=
  ∃ run rest, star.text = run ++ rest ∧ run ≠ [] ∧ Matches star.pattern rest

/-- What a comparison will find: that what is left fits, now or once the last star takes more. -/
def Scan.Accepts (s : Scan) : Prop :=
  Matches s.pattern s.text ∨ ∃ star ∈ s.star, star.CanTake

/-- A comparison has gone through equally much of pattern and text since the last star. -/
def Scan.Aligned (s : Scan) : Prop :=
  ∀ star ∈ s.star, ∃ passed read, star.pattern = passed ++ s.pattern ∧ star.text = read ++ s.text
    ∧ passed.length = read.length ∧ '*' ∉ passed

/-- What the last star could still take leaves what is left of the text, or less. -/
theorem Scan.Aligned.matches_of_canTake (h : s.Aligned) {star : Star} (hstar : star ∈ s.star)
    (htake : star.CanTake) :
    ∃ before rest, s.text = before ++ rest ∧ before ≠ [] ∧ Matches s.pattern rest := by
  obtain ⟨passed, read, hpattern, htext, hlength, hpassed⟩ := h star hstar
  obtain ⟨run, later, hlater, hrun, hmatches⟩ := htake
  rw [hpattern] at hmatches
  obtain ⟨skipped, rest, rfl, hskipped, hrest⟩ := exists_of_matches_append hpassed hmatches
  -- Both are ends of the text at the star, and the one behind the longer start is the shorter.
  have hwhole : read ++ s.text = (run ++ skipped) ++ rest := by
    rw [← htext, hlater, List.append_assoc]
  have hshort : read.length < (run ++ skipped).length := by
    have := List.length_pos_iff.mpr hrun
    rw [List.length_append]
    omega
  rcases List.append_eq_append_iff.mp hwhole with ⟨before, hbefore, hleft⟩ | ⟨surplus, rfl, -⟩
  · refine ⟨before, rest, hleft, ?_, hrest⟩
    rintro rfl
    rw [hbefore, List.append_nil] at hshort
    exact absurd hshort (Nat.lt_irrefl _)
  · rw [List.length_append] at hshort
    omega

/-- A step keeps a comparison aligned. -/
theorem Scan.Step.aligned (h : Scan.Step s s') (hs : s.Aligned) : s'.Aligned := by
  cases h with
  | star =>
    rintro _ ⟨⟩
    exact ⟨[], [], rfl, rfl, rfl, by simp⟩
  | @fits _ _ p c _ hp _ =>
    intro star hstar
    obtain ⟨passed, read, hpattern, htext, hlength, hpassed⟩ := hs star hstar
    refine ⟨passed ++ [p], read ++ [c], ?_, ?_, ?_, ?_⟩
    · rw [hpattern, List.append_assoc, List.singleton_append]
    · rw [htext, List.append_assoc, List.singleton_append]
    · rw [List.length_append, List.length_append, hlength]
      rfl
    · rw [List.mem_append, List.mem_singleton, not_or]
      exact ⟨hpassed, Ne.symm hp⟩
  | again =>
    rintro _ ⟨⟩
    exact ⟨[], [], rfl, rfl, rfl, by simp⟩

/-- A step changes nothing in what a comparison will accept. -/
theorem Scan.Step.accepts_iff (h : Scan.Step s s') (hs : s.Aligned) : s'.Accepts ↔ s.Accepts := by
  cases h with
  | @star pattern text c last =>
    -- The star that is forgotten could only have taken what the new one can take, too.
    have hnew : Scan.Accepts ⟨pattern, c :: text, some ⟨pattern, c :: text⟩⟩
        ↔ Matches ('*' :: pattern) (c :: text) := by
      rw [matches_star_iff]
      constructor
      · rintro (hnow | ⟨_, ⟨⟩, run, rest, hrest, -, hlater⟩)
        · exact ⟨[], c :: text, rfl, hnow⟩
        · exact ⟨run, rest, hrest, hlater⟩
      · rintro ⟨run, rest, hrest, hmatches⟩
        cases run with
        | nil => exact .inl (by rwa [hrest])
        | cons d run => exact .inr ⟨_, rfl, d :: run, rest, hrest, by simp, hmatches⟩
    rw [hnew]
    refine ⟨.inl, ?_⟩
    rintro (hnow | ⟨star, hstar, htake⟩)
    · exact hnow
    · obtain ⟨before, rest, hrest, -, hmatches⟩ := hs.matches_of_canTake hstar htake
      exact matches_star_of_suffix hmatches ⟨before, hrest.symm⟩
  | fits hp hfits =>
    refine or_congr_left ?_
    rw [matches_cons_iff hp]
    exact (and_iff_right hfits).symm
  | @again pattern text behind tried c d hmisfit =>
    have hnot : ¬ Matches pattern (c :: text) := by
      cases pattern with
      | nil => exact not_matches_nil_left
      | cons p pattern =>
        obtain ⟨hp, hone, hsame⟩ := hmisfit p rfl
        rw [matches_cons_iff hp]
        exact fun h => h.1.elim hone hsame
    constructor
    · rintro (hnow | ⟨_, ⟨⟩, run, rest, hrest, -, hlater⟩)
      · exact .inr ⟨_, rfl, [d], tried, rfl, by simp, hnow⟩
      · exact .inr ⟨_, rfl, d :: run, rest, congrArg (d :: ·) hrest, by simp, hlater⟩
    · rintro (hnow | ⟨_, ⟨⟩, run, rest, hrest, hrun, hlater⟩)
      · exact absurd hnow hnot
      · obtain ⟨_, run, rfl⟩ := List.exists_cons_of_ne_nil hrun
        obtain ⟨-, rfl⟩ := List.cons.inj hrest
        cases run with
        | nil => exact .inl hlater
        | cons e run => exact .inr ⟨_, rfl, e :: run, rest, rfl, by simp, hlater⟩

/-! ## All steps -/

/-- A comparison without a next step has the outcome that it accepts. -/
theorem Scan.verdict_iff (hs : s.Aligned) {verdict : Bool} (h : s.next = .inr verdict) :
    verdict = true ↔ s.Accepts := by
  have hretry (hnot : ¬ Matches s.pattern s.text)
      (h : Scan.retry s.star = .inr verdict) : verdict = true ↔ s.Accepts := by
    unfold Scan.retry at h
    split at h
    · cases h
    · next hno =>
      cases h
      refine iff_of_false (by simp) ?_
      rintro (hnow | ⟨star, hstar, htake⟩)
      · exact hnot hnow
      · obtain ⟨run, rest, hrest, hrun, -⟩ := htake
        obtain ⟨d, run, rfl⟩ := List.exists_cons_of_ne_nil hrun
        exact hno star.pattern d (run ++ rest) (by rw [← List.cons_append, ← hrest]; exact hstar)
  obtain ⟨pattern, whole, last⟩ := s
  cases whole with
  | nil =>
    cases h
    refine matches_nil_iff.symm.trans ⟨.inl, ?_⟩
    rintro (hnow | ⟨star, hstar, htake⟩)
    · exact hnow
    · obtain ⟨before, rest, hrest, hbefore, -⟩ := hs.matches_of_canTake hstar htake
      exact absurd (List.append_eq_nil_iff.mp hrest.symm).1 hbefore
  | cons c text =>
    cases pattern with
    | nil => exact hretry not_matches_nil_left h
    | cons p pattern =>
      simp only [Scan.next] at h
      split at h
      · cases h
      · next hstar =>
        rw [beq_iff_eq] at hstar
        split at h
        · cases h
        · next hmisfit =>
          rw [Bool.or_eq_true, beq_iff_eq, beq_iff_eq] at hmisfit
          exact hretry (fun hnow => hmisfit ((matches_cons_iff hstar).mp hnow).1) h

/-- A comparison comes to its outcome after a number of steps. -/
inductive Scan.Ends : Scan → Nat → Bool → Prop
  | now {s : Scan} {verdict : Bool} (h : s.next = .inr verdict) : Ends s 0 verdict
  | later {s s' : Scan} {steps : Nat} {verdict : Bool} (h : s.next = .inl s')
    (rest : Ends s' steps verdict) : Ends s (steps + 1) verdict

/-- How many steps a comparison can still take: for every character that its star can take the whole
pattern behind the star and one step more, and what is left of the pattern now. -/
def Scan.room (s : Scan) : Nat :=
  match s.star with
  | some star => star.text.length * (star.pattern.length + 1) + s.pattern.length
  | none => s.text.length * (s.pattern.length + 1) + s.pattern.length

/-- Every step leaves an aligned comparison less room, so that it comes to its end. -/
theorem Scan.Step.room_lt (h : Scan.Step s s') (hs : s.Aligned) : s'.room < s.room := by
  cases h with
  | @star pattern text c last =>
    cases last with
    | none =>
      simp only [Scan.room, List.length_cons]
      nlinarith
    | some last =>
      obtain ⟨passed, read, hpattern, htext, hlength, -⟩ := hs last rfl
      have hlong := congrArg List.length hpattern
      have hwhole := congrArg List.length htext
      simp only [Scan.room, List.length_cons, List.length_append] at *
      nlinarith
  | @fits pattern text p c last =>
    cases last with
    | none =>
      simp only [Scan.room, List.length_cons]
      nlinarith
    | some last =>
      simp only [Scan.room, List.length_cons]
      omega
  | again =>
    simp only [Scan.room, List.length_cons]
    nlinarith

/-- Every comparison ends, with the outcome that it accepts. -/
theorem Scan.exists_ends (s : Scan) (hs : s.Aligned) :
    ∃ steps ≤ s.room, s.Ends steps s.outcome ∧ (s.outcome = true ↔ s.Accepts) := by
  induction s using Scan.outcome.induct with
  | case1 s s' hnext ih =>
    have hstep := Scan.step_of_next hnext
    obtain ⟨steps, hsteps, hends, haccepts⟩ := ih (hstep.aligned hs)
    have houtcome : s.outcome = s'.outcome := by
      rw [Scan.outcome]
      split
      · next h => rw [hnext] at h; cases h; rfl
      · next h => rw [hnext] at h; cases h
    refine ⟨steps + 1, Nat.succ_le_of_lt (Nat.lt_of_le_of_lt hsteps (hstep.room_lt hs)), ?_, ?_⟩
    · rw [houtcome]
      exact .later hnext hends
    · rw [houtcome, haccepts]
      exact hstep.accepts_iff hs
  | case2 s verdict hnext =>
    have houtcome : s.outcome = verdict := by
      rw [Scan.outcome]
      split
      · next h => rw [hnext] at h; cases h
      · next h => rw [hnext] at h; cases h; rfl
    rw [houtcome]
    exact ⟨0, Nat.zero_le _, .now hnext, Scan.verdict_iff hs hnext⟩

/-- **Wildcard patterns are matched exactly.** For every pattern and every text the comparison ends, after
at most as many steps as the text has characters for each character of the pattern and one more, and as
many as the pattern has; and its outcome is whether the text belongs to the pattern, both in lower
case. -/
theorem isMatch_exact (pattern text : String) :
    (∃ steps ≤ (lowerChars text).length * ((lowerChars pattern).length + 1)
        + (lowerChars pattern).length,
      Scan.Ends { pattern := lowerChars pattern, text := lowerChars text } steps
        (isMatch pattern text))
      ∧ (isMatch pattern text = true ↔ Matches (lowerChars pattern) (lowerChars text)) := by
  have haligned : Scan.Aligned { pattern := lowerChars pattern, text := lowerChars text } := by
    rintro _ ⟨⟩
  obtain ⟨steps, hsteps, hends, haccepts⟩ := Scan.exists_ends _ haligned
  refine ⟨⟨steps, hsteps, hends⟩, haccepts.trans ⟨?_, .inl⟩⟩
  rintro (hnow | ⟨_, ⟨⟩, -⟩)
  exact hnow

end CommandChain.Text.Wildcard
