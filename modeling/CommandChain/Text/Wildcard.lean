import CommandChain.Text.Lower
/-!
# Wildcard patterns

A pattern is a list of characters in which `*` stands for any run of characters, `?` for any one
character and every other character for itself. `Matches` states which texts belong to a pattern.

`Scan` decides it in one pass that remembers only the last star it came to: where the text stops
fitting, that star takes one character more and the pattern behind it is tried again.

Patterns and texts are compared in lower case.
-/

namespace CommandChain.Text.Wildcard

/-- The texts that belong to a pattern. -/
inductive Matches : List Char → List Char → Prop
  | done : Matches [] []
  | star (run : List Char) {pattern text : List Char} (tail : Matches pattern text) :
      Matches ('*' :: pattern) (run ++ text)
  | one (c : Char) {pattern text : List Char} (tail : Matches pattern text) :
      Matches ('?' :: pattern) (c :: text)
  | same (c : Char) {pattern text : List Char} (star : c ≠ '*') (one : c ≠ '?')
      (tail : Matches pattern text) : Matches (c :: pattern) (c :: text)

/-- A star that was passed. -/
structure Star where
  /-- The pattern behind it. -/
  pattern : List Char
  /-- The text that the pattern behind it is being tried at. -/
  text : List Char

/-- Where a comparison stands: what is left of the pattern and of the text, and the last star. -/
structure Scan where
  pattern : List Char
  text : List Char
  star : Option Star := none

namespace Scan

/-- Lets the last star take one character more. -/
def retry : Option Star → Scan ⊕ Bool
  | some ⟨pattern, _ :: text⟩ => .inl ⟨pattern, text, some ⟨pattern, text⟩⟩
  | _ => .inr false

/-- The next step of a comparison, or its outcome. -/
def next (s : Scan) : Scan ⊕ Bool :=
  match s.text, s.pattern with
  | [], pattern => .inr (pattern.all (· == '*'))
  | _ :: _, [] => retry s.star
  | c :: text, p :: pattern =>
    if p == '*' then .inl ⟨pattern, c :: text, some ⟨pattern, c :: text⟩⟩
    else if p == '?' || p == c then .inl ⟨pattern, text, s.star⟩
    else retry s.star

/-- The steps of a comparison. Without a step it has its outcome. -/
inductive Step : Scan → Scan → Prop
  | star {pattern text : List Char} {c : Char} {last : Option Star} :
      Step ⟨'*' :: pattern, c :: text, last⟩ ⟨pattern, c :: text, some ⟨pattern, c :: text⟩⟩
  | fits {pattern text : List Char} {p c : Char} {last : Option Star} (star : p ≠ '*')
      (fits : p = '?' ∨ p = c) : Step ⟨p :: pattern, c :: text, last⟩ ⟨pattern, text, last⟩
  | again {pattern text behind tried : List Char} {c d : Char}
      (misfit : ∀ p ∈ pattern.head?, p ≠ '*' ∧ p ≠ '?' ∧ p ≠ c) :
      Step ⟨pattern, c :: text, some ⟨behind, d :: tried⟩⟩ ⟨behind, tried, some ⟨behind, tried⟩⟩

/-- Whatever a comparison does next is one of its steps. -/
theorem step_of_next {s s' : Scan} (h : s.next = .inl s') : Step s s' := by
  obtain ⟨pattern, text, last⟩ := s
  have hagain {c : Char} {rest : List Char} (hmisfit : ∀ p ∈ pattern.head?, p ≠ '*' ∧ p ≠ '?' ∧ p ≠ c)
      (h : retry last = .inl s') : Step ⟨pattern, c :: rest, last⟩ s' := by
    unfold retry at h
    split at h
    · cases h
      exact .again hmisfit
    · cases h
  cases text with
  | nil => cases h
  | cons c text =>
    cases pattern with
    | nil => exact hagain (by simp) h
    | cons p pattern =>
      simp only [next] at h
      split at h
      · next hstar =>
        cases h
        cases beq_iff_eq.mp hstar
        exact .star
      · next hstar =>
        rw [beq_iff_eq] at hstar
        split at h
        · next hfits =>
          cases h
          exact .fits hstar (by simpa using hfits)
        · next hmisfit =>
          rw [Bool.or_eq_true, beq_iff_eq, beq_iff_eq, not_or] at hmisfit
          exact hagain (by simpa using ⟨hstar, hmisfit⟩) h

/-- The length of the pattern that can still be gone through. -/
def reach (s : Scan) : Nat :=
  max s.pattern.length (s.star.elim 0 (·.pattern.length))

/-- How often the last star can take one character more. -/
def slack (s : Scan) : Nat :=
  s.star.elim 0 (·.text.length)

/-- Behind a star less of the pattern is gone through, going through it again leaves the star less to
take, and every other step leaves less of the text. -/
theorem Step.shrinks {s s' : Scan} (h : Step s s') :
    s'.reach < s.reach
      ∨ s'.reach ≤ s.reach ∧ (s'.slack < s.slack
        ∨ s'.slack = s.slack ∧ s'.text.length < s.text.length) := by
  cases h with
  | star => exact .inl (Nat.lt_of_lt_of_le (by simp [reach]) (Nat.le_max_left _ _))
  | fits =>
    refine .inr ⟨?_, .inr ⟨rfl, Nat.lt_succ_self _⟩⟩
    exact Nat.max_le.mpr ⟨Nat.le_trans (Nat.le_succ _) (Nat.le_max_left _ _), Nat.le_max_right _ _⟩
  | again =>
    refine .inr ⟨?_, .inl (Nat.lt_succ_self _)⟩
    exact Nat.max_le.mpr ⟨Nat.le_max_right _ _, Nat.le_max_right _ _⟩

/-- The outcome of a comparison. -/
def outcome (s : Scan) : Bool :=
  match _h : s.next with
  | .inl s' => s'.outcome
  | .inr verdict => verdict
termination_by (s.reach, s.slack, s.text.length)
decreasing_by
  have := (step_of_next _h).shrinks
  simp only [Prod.lex_def]
  omega

end Scan

/-- Whether `text` belongs to `pattern`, both in lower case. -/
def isMatch (pattern text : String) : Bool :=
  Scan.outcome { pattern := lowerChars pattern, text := lowerChars text }

end CommandChain.Text.Wildcard
