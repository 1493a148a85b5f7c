import CommandChain.Toml.Quotation
import Mathlib.Data.Char
import Mathlib.Data.List.TakeWhile
/-!
# Quoted texts in TOML are read back

Whatever quotation the writer chooses for a text, the reader finds its end and undoes the escapes.
Between three marks the end is where three marks come in a row, of which the last of up to five count,
so that the text may hold marks only in runs of at most two. The writer sees to this: it escapes every
third double mark, and three single marks surround only texts without longer runs of them.
-/

namespace CommandChain.Toml

open CommandChain.Text (hexValue?)

variable {c mark : Char} {cs rest body : List Char} {fuel run : Nat}

/-! ## Escapes -/

/-- Four digits are read as the character of that number. -/
theorem hexEscape?_four {a b d e : Char} {n : Nat}
    (h : [a, b, d, e].foldl (fun value c => do return (← value) * 16 + (← hexValue? c)) (some 0)
      = some n) (hn : n.isValidChar) (rest : List Char) :
    hexEscape? 4 (a :: b :: d :: e :: rest) = some (Char.ofNat n, rest) := by
  simp only [hexEscape?, List.take_succ_cons, List.take_zero, List.drop_succ_cons, List.drop_zero, h]
  simp [hn]

/-- A character is escaped by this behind a backslash. No line break follows the backslash. -/
structure Escape (c x : Char) (more : List Char) : Prop where
  written : escapeChar c = '\\' :: x :: more
  reads : ∀ rest, escape? (x :: (more ++ rest)) = some (c, rest)
  visible : isBlank x = false
  no_feed : x ≠ '\n'
  no_return : x ≠ '\x0d'

/-- A character is escaped, or printable and written as it is. -/
theorem escapeChar_cases (c : Char) : (∃ x more, Escape c x more)
    ∨ escapeChar c = [c] ∧ c ≠ '\x22' ∧ c ≠ '\\' ∧ c ≠ '\n' ∧ isPrintable c = true := by
  by_cases hshort : c ∈ ['\x08', '\t', '\n', '\x0c', '\x0d', '\x22', '\\']
  · refine .inl ?_
    simp only [List.mem_cons, List.not_mem_nil, or_false] at hshort
    rcases hshort with rfl | rfl | rfl | rfl | rfl | rfl | rfl <;>
      exact ⟨_, [], rfl, fun _ => rfl, by decide, by decide, by decide⟩
  · simp only [List.mem_cons, List.not_mem_nil, or_false, not_or] at hshort
    obtain ⟨hb, ht, hn, hf, hr, hquote, hbackslash⟩ := hshort
    cases hcontrol : isControl c with
    | true =>
      have hcode : c.toNat < 128 := by
        simp [isControl, isPrintable] at hcontrol
        omega
      have hdigits : ∀ n < 128, ['0', '0', (Json.hexDigit (n / 16)).toUpper,
          (Json.hexDigit (n % 16)).toUpper].foldl
            (fun value c => do return (← value) * 16 + (← hexValue? c)) (some 0) = some n := by
        decide
      refine .inl ⟨'u', ['0', '0', (Json.hexDigit (c.toNat / 16)).toUpper,
        (Json.hexDigit (c.toNat % 16)).toUpper], ?_, fun rest => ?_, by decide, by decide, by decide⟩
      · simp [escapeChar, *]
      · have hread := hexEscape?_four (hdigits c.toNat hcode) c.valid rest
        rw [Char.ofNat_toNat] at hread
        exact hread
    | false =>
      refine .inr ⟨by simp [escapeChar, *], hquote, hbackslash, hn, ?_⟩
      simpa [isControl, hn] using hcontrol

/-! ## Texts between single marks -/

/-- The escape of a character is read as the character. -/
theorem basicBody?_escapeChar (c : Char) (h : basicBody? fuel cs = some (body, rest)) :
    basicBody? (fuel + 1) (escapeChar c ++ cs) = some (c :: body, rest) := by
  rcases escapeChar_cases c with ⟨x, more, hescape⟩ | ⟨hself, hquote, hbackslash, -, hprintable⟩
  · rw [hescape.written, List.cons_append, List.cons_append, basicBody?]
    simp [hescape.reads, h]
  · rw [hself, List.singleton_append, basicBody?]
    simp [hquote, hbackslash, hprintable, h]

/-- A text is read back up to its double mark. -/
theorem basicBody?_escaped (cs rest : List Char) (hfuel : cs.length < fuel) :
    basicBody? fuel (cs.flatMap escapeChar ++ '\x22' :: rest) = some (cs, rest) := by
  induction cs generalizing fuel with
  | nil =>
    obtain ⟨fuel, rfl⟩ := Nat.exists_eq_succ_of_ne_zero (Nat.ne_of_gt hfuel)
    rfl
  | cons c cs ih =>
    obtain ⟨fuel, rfl⟩ := Nat.exists_eq_succ_of_ne_zero (Nat.ne_zero_of_lt hfuel)
    rw [List.flatMap_cons, List.append_assoc]
    exact basicBody?_escapeChar c (ih (Nat.lt_of_succ_lt_succ hfuel))

/-- A printable text without single marks is read back up to one. -/
theorem literalBody?_self (hprintable : ∀ c ∈ cs, isPrintable c = true) (hmark : '\'' ∉ cs)
    (rest : List Char) : literalBody? (cs ++ '\'' :: rest) = some (cs, rest) := by
  induction cs with
  | nil => rfl
  | cons c cs ih =>
    rw [List.forall_mem_cons] at hprintable
    rw [List.mem_cons, not_or] at hmark
    rw [List.cons_append, literalBody?]
    simp [hprintable.1, Ne.symm hmark.1, ih hprintable.2 hmark.2]

/-! ## Runs of marks -/

/-- The length of the run of a character at the start of a text. -/
def leading (mark : Char) (cs : List Char) : Nat :=
  (cs.takeWhile (· == mark)).length

/-- A text in which no more than two marks follow each other. -/
def Sparse (mark : Char) : List Char → Prop
  | [] => True
  | c :: rest => leading mark (c :: rest) ≤ 2 ∧ Sparse mark rest

/-- A mark at the start makes the leading run longer by one. -/
theorem leading_cons_self (mark : Char) (cs : List Char) :
    leading mark (mark :: cs) = leading mark cs + 1 := by
  simp [leading]

/-- Another character at the start makes the leading run empty. -/
theorem leading_cons_of_ne (h : c ≠ mark) (cs : List Char) : leading mark (c :: cs) = 0 := by
  simp [leading, h]

/-- The length of the longest run, where a run of some length goes on and another length is the
greatest so far. -/
def longestFrom (mark : Char) (run best : Nat) (cs : List Char) : Nat :=
  (cs.foldl (fun (run, best) c => if c == mark then (run + 1, max best (run + 1)) else (0, best))
    (run, best)).2

/-- A mark makes the current run longer by one, and the longest at least as long. -/
theorem longestFrom_cons_self (mark : Char) (run best : Nat) (cs : List Char) :
    longestFrom mark run best (mark :: cs) = longestFrom mark (run + 1) (max best (run + 1)) cs := by
  simp [longestFrom]

/-- Another character ends the current run. -/
theorem longestFrom_cons_of_ne (h : c ≠ mark) (run best : Nat) (cs : List Char) :
    longestFrom mark run best (c :: cs) = longestFrom mark 0 best cs := by
  simp [longestFrom, h]

/-- The longest run is no shorter than the one at the start, counted on. -/
theorem le_longestFrom (mark : Char) (cs : List Char) (run best : Nat) :
    best ≤ longestFrom mark run best cs
      ∧ (leading mark cs = 0 ∨ run + leading mark cs ≤ longestFrom mark run best cs) := by
  induction cs generalizing run best with
  | nil => exact ⟨Nat.le_refl best, .inl rfl⟩
  | cons c cs ih =>
    by_cases hc : c = mark
    · subst hc
      obtain ⟨hbest, hrun⟩ := ih (run + 1) (max best (run + 1))
      rw [longestFrom_cons_self, leading_cons_self]
      omega
    · rw [longestFrom_cons_of_ne hc, leading_cons_of_ne hc]
      exact ⟨(ih 0 best).1, .inl rfl⟩

/-- Where the longest run has no more than two marks, no run has. -/
theorem sparse_of_longestFrom {run best : Nat} (h : longestFrom mark run best cs ≤ 2) :
    Sparse mark cs := by
  induction cs generalizing run best with
  | nil => trivial
  | cons c cs ih =>
    obtain ⟨-, hrun⟩ := le_longestFrom mark (c :: cs) run best
    refine ⟨by omega, ?_⟩
    by_cases hc : c = mark
    · subst hc
      rw [longestFrom_cons_self] at h
      exact ih h
    · rw [longestFrom_cons_of_ne hc] at h
      exact ih h

/-- A run of up to two marks and the closing three end a text. -/
theorem closing?_marks {n : Nat} (hn : n ≤ 2) (h : rest.head? ≠ some mark) :
    closing? mark (List.replicate n mark ++ List.replicate 3 mark ++ rest)
      = some (List.replicate n mark, rest) := by
  have hrun : (List.replicate n mark ++ List.replicate 3 mark ++ rest).takeWhile (· == mark)
      = List.replicate (n + 3) mark := by
    rw [List.replicate_append_replicate, List.takeWhile_append_of_pos (by simp)]
    cases rest with
    | nil => simp
    | cons d rest =>
      have hd : ¬ d = mark := fun hd => h (congrArg some hd)
      simp [hd]
  have hlength : (List.replicate n mark ++ List.replicate 3 mark).length = n + 3 := by simp
  rw [closing?, hrun, List.length_replicate, Nat.min_eq_left (by omega), if_neg (by omega),
    Nat.add_sub_cancel, List.drop_left' hlength]

/-- A text does not end in front of something other than marks. -/
theorem closing?_of_leading (hrun : leading mark cs ≤ 2) (hother : ∃ c ∈ cs, c ≠ mark)
    (rest : List Char) : closing? mark (cs ++ rest) = none := by
  obtain ⟨c, hc, hne⟩ := hother
  have htake : (cs ++ rest).takeWhile (· == mark) = cs.takeWhile (· == mark) := by
    rw [List.takeWhile_append, if_neg]
    intro hall
    have hall' := List.takeWhile_eq_self_iff.mp ((List.takeWhile_prefix _).eq_of_length hall)
    exact hne (by simpa using hall' c hc)
  rw [leading] at hrun
  rw [closing?, htake, if_pos (by omega)]

/-- A sparse text is a run of up to two marks, or something other than a mark is in it. -/
theorem replicate_or_other (hrun : leading mark cs ≤ 2) :
    (∃ n ≤ 2, cs = List.replicate n mark) ∨ ∃ c ∈ cs, c ≠ mark := by
  by_cases hall : ∀ c ∈ cs, c = mark
  · refine .inl ⟨cs.length, ?_, List.eq_replicate_of_mem hall⟩
    rwa [leading, List.takeWhile_eq_self_iff.mpr (by simpa using hall)] at hrun
  · exact .inr (by simpa using hall)

/-! ## Texts between three marks -/

/-- Nothing is skipped before a visible character. -/
theorem skipBlanks_of_visible (h : isBlank c = false) (cs : List Char) :
    skipBlanks (c :: cs) = c :: cs := by
  rw [skipBlanks, List.dropWhile_cons_of_neg (by simp [h])]

/-- Only a line feed, or what follows a carriage return, is a line break. -/
theorem lineBreak?_of_ne (hfeed : c ≠ '\n') (hreturn : c ≠ '\x0d') (cs : List Char) :
    lineBreak? (c :: cs) = none := by
  unfold lineBreak?
  split
  · next h => exact absurd (List.cons.inj h).1 hfeed
  · next h => exact absurd (List.cons.inj h).1 hreturn
  · rfl

/-- What needs no escape in any quotation is a line feed or printable. -/
theorem feed_or_printable (h : isControl c = false) : c = '\n' ∨ isPrintable c = true := by
  by_cases hn : c = '\n'
  · exact .inl hn
  · simpa [isControl, hn] using h

/-- A printable character is no carriage return. -/
theorem ne_return_of_printable (h : isPrintable c = true) : c ≠ '\x0d' := by
  rintro rfl
  exact absurd h (by decide)

/-- A literal text over several lines ends at its closing marks. -/
theorem literalLines?_ending (h : closing? '\'' cs = some (body, rest)) (hne : cs ≠ []) :
    literalLines? (fuel + 1) cs = some (body, rest) := by
  cases cs with
  | nil => exact absurd rfl hne
  | cons c cs =>
    rw [literalLines?, h]

/-- A literal text over several lines takes a character that is no control character as it stands.
-/
theorem literalLines?_step (hopen : closing? '\'' (c :: cs) = none) (hc : isControl c = false)
    (h : literalLines? fuel cs = some (body, rest)) :
    literalLines? (fuel + 1) (c :: cs) = some (c :: body, rest) := by
  rw [literalLines?, hopen]
  by_cases hfeed : c = '\n'
  · subst hfeed
    simp [lineBreak?, h]
  · have hprintable := (feed_or_printable hc).resolve_left hfeed
    simp [lineBreak?_of_ne hfeed (ne_return_of_printable hprintable), hprintable, h]

/-- A text without escapes is read back up to three marks. -/
theorem literalLines?_self (hcontrol : ∀ c ∈ cs, isControl c = false) (hsparse : Sparse '\'' cs)
    (hfuel : cs.length < fuel) (hrest : rest.head? ≠ some '\'') :
    literalLines? fuel (cs ++ (List.replicate 3 '\'' ++ rest)) = some (cs, rest) := by
  induction cs generalizing fuel with
  | nil =>
    obtain ⟨fuel, rfl⟩ := Nat.exists_eq_succ_of_ne_zero (Nat.ne_of_gt hfuel)
    exact literalLines?_ending (closing?_marks (Nat.zero_le 2) hrest) (by simp)
  | cons c cs ih =>
    obtain ⟨fuel, rfl⟩ := Nat.exists_eq_succ_of_ne_zero (Nat.ne_zero_of_lt hfuel)
    rw [List.forall_mem_cons] at hcontrol
    rcases replicate_or_other hsparse.1 with ⟨n, hn, hmarks⟩ | hother
    · rw [hmarks, ← List.append_assoc]
      exact literalLines?_ending (closing?_marks hn hrest) (by simp)
    · exact literalLines?_step (closing?_of_leading hsparse.1 hother _) hcontrol.1
        (ih hcontrol.2 hsparse.2 (Nat.lt_of_succ_lt_succ hfuel))

/-- A character is written as it is or escaped. A mark that is written as it is goes on with the run
of marks. -/
theorem escapeLines_cons (run : Nat) (c : Char) (cs : List Char) :
    (∃ next, escapeLines run (c :: cs) = c :: escapeLines next cs ∧ isControl c = false ∧ c ≠ '\\'
        ∧ (c = '\x22' ∧ run < 2 ∧ next = run + 1 ∨ c ≠ '\x22' ∧ next = 0))
      ∨ ∃ x more, Escape c x more
        ∧ escapeLines run (c :: cs) = '\\' :: x :: (more ++ escapeLines 0 cs) := by
  rw [escapeLines]
  by_cases hfeed : c = '\n'
  · subst hfeed
    exact .inl ⟨0, rfl, by decide, by decide, .inr ⟨by decide, rfl⟩⟩
  rw [if_neg (by simpa using hfeed)]
  by_cases hmark : c = '\x22' ∧ run < 2
  · obtain ⟨rfl, hlt⟩ := hmark
    rw [if_pos (by simpa using hlt)]
    exact .inl ⟨run + 1, rfl, by decide, by decide, .inl ⟨rfl, hlt, rfl⟩⟩
  rw [if_neg (by simpa using hmark)]
  rcases escapeChar_cases c with ⟨x, more, hescape⟩ | ⟨hself, hquote, hbackslash, -, hprintable⟩
  · exact .inr ⟨x, more, hescape, by rw [hescape.written]; rfl⟩
  · refine .inl ⟨0, by rw [hself]; rfl, ?_, hbackslash, .inr ⟨hquote, rfl⟩⟩
    simp [isControl, hprintable]

/-- Marks that are written as they are stand in runs of at most two, counted on. -/
theorem leading_escapeLines (cs : List Char) {run : Nat} (hrun : run ≤ 2) :
    run + leading '\x22' (escapeLines run cs) ≤ 2 := by
  induction cs generalizing run with
  | nil => exact hrun
  | cons c cs ih =>
    rcases escapeLines_cons run c cs with
      ⟨next, hself, -, -, ⟨rfl, hlt, rfl⟩ | ⟨hquote, -⟩⟩ | ⟨x, more, -, hescaped⟩
    · have hlater : run + 1 + leading '\x22' (escapeLines (run + 1) cs) ≤ 2 := ih hlt
      rw [hself, leading_cons_self]
      omega
    · rwa [hself, leading_cons_of_ne hquote]
    · rwa [hescaped, leading_cons_of_ne (by decide)]

/-- Where nothing but marks is written, they are the text. -/
theorem escapeLines_of_marks {n : Nat} (h : escapeLines run cs = List.replicate n '\x22') :
    cs = List.replicate n '\x22' := by
  induction cs generalizing run n with
  | nil => exact h
  | cons c cs ih =>
    have hmem (d : Char) (hd : d ∈ escapeLines run (c :: cs)) : d = '\x22' := by
      rw [h] at hd
      exact List.eq_of_mem_replicate hd
    rcases escapeLines_cons run c cs with ⟨next, hself, -⟩ | ⟨x, more, -, hescaped⟩
    · obtain rfl : c = '\x22' := hmem c (by rw [hself]; exact .head _)
      rw [hself] at h
      cases n with
      | zero => cases h
      | succ n => rw [List.replicate_succ, ih (List.cons.inj h).2]
    · exact absurd (hmem '\\' (by rw [hescaped]; exact .head _)) (by decide)

/-- A quoted text over several lines ends at its closing marks. -/
theorem basicLines?_ending (h : closing? '\x22' cs = some (body, rest)) (hne : cs ≠ []) :
    basicLines? (fuel + 1) cs = some (body, rest) := by
  cases cs with
  | nil => exact absurd rfl hne
  | cons c cs =>
    rw [basicLines?, h]

/-- A line feed or a printable character other than a backslash is read as it is. -/
theorem basicLines?_self (hopen : closing? '\x22' (c :: cs) = none) (hc : isControl c = false)
    (hbackslash : c ≠ '\\') (h : basicLines? fuel cs = some (body, rest)) :
    basicLines? (fuel + 1) (c :: cs) = some (c :: body, rest) := by
  rw [basicLines?, hopen]
  by_cases hfeed : c = '\n'
  · subst hfeed
    simp [lineBreak?, h]
  · have hprintable := (feed_or_printable hc).resolve_left hfeed
    simp [hbackslash, lineBreak?_of_ne hfeed (ne_return_of_printable hprintable), hprintable, h]

/-- An escape is read as the character that was escaped. -/
theorem basicLines?_escape {x : Char} {more : List Char} (hescape : Escape c x more)
    (hopen : closing? '\x22' ('\\' :: x :: (more ++ cs)) = none)
    (h : basicLines? fuel cs = some (body, rest)) :
    basicLines? (fuel + 1) ('\\' :: x :: (more ++ cs)) = some (c :: body, rest) := by
  rw [basicLines?, hopen]
  simp [skipBlanks_of_visible hescape.visible, lineBreak?_of_ne hescape.no_feed hescape.no_return,
    hescape.reads, h]

/-- A text with escapes is read back up to three marks. -/
theorem basicLines?_escapeLines (cs : List Char) {run : Nat} (hrun : run ≤ 2)
    (hfuel : cs.length < fuel) (hrest : rest.head? ≠ some '\x22') :
    basicLines? fuel (escapeLines run cs ++ (List.replicate 3 '\x22' ++ rest)) = some (cs, rest) := by
  induction cs generalizing run fuel with
  | nil =>
    obtain ⟨fuel, rfl⟩ := Nat.exists_eq_succ_of_ne_zero (Nat.ne_of_gt hfuel)
    exact basicLines?_ending (closing?_marks (Nat.zero_le 2) hrest) (by simp [escapeLines])
  | cons c cs ih =>
    obtain ⟨fuel, rfl⟩ := Nat.exists_eq_succ_of_ne_zero (Nat.ne_zero_of_lt hfuel)
    have hleading := leading_escapeLines (c :: cs) hrun
    have hstart : leading '\x22' (escapeLines run (c :: cs)) ≤ 2 := by omega
    rcases replicate_or_other hstart with ⟨n, hn, hmarks⟩ | hother
    · rw [hmarks, escapeLines_of_marks hmarks, ← List.append_assoc]
      refine basicLines?_ending (closing?_marks hn hrest) (by simp)
    have hopen := closing?_of_leading hstart hother (List.replicate 3 '\x22' ++ rest)
    have hlater {run : Nat} (hrun : run ≤ 2) := ih hrun (Nat.lt_of_succ_lt_succ hfuel)
    rcases escapeLines_cons run c cs with
      ⟨next, hself, hcontrol, hbackslash, hnext⟩ | ⟨x, more, hescape, hescaped⟩
    · rw [hself, List.cons_append] at hopen ⊢
      exact basicLines?_self hopen hcontrol hbackslash (hlater (by omega))
    · rw [hescaped, List.cons_append, List.cons_append, List.append_assoc] at hopen ⊢
      exact basicLines?_escape hescape hopen (hlater (Nat.zero_le 2))

/-! ## Quotations -/

/-- Without escapes and within a line stand printable texts that have no single mark. -/
theorem ofText_literal (h : Quotation.ofText cs = .literal) :
    (∀ c ∈ cs, isPrintable c = true) ∧ '\'' ∉ cs := by
  simp only [Quotation.ofText] at h
  split_ifs at h with hcontrol hspans hbasic hliteral
  simp only [Bool.and_eq_true, Bool.not_eq_true', List.contains_eq_mem, decide_eq_false_iff_not]
    at hliteral
  refine ⟨fun c hc => ?_, hliteral.1⟩
  have hc' : isControl c = false := by
    simp only [List.any_eq_true, not_exists, not_and, Bool.not_eq_true] at hcontrol
    exact hcontrol c hc
  exact (feed_or_printable hc').resolve_left fun hn => hliteral.2 (hn ▸ hc)

/-- Without escapes and between three marks stand texts that have no longer runs of single marks. -/
theorem ofText_literalLines (h : Quotation.ofText cs = .literalLines) :
    (∀ c ∈ cs, isControl c = false) ∧ longestRun '\'' cs ≤ 2 := by
  simp only [Quotation.ofText] at h
  split_ifs at h with hcontrol hspans hbasic hliteral hlines hruns
  refine ⟨fun c hc => ?_, hruns⟩
  simp only [List.any_eq_true, not_exists, not_and, Bool.not_eq_true] at hcontrol
  exact hcontrol c hc

/-- A text without marks in a row is one of a single line. -/
theorem text?_eq_line? (hdouble : ∀ rest, cs ≠ '\x22' :: '\x22' :: '\x22' :: rest)
    (hsingle : ∀ rest, cs ≠ '\'' :: '\'' :: '\'' :: rest) : text? cs = line? cs := by
  unfold text?
  split
  · next rest => exact absurd rfl (hdouble rest)
  · next rest => exact absurd rfl (hsingle rest)
  · rfl

/-- Nothing is dropped where a text over several lines starts with no line break. -/
theorem dropLineBreak_of_ne (hfeed : cs.head? ≠ some '\n') (hreturn : cs.head? ≠ some '\x0d') :
    dropLineBreak cs = cs := by
  cases cs with
  | nil => rfl
  | cons c cs =>
    rw [dropLineBreak, lineBreak?_of_ne (fun hc => hfeed (congrArg some hc))
      fun hc => hreturn (congrArg some hc)]
    rfl

/-- The line break that the writer puts in front of a text with line breaks does not count. -/
theorem dropLineBreak_written {spans : Bool} {cs : List Char}
    (hfeed : spans = false → cs.head? ≠ some '\n') (hreturn : cs.head? ≠ some '\x0d') :
    dropLineBreak ((if spans then ['\n'] else []) ++ cs) = cs := by
  cases spans with
  | true => rfl
  | false => exact dropLineBreak_of_ne (hfeed rfl) hreturn

/-- A character that is no control character is no carriage return. -/
theorem ne_return_of_not_control (h : isControl c = false) : c ≠ '\x0d' := by
  rintro rfl
  exact absurd h (by decide)

/-- An escaped text does not start with its mark, and neither does what follows it. -/
theorem escaped_ne_marks (cs rest more : List Char) :
    cs.flatMap escapeChar ++ '\x22' :: '\n' :: rest ≠ '\x22' :: '\x22' :: more := by
  intro h
  cases cs with
  | nil => exact absurd (List.cons.inj (List.cons.inj h).2).1 (by decide)
  | cons c cs =>
    rw [List.flatMap_cons, List.append_assoc] at h
    rcases escapeChar_cases c with ⟨x, more, hescape⟩ | ⟨hself, hquote, -⟩
    · rw [hescape.written] at h
      exact absurd (List.cons.inj h).1 (by decide)
    · rw [hself] at h
      exact hquote (List.cons.inj h).1

/-- Characters without the mark, and then a line that ends with one mark, do not start with two. -/
theorem unmarked_ne_marks {cs : List Char} (hmark : mark ∉ cs) (hfeed : mark ≠ '\n')
    (rest more : List Char) : cs ++ mark :: '\n' :: rest ≠ mark :: mark :: more := by
  intro h
  cases cs with
  | nil => exact hfeed (List.cons.inj (List.cons.inj h).2).1.symm
  | cons c cs => exact hmark ((List.cons.inj h).1 ▸ .head _)

/-- A written text of several lines does not start with a carriage return, and with a line feed only
where the text has one. -/
theorem head?_escapeLines (cs rest : List Char) :
    (cs.contains '\n' = false →
      (escapeLines 0 cs ++ (List.replicate 3 '\x22' ++ rest)).head? ≠ some '\n')
    ∧ (escapeLines 0 cs ++ (List.replicate 3 '\x22' ++ rest)).head? ≠ some '\x0d' := by
  cases cs with
  | nil => simp [escapeLines, List.replicate_succ]
  | cons c cs =>
    rcases escapeLines_cons 0 c cs with ⟨next, hself, hcontrol, -⟩ | ⟨x, more, -, hescaped⟩
    · rw [hself, List.cons_append, List.head?_cons]
      refine ⟨fun hspans hn => ?_, fun hr => ne_return_of_not_control hcontrol (Option.some.inj hr)⟩
      rw [Option.some.inj hn] at hspans
      simp at hspans
    · rw [hescaped, List.cons_append, List.head?_cons]
      exact ⟨fun _ => by decide, by decide⟩

/-- A text that needs no escapes starts with no carriage return, and with a line feed only if it has
one. -/
theorem head?_unescaped (hcontrol : ∀ c ∈ cs, isControl c = false) (rest : List Char) :
    (cs.contains '\n' = false → (cs ++ (List.replicate 3 '\'' ++ rest)).head? ≠ some '\n')
    ∧ (cs ++ (List.replicate 3 '\'' ++ rest)).head? ≠ some '\x0d' := by
  cases cs with
  | nil => simp [List.replicate_succ]
  | cons c cs =>
    rw [List.cons_append, List.head?_cons]
    refine ⟨fun hspans hn => ?_, fun hr => ?_⟩
    · rw [Option.some.inj hn] at hspans
      simp at hspans
    · exact ne_return_of_not_control (hcontrol c (.head _)) (Option.some.inj hr)

/-- Escaping makes no text shorter. -/
theorem length_le_escaped (cs : List Char) : cs.length ≤ (cs.flatMap escapeChar).length := by
  induction cs with
  | nil => exact Nat.le_refl 0
  | cons c cs ih =>
    have hchar : 0 < (escapeChar c).length := by
      rcases escapeChar_cases c with ⟨x, more, hescape⟩ | ⟨hself, -⟩
      · rw [hescape.written]
        exact Nat.succ_pos _
      · rw [hself]
        exact Nat.one_pos
    rw [List.flatMap_cons, List.length_append, List.length_cons]
    omega

/-- Escaping does not make a text shorter. -/
theorem length_le_escapeLines (run : Nat) (cs : List Char) :
    cs.length ≤ (escapeLines run cs).length := by
  induction cs generalizing run with
  | nil => exact Nat.le_refl 0
  | cons c cs ih =>
    rcases escapeLines_cons run c cs with ⟨next, hself, -⟩ | ⟨x, more, -, hescaped⟩
    · rw [hself]
      exact Nat.succ_le_succ (ih next)
    · have := ih 0
      rw [hescaped]
      simp only [List.length_cons, List.length_append]
      omega

/-- A text in its quotation is read back where a line ends behind it. -/
theorem text?_write (cs rest : List Char) :
    text? ((Quotation.ofText cs).write cs ++ '\n' :: rest)
      = some (String.ofList cs, '\n' :: rest) := by
  cases hquotation : Quotation.ofText cs with
  | basic =>
    have hwritten : Quotation.basic.write cs ++ '\n' :: rest
        = '\x22' :: (cs.flatMap escapeChar ++ '\x22' :: '\n' :: rest) := by
      simp [Quotation.write, Quotation.marks, Quotation.body]
    rw [hwritten, text?_eq_line?, line?, basicBody?_escaped, Option.map_some]
    · have := length_le_escaped cs
      rw [List.length_append]
      omega
    · intro more h
      exact escaped_ne_marks cs rest more (List.cons.inj h).2
    · intro more h
      exact absurd (List.cons.inj h).1 (by decide)
  | literal =>
    obtain ⟨hprintable, hmark⟩ := ofText_literal hquotation
    have hwritten : Quotation.literal.write cs ++ '\n' :: rest
        = '\'' :: (cs ++ '\'' :: '\n' :: rest) := by
      simp [Quotation.write, Quotation.marks, Quotation.body]
    rw [hwritten, text?_eq_line?, line?, literalBody?_self hprintable hmark, Option.map_some]
    · intro more h
      exact absurd (List.cons.inj h).1 (by decide)
    · intro more h
      exact unmarked_ne_marks hmark (by decide) rest more (List.cons.inj h).2
  | basicLines =>
    have hwritten : Quotation.basicLines.write cs ++ '\n' :: rest
        = '\x22' :: '\x22' :: '\x22' :: ((if cs.contains '\n' then ['\n'] else [])
          ++ (escapeLines 0 cs ++ (List.replicate 3 '\x22' ++ '\n' :: rest))) := by
      simp [Quotation.write, Quotation.marks, Quotation.body]
    obtain ⟨hfeed, hreturn⟩ := head?_escapeLines cs ('\n' :: rest)
    rw [hwritten, text?, dropLineBreak_written hfeed hreturn,
      basicLines?_escapeLines cs (Nat.zero_le 2) ?_ (by simp), Option.map_some]
    have := length_le_escapeLines 0 cs
    simp only [List.length_append]
    omega
  | literalLines =>
    obtain ⟨hcontrol, hruns⟩ := ofText_literalLines hquotation
    have hsparse : Sparse '\'' cs :=
      sparse_of_longestFrom (show longestFrom '\'' 0 0 cs ≤ 2 from hruns)
    have hwritten : Quotation.literalLines.write cs ++ '\n' :: rest
        = '\'' :: '\'' :: '\'' :: ((if cs.contains '\n' then ['\n'] else [])
          ++ (cs ++ (List.replicate 3 '\'' ++ '\n' :: rest))) := by
      simp [Quotation.write, Quotation.marks, Quotation.body]
    obtain ⟨hfeed, hreturn⟩ := head?_unescaped hcontrol ('\n' :: rest)
    rw [hwritten, text?, dropLineBreak_written hfeed hreturn,
      literalLines?_self hcontrol hsparse ?_ (by simp),
      Option.map_some]
    simp only [List.length_append]
    omega

/-- A written text is read back where a line ends behind it. -/
theorem text?_quote (s : String) (rest : List Char) :
    text? (quote s ++ '\n' :: rest) = some (s, '\n' :: rest) := by
  rw [quote, text?_write, String.ofList_toList]

end CommandChain.Toml
