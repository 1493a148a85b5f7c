import CommandChain.Proofs.Documents.Quotation
import CommandChain.Proofs.Values.Digits
import CommandChain.Toml.Reader
import CommandChain.Toml.Writer
/-!
# Written TOML documents are read back

A document of groups is a table of tables that hold texts and natural numbers, under names that need
no quotation marks. It is written with a header for each group and a line for each entry, and blank
lines between the groups; from these lines the reader builds the same document.
-/

namespace CommandChain.Toml

open CommandChain.Text (isDigit ne_of_isDigit takeWhile_append dropWhile_append)
open CommandChain.Decimal (natText DigitList InRange digitList_natText natText_of_zero_cons)

variable {c : Char} {cs rest : List Char} {name key : String} {v : Toml}

/-! ## Numbers -/

/-- A text that starts with a digit starts with no other character. -/
theorem cons_ne_of_isDigit {d : Char} (hc : isDigit c = true) (hd : isDigit d = false)
    (cs ds : List Char) : c :: cs ≠ d :: ds := fun h =>
  ne_of_isDigit hc hd (List.cons.inj h).1

/-- Digits are read up to the end of their line. -/
theorem digits?_run {ds : List Char} (hds : DigitList ds) (rest : List Char) :
    digits? isDigit (ds ++ '\n' :: rest) = some (ds, '\n' :: rest) := by
  have hall := hds.all_isDigit
  have hne := hds.1
  clear hds
  induction ds with
  | nil => exact absurd rfl hne
  | cons d ds ih =>
    rw [List.forall_mem_cons] at hall
    cases ds with
    | nil => simp [digits?, hall.1, show isDigit '\n' = false from by decide]
    | cons e ds =>
      have he : isDigit e = true := hall.2 e (.head _)
      have hlater := ih hall.2 (List.cons_ne_nil e ds)
      rw [List.cons_append] at hlater
      rw [List.cons_append, List.cons_append, digits?, if_pos hall.1]
      · simp [he, hlater]
      · intro more h
        exact cons_ne_of_isDigit he (by decide) _ _ h

/-- An integer in range passes the check for its range. -/
theorem ranged?_of_inRange {i : Int} (h : InRange i) : ranged? i = some (.int i) := by
  have hi : (Int64.ofInt i).toInt = i := Int64.toInt_ofInt_of_le h.1 (Int.lt_add_one_of_le h.2)
  rw [ranged?, Decimal.int64?_of_inRange h, Option.map_some, hi]

/-- A natural number starts with a digit. -/
theorem natText_eq_cons (n : Nat) :
    ∃ d ds, (natText n).toList = d :: ds ∧ isDigit d = true := by
  cases hds : (natText n).toList with
  | nil => exact absurd hds (digitList_natText n).1
  | cons d ds => exact ⟨d, ds, rfl, (digitList_natText n).all_isDigit d (by rw [hds]; exact .head _)⟩

/-- The digits of a natural number are its whole part. -/
theorem wholePart?_natText (n : Nat) (rest : List Char) :
    wholePart? ((natText n).toList ++ '\n' :: rest) = some ((natText n).toList, '\n' :: rest) := by
  unfold wholePart?
  split
  · next more h =>
    obtain ⟨d, ds, hds, -⟩ := natText_eq_cons n
    rw [hds, List.cons_append, List.cons.injEq] at h
    obtain ⟨rfl, rfl⟩ := h
    rw [hds, natText_of_zero_cons hds]
    rfl
  · exact digits?_run (digitList_natText n) rest

/-- A digit is no sign. -/
theorem sign_of_isDigit (hc : isDigit c = true) (cs : List Char) : sign (c :: cs) = ([], c :: cs) := by
  unfold sign
  split
  · next h => exact absurd h (cons_ne_of_isDigit hc (by decide) _ _)
  · next h => exact absurd h (cons_ne_of_isDigit hc (by decide) _ _)
  · rfl

/-- A number that starts with a digit is a whole number where a line ends behind its whole part. -/
theorem decimal?_line {whole : List Char} {i : Int} (hc : isDigit c = true)
    (hwhole : wholePart? (c :: cs) = some (whole, '\n' :: rest))
    (hi : Decimal.integerNumeral? whole = some i) (hrange : InRange i) :
    decimal? (c :: cs) = some (.int i, '\n' :: rest) := by
  rw [decimal?, sign_of_isDigit hc]
  dsimp only
  split
  · next h => exact absurd h (cons_ne_of_isDigit hc (by decide) _ _)
  · next h => exact absurd h (cons_ne_of_isDigit hc (by decide) _ _)
  · rw [hwhole]
    simp [atExponent, hi, ranged?_of_inRange hrange]

/-- A natural number is read up to the end of its line. -/
theorem number?_natText {n : Nat} (h : InRange n) (rest : List Char) :
    number? ((natText n).toList ++ '\n' :: rest) = some (.int n, '\n' :: rest) := by
  have hwhole := wholePart?_natText n rest
  have hnumeral := Decimal.integerNumeral?_eq (Decimal.numeral_intText n)
  rw [show Decimal.intText n = natText n from rfl] at hnumeral
  obtain ⟨d, ds, hds, hd⟩ := natText_eq_cons n
  -- a needless zero would announce another base
  have hbase : number? ((natText n).toList ++ '\n' :: rest)
      = decimal? ((natText n).toList ++ '\n' :: rest) := by
    by_cases hzero : d = '0'
    · subst hzero
      rw [hds, natText_of_zero_cons hds]
      rfl
    · rw [hds, List.cons_append]
      unfold number?
      split
      · next h => exact absurd (List.cons.inj h).1 hzero
      · next h => exact absurd (List.cons.inj h).1 hzero
      · next h => exact absurd (List.cons.inj h).1 hzero
      · rfl
  rw [hbase]
  rw [hds, List.cons_append] at hwhole ⊢
  exact decimal?_line hd hwhole (hds ▸ hnumeral) h

/-- In front of a mark there are not just so many digits, where a line of digits ends. -/
theorem not_digits_before {ds : List Char} (hall : ∀ d ∈ ds, isDigit d = true) {mark : Char}
    (hmark : isDigit mark = false) (hfeed : mark ≠ '\n') (count : Nat) (rest : List Char) :
    (((ds ++ '\n' :: rest).take count).all isDigit
      && ((ds ++ '\n' :: rest).drop count).head? == some mark) = false := by
  induction ds generalizing count with
  | nil =>
    cases count with
    | zero => simpa using hfeed.symm
    | succ count => simp [show isDigit '\n' = false from by decide]
  | cons d ds ih =>
    rw [List.forall_mem_cons] at hall
    cases count with
    | zero => simpa using ne_of_isDigit hall.1 hmark
    | succ count =>
      have hlater := ih hall.2 count
      simpa [hall.1] using hlater

/-- A natural number is no date and no time. -/
theorem plain?_natText {n : Nat} (h : InRange n) (rest : List Char) :
    plain? ((natText n).toList ++ '\n' :: rest) = some (.int n, '\n' :: rest) := by
  have hdigits := (digitList_natText n).all_isDigit
  have hdate : atDate ((natText n).toList ++ '\n' :: rest) = false := by
    rw [atDate, Bool.and_assoc, not_digits_before hdigits (by decide) (by decide), Bool.and_false]
  have htime : atTime ((natText n).toList ++ '\n' :: rest) = false := by
    rw [atTime, Bool.and_assoc, not_digits_before hdigits (by decide) (by decide), Bool.and_false]
  rw [← number?_natText h rest]
  obtain ⟨d, ds, hds, hd⟩ := natText_eq_cons n
  rw [hds, List.cons_append] at hdate htime ⊢
  unfold plain?
  split
  · next h => exact absurd h (cons_ne_of_isDigit hd (by decide) _ _)
  · next h => exact absurd h (cons_ne_of_isDigit hd (by decide) _ _)
  · rw [hdate, htime]
    rfl

/-! ## Values within a line -/

/-- A text or a natural number in the range of 64 bits. -/
inductive Simple : Toml → Prop
  | string (s : String) : Simple (.string s)
  | nat {n : Nat} (h : InRange n) : Simple (.int n)

/-- A simple value makes no section. -/
theorem Simple.not_section (h : Simple v) : v.isSection = false := by
  cases h <;> rfl

/-- A text is written behind a quotation mark. -/
theorem quote_eq_mark_cons (s : String) :
    ∃ more, quote s = '\x22' :: more ∨ quote s = '\'' :: more := by
  rw [quote, Quotation.write]
  cases Quotation.ofText s.toList
  case basic | basicLines => exact ⟨_, .inl rfl⟩
  case literal | literalLines => exact ⟨_, .inr rfl⟩

/-- A simple value is read up to the end of its line. -/
theorem value?_chars (h : Simple v) (fuel depth : Nat) (rest : List Char) :
    value? (fuel + 1) depth (chars v ++ '\n' :: rest) = some (v, '\n' :: rest) := by
  cases h with
  | string s =>
    have hread := text?_quote s rest
    rw [chars]
    obtain ⟨more, hmark | hmark⟩ := quote_eq_mark_cons s <;>
    · rw [hmark, List.cons_append] at hread ⊢
      simp only [value?, hread, Option.map_some]
  | @nat n h =>
    have hread := plain?_natText h rest
    obtain ⟨d, ds, hds, hd⟩ := natText_eq_cons n
    rw [chars, show Decimal.intText n = natText n from rfl, hds]
    rw [hds, List.cons_append] at hread
    rw [List.cons_append, value?]
    · exact hread
    all_goals exact cons_ne_of_isDigit hd (by decide) _

/-- A simple value does not start with a blank. -/
theorem skipBlanks_chars (h : Simple v) (rest : List Char) :
    skipBlanks (chars v ++ rest) = chars v ++ rest := by
  have hhead : ∃ c cs, chars v = c :: cs ∧ isBlank c = false := by
    cases h with
    | string s =>
      obtain ⟨more, hmark | hmark⟩ := quote_eq_mark_cons s <;>
        exact ⟨_, more, hmark, by decide⟩
    | @nat n h =>
      obtain ⟨d, ds, hds, hd⟩ := natText_eq_cons n
      refine ⟨d, ds, hds, ?_⟩
      simp [isBlank, ne_of_isDigit hd (d := ' ') (by decide),
        ne_of_isDigit hd (d := '\t') (by decide)]
  obtain ⟨c, cs, hcs, hblank⟩ := hhead
  rw [hcs, List.cons_append, skipBlanks_of_visible hblank]

/-! ## Names -/

/-- A name that can stand without quotation marks. -/
def Bare (name : String) : Prop :=
  name.toList ≠ [] ∧ ∀ c ∈ name.toList, isBare c = true

/-- A character of a bare name is none of the other characters. -/
theorem ne_of_isBare {d : Char} (hc : isBare c = true) (hd : isBare d = false) : c ≠ d := by
  rintro rfl
  rw [hc] at hd
  cases hd

theorem cons_ne_of_isBare {d : Char} (hc : isBare c = true) (hd : isBare d = false)
    (cs ds : List Char) : c :: cs ≠ d :: ds := fun h =>
  ne_of_isBare hc hd (List.cons.inj h).1

instance : Decidable (Bare name) :=
  decidable_of_iff (name.toList ≠ [] ∧ name.toList.all isBare = true)
    (and_congr_right fun _ => List.all_eq_true)

/-- A bare name has a first character. -/
theorem Bare.toList_eq_cons (h : Bare name) : ∃ c cs, name.toList = c :: cs ∧ isBare c = true := by
  cases hcs : name.toList with
  | nil => exact absurd hcs h.1
  | cons c cs => exact ⟨c, cs, rfl, h.2 c (by rw [hcs]; exact .head _)⟩

/-- A bare name is written without quotation marks. -/
theorem Bare.quoteName_eq (h : Bare name) : quoteName name = name.toList := by
  simp [quoteName, h.1, List.all_eq_true.mpr h.2]

/-- Nothing is skipped before a bare name. -/
theorem skipBlanks_of_isBare (hc : isBare c = true) (cs : List Char) :
    skipBlanks (c :: cs) = c :: cs := by
  have hblank : isBlank c = false := by
    simp [isBlank, ne_of_isBare hc (d := ' ') (by decide), ne_of_isBare hc (d := '\t') (by decide)]
  exact skipBlanks_of_visible hblank cs

/-- A bare name is read up to what does not belong to it. -/
theorem Bare.name?_eq (h : Bare name) (hrest : rest.head?.any isBare = false) :
    name? (name.toList ++ rest) = some (name, rest) := by
  have htake := takeWhile_append h.2 hrest
  have hdrop := dropWhile_append h.2 hrest
  have hline : line? (name.toList ++ rest) = none := by
    obtain ⟨c, cs, hcs, hc⟩ := h.toList_eq_cons
    rw [hcs, List.cons_append]
    unfold line?
    split
    · next h => exact absurd h (cons_ne_of_isBare hc (by decide) _ _)
    · next h => exact absurd h (cons_ne_of_isBare hc (by decide) _ _)
    · rfl
  rw [name?, hline]
  simp [htake, hdrop, h.1]

/-- A bare name is a path of its own where no point follows. -/
theorem Bare.path?_eq (h : Bare name) (hrest : rest.head?.any isBare = false)
    (hpoint : ∀ more, skipBlanks rest ≠ '.' :: more) :
    path? (name.toList ++ rest) = some (([], name), skipBlanks rest) := by
  have hblanks : skipBlanks (name.toList ++ rest) = name.toList ++ rest := by
    obtain ⟨c, cs, hcs, hc⟩ := h.toList_eq_cons
    rw [hcs]
    exact skipBlanks_of_isBare hc _
  rw [path?, nestingLimit, names?, hblanks, h.name?_eq hrest]
  simp only [Option.bind_eq_bind, Option.bind_some]
  rfl

/-! ## Lines -/

/-- The line of an entry. -/
def entryChars (key : String) (v : Toml) : List Char :=
  quoteName key ++ ' ' :: '=' :: ' ' :: (chars v ++ ['\n'])

/-- The line of the header of a group. -/
def headChars (name : String) : List Char :=
  '[' :: (quoteName name ++ [']', '\n'])

theorem lineEnd?_feed (rest : List Char) : lineEnd? ('\n' :: rest) = some rest := rfl

/-- A line that starts with a name holds more than blanks and a comment. -/
theorem lineEnd?_of_isBare (hc : isBare c = true) (cs : List Char) : lineEnd? (c :: cs) = none := by
  have hcomment : skipComment (c :: cs) = c :: cs := by
    unfold skipComment
    split
    · next h => exact absurd h (cons_ne_of_isBare hc (by decide) _ _)
    · rfl
  rw [lineEnd?, skipBlanks_of_isBare hc, hcomment]
  exact lineBreak?_of_ne (ne_of_isBare hc (by decide)) (ne_of_isBare hc (by decide)) cs

/-- An entry is read up to the line behind it. -/
theorem entry?_chars (hkey : Bare key) (hv : Simple v) (rest : List Char) :
    entry? (entryChars key v ++ rest) = some (.entry [] key v, rest) := by
  have hwritten : entryChars key v ++ rest
      = key.toList ++ ' ' :: '=' :: ' ' :: (chars v ++ '\n' :: rest) := by
    simp [entryChars, hkey.quoteName_eq]
  have hblanks : skipBlanks (' ' :: (chars v ++ '\n' :: rest)) = chars v ++ '\n' :: rest :=
    skipBlanks_chars hv _
  have hequals : skipBlanks (' ' :: '=' :: ' ' :: (chars v ++ '\n' :: rest))
      = '=' :: ' ' :: (chars v ++ '\n' :: rest) := rfl
  rw [hwritten, entry?, hkey.path?_eq rfl (by intro more h; cases h)]
  simp only [Option.bind_eq_bind, Option.bind_some, hequals, expect?, beq_self_eq_true, if_true,
    hblanks, value?_chars hv, lineEnd?_feed]
  rfl

/-- The header of a group is read up to the line behind it. -/
theorem header?_chars (hname : Bare name) (rest : List Char) :
    header? (quoteName name ++ ([']', '\n'] ++ rest)) = some (.table [] name, rest) := by
  have hclosed : skipBlanks (']' :: '\n' :: rest) = ']' :: '\n' :: rest := rfl
  have hpath : path? (name.toList ++ ']' :: '\n' :: rest) = _ :=
    hname.path?_eq rfl (by intro more h; cases h)
  rw [hname.quoteName_eq]
  obtain ⟨c, cs, hcs, hc⟩ := hname.toList_eq_cons
  rw [hcs, List.cons_append] at hpath ⊢
  unfold header?
  split
  · next h => exact absurd h (cons_ne_of_isBare hc (by decide) _ _)
  · simp only [List.cons_append, List.nil_append, hpath, Option.bind_eq_bind, Option.bind_some,
      hclosed, expect?, beq_self_eq_true, if_true, lineEnd?_feed]
    rfl

/-- From a text, the reader makes these lines. -/
def Reads (cs : List Char) (lines : List Line) : Prop :=
  ∀ fuel, cs.length < fuel → lines? fuel cs = some lines

/-- An empty text has no lines. -/
theorem Reads.nil : Reads [] [] := by
  intro fuel hfuel
  obtain ⟨fuel, rfl⟩ := Nat.exists_eq_succ_of_ne_zero (Nat.ne_of_gt hfuel)
  rfl

/-- An empty line is none of the lines that are read. -/
theorem Reads.blank {lines : List Line} (h : Reads cs lines) : Reads ('\n' :: cs) lines := by
  intro fuel hfuel
  obtain ⟨fuel, rfl⟩ := Nat.exists_eq_succ_of_ne_zero (Nat.ne_zero_of_lt hfuel)
  exact h fuel (Nat.lt_of_succ_lt_succ hfuel)

/-- The header of a group is read as such. -/
theorem Reads.header {lines : List Line} (hname : Bare name) (h : Reads cs lines) :
    Reads (headChars name ++ cs) (.table [] name :: lines) := by
  intro fuel hfuel
  obtain ⟨fuel, rfl⟩ := Nat.exists_eq_succ_of_ne_zero (Nat.ne_zero_of_lt hfuel)
  have hlater : lines? fuel cs = some lines := h fuel (by
    simp only [headChars, List.cons_append, List.length_cons, List.length_append] at hfuel
    omega)
  have hbracket : skipBlanks (headChars name ++ cs)
      = '[' :: (quoteName name ++ ([']', '\n'] ++ cs)) := by
    rw [headChars, List.cons_append, List.append_assoc]
    rfl
  rw [lines?, hbracket]
  simp only [header?_chars hname, hlater, Option.bind_eq_bind, Option.bind_some]
  rfl

/-- The line of a simple entry is read as such. -/
theorem Reads.entry {lines : List Line} (hkey : Bare key) (hv : Simple v) (h : Reads cs lines) :
    Reads (entryChars key v ++ cs) (.entry [] key v :: lines) := by
  intro fuel hfuel
  obtain ⟨fuel, rfl⟩ := Nat.exists_eq_succ_of_ne_zero (Nat.ne_zero_of_lt hfuel)
  have hlater : lines? fuel cs = some lines := h fuel (by
    simp only [entryChars, List.length_cons, List.length_append] at hfuel
    omega)
  have hread := entry?_chars hkey hv cs
  obtain ⟨c, more, hcs, hc⟩ := hkey.toList_eq_cons
  have hwritten : ∃ more, entryChars key v ++ cs = c :: more := by
    rw [entryChars, hkey.quoteName_eq, hcs]
    exact ⟨_, rfl⟩
  obtain ⟨more, hwritten⟩ := hwritten
  rw [hwritten] at hread ⊢
  rw [lines?, skipBlanks_of_isBare hc]
  split
  · next h => cases h
  · next h => exact absurd h (cons_ne_of_isBare hc (by decide) _ _)
  · simp only [lineEnd?_of_isBare hc, hread, hlater, Option.bind_eq_bind, Option.bind_some]
    rfl

/-! ## Documents of groups -/

/-- A table is a group of simple entries under names of their own. -/
structure IsGroup (entries : List (String × Toml)) : Prop where
  nonempty : entries ≠ []
  keys : (entries.map Prod.fst).Nodup
  simple : ∀ e ∈ entries, Bare e.1 ∧ Simple e.2

/-- The document of some groups. -/
def ofGroups (groups : List (String × List (String × Toml))) : Toml :=
  .table (groups.map fun (name, entries) => (name, .table entries))

/-- The section of a group. -/
def groupChars (group : String × List (String × Toml)) : List Char :=
  headChars group.1 ++ group.2.flatMap fun (key, v) => entryChars key v

/-- The lines of a group. -/
def groupLines (group : String × List (String × Toml)) : List Line :=
  .table [] group.1 :: group.2.map fun (key, v) => .entry [] key v

section Writing

variable {entries : List (String × Toml)} {groups : List (String × List (String × Toml))}

/-- A group makes no sections of its own. -/
theorem IsGroup.not_section (h : IsGroup entries) : ∀ e ∈ entries, e.2.isSection = false :=
  fun e he => (h.simple e he).2.not_section

/-- The plain lines of a group are those of its entries. -/
theorem IsGroup.plainLines_eq (h : IsGroup entries) :
    plainLines entries = entries.flatMap fun (key, v) => entryChars key v := by
  rw [plainLines, List.filter_eq_self.mpr]
  · rfl
  · intro e he
    simp [h.not_section e he]

/-- There are no sections below a group. -/
theorem sectionsOfEntries_simple (path : List String)
    (h : ∀ e ∈ entries, Simple e.2) : sectionsOfEntries path entries = [] := by
  induction entries with
  | nil => rfl
  | cons e entries ih =>
    obtain ⟨name, v⟩ := e
    rw [List.forall_mem_cons] at h
    have hv : Simple v := h.1
    cases hv <;> simp [sectionsOfEntries, ih h.2]

/-- The sections of a document of groups are those of its groups. -/
theorem sectionsOfEntries_groups (h : ∀ g ∈ groups, IsGroup g.2) :
    sectionsOfEntries [] (groups.map fun (name, entries) => (name, .table entries))
      = groups.map groupChars := by
  induction groups with
  | nil => rfl
  | cons g groups ih =>
    obtain ⟨name, entries⟩ := g
    rw [List.forall_mem_cons] at h
    have hgroup := h.1
    have hhead : headerChars .table [name] entries = headChars name := by
      obtain ⟨e, he⟩ := List.exists_mem_of_ne_nil entries hgroup.nonempty
      have hplain : (entries.all fun (_, v) => v.isSection) = false :=
        List.all_eq_false.mpr ⟨e, he, by simp [hgroup.not_section e he]⟩
      simp only [headerChars, hplain, Bool.and_false, Bool.false_eq_true, if_false, headChars]
      simp
    rw [List.map_cons, sectionsOfEntries, ih h.2, List.map_cons, groupChars, ← hhead]
    simp only [List.nil_append, hgroup.plainLines_eq,
      sectionsOfEntries_simple [name] fun e he => (hgroup.simple e he).2]
    rfl

/-- A document of groups is written group by group, with blank lines between them. -/
theorem text_ofGroups (h : ∀ g ∈ groups, IsGroup g.2) :
    (text (ofGroups groups)).toList = ((groups.map groupChars).intersperse ['\n']).flatten := by
  have hplain : plainLines (groups.map fun (name, entries) => (name, Toml.table entries)) = [] := by
    rw [plainLines, List.filter_eq_nil_iff.mpr, List.flatMap_nil]
    rintro e he
    obtain ⟨g, -, rfl⟩ := List.mem_map.mp he
    simp [isSection]
  have hwritten : (groups.map groupChars).filter (!·.isEmpty) = groups.map groupChars := by
    rw [List.filter_eq_self]
    rintro cs hcs
    obtain ⟨g, -, rfl⟩ := List.mem_map.mp hcs
    rfl
  rw [text, ofGroups, sections, String.toList_ofList, hplain, sectionsOfEntries_groups h,
    List.filter_cons_of_neg (by simp [headerChars]), hwritten]

/-- Groups are written with a bracket in front. -/
theorem sections_ne_mark (groups : List (String × List (String × Toml))) (rest : List Char) :
    ((groups.map groupChars).intersperse ['\n']).flatten ≠ '\uFEFF' :: rest := by
  have hstart : ∀ cs, '[' :: cs ≠ '\uFEFF' :: rest := fun cs h =>
    absurd (List.cons.inj h).1 (by decide)
  match groups with
  | [] => exact fun h => List.cons_ne_nil _ _ h.symm
  | [g] => exact hstart _
  | g :: g' :: groups => exact hstart _

/-- A group is read as its header and its entries. -/
theorem Reads.group {cs : List Char} {lines : List Line} (hname : Bare name)
    (hgroup : IsGroup entries) (h : Reads cs lines) :
    Reads (groupChars (name, entries) ++ cs) (groupLines (name, entries) ++ lines) := by
  have hentries : Reads ((entries.flatMap fun (key, v) => entryChars key v) ++ cs)
      ((entries.map fun (key, v) => Line.entry [] key v) ++ lines) := by
    have hsimple := hgroup.simple
    clear hgroup
    induction entries with
    | nil => exact h
    | cons e entries ih =>
      rw [List.forall_mem_cons] at hsimple
      rw [List.flatMap_cons, List.map_cons, List.append_assoc, List.cons_append]
      exact (ih hsimple.2).entry hsimple.1.1 hsimple.1.2
  rw [groupChars, groupLines, List.append_assoc, List.cons_append]
  exact hentries.header hname

/-- The groups are read one after the other. -/
theorem Reads.sections (h : ∀ g ∈ groups, Bare g.1 ∧ IsGroup g.2) :
    Reads ((groups.map groupChars).intersperse ['\n']).flatten (groups.flatMap groupLines) := by
  induction groups with
  | nil => exact Reads.nil
  | cons g groups ih =>
    rw [List.forall_mem_cons] at h
    have hlater := ih h.2
    cases groups with
    | nil => exact Reads.nil.group h.1.1 h.1.2
    | cons g' groups => exact hlater.blank.group h.1.1 h.1.2

end Writing

/-! ## Building a document of groups -/

namespace Node

variable {done : List (String × Node)} {inner : List (String × Toml)}

/-- A group that has been read. -/
def ofGroup (group : String × List (String × Toml)) : String × Node :=
  (group.1, .table .header (group.2.map fun (key, v) => (key, .value v)))

/-- Nothing is found under a name that no entry has. -/
theorem lookup_eq_none {α : Type} {entries : List (String × α)} (h : name ∉ entries.map Prod.fst) :
    entries.lookup name = none := by
  rw [List.lookup_eq_none_iff]
  intro e he
  rw [bne_iff_ne]
  rintro rfl
  exact h (List.mem_map_of_mem he)

/-- An entry is found behind others that do not have its name. -/
theorem lookup_append_self (h : name ∉ done.map Prod.fst) (node : Node) :
    (done ++ [(name, node)]).lookup name = some node := by
  rw [List.lookup_append, lookup_eq_none h, Option.none_or, List.lookup_cons_self]

/-- An entry is looked for behind those of other names. -/
theorem put_append (h : name ∉ done.map Prod.fst) (node : Node) (rest : List (String × Node)) :
    put name node (done ++ rest) = done ++ put name node rest := by
  induction done with
  | nil => rfl
  | cons e done ih =>
    obtain ⟨other, old⟩ := e
    rw [List.map_cons, List.mem_cons, not_or] at h
    have hother : (other == name) = false := beq_eq_false_iff_ne.mpr (Ne.symm h.1)
    rw [List.cons_append, put, hother, ih h.2]
    rfl

/-- Putting a node under the only name there is replaces what it had. -/
theorem put_self (node old : Node) : put name node [(name, old)] = [(name, node)] := by
  simp [put]

/-- The header of a new group is put behind the groups before. -/
theorem openTable_group (h : name ∉ done.map Prod.fst) :
    openTable [] name (.table .header done) = some (.table .header (done ++ [ofGroup (name, [])])) := by
  have hput := put_append h (.table .header []) []
  rw [List.append_nil] at hput
  rw [openTable, changeAt]
  simp only [lookup_eq_none h, hput]
  rfl

/-- A new entry is put behind those of its group. -/
theorem insertBelow_group (h : name ∉ done.map Prod.fst) (hkey : key ∉ inner.map Prod.fst)
    (v : Toml) :
    insertBelow [name] [] key v (.table .header (done ++ [ofGroup (name, inner)]))
      = some (.table .header (done ++ [ofGroup (name, inner ++ [(key, v)])])) := by
  have hentries : ((inner.map fun (key, v) => (key, Node.value v)).lookup key).isSome = false := by
    rw [lookup_eq_none, Option.isSome_none]
    rwa [List.map_map]
  have hinsert (entries : List (String × Node)) (hentries : (entries.lookup key).isSome = false) :
      changeAt .passage (insert [] key v) [] (.table .header entries)
        = some (.table .header (entries ++ [(key, .value v)])) := by
    simp [changeAt, insert, hentries]
  rw [insertBelow, ofGroup, changeAt, lookup_append_self h]
  simp only [Option.getD_some, Option.bind_eq_bind, hinsert _ hentries]
  simp [put_append h, put_self, ofGroup]

/-- Among names that are all different, one is new behind those before it. -/
theorem fresh_of_nodup {α : Type} {before after : List (String × α)} {e : String × α}
    (h : ((before ++ e :: after).map Prod.fst).Nodup) : e.1 ∉ before.map Prod.fst := by
  rw [List.map_append, List.map_cons] at h
  exact fun hmem => List.disjoint_of_nodup_append h hmem (.head _)

/-- The entries of a group are put behind those that have been read. -/
theorem build?_entries (h : name ∉ done.map Prod.fst) (inner entries : List (String × Toml))
    (hkeys : ((inner ++ entries).map Prod.fst).Nodup) (lines : List Line) :
    build? ((entries.map fun (key, v) => Line.entry [] key v) ++ lines) [name]
        (.table .header (done ++ [ofGroup (name, inner)]))
      = build? lines [name] (.table .header (done ++ [ofGroup (name, inner ++ entries)])) := by
  induction entries generalizing inner with
  | nil => rw [List.append_nil, List.map_nil, List.nil_append]
  | cons e entries ih =>
    obtain ⟨key, v⟩ := e
    have hkey : key ∉ inner.map Prod.fst := fresh_of_nodup hkeys
    rw [List.append_cons inner] at hkeys ⊢
    rw [List.map_cons, List.cons_append, build?, insertBelow_group h hkey, Option.bind_some]
    exact ih _ hkeys

/-- The groups are put behind those that have been read. -/
theorem build?_groups (before groups : List (String × List (String × Toml)))
    (hnames : ((before ++ groups).map Prod.fst).Nodup)
    (hkeys : ∀ g ∈ groups, (g.2.map Prod.fst).Nodup) (header : List String) :
    build? (groups.flatMap groupLines) header (.table .header (before.map ofGroup))
      = some (.table .header ((before ++ groups).map ofGroup)) := by
  induction groups generalizing before header with
  | nil => rw [List.append_nil, List.flatMap_nil, build?]
  | cons g groups ih =>
    obtain ⟨name, entries⟩ := g
    rw [List.forall_mem_cons] at hkeys
    have hname : name ∉ (before.map ofGroup).map Prod.fst := by
      rw [List.map_map]
      exact fresh_of_nodup hnames
    rw [List.append_cons before] at hnames ⊢
    rw [List.flatMap_cons, groupLines, List.cons_append, build?, openTable_group hname,
      Option.bind_some, List.nil_append, build?_entries hname [] entries hkeys.1, List.nil_append,
      ← ih _ hnames hkeys.2, List.map_append]
    rfl

/-- The finished entries of a group are those that were read. -/
theorem entriesToToml_values (entries : List (String × Toml)) :
    entriesToToml (entries.map fun (key, v) => (key, .value v)) = entries := by
  induction entries with
  | nil => rfl
  | cons e entries ih => rw [List.map_cons, entriesToToml, ih, toToml]

/-- Groups that have been read make the document of the groups. -/
theorem toToml_groups (groups : List (String × List (String × Toml))) :
    toToml (.table .header (groups.map ofGroup)) = ofGroups groups := by
  have hentries : entriesToToml (groups.map ofGroup)
      = groups.map fun (name, entries) => (name, .table entries) := by
    induction groups with
    | nil => rfl
    | cons g groups ih =>
      rw [List.map_cons, ofGroup, entriesToToml, ih, toToml, entriesToToml_values, List.map_cons]
  rw [toToml, hentries, ofGroups]

end Node

/-- A document of groups is read back as it was written. -/
theorem read?_text_ofGroups {groups : List (String × List (String × Toml))}
    (hnames : (groups.map Prod.fst).Nodup) (hgroups : ∀ g ∈ groups, Bare g.1 ∧ IsGroup g.2) :
    read? (text (ofGroups groups)) = some (ofGroups groups) := by
  have hwritten := text_ofGroups fun g hg => (hgroups g hg).2
  have hlines := Reads.sections hgroups
  have hbuilt := Node.build?_groups [] groups hnames (fun g hg => (hgroups g hg).2.keys) []
  -- a text of groups starts with a bracket, never with a byte order mark
  have hread : read? (text (ofGroups groups))
      = (lines? ((text (ofGroups groups)).toList.length + 1) (text (ofGroups groups)).toList).bind
        ofLines? := by
    unfold read?
    split
    · next rest hmark => exact absurd (hwritten ▸ hmark) (sections_ne_mark groups rest)
    · rfl
  rw [hread, hwritten, hlines _ (Nat.lt_succ_self _), Option.bind_some, ofLines?]
  rw [List.map_nil, List.nil_append] at hbuilt
  rw [Node.empty, hbuilt, Option.map_some, Node.toToml_groups]

end CommandChain.Toml
