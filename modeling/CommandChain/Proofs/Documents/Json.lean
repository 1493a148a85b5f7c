import CommandChain.Json.Reader
import CommandChain.Json.Writer
import CommandChain.Proofs.Values.Digits
/-!
# Written JSON documents are read back

The reader undoes the compact writer wherever no double is involved: an escaped text is read back with
whatever follows its quotation mark, a number ends where a comma or a closing bracket comes, and a
length of the text is fuel enough for all the calls that are nested in it.
-/

namespace CommandChain.Json

open CommandChain.Text (isDigit ne_of_isDigit takeWhile_append dropWhile_append)
open CommandChain.Decimal (natText intText digitsValue)

variable {c : Char} {cs rest body : List Char} {fuel n : Nat}

/-! ## Texts -/

/-- A unit that stands for itself is read, whether or not another one follows. -/
theorem textBody?_unit {a b d e x : Char} (hunit : (hex4? a b d e).bind unitChar? = some x)
    (h : textBody? cs = some (body, rest)) :
    textBody? ('\\' :: 'u' :: a :: b :: d :: e :: cs) = some (x :: body, rest) := by
  obtain ⟨n, hn, hx⟩ := Option.bind_eq_some_iff.mp hunit
  by_cases hpair : ∃ f g k l more, cs = '\\' :: 'u' :: f :: g :: k :: l :: more
  · obtain ⟨f, g, k, l, more, rfl⟩ := hpair
    rw [textBody?, hn]
    simp only [Option.bind_eq_bind, Option.bind_some, hx, h]
    rfl
  · rw [textBody?]
    · rw [hn]
      simp only [Option.bind_eq_bind, Option.bind_some, hx, h]
      rfl
    · rintro f g k l more rfl
      exact hpair ⟨f, g, k, l, more, rfl⟩

/-- A letter behind a backslash is read as the character that it stands for. -/
theorem textBody?_simple {x y : Char} (hy : simpleEscape? x = some y)
    (h : textBody? cs = some (body, rest)) :
    textBody? ('\\' :: x :: cs) = some (y :: body, rest) := by
  have hx : x ≠ 'u' := by
    rintro rfl
    have hnone : simpleEscape? 'u' = none := rfl
    rw [hnone] at hy
    cases hy
  rw [textBody?]
  · simp only [Option.bind_eq_bind, hy, h, Option.bind_some]
    rfl
  · rintro a b d e f g k l more rfl
    exact absurd rfl hx
  · rintro a b d e more rfl
    exact absurd rfl hx

/-- A character that needs no escape stands for itself. -/
theorem textBody?_self (hquote : c ≠ '\x22') (hbackslash : c ≠ '\\') (hcontrol : ¬ c.toNat < 0x20)
    (h : textBody? cs = some (body, rest)) : textBody? (c :: cs) = some (c :: body, rest) := by
  rw [textBody?]
  · simp only [beq_eq_false_iff_ne.mpr hquote, beq_eq_false_iff_ne.mpr hbackslash, hcontrol,
      decide_false, Bool.or_self, Bool.false_eq_true, if_false, Option.bind_eq_bind, h,
      Option.bind_some]
    rfl
  all_goals
    intros
    contradiction

/-- A character is written behind a backslash by a letter that stands for it, as a control character
by its number, or as it is. -/
theorem escapeChar_cases (c : Char) :
    (∃ x, escapeChar c = ['\\', x] ∧ simpleEscape? x = some c)
      ∨ c.toNat < 0x20 ∧ escapeChar c
        = ['\\', 'u', '0', '0', hexDigit (c.toNat / 16), hexDigit (c.toNat % 16)]
      ∨ c ≠ '\x22' ∧ c ≠ '\\' ∧ ¬ c.toNat < 0x20 ∧ escapeChar c = [c] := by
  by_cases hshort : c ∈ ['\x22', '\\', '\x08', '\x0c', '\n', '\x0d', '\t']
  · refine .inl ?_
    simp only [List.mem_cons, List.not_mem_nil, or_false] at hshort
    rcases hshort with rfl | rfl | rfl | rfl | rfl | rfl | rfl <;> exact ⟨_, rfl, rfl⟩
  · refine .inr ?_
    simp only [List.mem_cons, List.not_mem_nil, or_false, not_or] at hshort
    obtain ⟨hquote, hbackslash, hb, hf, hn, hr, ht⟩ := hshort
    by_cases hcontrol : c.toNat < 0x20
    · exact .inl ⟨hcontrol, by simp [escapeChar, *]⟩
    · exact .inr ⟨hquote, hbackslash, hcontrol, by simp [escapeChar, *]⟩

/-- The escape of a character is read as the character. -/
theorem textBody?_escapeChar (c : Char) (h : textBody? cs = some (body, rest)) :
    textBody? (escapeChar c ++ cs) = some (c :: body, rest) := by
  rcases escapeChar_cases c with ⟨x, hescape, hx⟩ | ⟨hcontrol, hescape⟩ |
    ⟨hquote, hbackslash, hcontrol, hescape⟩
  · rw [hescape]
    exact textBody?_simple hx h
  · have hdigits : ∀ n < 0x20, (hex4? '0' '0' (hexDigit (n / 16)) (hexDigit (n % 16))).bind unitChar?
        = some (Char.ofNat n) := by decide
    rw [hescape]
    refine textBody?_unit ?_ h
    rw [hdigits c.toNat hcontrol, Char.ofNat_toNat]
  · rw [hescape]
    exact textBody?_self hquote hbackslash hcontrol h

/-- A text is read back up to its quotation mark. -/
theorem textBody?_escaped (cs rest : List Char) :
    textBody? (cs.flatMap escapeChar ++ '\x22' :: rest) = some (cs, rest) := by
  induction cs with
  | nil => rfl
  | cons c cs ih =>
    rw [List.flatMap_cons, List.append_assoc]
    exact textBody?_escapeChar c ih

/-- A text in quotation marks is read back. -/
theorem text?_quote (s : String) (rest : List Char) : text? (quote s ++ rest) = some (s, rest) := by
  rw [quote, List.cons_append, List.append_assoc, text?]
  rw [List.singleton_append, textBody?_escaped, Option.map_some]
  simp only [String.ofList_toList]

/-! ## Numbers -/

/-- What may follow a value in a compact text: nothing, a comma, or a bracket that closes. -/
def Ends (rest : List Char) : Prop :=
  ∀ c, rest.head? = some c → c = ',' ∨ c = ']' ∨ c = '\x7d'

theorem ends_nil : Ends [] := nofun

theorem ends_cons (hc : c = ',' ∨ c = ']' ∨ c = '\x7d') : Ends (c :: rest) := by
  intro d hd
  cases hd
  exact hc

/-- A property that no comma and no closing bracket has does not hold of what follows a value. -/
theorem Ends.head?_any (h : Ends rest) {p : Char → Bool}
    (hp : p ',' = false ∧ p ']' = false ∧ p '\x7d' = false) : rest.head?.any p = false := by
  cases hhead : rest.head? with
  | none => rfl
  | some c => rcases h c hhead with rfl | rfl | rfl <;> simp [hp]

/-- The digits of a number are read up to what follows it. -/
theorem digits?_append {ds : List Char} (hds : Decimal.DigitList ds)
    (hrest : rest.head?.any isDigit = false) : digits? (ds ++ rest) = some (ds, rest) := by
  have hall := hds.all_isDigit
  rw [digits?, takeWhile_append hall hrest, dropWhile_append hall hrest, hds.isEmpty_eq]
  rfl

/-- A number behind which a value may end has no fraction. -/
theorem fraction?_of_ends (h : Ends rest) : fraction? rest = some (none, rest) := by
  rw [fraction?]
  rintro more rfl
  exact absurd (h '.' rfl) (by decide)

/-- A number behind which a value may end has no exponent. -/
theorem exponent?_of_ends (h : Ends rest) : exponent? rest = some (none, rest) := by
  cases rest with
  | nil => rfl
  | cons c rest =>
    have hmark := h.head?_any (p := fun c => c == 'e' || c == 'E') (by decide)
    rw [List.head?_cons, Option.any_some] at hmark
    rw [exponent?, hmark]
    rfl

/-- Digits without a needless zero in front are read as a number, with or without a minus sign. -/
theorem numberText?_digits {ds : List Char} (hds : Decimal.DigitList ds)
    (hzero : ∀ more, ds = '0' :: more → more = []) (h : Ends rest) :
    numberText? (ds ++ rest) = some (⟨false, ds, none, none⟩, rest)
      ∧ numberText? ('-' :: (ds ++ rest)) = some (⟨true, ds, none, none⟩, rest) := by
  have hstop : rest.head?.any isDigit = false := h.head?_any (by decide)
  have hread := digits?_append hds hstop
  obtain ⟨d, ds, rfl⟩ := List.exists_cons_of_ne_nil hds.1
  have hminus : d ≠ '-' := by
    rintro rfl
    exact absurd (hds.all_isDigit '-' List.mem_cons_self) (by decide)
  by_cases hd : d = '0'
  · subst hd
    obtain rfl := hzero ds rfl
    simp [numberText?, hstop, fraction?_of_ends h, exponent?_of_ends h]
  · rw [List.cons_append] at hread ⊢
    simp [numberText?, hminus, hd, hread, fraction?_of_ends h, exponent?_of_ends h]

/-- The integers that a machine word holds, signed or not. -/
def IsWord (i : Int) : Prop :=
  -2 ^ 63 ≤ i ∧ i < 2 ^ 64

/-- A written integer is read back. -/
theorem numberText?_intText {i : Int} (hi : IsWord i) (h : Ends rest) :
    ∃ n : NumberText, numberText? ((intText i).toList ++ rest) = some (n, rest)
      ∧ n.json = .int i := by
  have hvalue (n : Nat) : digitsValue (natText n).toList = n := by
    rw [Decimal.digitsValue_eq, Decimal.ofDigitChars_natText]
  have hpowers : Nat.pow 2 63 = 2 ^ 63 ∧ wordMax = 2 ^ 64 - 1 := ⟨rfl, rfl⟩
  obtain ⟨hlow, hhigh⟩ := hi
  cases i with
  | ofNat n =>
    have hle : n ≤ wordMax := by
      rw [Int.ofNat_eq_natCast] at hhigh
      omega
    refine ⟨_, (numberText?_digits (Decimal.digitList_natText n)
      (fun _ => Decimal.natText_of_zero_cons) h).1, ?_⟩
    simp [NumberText.json, hvalue, hle]
  | negSucc n =>
    have hle : n + 1 ≤ Nat.pow 2 63 := by omega
    rw [intText, String.toList_append, List.append_assoc]
    refine ⟨_, (numberText?_digits (Decimal.digitList_natText (n + 1))
      (fun _ => Decimal.natText_of_zero_cons) h).2, ?_⟩
    simp [NumberText.json, hvalue, hle]
    omega

/-! ## Documents -/

/-- A document that is written without loss: none of its numbers is a double, and a machine word
holds each of them. -/
inductive Exact : Json → Prop
  | null : Exact .null
  | bool (b : Bool) : Exact (.bool b)
  | int {i : Int} (hi : IsWord i) : Exact (.int i)
  | string (s : String) : Exact (.string s)
  | array {items : List Json} (hitems : ∀ j ∈ items, Exact j) : Exact (.array items)
  | object {members : List (String × Json)} (hmembers : ∀ m ∈ members, Exact m.2) :
    Exact (.object members)

/-- A character with which a value may start is no gap and closes nothing. -/
def Starts (c : Char) : Prop :=
  isGap c = false ∧ c ≠ ']' ∧ c ≠ '\x7d'

instance (c : Char) : Decidable (Starts c) :=
  inferInstanceAs (Decidable (_ ∧ _))

/-- A digit may start a value. -/
theorem starts_of_isDigit (hc : isDigit c = true) : Starts c := by
  refine ⟨?_, ne_of_isDigit hc (by decide), ne_of_isDigit hc (by decide)⟩
  simp only [isGap, Bool.or_eq_false_iff, beq_eq_false_iff_ne]
  exact ⟨⟨⟨ne_of_isDigit hc (by decide), ne_of_isDigit hc (by decide)⟩,
    ne_of_isDigit hc (by decide)⟩, ne_of_isDigit hc (by decide)⟩

/-- A written integer starts with a minus sign or a digit. -/
theorem head_intText (i : Int) :
    ∃ c cs, (intText i).toList = c :: cs ∧ (c = '-' ∨ isDigit c = true) := by
  cases i with
  | ofNat n =>
    have hdigits := Decimal.digitList_natText n
    obtain ⟨d, ds, hds⟩ := List.exists_cons_of_ne_nil hdigits.1
    exact ⟨d, ds, hds, .inr (hdigits.all_isDigit d (hds ▸ List.mem_cons_self))⟩
  | negSucc n =>
    refine ⟨'-', (natText (n + 1)).toList, ?_, .inl rfl⟩
    rw [intText, String.toList_append]
    rfl

/-- A document starts with a character that may start a value. -/
theorem head_chars {j : Json} (hj : j.Exact) : ∃ c cs, chars j = c :: cs ∧ Starts c := by
  cases hj with
  | null => exact ⟨_, _, rfl, by decide⟩
  | bool b => cases b <;> exact ⟨_, _, rfl, by decide⟩
  | int hi =>
    obtain ⟨c, cs, hc, hstart⟩ := head_intText _
    refine ⟨c, cs, hc, ?_⟩
    rcases hstart with rfl | hdigit
    · decide
    · exact starts_of_isDigit hdigit
  | string s => exact ⟨_, _, rfl, by decide⟩
  | array hitems => exact ⟨_, _, rfl, by decide⟩
  | object hmembers => exact ⟨_, _, rfl, by decide⟩

/-- No gap comes before a value. -/
theorem skipGap_cons (hc : isGap c = false) (cs : List Char) : skipGap (c :: cs) = c :: cs := by
  rw [skipGap, List.dropWhile_cons_of_neg (by simp [hc])]

/-- What starts with a minus sign or a digit is read as a number. -/
theorem value?_number (hc : c = '-' ∨ isDigit c = true) (fuel : Nat) (cs : List Char) :
    value? (fuel + 1) (c :: cs) = (numberText? (c :: cs)).map fun (n, rest) => (n.json, rest) := by
  have hother {d : Char} (hminus : d ≠ '-') (hdigit : isDigit d = false) : c ≠ d := by
    rcases hc with rfl | hc
    · exact hminus.symm
    · exact ne_of_isDigit hc hdigit
  rw [value?]
  all_goals
    intro more h
    exact hother (by decide) (by decide) (List.cons.inj h).1

/-- Items are written with a comma between them. -/
theorem charsItems_cons (j next : Json) (items : List Json) :
    charsItems (j :: next :: items) = chars j ++ ',' :: charsItems (next :: items) :=
  charsItems.eq_3 j (next :: items) nofun

/-- Members are written with a comma between them. -/
theorem charsMembers_cons (name : String) (j : Json) (next : String × Json)
    (members : List (String × Json)) : charsMembers ((name, j) :: next :: members)
      = quote name ++ ':' :: (chars j ++ ',' :: charsMembers (next :: members)) :=
  charsMembers.eq_3 name j (next :: members) nofun

/-- A list of items starts with a character that may start a value. -/
theorem head_charsItems {j : Json} (hj : j.Exact) (items : List Json) :
    ∃ c cs, charsItems (j :: items) = c :: cs ∧ Starts c := by
  obtain ⟨c, cs, hc, hstart⟩ := head_chars hj
  cases items with
  | nil => exact ⟨c, cs ++ [']'], by rw [charsItems, hc]; rfl, hstart⟩
  | cons next items =>
    exact ⟨c, cs ++ ',' :: charsItems (next :: items), by rw [charsItems_cons, hc]; rfl, hstart⟩

/-- A list of members starts with a quotation mark. -/
theorem head_charsMembers (m : String × Json) (members : List (String × Json)) :
    ∃ cs, charsMembers (m :: members) = '\x22' :: cs := by
  cases members with
  | nil => exact ⟨_, rfl⟩
  | cons next members => exact ⟨_, rfl⟩

/-- The reader enters an array that is not empty. -/
theorem value?_array {items : List Json} (hc : Starts c)
    (h : items? fuel (c :: cs) = some (items, rest)) :
    value? (fuel + 1) ('[' :: c :: cs) = some (.array items, rest) := by
  rw [value?, skipGap_cons hc.1]
  split
  · next more hclose => exact absurd (List.cons.inj hclose).1 hc.2.1
  · rw [h]
    rfl

/-- The reader enters an object that is not empty. -/
theorem value?_object {members : List (String × Json)}
    (h : members? fuel ('\x22' :: cs) = some (members, rest)) :
    value? (fuel + 1) ('\x7b' :: '\x22' :: cs) = some (.object members, rest) := by
  rw [value?, skipGap_cons (by decide)]
  simp [h]

/-- The last element of an array. -/
theorem items?_last {j : Json} (h : value? fuel cs = some (j, ']' :: rest)) :
    items? (fuel + 1) cs = some ([j], rest) := by
  rw [items?, h]
  rfl

/-- An element of an array and those behind it. -/
theorem items?_cons {j : Json} {items : List Json} (hc : isGap c = false)
    (h : value? fuel cs = some (j, ',' :: c :: body)) 
    (hmore : items? fuel (c :: body) = some (items, rest)) :
    items? (fuel + 1) cs = some (j :: items, rest) := by
  rw [items?, h]
  simp only [Option.bind_eq_bind, Option.bind_some, skipGap_cons (show isGap ',' = false by decide),
    skipGap_cons hc, hmore]
  rfl

/-- The last member of an object. -/
theorem members?_last {name : String} {j : Json} (hname : text? cs = some (name, ':' :: c :: body))
    (hc : isGap c = false) (h : value? fuel (c :: body) = some (j, '\x7d' :: rest)) :
    members? (fuel + 1) cs = some ([(name, j)], rest) := by
  rw [members?, hname]
  simp only [Option.bind_eq_bind, Option.bind_some, skipGap_cons (show isGap ':' = false by decide),
    skipGap_cons hc, h]
  rfl

/-- A member of an object and those behind it. -/
theorem members?_cons {name : String} {j : Json} {members : List (String × Json)} {d : Char}
    {more : List Char} (hname : text? cs = some (name, ':' :: c :: body)) (hc : isGap c = false)
    (h : value? fuel (c :: body) = some (j, ',' :: d :: more)) (hd : isGap d = false)
    (hmore : members? fuel (d :: more) = some (members, rest)) :
    members? (fuel + 1) cs = some ((name, j) :: members, rest) := by
  rw [members?, hname]
  simp only [Option.bind_eq_bind, Option.bind_some, skipGap_cons (show isGap ':' = false by decide),
    skipGap_cons (show isGap ',' = false by decide), skipGap_cons hc, skipGap_cons hd, h, hmore]
  rfl

mutual
/-- A document is read back with whatever may follow it. -/
theorem value?_chars : ∀ (j : Json), j.Exact → ∀ (fuel : Nat) (rest : List Char),
    (chars j).length ≤ fuel → Ends rest → value? fuel (chars j ++ rest) = some (j, rest)
  | j, hj, 0, rest, hfuel, hrest => by
    obtain ⟨c, cs, hc, -⟩ := head_chars hj
    rw [hc] at hfuel
    exact absurd hfuel (Nat.not_succ_le_zero _)
  | .null, _, fuel + 1, rest, _, _ => rfl
  | .bool true, _, fuel + 1, rest, _, _ => rfl
  | .bool false, _, fuel + 1, rest, _, _ => rfl
  | .int i, hj, fuel + 1, rest, _, hrest => by
    cases hj with
    | int hi =>
      obtain ⟨c, cs, hc, hstart⟩ := head_intText i
      obtain ⟨n, hn, hjson⟩ := numberText?_intText hi hrest
      rw [chars, hc, List.cons_append] at *
      rw [value?_number hstart, hn, Option.map_some]
      simp only [hjson]
  | .string s, _, fuel + 1, rest, _, _ => by
    have htext := text?_quote s rest
    rw [quote, List.cons_append] at htext
    rw [chars, quote, List.cons_append, value?, htext, Option.map_some]
  | .array [], _, fuel + 1, rest, _, _ => rfl
  | .array (j :: items), hj, fuel + 1, rest, hfuel, _ => by
    cases hj with
    | array hitems =>
      obtain ⟨c, cs, hc, hstart⟩ := head_charsItems (hitems j List.mem_cons_self) items
      have hread := items?_charsItems (j :: items) (by simp) hitems fuel rest
        (Nat.le_of_succ_le_succ hfuel)
      rw [chars, hc, List.cons_append] at *
      exact value?_array hstart hread
  | .object [], _, fuel + 1, rest, _, _ => rfl
  | .object (m :: members), hj, fuel + 1, rest, hfuel, _ => by
    cases hj with
    | object hmembers =>
      obtain ⟨cs, hc⟩ := head_charsMembers m members
      have hread := members?_charsMembers (m :: members) (by simp) hmembers fuel rest
        (Nat.le_of_succ_le_succ hfuel)
      rw [chars, hc, List.cons_append] at *
      exact value?_object hread

/-- The elements of an array are read back up to its closing bracket. -/
theorem items?_charsItems : ∀ (items : List Json), items ≠ [] → (∀ j ∈ items, j.Exact) →
    ∀ (fuel : Nat) (rest : List Char), (charsItems items).length ≤ fuel →
      items? fuel (charsItems items ++ rest) = some (items, rest)
  | [], hne, _, _, _, _ => absurd rfl hne
  | [j], _, hitems, 0, rest, hfuel => by simp [charsItems] at hfuel
  | [j], _, hitems, fuel + 1, rest, hfuel => by
    rw [charsItems, List.length_append, List.length_singleton] at hfuel
    rw [charsItems, List.append_assoc]
    exact items?_last (value?_chars j (hitems j List.mem_cons_self) fuel (']' :: rest)
      (by omega) (ends_cons (by decide)))
  | j :: next :: items, _, hitems, 0, rest, hfuel => by simp [charsItems] at hfuel
  | j :: next :: items, _, hitems, fuel + 1, rest, hfuel => by
    rw [charsItems_cons, List.length_append, List.length_cons] at hfuel
    rw [List.forall_mem_cons] at hitems
    obtain ⟨c, cs, hc, hstart⟩ := head_charsItems (hitems.2 next List.mem_cons_self) items
    have hmore := items?_charsItems (next :: items) (by simp) hitems.2 fuel rest (by omega)
    have hfirst := value?_chars j hitems.1 fuel (',' :: (charsItems (next :: items) ++ rest))
      (by omega) (ends_cons (by decide))
    rw [charsItems_cons, List.append_assoc]
    rw [hc, List.cons_append] at hmore hfirst ⊢
    exact items?_cons hstart.1 hfirst hmore

/-- The members of an object are read back up to its closing brace. -/
theorem members?_charsMembers : ∀ (members : List (String × Json)), members ≠ [] →
    (∀ m ∈ members, m.2.Exact) → ∀ (fuel : Nat) (rest : List Char),
      (charsMembers members).length ≤ fuel →
        members? fuel (charsMembers members ++ rest) = some (members, rest)
  | [], hne, _, _, _, _ => absurd rfl hne
  | [(name, j)], _, hmembers, 0, rest, hfuel => by simp [charsMembers] at hfuel
  | [(name, j)], _, hmembers, fuel + 1, rest, hfuel => by
    have hj : j.Exact := hmembers (name, j) List.mem_cons_self
    obtain ⟨c, cs, hc, hstart⟩ := head_chars hj
    simp only [charsMembers, List.length_append, List.length_cons, List.length_nil] at hfuel
    have hfirst := value?_chars j hj fuel ('\x7d' :: rest) (by omega) (ends_cons (by decide))
    have hname := text?_quote name (':' :: (chars j ++ '\x7d' :: rest))
    rw [charsMembers, List.append_assoc, List.cons_append, List.append_assoc]
    rw [hc, List.cons_append] at hname hfirst ⊢
    exact members?_last hname hstart.1 hfirst
  | (name, j) :: next :: members, _, hmembers, 0, rest, hfuel => by
    simp [charsMembers] at hfuel
  | (name, j) :: next :: members, _, hmembers, fuel + 1, rest, hfuel => by
    rw [List.forall_mem_cons] at hmembers
    obtain ⟨c, cs, hc, hstart⟩ := head_chars hmembers.1
    obtain ⟨ds, hd⟩ := head_charsMembers next members
    simp only [charsMembers_cons, List.length_append, List.length_cons] at hfuel
    have hmore := members?_charsMembers (next :: members) (by simp) hmembers.2 fuel rest (by omega)
    have hfirst := value?_chars j hmembers.1 fuel
      (',' :: (charsMembers (next :: members) ++ rest)) (by omega) (ends_cons (by decide))
    have hname := text?_quote name
      (':' :: (chars j ++ ',' :: (charsMembers (next :: members) ++ rest)))
    rw [charsMembers_cons, List.append_assoc, List.cons_append, List.append_assoc, List.cons_append]
    rw [hd, List.cons_append] at hmore hfirst hname ⊢
    rw [hc, List.cons_append] at hname hfirst ⊢
    exact members?_cons hname hstart.1 hfirst (by decide) hmore
end

/-- A document is read back from its compact text. -/
theorem read?_text {j : Json} (hj : j.Exact) : read? j.text = some j := by
  obtain ⟨c, cs, hc, hstart⟩ := head_chars hj
  have hread := value?_chars j hj ((chars j).length + 1) [] (Nat.le_succ _) ends_nil
  have hgap : skipGap (chars j) = chars j := by rw [hc, skipGap_cons hstart.1]
  rw [List.append_nil] at hread
  rw [read?, text, String.toList_ofList, hgap]
  simp only [hread, Option.bind_eq_bind, Option.bind_some]
  rfl

end CommandChain.Json
