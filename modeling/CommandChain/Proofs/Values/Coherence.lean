import CommandChain.Builtin.Comparison
import CommandChain.Proofs.Values.Folding
import CommandChain.Proofs.Values.Numbers
import Mathlib.Logic.ExistsUnique
import Mathlib.Tactic.ByContra
/-!
# Equality and order of values agree

A filter takes `Eq` and `Ne` from the loose equality of two values and the four relations from their
order. Both look at the shapes of the two values, each with cases of its own. Values that have an
order are loosely equal exactly if the order calls them equal, but for two pairs of rules that differ
in what they look at. Null stands in order before everything else, the empty text included, while an
equality with a text on its left looks at texts only, and null has the empty one. And an equality
folds ASCII letters where an order takes the whole lower case.
-/

namespace CommandChain.Value

variable {l r : Value} {x y : Float} {o : Ordering}

/-- The empty text on the left of null. -/
def EmptyBesideNull (l r : Value) : Prop :=
  l = .string "" ∧ r = .null

/-- The texts that two values are compared by agree in lower case, but not up to ASCII case. -/
def ClashInCase (l r : Value) : Prop :=
  r ≠ .null ∧ ∃ s, l = .string s ∧ Text.lowerChars s = Text.lowerChars r.display
    ∧ Text.sameName s r.display = false

/-! ## Equality where there is an order -/

/-- Two numbers are equal exactly if their order calls them equal. -/
theorem beq_of_compareFloat? (h : compareFloat? x y = some o) : (x == y) = (o == .eq) := by
  rw [beq_eq_order?, ← compareFloat?_eq_order?, h]
  exact Option.some_beq_some

/-- A text on the left of null differs from it unless it is empty. -/
theorem looseEq_null (hempty : ¬ EmptyBesideNull l .null) (hl : l ≠ .null) :
    l.looseEq .null = false := by
  have hnumber : readNumber? .null = none := by decide +kernel
  cases l with
  | null => exact absurd rfl hl
  | string s =>
    rw [Bool.eq_false_iff]
    intro hsame
    have hfold : s.toList.map Char.toLower = [] := Text.sameName_iff.mp hsame
    have hs : s = "" := String.toList_inj.mp (List.map_eq_nil_iff.mp hfold)
    exact hempty ⟨by rw [hs], rfl⟩
  | int i => simp [looseEq, asFloat, hnumber]
  | float x => simp [looseEq, asFloat, hnumber]
  | _ => rfl

/-- A text on the left is compared with the text of whatever stands on the right. -/
theorem looseEq_string (s : String) (hr : r ≠ .null) (hcase : ¬ ClashInCase (.string s) r) :
    (Value.string s).looseEq r
      = (Text.compareChars (Text.lowerChars s) (Text.lowerChars r.display) == .eq) := by
  rw [looseEq, Bool.eq_iff_iff, beq_iff_eq, Text.compareChars_eq_iff]
  constructor
  · exact Text.lowerChars_eq_of_sameName
  · intro hlower
    by_contra hsame
    exact hcase ⟨hr, s, rfl, hlower, by simpa using hsame⟩

/-- What a number has an order with: another number, or the number that a text reads as. -/
def comparand? (r : Value) : Option Float :=
  match r.asFloat with
  | some y => some y
  | none => r.asText.bind fun s => Decimal.readFloat? (Text.trim s)

/-- A number is ordered with a value other than null as with the number that this is or reads as. -/
theorem compare?_number (hl : l.asFloat = some x) (hr : r ≠ .null) :
    l.compare? r = r.comparand?.bind (compareFloat? x) := by
  cases l with
  | int i =>
    cases hl
    cases r with
    | null => exact absurd rfl hr
    | _ => rfl
  | float z =>
    cases hl
    cases r with
    | null => exact absurd rfl hr
    | _ => rfl
  | _ => cases hl

/-- Two numbers are equal as doubles are. -/
theorem looseEq_of_asFloat {y : Float} (hl : l.asFloat = some x) (hr : r.asFloat = some y) :
    l.looseEq r = (x == y) := by
  cases l with
  | string s => cases hl
  | _ =>
    unfold looseEq
    simp only [hl, hr]

/-- A number equals a text as it does the number that the text reads as. -/
theorem looseEq_of_readNumber? {y : Float} (hl : l.asFloat = some x) (hr : r.asFloat = none)
    (hy : r.readNumber? = some y) : l.looseEq r = (x == y) := by
  cases l with
  | string s => cases hl
  | _ =>
    unfold looseEq
    simp only [hl, hr, hy, Option.any_some]

/-- A number equals a value as it does the number that this is or reads as. -/
theorem looseEq_number {y : Float} (hl : l.asFloat = some x) (hr : r.comparand? = some y) :
    l.looseEq r = (x == y) := by
  cases hfloat : r.asFloat with
  | some z =>
    rw [comparand?, hfloat] at hr
    obtain rfl := Option.some.inj hr
    exact looseEq_of_asFloat hl hfloat
  | none =>
    rw [comparand?, hfloat] at hr
    obtain ⟨s, htext, hread⟩ := Option.bind_eq_some_iff.mp hr
    have hnumber : r.readNumber? = some y := by
      cases r with
      | string t =>
        obtain rfl := Option.some.inj htext
        exact hread
      | _ => cases htext
    exact looseEq_of_readNumber? hl hfloat hnumber

/-- A number is loosely equal to what has an order with it exactly if that order calls them equal. -/
theorem looseEq_of_compare?_number (hl : l.asFloat = some x) (hr : r ≠ .null)
    (h : l.compare? r = some o) : l.looseEq r = (o == .eq) := by
  rw [compare?_number hl hr] at h
  obtain ⟨y, hy, horder⟩ := Option.bind_eq_some_iff.mp h
  rw [looseEq_number hl hy]
  exact beq_of_compareFloat? horder

/-- Values that have an order are loosely equal exactly if the order calls them equal. -/
theorem looseEq_of_compare? (hempty : ¬ EmptyBesideNull l r) (hcase : ¬ ClashInCase l r)
    (h : l.compare? r = some o) : l.looseEq r = (o == .eq) := by
  by_cases hr : r = .null
  · subst hr
    cases l with
    | null => cases h; rfl
    | _ =>
      rw [looseEq_null hempty nofun]
      cases h
      rfl
  · cases l with
    | null =>
      cases r with
      | null => exact absurd rfl hr
      | _ => cases h; rfl
    | bool p =>
      cases r with
      | null => exact absurd rfl hr
      | bool q =>
        cases h
        cases p <;> cases q <;> rfl
      | _ => cases h
    | int i => exact looseEq_of_compare?_number rfl hr h
    | float x => exact looseEq_of_compare?_number rfl hr h
    | string s =>
      rw [looseEq_string s hr hcase]
      cases r with
      | null => exact absurd rfl hr
      | _ => cases h; rfl
    | _ =>
      cases r with
      | null => exact absurd rfl hr
      | _ => cases h

end CommandChain.Value

namespace CommandChain.Builtin.ComparisonOperator

variable {l r : Value} {o : Ordering}

/-! ## The operators of a filter -/

/-- The operators give one picture of how two values stand to each other. -/
structure Coherent (l r : Value) : Prop where
  /-- The first value is less than the second, equal to it or greater, and only one of these. -/
  trichotomy : ∃! op, op ∈ [lt, eq, gt] ∧ evaluate op l r = true
  ge_iff : evaluate ge l r = true ↔ evaluate gt l r = true ∨ evaluate eq l r = true
  le_iff : evaluate le l r = true ↔ evaluate lt l r = true ∨ evaluate eq l r = true

/-- The one of the operators `Lt`, `Eq` and `Gt` that an order satisfies. -/
def ofOrdering : Ordering → ComparisonOperator
  | .lt => lt
  | .eq => eq
  | .gt => gt

/-- Of the three operators just that one holds where the loose equality is the equality of the
order. -/
theorem evaluate_iff_ofOrdering (h : l.compare? r = some o) (heq : l.looseEq r = (o == .eq))
    {op : ComparisonOperator} (hop : op ∈ [lt, eq, gt]) :
    evaluate op l r = true ↔ op = ofOrdering o := by
  have hvalue : evaluate op l r = (op == ofOrdering o) := by
    rcases List.mem_cons.mp hop with rfl | hop
    · rw [evaluate, h]
      cases o <;> rfl
    rcases List.mem_cons.mp hop with rfl | hop
    · rw [evaluate, heq]
      cases o <;> rfl
    obtain rfl := List.mem_singleton.mp hop
    rw [evaluate, h]
    cases o <;> rfl
  rw [hvalue, beq_iff_eq]

/-- The operators cohere where the loose equality is the equality of the order. -/
theorem coherent_of_looseEq (h : l.compare? r = some o) (heq : l.looseEq r = (o == .eq)) :
    Coherent l r := by
  have hequal : evaluate eq l r = (l.compare? r == some .eq) := by
    rw [evaluate, heq, h]
    exact Option.some_beq_some.symm
  constructor
  case trichotomy =>
    have hmem : ofOrdering o ∈ [lt, eq, gt] := by cases o <;> decide
    refine ⟨ofOrdering o, ⟨hmem, (evaluate_iff_ofOrdering h heq hmem).mpr rfl⟩, ?_⟩
    rintro op ⟨hop, hholds⟩
    exact (evaluate_iff_ofOrdering h heq hop).mp hholds
  case ge_iff =>
    rw [hequal]
    exact Bool.or_eq_true_iff
  case le_iff =>
    rw [hequal]
    exact Bool.or_eq_true_iff

/-- On values that have an order, texts that differ in case beyond ASCII apart, exactly one of `Lt`,
`Eq` and `Gt` holds, `Ge` is `Gt` or `Eq`, and `Le` is `Lt` or `Eq`. The empty text on the left of
null is both equal to it and greater. -/
theorem operators_cohere (horder : (l.compare? r).isSome) (hcase : ¬ l.ClashInCase r) :
    (¬ l.EmptyBesideNull r → Coherent l r)
      ∧ (l.EmptyBesideNull r → (∀ op ∈ [eq, gt, ge], evaluate op l r = true)
        ∧ ∀ op ∈ [lt, le], evaluate op l r = false) := by
  obtain ⟨o, h⟩ := Option.isSome_iff_exists.mp horder
  constructor
  · intro hempty
    exact coherent_of_looseEq h (Value.looseEq_of_compare? hempty hcase h)
  · rintro ⟨rfl, rfl⟩
    decide

/-- The operators cohere on an integer and a text that reads as another one. -/
theorem operators_cohere_reading : Coherent (.int 3) (.string " 4 ") := by
  refine (operators_cohere (by decide +kernel) ?_).1 ?_
  · rintro ⟨-, s, hs, -⟩
    cases hs
  · rintro ⟨hs, -⟩
    cases hs

/-- The operators do not cohere on the empty text and null, although these have an order. -/
theorem not_coherent_empty_null :
    ((Value.string "").compare? .null).isSome ∧ ¬ Coherent (.string "") .null := by
  refine ⟨rfl, fun h => ?_⟩
  have hboth : eq = gt := h.trichotomy.unique (by decide) (by decide)
  cases hboth

end CommandChain.Builtin.ComparisonOperator
