import CommandChain.Value.Conversion
/-!
# Conversions are sound and stable

A converted value has the wanted type and converts to itself again, and a value that has the type is
not touched. Where a conversion fails the value did not have the type, and the error shows the value,
its type and the wanted one.
-/

namespace CommandChain

namespace Value

variable {v w : Value} {t : ValueType}

/-- A value of a type already is its own conversion to it. -/
theorem convertTo_of_isExactly (h : v.isExactly t = true) : convertTo v t = .ok v := by
  rw [convertTo, if_pos h]

/-- What a value is converted to has the wanted type. -/
theorem isExactly_of_coerce? (h : coerce? v t = some w) : w.isExactly t = true := by
  unfold coerce? at h
  split at h
  -- From doubles and texts, which need not denote a value of the type.
  case h_1 | h_3 | h_5 | h_8 =>
    obtain ⟨a, -, rfl⟩ := Option.map_eq_some_iff.mp h
    rfl
  case h_2 | h_4 | h_6 | h_7 | h_11 | h_13 =>
    cases h
    rfl
  all_goals cases h

/-- What a conversion comes to: the value itself where it has the type, else what it is coerced to,
else an error about it. -/
theorem convertTo_cases (v : Value) (t : ValueType) :
    v.isExactly t = true ∧ convertTo v t = .ok v
      ∨ v.isExactly t = false ∧ ((∃ w, coerce? v t = some w ∧ convertTo v t = .ok w)
        ∨ convertTo v t = .error ⟨v.display, v.typeName, t⟩) := by
  cases hexact : v.isExactly t with
  | true => exact .inl ⟨rfl, convertTo_of_isExactly hexact⟩
  | false =>
    refine .inr ⟨rfl, ?_⟩
    rw [convertTo, hexact]
    cases coerce? v t with
    | some w => exact .inl ⟨w, rfl, rfl⟩
    | none => exact .inr rfl

/-- Conversion to a type gives a value of that type. -/
theorem isExactly_of_convertTo (h : convertTo v t = .ok w) : w.isExactly t = true := by
  rcases convertTo_cases v t with ⟨hexact, hkept⟩ | ⟨-, ⟨u, hu, hcoerced⟩ | hfailed⟩
  · rw [hkept] at h
    cases h
    exact hexact
  · rw [hcoerced] at h
    cases h
    exact isExactly_of_coerce? hu
  · rw [hfailed] at h
    cases h

/-- A conversion is sound and stable. -/
structure ConvertsSoundly (v : Value) (t : ValueType) : Prop where
  typed : ∀ w, convertTo v t = .ok w → w.isExactly t = true
  stable : ∀ w, convertTo v t = .ok w → convertTo w t = .ok w
  kept : v.isExactly t = true → convertTo v t = .ok v
  error : ∀ e, convertTo v t = .error e →
    v.isExactly t = false ∧ e = ⟨v.display, v.typeName, t⟩

/-- Every conversion is sound: its result is of the type, an error tells the value and the types,
and conversion of the result changes nothing. -/
theorem convertsSoundly (v : Value) (t : ValueType) : ConvertsSoundly v t := by
  refine ⟨fun w => isExactly_of_convertTo,
    fun w hw => convertTo_of_isExactly (isExactly_of_convertTo hw), convertTo_of_isExactly, ?_⟩
  intro e he
  rcases convertTo_cases v t with ⟨-, hkept⟩ | ⟨hother, ⟨u, -, hcoerced⟩ | hfailed⟩
  · rw [hkept] at he
    cases he
  · rw [hcoerced] at he
    cases he
  · rw [hfailed] at he
    cases he
    exact ⟨hother, rfl⟩

end Value

end CommandChain
