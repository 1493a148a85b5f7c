import CommandChain.Builtin.Comparison
import CommandChain.Proofs.Values.Doubles
import CommandChain.Proofs.Values.Sorting
/-!
# Integers compared as doubles

Two integers are compared as the doubles nearest to them. Where these differ, the comparison is that
of the integers. Where they agree, different integers count as equal: below 2 ^ 53 in magnitude that
never happens, above it does for neighbours.
-/

namespace CommandChain.Value

open Rounding (nearest)

variable {a b : Int64} {f : Int64 → Int}

/-- A 64-bit integer is below 2 ^ 64 in magnitude. -/
theorem natAbs_lt (a : Int64) : a.toInt.natAbs < 2 ^ 64 := by
  have hlow := a.le_toInt
  have hhigh := a.toInt_lt
  omega

/-- Two integers are compared, and tested for equality, as their images. -/
structure ComparedAs (f : Int64 → Int) (a b : Int64) : Prop where
  order : (Value.int a).compare? (.int b) = some (compare (f a) (f b))
  equal : (Value.int a).looseEq (.int b) = true ↔ f a = f b

/-- Two integers are compared as their nearest doubles. -/
theorem comparedAs_nearest (a b : Int64) : ComparedAs (fun i => nearest i.toInt) a b := by
  have horder := Rounding.order?_ofInt (natAbs_lt a) (natAbs_lt b)
  constructor
  case order =>
    change compareFloat? (Float.ofInt a.toInt) (Float.ofInt b.toInt) = _
    rw [compareFloat?_eq_order?, horder]
  case equal =>
    change (Float.ofInt a.toInt == Float.ofInt b.toInt) = true ↔ _
    rw [beq_eq_order?, horder, Option.some_beq_some, beq_iff_eq, compare_eq_iff_eq]

/-- Two integers are compared as integers unless they differ and have the same nearest double. -/
theorem comparedAs_toInt_iff :
    ComparedAs Int64.toInt a b ↔ (nearest a.toInt = nearest b.toInt → a = b) := by
  have hnearest := comparedAs_nearest a b
  constructor
  · intro h hsame
    exact Int64.toInt_inj.mp (h.equal.mp (hnearest.equal.mpr hsame))
  · intro hapart
    have hequal : nearest a.toInt = nearest b.toInt ↔ a.toInt = b.toInt :=
      ⟨fun h => by rw [hapart h], fun h => by rw [h]⟩
    refine ⟨hnearest.order.trans (congrArg some ?_), hnearest.equal.trans hequal⟩
    exact Rounding.compare_congr (Rounding.nearest_lt_iff hequal)
      (Rounding.nearest_lt_iff (by rw [eq_comm, hequal, eq_comm]))

/-- Below 2 ^ 53 in magnitude, different integers have different nearest doubles. -/
theorem eq_of_nearest_eq (ha : a.toInt.natAbs < 2 ^ 53) (hb : b.toInt.natAbs < 2 ^ 53)
    (hsame : nearest a.toInt = nearest b.toInt) : a = b := by
  rw [Rounding.nearest_of_natAbs_lt ha, Rounding.nearest_of_natAbs_lt hb] at hsame
  exact Int64.toInt_inj.mp hsame

end CommandChain.Value

namespace CommandChain.Builtin

open Rounding (nearest)
open Value (ComparedAs)

/-! ## Sorting -/

namespace Sorting

variable {f : Int64 → Int} {call : Call} {buffer : List Value}

/-- Objects whose keys are integers are sorted by what the integers are compared as. -/
theorem sorts_ints {ints : Value → List Int64}
    (hints : ∀ v ∈ buffer, keyOf call v = (ints v).map .int)
    (h : ∀ v ∈ buffer, ∀ w ∈ buffer, ∀ p ∈ (ints v).zip (ints w), ComparedAs f p.1 p.2) :
    Sorts call buffer fun v => (ints v).map f := by
  have hlength : ∀ v ∈ buffer, ∀ w ∈ buffer, (ints v).length = (ints w).length := by
    intro v hv w hw
    have hkeys := length_keyOf call v w
    rwa [hints v hv, hints w hw, List.length_map, List.length_map] at hkeys
  apply sorts_of_compares
  · intro v hv w hw
    rw [hints v hv, hints w hw]
    exact compareKeys_map (hlength v hv w hw) fun p hp => (h v hv w hw p hp).order
  · intro _ v hv w hw
    rw [hints v hv, hints w hw]
    exact repeats_map (hlength v hv w hw) fun p hp => (h v hv w hw p hp).equal

end Sorting

/-! ## Integers -/

open ComparisonOperator

/-- Two integers are compared as integers, by the order of values and by the operators of a filter. -/
structure ComparedAsIntegers (a b : Int64) : Prop where
  order : (Value.int a).compare? (.int b) = some (compare a.toInt b.toInt)
  looseEq_iff : (Value.int a).looseEq (.int b) = true ↔ a = b
  eq_iff : evaluate eq (.int a) (.int b) = true ↔ a = b
  ne_iff : evaluate ne (.int a) (.int b) = true ↔ a ≠ b
  gt_iff : evaluate gt (.int a) (.int b) = true ↔ b.toInt < a.toInt
  ge_iff : evaluate ge (.int a) (.int b) = true ↔ b.toInt ≤ a.toInt
  lt_iff : evaluate lt (.int a) (.int b) = true ↔ a.toInt < b.toInt
  le_iff : evaluate le (.int a) (.int b) = true ↔ a.toInt ≤ b.toInt

/-- Two integers are compared as integers by the operators exactly if they are by order and
equality. -/
theorem comparedAsIntegers_iff {a b : Int64} :
    ComparedAsIntegers a b ↔ ComparedAs Int64.toInt a b := by
  constructor
  · intro h
    exact ⟨h.order, h.looseEq_iff.trans Int64.toInt_inj.symm⟩
  · intro h
    have hequal := h.equal.trans Int64.toInt_inj
    have hrelation {o : Ordering} : ((Value.int a).compare? (.int b) == some o) = true
        ↔ compare a.toInt b.toInt = o := by
      rw [h.order, Option.some_beq_some, beq_iff_eq]
    constructor
    case order => exact h.order
    case looseEq_iff => exact hequal
    case eq_iff => exact hequal
    case ne_iff => rw [evaluate, Bool.not_eq_true', ← Bool.not_eq_true, hequal]
    case gt_iff => rw [evaluate, hrelation, compare_gt_iff_gt]
    case lt_iff => rw [evaluate, hrelation, compare_lt_iff_lt]
    case ge_iff =>
      rw [evaluate, Bool.or_eq_true, hrelation, hrelation, compare_gt_iff_gt, compare_eq_iff_eq]
      omega
    case le_iff =>
      rw [evaluate, Bool.or_eq_true, hrelation, hrelation, compare_lt_iff_lt, compare_eq_iff_eq]
      omega

/-- Integers are compared as the doubles nearest to them. A pair is compared as integers, by the
order of values and by every operator, exactly if it does not differ with one nearest double. A sort
by integers is one by their nearest doubles, and by the integers themselves, none of them lost, where
no two different ones that meet have one nearest double. -/
theorem integers_compared (a b : Int64) :
    (ComparedAsIntegers a b ↔ (nearest a.toInt = nearest b.toInt → a = b))
      ∧ ∀ (call : Call) (buffer : List Value) (ints : Value → List Int64),
        (∀ v ∈ buffer, Sorting.keyOf call v = (ints v).map .int) →
          Sorting.Sorts call buffer (fun v => (ints v).map fun i => nearest i.toInt)
          ∧ ((∀ v ∈ buffer, ∀ w ∈ buffer, ∀ p ∈ (ints v).zip (ints w),
                nearest p.1.toInt = nearest p.2.toInt → p.1 = p.2) →
              Sorting.Sorts call buffer (fun v => (ints v).map Int64.toInt)
              ∧ ∀ v ∈ buffer, ∃ w ∈ Sorting.sorted call buffer, ints w = ints v) := by
  refine ⟨comparedAsIntegers_iff.trans Value.comparedAs_toInt_iff, ?_⟩
  intro call buffer ints hints
  refine ⟨Sorting.sorts_ints hints fun v _ w _ p _ => Value.comparedAs_nearest p.1 p.2, ?_⟩
  intro hapart
  have hsorts : Sorting.Sorts call buffer fun v => (ints v).map Int64.toInt :=
    Sorting.sorts_ints hints fun v hv w hw p hp =>
      Value.comparedAs_toInt_iff.mpr (hapart v hv w hw p hp)
  refine ⟨hsorts, fun v hv => ?_⟩
  obtain ⟨w, hw, hrank⟩ := hsorts.exists_of_mem hv
  exact ⟨w, hw, List.map_injective_iff.mpr (fun _ _ => Int64.toInt_inj.mp) hrank⟩

/-- A sort by the property `id`, without repetitions. -/
def sortingById : Call where
  id := ⟨0⟩
  position := 0
  name := "Sort-Object"
  phase := .finish
  parameters := ⟨[⟨"Property", .array [.string "Id"], .named⟩, ⟨"Unique", .bool true, .named⟩]⟩
  input := none
  preferences := {}
  adapter := .standard .empty
  scripts := {}

/-- An object with an `id`. -/
def withId (i : Int64) : Value :=
  .object [("id", .int i)]

/-- The `id` of an object. -/
def idOf : Value → List Int64
  | .object [(_, .int i)] => [i]
  | _ => []

/-- Two small integers are compared as integers, and objects with them are sorted without
repetitions. -/
theorem integers_compared_identified :
    ComparedAsIntegers 3 (-4)
      ∧ Sorting.Sorts sortingById [withId 3, withId (-4), withId 3]
        (fun v => (idOf v).map Int64.toInt) := by
  obtain ⟨hpair, hsorts⟩ := integers_compared 3 (-4)
  have hids : ∀ v ∈ [withId 3, withId (-4), withId 3],
      ∃ i, v = withId i ∧ Sorting.keyOf sortingById v = [.int i] ∧ i.toInt.natAbs < 2 ^ 53 := by
    intro v hv
    rcases List.mem_cons.mp hv with rfl | hv
    · exact ⟨3, rfl, rfl, by decide⟩
    rcases List.mem_cons.mp hv with rfl | hv
    · exact ⟨-4, rfl, rfl, by decide⟩
    obtain rfl := List.mem_singleton.mp hv
    exact ⟨3, rfl, rfl, by decide⟩
  refine ⟨hpair.mpr (Value.eq_of_nearest_eq (by decide) (by decide)),
    ((hsorts _ _ idOf ?_).2 ?_).1⟩
  · intro v hv
    obtain ⟨i, rfl, hkey, -⟩ := hids v hv
    exact hkey
  · intro v hv w hw p hp
    obtain ⟨i, rfl, -, hi⟩ := hids v hv
    obtain ⟨j, rfl, -, hj⟩ := hids w hw
    obtain rfl := List.mem_singleton.mp hp
    exact Value.eq_of_nearest_eq hi hj

/-- Two neighbours above 2 ^ 53 are not compared as integers. -/
theorem not_comparedAsIntegers_neighbours :
    ¬ ComparedAsIntegers 9007199254740992 9007199254740993 := by
  intro h
  have hequal : (Value.int 9007199254740992).looseEq (.int 9007199254740993) = true := by
    decide +kernel
  exact absurd (h.looseEq_iff.mp hequal) (by decide)

end CommandChain.Builtin
