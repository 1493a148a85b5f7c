import CommandChain.Proofs.Values.Sorting
import Mathlib.Data.List.Forall2
import Mathlib.Order.WithBot
/-!
# Sorting by columns of texts and of truth values

The order of two values has gaps: a truth value has no place among texts. In a column that holds
texts, or truth values, and otherwise only null, any two values are compared. Null comes first, then
false before true, and texts in the order of their lower case. Where all columns of the keys are of
that kind the keys are totally preordered, the first column that differs deciding, and the sort is a
stable permutation of the objects in that order.
-/

namespace CommandChain

/-! ## The order of texts and of truth values -/

namespace Text

/-- Texts are compared like the lists of their code points. -/
theorem compareChars_compares (cs ds : List Char) :
    (compareChars cs ds).Compares (cs.map Char.toNat) (ds.map Char.toNat) := by
  induction cs generalizing ds with
  | nil =>
    cases ds with
    | nil => exact rfl
    | cons d ds => exact List.nil_lt_cons _ _
  | cons c cs ih =>
    cases ds with
    | nil => exact List.nil_lt_cons _ _
    | cons d ds =>
      rw [compareChars, compareChar, List.map_cons, List.map_cons]
      rcases Nat.lt_trichotomy c.toNat d.toNat with hless | hequal | hmore
      · rw [compare_lt_iff_lt.mpr hless]
        exact List.cons_lt_cons_iff.mpr (.inl hless)
      · rw [compare_eq_iff_eq.mpr hequal, hequal]
        exact Builtin.Sorting.compares_cons (ih ds)
      · rw [compare_gt_iff_gt.mpr hmore]
        exact List.cons_lt_cons_iff.mpr (.inl hmore)

end Text

namespace Value

/-- The place of null, of a truth value and of a text: null first, truth values as numbers, texts by
the code points of their lower case. -/
def rank : Value → WithBot (List Nat)
  | .bool b => ([b.toNat] : List Nat)
  | .string s => ((Text.lowerChars s).map Char.toNat : List Nat)
  | _ => ⊥

/-- A column of texts or of truth values, some of which may be missing. -/
def IsColumn (vs : List Value) : Prop :=
  (∀ v ∈ vs, v = .null ∨ ∃ s, v = .string s) ∨ (∀ v ∈ vs, v = .null ∨ ∃ b, v = .bool b)

/-- Texts have their places by the order of their lower cases. -/
theorem rank_string_compares (s t : String) :
    (Text.compareChars (Text.lowerChars s) (Text.lowerChars t)).Compares (rank (.string s))
      (rank (.string t)) := by
  have hchars := Text.compareChars_compares (Text.lowerChars s) (Text.lowerChars t)
  generalize Text.compareChars (Text.lowerChars s) (Text.lowerChars t) = order at hchars ⊢
  cases order with
  | lt => exact WithBot.coe_lt_coe.mpr hchars
  | eq => exact congrArg WithBot.some hchars
  | gt => exact WithBot.coe_lt_coe.mpr hchars

/-- Any two values of a column are compared, by their places. -/
theorem IsColumn.compare?_eq {vs : List Value} (h : IsColumn vs) {v w : Value} (hv : v ∈ vs)
    (hw : w ∈ vs) : v.compare? w = some (compare v.rank w.rank) := by
  rcases h with htexts | hbools
  · rcases htexts v hv with rfl | ⟨s, rfl⟩ <;> rcases htexts w hw with rfl | ⟨t, rfl⟩
    · exact congrArg some (compare_eq_iff_eq.mpr rfl).symm
    · exact congrArg some (compare_lt_iff_lt.mpr (WithBot.bot_lt_coe _)).symm
    · exact congrArg some (compare_gt_iff_gt.mpr (WithBot.bot_lt_coe _)).symm
    · exact congrArg some ((rank_string_compares s t).cmp_eq.symm.trans (cmp_eq_compare _ _))
  · rcases hbools v hv with rfl | ⟨p, rfl⟩ <;> rcases hbools w hw with rfl | ⟨q, rfl⟩
    · exact congrArg some (compare_eq_iff_eq.mpr rfl).symm
    · exact congrArg some (compare_lt_iff_lt.mpr (WithBot.bot_lt_coe _)).symm
    · exact congrArg some (compare_gt_iff_gt.mpr (WithBot.bot_lt_coe _)).symm
    · refine congrArg some ?_
      cases p <;> cases q
      case false.false => exact (compare_eq_iff_eq.mpr rfl).symm
      case true.true => exact (compare_eq_iff_eq.mpr rfl).symm
      case false.true => exact (compare_lt_iff_lt.mpr (WithBot.coe_lt_coe.mpr (by decide))).symm
      case true.false => exact (compare_gt_iff_gt.mpr (WithBot.coe_lt_coe.mpr (by decide))).symm

end Value

namespace Builtin.Sorting

variable {call : Call} {buffer : List Value} {keys : List (List Value)} {a b c : List Value}

/-! ## The order of keys -/

/-- A key comes before another if it does in the first column in which they differ. -/
inductive KeyLess : List Value → List Value → Prop
  | here {x y : Value} {xs ys : List Value} (h : x.compare? y = some .lt) :
    KeyLess (x :: xs) (y :: ys)
  | there {x y : Value} {xs ys : List Value} (h : x.compare? y = some .eq) (hrest : KeyLess xs ys) :
    KeyLess (x :: xs) (y :: ys)

/-- Two keys tie if they differ in no column. -/
def KeyTie : List Value → List Value → Prop :=
  List.Forall₂ fun x y => x.compare? y = some .eq

/-- Two keys whose columns all compare are compared column by column, the first difference deciding. -/
theorem compareKeys_iff (h : List.Forall₂ (fun x y => (x.compare? y).isSome = true) a b) :
    (compareKeys a b = .lt ↔ KeyLess a b) ∧ (compareKeys a b = .eq ↔ KeyTie a b) := by
  induction h with
  | nil => exact ⟨iff_of_false Ordering.noConfusion nofun, iff_of_true rfl .nil⟩
  | @cons x y xs ys hxy _ ih =>
    obtain ⟨o, ho⟩ := Option.isSome_iff_exists.mp hxy
    rw [compareKeys, ho, Option.getD_some]
    have hother {o' : Ordering} (hne : o ≠ o') : x.compare? y ≠ some o' := by
      rw [ho, ne_eq, Option.some_inj]
      exact hne
    cases o with
    | lt =>
      refine ⟨iff_of_true rfl (.here ho), iff_of_false Ordering.noConfusion fun htie => ?_⟩
      exact hother (by decide) (List.forall₂_cons.mp htie).1
    | eq =>
      refine ⟨ih.1.trans ⟨.there ho, fun hless => ?_⟩, ih.2.trans ⟨.cons ho, fun htie => ?_⟩⟩
      · cases hless with
        | here hlt => exact absurd hlt (hother (by decide))
        | there _ hrest => exact hrest
      · exact (List.forall₂_cons.mp htie).2
    | gt =>
      refine ⟨iff_of_false Ordering.noConfusion fun hless => ?_,
        iff_of_false Ordering.noConfusion fun htie => ?_⟩
      · cases hless with
        | here hlt => exact hother (by decide) hlt
        | there heq _ => exact hother (by decide) heq
      · exact hother (by decide) (List.forall₂_cons.mp htie).1

/-- Every column of some keys is a column of texts or of truth values. -/
def HasColumns (keys : List (List Value)) : Prop :=
  ∀ j : Nat, Value.IsColumn (keys.filterMap fun key => key[j]?)

/-- Keys meet in values of one column. -/
theorem HasColumns.compare?_eq (h : HasColumns keys) (ha : a ∈ keys) (hb : b ∈ keys)
    {p : Value × Value} (hp : p ∈ a.zip b) : p.1.compare? p.2 = some (compare p.1.rank p.2.rank) := by
  obtain ⟨j, hj⟩ := List.mem_iff_getElem?.mp hp
  obtain ⟨hx, hy⟩ := List.getElem?_zip_eq_some.mp hj
  exact (h j).compare?_eq (List.mem_filterMap.mpr ⟨a, ha, hx⟩) (List.mem_filterMap.mpr ⟨b, hb, hy⟩)

/-- Keys with such columns are compared like the lists of the places of their values. -/
theorem HasColumns.compares (h : HasColumns keys) (ha : a ∈ keys) (hb : b ∈ keys)
    (hlength : a.length = b.length) :
    (compareKeys a b).Compares (a.map Value.rank) (b.map Value.rank) := by
  have hcompares : (compareKeys (a.map id) (b.map id)).Compares (a.map Value.rank) (b.map Value.rank) :=
    compareKeys_map hlength fun p hp => h.compare?_eq ha hb hp
  rwa [List.map_id, List.map_id] at hcompares

/-- The comparison of keys goes by the first column in which they differ. -/
theorem HasColumns.compareKeys_iff (h : HasColumns keys) (ha : a ∈ keys) (hb : b ∈ keys)
    (hlength : a.length = b.length) :
    (compareKeys a b = .lt ↔ KeyLess a b) ∧ (compareKeys a b = .eq ↔ KeyTie a b) := by
  refine Sorting.compareKeys_iff (List.forall₂_iff_zip.mpr ⟨hlength, fun hp => ?_⟩)
  rw [h.compare?_eq ha hb hp]
  rfl

/-- A key whose ranks do not come behind those of another is less, or they tie. -/
theorem HasColumns.less_or_tie (h : HasColumns keys) (ha : a ∈ keys) (hb : b ∈ keys)
    (hlength : a.length = b.length) (hle : a.map Value.rank ≤ b.map Value.rank) :
    KeyLess a b ∨ KeyTie a b := by
  obtain ⟨hless, htie⟩ := h.compareKeys_iff ha hb hlength
  have horder := h.compares ha hb hlength
  cases hcase : compareKeys a b with
  | lt => exact .inl (hless.mp hcase)
  | eq => exact .inr (htie.mp hcase)
  | gt =>
    rw [hcase] at horder
    exact absurd hle (not_le.mpr horder)

/-! ## Total preorder -/

/-- The comparison of keys is a total preorder on some of them. -/
structure TotallyPreordered (keys : List (List Value)) : Prop where
  refl : ∀ a ∈ keys, compareKeys a a = .eq
  swap : ∀ a ∈ keys, ∀ b ∈ keys, compareKeys b a = (compareKeys a b).swap
  trans : ∀ a ∈ keys, ∀ b ∈ keys, ∀ c ∈ keys,
    compareKeys a b ≠ .gt → compareKeys b c ≠ .gt → compareKeys a c ≠ .gt

/-- A comparison that goes by rank is a total preorder. -/
theorem totallyPreordered_of_compares {ρ : Type} [LinearOrder ρ] (rank : List Value → ρ)
    (h : ∀ a ∈ keys, ∀ b ∈ keys, (compareKeys a b).Compares (rank a) (rank b)) :
    TotallyPreordered keys := by
  have hcompare : ∀ a ∈ keys, ∀ b ∈ keys, compareKeys a b = cmp (rank a) (rank b) :=
    fun a ha b hb => (h a ha b hb).cmp_eq.symm
  constructor
  case refl =>
    intro a ha
    rw [hcompare a ha a ha]
    exact cmp_self_eq_eq _
  case swap =>
    intro a ha b hb
    rw [hcompare a ha b hb, hcompare b hb a ha]
    exact (cmp_swap _ _).symm
  case trans =>
    intro a ha b hb c hc hab hbc
    rw [hcompare a ha b hb, ne_eq, cmp_eq_gt_iff, not_lt] at hab
    rw [hcompare b hb c hc, ne_eq, cmp_eq_gt_iff, not_lt] at hbc
    rw [hcompare a ha c hc, ne_eq, cmp_eq_gt_iff, not_lt]
    exact hab.trans hbc

/-! ## The sort -/

/-- Objects are sorted by their keys: they are the same objects, in the order of the keys or in the
opposite one, and those whose keys compare as equal are in the order in which they came. -/
structure SortedStably (descending : Bool) (key : Value → List Value) (input output : List Value) :
    Prop where
  perm : output.Perm input
  inOrder : output.Pairwise fun v w =>
    if descending then KeyLess (key w) (key v) ∨ KeyTie (key w) (key v)
    else KeyLess (key v) (key w) ∨ KeyTie (key v) (key w)
  stable : ∀ v ∈ input, output.filter (fun w => compareKeys (key v) (key w) = .eq)
    = input.filter fun w => compareKeys (key v) (key w) = .eq

/-- Without dropping repetitions the command writes all objects. -/
theorem sorted_perm (hunique : call.parameters.switch "Unique" = false) (buffer : List Value) :
    (sorted call buffer).Perm buffer := by
  unfold sorted
  simp only [hunique, Bool.false_eq_true, if_false]
  exact ((List.mergeSort_perm (withKeys call buffer) _).map Keyed.value).trans
    (.of_eq (values_withKeys call buffer))

/-- Objects whose keys have columns of texts or of truth values are sorted stably. -/
theorem sortedStably_of_columns (hunique : call.parameters.switch "Unique" = false)
    (hcolumns : HasColumns (buffer.map (keyOf call))) :
    SortedStably (call.parameters.switch "Descending") (keyOf call) buffer (sorted call buffer) := by
  have hkey {v : Value} (hv : v ∈ buffer) : keyOf call v ∈ buffer.map (keyOf call) :=
    List.mem_map_of_mem hv
  have hcompares : ∀ v ∈ buffer, ∀ w ∈ buffer, (compareKeys (keyOf call v) (keyOf call w)).Compares
      ((keyOf call v).map Value.rank) ((keyOf call w).map Value.rank) := fun v hv w hw =>
    hcolumns.compares (hkey hv) (hkey hw) (length_keyOf call v w)
  have hsorts : Sorts call buffer fun v => (keyOf call v).map Value.rank :=
    sorts_of_compares hcompares fun h => by rw [hunique] at h; cases h
  have hperm := sorted_perm hunique buffer
  have hle {v w : Value} (hv : v ∈ buffer) (hw : w ∈ buffer) :=
    hcolumns.less_or_tie (hkey hv) (hkey hw) (length_keyOf call v w)
  refine ⟨hperm, ?_, fun v hv => ?_⟩
  · refine hsorts.inOrder.imp_of_mem fun hv hw hbefore => ?_
    rw [hperm.mem_iff] at hv hw
    unfold Before at hbefore
    split
    case isTrue hdescending => exact hle hw hv (by rwa [if_pos hdescending] at hbefore)
    case isFalse hascending => exact hle hv hw (by rwa [if_neg hascending] at hbefore)
  · have hties {w : Value} (hw : w ∈ buffer) : compareKeys (keyOf call v) (keyOf call w) = .eq
        ↔ (keyOf call w).map Value.rank = (keyOf call v).map Value.rank :=
      (hcompares v hv w hw).eq_eq.trans eq_comm
    have hkept := hsorts.kept ((keyOf call v).map Value.rank)
    rw [hunique, if_neg Bool.false_ne_true] at hkept
    refine (List.filter_congr fun w hw => ?_).trans (hkept.trans (List.filter_congr fun w hw => ?_))
    · exact decide_eq_decide.mpr (hties (hperm.mem_iff.mp hw))
    · exact decide_eq_decide.mpr (hties hw).symm

end Builtin.Sorting

end CommandChain
