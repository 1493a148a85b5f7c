import CommandChain.Proofs.Sorting.Columns
import CommandChain.Proofs.Values.Folding
import Mathlib.Data.List.Chain
import Mathlib.Data.List.Nodup
/-!
# Dropping repetitions

Of neighbours with loosely equal keys the command keeps the first. Texts are loosely equal up to
ASCII case, but they are sorted by their lower case, so that texts of one place in the order need not
be loosely equal, and between two that are there may stand one that is not. What is left is then not
free of repetitions. It is if no key comes back behind another key of the same place.
-/

namespace CommandChain.Builtin.Sorting

/-! ## Thinning out a list -/

section

variable {γ : Type} {cls : Keyed → γ} {l : List Keyed} {last : Keyed} {s : List γ}

/-- What is left has no neighbours of one class. -/
theorem isChain_dropRepeats
    (hrepeats : ∀ a ∈ last :: l, ∀ b ∈ last :: l, repeats a.key b.key = true ↔ cls a = cls b) :
    (cls last :: (dropRepeats last l).map cls).IsChain (· ≠ ·) := by
  induction l generalizing last with
  | nil => exact .singleton _
  | cons a rest ih =>
    rw [dropRepeats]
    split
    case isTrue => exact ih fun b hb c hc => hrepeats b (by grind) c (by grind)
    case isFalse hnew =>
      refine .cons_cons (fun hsame => hnew ?_) (ih fun b hb c hc => hrepeats b (by grind) c (by grind))
      exact (hrepeats a (by simp) last (by simp)).mpr hsame.symm

/-- Whatever has no neighbours of one class is kept. -/
theorem sublist_dropRepeats
    (hrepeats : ∀ a ∈ last :: l, ∀ b ∈ last :: l, repeats a.key b.key = true ↔ cls a = cls b)
    (hs : s.Sublist (cls last :: l.map cls)) (hchain : s.IsChain (· ≠ ·)) :
    s.Sublist (cls last :: (dropRepeats last l).map cls) := by
  induction l generalizing last s with
  | nil => exact hs
  | cons a rest ih =>
    rw [List.map_cons] at hs
    rw [dropRepeats]
    split
    case isTrue hrepeat =>
      refine ih (fun b hb c hc => hrepeats b (by grind) c (by grind)) ?_ hchain
      rw [(hrepeats a (by simp) last (by simp)).mp hrepeat] at hs
      -- Of two neighbours of one class only one can be in a list without such neighbours.
      cases hs with
      | cons _ hs => exact hs
      | cons_cons _ hs =>
        cases hs with
        | cons _ hs => exact hs.cons_cons _
        | cons_cons _ hs => exact absurd rfl (List.isChain_cons_cons.mp hchain).1
    case isFalse hnew =>
      have hrest {s' : List γ} (hs : s'.Sublist (cls a :: rest.map cls)) (hchain : s'.IsChain (· ≠ ·)) :
          s'.Sublist (cls a :: (dropRepeats a rest).map cls) :=
        ih (fun b hb c hc => hrepeats b (by grind) c (by grind)) hs hchain
      cases hs with
      | cons _ hs => exact (hrest hs hchain).cons _
      | cons_cons _ hs => exact (hrest hs hchain.tail).cons_cons _

variable (hrepeats : ∀ a ∈ l, ∀ b ∈ l, repeats a.key b.key = true ↔ cls a = cls b)

include hrepeats

theorem isChain_unique : ((unique l).map cls).IsChain (· ≠ ·) := by
  cases l with
  | nil => exact .nil
  | cons a rest => exact isChain_dropRepeats hrepeats

theorem sublist_unique (hs : s.Sublist (l.map cls)) (hchain : s.IsChain (· ≠ ·)) :
    s.Sublist ((unique l).map cls) := by
  cases l with
  | nil => exact hs
  | cons a rest => exact sublist_dropRepeats hrepeats hs hchain

/-- No class is lost. -/
theorem mem_map_unique {a : Keyed} (ha : a ∈ l) : cls a ∈ (unique l).map cls :=
  List.singleton_sublist.mp
    (sublist_unique hrepeats (List.singleton_sublist.mpr (List.mem_map_of_mem ha)) (.singleton _))

end

/-- A list without equal neighbours has no repetitions if nothing comes back behind something else. -/
theorem nodup_of_isChain {γ : Type} {l : List γ} (hchain : l.IsChain (· ≠ ·))
    (hback : ¬ ∃ x y, x ≠ y ∧ [x, y, x].Sublist l) : l.Nodup := by
  induction l with
  | nil => exact .nil
  | cons x rest ih =>
    refine List.nodup_cons.mpr ⟨fun hx => ?_, ih hchain.tail ?_⟩
    · cases rest with
      | nil => exact absurd hx List.not_mem_nil
      | cons y rest =>
        have hne : x ≠ y := (List.isChain_cons_cons.mp hchain).1
        have hlater : x ∈ rest := (List.mem_cons.mp hx).resolve_left hne
        exact hback ⟨x, y, hne, ((List.singleton_sublist.mpr hlater).cons_cons y).cons_cons x⟩
    · rintro ⟨y, z, hne, hsublist⟩
      exact hback ⟨y, z, hne, hsublist.cons x⟩

/-- What is left has no repetitions exactly if no class comes back behind another one. -/
theorem nodup_unique_iff {γ : Type} {cls : Keyed → γ} {l : List Keyed}
    (hrepeats : ∀ a ∈ l, ∀ b ∈ l, repeats a.key b.key = true ↔ cls a = cls b) :
    ((unique l).map cls).Nodup ↔ ¬ ∃ x y, x ≠ y ∧ [x, y, x].Sublist (l.map cls) := by
  constructor
  · rintro hnodup ⟨x, y, hne, hsublist⟩
    have hchain : [x, y, x].IsChain (· ≠ ·) := .cons_cons hne (.cons_cons hne.symm (.singleton x))
    have hkept := hnodup.sublist (sublist_unique hrepeats hsublist hchain)
    simp at hkept
  · intro hback
    refine nodup_of_isChain (isChain_unique hrepeats) fun ⟨x, y, hne, hsublist⟩ => hback ?_
    exact ⟨x, y, hne, hsublist.trans ((unique_sublist l).map cls)⟩

/-! ## Keys of texts -/

/-- Two keys are loosely equal if they are in each component. -/
def LooselyEqual : List Value → List Value → Prop :=
  List.Forall₂ fun x y => x.looseEq y = true

/-- Repetitions are found by loose equality, column by column. -/
theorem repeats_iff {a b : List Value} : repeats a b = true ↔ LooselyEqual a b := by
  induction a generalizing b with
  | nil => cases b <;> simp [repeats, LooselyEqual]
  | cons x xs ih =>
    cases b with
    | nil => simp [repeats, LooselyEqual]
    | cons y ys =>
      rw [repeats, Bool.and_eq_true, ih, LooselyEqual, List.forall₂_cons]

instance (a b : List Value) : Decidable (LooselyEqual a b) :=
  decidable_of_iff _ repeats_iff

/-- The columns of a key of texts, up to ASCII case. -/
def foldKey (key : List Value) : List (List Char) :=
  key.map fun v => Text.foldCase v.display

/-- A key of texts. -/
def IsTexts (key : List Value) : Prop :=
  ∀ v ∈ key, ∃ s, v = .string s

variable {call : Call} {buffer : List Value} {a b : List Value}

/-- Keys of texts are loosely equal exactly if they are the same up to ASCII case. -/
theorem looselyEqual_iff (ha : IsTexts a) (hlength : a.length = b.length) :
    LooselyEqual a b ↔ foldKey a = foldKey b := by
  have hrepeats : repeats (a.map id) (b.map id) = true ↔ foldKey a = foldKey b :=
    repeats_map hlength fun p hp => by
      obtain ⟨s, hs⟩ := ha p.1 (List.of_mem_zip hp).1
      rw [id, id, hs]
      exact Text.sameName_iff
  rw [List.map_id, List.map_id, repeats_iff] at hrepeats
  exact hrepeats

/-- The place in the order of a text up to ASCII case. -/
def placeOf (folded : List Char) : WithBot (List Nat) :=
  ((Text.lowerAfter [] folded).map Char.toNat : List Nat)

/-- The place of a text depends on it up to ASCII case only. -/
theorem rank_string (s : String) : (Value.string s).rank = placeOf (Text.foldCase s) := by
  have hfold : Text.lowerAfter [] (s.toList.map Char.toLower) = Text.lowerAfter [] s.toList :=
    Text.lowerAfter_fold [] s.toList
  rw [placeOf, Text.foldCase, hfold]
  rfl

theorem map_rank_eq (ha : IsTexts a) : a.map Value.rank = (foldKey a).map placeOf := by
  rw [foldKey, List.map_map]
  refine List.map_congr_left fun v hv => ?_
  obtain ⟨s, rfl⟩ := ha v hv
  exact rank_string s

/-- Keys of texts have columns of texts. -/
theorem hasColumns_of_isTexts {keys : List (List Value)} (h : ∀ key ∈ keys, IsTexts key) :
    HasColumns keys := by
  intro j
  refine .inl fun v hv => .inr ?_
  obtain ⟨key, hkey, hv⟩ := List.mem_filterMap.mp hv
  exact h key hkey v (List.mem_of_getElem? hv)

/-! ## What is left -/

/-- No two objects that are left have loosely equal keys, all of them came, and the key of each object
that came is loosely equal to that of exactly one object that is left. -/
structure Deduplicated (key : Value → List Value) (input output : List Value) : Prop where
  distinct : output.Pairwise fun v w => ¬ LooselyEqual (key v) (key w)
  subset : ∀ w ∈ output, w ∈ input
  once : ∀ v ∈ input, output.countP (fun w => LooselyEqual (key v) (key w)) = 1

/-- A key comes back behind another one that has the same place in the order but is not loosely equal
to it. -/
def ComesBack (key : Value → List Value) (input : List Value) : Prop :=
  ∃ u v w, [u, v, w].Sublist input ∧ LooselyEqual (key u) (key w)
    ∧ compareKeys (key u) (key v) = .eq ∧ ¬ LooselyEqual (key u) (key v)

/-- The place of an object in the order. -/
def place (call : Call) (v : Value) : List (WithBot (List Nat)) :=
  (keyOf call v).map Value.rank

/-- The objects with their keys, in the order in which they are written. -/
def ordered (call : Call) (buffer : List Value) : List Keyed :=
  byRank (call.parameters.switch "Descending") (place call ·.value) (withKeys call buffer)

theorem mem_ordered {a : Keyed} (ha : a ∈ ordered call buffer) :
    a.value ∈ buffer ∧ a.key = keyOf call a.value :=
  exists_of_mem_withKeys ((byRank_perm _ _ _).mem_iff.mp ha)

/-- Objects of one place are in the order in which they came. -/
theorem sublist_ordered_iff {s : List Keyed} {r : List (WithBot (List Nat))}
    (hs : ∀ a ∈ s, place call a.value = r) :
    s.Sublist (ordered call buffer) ↔ s.Sublist (withKeys call buffer) :=
  sublist_byRank_iff hs

section

variable (htexts : ∀ v ∈ buffer, IsTexts (keyOf call v))

include htexts

theorem compares_of_texts {v w : Value} (hv : v ∈ buffer) (hw : w ∈ buffer) :
    (compareKeys (keyOf call v) (keyOf call w)).Compares (place call v) (place call w) := by
  have hcolumns : HasColumns (buffer.map (keyOf call)) :=
    hasColumns_of_isTexts (List.forall_mem_map.mpr htexts)
  exact hcolumns.compares (List.mem_map_of_mem hv) (List.mem_map_of_mem hw) (length_keyOf call v w)

theorem looselyEqual_keys_iff {v : Value} (hv : v ∈ buffer) (w : Value) :
    LooselyEqual (keyOf call v) (keyOf call w) ↔ foldKey (keyOf call v) = foldKey (keyOf call w) :=
  looselyEqual_iff (htexts v hv) (length_keyOf call v w)

/-- Objects whose keys are the same up to ASCII case have the same place. -/
theorem place_eq_of_foldKey {v w : Value} (hv : v ∈ buffer) (hw : w ∈ buffer)
    (hfold : foldKey (keyOf call v) = foldKey (keyOf call w)) : place call v = place call w := by
  rw [place, place, map_rank_eq (htexts v hv), map_rank_eq (htexts w hw), hfold]

theorem repeats_ordered : ∀ a ∈ ordered call buffer, ∀ b ∈ ordered call buffer,
    repeats a.key b.key = true
      ↔ foldKey (keyOf call a.value) = foldKey (keyOf call b.value) := by
  intro a ha b hb
  obtain ⟨hav, hak⟩ := mem_ordered ha
  obtain ⟨-, hbk⟩ := mem_ordered hb
  rw [repeats_iff, hak, hbk]
  exact looselyEqual_keys_iff htexts hav b.value

/-- Without repetitions, the command writes the ordered objects that do not repeat the one before.
-/
theorem sorted_eq_unique (hunique : call.parameters.switch "Unique" = true) :
    sorted call buffer = (unique (ordered call buffer)).map Keyed.value := by
  have hwritten := sorted_eq fun v hv w hw => compares_of_texts htexts hv hw
  rw [hunique, if_pos rfl] at hwritten
  exact hwritten

/-- A key that comes back in the input comes back in the order in which objects are written. -/
theorem exists_of_comesBack (h : ComesBack (keyOf call) buffer) : ∃ x y, x ≠ y
    ∧ [x, y, x].Sublist ((ordered call buffer).map fun a => foldKey (keyOf call a.value)) := by
  obtain ⟨u, v, w, hsublist, hsame, htie, hother⟩ := h
  obtain ⟨hu, hv, hw⟩ : u ∈ buffer ∧ v ∈ buffer ∧ w ∈ buffer := by
    have hmem := hsublist.subset
    simp only [List.cons_subset] at hmem
    exact ⟨hmem.1, hmem.2.1, hmem.2.2.1⟩
  rw [looselyEqual_keys_iff htexts hu] at hsame hother
  have hplaces : ∀ a ∈ withKeys call [u, v, w], place call a.value = place call u := by
    have htied : place call u = place call v := (compares_of_texts htexts hu hv).eq_eq.mp htie
    have hback := place_eq_of_foldKey htexts hu hw hsame
    simp [withKeys, ← htied, ← hback]
  have hordered := (sublist_ordered_iff hplaces).mpr (hsublist.map _)
  refine ⟨_, _, hother, ?_⟩
  have hclasses := hordered.map fun a => foldKey (keyOf call a.value)
  simp only [withKeys, List.map_cons, List.map_nil, ← hsame] at hclasses
  exact hclasses

omit htexts in
/-- What stands between two objects of one place is of that place too. -/
theorem place_eq_of_between {a b c : Keyed} (hs : [a, b, c].Sublist (ordered call buffer))
    (hback : place call a.value = place call c.value) : place call a.value = place call b.value := by
  have hsorted := (pairwise_byRank _ (place call ·.value) (withKeys call buffer)).sublist hs
  obtain ⟨hbefore, hafter⟩ := List.pairwise_cons.mp hsorted
  have hlast := (List.pairwise_cons.mp hafter).1 c (by simp)
  rw [← hback] at hlast
  exact (hbefore b (by simp)).antisymm hlast

/-- A key that comes back in the order in which objects are written comes back in the input: the sort
keeps the order of the objects of one place. -/
theorem comesBack_of_sublist {x y : List (List Char)} (hne : x ≠ y)
    (h : [x, y, x].Sublist ((ordered call buffer).map fun a => foldKey (keyOf call a.value))) :
    ComesBack (keyOf call) buffer := by
  obtain ⟨s, hs, hclasses⟩ := List.sublist_map_iff.mp h
  obtain ⟨a, b, c, rfl⟩ : ∃ a b c, s = [a, b, c] := List.length_eq_three.mp (by
    rw [← List.length_map, ← hclasses]
    rfl)
  simp only [List.map_cons, List.map_nil, List.cons.injEq, and_true] at hclasses
  obtain ⟨rfl, rfl, hsame⟩ := hclasses
  have hinput (d : Keyed) (hd : d ∈ [a, b, c]) : d.value ∈ buffer := (mem_ordered (hs.subset hd)).1
  have hback := place_eq_of_foldKey htexts (hinput a (by simp)) (hinput c (by simp)) hsame
  have htied := place_eq_of_between hs hback
  have hplaces : ∀ d ∈ [a, b, c], place call d.value = place call a.value := by
    simp [← htied, ← hback]
  have hcame := ((sublist_ordered_iff hplaces).mp hs).map Keyed.value
  rw [values_withKeys] at hcame
  refine ⟨a.value, b.value, c.value, hcame, ?_, ?_, ?_⟩
  · exact (looselyEqual_keys_iff htexts (hinput a (by simp)) _).mpr hsame
  · exact (compares_of_texts htexts (hinput a (by simp)) (hinput b (by simp))).eq_eq.mpr htied
  · exact (looselyEqual_keys_iff htexts (hinput a (by simp)) _).not.mpr hne

/-- A key comes back in the input exactly where it does in the order in which objects are written. -/
theorem comesBack_iff : ComesBack (keyOf call) buffer ↔ ∃ x y, x ≠ y
    ∧ [x, y, x].Sublist ((ordered call buffer).map fun a => foldKey (keyOf call a.value)) :=
  ⟨exists_of_comesBack htexts, fun ⟨_, _, hne, h⟩ => comesBack_of_sublist htexts hne h⟩

/-- What is left has no repetitions exactly if no key comes back. -/
theorem deduplicated_iff (hunique : call.parameters.switch "Unique" = true) :
    Deduplicated (keyOf call) buffer (sorted call buffer) ↔ ¬ ComesBack (keyOf call) buffer := by
  have hmem (a : Keyed) (ha : a ∈ unique (ordered call buffer)) : a.value ∈ buffer :=
    (mem_ordered ((unique_sublist _).subset ha)).1
  have hdistinct : ((unique (ordered call buffer)).map Keyed.value).Pairwise
        (fun v w => ¬ LooselyEqual (keyOf call v) (keyOf call w))
      ↔ ((unique (ordered call buffer)).map fun a => foldKey (keyOf call a.value)).Nodup := by
    rw [List.Nodup, List.pairwise_map, List.pairwise_map]
    exact List.Pairwise.iff_of_mem fun ha _ => not_congr (looselyEqual_keys_iff htexts (hmem _ ha) _)
  rw [comesBack_iff htexts, ← nodup_unique_iff (repeats_ordered htexts), sorted_eq_unique htexts hunique]
  refine ⟨fun h => hdistinct.mp h.distinct, fun hnodup => ⟨hdistinct.mpr hnodup, ?_, ?_⟩⟩
  · exact List.forall_mem_map.mpr hmem
  · intro v hv
    have hmember : (⟨keyOf call v, v⟩ : Keyed) ∈ ordered call buffer :=
      (byRank_perm _ _ _).mem_iff.mpr (List.mem_map_of_mem hv)
    have hone := List.count_eq_one_of_mem hnodup (mem_map_unique (repeats_ordered htexts) hmember)
    rw [List.count, List.countP_map] at hone
    rw [List.countP_map, ← hone]
    refine List.countP_congr fun a ha => ?_
    rw [Function.comp, decide_eq_true_iff, Function.comp, beq_iff_eq, eq_comm (a := foldKey _)]
    exact looselyEqual_keys_iff htexts hv a.value

end

end CommandChain.Builtin.Sorting
