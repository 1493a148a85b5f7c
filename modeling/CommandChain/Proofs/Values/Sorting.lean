import CommandChain.Builtin.Sorting
import Mathlib.Data.List.Lex
import Mathlib.Data.Ordering.Basic
import Mathlib.Order.Lattice
/-!
# Sorting by rank

The order of two values is not a linear order: some values have none, and these count as equal. But
where the keys of the objects at hand compare like the ranks of some linear order, the command sorts
by rank and leaves objects of one rank in the order in which they came. If keys repeat each other
exactly where the ranks are equal, the first object of each rank is what is left without repetitions:
objects of one rank are neighbours after the sort.
-/

namespace CommandChain.Builtin.Sorting

variable {ρ : Type} [LinearOrder ρ] {descending : Bool} {r s t : ρ}

/-- Whether something of rank `r` may stand before something of rank `s`. -/
def Before (descending : Bool) (r s : ρ) : Prop :=
  if descending then s ≤ r else r ≤ s

instance (descending : Bool) (r s : ρ) : Decidable (Before descending r s) :=
  inferInstanceAs (Decidable (if descending then s ≤ r else r ≤ s))

/-- The values by which a call sorts an object. -/
def keyOf (call : Call) (v : Value) : List Value :=
  sortKey (call.textList "Property") call.adapter v

/-- What the command writes for a buffer is sorted by rank and stable, and of the objects of one rank
all are there, or only the first if repetitions are dropped. -/
structure Sorts (call : Call) (buffer : List Value) (rank : Value → ρ) : Prop where
  inOrder : (sorted call buffer).Pairwise fun v w =>
    Before (call.parameters.switch "Descending") (rank v) (rank w)
  kept (r : ρ) : (sorted call buffer).filter (rank · = r)
    = if call.parameters.switch "Unique" then (buffer.filter (rank · = r)).take 1
      else buffer.filter (rank · = r)

/-- Of two ranks one may stand before the other. -/
theorem Before.total (descending : Bool) (r s : ρ) : Before descending r s ∨ Before descending s r := by
  cases descending
  · exact le_total r s
  · exact le_total s r

theorem Before.trans (h : Before descending r s) (h' : Before descending s t) :
    Before descending r t := by
  cases descending
  · exact le_trans (show r ≤ s from h) h'
  · exact le_trans (show t ≤ s from h') h

/-- Two ranks each of which may stand before the other are the same. -/
theorem Before.antisymm (h : Before descending r s) (h' : Before descending s r) : r = s := by
  cases descending
  · exact le_antisymm (show r ≤ s from h) h'
  · exact le_antisymm (show r ≤ s from h') h

theorem Before.refl (descending : Bool) (r : ρ) : Before descending r r := by
  cases descending <;> exact le_refl r

/-! ## Keys -/

/-- All objects have keys of one length: that of the properties to sort by. -/
theorem length_keyOf (call : Call) (v w : Value) : (keyOf call v).length = (keyOf call w).length := by
  unfold keyOf sortKey
  split
  · rfl
  · rw [List.length_map, List.length_map]

/-- The order of two lists is that of what follows an equal first element. -/
theorem compares_cons {o : Ordering} {rs ss : List ρ} (h : o.Compares rs ss) :
    o.Compares (r :: rs) (r :: ss) := by
  cases o with
  | lt => exact List.cons_lt_cons_iff.mpr (.inr ⟨rfl, h⟩)
  | eq => exact congrArg (r :: ·) h
  | gt => exact List.cons_lt_cons_iff.mpr (.inr ⟨rfl, h⟩)

section

variable {α : Type} {value : α → Value} {f : α → ρ} {as bs : List α}

/-- Keys are compared like the lists of what their columns are compared as. -/
theorem compareKeys_map (hlength : as.length = bs.length)
    (h : ∀ p ∈ as.zip bs, (value p.1).compare? (value p.2) = some (compare (f p.1) (f p.2))) :
    (compareKeys (as.map value) (bs.map value)).Compares (as.map f) (bs.map f) := by
  induction as generalizing bs with
  | nil =>
    obtain rfl := List.eq_nil_of_length_eq_zero hlength.symm
    rfl
  | cons a as ih =>
    obtain ⟨b, bs, rfl⟩ := List.exists_cons_of_length_eq_add_one hlength.symm
    have hrest := ih (Nat.succ.inj hlength) fun p hp => h p (List.mem_cons_of_mem _ hp)
    rw [List.map_cons, List.map_cons, compareKeys, h (a, b) List.mem_cons_self, Option.getD_some]
    rcases lt_trichotomy (f a) (f b) with hless | hequal | hmore
    · rw [compare_lt_iff_lt.mpr hless]
      exact List.cons_lt_cons_iff.mpr (.inl hless)
    · rw [compare_eq_iff_eq.mpr hequal, List.map_cons, List.map_cons, hequal]
      exact compares_cons hrest
    · rw [compare_gt_iff_gt.mpr hmore]
      exact List.cons_lt_cons_iff.mpr (.inl hmore)

omit [LinearOrder ρ] in
/-- Keys whose values are equal as their images are repetitions exactly if the images are the same.
-/
theorem repeats_map (hlength : as.length = bs.length)
    (h : ∀ p ∈ as.zip bs, (value p.1).looseEq (value p.2) = true ↔ f p.1 = f p.2) :
    repeats (as.map value) (bs.map value) = true ↔ as.map f = bs.map f := by
  induction as generalizing bs with
  | nil =>
    obtain rfl := List.eq_nil_of_length_eq_zero hlength.symm
    exact iff_of_true rfl rfl
  | cons a as ih =>
    obtain ⟨b, bs, rfl⟩ := List.exists_cons_of_length_eq_add_one hlength.symm
    have hrest := ih (Nat.succ.inj hlength) fun p hp => h p (List.mem_cons_of_mem _ hp)
    simp only [List.map_cons, repeats, Bool.and_eq_true, hrest, h (a, b) List.mem_cons_self,
      List.cons.injEq]

end

/-! ## The stable sort -/

section

variable {rank : Keyed → ρ} {a b last : Keyed} {l : List Keyed}

/-- The comparison of keyed objects goes by rank, if the comparison of their keys does. -/
theorem comesBefore_eq (descending : Bool)
    (h : (compareKeys a.key b.key).Compares (rank a) (rank b)) :
    comesBefore descending a b = decide (Before descending (rank a) (rank b)) := by
  unfold comesBefore Before
  generalize compareKeys a.key b.key = order at h
  cases order
  case lt =>
    have hlt : rank a < rank b := h
    cases descending <;> simp [hlt.le, hlt.not_ge]
  case eq =>
    have heq : rank a = rank b := h
    cases descending <;> simp [heq]
  case gt =>
    have hgt : rank b < rank a := h
    cases descending <;> simp [hgt.le, hgt.not_ge]

/-- The stable sort by rank. -/
def byRank (descending : Bool) (rank : Keyed → ρ) (l : List Keyed) : List Keyed :=
  l.mergeSort fun a b => decide (Before descending (rank a) (rank b))

/-- Sorting by the comparison of keys is the stable sort by rank, if they agree on the objects. -/
theorem mergeSort_comesBefore
    (h : ∀ a ∈ l, ∀ b ∈ l, (compareKeys a.key b.key).Compares (rank a) (rank b)) :
    l.mergeSort (comesBefore descending) = byRank descending rank l := by
  have hagree : ∀ a ∈ l, ∀ b ∈ l, comesBefore descending a b
      = decide (Before descending (rank (id a)) (rank (id b))) :=
    fun a ha b hb => comesBefore_eq descending (h a ha b hb)
  have hmap := List.map_mergeSort
    (s := fun a b => decide (Before descending (rank a) (rank b))) hagree
  rwa [List.map_id, List.map_id] at hmap

/-- Standing before by rank is transitive. -/
theorem before_trans (descending : Bool) (rank : Keyed → ρ) (a b c : Keyed)
    (hab : decide (Before descending (rank a) (rank b)) = true)
    (hbc : decide (Before descending (rank b) (rank c)) = true) :
    decide (Before descending (rank a) (rank c)) = true :=
  decide_eq_true ((of_decide_eq_true hab).trans (of_decide_eq_true hbc))

/-- Standing before by rank is total. -/
theorem before_total (descending : Bool) (rank : Keyed → ρ) (a b : Keyed) :
    (decide (Before descending (rank a) (rank b))
      || decide (Before descending (rank b) (rank a))) = true := by
  rw [Bool.or_eq_true, decide_eq_true_iff, decide_eq_true_iff]
  exact Before.total descending _ _

/-- The sort by rank puts objects in the order of their ranks. -/
theorem pairwise_byRank (descending : Bool) (rank : Keyed → ρ) (l : List Keyed) :
    (byRank descending rank l).Pairwise fun a b => Before descending (rank a) (rank b) :=
  (List.pairwise_mergeSort (before_trans descending rank) (before_total descending rank) l).imp
    of_decide_eq_true

/-- The sort by rank only rearranges objects. -/
theorem byRank_perm (descending : Bool) (rank : Keyed → ρ) (l : List Keyed) :
    (byRank descending rank l).Perm l :=
  List.mergeSort_perm l _

/-- Objects of one rank stay in the order in which they came. -/
theorem filter_byRank (descending : Bool) (rank : Keyed → ρ) (l : List Keyed) (r : ρ) :
    (byRank descending rank l).filter (rank · = r) = l.filter (rank · = r) := by
  have halike : (l.filter (rank · = r)).Pairwise fun a b =>
      decide (Before descending (rank a) (rank b)) = true := by
    refine List.pairwise_of_forall_mem_list fun a ha b hb => decide_eq_true ?_
    have harank : rank a = r := of_decide_eq_true (List.mem_filter.mp ha).2
    have hbrank : rank b = r := of_decide_eq_true (List.mem_filter.mp hb).2
    rw [harank, hbrank]
    exact Before.refl descending r
  have hstable : (l.filter (rank · = r)).Sublist (byRank descending rank l) :=
    List.sublist_mergeSort (before_trans descending rank) (before_total descending rank) halike
      List.filter_sublist
  have hfiltered : (l.filter (rank · = r)).Sublist ((byRank descending rank l).filter (rank · = r)) := by
    have hagain := hstable.filter (rank · = r)
    rwa [List.filter_filter, List.filter_congr fun a _ => Bool.and_self _] at hagain
  exact (hfiltered.eq_of_length ((byRank_perm descending rank l).filter _).length_eq.symm).symm

/-- Objects of one rank come in the same order before and after the sort. -/
theorem sublist_byRank_iff {s : List Keyed} {r : ρ} (hs : ∀ a ∈ s, rank a = r) :
    s.Sublist (byRank descending rank l) ↔ s.Sublist l := by
  have hself : s.filter (rank · = r) = s :=
    List.filter_eq_self.mpr fun a ha => decide_eq_true (hs a ha)
  have hsame := filter_byRank descending rank l r
  constructor
  · intro h
    have hfiltered := h.filter (rank · = r)
    rw [hself, hsame] at hfiltered
    exact hfiltered.trans List.filter_sublist
  · intro h
    have hfiltered := h.filter (rank · = r)
    rw [hself, ← hsame] at hfiltered
    exact hfiltered.trans List.filter_sublist

/-! ## Repetitions -/

/-- Dropping repetitions only leaves objects out. -/
theorem dropRepeats_sublist (last : Keyed) (l : List Keyed) : (dropRepeats last l).Sublist l := by
  induction l generalizing last with
  | nil => exact List.Sublist.slnil
  | cons a rest ih =>
    rw [dropRepeats]
    split
    · exact (ih last).cons a
    · exact (ih a).cons_cons a

/-- Behind an object that stays, the first object of each other rank stays. -/
theorem filter_dropRepeats
    (hrepeats : ∀ a ∈ last :: l, ∀ b ∈ last :: l, repeats a.key b.key = true ↔ rank a = rank b)
    (hsorted : (last :: l).Pairwise fun a b => Before descending (rank a) (rank b)) (r : ρ) :
    (dropRepeats last l).filter (rank · = r)
      = if rank last = r then [] else (l.filter (rank · = r)).take 1 := by
  induction l generalizing last with
  | nil => simp [dropRepeats]
  | cons a rest ih =>
    rw [dropRepeats]
    split
    case isTrue hrepeat =>
      have hrank : rank a = rank last := (hrepeats a (by simp) last (by simp)).mp hrepeat
      rw [ih (fun b hb c hc => hrepeats b (by grind) c (by grind)) (hsorted.sublist (by simp))]
      by_cases hr : rank last = r
      · rw [if_pos hr, if_pos hr]
      · rw [if_neg hr, if_neg hr, List.filter_cons_of_neg (by simpa [hrank] using hr)]
    case isFalse hnew =>
      have hrank : rank a ≠ rank last := fun hrank =>
        hnew ((hrepeats a (by simp) last (by simp)).mpr hrank)
      have hrest := ih (fun b hb c hc => hrepeats b (by grind) c (by grind)) (List.Pairwise.of_cons hsorted)
      by_cases hr : rank a = r
      · rw [List.filter_cons_of_pos (by simpa using hr), hrest, if_pos hr,
          if_neg (by rw [← hr]; exact hrank.symm), List.filter_cons_of_pos (by simpa using hr)]
        rfl
      · rw [List.filter_cons_of_neg (by simpa using hr), hrest, if_neg hr,
          List.filter_cons_of_neg (by simpa using hr)]
        split
        case isFalse => rfl
        case isTrue hlastr =>
          -- What has the rank of the last object that stays stands before what has a new rank.
          have hnone : rest.filter (rank · = r) = [] := by
            rw [List.filter_eq_nil_iff]
            intro b hb hbr
            have hab := List.rel_of_pairwise_cons (List.Pairwise.of_cons hsorted) hb
            rw [of_decide_eq_true hbr, ← hlastr] at hab
            have hla := List.rel_of_pairwise_cons hsorted (List.mem_cons_self : a ∈ a :: rest)
            exact hrank (hab.antisymm hla)
          rw [hnone]
          rfl

/-- The first object of each rank stays. -/
theorem filter_unique
    (hrepeats : ∀ a ∈ l, ∀ b ∈ l, repeats a.key b.key = true ↔ rank a = rank b)
    (hsorted : l.Pairwise fun a b => Before descending (rank a) (rank b)) (r : ρ) :
    (unique l).filter (rank · = r) = (l.filter (rank · = r)).take 1 := by
  cases l with
  | nil => rfl
  | cons a rest =>
    rw [unique]
    have hrest := filter_dropRepeats hrepeats hsorted r
    by_cases hr : rank a = r
    · rw [List.filter_cons_of_pos (by simpa using hr), hrest, if_pos hr,
        List.filter_cons_of_pos (by simpa using hr)]
      rfl
    · rw [List.filter_cons_of_neg (by simpa using hr), hrest, if_neg hr,
        List.filter_cons_of_neg (by simpa using hr)]

/-- The objects without repetitions are some of the objects, in order. -/
theorem unique_sublist (l : List Keyed) : (unique l).Sublist l := by
  cases l with
  | nil => exact List.Sublist.slnil
  | cons a rest => exact (dropRepeats_sublist a rest).cons_cons a

end

/-! ## The command -/

/-- The objects of a buffer with their keys. -/
def withKeys (call : Call) (buffer : List Value) : List Keyed :=
  buffer.map fun v => ⟨keyOf call v, v⟩

/-- A keyed object of a buffer is one of its objects, with the key of that. -/
theorem exists_of_mem_withKeys {call : Call} {buffer : List Value} {a : Keyed}
    (h : a ∈ withKeys call buffer) :
    a.value ∈ buffer ∧ a.key = keyOf call a.value := by
  obtain ⟨v, hv, rfl⟩ := List.mem_map.mp h
  exact ⟨hv, rfl⟩

/-- The objects of a buffer with their keys are the objects of the buffer. -/
theorem values_withKeys (call : Call) (buffer : List Value) :
    (withKeys call buffer).map Keyed.value = buffer := by
  rw [withKeys, List.map_map]
  exact List.map_id _

/-- Filtering keyed objects by the object filters the buffer. -/
theorem values_filter_withKeys (call : Call) (buffer : List Value) (p : Value → Bool) :
    ((withKeys call buffer).filter (p ·.value)).map Keyed.value = buffer.filter p := by
  rw [withKeys, List.filter_map, List.map_map]
  exact List.map_id _

variable {call : Call} {buffer : List Value} {rank : Value → ρ}

/-- What the command writes, in terms of the ranks. -/
theorem sorted_eq
    (hcompares : ∀ v ∈ buffer, ∀ w ∈ buffer,
      (compareKeys (keyOf call v) (keyOf call w)).Compares (rank v) (rank w)) :
    sorted call buffer
      = (if call.parameters.switch "Unique"
          then unique (byRank (call.parameters.switch "Descending") (rank ·.value) (withKeys call buffer))
          else byRank (call.parameters.switch "Descending") (rank ·.value) (withKeys call buffer)).map
        Keyed.value := by
  rw [← mergeSort_comesBefore]
  · rfl
  · intro a ha b hb
    obtain ⟨hav, hak⟩ := exists_of_mem_withKeys ha
    obtain ⟨hbv, hbk⟩ := exists_of_mem_withKeys hb
    rw [hak, hbk]
    exact hcompares _ hav _ hbv

/-- The command sorts by ranks that the keys of its objects compare like. -/
theorem sorts_of_compares
    (hcompares : ∀ v ∈ buffer, ∀ w ∈ buffer,
      (compareKeys (keyOf call v) (keyOf call w)).Compares (rank v) (rank w))
    (hrepeats : call.parameters.switch "Unique" = true → ∀ v ∈ buffer, ∀ w ∈ buffer,
      repeats (keyOf call v) (keyOf call w) = true ↔ rank v = rank w) :
    Sorts call buffer rank := by
  have hwritten := sorted_eq hcompares
  generalize hordered : byRank (call.parameters.switch "Descending") (rank ·.value)
    (withKeys call buffer) = ordered at hwritten
  have hinOrder : ordered.Pairwise fun a b =>
      Before (call.parameters.switch "Descending") (rank a.value) (rank b.value) := by
    rw [← hordered]
    exact pairwise_byRank _ _ _
  have hstable (r : ρ) : ordered.filter (fun a => decide (rank a.value = r))
      = (withKeys call buffer).filter fun a => decide (rank a.value = r) := by
    rw [← hordered]
    exact filter_byRank _ (rank ·.value) _ r
  have hmem (a : Keyed) (ha : a ∈ ordered) : a.value ∈ buffer ∧ a.key = keyOf call a.value := by
    rw [← hordered, (byRank_perm _ _ _).mem_iff] at ha
    exact exists_of_mem_withKeys ha
  constructor
  case inOrder =>
    rw [hwritten, List.pairwise_map]
    split
    · exact hinOrder.sublist (unique_sublist _)
    · exact hinOrder
  case kept =>
    intro r
    rw [hwritten, List.filter_map]
    split
    case isTrue hunique =>
      have hfirst := filter_unique (fun a ha b hb => by
        rw [(hmem a ha).2, (hmem b hb).2]
        exact hrepeats hunique _ (hmem a ha).1 _ (hmem b hb).1) hinOrder r
      rw [hstable r] at hfirst
      calc ((unique ordered).filter fun a => decide (rank a.value = r)).map Keyed.value
          = (((withKeys call buffer).filter fun a => decide (rank a.value = r)).take 1).map Keyed.value :=
            congrArg (List.map Keyed.value) hfirst
        _ = (buffer.filter (rank · = r)).take 1 := by
            rw [List.map_take, values_filter_withKeys call buffer (rank · = r)]
    case isFalse =>
      calc (ordered.filter fun a => decide (rank a.value = r)).map Keyed.value
          = ((withKeys call buffer).filter fun a => decide (rank a.value = r)).map Keyed.value :=
            congrArg (List.map Keyed.value) (hstable r)
        _ = buffer.filter (rank · = r) := values_filter_withKeys call buffer (rank · = r)

/-- No rank is lost. -/
theorem Sorts.exists_of_mem {v : Value} (h : Sorts call buffer rank) (hv : v ∈ buffer) :
    ∃ w ∈ sorted call buffer, rank w = rank v := by
  have hmem : v ∈ buffer.filter (rank · = rank v) := List.mem_filter.mpr ⟨hv, decide_eq_true rfl⟩
  have hne : (sorted call buffer).filter (rank · = rank v) ≠ [] := by
    rw [h.kept]
    split
    · rw [ne_eq, List.take_eq_nil_iff]
      rintro (hone | hnil)
      · cases hone
      · exact List.ne_nil_of_mem hmem hnil
    · exact List.ne_nil_of_mem hmem
  obtain ⟨w, hw⟩ := List.exists_mem_of_ne_nil _ hne
  obtain ⟨hsorted, hrank⟩ := List.mem_filter.mp hw
  exact ⟨w, hsorted, of_decide_eq_true hrank⟩

end CommandChain.Builtin.Sorting
