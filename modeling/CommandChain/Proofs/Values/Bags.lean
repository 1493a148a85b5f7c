import CommandChain.Proofs.Values.Bytes
import CommandChain.Value.Basic
/-!
# Lists in the order of their names

Property bags, the maps of scripts and the commands of the host are lists in the order of their names,
each name once. Putting an entry into such a list keeps it one, and changes what is found under that
name only.
-/

namespace CommandChain

namespace Text

/-- The names are in the order of their bytes, so that none of them comes twice. -/
def Increasing (names : List String) : Prop :=
  names.Pairwise fun s t => bytes s < bytes t

/-- Names in increasing order are all different. -/
theorem Increasing.nodup {names : List String} (h : Increasing names) : names.Nodup := by
  refine List.Pairwise.imp (fun {s t} hless => ?_) h
  rintro rfl
  exact List.lt_irrefl _ hless

end Text

namespace Value

universe u v

variable {α : Type u} {β : Type v} {name key : String} {entries : List (String × α)}

/-- Looking a key up finds the first entry if that has the key, and looks on otherwise. -/
theorem lookup_cons_ite (key other : String) (a : α) (entries : List (String × α)) :
    ((other, a) :: entries).lookup key = if key = other then some a else entries.lookup key := by
  rw [List.lookup_cons]
  by_cases hkey : key = other
  · rw [if_pos hkey, beq_iff_eq.mpr hkey]
  · rw [if_neg hkey, beq_eq_false_iff_ne.mpr hkey]

/-- An entry of a bag after an insertion is the one inserted or was there before. -/
theorem mem_insertProperty {a : α} {entry : String × α} (h : entry ∈ insertProperty name a entries) :
    entry = (name, a) ∨ entry ∈ entries := by
  induction entries with
  | nil => exact .inl (List.mem_singleton.mp h)
  | cons first entries ih =>
    obtain ⟨other, old⟩ := first
    rw [insertProperty] at h
    cases horder : Text.compareText name other with
    | lt =>
      rw [horder] at h
      exact List.mem_cons.mp h
    | eq =>
      rw [horder] at h
      exact (List.mem_cons.mp h).imp_right (List.mem_cons_of_mem _)
    | gt =>
      rw [horder] at h
      rcases List.mem_cons.mp h with rfl | htail
      · exact .inr List.mem_cons_self
      · exact (ih htail).imp_right (List.mem_cons_of_mem _)

/-- An entry is put where its name belongs. -/
theorem increasing_insertProperty (h : Text.Increasing (entries.map Prod.fst)) (name : String) (a : α) :
    Text.Increasing ((insertProperty name a entries).map Prod.fst) := by
  induction entries with
  | nil => exact List.pairwise_singleton _ name
  | cons entry entries ih =>
    obtain ⟨other, old⟩ := entry
    obtain ⟨hfirst, hrest⟩ := List.pairwise_cons.mp h
    rw [insertProperty]
    cases horder : Text.compareText name other with
    | lt =>
      have hless := Text.bytes_lt_of_lt horder
      refine List.pairwise_cons.mpr ⟨fun key hkey => ?_, h⟩
      rcases List.mem_cons.mp hkey with rfl | htail
      · exact hless
      · exact List.lt_trans hless (hfirst key htail)
    | eq =>
      obtain rfl : name = other := Text.compareText_eq_iff.mp horder
      exact h
    | gt =>
      refine List.pairwise_cons.mpr ⟨fun key hkey => ?_, ih hrest⟩
      obtain ⟨later, hlater, rfl⟩ := List.mem_map.mp hkey
      rcases mem_insertProperty hlater with rfl | htail
      · exact Text.bytes_lt_of_gt horder
      · exact hfirst later.1 (List.mem_map_of_mem htail)

/-- An entry is found under its name, in the place of an earlier one, and all others are found as
before. -/
theorem lookup_insertProperty (name key : String) (a : α) (entries : List (String × α)) :
    (insertProperty name a entries).lookup key
      = if key = name then some a else entries.lookup key := by
  induction entries with
  | nil => exact lookup_cons_ite key name a []
  | cons entry entries ih =>
    obtain ⟨other, old⟩ := entry
    rw [insertProperty]
    cases horder : Text.compareText name other with
    | lt => exact lookup_cons_ite key name a _
    | eq =>
      obtain rfl : name = other := Text.compareText_eq_iff.mp horder
      rw [lookup_cons_ite, lookup_cons_ite]
      split <;> rfl
    | gt =>
      have hother : name ≠ other := fun hequal => by
        rw [Text.compareText_eq_iff.mpr hequal] at horder
        cases horder
      rw [lookup_cons_ite, lookup_cons_ite, ih]
      by_cases hkey : key = other
      · rw [if_pos hkey, if_pos hkey, if_neg (hkey ▸ hother.symm)]
      · rw [if_neg hkey, if_neg hkey]

/-- What is in the list is what is found in it. -/
theorem mem_iff_lookup (h : (entries.map Prod.fst).Nodup) {a : α} :
    (key, a) ∈ entries ↔ entries.lookup key = some a := by
  induction entries with
  | nil => exact iff_of_false List.not_mem_nil nofun
  | cons entry entries ih =>
    obtain ⟨other, old⟩ := entry
    obtain ⟨hfirst, hrest⟩ := List.nodup_cons.mp h
    rw [List.mem_cons, Prod.mk.injEq, lookup_cons_ite]
    by_cases hkey : key = other
    · subst hkey
      have hlater : (key, a) ∉ entries := fun hmem =>
        hfirst (List.mem_map.mpr ⟨(key, a), hmem, rfl⟩)
      simp [hlater, eq_comm]
    · simp [hkey, ih hrest]

/-- A function of the entries does not see the order in which they are put together. -/
theorem map_insertProperty (f : α → β) (name : String) (a : α) (entries : List (String × α)) :
    (insertProperty name a entries).map (Prod.map id f)
      = insertProperty name (f a) (entries.map (Prod.map id f)) := by
  induction entries with
  | nil => rfl
  | cons entry entries ih =>
    obtain ⟨other, old⟩ := entry
    rw [List.map_cons, Prod.map_apply, id, insertProperty, insertProperty]
    cases Text.compareText name other with
    | lt => rfl
    | eq => rfl
    | gt => exact congrArg _ ih

end Value

end CommandChain
