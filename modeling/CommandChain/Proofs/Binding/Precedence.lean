import CommandChain.Proofs.Binding.Order
/-!
# Which parameters take an object

One parameter may take the object itself: the earliest whose own type the object has, or else the
earliest that takes any value, or else the earliest whose type the object converts to. Others take the
property of their name, or of their first alias that the object has a property for. Both are said here
without the steps of binding, which are then shown to find them.
-/

namespace CommandChain

/-! ## The earliest member of a list -/

section

variable {α : Type} {P Q : α → Prop} {a b : α} {as : List α}

/-- A member of a list is the first with a property. -/
def Earliest (P : α → Prop) (as : List α) (a : α) : Prop :=
  ∃ before after, as = before ++ a :: after ∧ P a ∧ ∀ b ∈ before, ¬ P b

/-- An empty list has no first member with a property. -/
theorem not_earliest_nil : ¬ Earliest P [] a := by
  rintro ⟨before, after, h, -⟩
  simp at h

/-- If the head of a list has a property, it is the first that does. -/
theorem earliest_cons_self (h : P a) : Earliest P (a :: as) b ↔ a = b := by
  constructor
  · rintro ⟨before, after, hlist, -, hbefore⟩
    cases before with
    | nil => exact (List.cons.inj hlist).1
    | cons c before =>
      cases (List.cons.inj hlist).1
      exact absurd h (hbefore a (.head _))
  · rintro rfl
    exact ⟨[], as, rfl, h, by simp⟩

/-- If the head of a list lacks a property, the first with it is sought behind. -/
theorem earliest_cons_of_not (h : ¬ P a) : Earliest P (a :: as) b ↔ Earliest P as b := by
  constructor
  · rintro ⟨before, after, hlist, hb, hbefore⟩
    cases before with
    | nil =>
      cases (List.cons.inj hlist).1
      exact absurd hb h
    | cons c before => exact ⟨before, after, (List.cons.inj hlist).2, hb,
        fun d hd => hbefore d (.tail _ hd)⟩
  · rintro ⟨before, after, rfl, hb, hbefore⟩
    exact ⟨a :: before, after, rfl, hb, List.forall_mem_cons.mpr ⟨h, hbefore⟩⟩

theorem Earliest.mem (h : Earliest P as a) : a ∈ as := by
  obtain ⟨before, after, rfl, -⟩ := h
  simp

theorem Earliest.holds (h : Earliest P as a) : P a :=
  h.choose_spec.choose_spec.2.1

/-- A list has at most one first member with a property. -/
theorem Earliest.unique (h : Earliest P as a) (h' : Earliest P as b) : a = b := by
  induction as with
  | nil => exact absurd h not_earliest_nil
  | cons c as ih =>
    by_cases hc : P c
    · exact ((earliest_cons_self hc).mp h).symm.trans ((earliest_cons_self hc).mp h')
    · exact ih ((earliest_cons_of_not hc).mp h) ((earliest_cons_of_not hc).mp h')

/-- The first member with a property depends on the property over the members only. -/
theorem earliest_congr (h : ∀ a ∈ as, P a ↔ Q a) : Earliest P as b ↔ Earliest Q as b := by
  induction as with
  | nil => exact iff_of_false not_earliest_nil not_earliest_nil
  | cons c as ih =>
    obtain ⟨hhead, htail⟩ := List.forall_mem_cons.mp h
    by_cases hc : P c
    · rw [earliest_cons_self hc, earliest_cons_self (hhead.mp hc)]
    · rw [earliest_cons_of_not hc, earliest_cons_of_not (mt hhead.mpr hc), ih htail]

/-- The first member of a filtered list is the first member of the list that passes the filter too.
-/
theorem earliest_filter_iff {keep : α → Bool} :
    Earliest P (as.filter keep) b ↔ Earliest (fun a => keep a = true ∧ P a) as b := by
  induction as with
  | nil => exact iff_of_false not_earliest_nil not_earliest_nil
  | cons c as ih =>
    by_cases hkeep : keep c = true
    · rw [List.filter_cons_of_pos hkeep]
      by_cases hc : P c
      · rw [earliest_cons_self hc, earliest_cons_self ⟨hkeep, hc⟩]
      · rw [earliest_cons_of_not hc, earliest_cons_of_not fun h => hc h.2, ih]
    · rw [List.filter_cons_of_neg hkeep, earliest_cons_of_not fun h => hkeep h.1, ih]

/-- Searching a list finds the first member with the property that the search tests for. -/
theorem find?_eq_some_iff_earliest {test : α → Bool} (h : ∀ a ∈ as, test a = true ↔ P a) :
    as.find? test = some b ↔ Earliest P as b := by
  rw [List.find?_eq_some_iff_append, ← earliest_congr h]
  constructor
  · rintro ⟨hb, before, after, hlist, hbefore⟩
    exact ⟨before, after, hlist, hb, fun c hc => by simpa using hbefore c hc⟩
  · rintro ⟨before, after, hlist, hb, hbefore⟩
    exact ⟨hb, before, after, hlist, fun c hc => by simpa using hbefore c hc⟩

end

/-- The names of a table are all different, whatever their case. -/
def Parameter.NamesApart (table : List Parameter) : Prop :=
  (table.map fun p => Text.foldCase p.name).Nodup

instance (table : List Parameter) : Decidable (Parameter.NamesApart table) :=
  inferInstanceAs (Decidable (List.Nodup _))

/-- In a table whose names differ, two parameters have different names up to case. -/
theorem Parameter.NamesApart.sameName_eq_false {table : List Parameter}
    (h : Parameter.NamesApart table) {p q : Parameter} (hp : p ∈ table) (hq : q ∈ table)
    (hne : p ≠ q) : Text.sameName p.name q.name = false := by
  rw [← Bool.not_eq_true, Text.sameName_iff]
  exact fun hsame => hne (List.inj_on_of_nodup_map h hp hq hsame)

/-- A table whose names differ lists no parameter twice. -/
theorem Parameter.NamesApart.nodup {table : List Parameter} (h : Parameter.NamesApart table) :
    table.Nodup :=
  List.Nodup.of_map _ h

namespace Binder

variable (binder : Binder) (static : BoundParameters) (input : Value)

/-! ## What an object supplies -/

/-- A parameter takes objects in a certain way, and no argument has bound it. -/
def Free (static : BoundParameters) (way : PipelineInput) (p : Parameter) : Prop :=
  p.pipeline = way ∧ static.contains p.name = false

/-- A parameter that is free for an object as a whole has a certain property. -/
def FreeWith (static : BoundParameters) (P : Parameter → Prop) (p : Parameter) : Prop :=
  Free static .byValue p ∧ P p

/-- The parameter that takes the object as a whole, and the value it takes. -/
inductive TakesWhole : Parameter → Value → Prop
  | exact {p : Parameter}
    (h : Earliest (FreeWith static fun q => input.valueType = some q.type) binder.parameters p) :
    TakesWhole p input
  | any {p : Parameter}
    (hexact : ∀ q ∈ binder.parameters, ¬ FreeWith static (fun q => input.valueType = some q.type) q)
    (h : Earliest (FreeWith static fun q => q.type = .any) binder.parameters p) :
    TakesWhole p input
  | converted {p : Parameter} {v : Value}
    (hexact : ∀ q ∈ binder.parameters, ¬ FreeWith static (fun q => input.valueType = some q.type) q)
    (hany : ∀ q ∈ binder.parameters, ¬ FreeWith static (fun q => q.type = .any) q)
    (h : Earliest (FreeWith static fun q => ∃ w, binder.adapter.convertTo input q.type = .ok w)
      binder.parameters p)
    (hv : binder.adapter.convertTo input p.type = .ok v) : TakesWhole p v

/-- The property of an object for a parameter: that of the name, or else that of the first alias that the
object has one for. -/
inductive Supplies (p : Parameter) : Value → Prop
  | byName {v : Value} (h : binder.adapter.property? input p.name = some v) : Supplies p v
  | byAlias {label : String} {v : Value} (hname : binder.adapter.property? input p.name = none)
    (h : Earliest (fun label => binder.adapter.property? input label ≠ none) p.aliases label)
    (hv : binder.adapter.property? input label = some v) : Supplies p v

/-- What a property becomes as the value of a parameter. -/
inductive Becomes (p : Parameter) : Value → Value → Prop
  | null : Becomes p .null .null
  | converted {v w : Value} (hv : v ≠ .null) (h : binder.adapter.convertTo v p.type = .ok w) :
    Becomes p v w

/-- An entry is that of a property of an object. -/
def PropertyEntry (p : Parameter) (e : BoundParameter) : Prop :=
  ∃ v, binder.Supplies input p v ∧ binder.Becomes p v e.value ∧ e.name = p.name
    ∧ e.source = .pipelineByPropertyName

/-- A parameter takes a property of an object. -/
def TakesProperty (p : Parameter) : Prop :=
  Free static .byPropertyName p ∧ ∃ v, binder.Supplies input p v

/-- A parameter is bound from an object. -/
def Served (p : Parameter) : Prop :=
  (∃ v, binder.TakesWhole static input p v) ∨ binder.TakesProperty static input p

/-- The property of an object for a parameter is not null and does not convert. -/
def Unconvertible (p : Parameter) : Prop :=
  ∃ v, binder.Supplies input p v ∧ v ≠ .null ∧ ∀ w, binder.adapter.convertTo v p.type ≠ .ok w

/-- A parameter takes a property that does not convert. -/
def Fails (p : Parameter) : Prop :=
  Free static .byPropertyName p ∧ binder.Unconvertible input p

variable {binder static input} {bound : BoundParameters} {table : List Parameter} {p q : Parameter}
  {v w : Value}

/-! ## By value -/

/-- The test of a candidate succeeds exactly for the parameters that are free. -/
theorem free_iff {way : PipelineInput} :
    (p.pipeline == way && !static.contains p.name) = true ↔ Free static way p := by
  rw [Bool.and_eq_true, beq_iff_eq, Bool.not_eq_true', Free]

/-- The type of a value is never that of any value. -/
theorem isExactly_concrete_iff :
    (p.type != .any && v.isExactly p.type) = true ↔ v.valueType = some p.type := by
  rw [Bool.and_eq_true, bne_iff_ne, Value.isExactly, Bool.or_eq_true, beq_iff_eq, beq_iff_eq]
  constructor
  · rintro ⟨hne, hsome⟩
    exact hsome.resolve_left hne
  · intro h
    refine ⟨?_, .inr h⟩
    intro hany
    rw [hany] at h
    cases v <;> cases h

/-- Searching the candidates finds the first free parameter of the table with a property. -/
theorem find?_candidates_iff {test : Parameter → Bool} {P : Parameter → Prop}
    (h : ∀ p, test p = true ↔ P p) :
    (binder.candidates static .byValue).find? test = some p
      ↔ Earliest (FreeWith static P) binder.parameters p := by
  rw [find?_eq_some_iff_earliest fun q _ => h q, candidates, earliest_filter_iff]
  exact earliest_congr fun q _ => and_congr_left' free_iff

/-- Searching the candidates finds nothing exactly if no free parameter has the property. -/
theorem find?_candidates_eq_none_iff {test : Parameter → Bool} {P : Parameter → Prop}
    (h : ∀ p, test p = true ↔ P p) :
    (binder.candidates static .byValue).find? test = none
      ↔ ∀ p ∈ binder.parameters, ¬ FreeWith static P p := by
  rw [List.find?_eq_none, candidates]
  constructor
  · rintro hnone p hp ⟨hfree, hP⟩
    exact hnone p (List.mem_filter.mpr ⟨hp, free_iff.mpr hfree⟩) ((h p).mpr hP)
  · intro hnone p hp htest
    obtain ⟨hp, hfree⟩ := List.mem_filter.mp hp
    exact hnone p hp ⟨free_iff.mp hfree, (h p).mp htest⟩

/-- The first parameter that an object converts for is the earliest to whose type it converts, with
the value it converts to. -/
theorem firstConvertible?_eq_some_iff :
    binder.firstConvertible? input table = some (p, v)
      ↔ Earliest (fun q => ∃ w, binder.adapter.convertTo input q.type = .ok w) table p
        ∧ binder.adapter.convertTo input p.type = .ok v := by
  induction table with
  | nil => exact iff_of_false (by simp [firstConvertible?]) fun h => not_earliest_nil h.1
  | cons q table ih =>
    rw [firstConvertible?]
    cases hq : binder.adapter.convertTo input q.type with
    | error e =>
      rw [earliest_cons_of_not (by simp [hq])]
      exact ih
    | ok w =>
      rw [earliest_cons_self ⟨w, hq⟩, Option.some.injEq, Prod.mk.injEq]
      constructor
      · rintro ⟨rfl, rfl⟩
        exact ⟨rfl, hq⟩
      · rintro ⟨rfl, hv⟩
        rw [hq] at hv
        exact ⟨rfl, Except.ok.inj hv⟩

/-- The parameter that takes an object as a whole is found. -/
theorem byValue?_eq_some_iff :
    binder.byValue? static input = some (p, v) ↔ binder.TakesWhole static input p v := by
  have hexact (q : Parameter) :
      (q.type != .any && input.isExactly q.type) = true ↔ input.valueType = some q.type :=
    isExactly_concrete_iff
  have hany (q : Parameter) : (q.type == .any) = true ↔ q.type = .any := beq_iff_eq
  simp only [byValue?]
  split
  · next r hr =>
    have hr := (find?_candidates_iff hexact).mp hr
    rw [Option.some.injEq, Prod.mk.injEq]
    constructor
    · rintro ⟨rfl, rfl⟩
      exact .exact hr
    · intro h
      cases h with
      | exact h => exact ⟨hr.unique h, rfl⟩
      | any hnone => exact absurd hr.holds (hnone r hr.mem)
      | converted hnone => exact absurd hr.holds (hnone r hr.mem)
  · next hnone =>
    have hnone := (find?_candidates_eq_none_iff hexact).mp hnone
    split
    · next r hr =>
      have hr := (find?_candidates_iff hany).mp hr
      rw [Option.some.injEq, Prod.mk.injEq]
      constructor
      · rintro ⟨rfl, rfl⟩
        exact .any hnone hr
      · intro h
        cases h with
        | exact h => exact absurd h.holds (hnone _ h.mem)
        | any _ h => exact ⟨hr.unique h, rfl⟩
        | converted _ hno => exact absurd hr.holds (hno r hr.mem)
    · next hno =>
      have hno := (find?_candidates_eq_none_iff hany).mp hno
      rw [firstConvertible?_eq_some_iff, candidates, earliest_filter_iff,
        earliest_congr fun q _ => and_congr_left' free_iff]
      constructor
      · rintro ⟨h, hv⟩
        exact .converted hnone hno h hv
      · intro h
        cases h with
        | exact h => exact absurd h.holds (hnone _ h.mem)
        | any _ h => exact absurd h.holds (hno _ h.mem)
        | converted _ _ h hv => exact ⟨h, hv⟩

/-- The parameter that takes the object as a whole is one of the command. -/
theorem TakesWhole.mem (h : binder.TakesWhole static input p v) : p ∈ binder.parameters := by
  cases h with
  | exact h => exact h.mem
  | any _ h => exact h.mem
  | converted _ _ h _ => exact h.mem

/-- The parameter that takes the object as a whole had no value from an argument. -/
theorem TakesWhole.free (h : binder.TakesWhole static input p v) : Free static .byValue p := by
  cases h with
  | exact h => exact h.holds.1
  | any _ h => exact h.holds.1
  | converted _ _ h _ => exact h.holds.1

/-! ## By property name -/

/-- The property looked up for a parameter is the one that the object supplies. -/
theorem propertyFor?_eq_some_iff :
    binder.propertyFor? p input = some v ↔ binder.Supplies input p v := by
  rw [propertyFor?]
  cases hname : binder.adapter.property? input p.name with
  | some u =>
    rw [Option.some.injEq]
    constructor
    · rintro rfl
      exact .byName hname
    · intro h
      cases h with
      | byName h => exact Option.some.inj (hname.symm.trans h)
      | byAlias hnone => exact absurd (hname.symm.trans hnone) (by simp)
  | none =>
    rw [List.findSome?_eq_some_iff]
    constructor
    · rintro ⟨before, label, after, haliases, hv, hbefore⟩
      refine .byAlias hname ⟨before, after, haliases, by simp [hv], ?_⟩ hv
      exact fun other hother => not_not_intro (hbefore other hother)
    · intro h
      cases h with
      | byName h => exact absurd (hname.symm.trans h) (by simp)
      | byAlias _ h hv =>
        obtain ⟨before, after, haliases, -, hbefore⟩ := h
        exact ⟨before, _, after, haliases, hv, fun other hother => not_not.mp (hbefore other hother)⟩

/-- An object supplies at most one property for a parameter. -/
theorem Supplies.unique (h : binder.Supplies input p v) (h' : binder.Supplies input p w) : v = w :=
  Option.some.inj ((propertyFor?_eq_some_iff.mpr h).symm.trans (propertyFor?_eq_some_iff.mpr h'))

/-- A parameter that no property is there for is passed over. -/
theorem bindProperties_of_not_supplies (hfree : bound.contains p.name = false)
    (h : ∀ v, ¬ binder.Supplies input p v) :
    binder.bindProperties input (p :: table) bound = binder.bindProperties input table bound := by
  have hnone : binder.propertyFor? p input = none :=
    Option.eq_none_iff_forall_ne_some.mpr fun v hv => h v (propertyFor?_eq_some_iff.mp hv)
  simp only [bindProperties, hfree, hnone, Bool.false_eq_true, if_false]

/-- A property that becomes a value is bound behind what is bound already. -/
theorem bindProperties_of_becomes (hfree : bound.contains p.name = false)
    (h : binder.Supplies input p v) (hw : binder.Becomes p v w) :
    binder.bindProperties input (p :: table) bound
      = binder.bindProperties input table (bound.insert p.name w .pipelineByPropertyName) := by
  have hsome := propertyFor?_eq_some_iff.mpr h
  cases hw with
  | null => simp only [bindProperties, hfree, hsome, Bool.false_eq_true, if_false]
  | converted hv hw =>
    have hconvert : binder.convert p v = .ok w := by rw [convert, hw]
    rw [bindProperties, hfree, hsome]
    cases v with
    | null => exact absurd rfl hv
    | _ => simp only [hconvert, Bool.false_eq_true, if_false]

/-- A property that does not convert ends the binding. -/
theorem bindProperties_of_error (hfree : bound.contains p.name = false)
    (h : binder.Supplies input p v) (hv : v ≠ .null) {e : ConversionError}
    (he : binder.adapter.convertTo v p.type = .error e) :
    binder.bindProperties input (p :: table) bound
      = .error (.typeConversionFailed p.name e.value e.fromType e.toType) := by
  have hsome := propertyFor?_eq_some_iff.mpr h
  have hconvert : binder.convert p v
      = .error (.typeConversionFailed p.name e.value e.fromType e.toType) := by
    rw [convert, he]
  rw [bindProperties, hfree, hsome]
  cases v with
  | null => exact absurd rfl hv
  | _ => simp only [hconvert, Bool.false_eq_true, if_false]

/-- There is no property for a parameter, or it becomes a value, or it does not convert. -/
theorem supplies_cases (binder : Binder) (input : Value) (p : Parameter) :
    (∀ v, ¬ binder.Supplies input p v)
      ∨ (∃ v w, binder.Supplies input p v ∧ binder.Becomes p v w)
      ∨ ∃ v e, binder.Supplies input p v ∧ v ≠ .null
          ∧ binder.adapter.convertTo v p.type = .error e := by
  by_cases h : ∃ v, binder.Supplies input p v
  · obtain ⟨v, hv⟩ := h
    by_cases hnull : v = .null
    · subst hnull
      exact .inr (.inl ⟨_, _, hv, .null⟩)
    · cases hconvert : binder.adapter.convertTo v p.type with
      | ok w => exact .inr (.inl ⟨v, w, hv, .converted hnull hconvert⟩)
      | error e => exact .inr (.inr ⟨v, e, hv, hnull, hconvert⟩)
  · exact .inl fun v hv => h ⟨v, hv⟩

/-- A property that becomes a value is not one that fails to convert. -/
theorem not_unconvertible_of_becomes (h : binder.Supplies input p v) (hw : binder.Becomes p v w) :
    ¬ binder.Unconvertible input p := by
  rintro ⟨u, hu, hnull, hnone⟩
  obtain rfl := h.unique hu
  cases hw with
  | null => exact hnull rfl
  | converted _ hw => exact hnone _ hw

variable (input) in
/-- Properties are bound to all parameters that there is one for, or the binding ends with the first
that does not convert. -/
theorem bindProperties_cases (hapart : table.Pairwise fun p q => Text.sameName p.name q.name = false)
    (hfree : ∀ p ∈ table, bound.contains p.name = false) :
    (∃ takers properties,
      binder.bindProperties input table bound = .ok ⟨bound.entries ++ properties⟩
        ∧ takers.Sublist table ∧ (∀ p, p ∈ takers ↔ p ∈ table ∧ ∃ v, binder.Supplies input p v)
        ∧ List.Forall₂ (binder.PropertyEntry input) takers properties
        ∧ ∀ p ∈ table, ¬ binder.Unconvertible input p)
      ∨ ∃ p v e, binder.bindProperties input table bound
            = .error (.typeConversionFailed p.name e.value e.fromType e.toType)
          ∧ Earliest (binder.Unconvertible input) table p ∧ binder.Supplies input p v
          ∧ binder.adapter.convertTo v p.type = .error e := by
  induction table generalizing bound with
  | nil => exact .inl ⟨[], [], by simp [bindProperties], .slnil, by simp, .nil, by simp⟩
  | cons p table ih =>
    obtain ⟨hnew, hold⟩ := List.forall_mem_cons.mp hfree
    obtain ⟨hfirst, hlater⟩ := List.pairwise_cons.mp hapart
    rcases supplies_cases binder input p with hnone | ⟨v, w, hv, hw⟩ | ⟨v, e, hv, hnull, he⟩
    · have hpass : ¬ binder.Unconvertible input p := by
        rintro ⟨v, hv, -⟩
        exact hnone v hv
      rw [bindProperties_of_not_supplies hnew hnone]
      rcases ih hlater hold with ⟨takers, properties, hok, hsub, hmem, hentries, hall⟩
        | ⟨q, u, e, herror, hq, hu, he⟩
      · refine .inl ⟨takers, properties, hok, hsub.cons _, fun q => ?_, hentries,
          List.forall_mem_cons.mpr ⟨hpass, hall⟩⟩
        rw [hmem, List.mem_cons]
        refine and_congr_left fun hsupplies => (or_iff_right ?_).symm
        rintro rfl
        obtain ⟨u, hu⟩ := hsupplies
        exact hnone u hu
      · exact .inr ⟨q, u, e, herror, (earliest_cons_of_not hpass).mpr hq, hu, he⟩
    · have hpass := not_unconvertible_of_becomes hv hw
      have hnext : ∀ q ∈ table,
          (bound.insert p.name w .pipelineByPropertyName).contains q.name = false := fun q hq =>
        (BoundParameters.contains_insert_eq_false_iff hnew _ _ _).mpr ⟨hold q hq, hfirst q hq⟩
      rw [bindProperties_of_becomes hnew hv hw]
      rcases ih hlater hnext with ⟨takers, properties, hok, hsub, hmem, hentries, hall⟩
        | ⟨q, u, e, herror, hq, hu, he⟩
      · refine .inl ⟨p :: takers, ⟨p.name, w, .pipelineByPropertyName⟩ :: properties, ?_,
          hsub.cons_cons _, fun q => ?_, .cons ⟨v, hv, hw, rfl, rfl⟩ hentries,
          List.forall_mem_cons.mpr ⟨hpass, hall⟩⟩
        · rw [hok, BoundParameters.entries_insert hnew, List.append_assoc, List.singleton_append]
        · rw [List.mem_cons, List.mem_cons, hmem, or_and_right]
          refine or_congr_left (and_iff_left_of_imp ?_).symm
          rintro rfl
          exact ⟨v, hv⟩
      · exact .inr ⟨q, u, e, herror, (earliest_cons_of_not hpass).mpr hq, hu, he⟩
    · refine .inr ⟨p, v, e, bindProperties_of_error hnew hv hnull he, ?_, hv, he⟩
      exact (earliest_cons_self ⟨v, hv, hnull, by simp [he]⟩).mpr rfl

end Binder

end CommandChain
