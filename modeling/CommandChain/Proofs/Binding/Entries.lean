import CommandChain.Parameter.Binding
import CommandChain.Proofs.Values.Conversion
import Mathlib.Data.List.Nodup
/-!
# What binding leaves

Arguments and objects are bound one entry at a time. An entry fits a table when its value has the type
of the parameter whose name it has. Where the names of a table are all different, every entry that
binding adds fits it: what is bound by value or as an argument was converted, and of properties only
null is bound as it is. An object adds its entries behind those of the arguments.
-/

namespace CommandChain

/-! ## Names -/

namespace Parameter

/-- The names of a table and those of the common parameters are all different, whatever their case. -/
def Distinct (table : List Parameter) : Prop :=
  ((table ++ common).map fun p => Text.foldCase p.name).Nodup

instance (table : List Parameter) : Decidable (Distinct table) :=
  inferInstanceAs (Decidable (List.Nodup _))

/-- In a table whose names differ, parameters of the same name up to case are the same parameter. -/
theorem Distinct.eq_of_sameName {table : List Parameter} (h : Distinct table) {p q : Parameter}
    (hp : p ∈ table ++ common) (hq : q ∈ table ++ common)
    (hsame : Text.sameName p.name q.name = true) : p = q :=
  List.inj_on_of_nodup_map h hp hq (Text.sameName_iff.mp hsame)

end Parameter

/-! ## Entries -/

namespace BoundParameters

variable {bound parameters : BoundParameters} {name : String} {v : Value} {source : BindingSource}

/-- Inserting a name that is not bound adds one entry behind the others. -/
theorem entries_insert (h : bound.contains name = false) (v : Value) (source : BindingSource) :
    (bound.insert name v source).entries = bound.entries ++ [⟨name, v, source⟩] := by
  rw [contains, Option.isSome_eq_false_iff, Option.isNone_iff_eq_none, entry?, List.find?_eq_none]
    at h
  rw [insert, List.filter_eq_self.mpr]
  intro e he
  simpa using h e he

/-- A name is bound once it has been inserted. -/
theorem contains_insert_self (h : bound.contains name = false) (v : Value)
    (source : BindingSource) : (bound.insert name v source).contains name = true := by
  rw [contains, entry?, entries_insert h, List.find?_isSome]
  exact ⟨_, List.mem_append_right _ (.head _), Text.sameName_refl name⟩

/-- What was bound before an insertion is bound after it. -/
theorem contains_insert (h : bound.contains name = false) (v : Value) (source : BindingSource)
    {other : String} (hother : bound.contains other = true) :
    (bound.insert name v source).contains other = true := by
  rw [contains, entry?, List.find?_isSome] at hother ⊢
  obtain ⟨e, he, hsame⟩ := hother
  rw [entries_insert h]
  exact ⟨e, List.mem_append_left _ he, hsame⟩

/-- What is bound with an object that was bound as a whole, if it was. -/
def insertWhole (bound : BoundParameters) : Option (Parameter × Value) → BoundParameters
  | some (p, w) => bound.insert p.name w .pipelineByValue
  | none => bound

/-- An entry after an insertion was there before, or is the one inserted. -/
theorem mem_insert {e : BoundParameter} (he : e ∈ (bound.insert name v source).entries) :
    e ∈ bound.entries ∨ e = ⟨name, v, source⟩ := by
  rcases List.mem_append.mp he with he | he
  · exact .inl (List.mem_of_mem_filter he)
  · exact .inr (List.mem_singleton.mp he)

/-- The entry found for a name is among the entries and has that name up to case. -/
theorem mem_of_bound {e : BoundParameter} (h : bound.entry? name = some e) :
    e ∈ bound.entries ∧ Text.sameName e.name name = true := by
  unfold entry? at h
  exact ⟨List.mem_of_find?_eq_some h, by simpa using List.find?_some h⟩

/-- What is bound stays as it is when more is bound behind it. -/
theorem bound_append {added : List BoundParameter}
    (h : parameters.entries = bound.entries ++ added) {e : BoundParameter}
    (he : bound.entry? name = some e) : parameters.entry? name = some e := by
  rw [ entry?, h, List.find?_append, ← entry?, he]
  rfl

end BoundParameters

namespace Binder

/-- An entry holds a value of the type of the parameter whose name it has, or a null that was taken
from a property. -/
def Fits (binder : Binder) (e : BoundParameter) : Prop :=
  ∀ p ∈ binder.parameters, Text.sameName e.name p.name = true →
    e.value.isExactly p.type = true ∨ (e.value = .null ∧ e.source = .pipelineByPropertyName)

/-- An entry is that of an argument. -/
def Supplied (binder : Binder) (e : BoundParameter) : Prop :=
  e.source.isPipeline = false ∧ binder.Fits e

/-- What a command is given when it is called to process: all that is mandatory, every value of the type
of its parameter, at most one of them the object itself, and what was bound before the command began. -/
structure Serves (binder : Binder) (static parameters : BoundParameters) : Prop where
  mandatory : ∀ p ∈ binder.parameters, p.mandatory = true → parameters.contains p.name = true
  typed : ∀ p ∈ binder.parameters, ∀ e, parameters.entry? p.name = some e →
    e.value.isExactly p.type = true ∨ (e.value = .null ∧ e.source = .pipelineByPropertyName)
  single : (parameters.entries.filter (·.source == .pipelineByValue)).length ≤ 1
  kept : ∀ name e, static.entry? name = some e → parameters.entry? name = some e

variable {binder : Binder} {bound bound' static : BoundParameters} {p : Parameter} {v w : Value}

/-- The candidates of one way are parameters of the command that are not bound yet. -/
theorem mem_candidates {way : PipelineInput} (h : p ∈ binder.candidates bound way) :
    p ∈ binder.parameters ∧ bound.contains p.name = false := by
  obtain ⟨hp, hfree⟩ := List.mem_filter.mp h
  rw [Bool.and_eq_true, Bool.not_eq_true'] at hfree
  exact ⟨hp, hfree.2⟩

/-- A name resolves to a parameter of the command or to a common one. -/
theorem resolve_mem {name : String} (h : binder.resolve name = .ok p) :
    p ∈ binder.parameters ++ Parameter.common := by
  simp only [resolve] at h
  split at h
  · next hfound =>
    cases h
    exact List.mem_of_find?_eq_some hfound
  · split at h
    · cases h
    · next hone =>
      cases h
      refine List.mem_of_mem_filter (p := fun q => q.startsWith (Text.dropDashes name)) ?_
      rw [hone]
      exact .head _
    · cases h

section

variable (hdistinct : Parameter.Distinct binder.parameters)
  (hconvert : binder.adapter.convertTo = Value.convertTo)

include hdistinct in
/-- A value of the type of its parameter fits, since no other parameter has its name. -/
theorem fits_of_isExactly (hp : p ∈ binder.parameters ++ Parameter.common)
    (hv : v.isExactly p.type = true) (source : BindingSource) :
    binder.Fits ⟨p.name, v, source⟩ := by
  intro q hq hsame
  obtain rfl := hdistinct.eq_of_sameName hp (List.mem_append_left _ hq) hsame
  exact .inl hv

/-- A null that came from a property fits under any name. -/
theorem fits_null (name : String) : binder.Fits ⟨name, .null, .pipelineByPropertyName⟩ :=
  fun _ _ _ => .inr ⟨rfl, rfl⟩

include hconvert in
/-- A value that was converted for a parameter is exactly of its type. -/
theorem isExactly_of_convert (h : binder.convert p v = .ok w) : w.isExactly p.type = true := by
  unfold convert at h
  rw [hconvert] at h
  split at h
  · next hok =>
    cases h
    exact Value.isExactly_of_convertTo hok
  · cases h

include hconvert in
/-- The value worked out for an argument is exactly of the type of its parameter. -/
theorem isExactly_of_argumentValue {value : Option Value}
    (h : binder.argumentValue p value = .ok w) : w.isExactly p.type = true := by
  unfold argumentValue at h
  split at h
  · exact isExactly_of_convert hconvert h
  · split at h
    · next hswitch =>
      cases h
      rw [beq_iff_eq.mp hswitch]
      rfl
    · cases h

/-! ## Arguments -/

/-- Binding an argument with a name first adds its entry: the name stands for a parameter that is not
bound yet, and the value is one for it. -/
theorem bindNames_named_ok_iff {name : String} {value : Option Value} {rest : List Argument} :
    binder.bindNames (.named name value :: rest) bound = .ok bound'
      ↔ ∃ p w, binder.resolve name = .ok p ∧ bound.contains p.name = false
        ∧ binder.argumentValue p value = .ok w
        ∧ binder.bindNames rest (bound.insert p.name w .named) = .ok bound' := by
  rw [bindNames]
  constructor
  · intro h
    split at h
    · cases h
    · next p hresolve =>
      split at h
      · cases h
      · next hnone =>
        split at h
        · cases h
        · next w hvalue => exact ⟨p, w, hresolve, Bool.not_eq_true _ ▸ hnone, hvalue, h⟩
  · rintro ⟨p, w, hresolve, hnone, hvalue, h⟩
    simp only [hresolve, hnone, hvalue, Bool.false_eq_true, if_false]
    exact h

/-- Filling the first free place first adds its entry. -/
theorem bindPositions_cons_ok_iff {values : List Value} {free : List Parameter} :
    binder.bindPositions (v :: values) (p :: free) bound = .ok bound'
      ↔ ∃ w, binder.convert p v = .ok w
        ∧ binder.bindPositions values free (bound.insert p.name w .positional) = .ok bound' := by
  rw [bindPositions]
  cases binder.convert p v with
  | error e => simp
  | ok w => simp

/-- Inserting a fitting value that no object gave leaves all entries those of arguments. -/
theorem insert_supplied (hbound : ∀ e ∈ bound.entries, binder.Supplied e) {name : String}
    {source : BindingSource} (hsource : source.isPipeline = false)
    (hfits : binder.Fits ⟨name, v, source⟩) :
    ∀ e ∈ (bound.insert name v source).entries, binder.Supplied e := by
  intro e he
  rcases BoundParameters.mem_insert he with he | rfl
  · exact hbound e he
  · exact ⟨hsource, hfits⟩

include hdistinct hconvert in
/-- Binding named arguments makes no entries but those of arguments. -/
theorem bindNames_supplied {arguments : List Argument}
    (h : binder.bindNames arguments bound = .ok bound')
    (hbound : ∀ e ∈ bound.entries, binder.Supplied e) :
    ∀ e ∈ bound'.entries, binder.Supplied e := by
  induction arguments generalizing bound with
  | nil =>
    cases h
    exact hbound
  | cons argument rest ih =>
    cases argument with
    | positional v => exact ih h hbound
    | named name value =>
      obtain ⟨p, w, hresolve, -, hvalue, h⟩ := bindNames_named_ok_iff.mp h
      have hfits := fits_of_isExactly hdistinct (resolve_mem hresolve)
        (isExactly_of_argumentValue hconvert hvalue) .named
      exact ih h (insert_supplied hbound rfl hfits)

include hdistinct hconvert in
/-- Binding positional values makes no entries but those of arguments. -/
theorem bindPositions_supplied {values : List Value} {free : List Parameter}
    (h : binder.bindPositions values free bound = .ok bound')
    (hfree : ∀ p ∈ free, p ∈ binder.parameters)
    (hbound : ∀ e ∈ bound.entries, binder.Supplied e) :
    ∀ e ∈ bound'.entries, binder.Supplied e := by
  induction values generalizing free bound with
  | nil =>
    cases h
    exact hbound
  | cons v values ih =>
    cases free with
    | nil => cases h
    | cons p free =>
      obtain ⟨w, hw, h⟩ := bindPositions_cons_ok_iff.mp h
      have hfits := fits_of_isExactly hdistinct (List.mem_append_left _ (hfree p (.head _)))
        (isExactly_of_convert hconvert hw) .positional
      exact ih h (fun q hq => hfree q (.tail _ hq)) (insert_supplied hbound rfl hfits)

/-- What binding the arguments comes to, where it succeeds. -/
theorem bindArguments_ok {arguments : List Argument} {expectsInput : Bool}
    (h : binder.bindArguments arguments expectsInput = .ok static) :
    ∃ named, binder.bindNames arguments .empty = .ok named
      ∧ binder.bindPositions (positionals arguments) (binder.slots named) named = .ok static
      ∧ binder.missing? static expectsInput = none := by
  unfold bindArguments at h
  cases hnamed : binder.bindNames arguments .empty with
  | error e =>
    rw [hnamed] at h
    cases h
  | ok named =>
    rw [hnamed] at h
    simp only [bind, Except.bind] at h
    split at h
    · cases h
    · next bound hbound =>
      split at h
      · cases h
      · next hmissing =>
        cases h
        exact ⟨named, rfl, hbound, hmissing⟩

include hdistinct hconvert in
/-- Binding the arguments leaves entries of arguments that fit the table. -/
theorem bindArguments_supplied {arguments : List Argument} {expectsInput : Bool}
    (h : binder.bindArguments arguments expectsInput = .ok static) :
    ∀ e ∈ static.entries, binder.Supplied e := by
  obtain ⟨named, hnamed, hpositions, -⟩ := bindArguments_ok h
  refine bindPositions_supplied hdistinct hconvert hpositions (fun p hp => ?_)
    (bindNames_supplied hdistinct hconvert hnamed (by simp [BoundParameters.empty]))
  exact List.mem_of_mem_filter (List.mem_mergeSort.mp hp)

/-- Nothing that no object can supply is missing once the arguments are bound. -/
theorem contains_of_missing?_eq_none {expectsInput : Bool}
    (h : binder.missing? static expectsInput = none) (hp : p ∈ binder.parameters)
    (hmandatory : p.mandatory = true) (hneed : (expectsInput && p.acceptsInput) = false) :
    static.contains p.name = true := by
  simpa [hmandatory, hneed] using List.find?_eq_none.mp h p hp

/-- No argument is bound by value from an object. -/
theorem filter_of_supplied (hsupplied : ∀ e ∈ static.entries, binder.Supplied e) :
    static.entries.filter (·.source == .pipelineByValue) = [] := by
  rw [List.filter_eq_nil_iff]
  intro e he hsource
  have hargument := (hsupplied e he).1
  rw [beq_iff_eq.mp hsource] at hargument
  cases hargument

/-- Where the arguments are all that is needed, they serve the command. -/
theorem serves_of_supplied (hsupplied : ∀ e ∈ static.entries, binder.Supplied e)
    (hmandatory : ∀ p ∈ binder.parameters, p.mandatory = true → static.contains p.name = true) :
    binder.Serves static static := by
  refine ⟨hmandatory, ?_, ?_, fun _ _ he => he⟩
  · intro p hp e he
    obtain ⟨hmem, hsame⟩ := BoundParameters.mem_of_bound he
    exact (hsupplied e hmem).2 p hp hsame
  · rw [filter_of_supplied hsupplied]
    exact Nat.zero_le 1

/-! ## Objects -/

include hconvert in
/-- The first parameter that an object converts for is among those tried, and the value has its
type. -/
theorem firstConvertible?_spec {free : List Parameter}
    (h : binder.firstConvertible? v free = some (p, w)) :
    p ∈ free ∧ w.isExactly p.type = true := by
  induction free with
  | nil => cases h
  | cons q free ih =>
    rw [firstConvertible?] at h
    split at h
    · next hok =>
      cases h
      rw [hconvert] at hok
      exact ⟨.head _, Value.isExactly_of_convertTo hok⟩
    · obtain ⟨hp, hw⟩ := ih h
      exact ⟨.tail _ hp, hw⟩

include hconvert in
/-- An object is bound by value to a free parameter of its type, converted where that is needed. -/
theorem byValue?_spec (h : binder.byValue? bound v = some (p, w)) :
    p ∈ binder.candidates bound .byValue ∧ w.isExactly p.type = true := by
  simp only [byValue?] at h
  split at h
  · next hexact =>
    cases h
    have htype := List.find?_some hexact
    rw [Bool.and_eq_true] at htype
    exact ⟨List.mem_of_find?_eq_some hexact, htype.2⟩
  · split at h
    · next hany =>
      cases h
      -- The second choice is a parameter that takes values of any type.
      refine ⟨List.mem_of_find?_eq_some hany, ?_⟩
      rw [Value.isExactly, List.find?_some hany]
      rfl
    · exact firstConvertible?_spec hconvert h

include hdistinct hconvert in
/-- Properties are bound behind what is bound already. -/
theorem bindProperties_appends {free : List Parameter}
    (h : binder.bindProperties v free bound = .ok bound')
    (hfree : ∀ p ∈ free, p ∈ binder.parameters) :
    ∃ added, bound'.entries = bound.entries ++ added
      ∧ ∀ e ∈ added, e.source = .pipelineByPropertyName ∧ binder.Fits e := by
  induction free generalizing bound with
  | nil =>
    cases h
    exact ⟨[], (List.append_nil _).symm, by simp⟩
  | cons p free ih =>
    have hlater : ∀ q ∈ free, q ∈ binder.parameters := fun q hq => hfree q (.tail _ hq)
    have grow {w : Value} (hnone : bound.contains p.name = false)
        (hfits : binder.Fits ⟨p.name, w, .pipelineByPropertyName⟩)
        (hrest : binder.bindProperties v free (bound.insert p.name w .pipelineByPropertyName)
          = .ok bound') :
        ∃ added, bound'.entries = bound.entries ++ added
          ∧ ∀ e ∈ added, e.source = .pipelineByPropertyName ∧ binder.Fits e := by
      obtain ⟨added, hentries, hadded⟩ := ih hrest hlater
      refine ⟨⟨p.name, w, .pipelineByPropertyName⟩ :: added, ?_, ?_⟩
      · rw [hentries, BoundParameters.entries_insert hnone, List.append_assoc]
        rfl
      · exact List.forall_mem_cons.mpr ⟨⟨rfl, hfits⟩, hadded⟩
    rw [bindProperties] at h
    split at h
    · exact ih h hlater
    · next hnone =>
      rw [Bool.not_eq_true] at hnone
      split at h
      · exact ih h hlater
      · exact grow hnone (fits_null p.name) h
      · split at h
        · cases h
        · next w hw =>
          exact grow hnone (fits_of_isExactly hdistinct (List.mem_append_left _ (hfree p (.head _)))
            (isExactly_of_convert hconvert hw) _) h

include hdistinct hconvert in
/-- What an object supplies is bound behind the arguments: at most one entry by value, then properties.
Nothing mandatory is missing then. -/
theorem bindObject_appends (h : binder.bindObject static v = .ok bound) :
    (∃ (whole : Option BoundParameter) (properties : List BoundParameter),
      bound.entries = static.entries ++ (whole.toList ++ properties)
        ∧ (∀ e, whole = some e → binder.Fits e)
        ∧ ∀ e ∈ properties, e.source = .pipelineByPropertyName ∧ binder.Fits e)
      ∧ ∀ p ∈ binder.parameters, p.mandatory = true → bound.contains p.name = true := by
  have hstart : ∃ whole : Option BoundParameter,
      (static.insertWhole (binder.byValue? static v)).entries = static.entries ++ whole.toList
        ∧ ∀ e, whole = some e → binder.Fits e := by
    cases hchosen : binder.byValue? static v with
    | none => exact ⟨none, (List.append_nil _).symm, by simp⟩
    | some chosen =>
      obtain ⟨p, w⟩ := chosen
      obtain ⟨hp, hw⟩ := byValue?_spec hconvert hchosen
      obtain ⟨hmem, hnone⟩ := mem_candidates hp
      refine ⟨some ⟨p.name, w, .pipelineByValue⟩, BoundParameters.entries_insert hnone _ _, ?_⟩
      intro e he
      cases he
      exact fits_of_isExactly hdistinct (List.mem_append_left _ hmem) hw _
  simp only [bindObject] at h
  split at h
  · cases h
  · split at h
    · cases h
    · next result hproperties =>
      split at h
      · cases h
      · split at h
        · cases h
        · next hmissing =>
          cases h
          obtain ⟨whole, hwhole, hfits⟩ := hstart
          obtain ⟨added, hadded, hproperty⟩ := bindProperties_appends hdistinct hconvert hproperties
            fun p hp => (mem_candidates hp).1
          have hentries := hadded.trans (congrArg (· ++ added) hwhole)
          rw [List.append_assoc] at hentries
          refine ⟨⟨whole, added, hentries, hfits, hproperty⟩, fun p hp hmandatory => ?_⟩
          simpa [hmandatory] using List.find?_eq_none.mp hmissing p hp

include hdistinct hconvert in
/-- Where an object could be bound, it serves the command together with the arguments. -/
theorem serves_of_bindObject (hsupplied : ∀ e ∈ static.entries, binder.Supplied e)
    (h : binder.bindObject static v = .ok bound) : binder.Serves static bound := by
  obtain ⟨⟨whole, properties, hentries, hwhole, hproperties⟩, hmandatory⟩ :=
    bindObject_appends hdistinct hconvert h
  refine ⟨hmandatory, ?_, ?_, fun name e he => BoundParameters.bound_append hentries he⟩
  · intro p hp e he
    obtain ⟨hmem, hsame⟩ := BoundParameters.mem_of_bound he
    rw [hentries, List.mem_append, List.mem_append, Option.mem_toList] at hmem
    rcases hmem with hmem | hmem | hmem
    · exact (hsupplied e hmem).2 p hp hsame
    · exact hwhole e hmem p hp hsame
    · exact (hproperties e hmem).2 p hp hsame
  · have hproperty : properties.filter (·.source == .pipelineByValue) = [] := by
      rw [List.filter_eq_nil_iff]
      intro e he hsource
      rw [(hproperties e he).1] at hsource
      cases hsource
    rw [hentries, List.filter_append, List.filter_append, filter_of_supplied hsupplied, hproperty,
      List.nil_append, List.append_nil]
    refine Nat.le_trans (List.length_filter_le _ _) ?_
    cases whole <;> simp

end

end Binder

end CommandChain
