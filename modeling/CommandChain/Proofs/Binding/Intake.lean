import CommandChain.Proofs.Binding.Objection
import CommandChain.Proofs.Binding.Precedence
import Mathlib.Data.List.Forall2
import Mathlib.Data.List.Perm.Subperm
/-!
# What an object is bound to

Where the names of a table are all different, an object is bound to what the arguments gave and, behind
that, to the object as a whole, where a parameter takes it, and to the properties that parameters take,
in the order of the table. An object is refused for the earliest property that does not convert, or else
for supplying nothing, or else for the earliest mandatory parameter that is left without a value.
-/

namespace CommandChain

namespace Binder

variable (binder : Binder) (static : BoundParameters) (input : Value)

/-- A mandatory parameter has no value, neither from an argument nor from an object. -/
def Lacks (p : Parameter) : Prop :=
  p.mandatory = true ∧ static.contains p.name = false ∧ ¬ binder.Served static input p

/-- What an object has to supply so that it can be bound. -/
structure Accepts : Prop where
  reads : ∃ p ∈ binder.parameters, p.pipeline ≠ .none
  served : ∃ p ∈ binder.parameters, binder.Served static input p
  converts : ∀ p ∈ binder.parameters, Free static .byPropertyName p →
    ∀ v, binder.Supplies input p v → v ≠ .null → ∃ w, binder.adapter.convertTo v p.type = .ok w
  mandatory : ∀ p ∈ binder.parameters, p.mandatory = true →
    static.contains p.name = true ∨ binder.Served static input p

/-- Why an object cannot be bound. -/
inductive Refusal : BindingError → Prop
  | unconvertible {p : Parameter} {v : Value} {e : ConversionError}
    (h : Earliest (binder.Fails static input) binder.parameters p) (hv : binder.Supplies input p v)
    (he : binder.adapter.convertTo v p.type = .error e) :
    Refusal (.typeConversionFailed p.name e.value e.fromType e.toType)
  | unaccepted (hconverts : ∀ p ∈ binder.parameters, ¬ binder.Fails static input p)
    (hserved : ∀ p ∈ binder.parameters, ¬ binder.Served static input p) :
    Refusal .noParameterAcceptsInput
  | missing {p : Parameter} (hconverts : ∀ p ∈ binder.parameters, ¬ binder.Fails static input p)
    (hserved : ∃ p ∈ binder.parameters, binder.Served static input p)
    (h : Earliest (binder.Lacks static input) binder.parameters p) :
    Refusal (.missingMandatoryParameter p.name)

/-- What an object gives: at most one entry for the object as a whole, and one for each parameter that
takes a property, in the order of the table. -/
structure Intake where
  whole : Option BoundParameter
  takers : List Parameter
  properties : List BoundParameter
  whole_iff : ∀ e, whole = some e
    ↔ ∃ p v, binder.TakesWhole static input p v ∧ e = ⟨p.name, v, .pipelineByValue⟩
  ordered : takers.Sublist binder.parameters
  mem_takers : ∀ p, p ∈ takers ↔ p ∈ binder.parameters ∧ binder.TakesProperty static input p
  property_entries : List.Forall₂ (binder.PropertyEntry input) takers properties

def Intake.entries {binder : Binder} {static : BoundParameters} {input : Value}
    (intake : Intake binder static input) : List BoundParameter :=
  intake.whole.toList ++ intake.properties

variable {binder static input} {bound : BoundParameters} {table : List Parameter} {p q : Parameter}
  {v w : Value}

/-! ## The entries of an object -/

/-- A property becomes at most one value for a parameter. -/
theorem Becomes.unique {u : Value} (h : binder.Becomes p u v) (h' : binder.Becomes p u w) :
    v = w := by
  cases h with
  | null =>
    cases h' with
    | null => rfl
    | converted hnull => exact absurd rfl hnull
  | converted hnull hv =>
    cases h' with
    | null => exact absurd rfl hnull
    | converted _ hw => exact Except.ok.inj (hv.symm.trans hw)

/-- A parameter has at most one entry for a property of the object. -/
theorem PropertyEntry.unique {e e' : BoundParameter} (h : binder.PropertyEntry input p e)
    (h' : binder.PropertyEntry input p e') : e = e' := by
  obtain ⟨v, hv, hvalue, hname, hsource⟩ := h
  obtain ⟨v', hv', hvalue', hname', hsource'⟩ := h'
  obtain rfl := hv.unique hv'
  cases e
  cases e'
  obtain rfl := hvalue.unique hvalue'
  cases hname
  cases hname'
  cases hsource
  cases hsource'
  rfl

/-- At most one entry is made for the object as a whole. -/
theorem TakesWhole.entry_unique {e e' : BoundParameter}
    (h : ∃ p v, binder.TakesWhole static input p v ∧ e = ⟨p.name, v, .pipelineByValue⟩)
    (h' : ∃ p v, binder.TakesWhole static input p v ∧ e' = ⟨p.name, v, .pipelineByValue⟩) :
    e = e' := by
  obtain ⟨p, v, hp, rfl⟩ := h
  obtain ⟨q, w, hq, rfl⟩ := h'
  have hsome := byValue?_eq_some_iff.mpr hp
  rw [byValue?_eq_some_iff.mpr hq] at hsome
  cases hsome
  rfl

/-- In a list without repetition, a part in its order is settled by its members. -/
theorem filter_mem_of_sublist {ps qs : List Parameter} (hnodup : ps.Nodup) (h : qs.Sublist ps) :
    ps.filter (· ∈ qs) = qs := by
  have hsub : qs.Sublist (ps.filter (· ∈ qs)) := by
    have := h.filter (· ∈ qs)
    rwa [List.filter_eq_self.mpr (by simp)] at this
  refine (hsub.eq_of_length_le ?_).symm
  exact ((hnodup.filter _).subperm fun q hq => by simpa using (List.mem_filter.mp hq).2).length_le

/-- What an object gives is determined, where the names of the parameters differ. -/
theorem Intake.entries_eq (hnames : Parameter.NamesApart binder.parameters)
    (intake intake' : Intake binder static input) : intake.entries = intake'.entries := by
  have hwhole : intake.whole = intake'.whole :=
    Option.ext fun e => (intake.whole_iff e).trans (intake'.whole_iff e).symm
  have htakers : intake.takers = intake'.takers := by
    rw [← filter_mem_of_sublist hnames.nodup intake.ordered,
      ← filter_mem_of_sublist hnames.nodup intake'.ordered]
    refine List.filter_congr fun p _ => ?_
    rw [decide_eq_decide, intake.mem_takers, intake'.mem_takers]
  have hentries := intake.property_entries
  rw [htakers] at hentries
  have hright : Relator.RightUnique (binder.PropertyEntry input) := fun _ _ _ => PropertyEntry.unique
  rw [Intake.entries, Intake.entries, hwhole,
    List.right_unique_forall₂' hright hentries intake'.property_entries]

/-- A parameter has a value where an argument or the object gave it one. -/
theorem Intake.contains_iff (hnames : Parameter.NamesApart binder.parameters)
    (intake : Intake binder static input) (hp : p ∈ binder.parameters) :
    BoundParameters.contains ⟨static.entries ++ intake.entries⟩ p.name = true
      ↔ static.contains p.name = true ∨ binder.Served static input p := by
  have hsame {q : Parameter} (hq : q ∈ binder.parameters)
      (h : Text.sameName q.name p.name = true) : q = p := by
    by_contra hne
    rw [hnames.sameName_eq_false hq hp hne] at h
    cases h
  rw [BoundParameters.contains_iff, BoundParameters.contains_iff]
  simp only [Intake.entries, List.mem_append, Option.mem_toList]
  constructor
  · rintro ⟨e, he | he | he, hname⟩
    · exact .inl ⟨e, he, hname⟩
    · obtain ⟨q, v, hq, rfl⟩ := (intake.whole_iff e).mp he
      obtain rfl := hsame hq.mem hname
      exact .inr (.inl ⟨v, hq⟩)
    · obtain ⟨q, hq, v, -, -, hqname, -⟩ := exists_of_mem_right intake.property_entries he
      obtain ⟨hmem, htakes⟩ := (intake.mem_takers q).mp hq
      rw [hqname] at hname
      obtain rfl := hsame hmem hname
      exact .inr (.inr htakes)
  · rintro (⟨e, he, hname⟩ | ⟨v, hv⟩ | htakes)
    · exact ⟨e, .inl he, hname⟩
    · exact ⟨_, .inr (.inl ((intake.whole_iff _).mpr ⟨p, v, hv, rfl⟩)), Text.sameName_refl _⟩
    · obtain ⟨e, he, v, -, -, hname, -⟩ := exists_of_mem_right intake.property_entries.flip
        ((intake.mem_takers p).mpr ⟨hp, htakes⟩)
      exact ⟨e, .inr (.inr he), by rw [hname]; exact Text.sameName_refl _⟩

/-- An object gives nothing where no parameter is bound from it. -/
theorem Intake.entries_eq_nil_iff (intake : Intake binder static input) :
    intake.entries = [] ↔ ∀ p ∈ binder.parameters, ¬ binder.Served static input p := by
  rw [Intake.entries, List.append_eq_nil_iff, Option.toList_eq_nil_iff]
  constructor
  · rintro ⟨hwhole, hproperties⟩ p hp (⟨v, hv⟩ | htakes)
    · have hsome := (intake.whole_iff _).mpr ⟨p, v, hv, rfl⟩
      rw [hwhole] at hsome
      cases hsome
    · obtain ⟨e, he, -⟩ := exists_of_mem_right intake.property_entries.flip
        ((intake.mem_takers p).mpr ⟨hp, htakes⟩)
      rw [hproperties] at he
      cases he
  · intro hnone
    constructor
    · rw [Option.eq_none_iff_forall_ne_some]
      intro e he
      obtain ⟨p, v, hv, -⟩ := (intake.whole_iff e).mp he
      exact hnone p hv.mem (.inl ⟨v, hv⟩)
    · rw [List.eq_nil_iff_forall_not_mem]
      intro e he
      obtain ⟨p, hp, -⟩ := exists_of_mem_right intake.property_entries he
      obtain ⟨hmem, htakes⟩ := (intake.mem_takers p).mp hp
      exact hnone p hmem (.inr htakes)

/-! ## Binding an object -/

/-- The entry inserted for the object as a whole is the one that the rule of precedence names, or
none. -/
theorem exists_whole (binder : Binder) (static : BoundParameters) (input : Value) :
    ∃ whole : Option BoundParameter,
      (static.insertWhole (binder.byValue? static input)).entries = static.entries ++ whole.toList
        ∧ ∀ e, whole = some e
          ↔ ∃ p v, binder.TakesWhole static input p v ∧ e = ⟨p.name, v, .pipelineByValue⟩ := by
  cases hchosen : binder.byValue? static input with
  | none =>
    refine ⟨none, (List.append_nil _).symm, fun e => iff_of_false (by simp) ?_⟩
    rintro ⟨p, v, hv, -⟩
    rw [byValue?_eq_some_iff.mpr hv] at hchosen
    cases hchosen
  | some chosen =>
    obtain ⟨p, v⟩ := chosen
    have hv := byValue?_eq_some_iff.mp hchosen
    refine ⟨some ⟨p.name, v, .pipelineByValue⟩, BoundParameters.entries_insert hv.free.2 _ _,
      fun e => ?_⟩
    rw [Option.some.injEq]
    exact ⟨fun he => ⟨p, v, hv, he.symm⟩, fun he => TakesWhole.entry_unique ⟨p, v, hv, rfl⟩ he⟩

/-- What takes the object as a whole leaves the parameters free that take properties. -/
theorem contains_insertWhole (hnames : Parameter.NamesApart binder.parameters)
    (hp : p ∈ binder.parameters) (hfree : Free static .byPropertyName p) :
    (static.insertWhole (binder.byValue? static input)).contains p.name = false := by
  cases hchosen : binder.byValue? static input with
  | none => exact hfree.2
  | some chosen =>
    obtain ⟨q, v⟩ := chosen
    have hv := byValue?_eq_some_iff.mp hchosen
    have hne : q ≠ p := by
      rintro rfl
      cases hv.free.1.symm.trans hfree.1
    exact (BoundParameters.contains_insert_eq_false_iff hv.free.2 _ _ _).mpr
      ⟨hfree.2, hnames.sameName_eq_false hv.mem hp hne⟩

/-- The candidates of one way are the free parameters of the command. -/
theorem mem_candidates_iff {way : PipelineInput} :
    p ∈ binder.candidates static way ↔ p ∈ binder.parameters ∧ Free static way p := by
  rw [candidates, List.mem_filter, free_iff]

variable (static input) in
/-- The properties of an object are bound behind what takes it as a whole, or the binding ends with the
first that does not convert. -/
theorem bindProperties_candidates (hnames : Parameter.NamesApart binder.parameters) :
    (∃ intake : Intake binder static input,
      binder.bindProperties input (binder.candidates static .byPropertyName)
          (static.insertWhole (binder.byValue? static input))
        = .ok ⟨static.entries ++ intake.entries⟩
        ∧ ∀ p ∈ binder.parameters, ¬ binder.Fails static input p)
      ∨ ∃ p v e, binder.bindProperties input (binder.candidates static .byPropertyName)
            (static.insertWhole (binder.byValue? static input))
          = .error (.typeConversionFailed p.name e.value e.fromType e.toType)
        ∧ Earliest (binder.Fails static input) binder.parameters p ∧ binder.Supplies input p v
        ∧ binder.adapter.convertTo v p.type = .error e := by
  have hpairs : (binder.candidates static .byPropertyName).Pairwise
      fun p q => Text.sameName p.name q.name = false := by
    have hnodup := List.pairwise_map.mp hnames
    refine (hnodup.filter _).imp fun {p q} hne => ?_
    rw [← Bool.not_eq_true, Text.sameName_iff]
    exact hne
  have hfree : ∀ p ∈ binder.candidates static .byPropertyName,
      (static.insertWhole (binder.byValue? static input)).contains p.name = false := fun p hp =>
    contains_insertWhole hnames (mem_candidates_iff.mp hp).1 (mem_candidates_iff.mp hp).2
  obtain ⟨whole, hwhole, hwhole_iff⟩ := exists_whole binder static input
  rcases bindProperties_cases input hpairs hfree with
    ⟨takers, properties, hok, hsub, hmem, hentries, hall⟩ | ⟨p, v, e, herror, hp, hv, he⟩
  · refine .inl ⟨⟨whole, takers, properties, hwhole_iff, hsub.trans List.filter_sublist, fun p => ?_,
      hentries⟩, ?_, fun p hp hfails => hall p (mem_candidates_iff.mpr ⟨hp, hfails.1⟩) hfails.2⟩
    · rw [hmem, mem_candidates_iff, and_assoc]
      rfl
    · rw [hok, hwhole, List.append_assoc]
      rfl
  · rw [candidates, earliest_filter_iff, earliest_congr fun q _ => and_congr_left' free_iff] at hp
    exact .inr ⟨p, v, e, herror, hp, hv, he⟩

/-- A command accepts input exactly if one of its parameters takes some from the pipeline. -/
theorem acceptsInput_iff :
    binder.acceptsInput = true ↔ ∃ p ∈ binder.parameters, p.pipeline ≠ .none := by
  simp [acceptsInput, Parameter.acceptsInput]

/-- A parameter that is bound from an object takes input from the pipeline. -/
theorem Served.pipeline_ne (h : binder.Served static input p) : p.pipeline ≠ .none := by
  rintro hnone
  rcases h with ⟨v, hv⟩ | htakes
  · cases hnone.symm.trans hv.free.1
  · cases hnone.symm.trans htakes.1.1

/-- A parameter that fails to take a property takes input from the pipeline. -/
theorem Fails.pipeline_ne (h : binder.Fails static input p) : p.pipeline ≠ .none := by
  rintro hnone
  cases hnone.symm.trans h.1.1

/-- Where nothing fails every property that a parameter takes converts. -/
theorem converts_of_not_fails (h : ∀ p ∈ binder.parameters, ¬ binder.Fails static input p)
    (hp : p ∈ binder.parameters) (hfree : Free static .byPropertyName p)
    (hv : binder.Supplies input p v) (hnull : v ≠ .null) :
    ∃ w, binder.adapter.convertTo v p.type = .ok w := by
  by_contra hnone
  exact h p hp ⟨hfree, v, hv, hnull, fun w hw => hnone ⟨w, hw⟩⟩

variable (binder static input) in
/-- Object binding step by step. -/
theorem bindObject_eq :
    binder.bindObject static input
      = if !binder.acceptsInput then .error .noParameterAcceptsInput
        else (binder.bindProperties input (binder.candidates static .byPropertyName)
            (static.insertWhole (binder.byValue? static input))).bind fun result =>
          if result.entries.length == static.entries.length then .error .noParameterAcceptsInput
          else (binder.parameters.find? fun p => p.mandatory && !result.contains p.name).elim (.ok result)
            fun p => .error (.missingMandatoryParameter p.name) := by
  cases hwhole : binder.byValue? static input
  all_goals
    simp only [bindObject, hwhole, BoundParameters.insertWhole]
    congr 1
    cases binder.bindProperties input (binder.candidates static .byPropertyName) _ with
    | error e => rfl
    | ok result =>
      simp only [Except.bind]
      congr 1
      cases binder.parameters.find? fun p => p.mandatory && !result.contains p.name <;> rfl

variable (static input) in
/-- An object is bound to what it supplies, or it is refused. -/
theorem bindObject_cases (hnames : Parameter.NamesApart binder.parameters) :
    (∃ intake : Intake binder static input,
      binder.bindObject static input = .ok ⟨static.entries ++ intake.entries⟩
        ∧ binder.Accepts static input)
      ∨ ∃ e, binder.bindObject static input = .error e ∧ binder.Refusal static input e := by
  have hobject := bindObject_eq binder static input
  by_cases hreads : binder.acceptsInput = true
  · rw [hreads] at hobject
    rcases bindProperties_candidates static input hnames with
      ⟨intake, hok, hall⟩ | ⟨p, v, e, herror, hp, hv, he⟩
    · simp only [hok, Except.bind, Bool.not_true, Bool.false_eq_true, if_false] at hobject
      by_cases hnone : intake.entries = []
      · rw [hnone, List.append_nil, beq_self_eq_true, if_pos rfl] at hobject
        exact .inr ⟨_, hobject, .unaccepted hall (intake.entries_eq_nil_iff.mp hnone)⟩
      · have hmore : ((static.entries ++ intake.entries).length == static.entries.length) = false := by
          have := List.length_pos_iff.mpr hnone
          rw [beq_eq_false_iff_ne, List.length_append]
          omega
        have hserved : ∃ p ∈ binder.parameters, binder.Served static input p := by
          by_contra hno
          exact hnone (intake.entries_eq_nil_iff.mpr fun p hp h => hno ⟨p, hp, h⟩)
        have hlacks : ∀ p ∈ binder.parameters,
            (p.mandatory && !BoundParameters.contains ⟨static.entries ++ intake.entries⟩ p.name) = true
              ↔ binder.Lacks static input p := by
          intro p hp
          rw [Bool.and_eq_true, Bool.not_eq_true', ← Bool.not_eq_true, intake.contains_iff hnames hp,
            not_or, Bool.not_eq_true]
          rfl
        rw [hmore, if_neg Bool.false_ne_true] at hobject
        cases hfind : binder.parameters.find? fun p =>
          p.mandatory && !BoundParameters.contains ⟨static.entries ++ intake.entries⟩ p.name with
        | some p =>
          rw [hfind] at hobject
          exact .inr ⟨_, hobject, .missing hall hserved ((find?_eq_some_iff_earliest hlacks).mp hfind)⟩
        | none =>
          rw [hfind] at hobject
          refine .inl ⟨intake, hobject, acceptsInput_iff.mp hreads, hserved,
            fun p hp hfree v hv hnull => converts_of_not_fails hall hp hfree hv hnull,
            fun p hp hmandatory => ?_⟩
          have := mt (hlacks p hp).mpr (List.find?_eq_none.mp hfind p hp)
          by_contra hno
          rw [not_or, Bool.not_eq_true] at hno
          exact this ⟨hmandatory, hno⟩
    · simp only [herror, Except.bind, Bool.not_true, Bool.false_eq_true, if_false] at hobject
      exact .inr ⟨_, hobject, .unconvertible hp hv he⟩
  · rw [Bool.not_eq_true] at hreads
    rw [hreads, Bool.not_false, if_pos rfl] at hobject
    have hnone : ∀ p ∈ binder.parameters, p.pipeline = .none := by
      by_contra hno
      push Not at hno
      rw [acceptsInput_iff.mpr hno] at hreads
      cases hreads
    exact .inr ⟨_, hobject, .unaccepted (fun p hp h => h.pipeline_ne (hnone p hp))
      fun p hp h => h.pipeline_ne (hnone p hp)⟩

/-- There is at most one reason why an object cannot be bound. -/
theorem Refusal.unique {e e' : BindingError} (h : binder.Refusal static input e)
    (h' : binder.Refusal static input e') : e = e' := by
  cases h with
  | unconvertible h hv he =>
    cases h' with
    | unconvertible h' hv' he' =>
      obtain rfl := h.unique h'
      obtain rfl := hv.unique hv'
      cases he.symm.trans he'
      rfl
    | unaccepted hall => exact absurd h.holds (hall _ h.mem)
    | missing hall => exact absurd h.holds (hall _ h.mem)
  | unaccepted hall hserved =>
    cases h' with
    | unconvertible h' => exact absurd h'.holds (hall _ h'.mem)
    | unaccepted => rfl
    | missing _ hserved' =>
      obtain ⟨p, hp, h⟩ := hserved'
      exact absurd h (hserved p hp)
  | missing hall hserved h =>
    cases h' with
    | unconvertible h' => exact absurd h'.holds (hall _ h'.mem)
    | unaccepted _ hnone =>
      obtain ⟨p, hp, h⟩ := hserved
      exact absurd h (hnone p hp)
    | missing _ _ h' => rw [h.unique h']

/-- An object that cannot be bound does not supply what is needed. -/
theorem Refusal.not_accepts {e : BindingError} (h : binder.Refusal static input e) :
    ¬ binder.Accepts static input := by
  intro haccepts
  cases h with
  | unconvertible h =>
    obtain ⟨hfree, v, hv, hnull, hnone⟩ := h.holds
    obtain ⟨w, hw⟩ := haccepts.converts _ h.mem hfree v hv hnull
    exact hnone w hw
  | unaccepted _ hnone =>
    obtain ⟨p, hp, h⟩ := haccepts.served
    exact hnone p hp h
  | missing _ _ h =>
    obtain ⟨hmandatory, hstatic, hserved⟩ := h.holds
    rcases haccepts.mandatory _ h.mem hmandatory with h | h
    · rw [hstatic] at h
      cases h
    · exact hserved h

/-- **An object is bound by precedence.** Where the names of a table are all different, an object is bound
exactly where it supplies what it has to, and then to what the arguments gave and, behind that, to what it
supplies. Otherwise the error says why: it is that of the earliest property that does not convert, or else
that no parameter takes the object, or else that of the earliest mandatory parameter without a value. -/
theorem object_bound_by_precedence (binder : Binder) (static : BoundParameters) (input : Value)
    (hnames : Parameter.NamesApart binder.parameters) :
    (∀ bound, binder.bindObject static input = .ok bound
        ↔ binder.Accepts static input
          ∧ ∃ intake : Intake binder static input, bound.entries = static.entries ++ intake.entries)
      ∧ ((∃ bound, binder.bindObject static input = .ok bound) ↔ binder.Accepts static input)
      ∧ ∀ e, binder.bindObject static input = .error e ↔ binder.Refusal static input e := by
  rcases bindObject_cases static input hnames with
    ⟨intake, hok, haccepts⟩ | ⟨e, herror, hrefusal⟩
  · refine ⟨fun bound => ?_, iff_of_true ⟨_, hok⟩ haccepts, fun e => ?_⟩
    · rw [hok, Except.ok.injEq]
      constructor
      · rintro rfl
        exact ⟨haccepts, intake, rfl⟩
      · rintro ⟨-, intake', hentries⟩
        rw [intake.entries_eq hnames intake', ← hentries]
    · exact iff_of_false (by simp [hok]) fun h => h.not_accepts haccepts
  · refine ⟨fun bound => ?_, iff_of_false (by simp [herror]) hrefusal.not_accepts, fun e' => ?_⟩
    · exact iff_of_false (by simp [herror]) fun h => hrefusal.not_accepts h.1
    · rw [herror, Except.error.injEq]
      constructor
      · rintro rfl
        exact hrefusal
      · exact hrefusal.unique

/-- A command that measures texts, or objects that know their own length. -/
def measuring : Binder where
  parameters := [
    { name := "Number", type := .int, pipeline := .byValue },
    { name := "Text", type := .string, pipeline := .byValue },
    { name := "Size", type := .int, pipeline := .byPropertyName, aliases := ["Length"],
      mandatory := true }]
  adapter := .standard .empty

/-- An object with a length is accepted by a command that measures, through an alias of its size; an
object whose size is no number is refused. -/
theorem object_bound_by_precedence_measuring :
    Parameter.NamesApart measuring.parameters
      ∧ (∃ bound, ∃ intake : Intake measuring .empty (.object [("length", .string "12")]),
          measuring.bindObject .empty (.object [("length", .string "12")]) = .ok bound
            ∧ bound.entries = intake.entries)
      ∧ measuring.Refusal .empty (.object [("Size", .string "big")])
          (.typeConversionFailed "Size" "big" "string" .int) := by
  have hnames : Parameter.NamesApart measuring.parameters := by decide
  have haccepted : (measuring.bindObject .empty (.object [("length", .string "12")])).isOk = true := by
    decide +kernel
  have hrefused : (measuring.bindObject .empty (.object [("Size", .string "big")])).map (fun _ => ())
      = .error (.typeConversionFailed "Size" "big" "string" .int) := by
    decide +kernel
  refine ⟨hnames, ?_, ?_⟩
  · have hbound := (object_bound_by_precedence measuring .empty
      (.object [("length", .string "12")]) hnames).1
    cases h : measuring.bindObject .empty (.object [("length", .string "12")]) with
    | error e =>
      rw [h] at haccepted
      cases haccepted
    | ok bound =>
      obtain ⟨-, intake, hentries⟩ := (hbound bound).mp h
      exact ⟨bound, intake, rfl, hentries⟩
  · have hrefusal := (object_bound_by_precedence measuring .empty
      (.object [("Size", .string "big")]) hnames).2.2
    cases h : measuring.bindObject .empty (.object [("Size", .string "big")]) with
    | error e =>
      rw [h] at hrefused
      obtain rfl := Except.error.inj hrefused
      exact (hrefusal _).mp h
    | ok bound =>
      rw [h] at hrefused
      cases hrefused

end Binder

end CommandChain
