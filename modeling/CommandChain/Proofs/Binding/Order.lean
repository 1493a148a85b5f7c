import CommandChain.Proofs.Binding.Entries
import Mathlib.Data.List.Perm.Basic
/-!
# Arguments in another order

Arguments with names are bound one by one. Each gives an entry that depends on no other argument, and no
two entries may have one name. Only then are the arguments without names put into the places that are
left, in their own order. So neither the entries nor the places that are left depend on how the arguments
with names are ordered, among themselves or among the others.
-/

namespace CommandChain

/-- The name and the value of an argument given with a name. -/
def Argument.named? : Argument → Option (String × Option Value)
  | named name value => some (name, value)
  | positional _ => none

/-- The names and values of the arguments given with names, in order. -/
def Binder.nameds (arguments : List Argument) : List (String × Option Value) :=
  arguments.filterMap Argument.named?

/-- Two entries have different names. -/
def BoundParameter.Apart (e e' : BoundParameter) : Prop :=
  Text.sameName e.name e'.name = false

theorem BoundParameter.Apart.symm {e e' : BoundParameter} (h : e.Apart e') : e'.Apart e := by
  have hne : ¬ Text.sameName e.name e'.name = true := by
    rw [h]
    exact Bool.false_ne_true
  rw [Apart, ← Bool.not_eq_true]
  exact fun hsame => hne (Text.sameName_iff.mpr (Text.sameName_iff.mp hsame).symm)

namespace BoundParameters

variable {bound bound' : BoundParameters} {name : String}

/-- A name is bound exactly if an entry has that name up to case. -/
theorem contains_iff :
    bound.contains name = true ↔ ∃ e ∈ bound.entries, Text.sameName e.name name = true := by
  rw [contains, entry?, List.find?_isSome]

/-- What is contained depends on the entries, not on their order. -/
theorem contains_of_perm (h : bound.entries.Perm bound'.entries) (name : String) :
    bound'.contains name = bound.contains name := by
  rw [Bool.eq_iff_iff, contains_iff, contains_iff]
  constructor
  · rintro ⟨e, he, hsame⟩
    exact ⟨e, h.mem_iff.mpr he, hsame⟩
  · rintro ⟨e, he, hsame⟩
    exact ⟨e, h.mem_iff.mp he, hsame⟩

/-- After an insertion another name is unbound exactly if it was unbound and is not the name
inserted. -/
theorem contains_insert_eq_false_iff (hnone : bound.contains name = false) (v : Value)
    (source : BindingSource) (other : String) :
    (bound.insert name v source).contains other = false
      ↔ bound.contains other = false ∧ Text.sameName name other = false := by
  simp only [← Bool.not_eq_true, contains_iff, entries_insert hnone, List.mem_append,
    List.mem_singleton]
  constructor
  · intro h
    exact ⟨fun ⟨e, he, hsame⟩ => h ⟨e, .inl he, hsame⟩, fun hsame => h ⟨_, .inr rfl, hsame⟩⟩
  · rintro ⟨hbound, hname⟩ ⟨e, he | rfl, hsame⟩
    · exact hbound ⟨e, he, hsame⟩
    · exact hname hsame

/-- Insertion keeps two lists of entries rearrangements of one another. -/
theorem insert_perm (h : bound.entries.Perm bound'.entries) (name : String) (v : Value)
    (source : BindingSource) :
    (bound.insert name v source).entries.Perm (bound'.insert name v source).entries :=
  (h.filter _).append_right _

end BoundParameters

namespace Binder

variable {binder : Binder} {arguments arguments' : List Argument}
  {bound bound' named named' : BoundParameters}

/-! ## Arguments with names -/

/-- The entry that an argument with a name gives. -/
def Enters (binder : Binder) (argument : String × Option Value) (e : BoundParameter) : Prop :=
  ∃ p, binder.resolve argument.1 = .ok p ∧ binder.argumentValue p argument.2 = .ok e.value
    ∧ e.name = p.name ∧ e.source = .named

/-- Binding the arguments with names succeeds where each gives an entry and all entries have different
names. -/
theorem bindNames_ok_iff :
    binder.bindNames arguments bound = .ok bound'
      ↔ ∃ added, List.Forall₂ binder.Enters (nameds arguments) added
        ∧ added.Pairwise BoundParameter.Apart
        ∧ (∀ e ∈ added, bound.contains e.name = false)
        ∧ bound'.entries = bound.entries ++ added := by
  induction arguments generalizing bound with
  | nil =>
    constructor
    · rintro ⟨⟩
      exact ⟨[], .nil, .nil, by simp, (List.append_nil _).symm⟩
    · rintro ⟨added, hadded, -, -, hentries⟩
      cases hadded
      obtain ⟨entries⟩ := bound'
      cases hentries.trans (List.append_nil _)
      rfl
  | cons argument rest ih =>
    cases argument with
    | positional v => exact ih
    | named name value =>
      rw [bindNames_named_ok_iff,
        show nameds (.named name value :: rest) = (name, value) :: nameds rest from rfl]
      constructor
      · rintro ⟨p, w, hresolve, hnone, hvalue, h⟩
        obtain ⟨added, hadded, hapart, hfree, hentries⟩ := ih.mp h
        simp only [BoundParameters.contains_insert_eq_false_iff hnone] at hfree
        refine ⟨⟨p.name, w, .named⟩ :: added, .cons ⟨p, hresolve, hvalue, rfl, rfl⟩ hadded,
          List.pairwise_cons.mpr ⟨fun e he => (hfree e he).2, hapart⟩,
          List.forall_mem_cons.mpr ⟨hnone, fun e he => (hfree e he).1⟩, ?_⟩
        rw [hentries, BoundParameters.entries_insert hnone, List.append_assoc]
        rfl
      · rintro ⟨added, hadded, hapart, hfree, hentries⟩
        cases hadded with
        | @cons _ e _ added hfirst hlater =>
          obtain ⟨p, hresolve, hvalue, hname, hsource⟩ := hfirst
          rw [List.pairwise_cons] at hapart
          rw [List.forall_mem_cons, hname] at hfree
          have he : e = ⟨p.name, e.value, .named⟩ := by
            rw [← hname, ← hsource]
          refine ⟨p, e.value, hresolve, hfree.1, hvalue,
            ih.mpr ⟨added, hlater, hapart.2, fun e' he' => ?_, ?_⟩⟩
          · rw [BoundParameters.contains_insert_eq_false_iff hfree.1]
            exact ⟨hfree.2 e' he', hname ▸ hapart.1 e' he'⟩
          · rw [hentries, BoundParameters.entries_insert hfree.1, List.append_assoc, he]
            rfl

/-- Arguments with names in another order give the same entries in another order. -/
theorem bindNames_of_perm (hperm : arguments.Perm arguments')
    (h : binder.bindNames arguments .empty = .ok named) :
    ∃ named', binder.bindNames arguments' .empty = .ok named' ∧ named.entries.Perm named'.entries := by
  obtain ⟨added, hadded, hapart, hfree, hentries⟩ := bindNames_ok_iff.mp h
  obtain ⟨added', hadded', hmoved⟩ :=
    List.perm_comp_forall₂ (hperm.symm.filterMap Argument.named?) hadded
  refine ⟨⟨added'⟩, bindNames_ok_iff.mpr ⟨added', hadded', ?_, fun e he => ?_, rfl⟩, ?_⟩
  · exact hmoved.symm.pairwise hapart fun h => h.symm
  · exact hfree e (hmoved.mem_iff.mp he)
  · rw [hentries]
    exact hmoved.symm

/-! ## Arguments without names -/

/-- Places are filled with the same values, whatever the order of the entries before. -/
theorem bindPositions_of_perm {values : List Value} {free : List Parameter}
    (hperm : bound.entries.Perm bound'.entries) {result : BoundParameters}
    (h : binder.bindPositions values free bound = .ok result) :
    ∃ result', binder.bindPositions values free bound' = .ok result'
      ∧ result.entries.Perm result'.entries := by
  induction values generalizing free bound bound' with
  | nil =>
    cases h
    exact ⟨bound', by cases free <;> rfl, hperm⟩
  | cons v values ih =>
    cases free with
    | nil => cases h
    | cons p free =>
      obtain ⟨w, hw, h⟩ := bindPositions_cons_ok_iff.mp h
      obtain ⟨result', h', hsame⟩ := ih (BoundParameters.insert_perm hperm _ _ _) h
      exact ⟨result', bindPositions_cons_ok_iff.mpr ⟨w, hw, h'⟩, hsame⟩

/-- The places left for positional values depend on the entries, not on their order. -/
theorem slots_of_perm (h : bound.entries.Perm bound'.entries) :
    binder.slots bound' = binder.slots bound := by
  unfold slots
  simp only [BoundParameters.contains_of_perm h]

/-- Whether a mandatory parameter is missing does not depend on the order of the entries. -/
theorem missing?_of_perm (h : bound.entries.Perm bound'.entries) (expectsInput : Bool) :
    binder.missing? bound' expectsInput = binder.missing? bound expectsInput := by
  unfold missing?
  simp only [BoundParameters.contains_of_perm h]

/-- What binding the arguments comes to. -/
theorem bindArguments_of_parts {expectsInput : Bool} {static : BoundParameters}
    (hnamed : binder.bindNames arguments .empty = .ok named)
    (hpositions : binder.bindPositions (positionals arguments) (binder.slots named) named = .ok static)
    (hmissing : binder.missing? static expectsInput = none) :
    binder.bindArguments arguments expectsInput = .ok static := by
  unfold bindArguments
  simp only [hnamed, bind, Except.bind, hpositions, hmissing]

/-- Where arguments can be bound, they can be bound in another order, to the same entries. -/
theorem bindArguments_of_perm {expectsInput : Bool} {static : BoundParameters}
    (hperm : arguments.Perm arguments') (hpositions : positionals arguments = positionals arguments')
    (h : binder.bindArguments arguments expectsInput = .ok static) :
    ∃ static', binder.bindArguments arguments' expectsInput = .ok static'
      ∧ static.entries.Perm static'.entries := by
  obtain ⟨named, hnamed, hplaced, hmissing⟩ := bindArguments_ok h
  obtain ⟨named', hnamed', hentries⟩ := bindNames_of_perm hperm hnamed
  obtain ⟨static', hplaced', hsame⟩ := bindPositions_of_perm hentries hplaced
  refine ⟨static', bindArguments_of_parts hnamed' ?_ ?_, hsame⟩
  · rw [← hpositions, slots_of_perm hentries]
    exact hplaced'
  · rw [missing?_of_perm hsame]
    exact hmissing

/-- **The order of arguments does not matter.** Whatever the table, arguments that are moved, those
without names keeping their order among themselves, can be bound exactly if they could be before, and
they are bound to the same entries up to their order. -/
theorem argument_order_immaterial (binder : Binder) (arguments arguments' : List Argument)
    (expectsInput : Bool) (hperm : arguments.Perm arguments')
    (hpositions : positionals arguments = positionals arguments') :
    ((∃ bound, binder.bindArguments arguments expectsInput = .ok bound)
        ↔ ∃ bound', binder.bindArguments arguments' expectsInput = .ok bound')
      ∧ ∀ bound bound', binder.bindArguments arguments expectsInput = .ok bound →
        binder.bindArguments arguments' expectsInput = .ok bound' →
        bound.entries.Perm bound'.entries := by
  refine ⟨⟨fun ⟨bound, h⟩ => ?_, fun ⟨bound', h⟩ => ?_⟩, fun bound bound' h h' => ?_⟩
  · obtain ⟨bound', h', -⟩ := bindArguments_of_perm hperm hpositions h
    exact ⟨bound', h'⟩
  · obtain ⟨bound, h', -⟩ := bindArguments_of_perm hperm.symm hpositions.symm h
    exact ⟨bound, h'⟩
  · obtain ⟨moved, hmoved, hsame⟩ := bindArguments_of_perm hperm hpositions h
    rw [h'] at hmoved
    cases hmoved
    exact hsame

/-- The parameters of a command that copies a tree of files. -/
def copying : Binder where
  parameters := [
    { name := "Path", type := .string, mandatory := true, pipeline := .byValue, position := some 0 },
    { name := "Target", type := .string, mandatory := true, position := some 1 },
    { name := "Depth", type := .int, aliases := ["Level"] },
    { name := "Force", type := .bool }]
  adapter := .standard .empty

/-- A number for the depth, a place to copy from, and a place to copy to. -/
def copyingArguments : List Argument := [
  .named "lev" (some (.string "3")), .positional (.string "here"),
  .named "-t" (some (.string "there"))]

/-- The same arguments in another order. -/
def copyingArgumentsMoved : List Argument := [
  .named "-t" (some (.string "there")), .named "lev" (some (.string "3")),
  .positional (.string "here")]

/-- Two named arguments of a command that copies can be exchanged: the entries are exchanged, and no
more. -/
theorem argument_order_immaterial_copying :
    copyingArguments.Perm copyingArgumentsMoved
      ∧ positionals copyingArguments = positionals copyingArgumentsMoved
      ∧ ∃ bound bound', copying.bindArguments copyingArguments false = .ok bound
        ∧ copying.bindArguments copyingArgumentsMoved false = .ok bound'
        ∧ bound.entries.map BoundParameter.name = ["Depth", "Target", "Path"]
        ∧ bound'.entries.map BoundParameter.name = ["Target", "Depth", "Path"]
        ∧ bound.entries.Perm bound'.entries := by
  have hperm : copyingArguments.Perm copyingArgumentsMoved :=
    .trans (.cons _ (.swap _ _ _)) (.swap _ _ _)
  have hpositions : positionals copyingArguments = positionals copyingArgumentsMoved := rfl
  have hnames : ((copying.bindArguments copyingArguments false).toOption.map
        fun bound => bound.entries.map BoundParameter.name) = some ["Depth", "Target", "Path"]
      ∧ ((copying.bindArguments copyingArgumentsMoved false).toOption.map
        fun bound => bound.entries.map BoundParameter.name) = some ["Target", "Depth", "Path"] := by
    decide +kernel
  cases hbound : copying.bindArguments copyingArguments false with
  | error e =>
    rw [hbound] at hnames
    cases hnames.1
  | ok bound =>
    cases hbound' : copying.bindArguments copyingArgumentsMoved false with
    | error e =>
      rw [hbound'] at hnames
      cases hnames.2
    | ok bound' =>
      rw [hbound, hbound'] at hnames
      exact ⟨hperm, hpositions, bound, bound', rfl, rfl, Option.some.inj hnames.1,
        Option.some.inj hnames.2,
        (argument_order_immaterial copying _ _ false hperm hpositions).2 _ _ hbound hbound'⟩

end Binder

end CommandChain
