import CommandChain.Proofs.Binding.Order
import Mathlib.Data.List.Flatten
import Mathlib.Data.List.Pairwise
/-!
# Arguments and the parameters they are for

What static binding is to do is said here without the steps that it takes. A name stands for the parameter
that bears it, or else for the only one that bears a name starting with it. An assignment gives every
argument an entry of its own: to those with names that of the parameter they stand for, to the others
those of the places in turn. Where the names and aliases of a table are all different, binding finds the
assignment of the arguments, and it fails exactly where something stands in the way of one.
-/

namespace CommandChain

/-! ## What names stand for -/

namespace Parameter

/-- The name of a parameter and its aliases. -/
def labels (p : Parameter) : List String :=
  p.name :: p.aliases

/-- A text is the name or an alias of a parameter, up to case. -/
def Bears (p : Parameter) (text : String) : Prop :=
  ∃ label ∈ p.labels, Text.foldCase label = Text.foldCase text

/-- The name or an alias of a parameter starts with a text, up to case. -/
def BearsFrom (p : Parameter) (text : String) : Prop :=
  ∃ label ∈ p.labels, Text.foldCase text <+: Text.foldCase label

/-- The names and aliases of a table and those of the common parameters are all different, whatever their
case. -/
def Unmistakable (table : List Parameter) : Prop :=
  (((table ++ common).flatMap labels).map Text.foldCase).Nodup

instance (table : List Parameter) : Decidable (Unmistakable table) :=
  inferInstanceAs (Decidable (List.Nodup _))

variable {table : List Parameter} {p q : Parameter} {text : String}

/-- The scan of names and aliases finds a text exactly where the parameter bears it. -/
theorem isNamed_iff : p.isNamed text = true ↔ p.Bears text := by
  simp [isNamed, Bears, labels, Text.sameName_iff]

/-- The scan for a prefix finds a text exactly where a name or alias starts with it. -/
theorem startsWith_iff : p.startsWith text = true ↔ p.BearsFrom text := by
  simp [startsWith, BearsFrom, labels, Text.startsWithName]

/-- A parameter that bears a text has a name or alias starting with it: the text itself. -/
theorem Bears.from (h : p.Bears text) : p.BearsFrom text := by
  obtain ⟨label, hlabel, hsame⟩ := h
  exact ⟨label, hlabel, hsame ▸ List.prefix_rfl⟩

namespace Unmistakable

/-- Two parameters that bear one text are the same. -/
theorem eq_of_bears (h : Unmistakable table) (hp : p ∈ table ++ common) (hq : q ∈ table ++ common)
    (hpt : p.Bears text) (hqt : q.Bears text) : p = q := by
  rw [Unmistakable, List.map_flatMap, List.nodup_flatMap] at h
  by_contra hne
  obtain ⟨label, hlabel, hsame⟩ := hpt
  obtain ⟨label', hlabel', hsame'⟩ := hqt
  have : Std.Symm (Function.onFun List.Disjoint fun r : Parameter => r.labels.map Text.foldCase) :=
    ⟨fun _ _ hdisjoint => List.disjoint_symm hdisjoint⟩
  refine h.2.forall hp hq hne (List.mem_map_of_mem hlabel) ?_
  rw [hsame, ← hsame']
  exact List.mem_map_of_mem hlabel'

/-- Where names and aliases are all different, so are the names. -/
theorem distinct (h : Unmistakable table) : Distinct table := by
  have hsub (ps : List Parameter) : (ps.map Parameter.name).Sublist (ps.flatMap labels) := by
    induction ps with
    | nil => exact .slnil
    | cons p ps ih => exact (ih.trans (List.sublist_append_right _ _)).cons_cons _
  have hnames := (hsub (table ++ common)).map Text.foldCase
  rw [List.map_map] at hnames
  exact h.sublist hnames

/-- A table whose names are all different lists no parameter twice. -/
theorem nodup (h : Unmistakable table) : (table ++ common).Nodup :=
  h.distinct.of_map

end Unmistakable

end Parameter

namespace Binder

/-- The parameters that an argument can be for: those of the command and the common ones. -/
def known (binder : Binder) : List Parameter :=
  binder.parameters ++ Parameter.common

/-- A name, without the dashes before it, stands for a parameter: for the one that bears it, or, where
none does, for the only one that bears a name starting with it. -/
inductive Denotes (binder : Binder) (name : String) (p : Parameter) : Prop
  | full (hp : p ∈ binder.known) (hbears : p.Bears (Text.dropDashes name))
  | short (hp : p ∈ binder.known) (hnone : ∀ q ∈ binder.known, ¬ q.Bears (Text.dropDashes name))
    (hstarts : p.BearsFrom (Text.dropDashes name))
    (honly : ∀ q ∈ binder.known, q.BearsFrom (Text.dropDashes name) → q = p)

variable {binder : Binder} {arguments : List Argument} {expectsInput : Bool} {name : String}
  {p q : Parameter} {v w : Value} {e : BoundParameter} {bound named static : BoundParameters}

/-- A name stands for parameters of the table or common ones only. -/
theorem Denotes.mem (h : binder.Denotes name p) : p ∈ binder.known := by
  cases h with
  | full hp => exact hp
  | short hp => exact hp

section

variable (hunmistakable : Parameter.Unmistakable binder.parameters)

include hunmistakable

/-- Names are resolved to what they stand for. -/
theorem resolve_ok_iff : binder.resolve name = .ok p ↔ binder.Denotes name p := by
  simp only [resolve]
  split
  · next q hfound =>
    have hq := List.mem_of_find?_eq_some hfound
    have hbears := Parameter.isNamed_iff.mp
      (List.find?_some (p := fun r : Parameter => r.isNamed (Text.dropDashes name)) hfound)
    constructor
    · rintro ⟨⟩
      exact .full hq hbears
    · intro h
      cases h with
      | full hp hbears' => rw [hunmistakable.eq_of_bears hq hp hbears hbears']
      | short _ hnone => exact absurd hbears (hnone q hq)
  · next hnone =>
    have hnone : ∀ q ∈ binder.known, ¬ q.Bears (Text.dropDashes name) := fun q hq hbears =>
      List.find?_eq_none.mp hnone q hq (Parameter.isNamed_iff.mpr hbears)
    have hmem (q : Parameter) : q ∈ binder.known.filter (·.startsWith (Text.dropDashes name))
        ↔ q ∈ binder.known ∧ q.BearsFrom (Text.dropDashes name) := by
      rw [List.mem_filter, Parameter.startsWith_iff]
    have hnodup : (binder.known.filter (·.startsWith (Text.dropDashes name))).Nodup :=
      hunmistakable.nodup.filter _
    rw [show binder.parameters ++ Parameter.common = binder.known from rfl]
    generalize binder.known.filter (·.startsWith (Text.dropDashes name)) = matching at hmem hnodup
    constructor
    · intro h
      split at h
      · cases h
      · next q =>
        cases h
        obtain ⟨hp, hstarts⟩ := (hmem p).mp (.head _)
        exact .short hp hnone hstarts fun q hq hq' => List.mem_singleton.mp ((hmem q).mpr ⟨hq, hq'⟩)
      · cases h
    · intro h
      cases h with
      | full hp hbears => exact absurd hbears (hnone p hp)
      | short hp _ hstarts honly =>
        -- All that match are this parameter, and it is in the table once.
        have hall : matching = [p] := by
          refine List.perm_singleton.mp ((List.perm_ext_iff_of_nodup hnodup (by simp)).mpr fun q => ?_)
          rw [hmem, List.mem_singleton]
          exact ⟨fun hq => honly q hq.1 hq.2, by rintro rfl; exact ⟨hp, hstarts⟩⟩
        rw [hall]

/-- Where names and aliases are all different, a name stands for at most one parameter. -/
theorem Denotes.unique (h : binder.Denotes name p) (h' : binder.Denotes name q) : p = q := by
  have hp := (resolve_ok_iff hunmistakable).mpr h
  rw [(resolve_ok_iff hunmistakable).mpr h'] at hp
  exact (Except.ok.inj hp).symm

end

/-! ## What values become -/

/-- What an argument for a parameter comes to: its value, converted to the type of the parameter, or,
where it has none and the parameter is a switch, the switch turned on. -/
inductive Takes (binder : Binder) (p : Parameter) : Option Value → Value → Prop
  | converted {v w : Value} (h : binder.adapter.convertTo v p.type = .ok w) : Takes binder p (some v) w
  | switched (h : p.type = .bool) : Takes binder p none (.bool true)

/-- Conversion gives exactly the values that a supplied value comes to. -/
theorem convert_ok_iff : binder.convert p v = .ok w ↔ binder.Takes p (some v) w := by
  rw [convert]
  constructor
  · intro h
    split at h
    · next hconvert =>
      cases h
      exact .converted hconvert
    · cases h
  · rintro ⟨hconvert⟩
    rw [hconvert]

/-- The value worked out for an argument is what the argument comes to, whether it has a value or is
a switch. -/
theorem argumentValue_ok_iff {value : Option Value} :
    binder.argumentValue p value = .ok w ↔ binder.Takes p value w := by
  cases value with
  | some v => exact convert_ok_iff
  | none =>
    rw [argumentValue]
    constructor
    · intro h
      split at h
      · next htype =>
        cases h
        exact .switched (beq_iff_eq.mp htype)
      · cases h
    · rintro ⟨⟩
      next htype => rw [if_pos (beq_iff_eq.mpr htype)]

/-- An entry is that of an argument with a name. -/
def NamedEntry (binder : Binder) (argument : String × Option Value) (e : BoundParameter) : Prop :=
  ∃ p, binder.Denotes argument.1 p ∧ binder.Takes p argument.2 e.value ∧ e.name = p.name
    ∧ e.source = .named

/-- An entry is that of a value put into a place. -/
def PlacedEntry (binder : Binder) (fill : Parameter × Value) (e : BoundParameter) : Prop :=
  binder.Takes fill.1 (some fill.2) e.value ∧ e.name = fill.1.name ∧ e.source = .positional

/-! ## Places -/

/-- One place comes before another: by its number, and among equal numbers by declaration. -/
def Precedes (binder : Binder) (p q : Parameter) : Prop :=
  p.position.getD 0 < q.position.getD 0
    ∨ p.position.getD 0 = q.position.getD 0 ∧ binder.parameters.idxOf p < binder.parameters.idxOf q

/-- A parameter is bound by name: an argument with a name stands for it. -/
def Given (binder : Binder) (arguments : List Argument) (p : Parameter) : Prop :=
  ∃ argument ∈ nameds arguments, binder.Denotes argument.1 p

/-- The places that are left for the arguments without names, in turn. -/
structure Turn (binder : Binder) (arguments : List Argument) (places : List Parameter) : Prop where
  mem : ∀ p, p ∈ places
    ↔ p ∈ binder.parameters ∧ p.position.isSome = true ∧ ¬ binder.Given arguments p
  ordered : places.Pairwise binder.Precedes

/-- No place comes before itself. -/
theorem Precedes.irrefl (p : Parameter) : ¬ binder.Precedes p p := by
  unfold Precedes
  omega

/-- Of two places, at most one comes before the other. -/
theorem Precedes.asymm (h : binder.Precedes p q) : ¬ binder.Precedes q p := by
  unfold Precedes at *
  omega

/-- A turn lists no place twice, since its order is strict. -/
theorem Turn.nodup {places : List Parameter} (h : binder.Turn arguments places) : places.Nodup :=
  h.ordered.imp fun {p q} (hpq : binder.Precedes p q) (heq : p = q) =>
    Precedes.irrefl q (heq ▸ hpq)

/-- There is one way only to put the places that are left in turn. -/
theorem Turn.unique {places places' : List Parameter} (h : binder.Turn arguments places)
    (h' : binder.Turn arguments places') : places = places' := by
  have hperm : places.Perm places' :=
    (List.perm_ext_iff_of_nodup h.nodup h'.nodup).mpr fun p => (h.mem p).trans (h'.mem p).symm
  exact hperm.eq_of_pairwise (fun p q _ _ hpq hqp => absurd hqp hpq.asymm) h.ordered h'.ordered

/-- In a list without repetition, the first of a pair is found first. -/
theorem idxOf_lt_of_sublist {ps : List Parameter} (hps : ps.Nodup) (h : [p, q].Sublist ps) :
    ps.idxOf p < ps.idxOf q := by
  induction ps with
  | nil => cases h
  | cons r ps ih =>
    rw [List.nodup_cons] at hps
    cases h with
    | cons _ h =>
      have hp : r ≠ p := fun heq => hps.1 (heq ▸ h.subset (.head _))
      have hq : r ≠ q := fun heq => hps.1 (heq ▸ h.subset (.tail _ (.head _)))
      rw [List.idxOf_cons_ne _ hp, List.idxOf_cons_ne _ hq]
      exact Nat.succ_lt_succ (ih hps.2 h)
    | cons_cons _ h =>
      have hq : p ≠ q := fun heq => hps.1 (heq ▸ List.singleton_sublist.mp h)
      rw [List.idxOf_cons_self, List.idxOf_cons_ne _ hq]
      exact Nat.succ_pos _

/-- What is found first stands first. -/
theorem sublist_of_idxOf_lt {ps : List Parameter} (hq : q ∈ ps) (h : ps.idxOf p < ps.idxOf q) :
    [p, q].Sublist ps := by
  induction ps with
  | nil => cases hq
  | cons r ps ih =>
    by_cases hp : r = p
    · subst hp
      have hne : q ≠ r := by
        intro heq
        subst heq
        exact absurd h (Nat.lt_irrefl _)
      exact (List.singleton_sublist.mpr (List.mem_of_ne_of_mem hne hq)).cons_cons _
    · have hne : r ≠ q := by
        intro heq
        subst heq
        rw [List.idxOf_cons_self] at h
        exact absurd h (Nat.not_lt_zero _)
      rw [List.idxOf_cons_ne _ hp, List.idxOf_cons_ne _ hne] at h
      exact (ih (List.mem_of_ne_of_mem hne.symm hq) (Nat.lt_of_succ_lt_succ h)).cons _

/-- The comparison that sorts the places goes by their numbers alone; a missing number counts as 0.
-/
theorem placedBefore_iff :
    placedBefore p q = true ↔ p.position.getD 0 ≤ q.position.getD 0 := by
  rw [placedBefore, decide_eq_true_iff]

/-- Sorting the free places by their numbers puts them in turn. -/
theorem turn_mergeSort (hnodup : binder.parameters.Nodup) {free : Parameter → Bool}
    (hfree : ∀ p ∈ binder.parameters,
      free p = true ↔ p.position.isSome = true ∧ ¬ binder.Given arguments p) :
    binder.Turn arguments ((binder.parameters.filter free).mergeSort placedBefore) := by
  have htrans (a b c : Parameter) (hab : placedBefore a b = true) (hbc : placedBefore b c = true) :
      placedBefore a c = true := by
    rw [placedBefore_iff] at *
    omega
  have htotal (a b : Parameter) : (placedBefore a b || placedBefore b a) = true := by
    rw [Bool.or_eq_true, placedBefore_iff, placedBefore_iff]
    omega
  have hsorted : ((binder.parameters.filter free).mergeSort placedBefore).Nodup :=
    (List.mergeSort_perm _ _).nodup_iff.mpr (hnodup.filter _)
  constructor
  · intro p
    rw [List.mem_mergeSort, List.mem_filter]
    exact and_congr_right (hfree p)
  · rw [List.pairwise_iff_forall_sublist]
    intro p q hpq
    have hle := placedBefore_iff.mp ((List.pairwise_mergeSort htrans htotal _).forall_sublist hpq)
    have hne : p ≠ q := by simpa using hsorted.sublist hpq
    have hmem {r : Parameter} (hr : r ∈ [p, q]) : r ∈ binder.parameters :=
      List.mem_of_mem_filter (List.mem_mergeSort.mp (hpq.subset hr))
    by_contra hnot
    -- Otherwise the second is declared first, and the sort, being stable, has it first.
    have hback : binder.parameters.idxOf q < binder.parameters.idxOf p := by
      have hidx := mt (List.idxOf_inj (hmem (.head _))).mp hne
      unfold Precedes at hnot
      omega
    have hswapped : [q, p].Sublist (binder.parameters.filter free) := by
      have hsub := (sublist_of_idxOf_lt (hmem (.head _)) hback).filter free
      rwa [List.filter_eq_self.mpr] at hsub
      intro r hr
      have hr' := List.mem_mergeSort.mp (hpq.subset (List.mem_reverse.mp hr : r ∈ [p, q]))
      exact (List.mem_filter.mp hr').2
    have hsecond := List.pair_sublist_mergeSort htrans htotal
      (placedBefore_iff.mpr (by unfold Precedes at hnot; omega)) hswapped
    exact Nat.lt_asymm (idxOf_lt_of_sublist hsorted hpq) (idxOf_lt_of_sublist hsorted hsecond)

/-! ## Assignments -/

/-- An assignment of arguments to parameters. The first places in turn are filled, as many as there are
arguments without names, and the others are left. -/
structure Assignment (binder : Binder) (arguments : List Argument) (expectsInput : Bool) where
  named : List BoundParameter
  filled : List Parameter
  left : List Parameter
  placed : List BoundParameter
  named_entries : List.Forall₂ binder.NamedEntry (nameds arguments) named
  /-- No two arguments with names are for one parameter. -/
  once : named.Pairwise BoundParameter.Apart
  turn : binder.Turn arguments (filled ++ left)
  length_filled : filled.length = (positionals arguments).length
  placed_entries : List.Forall₂ binder.PlacedEntry (filled.zip (positionals arguments)) placed
  /-- What is mandatory is bound, unless it is left to the objects that will arrive. -/
  mandatory : ∀ p ∈ binder.parameters, p.mandatory = true →
    (expectsInput && p.acceptsInput) = false → binder.Given arguments p ∨ p ∈ filled

/-- The entries of an assignment: of the arguments with names, then of the others. -/
def Assignment.entries (a : Assignment binder arguments expectsInput) : List BoundParameter :=
  a.named ++ a.placed

/-- Every argument has a name or has none. -/
theorem length_nameds_add (arguments : List Argument) :
    (nameds arguments).length + (positionals arguments).length = arguments.length := by
  induction arguments with
  | nil => rfl
  | cons argument rest ih =>
    cases argument with
    | named name value =>
      rw [List.length_cons, ← ih, positionals]
      exact Nat.succ_add _ _
    | positional v =>
      rw [List.length_cons, ← ih, positionals]
      rfl

/-- There are as many entries as arguments. -/
theorem Assignment.length_entries (a : Assignment binder arguments expectsInput) :
    a.entries.length = arguments.length := by
  have hnamed := a.named_entries.length_eq
  have hplaced := a.placed_entries.length_eq
  have hfilled := a.length_filled
  rw [List.length_zip] at hplaced
  rw [← length_nameds_add arguments, entries, List.length_append]
  omega

/-- The entries of the places have their names. -/
theorem names_placed {filled : List Parameter} {values : List Value} {placed : List BoundParameter}
    (hlength : filled.length = values.length)
    (h : List.Forall₂ binder.PlacedEntry (filled.zip values) placed) :
    placed.map BoundParameter.name = filled.map Parameter.name := by
  have hnames : List.Forall₂ Eq ((filled.zip values).map (Parameter.name ∘ Prod.fst))
      (placed.map BoundParameter.name) :=
    List.forall₂_map_left_iff.mpr (List.forall₂_map_right_iff.mpr (h.imp fun _ _ he => he.2.1.symm))
  rw [List.forall₂_eq_eq_eq] at hnames
  rw [← hnames, ← List.map_map, List.map_fst_zip (Nat.le_of_eq hlength)]

section

variable (hunmistakable : Parameter.Unmistakable binder.parameters)

include hunmistakable

/-- Parameters of a table that are not the same have different names. -/
theorem apart_of_ne (hp : p ∈ binder.known) (hq : q ∈ binder.known) (hne : p ≠ q) :
    Text.sameName p.name q.name = false := by
  rw [← Bool.not_eq_true]
  exact fun hsame => hne (hunmistakable.distinct.eq_of_sameName hp hq hsame)

/-- The entries of the arguments with names are those of the parameters given by name. -/
theorem exists_named_iff {named : List BoundParameter}
    (h : List.Forall₂ binder.NamedEntry (nameds arguments) named) (hp : p ∈ binder.known) :
    (∃ e ∈ named, Text.sameName e.name p.name = true) ↔ binder.Given arguments p := by
  rw [Given]
  generalize nameds arguments = given at h
  induction h with
  | nil => simp
  | @cons argument e _ _ hentry _ ih =>
    have hhead : Text.sameName e.name p.name = true ↔ binder.Denotes argument.1 p := by
      obtain ⟨q, hdenotes, -, hname, -⟩ := hentry
      rw [hname]
      constructor
      · intro hsame
        rwa [← hunmistakable.distinct.eq_of_sameName hdenotes.mem hp hsame]
      · intro hdenotes'
        rw [hdenotes.unique hunmistakable hdenotes']
        exact Text.sameName_refl _
    simp only [List.mem_cons, exists_eq_or_imp, hhead, ih]

/-- The entries of the places are those of the parameters that fill them. -/
theorem exists_placed_iff {filled : List Parameter} {values : List Value}
    {placed : List BoundParameter} (hlength : filled.length = values.length)
    (h : List.Forall₂ binder.PlacedEntry (filled.zip values) placed)
    (hfilled : ∀ q ∈ filled, q ∈ binder.known) (hp : p ∈ binder.known) :
    (∃ e ∈ placed, Text.sameName e.name p.name = true) ↔ p ∈ filled := by
  have hnames := names_placed hlength h
  constructor
  · rintro ⟨e, he, hsame⟩
    have hname := List.mem_map_of_mem (f := BoundParameter.name) he
    rw [hnames] at hname
    obtain ⟨q, hq, hqname⟩ := List.mem_map.mp hname
    rw [← hqname] at hsame
    rwa [← hunmistakable.distinct.eq_of_sameName (hfilled q hq) hp hsame]
  · intro hmem
    have hname := List.mem_map_of_mem (f := Parameter.name) hmem
    rw [← hnames] at hname
    obtain ⟨e, he, hename⟩ := List.mem_map.mp hname
    refine ⟨e, he, ?_⟩
    rw [hename]
    exact Text.sameName_refl _

/-- Places in turn have different names. -/
theorem Turn.apart {places : List Parameter} (h : binder.Turn arguments places) :
    places.Pairwise fun p q => Text.sameName p.name q.name = false := by
  have hknown {p : Parameter} (hp : p ∈ places) : p ∈ binder.known :=
    List.mem_append_left _ ((h.mem p).mp hp).1
  exact h.nodup.imp_of_mem fun hp hq hne => apart_of_ne hunmistakable (hknown hp) (hknown hq) hne

/-- No parameter is bound twice. -/
theorem Assignment.entries_apart (a : Assignment binder arguments expectsInput) :
    a.entries.Pairwise BoundParameter.Apart := by
  have hnames := names_placed a.length_filled a.placed_entries
  have hfilled : (a.filled.map Parameter.name).Pairwise fun s t => Text.sameName s t = false :=
    List.pairwise_map.mpr
      ((a.turn.apart hunmistakable).sublist (List.sublist_append_left _ _))
  rw [← hnames, List.pairwise_map] at hfilled
  rw [entries, List.pairwise_append]
  refine ⟨a.once, hfilled, fun e he e' he' => ?_⟩
  have hname := List.mem_map_of_mem (f := BoundParameter.name) he'
  rw [hnames] at hname
  obtain ⟨q, hq, hqname⟩ := List.mem_map.mp hname
  obtain ⟨hmem, -, hfree⟩ := (a.turn.mem q).mp (List.mem_append_left _ hq)
  rw [BoundParameter.Apart, ← Bool.not_eq_true, ← hqname]
  intro hsame
  exact hfree ((exists_named_iff hunmistakable a.named_entries (List.mem_append_left _ hmem)).mp
    ⟨e, he, hsame⟩)

/-- The entry that the binder makes for a named argument is the one that the assignment asks for. -/
theorem enters_iff {argument : String × Option Value} :
    binder.Enters argument e ↔ binder.NamedEntry argument e := by
  simp only [Enters, NamedEntry, resolve_ok_iff hunmistakable, argumentValue_ok_iff]

end

/-- Values are put into free places one after the other. -/
theorem bindPositions_ok_iff {values : List Value} {free : List Parameter}
    (hfree : ∀ p ∈ free, bound.contains p.name = false)
    (hapart : free.Pairwise fun p q => Text.sameName p.name q.name = false) :
    binder.bindPositions values free bound = .ok static
      ↔ ∃ filled left placed, free = filled ++ left ∧ filled.length = values.length
        ∧ List.Forall₂ binder.PlacedEntry (filled.zip values) placed
        ∧ static.entries = bound.entries ++ placed := by
  induction values generalizing free bound with
  | nil =>
    have hnothing : binder.bindPositions [] free bound = .ok bound := by
      cases free <;> rfl
    rw [hnothing]
    constructor
    · rintro ⟨⟩
      exact ⟨[], free, [], rfl, rfl, .nil, (List.append_nil _).symm⟩
    · rintro ⟨filled, left, placed, -, hlength, hplaced, hentries⟩
      obtain rfl := List.eq_nil_of_length_eq_zero hlength
      cases hplaced
      obtain ⟨entries⟩ := static
      cases hentries.trans (List.append_nil _)
      rfl
  | cons v values ih =>
    cases free with
    | nil =>
      constructor
      · rintro ⟨⟩
      · rintro ⟨filled, left, placed, hsplit, hlength, -⟩
        rw [(List.append_eq_nil_iff.mp hsplit.symm).1] at hlength
        cases hlength
    | cons p free =>
      obtain ⟨hnone, hlater⟩ := List.forall_mem_cons.mp hfree
      obtain ⟨hhead, htail⟩ := List.pairwise_cons.mp hapart
      have hfree' (w : Value) :
          ∀ q ∈ free, (bound.insert p.name w .positional).contains q.name = false := fun q hq =>
        (BoundParameters.contains_insert_eq_false_iff hnone _ _ _).mpr ⟨hlater q hq, hhead q hq⟩
      rw [bindPositions_cons_ok_iff]
      constructor
      · rintro ⟨w, hw, h⟩
        obtain ⟨filled, left, placed, rfl, hlength, hplaced, hentries⟩ :=
          (ih (hfree' w) htail).mp h
        refine ⟨p :: filled, left, ⟨p.name, w, .positional⟩ :: placed, rfl,
          congrArg Nat.succ hlength, .cons ⟨convert_ok_iff.mp hw, rfl, rfl⟩ hplaced, ?_⟩
        rw [hentries, BoundParameters.entries_insert hnone, List.append_assoc]
        rfl
      · rintro ⟨filled, left, placed, hsplit, hlength, hplaced, hentries⟩
        cases filled with
        | nil => cases hlength
        | cons q filled =>
          cases hsplit
          rw [List.zip_cons_cons] at hplaced
          cases hplaced with
          | @cons _ e _ placed hentry hplaced =>
            obtain ⟨htakes, hname, hsource⟩ := hentry
            have he : e = ⟨p.name, e.value, .positional⟩ := by
              rw [← hname, ← hsource]
            refine ⟨e.value, convert_ok_iff.mpr htakes, (ih (hfree' e.value) htail).mpr
              ⟨filled, left, placed, rfl, Nat.succ.inj hlength, hplaced, ?_⟩⟩
            rw [hentries, BoundParameters.entries_insert hnone, List.append_assoc, he]
            rfl

section

variable (hunmistakable : Parameter.Unmistakable binder.parameters)
  (hnamed : List.Forall₂ binder.NamedEntry (nameds arguments) named.entries)

include hunmistakable hnamed

/-- After the named arguments are bound, a parameter has an entry exactly if one of them stands for
it. -/
theorem contains_iff_given (hp : p ∈ binder.parameters) :
    named.contains p.name = true ↔ binder.Given arguments p := by
  rw [BoundParameters.contains_iff]
  exact exists_named_iff hunmistakable hnamed (List.mem_append_left _ hp)

/-- The places that are filled once the arguments with names are bound are in turn. -/
theorem turn_slots : binder.Turn arguments (binder.slots named) := by
  apply turn_mergeSort (List.Nodup.of_append_left hunmistakable.nodup)
  intro p hp
  rw [Bool.and_eq_true, Bool.not_eq_true', ← Bool.not_eq_true,
    contains_iff_given hunmistakable hnamed hp]

/-- Binding the positional values succeeds exactly if there are enough places, each value comes to
something in its place, and what results are the entries of the first places in turn. -/
theorem bindPositions_slots_iff :
    binder.bindPositions (positionals arguments) (binder.slots named) named = .ok static
      ↔ ∃ filled left placed, binder.slots named = filled ++ left
        ∧ filled.length = (positionals arguments).length
        ∧ List.Forall₂ binder.PlacedEntry (filled.zip (positionals arguments)) placed
        ∧ static.entries = named.entries ++ placed := by
  have hturn := turn_slots hunmistakable hnamed
  apply bindPositions_ok_iff
  · intro p hp
    obtain ⟨hmem, -, hfree⟩ := (hturn.mem p).mp hp
    rwa [← Bool.not_eq_true, contains_iff_given hunmistakable hnamed hmem]
  · exact hturn.apart hunmistakable

/-- What is mandatory is not missing where it is given by name or fills a place. -/
theorem missing?_eq_none_iff {filled : List Parameter} {placed : List BoundParameter}
    (hfilled : ∀ q ∈ filled, q ∈ binder.parameters)
    (hlength : filled.length = (positionals arguments).length)
    (hplaced : List.Forall₂ binder.PlacedEntry (filled.zip (positionals arguments)) placed)
    (hentries : static.entries = named.entries ++ placed) :
    binder.missing? static expectsInput = none ↔ ∀ p ∈ binder.parameters, p.mandatory = true →
      (expectsInput && p.acceptsInput) = false → binder.Given arguments p ∨ p ∈ filled := by
  have hbound {p : Parameter} (hp : p ∈ binder.parameters) :
      static.contains p.name = true ↔ binder.Given arguments p ∨ p ∈ filled := by
    have hp' : p ∈ binder.known := List.mem_append_left _ hp
    have hfilled' : ∀ q ∈ filled, q ∈ binder.known := fun q hq =>
      List.mem_append_left _ (hfilled q hq)
    rw [BoundParameters.contains_iff, hentries]
    simp only [List.mem_append, or_and_right, exists_or]
    rw [exists_named_iff hunmistakable hnamed hp',
      exists_placed_iff hunmistakable hlength hplaced hfilled' hp']
  rw [missing?, List.find?_eq_none]
  apply forall₂_congr
  intro p hp
  rw [← hbound hp]
  cases p.mandatory <;> cases expectsInput && p.acceptsInput <;> simp

end

/-- **Binding finds assignments.** Arguments are bound to the entries of their assignment, if they have
one, and are not bound otherwise. -/
theorem bindArguments_ok_iff (hunmistakable : Parameter.Unmistakable binder.parameters) :
    binder.bindArguments arguments expectsInput = .ok static
      ↔ ∃ a : Assignment binder arguments expectsInput, static.entries = a.entries := by
  constructor
  · intro h
    obtain ⟨named, hnames, hpositions, hmissing⟩ := bindArguments_ok h
    obtain ⟨added, hadded, honce, -, hentries⟩ := bindNames_ok_iff.mp hnames
    obtain rfl : named.entries = added := hentries
    have hnamed := hadded.imp fun _ _ => (enters_iff hunmistakable).mp
    obtain ⟨filled, left, placed, hsplit, hlength, hplaced, hstatic⟩ :=
      (bindPositions_slots_iff hunmistakable hnamed).mp hpositions
    have hturn := turn_slots hunmistakable hnamed
    rw [hsplit] at hturn
    have hfilled : ∀ q ∈ filled, q ∈ binder.parameters := fun q hq =>
      ((hturn.mem q).mp (List.mem_append_left _ hq)).1
    have hmandatory := (missing?_eq_none_iff hunmistakable hnamed hfilled hlength hplaced
      hstatic).mp hmissing
    exact ⟨⟨named.entries, filled, left, placed, hnamed, honce, hturn, hlength, hplaced, hmandatory⟩,
      hstatic⟩
  · rintro ⟨a, hentries⟩
    have hnamed : List.Forall₂ binder.NamedEntry (nameds arguments)
        (BoundParameters.mk a.named).entries := a.named_entries
    have hslots : binder.slots ⟨a.named⟩ = a.filled ++ a.left :=
      (turn_slots hunmistakable hnamed).unique a.turn
    have hfilled : ∀ q ∈ a.filled, q ∈ binder.parameters := fun q hq =>
      ((a.turn.mem q).mp (List.mem_append_left _ hq)).1
    have hnames : binder.bindNames arguments .empty = .ok ⟨a.named⟩ :=
      bindNames_ok_iff.mpr ⟨a.named, hnamed.imp fun _ _ => (enters_iff hunmistakable).mpr, a.once,
        fun _ _ => rfl, rfl⟩
    apply bindArguments_of_parts hnames
    · exact (bindPositions_slots_iff hunmistakable hnamed).mpr
        ⟨a.filled, a.left, a.placed, hslots, a.length_filled, a.placed_entries, hentries⟩
    · exact (missing?_eq_none_iff hunmistakable hnamed hfilled a.length_filled a.placed_entries
        hentries).mpr a.mandatory

end Binder

end CommandChain
