import CommandChain.Proofs.Binding.Assignment
/-!
# What stands in the way of an assignment

Arguments have no assignment for one of a few reasons: a name that stands for no parameter or could stand
for several, two arguments for one parameter, a value that is wanting or cannot be converted, more values
than places, or a mandatory parameter that nothing is for. The main statement is that static binding
returns the entries of the assignment where there is one, and fails exactly for these reasons.
-/

namespace CommandChain

section

variable {α β : Type} {R : α → β → Prop} {as : List α} {bs : List β}

/-- Where each member is related to something, the list is related to some list. -/
theorem exists_forall₂ (h : ∀ a ∈ as, ∃ b, R a b) : ∃ bs, List.Forall₂ R as bs := by
  induction as with
  | nil => exact ⟨[], .nil⟩
  | cons a as ih =>
    obtain ⟨hhead, htail⟩ := List.forall_mem_cons.mp h
    obtain ⟨b, hb⟩ := hhead
    obtain ⟨bs, hbs⟩ := ih htail
    exact ⟨b :: bs, .cons hb hbs⟩

/-- What is related to a list comes from its members. -/
theorem exists_of_mem_right (h : List.Forall₂ R as bs) {b : β} (hb : b ∈ bs) : ∃ a ∈ as, R a b := by
  obtain ⟨i, hi, rfl⟩ := List.mem_iff_getElem.mp hb
  have hi' : i < as.length := h.length_eq ▸ hi
  exact ⟨as[i], List.getElem_mem hi', h.get hi' hi⟩

/-- Pairs keep what the relation carries over. -/
theorem pairwise_of_forall₂ {S : α → α → Prop} {T : β → β → Prop} (h : List.Forall₂ R as bs)
    (himp : ∀ a b a' b', R a b → R a' b' → S a a' → T b b') (hpairs : as.Pairwise S) :
    bs.Pairwise T := by
  induction h with
  | nil => exact .nil
  | cons hhead htail ih =>
    obtain ⟨hfirst, hlater⟩ := List.pairwise_cons.mp hpairs
    refine List.pairwise_cons.mpr ⟨fun b' hb' => ?_, ih hlater⟩
    obtain ⟨a', ha', hab'⟩ := exists_of_mem_right htail hb'
    exact himp _ _ _ _ hhead hab' (hfirst a' ha')

/-- What comes behind the last partner has no part in a pairing. -/
theorem append_zip_of_length {as' : List α} (h : as.length = bs.length) :
    (as ++ as').zip bs = as.zip bs := by
  simpa using @List.zip_append _ _ as as' bs [] h

end

namespace Binder

/-- What stands in the way of an assignment of arguments. -/
inductive Objection (binder : Binder) (arguments : List Argument) (expectsInput : Bool) : Prop
  | unknown {name : String} {value : Option Value} (h : (name, value) ∈ nameds arguments)
    (hnone : ∀ p ∈ binder.known, ¬ p.BearsFrom (Text.dropDashes name))
  | ambiguous {name : String} {value : Option Value} {p q : Parameter}
    (h : (name, value) ∈ nameds arguments)
    (hnone : ∀ r ∈ binder.known, ¬ r.Bears (Text.dropDashes name)) (hp : p ∈ binder.known)
    (hq : q ∈ binder.known) (hne : p ≠ q) (hpfrom : p.BearsFrom (Text.dropDashes name))
    (hqfrom : q.BearsFrom (Text.dropDashes name))
  | twice {argument argument' : String × Option Value} {p : Parameter}
    (h : [argument, argument'].Sublist (nameds arguments)) (hp : binder.Denotes argument.1 p)
    (hp' : binder.Denotes argument'.1 p)
  | valueless {name : String} {p : Parameter} (h : (name, none) ∈ nameds arguments)
    (hp : binder.Denotes name p) (htype : p.type ≠ .bool)
  | unconvertible {name : String} {v : Value} {p : Parameter}
    (h : (name, some v) ∈ nameds arguments) (hp : binder.Denotes name p)
    (hconvert : ∀ w, binder.adapter.convertTo v p.type ≠ .ok w)
  | misplaced {places : List Parameter} {p : Parameter} {v : Value}
    (hturn : binder.Turn arguments places) (h : (p, v) ∈ places.zip (positionals arguments))
    (hconvert : ∀ w, binder.adapter.convertTo v p.type ≠ .ok w)
  | crowded {places : List Parameter} (hturn : binder.Turn arguments places)
    (h : places.length < (positionals arguments).length)
  | missing {places : List Parameter} {p : Parameter} (hturn : binder.Turn arguments places)
    (hp : p ∈ binder.parameters) (hmandatory : p.mandatory = true)
    (hneed : (expectsInput && p.acceptsInput) = false) (hgiven : ¬ binder.Given arguments p)
    (hplace : p ∉ places.take (positionals arguments).length)

variable {binder : Binder} {arguments : List Argument} {expectsInput : Bool} {name : String}
  {p q : Parameter} {v w : Value}

/-- What a value comes to is what it converts to. -/
theorem Takes.converts (h : binder.Takes p (some v) w) :
    binder.adapter.convertTo v p.type = .ok w := by
  cases h with
  | converted h => exact h

/-- A name stands only for parameters with a name or alias starting with it. -/
theorem Denotes.bearsFrom (h : binder.Denotes name p) : p.BearsFrom (Text.dropDashes name) := by
  cases h with
  | full _ hbears => exact hbears.from
  | short _ _ hstarts _ => exact hstarts

/-- A name stands for a parameter, or for none, or for one of several. -/
theorem denotes_or (binder : Binder) (name : String) :
    (∃ p, binder.Denotes name p) ∨ (∀ p ∈ binder.known, ¬ p.BearsFrom (Text.dropDashes name))
      ∨ (∀ r ∈ binder.known, ¬ r.Bears (Text.dropDashes name)) ∧ ∃ p ∈ binder.known,
          ∃ q ∈ binder.known, p ≠ q ∧ p.BearsFrom (Text.dropDashes name)
            ∧ q.BearsFrom (Text.dropDashes name) := by
  by_cases hbears : ∃ p ∈ binder.known, p.Bears (Text.dropDashes name)
  · obtain ⟨p, hp, hbears⟩ := hbears
    exact .inl ⟨p, .full hp hbears⟩
  · have hnone : ∀ r ∈ binder.known, ¬ r.Bears (Text.dropDashes name) := fun r hr h =>
      hbears ⟨r, hr, h⟩
    by_cases hfrom : ∃ p ∈ binder.known, p.BearsFrom (Text.dropDashes name)
    · obtain ⟨p, hp, hpfrom⟩ := hfrom
      by_cases honly : ∀ q ∈ binder.known, q.BearsFrom (Text.dropDashes name) → q = p
      · exact .inl ⟨p, .short hp hnone hpfrom honly⟩
      · simp only [not_forall] at honly
        obtain ⟨q, hq, hqfrom, hne⟩ := honly
        exact .inr (.inr ⟨hnone, p, hp, q, hq, Ne.symm hne, hpfrom, hqfrom⟩)
    · exact .inr (.inl fun p hp h => hfrom ⟨p, hp, h⟩)

/-- An argument with a name that nothing stands in the way of has an entry. -/
theorem exists_namedEntry (hno : ¬ binder.Objection arguments expectsInput)
    {argument : String × Option Value} (h : argument ∈ nameds arguments) :
    ∃ e, binder.NamedEntry argument e := by
  obtain ⟨name, value⟩ := argument
  rcases denotes_or binder name with ⟨p, hp⟩ | hnone | ⟨hnone, p, hp, q, hq, hne, hpfrom, hqfrom⟩
  · cases value with
    | none =>
      by_cases htype : p.type = .bool
      · exact ⟨⟨p.name, .bool true, .named⟩, p, hp, .switched htype, rfl, rfl⟩
      · exact absurd (.valueless h hp htype) hno
    | some v =>
      by_cases hconvert : ∃ w, binder.adapter.convertTo v p.type = .ok w
      · obtain ⟨w, hw⟩ := hconvert
        exact ⟨⟨p.name, w, .named⟩, p, hp, .converted hw, rfl, rfl⟩
      · exact absurd (.unconvertible h hp fun w hw => hconvert ⟨w, hw⟩) hno
  · exact absurd (.unknown h hnone) hno
  · exact absurd (.ambiguous h hnone hp hq hne hpfrom hqfrom) hno

/-- A value whose place nothing stands in the way of has an entry. -/
theorem exists_placedEntry (hno : ¬ binder.Objection arguments expectsInput) {places : List Parameter}
    (hturn : binder.Turn arguments places) (h : (p, v) ∈ places.zip (positionals arguments)) :
    ∃ e, binder.PlacedEntry (p, v) e := by
  by_cases hconvert : ∃ w, binder.adapter.convertTo v p.type = .ok w
  · obtain ⟨w, hw⟩ := hconvert
    exact ⟨⟨p.name, w, .positional⟩, .converted hw, rfl, rfl⟩
  · exact absurd (.misplaced hturn h fun w hw => hconvert ⟨w, hw⟩) hno

/-- There are places in turn, whatever the arguments. -/
theorem exists_turn (hnodup : binder.parameters.Nodup) (arguments : List Argument) :
    ∃ places, binder.Turn arguments places := by
  classical
  have hfree : ∀ p ∈ binder.parameters,
      decide (p.position.isSome = true ∧ ¬ binder.Given arguments p) = true
        ↔ p.position.isSome = true ∧ ¬ binder.Given arguments p := fun _ _ => decide_eq_true_iff
  exact ⟨_, turn_mergeSort hnodup hfree⟩

section

variable (hunmistakable : Parameter.Unmistakable binder.parameters)

include hunmistakable

/-- Entries of two arguments with names have different names where no parameter is what both are for. -/
theorem NamedEntry.apart_iff {argument argument' : String × Option Value} {e e' : BoundParameter}
    (h : binder.NamedEntry argument e) (h' : binder.NamedEntry argument' e') :
    e.Apart e' ↔ ∀ p, binder.Denotes argument.1 p → ¬ binder.Denotes argument'.1 p := by
  obtain ⟨q, hq, -, hname, -⟩ := h
  obtain ⟨q', hq', -, hname', -⟩ := h'
  rw [BoundParameter.Apart, hname, hname']
  constructor
  · intro hne p hp hp'
    rw [hq.unique hunmistakable hp, hq'.unique hunmistakable hp', Text.sameName_refl] at hne
    cases hne
  · intro hnone
    exact apart_of_ne hunmistakable hq.mem hq'.mem fun heq => hnone q hq (heq ▸ hq')

/-- What nothing stands in the way of has an assignment. -/
theorem nonempty_assignment (hno : ¬ binder.Objection arguments expectsInput) :
    Nonempty (Assignment binder arguments expectsInput) := by
  obtain ⟨named, hnamed⟩ := exists_forall₂ fun _ h => exists_namedEntry hno h
  have hsingle : (nameds arguments).Pairwise fun argument argument' =>
      ∀ p, binder.Denotes argument.1 p → ¬ binder.Denotes argument'.1 p :=
    List.pairwise_iff_forall_sublist.mpr fun h _ hp hp' => hno (.twice h hp hp')
  have honce : named.Pairwise BoundParameter.Apart :=
    pairwise_of_forall₂ hnamed (fun _ _ _ _ he he' => (he.apart_iff hunmistakable he').mpr) hsingle
  obtain ⟨places, hturn⟩ := exists_turn (List.Nodup.of_append_left hunmistakable.nodup) arguments
  have hroom : (positionals arguments).length ≤ places.length :=
    Nat.le_of_not_lt fun h => hno (.crowded hturn h)
  obtain ⟨filled, left, rfl, hlength⟩ : ∃ filled left, places = filled ++ left
      ∧ filled.length = (positionals arguments).length :=
    ⟨_, _, (List.take_append_drop _ _).symm, List.length_take_of_le hroom⟩
  obtain ⟨placed, hplaced⟩ : ∃ placed, List.Forall₂ binder.PlacedEntry
      (filled.zip (positionals arguments)) placed := by
    rw [← append_zip_of_length hlength]
    exact exists_forall₂ fun _ h => exists_placedEntry hno hturn h
  refine ⟨⟨named, filled, left, placed, hnamed, honce, hturn, hlength, hplaced, ?_⟩⟩
  intro p hp hmandatory hneed
  by_contra hnot
  rw [not_or] at hnot
  refine hno (.missing hturn hp hmandatory hneed hnot.1 ?_)
  rw [← hlength, List.take_left]
  exact hnot.2

/-- What something stands in the way of has no assignment. -/
theorem Objection.not_assignment (h : binder.Objection arguments expectsInput)
    (a : Assignment binder arguments expectsInput) : False := by
  have hentry {argument : String × Option Value} (h : argument ∈ nameds arguments) :
      ∃ e, binder.NamedEntry argument e := by
    obtain ⟨e, -, he⟩ := exists_of_mem_right a.named_entries.flip h
    exact ⟨e, he⟩
  cases h with
  | unknown h hnone =>
    obtain ⟨_, p, hp, -⟩ := hentry h
    exact hnone p hp.mem hp.bearsFrom
  | ambiguous h hnone hp hq hne hpfrom hqfrom =>
    obtain ⟨_, r, hr, -⟩ := hentry h
    cases hr with
    | full hr hbears => exact hnone r hr hbears
    | short _ _ _ honly => exact hne ((honly _ hp hpfrom).trans (honly _ hq hqfrom).symm)
  | twice h hp hp' =>
    have hsingle : (nameds arguments).Pairwise fun argument argument' =>
        ∀ p, binder.Denotes argument.1 p → ¬ binder.Denotes argument'.1 p :=
      pairwise_of_forall₂ a.named_entries.flip
        (fun _ _ _ _ he he' => (NamedEntry.apart_iff hunmistakable he he').mp) a.once
    exact hsingle.forall_sublist h _ hp hp'
  | valueless h hp htype =>
    obtain ⟨_, q, hq, htakes, -⟩ := hentry h
    rw [hq.unique hunmistakable hp] at htakes
    generalize BoundParameter.value _ = w at htakes
    cases htakes with
    | switched hbool => exact htype hbool
  | unconvertible h hp hconvert =>
    obtain ⟨_, q, hq, htakes, -⟩ := hentry h
    rw [hq.unique hunmistakable hp] at htakes
    exact hconvert _ htakes.converts
  | misplaced hturn h hconvert =>
    rw [hturn.unique a.turn, append_zip_of_length a.length_filled] at h
    obtain ⟨_, -, htakes, -⟩ := exists_of_mem_right a.placed_entries.flip h
    exact hconvert _ htakes.converts
  | crowded hturn h =>
    have hlength := a.length_filled
    rw [hturn.unique a.turn, List.length_append] at h
    omega
  | missing hturn hp hmandatory hneed hgiven hplace =>
    rw [hturn.unique a.turn, ← a.length_filled, List.take_left] at hplace
    exact (a.mandatory _ hp hmandatory hneed).elim hgiven hplace

end

/-- **Static binding is sound and complete.** Where the names and aliases of a table are all different,
arguments are bound exactly to the entries of their assignment, one for each argument and no two of one
name. Binding fails exactly where there is no assignment, and that is where something stands in the way
of one. -/
theorem arguments_assigned (binder : Binder) (arguments : List Argument) (expectsInput : Bool)
    (hunmistakable : Parameter.Unmistakable binder.parameters) :
    (∀ bound, binder.bindArguments arguments expectsInput = .ok bound
        ↔ ∃ a : Assignment binder arguments expectsInput, bound.entries = a.entries)
      ∧ (∀ a : Assignment binder arguments expectsInput,
          a.entries.length = arguments.length ∧ a.entries.Pairwise BoundParameter.Apart)
      ∧ ((∃ e, binder.bindArguments arguments expectsInput = .error e)
          ↔ IsEmpty (Assignment binder arguments expectsInput))
      ∧ ((∃ e, binder.bindArguments arguments expectsInput = .error e)
          ↔ binder.Objection arguments expectsInput) := by
  have hfails : (∃ e, binder.bindArguments arguments expectsInput = .error e)
      ↔ IsEmpty (Assignment binder arguments expectsInput) := by
    cases hbind : binder.bindArguments arguments expectsInput with
    | error e =>
      refine iff_of_true ⟨e, rfl⟩ ⟨fun a => ?_⟩
      have hok : binder.bindArguments arguments expectsInput = .ok ⟨a.entries⟩ :=
        (bindArguments_ok_iff hunmistakable).mpr ⟨a, rfl⟩
      rw [hbind] at hok
      cases hok
    | ok bound =>
      obtain ⟨a, -⟩ := (bindArguments_ok_iff hunmistakable).mp hbind
      exact iff_of_false (by simp) fun hnone => hnone.false a
  refine ⟨fun _ => bindArguments_ok_iff hunmistakable,
    fun a => ⟨a.length_entries, a.entries_apart hunmistakable⟩, hfails, hfails.trans ⟨?_, ?_⟩⟩
  · intro hnone
    by_contra hno
    obtain ⟨a⟩ := nonempty_assignment hunmistakable hno
    exact hnone.false a
  · exact fun h => ⟨h.not_assignment hunmistakable⟩

/-- No value is for the target, and no object can supply it. -/
def copyingNowhere : List Argument :=
  [.named "path" (some (.string "here")), .named "level" (some (.string "3"))]

/-- Three arguments for a command that copies are assigned; without one for its target they are not.
-/
theorem arguments_assigned_copying :
    Parameter.Unmistakable copying.parameters
      ∧ (∃ bound, ∃ a : Assignment copying copyingArguments false,
          copying.bindArguments copyingArguments false = .ok bound ∧ bound.entries = a.entries
            ∧ a.entries.length = 3)
      ∧ copying.Objection copyingNowhere true := by
  have hunmistakable : Parameter.Unmistakable copying.parameters := by decide
  have hbinds : (copying.bindArguments copyingArguments false).isOk = true
      ∧ (copying.bindArguments copyingNowhere true).isOk = false := by
    decide +kernel
  refine ⟨hunmistakable, ?_, ?_⟩
  · have hassigned := arguments_assigned copying copyingArguments false hunmistakable
    cases hbound : copying.bindArguments copyingArguments false with
    | error e =>
      rw [hbound] at hbinds
      cases hbinds.1
    | ok bound =>
      obtain ⟨a, ha⟩ := (hassigned.1 bound).mp hbound
      exact ⟨bound, a, rfl, ha, (hassigned.2.1 a).1⟩
  · have hassigned := arguments_assigned copying copyingNowhere true hunmistakable
    cases hbound : copying.bindArguments copyingNowhere true with
    | error e => exact hassigned.2.2.2.mp ⟨e, hbound⟩
    | ok bound =>
      rw [hbound] at hbinds
      cases hbinds.2

end Binder

end CommandChain
