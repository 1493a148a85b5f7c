import CommandChain.Proofs.Conduct.Whole
/-!
# The passage of objects

An object is handed over in the step that follows the one in which it is made: the next command is
called to process it, or rejects it with an error, or it reaches the host. Commands get objects in no
other way, so each gets those of the command before it in the order in which they were made. All this
holds of runs that are halted, cut short or unwound as well; only a command that gives up beginning,
in a chain that goes on, has the objects written to those behind it passed over.
-/

namespace CommandChain

/-- The step that puts an object on its way to the command at a position: the host feeds the first
command, and the others get what the command before them writes. -/
def Event.offering : Nat → Value → Event
  | 0, v => .feeding v
  | i + 1, v => .writing ⟨i⟩ v

/-- What follows the step in which an object is made that is on its way to a position. -/
inductive Setting.Taken (set : Setting) (k : Nat) (v : Value) (r : Record) : List Event → Prop
  /-- There is no command, and the host gets the object. -/
  | host (rest : List Event) (hend : k = set.commands.length) : Taken set k v r (.delivered r :: rest)
  /-- The command processes the object, with the parameters that it binds. -/
  | processed (parameters : BoundParameters) (rest : List Event) (hk : k < set.commands.length)
    (hbind : set.bindObject ⟨k⟩ v = .ok parameters) :
    Taken set k v r (.called ⟨k⟩ .process parameters (some v) :: rest)
  /-- The command cannot bind the object, and an error that has it as its target is reported. -/
  | rejected (err : BindingError) (e : Record) (rest : List Event) (hk : k < set.commands.length)
    (hbind : set.bindObject ⟨k⟩ v = .error err) (hsource : e.source = set.source ⟨k⟩)
    (herror : e.error? = some { err.toRecord with
      target := some v
      phase := some .process
      terminating := set.bindingErrors ⟨k⟩ = .terminating }) :
    Taken set k v r (.emitted e :: .delivered e :: rest)

/-- The object that a command is called to process at a step, with the parameters of the call. -/
def Event.input? (id : CommandId) : Event → Option (BoundParameters × Value)
  | called i .process parameters (some v) => if i = id then some (parameters, v) else none
  | _ => none

/-- The objects that a command was called to process, with the parameters of the calls. -/
def Journal.inputs (journal : List Event) (id : CommandId) : List (BoundParameters × Value) :=
  journal.filterMap (Event.input? id)

/-- The object that a step makes and that is on its way to a position. -/
def Journal.offer? (k : Nat) (past : List Event) : Event → Option Record
  | .emitted r =>
    if r.object?.isSome ∧ past.getLast?.bind Event.receiver? = some k then some r else none
  | _ => none

/-- The objects that were made on their way to a position, in order. -/
def Journal.offers (journal : List Event) (k : Nat) : List Record :=
  gather (offer? k) [] journal

/-- The parameters with which a command processes an object, where it can bind it. -/
def Setting.accept? (set : Setting) (k : Nat) (r : Record) : Option (BoundParameters × Value) :=
  r.object?.bind fun v => match set.bindObject ⟨k⟩ v with
    | .ok parameters => some (parameters, v)
    | .error _ => none

/-- Every object is handed over as soon as it is made, and nothing else is. -/
structure Setting.Passage (set : Setting) (input : List Value) (journal : List Event) : Prop where
  /-- An object that is made was put on its way just before, and is handed over just after. -/
  handed : ∀ before r v after, journal = before ++ .emitted r :: after → r.object? = some v →
    ∃ k past, before = past ++ [.offering k v] ∧ r.source = set.offerer k ∧ set.Taken k v r after
  /-- A command that is called to process an object gets it from there. -/
  called : ∀ before id parameters v after,
    journal = before ++ .called id .process parameters (some v) :: after →
    ∃ past r, before = past ++ [.offering id.number v, .emitted r] ∧ r.object? = some v
  /-- So it gets the objects that it can bind, each once and in order. -/
  inputs : ∀ k < set.commands.length,
    Journal.inputs journal ⟨k⟩ = (Journal.offers journal k).filterMap (set.accept? k)
  /-- What the first command is offered is what the host feeds, in order. -/
  fed : (Journal.offers journal 0).filterMap Record.object? <+: input
  /-- What the last command makes is what the host gets, in order. -/
  delivered : (Journal.deliveries journal).filter (·.kind == .object)
    = Journal.offers journal set.commands.length

variable {set : Setting} {journal block : List Event}

/-! ## Moves that concern no object -/

/-- A step neither makes an object nor hands one over. -/
def Event.ObjectFree : Event → Prop
  | .emitted r | .delivered r => r.object? = none
  | .called _ _ _ input => input = none
  | .feeding _ => False
  | _ => True

/-- A move puts an object on its way and hands it over, or it concerns none. -/
theorem Move.objectFree_or_offered (h : Move set journal block) :
    (∀ e ∈ block, e.ObjectFree) ∨ ∃ k v r offer handover, block = offer ++ handover
      ∧ r.object? = some v ∧ set.isHalted journal = false ∧ Offer journal k v r offer
      ∧ Handover set journal k v r handover ∧ r.source = set.offerer k := by
  have settlement {id : CommandId} {phase : Phase} {result : CallResult} {completed : Bool}
      {b : List Event} (hb : Settlement set id phase result completed b) :
      ∀ e ∈ b, e.ObjectFree := by
    cases hb <;> simp [Event.ObjectFree, *]
  cases h with
  | offered k v r offer handover hv hhalt hoffer hover hflowing hcalm hsource =>
    exact .inr ⟨k, v, r, offer, handover, rfl, hv, hhalt, hoffer, hover, hsource⟩
  | settled id phase result completed block honce hcalled hclear hblock =>
    exact .inl (settlement hblock)
  | onceAborted id result block honce hcalled hblock => exact .inl (settlement hblock)
  | onceEnded id result completed block parameters honce hcalled hblock =>
    refine .inl fun e he => (List.mem_append.mp he).elim (settlement hblock e) fun he => ?_
    obtain rfl := List.mem_singleton.mp he
    rfl
  | _ => exact .inl (by simp [Event.ObjectFree, *])

/-- Steps that concern no object are on none of the lists of objects. -/
theorem Journal.objectFree_lists (h : ∀ e ∈ block, e.ObjectFree) (past : List Event) (k : Nat) :
    gather (offer? k) past block = [] ∧ inputs block ⟨k⟩ = []
      ∧ (deliveries block).filter (·.kind == .object) = [] ∧ feeds block = [] := by
  induction block generalizing past with
  | nil => exact ⟨rfl, rfl, rfl, rfl⟩
  | cons e block ih =>
    rw [List.forall_mem_cons] at h
    obtain ⟨hoffers, hinputs, hdelivered, hfeeds⟩ := ih h.2 (past ++ [e])
    have he := h.1
    cases e with
    | emitted r =>
      refine ⟨?_, hinputs, hdelivered, hfeeds⟩
      have hr : r.object? = none := he
      simp [gather, offer?, hr, hoffers]
    | delivered r =>
      refine ⟨hoffers, hinputs, ?_, hfeeds⟩
      have hr : r.object? = none := he
      have hkind : r.kind ≠ .object := by
        cases hp : r.payload with
        | object v => simp [Record.object?, hp] at hr
        | message m => cases m <;> simp [Record.kind, hp, Payload.kind, Message.kind]
      show (r :: deliveries block).filter _ = []
      rw [List.filter_cons_of_neg (by simpa using hkind), hdelivered]
    | called id phase parameters input =>
      obtain rfl : input = none := he
      refine ⟨hoffers, ?_, hdelivered, hfeeds⟩
      cases phase <;> exact hinputs
    | feeding v => exact he.elim
    | _ => exact ⟨hoffers, hinputs, hdelivered, hfeeds⟩

/-! ## Handing objects over -/

/-- Where all commands began in a chain that goes on, no object is passed over. -/
theorem Handover.taken {k : Nat} {v : Value} {r : Record}
    (h : Handover set journal k v r block)
    (hstarted : ∀ j, .settled ⟨j⟩ .begin false ∉ journal) : set.Taken k v r block := by
  have hrejects {e : Record} {terminating : Bool} {rest : List Event}
      (hreject : set.Rejects journal k v e terminating) :
      set.Taken k v r (.emitted e :: .delivered e :: rest) := by
    obtain ⟨err, hbind, herr⟩ := hreject.error
    refine .rejected err e rest hreject.inside hbind hreject.source (herr.trans ?_)
    rw [hreject.choice]
    cases terminating <;> rfl
  cases h with
  | host hend => exact .host [] hend
  | skipped j hlt hj hbegin => exact absurd hbegin (hstarted j)
  | rejected e he hreject => exact hrejects hreject
  | failed e he hreject => exact hrejects hreject
  | called parameters hlt hcalling hbind => exact .processed parameters [] hlt hbind

theorem Setting.Taken.append {k : Nat} {v : Value} {r : Record} {rest : List Event}
    (h : set.Taken k v r rest) (more : List Event) : set.Taken k v r (rest ++ more) := by
  cases h with
  | host rest hend => exact .host _ hend
  | processed parameters rest hk hbind => exact .processed parameters _ hk hbind
  | rejected err e rest hk hbind hsource herror =>
    exact .rejected err e _ hk hbind hsource herror

/-- An object that a step makes is handed over, and one that a step hands to a command was just
made. -/
def Setting.Passes (set : Setting) (past : List Event) : Event → List Event → Prop
  | .emitted r, rest => ∀ v, r.object? = some v →
    ∃ k before, past = before ++ [.offering k v] ∧ r.source = set.offerer k ∧ set.Taken k v r rest
  | .called id .process _ (some v), _ =>
    ∃ before r, past = before ++ [.offering id.number v, .emitted r] ∧ r.object? = some v
  | _, _ => True

theorem Setting.Passes.append {past rest : List Event} {e : Event} (h : set.Passes past e rest)
    (more : List Event) : set.Passes past e (rest ++ more) := by
  unfold Setting.Passes at h ⊢
  split
  · intro v hv
    obtain ⟨k, before, hpast, hsource, htaken⟩ := h v hv
    exact ⟨k, before, hpast, hsource, htaken.append more⟩
  · exact h
  · trivial

/-- An error that has a target carries no object. -/
theorem Record.object?_of_target {e : Record} {v : Value}
    (h : e.error?.bind ErrorRecord.target = some v) : e.object? = none := by
  cases hp : e.payload <;> simp [error?, object?, hp] at h ⊢

/-- Handing an object over makes no other. -/
theorem Handover.gather_offers {k j : Nat} {v : Value} {r : Record}
    (h : Handover set journal k v r block) (past : List Event) :
    Journal.gather (Journal.offer? j) past block = [] := by
  cases h with
  | rejected e he => simp [Journal.gather, Journal.offer?, Record.object?_of_target he]
  | failed e he => simp [Journal.gather, Journal.offer?, Record.object?_of_target he]
  | _ => simp [Journal.gather, Journal.offer?]

/-- A command processes the object that is handed to it, where it can bind that. -/
theorem Handover.inputs_eq {k j : Nat} {v : Value} {r : Record}
    (h : Handover set journal k v r block) (hv : r.object? = some v)
    (hstarted : ∀ j, .settled ⟨j⟩ .begin false ∉ journal) (hj : j < set.commands.length) :
    Journal.inputs block ⟨j⟩ = (if k = j then [r] else []).filterMap (set.accept? j) := by
  have hnone (hk : k = j → ∃ err, set.bindObject ⟨k⟩ v = .error err) :
      (if k = j then [r] else []).filterMap (set.accept? j) = [] := by
    split
    · next hkj =>
      obtain ⟨err, herr⟩ := hk hkj
      subst hkj
      simp [Setting.accept?, hv, herr]
    · rfl
  cases h with
  | host hend => exact (hnone fun hkj => absurd hj (by omega)).symm
  | skipped i hlt hi hbegin => exact absurd hbegin (hstarted i)
  | rejected e he hreject =>
    exact (hnone fun _ => hreject.error.imp fun err herr => herr.1).symm
  | failed e he hreject =>
    exact (hnone fun _ => hreject.error.imp fun err herr => herr.1).symm
  | called parameters hlt hcalling hbind =>
    by_cases hkj : k = j
    · subst hkj
      simp [Journal.inputs, Event.input?, Setting.accept?, hv, hbind]
    · simp [Journal.inputs, Event.input?, hkj]

/-- An object reaches the host where there is no command to get it. -/
theorem Handover.delivered_eq {k : Nat} {v : Value} {r : Record}
    (h : Handover set journal k v r block) (hv : r.object? = some v) :
    (Journal.deliveries block).filter (·.kind == .object)
      = if k = set.commands.length then [r] else [] := by
  have hkind := Record.kind_of_object hv
  have herror {e : Record} (he : e.error?.bind ErrorRecord.target = some v) :
      [e].filter (·.kind == .object) = [] := by
    cases hp : e.payload with
    | object w => simp [Record.error?, hp] at he
    | message m => cases m <;> simp [Record.kind, hp, Payload.kind, Message.kind]
  cases h with
  | host hend =>
    rw [if_pos hend]
    show [r].filter _ = [r]
    simp [hkind]
  | skipped i hlt => exact (if_neg (by omega)).symm
  | rejected e he hreject =>
    have := hreject.inside
    exact (herror he).trans (if_neg (by omega)).symm
  | failed e he hreject =>
    have := hreject.inside
    exact (herror he).trans (if_neg (by omega)).symm
  | called parameters hlt => exact (if_neg (by omega)).symm

/-- What hands an object over passes it on. -/
theorem Handover.each_passes {k : Nat} {v : Value} {r : Record} {past before : List Event}
    (h : Handover set journal k v r block) (hv : r.object? = some v)
    (hpast : past = before ++ [.offering k v, .emitted r]) : Journal.Each set.Passes past block := by
  cases h with
  | rejected e he => simp [Journal.Each, Setting.Passes, Record.object?_of_target he]
  | failed e he => simp [Journal.Each, Setting.Passes, Record.object?_of_target he]
  | called parameters => exact ⟨⟨before, r, hpast, hv⟩, trivial⟩
  | _ => simp [Journal.Each, Setting.Passes]

/-- An object is offered by a step that says so and one that makes its record. -/
theorem Offer.eq_offering {k : Nat} {v : Value} {r : Record} {offer : List Event}
    (h : Offer journal k v r offer) : offer = [.offering k v, .emitted r] := by
  cases h <;> rfl

/-- The objects of a journal pass as they should in the steps of a block that follows it. -/
structure Setting.PassesOn (set : Setting) (journal block : List Event) : Prop where
  passes : Journal.Each set.Passes journal block
  inputs : ∀ k < set.commands.length, Journal.inputs block ⟨k⟩
    = (Journal.gather (Journal.offer? k) journal block).filterMap (set.accept? k)
  fed : Journal.feeds block
    = (Journal.gather (Journal.offer? 0) journal block).filterMap Record.object?
  delivered : (Journal.deliveries block).filter (·.kind == .object)
    = Journal.gather (Journal.offer? set.commands.length) journal block

namespace Setting.PassesOn

theorem of_objectFree (h : ∀ e ∈ block, e.ObjectFree) : set.PassesOn journal block := by
  have hlists := Journal.objectFree_lists h journal
  refine ⟨?_, fun k _ => ?_, ?_, ?_⟩
  · refine Journal.each_iff.mpr fun before e after heq => ?_
    have he : e.ObjectFree := h e (by rw [heq]; simp)
    unfold Setting.Passes
    split
    · next r =>
      intro v hv
      have hr : r.object? = none := he
      rw [hr] at hv
      cases hv
    · cases he
    · trivial
  · rw [(hlists k).1, (hlists k).2.1]
    rfl
  · rw [(hlists 0).1, (hlists 0).2.2.2]
    rfl
  · rw [(hlists _).1, (hlists 0).2.2.1]

theorem append {rest : List Event} (h : set.PassesOn journal block)
    (hrest : set.PassesOn (journal ++ block) rest) : set.PassesOn journal (block ++ rest) := by
  refine ⟨h.passes.append (fun _ _ _ more hlaw => hlaw.append more) hrest.passes, fun k hk => ?_,
    ?_, ?_⟩
  · rw [Journal.gather_append, List.filterMap_append, ← h.inputs k hk, ← hrest.inputs k hk,
      Journal.inputs, List.filterMap_append]
    rfl
  · rw [Journal.gather_append, List.filterMap_append, ← h.fed, ← hrest.fed, Journal.feeds_append]
  · rw [Journal.gather_append, ← h.delivered, ← hrest.delivered, Journal.deliveries_append,
      List.filter_append]

/-- An object that is put on its way is handed over. -/
theorem of_offered {k : Nat} {v : Value} {r : Record} {handover : List Event}
    (hv : r.object? = some v) (hover : Handover set journal k v r handover)
    (hsource : r.source = set.offerer k) (hstarted : ∀ j, .settled ⟨j⟩ .begin false ∉ journal) :
    set.PassesOn journal (.offering k v :: .emitted r :: handover) := by
  -- The object is an offer of the command that wrote it, and of no other.
  have hoffers (j : Nat) : Journal.gather (Journal.offer? j) journal
      (.offering k v :: .emitted r :: handover) = if k = j then [r] else [] := by
    have hreceiver : (Event.offering k v).receiver? = some k := by cases k <;> rfl
    have hfirst : Journal.offer? j journal (.offering k v) = none := by cases k <;> rfl
    simp only [Journal.gather, hfirst, hover.gather_offers, Option.toList_none, List.nil_append,
      List.append_nil]
    by_cases hkj : k = j
    · subst hkj
      simp [Journal.offer?, hv, hreceiver]
    · simp [Journal.offer?, hreceiver, hkj]
  refine ⟨?_, fun j hj => ?_, ?_, ?_⟩
  · refine ⟨by cases k <;> trivial, fun w hw => ?_, hover.each_passes hv (List.append_assoc ..)⟩
    obtain rfl := Option.some.inj (hv.symm.trans hw)
    exact ⟨k, journal, rfl, hsource, hover.taken hstarted⟩
  · have hfirst : Journal.inputs (.offering k v :: .emitted r :: handover) ⟨j⟩
        = Journal.inputs handover ⟨j⟩ := by cases k <;> rfl
    rw [hoffers, hfirst, hover.inputs_eq hv hstarted hj]
  · rw [hoffers]
    have hnone : Journal.feeds handover = [] := by cases hover <;> rfl
    cases k with
    | zero =>
      show v :: Journal.feeds handover = _
      rw [hnone, if_pos rfl, List.filterMap_cons, hv, List.filterMap_nil]
    | succ k =>
      show Journal.feeds handover = _
      rw [hnone, if_neg (Nat.succ_ne_zero k), List.filterMap_nil]
  · rw [hoffers, ← hover.delivered_eq hv]
    cases k <;> rfl

end Setting.PassesOn

/-- Where all commands began in a chain that goes on, objects pass as they should. -/
theorem Move.passesOn (h : Move set journal block)
    (hstarted : set.isHalted journal = false → ∀ j, .settled ⟨j⟩ .begin false ∉ journal) :
    set.PassesOn journal block := by
  rcases h.objectFree_or_offered with
    hfree | ⟨k, v, r, offer, handover, rfl, hv, hhalt, hoffer, hover, hsource⟩
  · exact .of_objectFree hfree
  · rw [hoffer.eq_offering]
    exact .of_offered hv hover hsource (hstarted hhalt)

/-- A begin that was not completed was given up, or it halted the chain. -/
theorem Legal.halted_of_begin (h : Legal set [] journal)
    (hbegin : ∀ id, .returned id .begin .stopped ∉ journal) {j : Nat}
    (hsettled : .settled ⟨j⟩ .begin false ∈ journal) : set.isHalted journal = true := by
  obtain ⟨result, hreturned, -, hno⟩ := h.returned_of_settled hsettled
  rcases hno rfl with rfl | hfailed
  · exact absurd hreturned (hbegin _)
  · exact h.halted_of_failed hfailed

/-- Objects pass as they should in every legal journal in which no command gives up beginning. -/
theorem Legal.passesOn (h : Legal set journal block) (hjournal : Legal set [] journal)
    (hbegin : ∀ id, .returned id .begin .stopped ∉ journal ++ block) : set.PassesOn journal block := by
  induction h with
  | nil journal => exact .of_objectFree (by simp)
  | @move journal block rest hmove _ ih =>
    rw [← List.append_assoc] at hbegin
    refine (hmove.passesOn fun hhalt j hsettled => ?_).append (ih (hjournal.snoc hmove) hbegin)
    have hhalted := hjournal.halted_of_begin (fun id hreturned => hbegin id
      (List.mem_append_left _ (List.mem_append_left _ hreturned))) hsettled
    rw [hhalt] at hhalted
    cases hhalted

/-- While commands are told to stop and disposed of, no object is on its way. -/
theorem Legal.objectFree_of_parting (h : Legal set journal block)
    (hall : ∀ e ∈ block, e.Parting) : ∀ e ∈ block, e.ObjectFree := by
  induction h with
  | nil journal => simp
  | move hmove _ ih =>
    rw [List.forall_mem_append] at hall ⊢
    refine ⟨?_, ih hall.2⟩
    rcases hmove.objectFree_or_offered with hfree | ⟨k, v, r, offer, handover, rfl, -, -, hoffer, -⟩
    · exact hfree
    · have hoffering := hall.1 (.offering k v) (by rw [hoffer.eq_offering]; simp)
      cases k <;> exact hoffering.elim

/-! ## Objects in a run -/

section

variable (settings : ChainSettings) (host : StopToken) (flags : StopFlags)
  (specs : List CommandSpec) (tokens : List StopToken) (input : Option (List Value)) {o : Outcome}

namespace Pipeline

/-- The steps of a run feed the first objects of the host. -/
theorem feeds_ran :
    Journal.feeds (ran settings host flags specs tokens input).chain.journal
      <+: input.getD [] := by
  obtain ⟨fed, hprefix, block, hgrown, -, hfed⟩ :=
    (ran_course settings host flags specs tokens input).grown
  have hnone : Journal.feeds ((build settings host flags specs).signaled tokens).chain.journal = [] :=
    List.filterMap_eq_nil_iff.mpr fun e he => by
      obtain ⟨token, rfl⟩ := untouched_signaled settings host flags specs tokens e he
      rfl
  rwa [hgrown, Journal.feeds_append, hnone, hfed]

/-- What the last command makes is on the timeline of the run, in order. -/
theorem objects_eq (ho : (((build settings host flags specs).signaled tokens).invoke input).1 = .ok o)
    (hbegin : ∀ id, .returned id .begin .stopped
      ∉ (ran settings host flags specs tokens input).chain.journal) :
    o.ofKind .object
      = Journal.offers (ran settings host flags specs tokens input).chain.journal specs.length := by
  have hcourse := ran_course settings host flags specs tokens input
  have hlength : ((build settings host flags specs).setting input).commands.length = specs.length :=
    (List.length_map _).trans (length_stagesFrom settings 0 specs)
  obtain ⟨final, stops, hfinal, rfl⟩ := outcome_of_invoke settings host flags specs tokens input ho
  obtain ⟨block, hgrown, hlegal, hparting, -⟩ := hfinal.grown
  have hfree := hlegal.objectFree_of_parting hparting
  rw [Outcome.ofKind, hfinal.tracks.ledger.records, hgrown, Journal.deliveries_append,
    List.filter_append, (Journal.objectFree_lists hfree [] 0).2.2.1, List.append_nil, ← hlength]
  exact (hcourse.legal.passesOn (.nil _) hbegin).delivered

/-- **Every object is handed over, in order and once.** In every run in which no command gives up
beginning, also one that is halted, cut short or unwound, an object is handed to the next command in
the step after it is made, or is rejected there with an error, and commands get objects in no other
way. The objects of the host are fed in order, and what the last command makes is on the timeline in
order. -/
theorem objects_pass
    (hbegin : ∀ id, .returned id .begin .stopped
      ∉ (((build settings host flags specs).signaled tokens).invoke input).2.chain.journal) :
    ((build settings host flags specs).setting input).Passage (input.getD [])
        (((build settings host flags specs).signaled tokens).invoke input).2.chain.journal
      ∧ ∀ o, (((build settings host flags specs).signaled tokens).invoke input).1 = .ok o →
        o.ofKind .object = Journal.offers
          (((build settings host flags specs).signaled tokens).invoke input).2.chain.journal
          specs.length := by
  have hlegal := legal_journal settings host flags specs tokens input
  have hpasses := hlegal.passesOn (.nil _) hbegin
  obtain ⟨stops, hparts⟩ := (invoke_concluded settings host flags specs tokens input).parts
  obtain ⟨block, hgrown, hafter, hparting, -⟩ := hparts.grown
  have hfree := Journal.objectFree_lists (hafter.objectFree_of_parting hparting)
  refine ⟨⟨fun before r v after heq hv => ?_, fun before id parameters v after heq => ?_,
    hpasses.inputs, ?_, hpasses.delivered⟩, fun o ho => ?_⟩
  · exact Journal.each_iff.mp hpasses.passes before _ after heq v hv
  · exact Journal.each_iff.mp hpasses.passes before _ after heq
  · rw [show Journal.offers _ 0 = _ from rfl, Journal.offers, ← hpasses.fed, hgrown,
      Journal.feeds_append, (hfree [] 0).2.2.2, List.append_nil]
    exact feeds_ran settings host flags specs tokens input
  · rw [objects_eq settings host flags specs tokens input ho fun id hreturned =>
      hbegin id (hparts.mem_of_mem_start hreturned), hgrown, Journal.offers, Journal.offers,
      Journal.gather_append, (hfree _ _).1, List.append_nil]

end Pipeline

end

/-- A command that writes on the objects of a type that it gets. -/
def Command.relaying (type : ValueType) : Command where
  name := "relaying"
  parameters := [{ name := "InputObject", type := type, pipeline := .byValue }]
  Memory := Unit
  fresh := ()
  process call _ := .write (call.input.getD .null) .done

/-- Two such commands, the last of which gets integers only and reports what else it is given. -/
def relayingIntegers : List CommandSpec :=
  [{ command := .relaying .any }, { command := .relaying .int, bindingErrors := some .nonTerminating }]

/-- Whether a step returns from a begin call as stopped. -/
def Event.isStoppedBegin : Event → Bool
  | .returned _ .begin .stopped => true
  | _ => false

/-- An object between two others is rejected, and those are handed over. -/
theorem Pipeline.objects_pass_relaying :
    (Journal.offers (((build {} ⟨0, []⟩ ⟨1, []⟩ relayingIntegers).signaled []).invoke
        (some [.int 1, .null, .int 2])).2.chain.journal 1).length = 3
      ∧ (Journal.inputs (((build {} ⟨0, []⟩ ⟨1, []⟩ relayingIntegers).signaled []).invoke
        (some [.int 1, .null, .int 2])).2.chain.journal ⟨1⟩).length = 2
      ∧ ((build {} ⟨0, []⟩ ⟨1, []⟩ relayingIntegers).setting (some [.int 1, .null, .int 2])).Passage
        [.int 1, .null, .int 2]
        (((build {} ⟨0, []⟩ ⟨1, []⟩ relayingIntegers).signaled []).invoke
          (some [.int 1, .null, .int 2])).2.chain.journal := by
  refine ⟨by decide +kernel, by decide +kernel, (objects_pass {} ⟨0, []⟩ ⟨1, []⟩ relayingIntegers []
    (some [.int 1, .null, .int 2]) fun id hreturned => ?_).1⟩
  have hnone : (((build {} ⟨0, []⟩ ⟨1, []⟩ relayingIntegers).signaled []).invoke
      (some [.int 1, .null, .int 2])).2.chain.journal.any Event.isStoppedBegin = false := by
    decide +kernel
  exact List.any_eq_false.mp hnone _ hreturned rfl

end CommandChain
