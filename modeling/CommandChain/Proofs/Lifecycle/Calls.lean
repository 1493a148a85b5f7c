import CommandChain.Proofs.Conduct.Start
/-!
# The calls of a command

A command begins once, after those before it and before any object flows. It processes and ends only
while it runs, ends once, and not before those before it have ended or were cut off. So its calls,
one after another, are those of a life: a begin, some calls to process, an end. Each of them is a
step that the state of the command allows.
-/

namespace CommandChain

variable {set : Setting} {journal block : List Event} {id : CommandId} {phase : Phase}

/-! ## When a step may come -/

/-- Whether a command takes no value from the objects that arrive. -/
def Setting.ignoresInput (set : Setting) (id : CommandId) : Bool :=
  (set.commands[id.number]?).any fun command => !command.parameters.any Parameter.acceptsInput

/-- What the steps before a step have to be for it, where it is a call of a command or changes its
state. -/
def Setting.Allows (set : Setting) (past : List Event) : Event → Prop
  | .called id .begin _ _ => (∀ j < id.number, Journal.HasBegun past ⟨j⟩)
    ∧ ¬ Journal.HasBegun past id ∧ (∀ i, .failed i ∉ past)
    ∧ ∀ i phase parameters input, .called i phase parameters input ∈ past → phase = .begin
  | .called id .process _ _ => (Journal.state past id).isRunning = true
    ∧ Journal.Clear past id .finish
    ∧ (set.ignoresInput id = true → Journal.state past id = .began)
  | .called id .finish _ _ => (Journal.state past id).isRunning = true
    ∧ Journal.Clear past id .finish
    ∧ ∀ i < id.number, Journal.isCut past i = true ∨ ∃ r, .returned ⟨i⟩ .finish r ∈ past
  | .called .. => False
  | .settled id .finish true => (Journal.state past id).isRunning = true
  | .failed id => (Journal.state past id).isRunning = true
    ∨ Journal.state past id = .created ∧ ∃ e, set.bind id.number = some (.error e)
  | _ => True

/-- Every step of a journal is allowed by those before it. -/
def Setting.Orderly (set : Setting) (journal : List Event) : Prop :=
  ∀ before e after, journal = before ++ e :: after → set.Allows before e

namespace Setting.Orderly

/-- The steps before others are allowed as those before them are. -/
theorem left (h : set.Orderly (journal ++ block)) : set.Orderly journal := by
  rintro before e after rfl
  exact h before e (after ++ block) (by simp)

theorem last {e : Event} (h : set.Orderly (journal ++ [e])) : set.Allows journal e :=
  h journal e [] rfl

theorem allows_of_mem {e : Event} (h : set.Orderly (journal ++ block)) (he : e ∈ block) :
    ∃ past, set.Orderly (journal ++ past) ∧ set.Allows (journal ++ past) e := by
  obtain ⟨past, rest, rfl⟩ := List.append_of_mem he
  rw [← List.append_assoc] at h
  exact ⟨past, h.left, h _ e rest rfl⟩

end Setting.Orderly

/-! ## Moves that call commands -/

namespace Journal

theorem not_begun_of_clear (h : Clear journal id .begin) : ¬ HasBegun journal id := by
  rintro ⟨parameters, input, hbegun⟩
  exact absurd (h _ hbegun) (by simp [Event.isOf])

/-- A running command has begun. -/
theorem begun_of_isRunning (h : (state journal id).isRunning = true) : HasBegun journal id := by
  by_contra hnot
  rw [created_of_not_begun hnot] at h
  cases h

theorem HasBegun.append (h : HasBegun journal id) (block : List Event) :
    HasBegun (journal ++ block) id := by
  obtain ⟨parameters, input, hbegun⟩ := h
  exact ⟨parameters, input, List.mem_append_left _ hbegun⟩

end Journal

/-- Objects flow where a command is called to process or to end. -/
theorem Move.flowing_of_called {parameters : BoundParameters} {input : Option Value}
    (h : Move set journal block) (hc : .called id phase parameters input ∈ block)
    (hphase : phase ≠ .begin) : set.Flowing journal := by
  cases h with
  | offered position v r offer handover hv hhalt hoffer hover hflowing => exact hflowing
  | begun i p hlt hhalt hbefore hclear =>
    obtain ⟨-, rfl, -⟩ : id = i ∧ phase = .begin ∧ _ := by simpa using hc
    exact absurd rfl hphase
  | head p hhalt hinput hcalling => exact hcalling.flowing
  | once i p hhalt honce hcalling => exact hcalling.flowing
  | finish i p hhalt hcut hclear hcalling => exact hcalling.flowing
  | settled i p r c b honce hcalled hclear hblock => cases hblock <;> simp at hc
  | onceAborted i r b honce hcalled hblock => cases hblock <;> simp at hc
  | onceEnded i r c b p honce hcalled hblock hgo hclear hverdict hflowing => exact hflowing
  | _ => simp at hc

namespace Legal

/-- A command is called to do more than begin only where objects flow. -/
theorem flowing_of_called {parameters : BoundParameters} {input : Option Value}
    (h : Legal set [] journal) (hc : .called id phase parameters input ∈ journal)
    (hphase : phase ≠ .begin) : set.Flowing journal := by
  obtain ⟨past, steps, rest, rfl, hmove, hc⟩ := h.exists_move hc
  exact ((hmove.flowing_of_called hc hphase).append steps).append rest

/-- A begin that was settled was called. -/
theorem begun_of_settled {completed : Bool} (h : Legal set [] journal)
    (hs : .settled id .begin completed ∈ journal) : Journal.HasBegun journal id := by
  obtain ⟨result, hr, -⟩ := h.returned_of_settled hs
  exact h.called_of_returned hr

/-- A command that may begin is the first that does since those before it, and nothing else was called
by then. -/
theorem allows_begin (h : Legal set [] journal) (hlt : id.number < set.commands.length)
    (hhalt : set.isHalted journal = false)
    (hbefore : ∀ j < id.number, .settled ⟨j⟩ .begin true ∈ journal)
    (hclear : Journal.Clear journal id .begin) (parameters : BoundParameters)
    (input : Option Value) : set.Allows journal (.called id .begin parameters input) := by
  refine ⟨fun j hj => h.begun_of_settled (hbefore j hj), Journal.not_begun_of_clear hclear,
    fun i hf => ?_, fun i phase p v hc => ?_⟩
  · rw [h.halted_of_failed hf] at hhalt
    cases hhalt
  · -- Objects would flow, but only where every command that has not begun is behind one that gave up.
    by_contra hphase
    obtain ⟨j, hj, hs⟩ := h.flowing_of_called hc hphase id.number hlt
      (Journal.created_of_clear hclear)
    cases h.settled_unique (by decide) hs (hbefore j hj)

/-- The turns of those before a running command are over when it ends. -/
theorem ended_of_passed (h : Legal set [] journal)
    (hrunning : (Journal.state journal id).isRunning = true)
    (hpassed : Journal.Passed journal id.number) :
    ∀ i < id.number, Journal.isCut journal i = true ∨ ∃ r, .returned ⟨i⟩ .finish r ∈ journal := by
  obtain ⟨parameters, input, hbegun⟩ := Journal.begun_of_isRunning hrunning
  intro i hi
  rcases hpassed i hi with hcreated | hcut | ⟨completed, hs⟩
  · obtain ⟨p, v, hb⟩ := h.begun_of_settled ((h.settled_of_begun hbegun).2 i hi)
    exact absurd hcreated (Journal.ne_created_of_begun hb)
  · exact .inl hcut
  · obtain ⟨r, hr, -⟩ := h.returned_of_settled hs
    exact .inr ⟨r, hr⟩

end Legal

/-- A call that is settled without a failure leaves its command running, and one that fails does so
while its command runs. -/
theorem Settlement.each_allowed {result : CallResult} {completed : Bool}
    (h : Settlement set id phase result completed block)
    (hrunning : (Journal.state journal id).isRunning = true) :
    Journal.Each (fun past e _ => set.Allows past e) journal block := by
  cases h with
  | completed => cases phase <;> simp [Journal.Each, Setting.Allows, Journal.state_append,
      CommandState.after, hrunning]
  | reported f r hf hr => cases phase <;> simp [Journal.Each, Setting.Allows, Journal.state_append,
      CommandState.after, hrunning]
  | givenUp => simp [Journal.Each, Setting.Allows]
  | failed result r hr => simp [Journal.Each, Setting.Allows, Journal.state_append,
      CommandState.after, hrunning]

/-- A call that is settled leaves its command in its state, unless it fails or has ended. -/
theorem Settlement.state_process {result : CallResult} {completed : Bool}
    (h : Settlement set id .process result completed block) (hf : .failed id ∉ block) :
    Journal.state (journal ++ block) id = Journal.state journal id := by
  rw [Journal.state_append]
  cases h with
  | failed result r hr => simp at hf
  | _ => rfl

/-- A settlement calls no command to end. -/
theorem Settlement.clear_process {result : CallResult} {completed : Bool}
    (h : Settlement set id .process result completed block) :
    Journal.Clear block id .finish := by
  cases h <;> simp [Journal.Clear, Event.isOf]

/-- What a move adds is allowed, step for step. -/
theorem Move.each_allowed (h : Move set journal block) (hlegal : Legal set [] journal)
    (hbinds : ∀ id v parameters, set.bindObject id v = .ok parameters → set.ignoresInput id = false) :
    Journal.Each (fun past e _ => set.Allows past e) journal block := by
  cases h with
  | offered position v r offer handover hv hhalt hoffer hover hflowing =>
    have hoffered : Journal.Each (fun past e _ => set.Allows past e) journal offer := by
      cases hoffer <;> simp [Journal.Each, Setting.Allows]
    have hspares := hoffer.spares ⟨position⟩
    refine hoffered.append (fun _ _ _ _ hlaw => hlaw) ?_
    cases hover with
    | failed e he hreject =>
      have hrunning := hreject.running
      rw [← Journal.state_append_of_spares hspares] at hrunning
      generalize journal ++ offer = past at hrunning ⊢
      simpa [Journal.Each, Setting.Allows, Journal.state_append, CommandState.after] using
        .inl hrunning
    | called parameters hlt hcalling hbind =>
      refine ⟨⟨?_, ?_, fun hignores => ?_⟩, trivial⟩
      · rw [Journal.state_append_of_spares hspares]
        exact hcalling.running
      · refine (Journal.clear_append _ _ _ _).mpr ⟨hcalling.clear, fun e he => ?_⟩
        cases hoffer <;> simp at he <;> rcases he with rfl | rfl <;> rfl
      · rw [hbinds _ _ _ hbind] at hignores
        cases hignores
    | _ => simp [Journal.Each, Setting.Allows]
  | failed i r hr hbind =>
    have hcreated : Journal.state journal i = .created :=
      Journal.created_of_not_begun <| by
        rintro ⟨parameters, input, hbegun⟩
        obtain ⟨token, htoken⟩ := hbind.first _ hbegun
        cases htoken
    obtain ⟨e, he, -⟩ := hbind.error
    simpa [Journal.Each, Setting.Allows, Journal.state_append, CommandState.after] using
      .inr ⟨hcreated, e, he⟩
  | begun i parameters hlt hhalt hbefore hclear =>
    exact ⟨hlegal.allows_begin hlt hhalt hbefore hclear parameters none, trivial⟩
  | head parameters hhalt hinput hcalling hbegan =>
    exact ⟨⟨hcalling.running, hcalling.clear, fun _ => hbegan⟩, trivial⟩
  | once i parameters hhalt honce hcalling hbegan =>
    exact ⟨⟨hcalling.running, hcalling.clear, fun _ => hbegan⟩, trivial⟩
  | finish i parameters hhalt hcut hclear hcalling hpassed =>
    exact ⟨⟨hcalling.running, hclear, hlegal.ended_of_passed hcalling.running hpassed⟩, trivial⟩
  | settled i p r c b honce hcalled hclear hblock hverdict =>
    exact hblock.each_allowed hverdict.running
  | onceAborted i r b honce hcalled hblock hhalt hverdict =>
    exact hblock.each_allowed hverdict.running
  | onceEnded i r c b parameters honce hcalled hblock hgo hclear hverdict hflowing hpassed =>
    -- A command that failed would halt the chain, and would not go on to its end.
    have hf : .failed i ∉ b := fun hf => by
      rcases hgo with rfl | hgo
      · cases hblock <;> simp at hf
      · have hs := hblock.signaled_of_failed hf
        rw [Setting.isHalted_append, List.any_eq_true.mpr ⟨_, hs, Event.raises_signaled_self _⟩,
          Bool.or_true] at hgo
        cases hgo
    refine (hblock.each_allowed hverdict.running).append (fun _ _ _ _ hlaw => hlaw)
      ⟨⟨?_, ?_, fun j hj => ?_⟩, trivial⟩
    · rw [hblock.state_process hf]
      exact hverdict.running
    · exact (Journal.clear_append _ _ _ _).mpr ⟨hclear, hblock.clear_process⟩
    · refine (hlegal.ended_of_passed hverdict.running hpassed j hj).imp Journal.isCut_of_prefix ?_
      rintro ⟨r, hr⟩
      exact ⟨r, List.mem_append_left _ hr⟩
  | _ => simp [Journal.Each, Setting.Allows]

/-- Every step of a legal journal is allowed by those before it. -/
theorem Legal.orderly (h : Legal set [] journal)
    (hbinds : ∀ id v parameters, set.bindObject id v = .ok parameters →
      set.ignoresInput id = false) : set.Orderly journal := by
  have heach : Journal.Each (fun past e _ => set.Allows past e) [] journal :=
    h.each_of_legal (fun _ _ _ _ hlaw => hlaw)
      (fun _ _ hlegal hmove => hmove.each_allowed hlegal hbinds) (.nil _)
  exact Journal.each_iff.mp heach

/-! ## The calls that a command gets -/

/-- The phase for which a step calls a command. -/
def Event.received? (id : CommandId) : Event → Option Phase
  | called i phase _ _ => if i = id then some phase else none
  | stopping i => if i = id then some .stop else none
  | disposing i => if i = id then some .dispose else none
  | _ => none

/-- The phases for which a command is called, in order. -/
def Journal.received (journal : List Event) (id : CommandId) : List Phase :=
  journal.filterMap (Event.received? id)

@[simp] theorem Journal.received_append (journal block : List Event) (id : CommandId) :
    received (journal ++ block) id = received journal id ++ received block id := by
  simp [received]

namespace Setting.Orderly

/-- A command that is not running, and does not begin from then on, does not come to run. -/
theorem idle_append (h : set.Orderly (journal ++ block))
    (hidle : (Journal.state journal id).isRunning = false)
    (hbegin : ∀ parameters input, .called id .begin parameters input ∉ block) :
    (Journal.state (journal ++ block) id).isRunning = false := by
  induction block using List.reverseRecOn with
  | nil => rwa [List.append_nil]
  | append_singleton block e ih =>
    rw [← List.append_assoc] at h ⊢
    have hallows := h.last
    have hbefore := ih h.left fun parameters input hc =>
      hbegin parameters input (List.mem_append_left _ hc)
    have hstep : Journal.state (journal ++ block ++ [e]) id
        = (Journal.state (journal ++ block) id).after id e := Journal.state_append ..
    rw [hstep]
    -- Beginning is the only step that sets an idle command running.
    unfold CommandState.after
    split
    · split
      · next i parameters input hid =>
        subst hid
        exact absurd (List.mem_append_right _ (.head _)) (hbegin parameters input)
      · exact hbefore
    · split
      · next i _ _ hid =>
        have hrunning := hallows.1
        rw [hid, hbefore] at hrunning
        cases hrunning
      · exact hbefore
    · split
      · cases Journal.state (journal ++ block) id <;> rfl
      · exact hbefore
    · split
      · cases Journal.state (journal ++ block) id <;> rfl
      · exact hbefore
    · exact hbefore

/-- A command that failed is not running any more. -/
theorem idle_of_failed (h : set.Orderly journal) (hf : .failed id ∈ journal) :
    (Journal.state journal id).isRunning = false := by
  obtain ⟨before, after, rfl⟩ := List.append_of_mem hf
  rw [List.append_cons] at h ⊢
  refine h.idle_append ?_ fun parameters input hc => ?_
  · rw [Journal.state_append, List.foldl_cons, List.foldl_nil, CommandState.after, if_pos rfl]
    cases Journal.state before id <;> rfl
  · -- No command begins once one has failed.
    obtain ⟨past, -, hallows⟩ := h.allows_of_mem hc
    exact hallows.2.2.1 id (by simp)

/-- A command that completed its end is not running any more. -/
theorem idle_of_ended (h : set.Orderly journal) (hs : .settled id .finish true ∈ journal) :
    (Journal.state journal id).isRunning = false := by
  obtain ⟨before, after, rfl⟩ := List.append_of_mem hs
  have hrunning : (Journal.state before id).isRunning = true := h before _ after rfl
  rw [List.append_cons] at h ⊢
  refine h.idle_append ?_ fun parameters input hc => ?_
  · rw [Journal.state_append, List.foldl_cons, List.foldl_nil, CommandState.after, if_pos rfl]
    cases Journal.state before id <;> rfl
  · obtain ⟨past, -, hallows⟩ := h.allows_of_mem hc
    exact hallows.2.1 (((Journal.begun_of_isRunning hrunning).append _).append _)

/-- A command that failed is called no more. -/
theorem not_called_of_failed {rest : List Event}
    (h : set.Orderly (journal ++ .failed id :: rest)) {parameters : BoundParameters}
    {input : Option Value} : .called id phase parameters input ∉ rest := by
  intro hc
  rw [List.append_cons] at h
  obtain ⟨past, hpast, hallows⟩ := h.allows_of_mem hc
  have hidle : (Journal.state (journal ++ [.failed id] ++ past) id).isRunning = false :=
    hpast.idle_of_failed (by simp)
  cases phase with
  | begin => exact hallows.2.2.1 id (by simp)
  | process => exact absurd (hidle.symm.trans hallows.1) Bool.false_ne_true
  | finish => exact absurd (hidle.symm.trans hallows.1) Bool.false_ne_true
  | _ => exact hallows.elim

end Setting.Orderly

end CommandChain
