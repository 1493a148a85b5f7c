import CommandChain.Proofs.Conduct.Run
/-!
# The errors that are due

Each error event of a run is due to be reported: an error that a command writes, a call that faults
or has to end with an error, and an object that cannot be bound. `Setting.due` reads them off the
steps at which they arise, and in a legal journal the errors that reach the host are these, in this
order.
-/

namespace CommandChain

/-! ## The error with which a call has to end -/

/-- The error with which the call of a command has to end, after one more step: the first message
under a preference to stop since the call began. -/
def Setting.overstepStep (set : Setting) (id : CommandId) (latest : Option ErrorRecord) :
    Event → Option ErrorRecord
  | .called i _ _ _ | .returned i _ _ => if i = id then none else latest
  | .reporting i m =>
    if i = id ∧ (set.preferences id).forKind m.kind = .stop then
      some (latest.getD (preferenceStop m.kind))
    else latest
  | _ => latest

/-- The error with which the call of a command has to end after the steps of a journal. -/
def Setting.overstep (set : Setting) (journal : List Event) (id : CommandId) : Option ErrorRecord :=
  journal.foldl (set.overstepStep id) none

/-- A message is written by the command whose call has to end with an error, where there is one, and
no command is called then. -/
def Setting.Attentive (set : Setting) (past : List Event) : Event → List Event → Prop
  | .called .., _ => set.pending past = none
  | .reporting i _, _ => ∀ p, set.pending past = some p → p.1 = i
  | _, _ => True

variable {set : Setting} {journal block : List Event} {id : CommandId}

/-- One slot for all commands is enough, where messages and calls are as they should be. -/
theorem Setting.escalation_snoc {e : Event} (h : set.Attentive journal e []) :
    set.escalation (journal ++ [e]) id = set.overstepStep id (set.escalation journal id) e := by
  have hstep : set.pending (journal ++ [e]) = set.pendingStep (set.pending journal) e :=
    set.pending_append journal [e]
  unfold escalation
  rw [hstep]
  cases e with
  | called i phase parameters input =>
    show _ = if i = id then none else _
    by_cases hid : i = id
    · rw [if_pos hid]
      show ((set.pending journal).filter (·.1 == id)).map Prod.snd = none
      rw [show set.pending journal = none from h]
      rfl
    · rw [if_neg hid]
      rfl
  -- A return takes the pending error of its own command, and leaves that of another.
  | returned i phase result =>
    show ((if (set.pending journal).any (·.1 == i) then none
      else set.pending journal).filter (·.1 == id)).map Prod.snd = if i = id then none else _
    cases hpending : set.pending journal with
    | none => simp
    | some p =>
      by_cases hp : p.1 = i <;> by_cases hid : i = id <;> simp_all [Option.filter]
  | reporting i m =>
    show ((if (set.preferences i).forKind m.kind = .stop then
        some ((set.pending journal).getD (i, preferenceStop m.kind))
      else set.pending journal).filter (·.1 == id)).map Prod.snd
        = if i = id ∧ (set.preferences id).forKind m.kind = .stop then _ else _
    by_cases hid : i = id
    · subst hid
      cases hpending : set.pending journal with
      | none => by_cases hstop : (set.preferences i).forKind m.kind = .stop <;>
          simp [hstop, Option.filter]
      | some p => by_cases hstop : (set.preferences i).forKind m.kind = .stop <;>
          simp [hstop, Option.filter, h p hpending]
    · -- The error that is pending is of the command that writes, not of this one.
      have hother : ¬ (i = id ∧ (set.preferences id).forKind m.kind = .stop) := fun hsame =>
        hid hsame.1
      rw [if_neg hother]
      cases hpending : set.pending journal with
      | none => split <;> simp [Option.filter, hid]
      | some p => split <;> simp [Option.filter, h p hpending, hid]
  | _ => rfl

/-- Settling a call calls no command and writes no message. -/
theorem Settlement.each_attentive {phase : Phase} {result : CallResult} {completed : Bool}
    (h : Settlement set id phase result completed block) (journal : List Event) :
    Journal.Each set.Attentive journal block := by
  cases h <;> simp [Journal.Each, Setting.Attentive]

/-- Once a call is settled, no error is pending. -/
theorem Setting.Verdict.pending_append {phase : Phase} {result : CallResult} {completed : Bool}
    (h : set.Verdict journal id phase result block)
    (hblock : Settlement set id phase result completed block) :
    set.pending (journal ++ block) = none := by
  have hnone : set.pendingStep (set.pending journal) (.returned id phase result) = none := by
    show (if _ then none else _) = none
    cases hpending : set.pending journal with
    | none => rfl
    | some p => simp [h.calm p hpending]
  rw [Setting.pending_append]
  cases hblock <;> simp only [List.foldl_cons, List.foldl_nil, hnone] <;> rfl

/-- Messages are written, and commands called, only as what is pending allows. -/
theorem Move.each_attentive (h : Move set journal block) :
    Journal.Each set.Attentive journal block := by
  cases h with
  | silenced r hr i m hreport => exact ⟨hreport.calm, trivial, trivial⟩
  | reported r hr i m hreport => exact ⟨hreport.calm, trivial, trivial, trivial⟩
  | offered position v r offer handover hv hhalt hoffer hover hflowing hcalm hsource =>
    have hstill := hoffer.pending_append.trans hcalm
    cases hover with
    | called parameters => cases hoffer <;> simpa [Journal.Each, Setting.Attentive] using hstill
    | _ => cases hoffer <;> simp [Journal.Each, Setting.Attentive]
  | begun i parameters hlt hhalt hbefore hclear hcalm => exact ⟨hcalm, trivial⟩
  | head parameters hhalt hinput hcalling => exact ⟨hcalling.calm, trivial⟩
  | once i parameters hhalt honce hcalling => exact ⟨hcalling.calm, trivial⟩
  | finish i parameters hhalt hcut hclear hcalling => exact ⟨hcalling.calm, trivial⟩
  | settled i phase result completed block honce hcalled hclear hblock =>
    exact hblock.each_attentive journal
  | onceAborted i result block honce hcalled hblock => exact hblock.each_attentive journal
  | onceEnded i result completed block parameters honce hcalled hblock hgo hclear hverdict =>
    refine (hblock.each_attentive journal).append (fun _ e _ _ hlaw => ?_)
      ⟨hverdict.pending_append hblock, trivial⟩
    cases e <;> exact hlaw
  | _ => simp [Journal.Each, Setting.Attentive]

/-- In a legal journal the error with which a call has to end is the first that its command wrote
under a preference to stop since the call began. -/
theorem Legal.escalation_eq {after : List Event} (h : Legal set [] (journal ++ after)) :
    set.escalation journal id = set.overstep journal id := by
  have heach : Journal.Each set.Attentive [] (journal ++ after) :=
    h.each (fun _ e _ _ hlaw => by cases e <;> exact hlaw) fun _ _ hmove => hmove.each_attentive
  induction journal using List.reverseRecOn generalizing after with
  | nil => rfl
  | append_singleton journal e ih =>
    rw [List.append_assoc] at h heach
    have hstep := Journal.each_iff.mp heach journal e after rfl
    rw [Setting.escalation_snoc (by cases e <;> exact hstep), ih h heach, Setting.overstep,
      Setting.overstep, List.foldl_append]
    rfl

/-! ## The errors of a journal -/

/-- The error of an object that the command at a position cannot bind, where it runs. -/
def Setting.rejection (set : Setting) (past : List Event) (k : Nat) (v : Value) :
    Option (RecordSource × ErrorRecord) :=
  if k < set.commands.length ∧ (Journal.state past ⟨k⟩).isRunning = true then
    match set.bindObject ⟨k⟩ v with
    | .ok _ => none
    | .error e => some (set.source ⟨k⟩, { e.toRecord with
        target := some v
        phase := some .process
        terminating := set.bindingErrors ⟨k⟩ = .terminating })
  else none

/-- The error that is due at a step, and its source. -/
def Setting.due (set : Setting) (past : List Event) : Event → Option (RecordSource × ErrorRecord)
  | .reporting id (.error e) => (Journal.call? past id).map fun call =>
      (set.source id, { e with target := e.target.or call.2, phase := some call.1 })
  | .returned id phase result =>
    (result.error? (set.overstep past id) (set.preferences id) phase
      ((Journal.call? past id).bind Prod.snd)).map fun e => (set.source id, e)
  | .emitted r => r.object?.bind fun v =>
    (past.getLast?.bind Event.receiver?).bind fun k => set.rejection past k v
  | _ => none

/-- Settling a call reports the error that is due. -/
theorem Settlement.errors_eq {phase : Phase} {result : CallResult} {completed : Bool}
    (h : Settlement set id phase result completed block)
    (hverdict : set.Verdict journal id phase result block)
    (hescalation : set.escalation journal id = set.overstep journal id) :
    Journal.errors block = Journal.gather set.due journal block := by
  obtain ⟨input, hcall, herrors⟩ := hverdict.errors
  have hdue : set.due journal (.returned id phase result)
      = (result.error? (set.escalation journal id) (set.preferences id) phase input).map
        fun e => (set.source id, e) := by
    simp only [Setting.due, hcall, hescalation]
    rfl
  rw [herrors]
  have hfirst : Journal.gather set.due journal block
      = (set.due journal (.returned id phase result)).toList := by
    cases h <;> simp [Journal.gather, Setting.due, *]
  rw [hfirst, hdue]
  cases result.error? (set.escalation journal id) (set.preferences id) phase input <;> rfl

/-- Of a step that puts an object on its way, the error is due that comes of handing it over. -/
theorem Offer.gather_due {position : Nat} {v : Value} {r : Record} {offer : List Event}
    (h : Offer journal position v r offer) (hv : r.object? = some v) :
    Journal.gather set.due journal offer = (set.rejection journal position v).toList := by
  have hstate {e : Event} (he : ∀ id, e.Spares id) (id : CommandId) :
      Journal.state (journal ++ [e]) id = Journal.state journal id :=
    Journal.state_append_of_spares (by simpa using he id)
  cases h with
  | host v r hcut =>
    simp [Journal.gather, Setting.due, hv, Event.receiver?, Setting.rejection,
      hstate (e := .feeding v) fun _ => trivial]
  | command i v r hcut =>
    simp [Journal.gather, Setting.due, hv, Event.receiver?, Setting.rejection,
      hstate (e := .writing ⟨i⟩ v) fun _ => trivial]

/-- Handing an object over reports what comes of it. -/
theorem Handover.errors_eq {position : Nat} {v : Value} {r : Record}
    (h : Handover set journal position v r block) (hv : r.object? = some v) :
    Journal.errors block = (set.rejection journal position v).toList := by
  have hobject : r.error? = none := by
    cases hp : r.payload <;> simp [Record.error?, Record.object?, hp] at hv ⊢
  have hrejects {e : Record} {terminating : Bool}
      (hreject : set.Rejects journal position v e terminating) :
      (e.error?.map (e.source, ·)).toList = (set.rejection journal position v).toList := by
    obtain ⟨err, hbind, herr⟩ := hreject.error
    have hchoice : (set.bindingErrors ⟨position⟩ = .terminating) = (terminating = true) := by
      rw [hreject.choice]
      cases terminating <;> simp
    rw [Setting.rejection, if_pos ⟨hreject.inside, hreject.running⟩, hbind, herr, hreject.source]
    simp [hchoice]
  cases h with
  | host hend => simp [Event.error?, Event.delivered?, Setting.rejection, hend,
      hobject]
  | skipped j hlt hj hbegin hcreated =>
    simp [Setting.rejection, hcreated, CommandState.isRunning]
  | rejected e he hreject =>
    rw [← hrejects hreject]
    cases hp : e.error? <;> simp [Event.error?, Event.delivered?, hp]
  | failed e he hreject =>
    rw [← hrejects hreject]
    cases hp : e.error? <;> simp [Event.error?, Event.delivered?, hp]
  | called parameters hlt hcalling hbind =>
    simp [Event.error?, Event.delivered?, Setting.rejection, hbind]

/-- Nothing more is due once an object is handed over. -/
theorem Handover.gather_due {position : Nat} {v : Value} {r : Record} {past : List Event}
    (h : Handover set journal position v r block) : Journal.gather set.due past block = [] := by
  have hquiet {e : Record} (he : e.error?.bind ErrorRecord.target = some v) : e.object? = none := by
    cases hp : e.payload <;> simp [Record.error?, Record.object?, hp] at he ⊢
  cases h with
  | rejected e he => simp [Journal.gather, Setting.due, hquiet he]
  | failed e he => simp [Journal.gather, Setting.due, hquiet he]
  | _ => simp [Journal.gather, Setting.due]

/-- Every move but the cleanup and a failure to bind a command reports the errors that are due. -/
theorem Move.errors_eq (h : Move set journal block) (hrun : journal.any Event.isParting = false)
    (hbinds : ∀ k e, set.bind k ≠ some (.error e))
    (hescalation : ∀ id, set.escalation journal id = set.overstep journal id) :
    Journal.errors block = Journal.gather set.due journal block := by
  cases h with
  | silenced r hr id m hreport hsilent =>
    cases m <;> simp [Journal.gather, Setting.due, Event.error?, Event.delivered?, hr,
      Preferences.delivers, Message.kind] at hsilent ⊢
  | reported r hr id m hreport hdelivers =>
    obtain ⟨phase, input, hcall, hpayload⟩ := hreport.payload
    cases m <;> simp [Journal.gather, Setting.due, Event.error?, Event.delivered?, hr, hcall,
      Record.error?, hpayload, Message.completed, hreport.source]
  -- Outside of a call, messages are written only while the commands are parted with.
  | message r hr hparting =>
    rw [hrun] at hparting
    cases hparting
  | failed id r hr hbind =>
    obtain ⟨e, he, -⟩ := hbind.error
    exact absurd he (hbinds _ _)
  | offered position v r offer handover hv hhalt hoffer hover =>
    rw [Journal.gather_append, hover.gather_due, List.append_nil, hoffer.gather_due hv,
      Journal.errors_append, hover.errors_eq hv]
    cases hoffer <;> simp [Event.error?, Event.delivered?]
  | settled id phase result completed block honce hcalled hclear hblock hverdict =>
    exact hblock.errors_eq hverdict (hescalation id)
  | onceAborted id result block honce hcalled hblock hhalt hverdict =>
    exact hblock.errors_eq hverdict (hescalation id)
  | onceEnded id result completed block parameters honce hcalled hblock hgo hclear hverdict =>
    rw [Journal.errors_append, Journal.gather_append, hblock.errors_eq hverdict (hescalation id)]
    simp [Event.error?, Event.delivered?, Journal.gather, Setting.due]
  | _ => simp [Journal.gather, Setting.due, Event.error?, Event.delivered?]

/-- The errors that reach the host are those that are due, up to the end of the last command and where
all commands can be bound. -/
theorem Legal.errors_eq (h : Legal set journal block) (hjournal : Legal set [] journal)
    (hrun : (journal ++ block).any Event.isParting = false)
    (hbinds : ∀ k e, set.bind k ≠ some (.error e)) :
    Journal.errors block = Journal.gather set.due journal block := by
  induction h with
  | nil journal => rfl
  | @move journal block rest hmove _ ih =>
    have hescalation (id : CommandId) : set.escalation journal id = set.overstep journal id :=
      Legal.escalation_eq (by rw [List.append_nil]; exact hjournal)
    rw [← List.append_assoc] at hrun
    rw [Journal.errors_append, Journal.gather_append, ih (hjournal.snoc hmove) hrun]
    rw [List.any_append, List.any_append, Bool.or_eq_false_iff, Bool.or_eq_false_iff] at hrun
    rw [hmove.errors_eq hrun.1.1 hbinds hescalation]

end CommandChain
