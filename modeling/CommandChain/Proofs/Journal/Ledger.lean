import CommandChain.Proofs.Journal.Replay
/-!
# What a journal accounts for

The records that reached the host and their numbers, the error that failed the chain, and the error
with which a call has to end are all in the journal. `Setting.Ledger` says that a chain agrees with
its journal about them.
-/

namespace CommandChain

/-! ## What is bound before commands begin -/

/-- The stage with nothing in it that changes once it is bound. -/
def Stage.reset (stage : Stage) : Stage :=
  { stage with memory := stage.command.fresh, state := .created, input := {} }

namespace Setting

variable (set : Setting)

/-- What comes of binding the parameters of the command at a position before any command begins. -/
def bind (k : Nat) : Option (Except BindingError Stage) :=
  (set.stages[k]?).map fun stage => stage.bindStatically set.adapter (k != 0 || set.hostInput)

/-- The stage at a position as it is bound before any command begins. -/
def bound (k : Nat) : Option Stage :=
  match set.bind k with
  | some (.ok stage) => some stage
  | _ => none

/-- The source of the records of a command. -/
def source (id : CommandId) : RecordSource :=
  ⟨id, ((set.commands[id.number]?).map Command.name).getD ""⟩

/-- The preferences under which a command runs. -/
def preferences (id : CommandId) : Preferences :=
  ((set.bound id.number).map Stage.preferences).getD {}

/-- What a command does about an object that it cannot bind. -/
def bindingErrors (id : CommandId) : BindingErrorAction :=
  ((set.bound id.number).map Stage.bindingErrors).getD .terminating

/-- The parameters that a command is bound to before it begins. -/
def parameters? (id : CommandId) : Option BoundParameters :=
  (set.bound id.number).map Stage.bound

/-- Binds an object for a command, on top of what it is bound to before it begins. -/
def bindObject (id : CommandId) (v : Value) : Except BindingError BoundParameters :=
  match set.bound id.number with
  | some stage => (stage.binder set.adapter).bindObject stage.bound v
  | none => .error .noParameterAcceptsInput

end Setting

/-- A stage is bound as its command is before any command begins. -/
def Stage.Bound (set : Setting) (k : Nat) (stage : Stage) : Prop :=
  set.bound k = some stage.reset

namespace Stage.Bound

variable {set : Setting} {k : Nat} {stage : Stage}

/-- A stage runs under the preferences that were bound for its command. -/
theorem preferences_eq (h : stage.Bound set k) : set.preferences ⟨k⟩ = stage.preferences := by
  show ((set.bound k).map Stage.preferences).getD {} = _
  rw [h]
  rfl

/-- A stage treats objects that it cannot bind as was bound for its command. -/
theorem bindingErrors_eq (h : stage.Bound set k) :
    set.bindingErrors ⟨k⟩ = stage.bindingErrors := by
  show ((set.bound k).map Stage.bindingErrors).getD .terminating = _
  rw [h]
  rfl

/-- A stage has the parameters that were bound for its command. -/
theorem parameters?_eq (h : stage.Bound set k) : set.parameters? ⟨k⟩ = some stage.bound := by
  show (set.bound k).map Stage.bound = _
  rw [h]
  rfl

/-- A stage binds an object as its command does on top of what was bound before. -/
theorem bindObject_eq (h : stage.Bound set k) (v : Value) :
    set.bindObject ⟨k⟩ v = (stage.binder set.adapter).bindObject stage.bound v := by
  show (match set.bound k with
    | some stage => (stage.binder set.adapter).bindObject stage.bound v
    | none => .error .noParameterAcceptsInput) = _
  rw [h]
  rfl

end Stage.Bound

/-! ## Reading the accounts -/

/-- A record with an object is one of the channel for objects. -/
theorem Record.kind_of_object {r : Record} {v : Value} (h : r.object? = some v) :
    r.kind = .object := by
  unfold object? at h
  unfold kind
  split at h
  · next heq => rw [heq]; rfl
  · cases h

namespace Event

/-- The record that a step hands to the host. -/
def delivered? : Event → Option Record
  | delivered r => some r
  | _ => none

/-- Whether a step makes a record on a channel. -/
def emits (kind : RecordKind) : Event → Bool
  | emitted r => r.kind = kind
  | _ => false

/-- Whether a step is kept in no account. -/
def isNeutral : Event → Bool
  | emitted _ | delivered _ | failed _ | reporting .. | returned .. => false
  | _ => true

end Event

namespace Journal

/-- The records that reached the host. -/
def deliveries (journal : List Event) : List Record :=
  journal.filterMap Event.delivered?

/-- How many records were made on a channel. -/
def count (kind : RecordKind) (journal : List Event) : Nat :=
  journal.countP (Event.emits kind)

/-- Every record carries the number of those made on its channel before it. -/
def Numbered (journal : List Event) : Prop :=
  ∀ before r after, journal = before ++ .emitted r :: after → r.sequence = count r.kind before

/-- The error that was last handed to the host, and that with which a command failed first. -/
def faultStep (faults : Option ErrorRecord × Option ErrorRecord) :
    Event → Option ErrorRecord × Option ErrorRecord
  | .delivered r => (r.error?, faults.2)
  | .failed _ => (faults.1, faults.2.or faults.1)
  | _ => faults

/-- The error with which a command failed first: a command fails with the error that was last handed
to the host. -/
def fault? (journal : List Event) : Option ErrorRecord :=
  (journal.foldl faultStep (none, none)).2

theorem deliveries_append (journal block : List Event) :
    deliveries (journal ++ block) = deliveries journal ++ deliveries block := by
  simp [deliveries]

theorem count_append (kind : RecordKind) (journal block : List Event) :
    count kind (journal ++ block) = count kind journal + count kind block := by
  simp [count]

/-- A record that is made next is numbered by those before it. -/
theorem Numbered.snoc {journal : List Event} (h : Numbered journal) {e : Event}
    (he : ∀ r, e = .emitted r → r.sequence = count r.kind journal) : Numbered (journal ++ [e]) := by
  intro before r after heq
  rcases List.eq_nil_or_concat after with rfl | ⟨after, last, rfl⟩
  · obtain ⟨rfl, hlast⟩ := List.append_inj' heq rfl
    exact he r (List.singleton_inj.mp hlast)
  · rw [List.concat_eq_append, ← List.cons_append, ← List.append_assoc] at heq
    exact h before r after (List.append_inj' heq rfl).1

end Journal

/-- The error with which a call has to end after one more step, and the command of that call: the
first that was written under a preference to stop, until the call returns. -/
def Setting.pendingStep (set : Setting) (pending : Option (CommandId × ErrorRecord)) :
    Event → Option (CommandId × ErrorRecord)
  | .reporting id m =>
    if (set.preferences id).forKind m.kind = .stop then
      some (pending.getD (id, preferenceStop m.kind))
    else pending
  | .returned id _ _ => if pending.any (·.1 == id) then none else pending
  | _ => pending

/-- The error with which a call has to end after the steps of a journal. -/
def Setting.pending (set : Setting) (journal : List Event) : Option (CommandId × ErrorRecord) :=
  journal.foldl set.pendingStep none

/-- What is pending after a block of steps follows from what was pending before, step by step. -/
theorem Setting.pending_append (set : Setting) (journal block : List Event) :
    set.pending (journal ++ block) = block.foldl set.pendingStep (set.pending journal) :=
  List.foldl_append

/-! ## The error of a call -/

/-- The message as it is emitted during a call for a phase: an error is given the phase and, where it
has no target, the object of the call. -/
def Message.completed (m : Message) (phase : Phase) (input : Option Value) : Message :=
  match m with
  | .error e => .error { e with target := e.target.or input, phase := some phase }
  | m => m

/-- A message that is completed for a call is given its phase and, if it is an error, its object. -/
theorem Call.complete_eq (call : Call) (m : Message) :
    call.complete m = m.completed call.phase call.input := by
  cases m <;> rfl

/-- The phase and the object of the latest call of a command, after one more step. -/
def Event.callStep (id : CommandId) (latest : Option (Phase × Option Value)) :
    Event → Option (Phase × Option Value)
  | called i phase _ input => if i = id then some (phase, input) else latest
  | _ => latest

/-- The phase and the object of the latest call of a command. -/
def Journal.call? (journal : List Event) (id : CommandId) : Option (Phase × Option Value) :=
  journal.foldl (Event.callStep id) none

/-- The latest call after a block of steps follows from the latest before, step by step. -/
theorem Journal.call?_append (journal block : List Event) (id : CommandId) :
    call? (journal ++ block) id = block.foldl (Event.callStep id) (call? journal id) :=
  List.foldl_append

/-- The errors that reach the host, with their sources. -/
def Journal.errors (journal : List Event) : List (RecordSource × ErrorRecord) :=
  (deliveries journal).filterMap fun r => r.error?.map (r.source, ·)

/-- The error that a step hands to the host, with its source. -/
def Event.error? (e : Event) : Option (RecordSource × ErrorRecord) :=
  e.delivered?.bind fun r => r.error?.map (r.source, ·)

@[simp] theorem Journal.errors_nil : errors [] = [] := rfl

/-- The errors of a block are that of its first step, if any, and those of the others. -/
@[simp] theorem Journal.errors_cons (e : Event) (block : List Event) :
    errors (e :: block) = e.error?.toList ++ errors block := by
  unfold errors deliveries
  rw [List.filterMap_filterMap, List.filterMap_filterMap, List.filterMap_cons]
  cases he : e.error? <;> unfold Event.error? at he <;> simp [he]

theorem Journal.errors_append (journal block : List Event) :
    errors (journal ++ block) = errors journal ++ errors block := by
  simp [errors, deliveries_append]

/-- The error with which the call of a command has to end. -/
def Setting.escalation (set : Setting) (journal : List Event) (id : CommandId) :
    Option ErrorRecord :=
  ((set.pending journal).filter (·.1 == id)).map Prod.snd

namespace CallResult

variable (result : CallResult) (escalated : Option ErrorRecord) (preferences : Preferences)

/-- Whether a call that returns this result makes its command fail: it has to end with an error, or
its fault is terminating, as any fault is of a command whose preference for errors is to stop. -/
def isFatal : Bool :=
  escalated.isSome || match result with
    | .fault f => f.terminating || preferences.errorAction == .stop
    | _ => false

/-- The error that is reported of a call that returns this result. The error with which a call has to
end takes the place of its fault. -/
def error? (phase : Phase) (input : Option Value) : Option ErrorRecord :=
  match escalated with
  | some e => some { e with phase := some phase, terminating := true }
  | none =>
    match result with
    | .fault f =>
      some { f.error with
        phase := some phase
        target := f.error.target.or input
        terminating := result.isFatal none preferences || f.error.terminating }
    | _ => none

end CallResult

/-! ## Agreement about the accounts -/

/-- A chain agrees with its journal about what that accounts for. -/
structure Setting.Ledger (set : Setting) (chain : Chain) : Prop where
  adapter : chain.adapter = set.adapter
  records : chain.records = Journal.deliveries chain.journal
  counted : ∀ kind, chain.sequencer.emitted kind = Journal.count kind chain.journal
  numbered : Journal.Numbered chain.journal
  fault : chain.fault = Journal.fault? chain.journal
  pending : chain.pendingStop = set.pending chain.journal

namespace Setting.Ledger

variable {set : Setting} {chain chain' : Chain}

/-- A step that makes no record, delivers none and is no failure. -/
theorem of_step (h : set.Ledger chain) {e : Event} (hj : chain'.journal = chain.journal ++ [e])
    (hmade : ∀ kind, e.emits kind = false) (hgone : e.delivered? = none)
    (hfaults : ∀ faults, Journal.faultStep faults e = faults)
    (hadapter : chain'.adapter = chain.adapter) (hdelivered : chain'.delivered = chain.delivered)
    (hsequencer : chain'.sequencer = chain.sequencer) (hfault : chain'.fault = chain.fault)
    (hpending : chain'.pendingStop = set.pendingStep chain.pendingStop e) : set.Ledger chain' := by
  refine ⟨hadapter.trans h.adapter, ?_, fun kind => ?_, ?_, ?_, ?_⟩
  · rw [Chain.records, hdelivered, ← Chain.records, h.records, hj, Journal.deliveries_append]
    simp [Journal.deliveries, hgone]
  · rw [hsequencer, h.counted, hj, Journal.count_append]
    simp [Journal.count, hmade]
  · rw [hj]
    refine h.numbered.snoc fun r hr => ?_
    have hnone := hmade r.kind
    rw [hr, Event.emits, decide_eq_false_iff_not] at hnone
    exact absurd rfl hnone
  · rw [hfault, h.fault, hj, Journal.fault?, Journal.fault?, List.foldl_append, List.foldl_cons,
      List.foldl_nil, hfaults]
  · rw [hpending, h.pending, hj, pending_append]
    rfl

/-- A step that is kept in no account, and changes nothing that is, keeps the agreement. -/
theorem of_neutral (h : set.Ledger chain) {e : Event} (hj : chain'.journal = chain.journal ++ [e])
    (he : e.isNeutral = true) (hadapter : chain'.adapter = chain.adapter)
    (hdelivered : chain'.delivered = chain.delivered)
    (hsequencer : chain'.sequencer = chain.sequencer) (hfault : chain'.fault = chain.fault)
    (hpending : chain'.pendingStop = chain.pendingStop) : set.Ledger chain' := by
  refine h.of_step hj (fun kind => ?_) ?_ (fun faults => ?_) hadapter hdelivered hsequencer hfault
    (hpending.trans ?_)
  all_goals
    cases e <;> first | rfl | cases he

/-- Nothing that is kept in an account changes. -/
theorem of_same (h : set.Ledger chain) (hj : chain'.journal = chain.journal)
    (hadapter : chain'.adapter = chain.adapter) (hdelivered : chain'.delivered = chain.delivered)
    (hsequencer : chain'.sequencer = chain.sequencer) (hfault : chain'.fault = chain.fault)
    (hpending : chain'.pendingStop = chain.pendingStop) : set.Ledger chain' := by
  refine ⟨hadapter.trans h.adapter, ?_, fun kind => ?_, hj ▸ h.numbered, ?_, ?_⟩
  · rw [Chain.records, hdelivered, ← Chain.records, h.records, hj]
  · rw [hsequencer, h.counted, hj]
  · rw [hfault, h.fault, hj]
  · rw [hpending, h.pending, hj]

/-- Steps that are kept in no account keep a chain in agreement with it. -/
theorem log (h : set.Ledger chain) {e : Event} (he : e.isNeutral = true) :
    set.Ledger (chain.log e) :=
  h.of_neutral (chain.journal_log e) he rfl rfl rfl rfl rfl

theorem signal (h : set.Ledger chain) (token : StopToken) : set.Ledger (chain.signal token) :=
  h.of_neutral (chain.journal_signal token) rfl rfl rfl rfl rfl rfl

/-- Making a record keeps the account: it is counted on its channel. -/
theorem emit (h : set.Ledger chain) (payload : Payload) (source : RecordSource) :
    set.Ledger (chain.emit payload source).2 := by
  have hj := chain.journal_emit payload source
  have hkind : (chain.emit payload source).1.kind = payload.kind := rfl
  refine ⟨h.adapter, ?_, fun kind => ?_, ?_, ?_, ?_⟩
  · rw [hj, Journal.deliveries_append, ← h.records]
    exact (List.append_nil _).symm
  · rw [hj, Journal.count_append, ← h.counted]
    show (chain.sequencer.advance payload.kind).emitted kind = _
    rw [Sequencer.emitted_advance]
    simp [Journal.count, Event.emits, hkind, List.countP_cons]
  · rw [hj]
    refine h.numbered.snoc fun r hr => ?_
    obtain rfl := Event.emitted.inj hr
    rw [← h.counted]
    rfl
  · rw [hj, Journal.fault?, List.foldl_append]
    exact h.fault
  · rw [hj, pending_append]
    exact h.pending

/-- Delivering a record keeps the account: it is the latest one. -/
theorem deliverToHost (h : set.Ledger chain) (r : Record) : set.Ledger (chain.deliverToHost r) := by
  have hj := chain.journal_deliverToHost r
  refine ⟨h.adapter, ?_, fun kind => ?_, ?_, ?_, ?_⟩
  · rw [hj, Journal.deliveries_append, ← h.records, Chain.records_deliverToHost]
    rfl
  · rw [hj, Journal.count_append, ← h.counted]
    rfl
  · rw [hj]
    exact h.numbered.snoc fun _ hr => by cases hr
  · rw [hj, Journal.fault?, List.foldl_append]
    exact h.fault
  · rw [hj, pending_append]
    exact h.pending

/-- A terminating fault is the one that the chain reports where it is the first. -/
theorem fail (h : set.Ledger chain) (stage : Stage) (e : ErrorRecord) :
    set.Ledger (stage.fail chain e).2 := by
  have herror := (h.emit (.message (.error { e with terminating := true })) stage.source).deliverToHost
    (chain.errorRecord stage.source { e with terminating := true })
  have hj := stage.journal_fail chain e
  have hsplit : (stage.fail chain e).2.journal
      = (chain.emitError stage.source { e with terminating := true }).journal
        ++ [.failed stage.id] ++ [.signaled chain.stop] := by
    rw [hj, Chain.journal_emitError]
    simp
  refine ⟨h.adapter, ?_, fun kind => ?_, ?_, ?_, ?_⟩
  · rw [hsplit, Journal.deliveries_append, Journal.deliveries_append]
    simp only [Journal.deliveries, List.filterMap_cons, List.filterMap_nil, Event.delivered?,
      List.append_nil]
    exact herror.records
  · rw [hsplit, Journal.count_append, Journal.count_append]
    exact herror.counted kind
  · rw [hsplit]
    exact (herror.numbered.snoc fun _ hr => by cases hr).snoc fun _ hr => by cases hr
  · rw [hj, Journal.fault?, List.foldl_append]
    have hfault : (chain.journal.foldl Journal.faultStep (none, none)).2 = chain.fault :=
      h.fault.symm
    simp only [List.foldl_cons, List.foldl_nil, Journal.faultStep, hfault,
      Chain.error?_errorRecord]
    show some (chain.fault.getD { e with terminating := true }) = _
    cases chain.fault <;> rfl
  · rw [hj, pending_append]
    exact h.pending

/-- A command writes a message, and under a preference to stop its call has to end with an error. -/
theorem report (h : set.Ledger chain) {call : Call}
    (hpreferences : set.preferences call.id = call.preferences) (m : Message) :
    set.Ledger (call.report m (chain.log (.reporting call.id m))).2 := by
  -- What the message asks for is accounted for before its record is made.
  have hasked : set.Ledger { chain.log (.reporting call.id m) with
      pendingStop := set.pendingStep chain.pendingStop (.reporting call.id m) } :=
    h.of_step (chain.journal_log _) (fun _ => rfl) rfl (fun _ => rfl) rfl rfl rfl rfl rfl
  have hmade := hasked.emit (.message (call.complete m)) call.source
  have hthrough := hmade.deliverToHost (chain.emit (.message (call.complete m)) call.source).1
  have hpending : (if call.preferences.forKind m.kind = .stop then
        some (chain.pendingStop.getD (call.id, preferenceStop m.kind))
      else chain.pendingStop) = set.pendingStep chain.pendingStop (.reporting call.id m) := by
    rw [← hpreferences]
    rfl
  unfold Call.report
  simp only [call.kind_complete, beq_iff_eq]
  by_cases hstop : call.preferences.forKind m.kind = .stop
  · rw [if_pos hstop] at hpending
    simp only [hstop, if_true]
    split
    · exact hthrough.of_same rfl rfl rfl rfl rfl hpending
    · exact hmade.of_same rfl rfl rfl rfl rfl hpending
  · rw [if_neg hstop] at hpending
    simp only [hstop, if_false]
    split
    · exact hthrough.of_same rfl rfl rfl rfl rfl hpending
    · exact hmade.of_same rfl rfl rfl rfl rfl hpending

/-- A call returns, and the error with which it has to end is taken. -/
theorem returned (h : set.Ledger chain) (id : CommandId) (phase : Phase) (result : CallResult) :
    set.Ledger ((chain.log (.returned id phase result)).takePendingStop id).2 := by
  rw [Chain.takePendingStop_eq]
  exact h.of_step (chain.journal_log (.returned id phase result)) (fun _ => rfl) rfl
    (fun _ => rfl) rfl rfl rfl rfl rfl

end Setting.Ledger

end CommandChain
