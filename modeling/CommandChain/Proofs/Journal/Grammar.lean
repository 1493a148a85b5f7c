import CommandChain.Proofs.Journal.Agreement
/-!
# Legal journals

The engine works in moves. A move adds a few steps to the journal that belong together, and it is
allowed by what the journal holds before it: a journal is legal when it is a sequence of such moves.
Calls nest, so the moves of a command stand between the steps that open and close a call of the
commands before it; no move needs to know in which calls it happens.

What is proved of all legal journals is proved of every move, and then holds of every sequence.
-/

namespace CommandChain

/-- The steps from the return of a lifecycle call to its settling: whether the call counts as
completed, and the error that is reported where there is one. -/
inductive Settlement (set : Setting) (id : CommandId) (phase : Phase) :
    CallResult → Bool → List Event → Prop
  | completed : Settlement set id phase .ok true [.returned id phase .ok, .settled id phase true]
  | reported (f : CommandFault) (r : Record) (hf : f.terminating = false) (hr : r.object? = none) :
    Settlement set id phase (.fault f) true
      [.returned id phase (.fault f), .emitted r, .delivered r, .settled id phase true]
  | givenUp :
    Settlement set id phase .stopped false
      [.returned id phase .stopped, .settled id phase false]
  | failed (result : CallResult) (r : Record) (hr : r.object? = none) :
    Settlement set id phase result false
      [.returned id phase result, .emitted r, .delivered r, .failed id, .signaled set.stop,
        .settled id phase false]

/-- The steps by which an object is put on its way to the command at a position: the host feeds the
first command, and every other one gets what the command before it writes. -/
inductive Offer (journal : List Event) : Nat → Value → Record → List Event → Prop
  | host (v : Value) (r : Record) (hcut : journal.any Event.isCut = false) :
    Offer journal 0 v r [.feeding v, .emitted r]
  | command (i : Nat) (v : Value) (r : Record) (hcut : Journal.isCut journal i = false) :
    Offer journal (i + 1) v r [.writing ⟨i⟩ v, .emitted r]

/-- The position of the command that gets an object, told by how the object is put on its way. -/
def Event.receiver? : Event → Option Nat
  | feeding _ => some 0
  | writing id _ => some (id.number + 1)
  | _ => none

/-- Commands begin before objects flow: a command that has not begun never will, since one before it
did not complete that. -/
def Setting.Flowing (set : Setting) (journal : List Event) : Prop :=
  ∀ k < set.commands.length, Journal.state journal ⟨k⟩ = .created →
    ∃ j < k, .settled ⟨j⟩ .begin false ∈ journal

/-- A command may be called to process or to end: objects flow, no call has to end with an error, and
the command is running and was not called to end. -/
structure Setting.Calling (set : Setting) (journal : List Event) (id : CommandId) : Prop where
  flowing : set.Flowing journal
  calm : set.pending journal = none
  running : (Journal.state journal id).isRunning = true
  clear : Journal.Clear journal id .finish

/-- All commands before a position had their turns to end: each ended, was cut off or never began. -/
def Journal.Passed (journal : List Event) (position : Nat) : Prop :=
  ∀ i < position, state journal ⟨i⟩ = .created ∨ isCut journal i = true
    ∨ ∃ completed, .settled ⟨i⟩ .finish completed ∈ journal

/-- A running command rejects an object that it cannot bind, with this record. -/
structure Setting.Rejects (set : Setting) (journal : List Event) (position : Nat) (v : Value)
    (e : Record) (terminating : Bool) : Prop where
  inside : position < set.commands.length
  running : (Journal.state journal ⟨position⟩).isRunning = true
  source : e.source = set.source ⟨position⟩
  error : ∃ err, set.bindObject ⟨position⟩ v = .error err
    ∧ e.error? = some { err.toRecord with
      target := some v, phase := some .process, terminating := terminating }
  choice : set.bindingErrors ⟨position⟩ = if terminating then .terminating else .nonTerminating

/-- What becomes of an object on its way to the command at a position. With no command there it is
the host's. A command that never came to begin, since one before it did not complete that, is passed
over. An object that cannot be bound is reported or fails the chain. -/
inductive Handover (set : Setting) (journal : List Event) (position : Nat) (v : Value) (r : Record) :
    List Event → Prop
  | host (hend : position = set.commands.length) : Handover set journal position v r [.delivered r]
  | skipped (j : Nat) (hlt : position < set.commands.length) (hj : j < position)
    (hbegin : .settled ⟨j⟩ .begin false ∈ journal)
    (hcreated : Journal.state journal ⟨position⟩ = .created) : Handover set journal position v r []
  | rejected (e : Record) (he : e.error?.bind ErrorRecord.target = some v)
    (hreject : set.Rejects journal position v e false) :
    Handover set journal position v r [.emitted e, .delivered e]
  | failed (e : Record) (he : e.error?.bind ErrorRecord.target = some v)
    (hreject : set.Rejects journal position v e true) :
    Handover set journal position v r
      [.emitted e, .delivered e, .failed ⟨position⟩, .signaled set.stop]
  | called (parameters : BoundParameters) (hlt : position < set.commands.length)
    (hcalling : set.Calling journal ⟨position⟩)
    (hbind : set.bindObject ⟨position⟩ v = .ok parameters) :
    Handover set journal position v r [.called ⟨position⟩ .process parameters (some v)]

/-- The source of the objects on their way to the command at a position. -/
def Setting.offerer (set : Setting) : Nat → RecordSource
  | 0 => .host
  | i + 1 => set.source ⟨i⟩

/-- A command writes a message during a call, and this record is made of it. -/
structure Setting.Reports (set : Setting) (journal : List Event) (id : CommandId) (m : Message)
    (r : Record) : Prop where
  calm : ∀ p, set.pending journal = some p → p.1 = id
  source : r.source = set.source id
  payload : ∃ phase input, Journal.call? journal id = some (phase, input)
    ∧ r.payload = .message (m.completed phase input)

/-- The steps that settle a call report the error with which it ends, and the command fails where
that is terminating. -/
structure Setting.Verdict (set : Setting) (journal : List Event) (id : CommandId) (phase : Phase)
    (result : CallResult) (block : List Event) : Prop where
  running : (Journal.state journal id).isRunning = true
  calm : ∀ p, set.pending journal = some p → p.1 = id
  errors : ∃ input, Journal.call? journal id = some (phase, input) ∧ Journal.errors block
    = (result.error? (set.escalation journal id) (set.preferences id) phase input).toList.map
      fun e => (set.source id, e)
  failed : .failed id ∈ block
    ↔ result.isFatal (set.escalation journal id) (set.preferences id) = true

/-- The parameters of a command cannot be bound before any command begins. -/
structure Setting.Unbindable (set : Setting) (journal : List Event) (id : CommandId) (r : Record) :
    Prop where
  first : ∀ e ∈ journal, ∃ token, e = .signaled token
  earlier : ∀ j < id.number, ∃ stage, set.bind j = some (.ok stage)
  source : r.source = set.source id
  error : ∃ err, set.bind id.number = some (.error err)
    ∧ r.error? = some { err.toRecord with phase := some .bind, terminating := true }

/-- The steps that a move may add to a journal. -/
inductive Move (set : Setting) (journal : List Event) : List Event → Prop
  | signaled (token : StopToken) : Move set journal [.signaled token]
  /-- A message that its preference keeps from the host. -/
  | silenced (r : Record) (hr : r.object? = none) (id : CommandId) (m : Message)
    (hreport : set.Reports journal id m r)
    (hsilent : (set.preferences id).delivers m.kind = false) :
    Move set journal [.reporting id m, .emitted r]
  | reported (r : Record) (hr : r.object? = none) (id : CommandId) (m : Message)
    (hreport : set.Reports journal id m r)
    (hdelivers : (set.preferences id).delivers m.kind = true) :
    Move set journal [.reporting id m, .emitted r, .delivered r]
  /-- An error of the cleanup. -/
  | message (r : Record) (hr : r.object? = none) (hparting : journal.any Event.isParting = true) :
    Move set journal [.emitted r, .delivered r]
  | cut (id : CommandId) (hcalm : ∀ p, set.pending journal = some p → p.1 = id) :
    Move set journal [.cut id]
  | refused (id : CommandId) (v : Value) (hcalm : ∀ p, set.pending journal = some p → p.1 = id) :
    Move set journal [.writing id v, .wrote id .stopped]
  | tooEarly (id : CommandId) (v : Value) (hcut : Journal.isCut journal id.number = false)
    (hcalm : set.pending journal = none) :
    Move set journal [.writing id v, .wrote id (.terminating writeInBegin)]
  | offered (position : Nat) (v : Value) (r : Record) (offer handover : List Event)
    (hv : r.object? = some v) (hhalt : set.isHalted journal = false)
    (hoffer : Offer journal position v r offer)
    (hover : Handover set journal position v r handover) (hflowing : set.Flowing journal)
    (hcalm : set.pending journal = none) (hsource : r.source = set.offerer position) :
    Move set journal (offer ++ handover)
  /-- The engine never refuses a write that is not too early with a fault. -/
  | wrote (id : CommandId) (result : CallResult) (hresult : ∀ f, result ≠ .fault f)
    (hcalm : set.pending journal = none) : Move set journal [.wrote id result]
  /-- The parameters of a command cannot be bound. -/
  | failed (id : CommandId) (r : Record) (hr : r.object? = none)
    (hbind : set.Unbindable journal id r) :
    Move set journal [.emitted r, .delivered r, .failed id, .signaled set.stop]
  | begun (id : CommandId) (parameters : BoundParameters) (hlt : id.number < set.commands.length)
    (hhalt : set.isHalted journal = false)
    (hbefore : ∀ j < id.number, .settled ⟨j⟩ .begin true ∈ journal)
    (hclear : Journal.Clear journal id .begin) (hcalm : set.pending journal = none) :
    Move set journal [.called id .begin parameters none]
  /-- The first command processes in place of being fed. -/
  | head (parameters : BoundParameters) (hhalt : set.isHalted journal = false)
    (hinput : set.hostInput = false) (hcalling : set.Calling journal ⟨0⟩)
    (hbegan : Journal.state journal ⟨0⟩ = .began) (hbound : set.parameters? ⟨0⟩ = some parameters) :
    Move set journal [.called ⟨0⟩ .process parameters none]
  | once (id : CommandId) (parameters : BoundParameters) (hhalt : set.isHalted journal = false)
    (honce : set.processesOnce id = true) (hcalling : set.Calling journal id)
    (hbegan : Journal.state journal id = .began) (hbound : set.parameters? id = some parameters) :
    Move set journal [.called id .process parameters none]
  | finish (id : CommandId) (parameters : BoundParameters) (hhalt : set.isHalted journal = false)
    (hcut : Journal.isCut journal id.number = false) (hclear : Journal.Clear journal id .finish)
    (hcalling : set.Calling journal id) (hpassed : Journal.Passed journal id.number) :
    Move set journal [.called id .finish parameters none]
  | settled (id : CommandId) (phase : Phase) (result : CallResult) (completed : Bool)
    (block : List Event) (honce : phase = .process → set.processesOnce id = false)
    (hcalled : ∃ parameters input, .called id phase parameters input ∈ journal)
    (hclear : phase ≠ .process → ∀ r, .returned id phase r ∉ journal)
    (hblock : Settlement set id phase result completed block)
    (hverdict : set.Verdict journal id phase result block) : Move set journal block
  /-- A command that processes once gives up or fails in a chain that is halting by then. -/
  | onceAborted (id : CommandId) (result : CallResult) (block : List Event)
    (honce : set.processesOnce id = true)
    (hcalled : ∃ parameters input, .called id .process parameters input ∈ journal)
    (hblock : Settlement set id .process result false block)
    (hhalt : set.isHalted (journal ++ block) = true)
    (hverdict : set.Verdict journal id .process result block) : Move set journal block
  /-- A command that processes once ends right after that call, whatever happened during it. -/
  | onceEnded (id : CommandId) (result : CallResult) (completed : Bool) (block : List Event)
    (parameters : BoundParameters) (honce : set.processesOnce id = true)
    (hcalled : ∃ parameters input, .called id .process parameters input ∈ journal)
    (hblock : Settlement set id .process result completed block)
    (hgo : completed = true ∨ set.isHalted (journal ++ block) = false)
    (hclear : Journal.Clear journal id .finish)
    (hverdict : set.Verdict journal id .process result block)
    (hflowing : set.Flowing journal) (hpassed : Journal.Passed journal id.number) :
    Move set journal (block ++ [.called id .finish parameters none])
  | stopping (id : CommandId) : Move set journal [.stopping id]
  | disposing (id : CommandId) : Move set journal [.disposing id]

/-- The steps of a block may follow a journal, as a sequence of moves. -/
inductive Legal (set : Setting) : List Event → List Event → Prop
  | nil (journal : List Event) : Legal set journal []
  | move {journal block rest : List Event} (hmove : Move set journal block)
    (hrest : Legal set (journal ++ block) rest) : Legal set journal (block ++ rest)

namespace Legal

variable {set : Setting} {journal block rest : List Event}

/-- One move is legal. -/
theorem of_move (h : Move set journal block) : Legal set journal block := by
  have := Legal.move h (.nil _)
  rwa [List.append_nil] at this

/-- Legal blocks follow each other. -/
theorem append (h : Legal set journal block) (hrest : Legal set (journal ++ block) rest) :
    Legal set journal (block ++ rest) := by
  induction h with
  | nil journal => rwa [List.append_nil] at hrest
  | move hmove _ ih =>
    rw [List.append_assoc]
    rw [← List.append_assoc] at hrest
    exact .move hmove (ih hrest)

/-- A move may follow a legal journal. -/
theorem snoc (h : Legal set [] journal) (hmove : Move set journal block) :
    Legal set [] (journal ++ block) :=
  h.append (of_move hmove)

/-- Signals are legal at any time. -/
theorem signals (set : Setting) (journal : List Event) (tokens : List StopToken) :
    Legal set journal (tokens.map .signaled) := by
  induction tokens generalizing journal with
  | nil => exact .nil _
  | cons token tokens ih => exact .move (.signaled token) (ih _)

end Legal

/-! ## Laws

`Journal.Each law` says that every step of a block obeys a law about what came before it and what
follows, `Journal.Occurs p` that some step has a property that depends on what came before it, and
`Journal.gather f` lists what the steps yield, each after those before it.
-/

namespace Journal

/-- A step that is not in a later block, with what comes before it and after it. -/
theorem split_of_not_mem {steps later past rest : List Event} {e : Event}
    (h : steps ++ later = past ++ e :: rest) (he : e ∉ later) :
    ∃ middle, steps = past ++ e :: middle ∧ rest = middle ++ later := by
  rcases List.append_eq_append_iff.mp h with ⟨middle, -, hlater⟩ | ⟨middle, hsteps, hlater⟩
  · exact absurd (hlater ▸ List.mem_append_right _ (.head _)) he
  · cases middle with
    | nil =>
      rw [List.nil_append] at hlater
      exact absurd (hlater ▸ .head _) he
    | cons first middle =>
      obtain ⟨rfl, hrest⟩ := List.cons.inj hlater
      exact ⟨middle, hsteps, hrest⟩

/-- Every step obeys a law about the steps before it and those that follow it in the block. -/
def Each (law : List Event → Event → List Event → Prop) : List Event → List Event → Prop
  | _, [] => True
  | past, e :: rest => law past e rest ∧ Each law (past ++ [e]) rest

/-- Some step has a property that depends on the steps before it. -/
def Occurs (p : List Event → Event → Prop) : List Event → List Event → Prop
  | _, [] => False
  | past, e :: rest => p past e ∨ Occurs p (past ++ [e]) rest

/-- What the steps of a block yield, each depending on the steps before it. -/
def gather {α : Type} (f : List Event → Event → Option α) : List Event → List Event → List α
  | _, [] => []
  | past, e :: rest => (f past e).toList ++ gather f (past ++ [e]) rest

variable {law : List Event → Event → List Event → Prop} {p q : List Event → Event → Prop}
  {past block rest : List Event}

/-- Two blocks in turn yield what the first yields, and then what the second does after it. -/
theorem gather_append {α : Type} (f : List Event → Event → Option α) :
    gather f past (block ++ rest) = gather f past block ++ gather f (past ++ block) rest := by
  induction block generalizing past with
  | nil => simp [gather]
  | cons e block ih => simp [gather, ih]

/-- A law is obeyed by every step exactly if it is at every place that a block can be split at. -/
theorem each_iff :
    Each law past block
      ↔ ∀ before e after, block = before ++ e :: after → law (past ++ before) e after := by
  induction block generalizing past with
  | nil => simp [Each]
  | cons e block ih =>
    rw [Each, ih]
    constructor
    · rintro ⟨hhead, htail⟩ before e' after heq
      cases before with
      | nil =>
        obtain ⟨rfl, rfl⟩ := List.cons.inj heq
        rwa [List.append_nil]
      | cons b before =>
        obtain ⟨rfl, hrest⟩ := List.cons.inj heq
        have := htail before e' after hrest
        rwa [List.append_assoc] at this
    · refine fun h => ⟨?_, fun before e' after heq => ?_⟩
      · have := h [] e block rfl
        rwa [List.append_nil] at this
      · have := h (e :: before) e' after (by rw [heq, List.cons_append])
        rwa [List.append_assoc]

/-- Some step has a property exactly if there is a place to split the block at. -/
theorem occurs_iff :
    Occurs p past block
      ↔ ∃ before e after, block = before ++ e :: after ∧ p (past ++ before) e := by
  have h : Occurs p past block ↔ ¬ Each (fun past e _ => ¬ p past e) past block := by
    induction block generalizing past with
    | nil => simp [Occurs, Each]
    | cons e block ih =>
      rw [Occurs, Each, ih, Classical.not_and_iff_not_or_not, Classical.not_not]
  rw [h, each_iff]
  simp only [Classical.not_forall, Classical.not_not, exists_prop]

/-- A law that a continuation cannot break holds of a block and what follows it. -/
theorem Each.append (hstable : ∀ past e rest more, law past e rest → law past e (rest ++ more))
    (h : Each law past block) (hrest : Each law (past ++ block) rest) :
    Each law past (block ++ rest) := by
  induction block generalizing past with
  | nil => rwa [List.append_nil] at hrest
  | cons e block ih =>
    refine ⟨hstable _ _ _ _ h.1, ih h.2 ?_⟩
    rwa [List.append_assoc]

/-- Some step of two blocks has a property exactly if one of the first has it, or one of the second
after those. -/
theorem occurs_append :
    Occurs p past (block ++ rest) ↔ Occurs p past block ∨ Occurs p (past ++ block) rest := by
  induction block generalizing past with
  | nil => simp [Occurs]
  | cons e block ih =>
    rw [List.cons_append, Occurs, Occurs, ih, List.append_assoc, or_assoc]
    rfl

end Journal

namespace Legal

variable {set : Setting} {journal block : List Event}

/-- A law of every move that a continuation cannot break is a law of legal journals. -/
theorem each {law : List Event → Event → List Event → Prop}
    (hstable : ∀ past e rest more, law past e rest → law past e (rest ++ more))
    (hmove : ∀ journal block, Move set journal block → Journal.Each law journal block)
    (h : Legal set journal block) : Journal.Each law journal block := by
  induction h with
  | nil _ => trivial
  | move hm _ ih => exact (hmove _ _ hm).append hstable ih

/-- A law of every move that follows a legal journal is a law of legal journals. -/
theorem each_of_legal {law : List Event → Event → List Event → Prop}
    (hstable : ∀ past e rest more, law past e rest → law past e (rest ++ more))
    (hmove : ∀ journal block, Legal set [] journal → Move set journal block →
      Journal.Each law journal block)
    (h : Legal set journal block) (hjournal : Legal set [] journal) :
    Journal.Each law journal block := by
  induction h with
  | nil _ => trivial
  | move hm _ ih => exact (hmove _ _ hjournal hm).append hstable (ih (hjournal.snoc hm))

/-- Two things of which every move holds both or neither occur in the same legal journals. -/
theorem occurs_iff {p q : List Event → Event → Prop}
    (hmove : ∀ journal block, Move set journal block →
      (Journal.Occurs p journal block ↔ Journal.Occurs q journal block))
    (h : Legal set journal block) :
    Journal.Occurs p journal block ↔ Journal.Occurs q journal block := by
  induction h with
  | nil _ => exact Iff.rfl
  | move hm _ ih => rw [Journal.occurs_append, Journal.occurs_append, hmove _ _ hm, ih]

/-- Every step of a legal journal is part of a move, and more moves follow. -/
theorem exists_move_at {past rest : List Event} {e : Event} (h : Legal set journal block)
    (hsplit : block = past ++ e :: rest) :
    ∃ before first second later, past = before ++ first ∧ rest = second ++ later
      ∧ Move set (journal ++ before) (first ++ e :: second)
      ∧ Legal set (journal ++ before ++ (first ++ e :: second)) later := by
  induction h generalizing past with
  | nil journal => exact absurd hsplit (by simp)
  | @move journal steps block hm hlegal ih =>
    rcases List.append_eq_append_iff.mp hsplit with ⟨middle, rfl, hblock⟩ | ⟨middle, rfl, hblock⟩
    · obtain ⟨before, first, second, later, rfl, rfl, hmove, hlater⟩ := ih hblock
      rw [List.append_assoc journal steps before] at hmove hlater
      exact ⟨steps ++ before, first, second, later, by rw [List.append_assoc], rfl, hmove, hlater⟩
    · cases middle with
      | nil =>
        rw [List.append_nil] at hm hlegal ih
        obtain ⟨before, first, second, later, hnil, rfl, hmove, hlater⟩ := @ih [] hblock.symm
        obtain ⟨rfl, rfl⟩ := List.append_eq_nil_iff.mp hnil.symm
        rw [List.append_nil] at hmove hlater
        exact ⟨past, [], second, later, (List.append_nil _).symm, rfl, hmove, hlater⟩
      | cons first middle =>
        obtain ⟨rfl, rfl⟩ := List.cons.inj hblock
        refine ⟨[], past, middle, block, rfl, rfl, ?_, ?_⟩
        · rwa [List.append_nil]
        · rwa [List.append_nil]

/-- Every step of a legal journal is part of a move. -/
theorem exists_move {e : Event} (h : Legal set journal block) (he : e ∈ block) :
    ∃ past steps rest, block = past ++ steps ++ rest ∧ Move set (journal ++ past) steps
      ∧ e ∈ steps := by
  induction h with
  | nil _ => cases he
  | move hm _ ih =>
    rcases List.mem_append.mp he with he | he
    · exact ⟨[], _, _, rfl, by rwa [List.append_nil], he⟩
    · obtain ⟨past, steps, rest, rfl, hmove, he⟩ := ih he
      rw [List.append_assoc] at hmove
      exact ⟨_ ++ past, steps, rest, by simp only [List.append_assoc], hmove, he⟩

end Legal

end CommandChain
