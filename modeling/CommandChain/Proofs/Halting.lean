import CommandChain.Proofs.Conduct.Whole
/-!
# Calls cease when a chain halts

From the moment the token of a chain is signaled, commands are only told to stop and disposed of: no
call to begin, to process or to end is made any more. There is one exception, and it is the only
one. A command that processes once ends right after that call where the call completed, whether or
not the chain is halting by then.
-/

namespace CommandChain

/-- Whether a step is a call of a command to begin, to process or to end. -/
def Event.isCall : Event → Bool
  | called .. => true
  | _ => false

/-- A call is made in a chain that is halting. -/
def Setting.LateCall (set : Setting) (past : List Event) (e : Event) : Prop :=
  e.isCall = true ∧ set.isHalted past = true

/-- A command that processes once completes its call in a chain that is halting by then. -/
def Setting.LateCompletion (set : Setting) (past : List Event) : Event → Prop
  | .settled id .process true => set.processesOnce id = true ∧ set.isHalted past = true
  | _ => False

/-- From the moment the chain is halting, no command is called to begin, to process or to end. -/
def Setting.CallsCease (set : Setting) (journal : List Event) : Prop :=
  ∀ before id phase parameters input after,
    journal = before ++ .called id phase parameters input :: after → set.isHalted before = false

/-- Some command that processes once completes that call while the chain is halting. -/
def Setting.CompletesLate (set : Setting) (journal : List Event) : Prop :=
  ∃ before id after, journal = before ++ .settled id .process true :: after
    ∧ set.processesOnce id = true ∧ set.isHalted before = true

variable {set : Setting} {journal block : List Event}

/-- Calls cease exactly if no step is a late call. -/
theorem Setting.callsCease_iff :
    set.CallsCease journal ↔ ¬ Journal.Occurs set.LateCall [] journal := by
  rw [Journal.occurs_iff]
  constructor
  · rintro h ⟨before, e, after, rfl, hcall, hhalt⟩
    cases e <;> cases hcall
    rw [List.nil_append, h before _ _ _ _ after rfl] at hhalt
    cases hhalt
  · intro h before id phase parameters input after heq
    rw [← Bool.not_eq_true]
    exact fun hhalt => h ⟨before, _, after, heq, rfl, hhalt⟩

/-- A call completes late exactly if some step is a late completion. -/
theorem Setting.completesLate_iff :
    set.CompletesLate journal ↔ Journal.Occurs set.LateCompletion [] journal := by
  rw [Journal.occurs_iff]
  constructor
  · rintro ⟨before, id, after, heq, honce, hhalt⟩
    exact ⟨before, _, after, heq, honce, hhalt⟩
  · rintro ⟨before, e, after, heq, he⟩
    unfold Setting.LateCompletion at he
    split at he
    · exact ⟨before, _, after, heq, he.1, he.2⟩
    · cases he

/-- Settling a call makes no call, and completes one late only as its last step. -/
theorem Settlement.occurs_lateCompletion {id : CommandId} {phase : Phase} {result : CallResult}
    {completed : Bool} (h : Settlement set id phase result completed block) (journal : List Event) :
    ¬ Journal.Occurs set.LateCall journal block
      ∧ (Journal.Occurs set.LateCompletion journal block ↔ phase = .process ∧ completed = true
        ∧ set.processesOnce id = true ∧ set.isHalted (journal ++ block) = true) := by
  constructor
  · cases h <;> simp [Journal.Occurs, Setting.LateCall, Event.isCall]
  · cases h <;> cases phase <;>
      simp [Journal.Occurs, Setting.LateCompletion, Event.raises]

/-- A move makes a late call exactly where it completes one. -/
theorem Move.lateCall_iff (h : Move set journal block) :
    Journal.Occurs set.LateCall journal block
      ↔ Journal.Occurs set.LateCompletion journal block := by
  cases h with
  | offered position v r offer handover hv hhalt hoffer hover =>
    cases hoffer <;> cases hover <;>
      simp [Journal.Occurs, Setting.LateCall, Setting.LateCompletion, Event.isCall, Event.raises,
        hhalt]
  | begun id parameters hlt hhalt hbefore hclear =>
    simp [Journal.Occurs, Setting.LateCall, Setting.LateCompletion, hhalt]
  | head parameters hhalt hinput =>
    simp [Journal.Occurs, Setting.LateCall, Setting.LateCompletion, hhalt]
  | once id parameters hhalt honce =>
    simp [Journal.Occurs, Setting.LateCall, Setting.LateCompletion, hhalt]
  | finish id parameters hhalt hcut hclear =>
    simp [Journal.Occurs, Setting.LateCall, Setting.LateCompletion, hhalt]
  | settled id phase result completed block honce hcalled hclear hblock =>
    obtain ⟨hcall, hcompletion⟩ := hblock.occurs_lateCompletion journal
    rw [hcompletion]
    refine iff_of_false hcall ?_
    rintro ⟨hphase, -, honce', -⟩
    rw [honce hphase] at honce'
    cases honce'
  | onceAborted id result block honce hcalled hblock hhalt =>
    obtain ⟨hcall, hcompletion⟩ := hblock.occurs_lateCompletion journal
    rw [hcompletion]
    exact iff_of_false hcall fun h => Bool.false_ne_true h.2.1
  -- The end of such a command is called late if and only if its call had completed late.
  | onceEnded id result completed block parameters honce hcalled hblock hgo hclear =>
    obtain ⟨hcall, hcompletion⟩ := hblock.occurs_lateCompletion journal
    rw [Journal.occurs_append, Journal.occurs_append, hcompletion]
    simp only [hcall, false_or, Journal.Occurs, Setting.LateCall, Setting.LateCompletion, or_false,
      Event.isCall, true_and, honce]
    constructor
    · intro hhalt
      refine ⟨hgo.resolve_right ?_, hhalt⟩
      rw [hhalt]
      exact Bool.noConfusion
    · exact And.right
  | _ => simp [Journal.Occurs, Setting.LateCall, Setting.LateCompletion, Event.isCall]

/-- In a legal journal calls cease when the chain halts, unless a command that processes once
completes its call after that. -/
theorem Legal.callsCease_iff (h : Legal set [] journal) :
    set.CallsCease journal ↔ ¬ set.CompletesLate journal := by
  rw [Setting.callsCease_iff, Setting.completesLate_iff,
    h.occurs_iff fun _ _ hmove => hmove.lateCall_iff]

/-- **Calls cease when a chain halts.** Whatever the commands of a chain do, whatever it is fed and
whenever its token is signaled, no call to begin, to process or to end follows, exactly if no
command that processes once completes that call while the chain is halting. -/
theorem Pipeline.calls_cease_iff (settings : ChainSettings) (host : StopToken) (flags : StopFlags)
    (specs : List CommandSpec) (tokens : List StopToken) (input : Option (List Value)) :
    ((build settings host flags specs).setting input).CallsCease
        (((build settings host flags specs).signaled tokens).invoke input).2.chain.journal
      ↔ ¬ ((build settings host flags specs).setting input).CompletesLate
        (((build settings host flags specs).signaled tokens).invoke input).2.chain.journal :=
  (legal_journal settings host flags specs tokens input).callsCease_iff

/-- A command without parameters that signals a token while it processes, and completes. -/
def Command.signaling (token : StopToken) : Command where
  name := "once"
  parameters := []
  Memory := Unit
  fresh := ()
  process _ _ := .signal token (.done .ok)

/-- A command that halts its own chain while it processes once is called to end all the same. -/
theorem not_callsCease_signaling :
    ¬ ((Pipeline.build {} ⟨0, []⟩ ⟨1, []⟩ [{ command := .signaling ⟨1, [0]⟩ }]).setting
        (some [])).CallsCease
      (((Pipeline.build {} ⟨0, []⟩ ⟨1, []⟩ [{ command := .signaling ⟨1, [0]⟩ }]).signaled []).invoke
        (some [])).2.chain.journal := by
  intro h
  have hhalt := h
    [.called ⟨0⟩ .begin .empty none, .returned ⟨0⟩ .begin .ok, .settled ⟨0⟩ .begin true,
      .called ⟨0⟩ .process .empty none, .signaled ⟨1, [0]⟩, .returned ⟨0⟩ .process .ok,
      .settled ⟨0⟩ .process true]
    ⟨0⟩ .finish .empty none
    [.returned ⟨0⟩ .finish .ok, .settled ⟨0⟩ .finish true, .disposing ⟨0⟩] rfl
  exact absurd hhalt (by decide)

end CommandChain
