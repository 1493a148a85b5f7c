import CommandChain.Builtin.Mapping
import CommandChain.Proofs.Streaming.Telling
import CommandChain.Script.Standard
/-!
# The command that maps objects

The command evaluates a block before the first object, one for each object or a member of it in its
place, and one behind the last object. `timeline` runs the same turns one after another, with nothing
put off: each evaluation gets the scope that the one before it left, writes what it gives at once, or
leaves one error. The command cannot write where it begins, so it keeps what comes out there for its
next call; the host cannot tell the difference. What a block gives is up to the language of the scripts,
and nothing is assumed about it.
-/

namespace CommandChain

namespace Builtin.Mapping

/-! ## Turns -/

/-- What the command does with each object. -/
inductive Body (language : Script.Language) where
  | script (block : Script.Block language)
  | member (name : String)

/-- What the command does: the blocks of its begin and its end, and what it does with each object. -/
structure Plan (language : Script.Language) where
  opening? : Option (Script.Block language)
  body : Body language
  closing? : Option (Script.Block language)

/-- One thing that the command does: it evaluates a block, or reads a member of an object. -/
inductive Turn (language : Script.Language) where
  | evaluate (phase : Phase) (block : Script.Block language) (item : Option Value)
  | read (member : String) (v : Value)

variable {language : Script.Language}

/-- What is done with an object. -/
def Body.turn : Body language → Value → Turn language
  | script block, v => .evaluate .process block (some v)
  | member name, v => .read name v

/-- What is done behind the last object. -/
def Plan.closing (plan : Plan language) : List (Turn language) :=
  plan.closing?.toList.map (.evaluate .finish · none)

/-- What is done for a list of objects: the block of the begin is evaluated, then each object gets its
turn, and then the block of the end is evaluated. -/
def Plan.turns (plan : Plan language) (input : List Value) : List (Turn language) :=
  plan.opening?.toList.map (.evaluate .begin · none) ++ input.map plan.body.turn ++ plan.closing

/-- The evaluation of blocks: from a scope and an object to a value, or why there is none, and the
scope that is left. -/
abbrev Evaluation (language : Script.Language) := Script.Block language → language.Scope →
  Option Value → Except String Value × language.Scope

/-- What an evaluation tells the host. Null is not written. -/
def evaluated (phase : Phase) (block : Script.Block language) (item : Option Value) :
    Except String Value → List Payload
  | .ok v => if v.isNull then [] else v.elements.map .object
  | .error message =>
    [.message (.error
      { message := (runError block message).message
        category := .invalidOperation
        errorId := "ScriptFailed"
        target := item
        phase := some phase })]

/-- What the reading of a member tells the host. Null is written, too. -/
def read (member : String) (v : Value) : Option Value → List Payload
  | some w => w.elements.map .object
  | none =>
    [.message (.error
      { message := "Property '" ++ member ++ "' not found"
        category := .invalidArgument
        errorId := "PropertyNotFound"
        target := some v
        phase := some .process })]

/-- What one turn tells the host, and the scope that it leaves. -/
def Turn.take (evaluation : Evaluation language) (adapter : Adapter) (scope : language.Scope) :
    Turn language → List Payload × language.Scope
  | evaluate phase block item =>
    (evaluated phase block item (evaluation block scope item).1, (evaluation block scope item).2)
  | read member v => (Mapping.read member v (adapter.property? v member), scope)

/-- What turns tell the host, one after another, the first in a given scope. -/
def timeline (evaluation : Evaluation language) (adapter : Adapter) :
    language.Scope → List (Turn language) → List Payload
  | _, [] => []
  | scope, turn :: turns =>
    (turn.take evaluation adapter scope).1
      ++ timeline evaluation adapter (turn.take evaluation adapter scope).2 turns

/-- The parameters that a call has bound give the plan: its scripts compile. -/
structure Plan.Compiled (plan : Plan language) (call : Call) : Prop where
  opening : compileParameter language call "Begin" = .ok plan.opening?
  closing : compileParameter language call "End" = .ok plan.closing?
  body : match plan.body with
    | .script block => call.parameters.text? "MemberName" = none
      ∧ compileParameter language call "Process" = .ok (some block)
    | .member name => call.parameters.text? "MemberName" = some name
      ∧ ∃ block?, compileParameter language call "Process" = .ok block?

/-- The command remembers the plan. -/
structure Plan.Kept (plan : Plan language) (m : Memory language) : Prop where
  closing : m.finishBlock = plan.closing?
  body : match plan.body with
    | .script block => m.member = none ∧ m.processBlock = some block
    | .member name => m.member = some name

/-! ## Calls -/

/-- Evaluation as a call has it. -/
def evaluation (scripts : Script.Limits) (adapter : Adapter) : Evaluation language :=
  fun block scope item => block.run scripts adapter scope item

/-- What is pending, as the host gets it. -/
def parked (m : Memory language) : List Payload :=
  (m.pending.flatMap Value.elements).map .object

variable {plan : Plan language} {call : Call} {flags : StopFlags} {m memory after : Memory language}
  {told : List Payload}

/-- Writing several values tells the host the elements of each, in order. -/
theorem writeEach_comesTo {next : CallResult → Hook (Memory language)} (vs : List Value)
    (h : (next .ok).ComesTo call flags memory after told)
    (hrefused : (next .stopped).Subsides flags call.preferences) :
    (writeEach vs next).ComesTo call flags memory after
      ((vs.flatMap Value.elements).map .object ++ told) := by
  induction vs with
  | nil => exact h
  | cons v vs ih =>
    rw [List.flatMap_cons, List.map_append, List.append_assoc]
    exact Hook.ComesTo.writeEnumerated v ih hrefused

/-- What is pending goes first, and is pending no more. -/
theorem flush_comesTo {next : Memory language → Hook (Memory language)}
    (h : (next { m with pending := [] }).ComesTo call flags { m with pending := [] } after told) :
    (flush m next).ComesTo call flags memory after (parked m ++ told) := by
  refine Hook.ComesTo.store (writeEach_comesTo m.pending ?_ ?_)
  · exact h
  · exact .inl rfl

/-- What is written last in a call is all that the host gets from there on. -/
theorem writeEnumerated_done (v : Value) :
    (Hook.writeEnumerated v .done).ComesTo call flags memory memory (v.elements.map .object) := by
  have hwritten : (Hook.writeEnumerated v .done).ComesTo call flags memory memory
      (v.elements.map .object ++ CallResult.ok.told call.phase call.input) :=
    Hook.ComesTo.writeEnumerated v (.done rfl) (.inl rfl)
  rwa [show CallResult.ok.told call.phase call.input = [] from rfl, List.append_nil] at hwritten

/-- A block that is evaluated in a call tells the host what the evaluation tells. -/
theorem runAndWrite_comesTo (block : Script.Block language) (m : Memory language) :
    (runAndWrite call block call.input m).ComesTo call flags memory
      { m with scope := (evaluation call.scripts call.adapter block m.scope call.input).2 }
      (evaluated call.phase block call.input
        (evaluation call.scripts call.adapter block m.scope call.input).1) := by
  have hrun : run call m block call.input
      = ({ m with scope := (evaluation call.scripts call.adapter block m.scope call.input).2 },
        match (evaluation call.scripts call.adapter block m.scope call.input).1 with
        | .ok v => .ok v
        | .error f => .error (scriptFailed block f)) := rfl
  unfold runAndWrite
  rw [hrun]
  cases (evaluation call.scripts call.adapter block m.scope call.input).1 with
  | error f => exact Hook.ComesTo.store (.done rfl)
  | ok v =>
    refine Hook.ComesTo.store ?_
    rw [writeResult, evaluated]
    cases v.isNull with
    | true => exact .done rfl
    | false => exact writeEnumerated_done v

/-- The memory after a call in which a turn was taken. -/
def Memory.next (m : Memory language) (scope : language.Scope) : Memory language :=
  { m with scope := scope, pending := [] }

/-- The plan is remembered whatever evaluations do to the scope. -/
theorem Plan.Kept.next (h : plan.Kept m) (scope : language.Scope) : plan.Kept (m.next scope) :=
  ⟨h.closing, h.body⟩

/-- The call for an object writes what is pending and takes the turn of the object. -/
theorem process_comesTo (h : plan.Kept m) {v : Value} (hphase : call.phase = .process)
    (hinput : call.input = some v) (hobject : call.inputObject = v) :
    (process call m).ComesTo call flags memory
      (m.next ((plan.body.turn v).take (evaluation call.scripts call.adapter) call.adapter m.scope).2)
      (parked m
        ++ ((plan.body.turn v).take (evaluation call.scripts call.adapter) call.adapter m.scope).1)
    := by
  obtain ⟨opening, body, closing⟩ := plan
  obtain ⟨processBlock, finishBlock, member, scope, pending⟩ := m
  obtain ⟨-, hbody⟩ := h
  refine flush_comesTo ?_
  cases body with
  | script block =>
    obtain ⟨rfl, rfl⟩ : member = none ∧ processBlock = some block := hbody
    have hrun := @runAndWrite_comesTo _ call flags ⟨some block, finishBlock, none, scope, []⟩ block
      ⟨some block, finishBlock, none, scope, []⟩
    rw [hphase, hinput] at hrun
    simp only [hobject]
    exact hrun
  | member name =>
    obtain rfl : member = some name := hbody
    simp only [hobject, writeMember, Body.turn, Turn.take]
    cases call.adapter.property? v name with
    | some w => exact writeEnumerated_done w
    | none =>
      have htold : (memberNotFound name).told call.phase call.input = read name v none := by
        rw [hphase, hinput]
        rfl
      exact htold ▸ .done rfl

/-- The call to end writes what is pending and takes the turn of the end. -/
theorem finish_comesTo (h : plan.Kept m) (hphase : call.phase = .finish) (hinput : call.input = none) :
    ∃ after, (finish call m).ComesTo call flags memory after
      (parked m ++ timeline (evaluation call.scripts call.adapter) call.adapter m.scope
        plan.closing) := by
  obtain ⟨opening, body, closing⟩ := plan
  obtain ⟨processBlock, finishBlock, member, scope, pending⟩ := m
  obtain rfl : finishBlock = closing := h.closing
  cases finishBlock with
  | none => exact ⟨_, flush_comesTo (.done rfl)⟩
  | some block =>
    have hrun := @runAndWrite_comesTo _ call flags ⟨processBlock, some block, member, scope, []⟩ block
      ⟨processBlock, some block, member, scope, []⟩
    rw [hphase, hinput] at hrun
    rw [Plan.closing, Option.toList_some, List.map_singleton, timeline, timeline, List.append_nil]
    exact ⟨_, flush_comesTo hrun⟩

/-- Where the parameters give a plan, the call to begin gets as far as the block of the begin. -/
theorem Plan.Compiled.begin_eq (h : plan.Compiled call) :
    ∃ m, m.scope = language.empty ∧ m.pending = []
      ∧ (∀ scope pending, plan.Kept { m with scope, pending })
      ∧ begin call {} = match plan.opening? with
        | none => .store m (.done .ok)
        | some block => runBegin call m block := by
  obtain ⟨block?, hblock, hbody, hkept⟩ : ∃ block?, compileParameter language call "Process" = .ok block?
      ∧ (block?.isNone && (call.parameters.text? "MemberName").isNone) = false
      ∧ ∀ scope pending, plan.Kept
        ⟨block?, plan.closing?, call.parameters.text? "MemberName", scope, pending⟩ := by
    obtain ⟨opening, body, closing⟩ := plan
    obtain ⟨-, -, hbody⟩ := h
    cases body with
    | script block => exact ⟨some block, hbody.2, rfl, fun _ _ => ⟨rfl, hbody.1, rfl⟩⟩
    | member name =>
      obtain ⟨hmember, block?, hblock⟩ := hbody
      exact ⟨block?, hblock, by rw [hmember, Option.isNone_some, Bool.and_false],
        fun _ _ => ⟨rfl, hmember⟩⟩
  refine ⟨⟨block?, plan.closing?, call.parameters.text? "MemberName", language.empty, []⟩, rfl,
    rfl, hkept, ?_⟩
  simp only [begin, hblock, h.closing, hbody, h.opening, Bool.false_eq_true, if_false]
  cases plan.opening? <;> rfl

/-- The call to begin keeps the plan. What its block told is what the call returned, or else is
pending. -/
theorem begin_told (h : plan.Compiled call) (flags : StopFlags) :
    (begin call ({} : Memory language)).Inward
      ∧ ((begin call ({} : Memory language)).yield flags {}).result.completes = true
      ∧ plan.Kept ((begin call {}).yield flags {}).memory
      ∧ ∀ turns, ((begin call ({} : Memory language)).yield flags {}).result.told .begin none
          ++ (parked ((begin call ({} : Memory language)).yield flags {}).memory
            ++ timeline (evaluation call.scripts call.adapter) call.adapter
              ((begin call ({} : Memory language)).yield flags {}).memory.scope turns)
        = timeline (evaluation call.scripts call.adapter) call.adapter language.empty
          (plan.opening?.toList.map (.evaluate .begin · none) ++ turns) := by
  obtain ⟨⟨processBlock, finishBlock, member, scope, pending⟩, hscope, hpending, hkept, hbegin⟩ :=
    h.begin_eq
  obtain rfl : scope = language.empty := hscope
  obtain rfl : pending = [] := hpending
  rw [hbegin]
  cases plan.opening? with
  | none => exact ⟨trivial, rfl, hkept language.empty [], fun turns => rfl⟩
  | some block =>
    have hrun : run call ⟨processBlock, finishBlock, member, language.empty, []⟩ block none
        = (⟨processBlock, finishBlock, member,
            (evaluation call.scripts call.adapter block language.empty none).2, []⟩,
          match (evaluation call.scripts call.adapter block language.empty none).1 with
          | .ok v => .ok v
          | .error f => .error (scriptFailed block f)) := rfl
    have htake (turns : List (Turn language)) :
        timeline (evaluation call.scripts call.adapter) call.adapter language.empty
          ((some block).toList.map (.evaluate .begin · none) ++ turns)
        = evaluated .begin block none
            (evaluation call.scripts call.adapter block language.empty none).1
          ++ timeline (evaluation call.scripts call.adapter) call.adapter
            (evaluation call.scripts call.adapter block language.empty none).2 turns := rfl
    simp only [runBegin, hrun, htake]
    cases (evaluation call.scripts call.adapter block language.empty none).1 with
    | error f => exact ⟨trivial, rfl, hkept _ _, fun turns => rfl⟩
    | ok v =>
      refine ⟨trivial, rfl, hkept _ _, fun turns => ?_⟩
      cases hnull : v.isNull with
      | true => simp [evaluated, hnull, Hook.yield, parked, CallResult.told]
      | false => simp [evaluated, hnull, Hook.yield, parked, CallResult.told]

/-! ## All calls together -/

/-- A stage of the command before it begins. -/
def stageOf (language : Script.Language) (arguments : List Argument) (bound : BoundParameters)
    (preferences : Preferences) (bindingErrors : BindingErrorAction) : Stage :=
  ⟨0, command language, ({} : Memory language), arguments, .created, bound, preferences,
    bindingErrors, {}⟩

section

variable {arguments : List Argument} {bound : BoundParameters} {preferences : Preferences}
  {bindingErrors : BindingErrorAction} {chain : Chain}

/-- A call for an object tells what is pending and then what its turn tells, and leaves the scope
that the turn leaves. -/
theorem transducer_process (h : plan.Kept m) (v : Value) :
    Hook.ComesTo ((stageOf language arguments bound preferences bindingErrors).call chain .process
        (bound.insert "InputObject" v .pipelineByValue) (some v)) chain.flags
      (((stageOf language arguments bound preferences bindingErrors).transducer chain).process m v) m
      (m.next ((plan.body.turn v).take (evaluation chain.scripts chain.adapter) chain.adapter
        m.scope).2)
      (parked m ++ ((plan.body.turn v).take (evaluation chain.scripts chain.adapter) chain.adapter
        m.scope).1) := by
  refine process_comesTo h rfl rfl ?_
  rw [Call.inputObject]
  exact congrArg (·.getD .null) (bound.get?_insert_self "InputObject" v .pipelineByValue)

/-- The call to end tells what is pending and then what the closing tells. -/
theorem transducer_finish (h : plan.Kept m) :
    ∃ after, Hook.ComesTo ((stageOf language arguments bound preferences bindingErrors).closing chain)
      chain.flags
      (((stageOf language arguments bound preferences bindingErrors).transducer chain).finish m) m
      after (parked m ++ timeline (evaluation chain.scripts chain.adapter) chain.adapter m.scope
        plan.closing) :=
  finish_comesTo h rfl rfl

/-- The memory after an object. -/
theorem transducer_step (h : plan.Kept m) (v : Value) :
    ((stageOf language arguments bound preferences bindingErrors).transducer chain).step m v
      = m.next ((plan.body.turn v).take (evaluation chain.scripts chain.adapter) chain.adapter
        m.scope).2 :=
  (transducer_process h v).leaves

/-- The plan is remembered from one object to the next. -/
theorem kept_step (h : plan.Kept m) (v : Value) :
    plan.Kept
      (((stageOf language arguments bound preferences bindingErrors).transducer chain).step m v) := by
  rw [transducer_step h v]
  exact h.next _

/-- Once it keeps a plan, the command streams, and it needs all objects. -/
theorem streams (h : plan.Kept m) :
    ((stageOf language arguments bound preferences bindingErrors).transducer chain).Streams preferences
      (fun _ => False) m := by
  refine .of_invariant (p := plan.Kept) (fun m v h => kept_step h v)
    (fun m v h => (transducer_process h v).streams) (fun m h => ?_) h
  obtain ⟨after, hfinish⟩ := transducer_finish h
  exact hfinish.streams

/-- What the calls for some objects and to end tell the host is what was pending and then the turns,
one after another. -/
theorem toldForAll_append (input : List Value) (h : plan.Kept m) :
    (stageOf language arguments bound preferences bindingErrors).toldForAll chain m input
        ++ (stageOf language arguments bound preferences bindingErrors).toldAtEnd chain
          (input.foldl
            ((stageOf language arguments bound preferences bindingErrors).transducer chain).step m)
      = parked m ++ timeline (evaluation chain.scripts chain.adapter) chain.adapter m.scope
          (input.map plan.body.turn ++ plan.closing) := by
  induction input generalizing m with
  | nil =>
    obtain ⟨after, hfinish⟩ := transducer_finish h
    exact hfinish.tells
  | cons v input ih =>
    have hcall : (stageOf language arguments bound preferences bindingErrors).toldFor chain m v
        = parked m ++ ((plan.body.turn v).take (evaluation chain.scripts chain.adapter) chain.adapter
          m.scope).1 :=
      (transducer_process h v).tells
    refine (Stage.toldForAll_cons_append
      (stageOf language arguments bound preferences bindingErrors) chain m v input _).trans ?_
    rw [hcall, List.append_assoc]
    refine congrArg (parked m ++ ·) (congrArg (_ ++ ·) ((ih (kept_step h v)).trans ?_))
    rw [transducer_step h v]
    rfl

/-- The call to begin, where no write could be refused. -/
theorem opening_eq (h : plan.Compiled
      ((stageOf language arguments bound preferences bindingErrors).call chain .begin bound none)) :
    (stageOf language arguments bound preferences bindingErrors).opening chain
      = begin ((stageOf language arguments bound preferences bindingErrors).call chain .begin bound none)
        {} :=
  (begin_told h chain.flags).1.refuseWrites_eq

/-- What the command remembers once it has begun is what its begin yields. -/
theorem memory_begun (h : plan.Compiled
      ((stageOf language arguments bound preferences bindingErrors).call chain .begin bound none)) :
    ((stageOf language arguments bound preferences bindingErrors).begun chain).memory
      = ((begin ((stageOf language arguments bound preferences bindingErrors).call chain .begin
        bound none) {}).yield chain.flags {}).memory :=
  congrArg (fun hook => (Hook.yield chain.flags hook ({} : Memory language)).memory) (opening_eq h)

/-- Where its parameters give a plan, the command tells the host all that it has to tell. -/
theorem tells (hfree : bound.contains "InputObject" = false)
    (herrors : preferences.errorAction ≠ .stop) (h : plan.Compiled
      ((stageOf language arguments bound preferences bindingErrors).call chain .begin bound none)) :
    (stageOf language arguments bound preferences bindingErrors).Tells chain := by
  obtain ⟨hinward, hcompletes, hkept, -⟩ := begin_told h chain.flags
  refine ⟨⟨{ name := "InputObject", pipeline := .byValue }, rfl, rfl, rfl, hfree⟩, herrors, hinward,
    ?_, ?_, rfl, rfl⟩
  · rw [opening_eq h]
    exact hcompletes
  · exact memory_begun h ▸ streams hkept

/-- All calls together tell the host what the turns tell, one after another. -/
theorem told_eq (h : plan.Compiled
      ((stageOf language arguments bound preferences bindingErrors).call chain .begin bound none))
    (input : List Value) : (stageOf language arguments bound preferences bindingErrors).told chain input
      = timeline (evaluation chain.scripts chain.adapter) chain.adapter language.empty
        (plan.turns input) := by
  obtain ⟨-, -, hkept, hall⟩ := begin_told h chain.flags
  have hcalls := @toldForAll_append _ plan _ arguments bound preferences bindingErrors chain input hkept
  rw [Plan.turns, List.append_assoc, Stage.told, List.append_assoc, memory_begun h, opening_eq h]
  exact (congrArg _ hcalls).trans (hall _)

end

end Builtin.Mapping

/-! ## Runs -/

namespace Pipeline

open Builtin (Mapping.command)
open Builtin.Mapping

/-- **Objects are mapped in turns**, whatever language the scripts are in. Alone in a chain the command
takes its turns in order: the block of the begin is evaluated before the first object, then each object
gets its turn, then the block of the end is evaluated, and the scope goes through all evaluations. What
reaches the host is what the turns tell. -/
theorem maps_in_turns (language : Script.Language) (settings : ChainSettings) (host : StopToken)
    (flags : StopFlags) (spec : CommandSpec) (stage : Stage)
    (hcommand : spec.command = Mapping.command language)
    (halone : Alone settings host flags spec stage)
    (herrors : stage.preferences.errorAction ≠ .stop) (plan : Plan language)
    (hplan : plan.Compiled
      (stage.call (build settings host flags [spec]).chain .begin stage.bound none))
    (input : List Value) :
    ∃ o, ((build settings host flags [spec]).invoke (some input)).1 = .ok o ∧ o.status = .succeeded
      ∧ o.records.map (fun r => (r.source, r.payload))
        = (timeline (evaluation settings.scripts settings.adapter) settings.adapter language.empty
          (plan.turns input)).map (stage.source, ·) := by
  obtain ⟨command, arguments, bindingErrors⟩ := spec
  simp only at hcommand
  subst hcommand
  obtain ⟨preferences, hstage⟩ := halone.stage_eq
  have hfree := halone.free
  generalize stage.bound = bound at hstage hfree hplan
  change stage = stageOf language arguments bound preferences _ at hstage
  subst hstage
  have htold := halone.invoke_told (tells hfree herrors hplan) input
  rw [told_eq hplan input] at htold
  exact htold

/-- Objects are added up, and each is written with the total so far. -/
def addingUp : CommandSpec where
  command := Mapping.command Script.standard
  arguments := [.named "Begin" (some (.string "let n = 10; n")),
    .named "Process" (some (.string "n += item; [item, n]")), .named "End" (some (.string "n"))]

/-- That command with its parameters bound. -/
def addingUpStage : Stage :=
  ⟨0, Mapping.command Script.standard, ({} : Memory Script.standard), addingUp.arguments, .created,
    ⟨[⟨"Begin", .string "let n = 10; n", .named⟩,
      ⟨"Process", .string "n += item; [item, n]", .named⟩, ⟨"End", .string "n", .named⟩]⟩, {},
    .terminating, {}⟩

/-- The scripts of that command. -/
def addingUpPlan : Plan Script.standard where
  opening? := some ⟨"let n = 10; n",
    ⟨[], [.declare "n" (some (.constant (.int 10)))], some (.variable "n")⟩⟩
  body := .script ⟨"n += item; [item, n]",
    ⟨[], [.assign (.variable "n") (some .add) (.variable "item")],
      some (.array [.variable "item", .variable "n"])⟩⟩
  closing? := some ⟨"n", ⟨[], [], some (.variable "n")⟩⟩

/-- What the begin gives comes first, and the total goes from one object to the next. -/
theorem maps_in_turns_addingUp :
    ∃ o, ((build {} ⟨0, []⟩ ⟨1, []⟩ [addingUp]).invoke (some [.int 1, .int 2])).1 = .ok o
      ∧ o.status = .succeeded
      ∧ o.records.map Record.payload = [.object (.int 10), .object (.int 1), .object (.int 11),
        .object (.int 2), .object (.int 13), .object (.int 13)] := by
  have hplan : addingUpPlan.Compiled (addingUpStage.call
      (build {} ⟨0, []⟩ ⟨1, []⟩ [addingUp]).chain .begin addingUpStage.bound none) :=
    ⟨by with_unfolding_all rfl, by with_unfolding_all rfl, rfl, by with_unfolding_all rfl⟩
  obtain ⟨o, ho, hstatus, hrecords⟩ := maps_in_turns Script.standard {} ⟨0, []⟩ ⟨1, []⟩ addingUp
    addingUpStage rfl ⟨rfl, rfl, rfl⟩ (by decide) addingUpPlan hplan [.int 1, .int 2]
  refine ⟨o, ho, hstatus, ?_⟩
  have hpayloads := congrArg (List.map Prod.snd) hrecords
  rw [List.map_map, List.map_map] at hpayloads
  refine hpayloads.trans ?_
  with_unfolding_all rfl

end Pipeline

end CommandChain
