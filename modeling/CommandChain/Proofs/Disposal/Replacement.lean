import CommandChain.Chain.Pipeline
/-!
# Replacing dispose hooks

Nothing that a run does up to the release of its commands calls a dispose hook. So when the commands
of a chain are given other dispose hooks, every function of the engine does the same with them: it
commutes with the replacement.
-/

namespace CommandChain

/-- A choice of dispose hooks, by the position of a command and the command itself. -/
abbrev Disposers :=
  (position : Nat) → (c : Command) → StopFlags → c.Memory → Parting c.Memory (Option CommandFault)

/-- The command with another dispose hook. -/
def Command.redispose (c : Command)
    (dispose : StopFlags → c.Memory → Parting c.Memory (Option CommandFault)) : Command :=
  { c with dispose := dispose }

/-- The stage with the dispose hook chosen for it. -/
def Stage.redispose (choice : Disposers) (stage : Stage) : Stage :=
  { stage with command := stage.command.redispose (choice stage.position stage.command) }

/-- The commands with the dispose hooks chosen for them, the first of which stands at a position. -/
def redisposeFrom (choice : Disposers) : Nat → List CommandSpec → List CommandSpec
  | _, [] => []
  | position, spec :: rest =>
    { spec with command := spec.command.redispose (choice position spec.command) }
      :: redisposeFrom choice (position + 1) rest

/-! ## Rows of stages -/

/-- Changes every stage of a row. -/
def Stages.map (f : Stage → Stage) : {n : Nat} → Stages n → Stages n
  | _, nil => nil
  | _, cons stage rest => cons (f stage) (rest.map f)

/-- Changes the stages that a push left. -/
def Pushed.map (f : Stage → Stage) {n : Nat} (pushed : Pushed n) : Pushed n :=
  ⟨pushed.outcome, pushed.stages.map f, pushed.chain⟩

/-- Changes the stages that serving a hook left. -/
def Served.map (f : Stage → Stage) {σ : Type} {n : Nat} (served : Served σ n) : Served σ n :=
  ⟨served.outcome, served.memory, served.rest.map f, served.chain⟩

/-- Changes the stages that a call left. -/
def Settled.map (f : Stage → Stage) {n : Nat} (settled : Settled n) : Settled n :=
  ⟨settled.outcome, f settled.stage, settled.rest.map f, settled.chain⟩

/-- Changes the stages that a step of a run left. -/
def Ran.map (f : Stage → Stage) {n : Nat} (ran : Ran n) : Ran n :=
  ⟨ran.outcome, ran.stages.map f, ran.chain⟩

/-- A push does the same with stages that are changed before it as with stages that are changed
after it. -/
def Push.Commutes (f : Stage → Stage) {n : Nat} (push : Push n) : Prop :=
  ∀ stages chain r, push (stages.map f) chain r = (push stages chain r).map f

variable {n : Nat}

/-- A change of every stage of a row changes every stage of its list. -/
theorem Stages.toList_map (f : Stage → Stage) (stages : Stages n) :
    (stages.map f).toList = stages.toList.map f := by
  induction stages with
  | nil => rfl
  | cons stage rest ih => rw [map, toList, ih, toList, List.map_cons]

/-- Two rows of one length with the same stages are the same. -/
theorem Stages.toList_injective {stages stages' : Stages n}
    (h : stages.toList = stages'.toList) : stages = stages' := by
  induction stages with
  | nil =>
    cases stages'
    rfl
  | cons stage rest ih =>
    cases stages' with
    | cons stage' rest' =>
    obtain ⟨rfl, hrest⟩ := List.cons.inj h
    rw [ih hrest]

/-! ## Calls -/

/-- A hook reaches the stages behind its command only by pushing. -/
theorem serve_map {f : Stage → Stage} {σ : Type} (call : Call) {push : Push n}
    (hpush : push.Commutes f) (hook : Hook σ) (memory : σ) (rest : Stages n) (chain : Chain) :
    serve call push hook memory (rest.map f) chain
      = (serve call push hook memory rest chain).map f := by
  induction hook generalizing memory rest chain with
  | done result => rfl
  | panic p => rfl
  | store memory' next ih => exact ih memory' rest chain
  | write v next ih =>
    have hwrite : call.writeObject push v (rest.map f) (chain.log (.writing call.id v))
        = (call.writeObject push v rest (chain.log (.writing call.id v))).map f := by
      unfold Call.writeObject
      split
      · rfl
      · split
        · rfl
        · exact hpush rest _ _
    unfold serve
    simp only [hwrite]
    generalize call.writeObject push v rest (chain.log (.writing call.id v)) = pushed
    obtain ⟨outcome, rest', chain'⟩ := pushed
    cases outcome with
    | error p => rfl
    | ok result => exact ih result memory rest' _
  | report m next ih => exact ih _ memory rest _
  | cutInput next ih => exact ih memory rest _
  | askStopping next ih => exact ih _ memory rest chain
  | note text next ih => exact ih memory rest _
  | signal token next ih => exact ih memory rest _
  | askSignaled token next ih => exact ih _ memory rest chain
  | runChain run next ih =>
    unfold serve
    simp only
    cases (run chain.flags).outcome with
    | error p => rfl
    | ok outcome => exact ih outcome memory rest _

section

variable (choice : Disposers)

/-- Settling the result of a call takes no notice of dispose hooks. -/
theorem settle_redispose (stage : Stage) (chain : Chain) (phase : Phase) (input : Option Value)
    (result : CallResult) :
    settle (stage.redispose choice) chain phase input result
      = ((settle stage chain phase input result).1,
          (settle stage chain phase input result).2.1.redispose choice,
          (settle stage chain phase input result).2.2) := by
  have hid : (stage.redispose choice).id = stage.id := rfl
  have hpreferences : (stage.redispose choice).preferences = stage.preferences := rfl
  unfold settle
  simp only [hid, hpreferences]
  rcases chain.takePendingStop stage.id with ⟨pending, chain⟩
  cases pending with
  | some e => rfl
  | none =>
    cases result with
    | ok => rfl
    | stopped => rfl
    | fault f =>
      simp only
      split <;> rfl

/-- What a lifecycle call makes of its hook, once that has been served. -/
def concludeCall (stage : Stage) (phase : Phase) (input : Option Value)
    (served : Served stage.command.Memory n) : Settled n :=
  let stage := { stage with memory := served.memory }
  match served.outcome with
  | .error p => ⟨.error p, stage, served.rest, served.chain⟩
  | .ok result =>
    let (result, stage, chain) :=
      settle stage (served.chain.log (.returned stage.id phase result)) phase input result
    ⟨.ok result, stage, served.rest, chain.log (.settled stage.id phase result.isOk)⟩

/-- Concluding a call that returned settles its result. -/
theorem concludeCall_ok (stage : Stage) (phase : Phase) (input : Option Value) (result : CallResult)
    (memory : stage.command.Memory) (rest : Stages n) (chain : Chain) {out : CallResult × Stage × Chain}
    (hout : settle { stage with memory := memory } (chain.log (.returned stage.id phase result)) phase
      input result = out) :
    concludeCall stage phase input ⟨.ok result, memory, rest, chain⟩
      = ⟨.ok out.1, out.2.1, rest, out.2.2.log (.settled out.2.1.id phase out.1.isOk)⟩ := by
  rw [← hout]
  rfl

theorem concludeCall_redispose (stage : Stage) (phase : Phase) (input : Option Value)
    (served : Served stage.command.Memory n) :
    concludeCall (stage.redispose choice) phase input (served.map (Stage.redispose choice))
      = (concludeCall stage phase input served).map (Stage.redispose choice) := by
  obtain ⟨outcome, memory, rest, chain⟩ := served
  cases outcome with
  | error p => rfl
  | ok result =>
    have hsettle := settle_redispose choice { stage with memory := memory }
      (chain.log (.returned stage.id phase result)) phase input result
    generalize hout : settle { stage with memory := memory }
      (chain.log (.returned stage.id phase result)) phase input result = out at hsettle
    rw [concludeCall_ok stage phase input result memory rest chain hout]
    exact congrArg (fun out : CallResult × Stage × Chain => (⟨.ok out.1, out.2.1,
      rest.map (Stage.redispose choice),
      out.2.2.log (.settled out.2.1.id phase out.1.isOk)⟩ : Settled n)) hsettle

theorem invoke_redispose {push : Push n} (hpush : push.Commutes (Stage.redispose choice))
    (stage : Stage) (rest : Stages n) (chain : Chain) (phase : Phase)
    (bound : Option BoundParameters) (input : Option Value) :
    invoke push (stage.redispose choice) (rest.map (Stage.redispose choice)) chain phase bound input
      = (invoke push stage rest chain phase bound input).map (Stage.redispose choice) := by
  have hstate : (stage.redispose choice).state = stage.state := rfl
  unfold invoke
  simp only [hstate]
  cases stage.state.entering phase with
  | error e => rfl
  | ok state =>
    have hserve := serve_map (Stage.call { stage with state := state } chain phase
      (bound.getD stage.bound) input) hpush (stage.command.hook (Stage.call
        { stage with state := state } chain phase (bound.getD stage.bound) input) stage.memory)
      stage.memory rest (chain.log (.called stage.id phase (bound.getD stage.bound) input))
    exact (congrArg (concludeCall (Stage.redispose choice { stage with state := state }) phase
      input) hserve).trans (concludeCall_redispose choice { stage with state := state } phase input _)

theorem processRecord_redispose {push : Push n} (hpush : push.Commutes (Stage.redispose choice))
    (stage : Stage) (rest : Stages n) (chain : Chain) (r : Record) :
    processRecord push (stage.redispose choice) (rest.map (Stage.redispose choice)) chain r
      = (processRecord push stage rest chain r).map (Stage.redispose choice) := by
  have hstate : (stage.redispose choice).state = stage.state := rfl
  have hbinder : (stage.redispose choice).binder chain.adapter = stage.binder chain.adapter := rfl
  have hbound : (stage.redispose choice).bound = stage.bound := rfl
  have herrors : (stage.redispose choice).bindingErrors = stage.bindingErrors := rfl
  unfold processRecord
  cases r.object? with
  | none => rfl
  | some v =>
    simp only [hstate, hbinder, hbound, herrors]
    split
    · rfl
    · cases (stage.binder chain.adapter).bindObject stage.bound v with
      | ok bound => exact invoke_redispose choice hpush stage rest chain _ _ _
      | error e => cases stage.bindingErrors <;> rfl

/-- A delivery to any row takes no notice of dispose hooks: by induction on the row. -/
theorem deliver_commutes (n : Nat) : (deliver n).Commutes (Stage.redispose choice) := by
  induction n with
  | zero =>
    intro stages chain r
    cases stages
    rfl
  | succ n ih =>
    intro stages chain r
    cases stages with
    | cons stage rest =>
    have hinput : (stage.redispose choice).input = stage.input := rfl
    simp only [Stages.map, deliver, hinput]
    split
    · rfl
    · cases stage.input.write chain.isHalted r with
      | error refusal => cases refusal <;> rfl
      | ok pipe =>
        simp only
        rcases pipe.take chain.isHalted with ⟨read, pipe⟩
        cases read with
        | record r =>
          have hprocess := processRecord_redispose choice ih { stage with input := pipe } rest chain r
          exact congrArg (fun settled : Settled n =>
            (⟨settled.outcome, .cons settled.stage settled.rest, settled.chain⟩ : Pushed (n + 1)))
            hprocess
        | empty => rfl
        | endOfInput => rfl

/-! ## The steps of a run -/

theorem bindAll_redispose (hostInput : Bool) (stages : Stages n) (chain : Chain) :
    bindAll hostInput (stages.map (Stage.redispose choice)) chain
      = ((bindAll hostInput stages chain).1.map (Stage.redispose choice),
          (bindAll hostInput stages chain).2) := by
  induction stages generalizing chain with
  | nil => rfl
  | cons stage rest ih =>
    have hbind : (stage.redispose choice).bindStatically chain.adapter
          ((stage.redispose choice).position != 0 || hostInput)
        = (stage.bindStatically chain.adapter (stage.position != 0 || hostInput)).map
            (Stage.redispose choice) := by
      have hbinder : (stage.redispose choice).binder chain.adapter = stage.binder chain.adapter :=
        rfl
      have hsame : (stage.redispose choice).position = stage.position
          ∧ (stage.redispose choice).arguments = stage.arguments
          ∧ (stage.redispose choice).preferences = stage.preferences := ⟨rfl, rfl, rfl⟩
      unfold Stage.bindStatically
      simp only [hbinder, hsame]
      cases (stage.binder chain.adapter).bindArguments stage.arguments _ with
      | error e => rfl
      | ok bound =>
        simp only
        cases stage.preferences.overlay bound <;> rfl
    simp only [Stages.map, bindAll, hbind]
    cases stage.bindStatically chain.adapter (stage.position != 0 || hostInput) with
    | error e => rfl
    | ok bound =>
      simp only [Except.map, ih]
      rfl

theorem beginAll_redispose (n : Nat) (stages : Stages n) (chain : Chain) :
    beginAll n (stages.map (Stage.redispose choice)) chain
      = (beginAll n stages chain).map (Stage.redispose choice) := by
  induction n generalizing chain with
  | zero =>
    cases stages
    rfl
  | succ n ih =>
    cases stages with
    | cons stage rest =>
    simp only [Stages.map, beginAll, invoke_redispose choice (deliver_commutes choice n)]
    split
    · rfl
    · generalize invoke (deliver n) stage rest chain .begin none none = begun
      obtain ⟨outcome, stage', rest', chain'⟩ := begun
      cases outcome with
      | error p => rfl
      | ok result =>
        cases result with
        | ok =>
          simp only [Settled.map, ih]
          rfl
        | stopped => rfl
        | fault f => rfl

theorem feedObjects_redispose (values : List Value) (stages : Stages n) (chain : Chain) :
    feedObjects values (stages.map (Stage.redispose choice)) chain
      = (feedObjects values stages chain).map (Stage.redispose choice) := by
  induction values generalizing stages chain with
  | nil => rfl
  | cons v values ih =>
    unfold feedObjects
    split
    · rfl
    · simp only [deliver_commutes choice n stages]
      generalize deliver n stages _ _ = pushed
      obtain ⟨outcome, stages', chain'⟩ := pushed
      cases outcome with
      | error p => rfl
      | ok result => exact ih stages' chain'

theorem closeFirst_redispose (stages : Stages n) :
    (stages.map (Stage.redispose choice)).closeFirst
      = stages.closeFirst.map (Stage.redispose choice) := by
  cases stages <;> rfl

theorem processHead_redispose (stages : Stages n) (chain : Chain) :
    processHead (stages.map (Stage.redispose choice)) chain
      = (processHead stages chain).map (Stage.redispose choice) := by
  cases stages with
  | nil => rfl
  | cons stage rest =>
    simp only [Stages.map, processHead, invoke_redispose choice (deliver_commutes choice _)]
    rfl

theorem Ran.closeFirst_redispose (fed : Ran n) :
    (fed.map (Stage.redispose choice)).closeFirst
      = fed.closeFirst.map (Stage.redispose choice) := by
  obtain ⟨outcome, stages, chain⟩ := fed
  cases outcome with
  | error p => rfl
  | ok _ => simp only [Ran.closeFirst, Ran.map, CommandChain.closeFirst_redispose]

theorem feedHead_redispose (input : Option (List Value)) (stages : Stages n) (chain : Chain) :
    feedHead input (stages.map (Stage.redispose choice)) chain
      = (feedHead input stages chain).map (Stage.redispose choice) := by
  cases input with
  | some values =>
    rw [feedHead_some, feedHead_some, feedObjects_redispose, Ran.closeFirst_redispose]
    split <;> rfl
  | none =>
    rw [feedHead_none, feedHead_none, processHead_redispose, Ran.closeFirst_redispose]
    split <;> rfl

/-- What draining a pipe makes of a record that was processed. -/
def Settled.drained (settled : Settled n) : Settled n :=
  match settled.outcome with
  | .ok .ok =>
    if settled.chain.isHalted then settled
    else { settled with stage := { settled.stage with input := settled.stage.input.close } }
  | _ => settled

theorem Settled.drained_map (settled : Settled n) :
    (settled.map (Stage.redispose choice)).drained
      = settled.drained.map (Stage.redispose choice) := by
  obtain ⟨outcome, stage, rest, chain⟩ := settled
  cases outcome with
  | error p => rfl
  | ok result =>
    cases result with
    | ok =>
      simp only [drained, map]
      by_cases hhalt : chain.isHalted = true
      · simp only [hhalt, if_true]
      · simp only [hhalt, Bool.false_eq_true, if_false]
        rfl
    | stopped => rfl
    | fault f => rfl

theorem drain_redispose {push : Push n} (hpush : push.Commutes (Stage.redispose choice))
    (stage : Stage) (rest : Stages n) (chain : Chain) :
    drain push (stage.redispose choice) (rest.map (Stage.redispose choice)) chain
      = (drain push stage rest chain).map (Stage.redispose choice) := by
  have hinput : (stage.redispose choice).input = stage.input := rfl
  unfold drain
  simp only [hinput]
  rcases stage.input.take chain.isHalted with ⟨read, pipe⟩
  cases read with
  | record r =>
    exact (congrArg Settled.drained
      (processRecord_redispose choice hpush { stage with input := pipe } rest chain r)).trans
      (Settled.drained_map choice _)
  | empty => rfl
  | endOfInput => rfl

theorem processOnce_redispose {push : Push n} (hpush : push.Commutes (Stage.redispose choice))
    (stage : Stage) (rest : Stages n) (chain : Chain) :
    processOnce push (stage.redispose choice) (rest.map (Stage.redispose choice)) chain
      = (processOnce push stage rest chain).map (Stage.redispose choice) := by
  have hsame : (stage.redispose choice).acceptsInput = stage.acceptsInput
      ∧ (stage.redispose choice).state = stage.state := ⟨rfl, rfl⟩
  unfold processOnce
  simp only [hsame]
  split
  · exact invoke_redispose choice hpush stage rest chain _ _ _
  · rfl

/-- What a call to end makes of the stage: the command has ended if it completed the call. -/
def Settled.finished (settled : Settled n) : Settled n :=
  match settled.outcome with
  | .ok .ok =>
    { settled with
      stage := { settled.stage with state := settled.stage.state.becomeIfAllowed .ended } }
  | _ => settled

theorem Settled.finished_map (settled : Settled n) :
    (settled.map (Stage.redispose choice)).finished
      = settled.finished.map (Stage.redispose choice) := by
  obtain ⟨outcome, stage, rest, chain⟩ := settled
  cases outcome with
  | error p => rfl
  | ok result => cases result <;> rfl

theorem finishStage_redispose {push : Push n} (hpush : push.Commutes (Stage.redispose choice))
    (stage : Stage) (rest : Stages n) (chain : Chain) :
    finishStage push (stage.redispose choice) (rest.map (Stage.redispose choice)) chain
      = (finishStage push stage rest chain).map (Stage.redispose choice) := by
  have hstate : (stage.redispose choice).state = stage.state := rfl
  unfold finishStage
  simp only [hstate]
  split
  · exact (congrArg Settled.finished
      (invoke_redispose choice hpush stage rest chain .finish none none)).trans
      (Settled.finished_map choice _)
  · rfl

theorem completeStage_redispose {push : Push n} (hpush : push.Commutes (Stage.redispose choice))
    (stage : Stage) (rest : Stages n) (chain : Chain) :
    completeStage push (stage.redispose choice) (rest.map (Stage.redispose choice)) chain
      = (completeStage push stage rest chain).map (Stage.redispose choice) := by
  unfold completeStage
  simp only [drain_redispose choice hpush]
  generalize drain push stage rest chain = drained
  obtain ⟨outcome, stage, rest, chain⟩ := drained
  cases outcome with
  | error p => rfl
  | ok result =>
    simp only [Settled.map, processOnce_redispose choice hpush]
    split
    · rfl
    · generalize processOnce push stage rest chain = once
      obtain ⟨outcome, stage, rest, chain⟩ := once
      cases outcome with
      | error p => rfl
      | ok result =>
        cases result with
        | ok => exact finishStage_redispose choice hpush stage rest chain
        | stopped =>
          simp only
          split
          · rfl
          · exact finishStage_redispose choice hpush stage rest chain
        | fault f =>
          simp only
          split
          · rfl
          · exact finishStage_redispose choice hpush stage rest chain

theorem endWave_redispose (n : Nat) (stages : Stages n) (chain : Chain) :
    endWave n (stages.map (Stage.redispose choice)) chain
      = (endWave n stages chain).map (Stage.redispose choice) := by
  induction n generalizing chain with
  | zero =>
    cases stages
    rfl
  | succ n ih =>
    cases stages with
    | cons stage rest =>
    have hposition : (stage.redispose choice).position = stage.position := rfl
    simp only [Stages.map, endWave, hposition, ih,
      completeStage_redispose choice (deliver_commutes choice n)]
    split
    · rfl
    · split
      · rfl
      · generalize completeStage (deliver n) stage rest chain = ended
        obtain ⟨outcome, stage', rest', chain'⟩ := ended
        cases outcome with
        | error p => rfl
        | ok result =>
          simp only [Settled.map, closeFirst_redispose, ih]
          rfl

/-- The steps of a run take no notice of dispose hooks. -/
theorem steps_redispose (input : Option (List Value)) (stages : Stages n) (chain : Chain) :
    Pipeline.steps input (stages.map (Stage.redispose choice)) chain
      = (Pipeline.steps input stages chain).map (Stage.redispose choice) := by
  unfold Pipeline.steps
  simp only [bindAll_redispose, beginAll_redispose]
  generalize beginAll n _ _ = begun
  obtain ⟨outcome, stages, chain⟩ := begun
  cases outcome with
  | error p => rfl
  | ok _ =>
    simp only [Ran.map, feedHead_redispose]
    generalize feedHead input stages chain = fed
    obtain ⟨outcome, stages, chain⟩ := fed
    cases outcome with
    | error p => rfl
    | ok _ => exact endWave_redispose choice n stages chain

/-- The steps of a run depend on the stages, not on how their number is known. -/
theorem Pipeline.steps_congr {m : Nat} {stages : Stages n} {stages' : Stages m}
    (h : stages.toList = stages'.toList) (input : Option (List Value)) (chain : Chain) :
    (steps input stages chain).outcome = (steps input stages' chain).outcome
      ∧ (steps input stages chain).stages.toList = (steps input stages' chain).stages.toList
      ∧ (steps input stages chain).chain = (steps input stages' chain).chain := by
  obtain rfl : n = m := by rw [← stages.length_toList, h, stages'.length_toList]
  obtain rfl := Stages.toList_injective h
  exact ⟨rfl, rfl, rfl⟩

theorem stopRunning_redispose (stages : List Stage) (chain : Chain) :
    stopRunning (stages.map (Stage.redispose choice)) chain
      = ((stopRunning stages chain).1, (stopRunning stages chain).2.1.map (Stage.redispose choice),
          (stopRunning stages chain).2.2) := by
  induction stages generalizing chain with
  | nil => rfl
  | cons stage rest ih =>
    have hstate : (stage.redispose choice).state = stage.state := rfl
    simp only [List.map_cons, stopRunning, hstate, ih]
    split
    · dsimp only [Stage.callStop, Stage.redispose, Command.redispose]
      cases (stage.command.stop chain.flags stage.memory).result <;> rfl
    · rfl

end

end CommandChain
