import CommandChain.Proofs.Disposal.Release
import CommandChain.Proofs.Watching.Delivery
/-!
# Whole runs that are watched

The steps of a run, its end and the release of the commands keep two runs related as deliveries do. A run
that comes to its end closes with one message more, and what is released after that sends none.
-/

namespace CommandChain

variable {start : LiveChannel} {closing : List HostMessage} {n : Nat} {chain chain' : Chain}

/-- Two steps of a run left the same but for their chains, which are related. -/
def Ran.Watched (start : LiveChannel) {n : Nat} (ran ran' : Ran n) : Prop :=
  ∃ chain', ran.chain.Watched start [] chain' ∧ ran' = { ran with chain := chain' }

/-! ## The steps of a run -/

theorem bindAll_watched (hostInput : Bool) (stages : Stages n) (h : chain.Watched start [] chain') :
    (bindAll hostInput stages chain').1 = (bindAll hostInput stages chain).1
      ∧ (bindAll hostInput stages chain).2.Watched start [] (bindAll hostInput stages chain').2 := by
  induction stages with
  | nil => exact ⟨rfl, h⟩
  | cons stage rest ih =>
    obtain ⟨hrest, hleft⟩ := ih
    unfold bindAll
    rw [h.adapter_eq]
    cases stage.bindStatically chain.adapter (stage.position != 0 || hostInput) with
    | ok bound =>
      simp only [hrest]
      exact ⟨trivial, hleft⟩
    | error e => exact ⟨rfl, h.fail stage _⟩

theorem beginAll_watched (n : Nat) (stages : Stages n) (h : chain.Watched start [] chain') :
    (beginAll n stages chain).Watched start (beginAll n stages chain') := by
  induction n generalizing chain chain' with
  | zero =>
    cases stages
    exact ⟨chain', h, rfl⟩
  | succ n ih =>
    cases stages with
    | cons stage rest =>
    obtain ⟨left', hleft, hbegun⟩ := invoke_watched (deliver_shows n) stage rest h .begin none none
    simp only [beginAll, h.isHalted_eq, hbegun]
    generalize invoke (deliver n) stage rest chain .begin none none = begun at hleft ⊢
    split
    · exact ⟨chain', h, rfl⟩
    · split
      · exact ⟨left', hleft, rfl⟩
      · obtain ⟨later', hlater, hran⟩ := ih begun.rest hleft
        rw [hran]
        exact ⟨later', hlater, rfl⟩
      · exact ⟨left', hleft, rfl⟩

theorem feedObjects_watched (values : List Value) (stages : Stages n)
    (h : chain.Watched start [] chain') :
    (feedObjects values stages chain).Watched start (feedObjects values stages chain') := by
  induction values generalizing stages chain chain' with
  | nil => exact ⟨chain', h, rfl⟩
  | cons v values ih =>
    obtain ⟨hsame, hemit⟩ := (h.log (.feeding v)).emit (.object v) .host
    unfold feedObjects
    simp only [h.isHalted_eq, h.inputCut_eq, hsame]
    split
    · exact ⟨chain', h, rfl⟩
    · obtain ⟨left', hleft, hpushed⟩ := deliver_shows n stages _ _
        ((chain.log (.feeding v)).emit (.object v) .host).1 hemit
      rw [hpushed]
      generalize deliver n stages _ _ = pushed at hleft ⊢
      cases pushed.outcome with
      | error p => exact ⟨left', hleft, rfl⟩
      | ok result => exact ih pushed.stages hleft

theorem processHead_watched (stages : Stages n) (h : chain.Watched start [] chain') :
    (processHead stages chain).Watched start (processHead stages chain') := by
  cases stages with
  | nil => exact ⟨chain', h, rfl⟩
  | cons stage rest =>
    obtain ⟨left', hleft, hran⟩ := invoke_watched (deliver_shows _) stage rest h .process none none
    unfold processHead
    simp only [hran]
    exact ⟨left', hleft, rfl⟩

/-- Closing the first pipe keeps a watched run related to the other. -/
theorem Ran.Watched.closeFirst {fed fed' : Ran n} (h : fed.Watched start fed') :
    fed.closeFirst.Watched start fed'.closeFirst := by
  obtain ⟨left', hleft, rfl⟩ := h
  unfold Ran.closeFirst
  dsimp only
  split <;> exact ⟨left', hleft, rfl⟩

theorem feedHead_watched (input : Option (List Value)) (stages : Stages n)
    (h : chain.Watched start [] chain') :
    (feedHead input stages chain).Watched start (feedHead input stages chain') := by
  cases input with
  | some values =>
    rw [feedHead_some, feedHead_some, h.isHalted_eq]
    split
    · exact ⟨chain', h, rfl⟩
    · exact (feedObjects_watched values stages h).closeFirst
  | none =>
    rw [feedHead_none, feedHead_none, h.isHalted_eq]
    split
    · exact ⟨chain', h, rfl⟩
    · exact (processHead_watched stages h).closeFirst

section

variable {push : Push n}

theorem drain_watched (hpush : push.Shows start) (stage : Stage) (rest : Stages n)
    (h : chain.Watched start [] chain') :
    (drain push stage rest chain).Watched start (drain push stage rest chain') := by
  unfold drain
  rw [h.isHalted_eq]
  rcases stage.input.take chain.isHalted with ⟨read, pipe⟩
  cases read with
  | record r =>
    obtain ⟨left', hleft, hsettled⟩ :=
      processRecord_watched hpush { stage with input := pipe } rest h r
    simp only
    rw [hsettled]
    simp only [hleft.isHalted_eq]
    split
    · split <;> exact ⟨left', hleft, rfl⟩
    · exact ⟨left', hleft, rfl⟩
  | empty => exact ⟨chain', h, rfl⟩
  | endOfInput => exact ⟨chain', h, rfl⟩

theorem processOnce_watched (hpush : push.Shows start) (stage : Stage) (rest : Stages n)
    (h : chain.Watched start [] chain') :
    (processOnce push stage rest chain).Watched start (processOnce push stage rest chain') := by
  unfold processOnce
  split
  · exact invoke_watched hpush stage rest h .process none none
  · exact ⟨chain', h, rfl⟩

theorem finishStage_watched (hpush : push.Shows start) (stage : Stage) (rest : Stages n)
    (h : chain.Watched start [] chain') :
    (finishStage push stage rest chain).Watched start (finishStage push stage rest chain') := by
  unfold finishStage
  split
  · obtain ⟨left', hleft, hsettled⟩ := invoke_watched hpush stage rest h .finish none none
    rw [hsettled]
    simp only
    split <;> exact ⟨left', hleft, rfl⟩
  · exact ⟨chain', h, rfl⟩

theorem completeStage_watched (hpush : push.Shows start) (stage : Stage) (rest : Stages n)
    (h : chain.Watched start [] chain') :
    (completeStage push stage rest chain).Watched start (completeStage push stage rest chain') := by
  obtain ⟨left', hleft, hdrained⟩ := drain_watched hpush stage rest h
  unfold completeStage
  simp only [hdrained, hleft.isHalted_eq]
  generalize drain push stage rest chain = drained at hleft ⊢
  obtain ⟨once', hlater, honce⟩ := processOnce_watched hpush drained.stage drained.rest hleft
  simp only [honce, hlater.isHalted_eq]
  generalize processOnce push drained.stage drained.rest drained.chain = once at hlater ⊢
  have hfinished := finishStage_watched hpush once.stage once.rest hlater
  split
  · exact ⟨left', hleft, rfl⟩
  · split
    · exact ⟨left', hleft, rfl⟩
    · split
      · exact ⟨once', hlater, rfl⟩
      · exact hfinished
      · split
        · exact ⟨once', hlater, rfl⟩
        · exact hfinished

end

theorem endWave_watched (n : Nat) (stages : Stages n) (h : chain.Watched start [] chain') :
    (endWave n stages chain).Watched start (endWave n stages chain') := by
  induction n generalizing chain chain' with
  | zero =>
    cases stages
    exact ⟨chain', h, rfl⟩
  | succ n ih =>
    cases stages with
    | cons stage rest =>
    obtain ⟨left', hleft, hended⟩ := completeStage_watched (deliver_shows n) stage rest h
    simp only [endWave, h.isHalted_eq, h.isCut_eq, hended]
    generalize completeStage (deliver n) stage rest chain = ended at hleft ⊢
    split
    · exact ⟨chain', h, rfl⟩
    · split
      · obtain ⟨later', hlater, hran⟩ := ih rest h
        rw [hran]
        exact ⟨later', hlater, rfl⟩
      · split
        · exact ⟨left', hleft, rfl⟩
        · obtain ⟨later', hlater, hran⟩ := ih ended.rest.closeFirst hleft
          rw [hran]
          exact ⟨later', hlater, rfl⟩

/-- The steps of a run go in the same way, watched or not. -/
theorem Pipeline.steps_watched (input : Option (List Value)) (stages : Stages n)
    (h : chain.Watched start [] chain') :
    (steps input stages chain).Watched start (steps input stages chain') := by
  obtain ⟨hbound, hchain⟩ := bindAll_watched input.isSome stages h
  unfold steps
  simp only [hbound]
  obtain ⟨begun', hbegun, hran⟩ :=
    beginAll_watched n (bindAll input.isSome stages chain).1 hchain
  simp only [hran]
  generalize beginAll n (bindAll input.isSome stages chain).1
    (bindAll input.isSome stages chain).2 = begun at hbegun ⊢
  obtain ⟨fed', hfed, hran⟩ := feedHead_watched input begun.stages hbegun
  simp only [hran]
  generalize feedHead input begun.stages begun.chain = fed at hfed ⊢
  split
  · exact ⟨begun', hbegun, rfl⟩
  · split
    · exact ⟨fed', hfed, rfl⟩
    · exact endWave_watched n fed.stages hfed

/-! ## The end of a run -/

namespace Stage

theorem callStop_watched (stage : Stage) (h : chain.Watched start closing chain') :
    ∃ left', (stage.callStop chain).2.2.Watched start closing left'
      ∧ stage.callStop chain' = ((stage.callStop chain).1, (stage.callStop chain).2.1, left') := by
  unfold callStop
  rw [h.flags_eq]
  exact ⟨_, ((h.log _).noteAll _).signalAll _, rfl⟩

theorem callDispose_watched (stage : Stage) (h : chain.Watched start closing chain') :
    ∃ left', (stage.callDispose chain).2.2.Watched start closing left'
      ∧ stage.callDispose chain'
        = ((stage.callDispose chain).1, (stage.callDispose chain).2.1, left') := by
  unfold callDispose
  rw [h.flags_eq]
  exact ⟨_, ((h.log _).noteAll _).signalAll _, rfl⟩

/-- The disposal of a command comes to the same, watched or not. -/
theorem disposeOf_watched (stage : Stage) (h : chain.Watched start closing chain') :
    ∃ left', (release.disposeOf stage chain).2.2.Watched start closing left'
      ∧ release.disposeOf stage chain'
        = ((release.disposeOf stage chain).1, (release.disposeOf stage chain).2.1, left') := by
  obtain ⟨left', hleft, hdisposed⟩ := stage.callDispose_watched h
  unfold release.disposeOf
  rw [hdisposed]
  generalize stage.callDispose chain = disposed at hleft ⊢
  obtain ⟨outcome, stage, chain⟩ := disposed
  cases outcome with
  | error p => exact ⟨left', hleft, rfl⟩
  | ok fault =>
    simp only
    cases stage.state.become .disposed with
    | error e => exact ⟨left', hleft, rfl⟩
    | ok state => cases fault <;> exact ⟨left', hleft, rfl⟩

/-- Releasing a command sends nothing. -/
theorem release_watched (stage : Stage) (h : chain.Watched start closing chain') :
    ∃ left', (stage.release chain).2.2.Watched start closing left'
      ∧ stage.release chain' = ((stage.release chain).1, (stage.release chain).2.1, left') := by
  unfold release
  split
  · obtain ⟨left', hleft, hstopped⟩ := stage.callStop_watched h
    rw [hstopped]
    generalize stage.callStop chain = stopped at hleft ⊢
    obtain ⟨outcome, stage, chain⟩ := stopped
    cases outcome with
    | error p => exact ⟨left', hleft, rfl⟩
    | ok _ => exact disposeOf_watched _ hleft
  · exact stage.disposeOf_watched h

end Stage

theorem stopRunning_watched (stages : List Stage) (h : chain.Watched start closing chain') :
    ∃ left', (stopRunning stages chain).2.2.Watched start closing left'
      ∧ stopRunning stages chain'
        = ((stopRunning stages chain).1, (stopRunning stages chain).2.1, left') := by
  induction stages generalizing chain chain' with
  | nil => exact ⟨chain', h, rfl⟩
  | cons stage rest ih =>
    unfold stopRunning
    simp only
    split
    · obtain ⟨told', htold, hstopped⟩ :=
        Stage.callStop_watched { stage with input := stage.input.close } h
      rw [hstopped]
      generalize Stage.callStop { stage with input := stage.input.close } chain = told at htold ⊢
      obtain ⟨outcome, stage, chain⟩ := told
      cases outcome with
      | error p => exact ⟨told', htold, rfl⟩
      | ok _ =>
        obtain ⟨left', hleft, hlater⟩ := ih htold
        simp only [hlater]
        exact ⟨left', hleft, rfl⟩
    · obtain ⟨left', hleft, hlater⟩ := ih h
      simp only [hlater]
      exact ⟨left', hleft, rfl⟩

theorem releaseAll_watched (manager : DisposalManager) (stages : List Stage)
    (h : chain.Watched start closing chain') :
    ∃ left', (manager.releaseAll Stage.releasable chain stages).surroundings.Watched start closing left'
      ∧ manager.releaseAll Stage.releasable chain' stages
        = { manager.releaseAll Stage.releasable chain stages with surroundings := left' } := by
  induction stages with
  | nil => exact ⟨chain', h, rfl⟩
  | cons stage rest ih =>
    obtain ⟨left', hleft, hlater⟩ := ih
    unfold DisposalManager.releaseAll
    simp only [hlater]
    generalize manager.releaseAll Stage.releasable chain rest = later at hleft ⊢
    split
    · obtain ⟨end', hend, hreleased⟩ := stage.release_watched hleft
      have hreleased : Stage.releasable.release stage left' = _ := hreleased
      simp only [hreleased]
      exact ⟨end', hend, rfl⟩
    · exact ⟨left', hleft, rfl⟩

/-! ## Whole runs -/

/-- Two pipelines are the same but for their chains, which are related. -/
def Pipeline.Watched (start : LiveChannel) (closing : List HostMessage) (p p' : Pipeline) : Prop :=
  ∃ chain', p.chain.Watched start closing chain' ∧ p' = { p with chain := chain' }

/-- The message that closes a run which came to its end. -/
def Outcome.completion (o : Outcome) : HostMessage :=
  .completed o.status o.terminalFault

/-- What closes a run: nothing where a panic unwinds it. -/
def Pipeline.conclusion : Except Panic Outcome → List HostMessage
  | .ok o => [o.completion]
  | .error _ => []

namespace Pipeline.Watched

variable {p p' : Pipeline}

theorem releaseAll (h : p.Watched start closing p') :
    p'.releaseAll.1 = p.releaseAll.1 ∧ p.releaseAll.2.Watched start closing p'.releaseAll.2 := by
  obtain ⟨chain', hchain, rfl⟩ := h
  obtain ⟨left', hleft, hround⟩ := releaseAll_watched p.disposal p.stages hchain
  unfold Pipeline.releaseAll
  rw [hround]
  exact ⟨rfl, left', hleft, rfl⟩

theorem reportCleanup (h : p.Watched start [] p') (faults : List CleanupFault) :
    (p.reportCleanup faults).Watched start [] (p'.reportCleanup faults) := by
  induction faults generalizing p p' with
  | nil => exact h
  | cons fault faults ih =>
    obtain ⟨chain', hchain, rfl⟩ := h
    exact ih ⟨_, hchain.emitError _ _, rfl⟩

theorem drop (h : p.Watched start closing p') : p.drop.Watched start closing p'.drop := by
  have hdropped := h.releaseAll.2
  obtain ⟨chain', hchain, rfl⟩ := h
  unfold Pipeline.drop
  split
  · exact ⟨chain', hchain, rfl⟩
  · exact hdropped

/-- Completing a chain sends how it completed. -/
theorem complete (h : p.Watched start [] p') :
    p'.complete.1 = p.complete.1
      ∧ p.complete.2.Watched start [p.complete.1.completion] p'.complete.2 := by
  obtain ⟨hfaults, hreleased⟩ := h.releaseAll
  obtain ⟨chain', hchain, hreported⟩ := hreleased.reportCleanup p.releaseAll.1
  have houtcome : (p'.releaseAll.2.reportCleanup p.releaseAll.1).outcome
      = (p.releaseAll.2.reportCleanup p.releaseAll.1).outcome := by
    rw [hreported]
    obtain ⟨shown, rfl, -⟩ := hchain
    rfl
  unfold Pipeline.complete
  simp only [hfaults, houtcome]
  rw [hreported]
  exact ⟨trivial, _, hchain.close _, rfl⟩

/-- A run comes to the same end, and then the host has been sent what closes it. -/
theorem run (h : p.Watched start [] p') (input : Option (List Value)) :
    (p'.run input).1 = (p.run input).1
      ∧ (p.run input).2.Watched start (conclusion (p.run input).1) (p'.run input).2 := by
  obtain ⟨chain', hchain, rfl⟩ := h
  obtain ⟨left', hleft, hran⟩ := steps_watched input (.ofList p.stages) hchain
  unfold Pipeline.run
  simp only [hran]
  generalize steps input (.ofList p.stages) p.chain = ran at hleft ⊢
  cases ran.outcome with
  | error e => exact ⟨rfl, left', hleft, rfl⟩
  | ok _ =>
    obtain ⟨told', htold, hstopped⟩ := stopRunning_watched ran.stages.toList hleft
    simp only [hstopped]
    generalize stopRunning ran.stages.toList ran.chain = stopped at htold ⊢
    obtain ⟨outcome, stages, chain⟩ := stopped
    cases outcome with
    | error e => exact ⟨rfl, told', htold, rfl⟩
    | ok _ =>
      obtain ⟨hcomplete, hcompleted⟩ := complete (p := { p with stages := stages, chain := chain })
        ⟨told', htold, rfl⟩
      exact ⟨congrArg Except.ok hcomplete, hcompleted⟩

/-- Giving the pipeline up sends nothing. -/
theorem invoke (h : p.Watched start [] p') (input : Option (List Value)) :
    (p'.invoke input).1 = (p.invoke input).1
      ∧ (p.invoke input).2.Watched start (conclusion (p.invoke input).1) (p'.invoke input).2 := by
  obtain ⟨houtcome, hran⟩ := h.run input
  exact ⟨houtcome, hran.drop⟩

end Pipeline.Watched

/-- What a host is sent that stays connected to a run with this outcome. -/
def Outcome.messages (o : Outcome) : List HostMessage :=
  o.records.map .record ++ [o.completion]

section

variable (settings : ChainSettings) (host : StopToken) (flags : StopFlags)
  (specs : List CommandSpec) (tokens : List StopToken) (input : Option (List Value))

namespace Pipeline

/-- The stages that are built do not depend on the channel. -/
theorem stagesFrom_live (live : LiveChannel) (position : Nat) :
    stagesFrom { settings with live := live } position specs
      = stagesFrom settings position specs := by
  induction specs generalizing position with
  | nil => rfl
  | cons spec rest ih => rw [stagesFrom, stagesFrom, ih]

/-- Pipelines that differ in their channels are related before they run. -/
theorem build_watched (live : LiveChannel) :
    ((build settings host flags specs).signaled tokens).Watched live []
      ((build { settings with live := live } host flags specs).signaled tokens) := by
  have hbuilt : (build settings host flags specs).chain.Watched live []
      (build { settings with live := live } host flags specs).chain := by
    refine ⟨[], ?_, ?_⟩
    · show _ = { (build settings host flags specs).chain with live := live.after 0, shown := [] }
      rw [live.after_zero]
      rfl
    · rcases live with _ | _ | n
      · rfl
      · rfl
      · exact List.take_nil.symm
  refine ⟨_, hbuilt.signalAll tokens, ?_⟩
  unfold signaled
  rw [show (build { settings with live := live } host flags specs).stages
    = (build settings host flags specs).stages from stagesFrom_live settings specs live 0]
  rfl

/-- Over any channel a run comes to the same end. -/
theorem invoke_live (live : LiveChannel) :
    (((build { settings with live := live } host flags specs).signaled tokens).invoke input).1
      = (((build settings host flags specs).signaled tokens).invoke input).1 :=
  ((build_watched settings host flags specs tokens live).invoke input).1

/-- The records that reached the host when a run is over are those of its outcome. -/
theorem records_of_invoke {o : Outcome}
    (ho : (((build settings host flags specs).signaled tokens).invoke input).1 = .ok o) :
    (((build settings host flags specs).signaled tokens).invoke input).2.chain.records
      = o.records := by
  have hrun := run_of_wind (wind_of_run ho).2
  obtain rfl : (((build settings host flags specs).signaled tokens).wind input).2.complete.1 = o :=
    Except.ok.inj ((congrArg Prod.fst hrun).symm.trans ho)
  show (((build settings host flags specs).signaled tokens).run input).2.drop.chain.records = _
  rw [(releases_of_run settings host flags specs tokens input ho).dropped, hrun]
  rfl

/-- Of the records of the outcome, followed by its status and its fault, the channel carries what it
does. -/
theorem messages_of_invoke {o : Outcome} (live : LiveChannel)
    (ho : (((build settings host flags specs).signaled tokens).invoke input).1 = .ok o) :
    (((build { settings with live := live } host flags specs).signaled tokens).invoke
        input).2.chain.messages = live.carries o.messages := by
  obtain ⟨-, chain', ⟨shown, -, hshown⟩, hwatched⟩ :=
    (build_watched settings host flags specs tokens live).invoke input
  rw [hwatched]
  refine hshown.trans ?_
  rw [Chain.due, records_of_invoke settings host flags specs tokens input ho, ho]
  rfl

end Pipeline

end

end CommandChain
