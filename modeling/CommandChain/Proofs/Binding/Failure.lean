import CommandChain.Proofs.Disposal.Complete
/-!
# Runs that fail before they begin

When a command of a chain cannot be bound, the chain halts before any command begins. What is left of the
run is the release of the commands as they were created, and that looks at no argument, no binding and no
pipe. So the run is told by the commands of the chain, by the first that could not be bound and by the
error there; what the host would have fed, and what was supplied for the commands behind, has no part in
it.
-/

namespace CommandChain

/-! ## What a release looks at -/

/-- A stage as far as its release looks at it: its place, its command with the memory, and its state. -/
def Stage.bare (stage : Stage) : Stage :=
  { stage with
    arguments := []
    bound := .empty
    preferences := {}
    bindingErrors := .terminating
    input := {} }

/-- Disposing of a stage depends on nothing that a release does not look at. -/
theorem Stage.disposeOf_bare (stage : Stage) (chain : Chain) :
    Stage.release.disposeOf stage.bare chain
      = ((Stage.release.disposeOf stage chain).1, (Stage.release.disposeOf stage chain).2.1.bare,
        (Stage.release.disposeOf stage chain).2.2) := by
  have hdispose : stage.bare.callDispose chain
      = ((stage.callDispose chain).1, (stage.callDispose chain).2.1.bare,
        (stage.callDispose chain).2.2) := rfl
  unfold Stage.release.disposeOf
  rw [hdispose]
  generalize stage.callDispose chain = called
  obtain ⟨result, called, chain⟩ := called
  cases result with
  | error p => rfl
  | ok fault =>
    simp only [show called.bare.state = called.state from rfl]
    cases called.state.become .disposed with
    | error e => rfl
    | ok state => cases fault <;> rfl

/-- Releasing a stage depends on nothing that a release does not look at. -/
theorem Stage.release_bare (stage : Stage) (chain : Chain) :
    stage.bare.release chain
      = ((stage.release chain).1, (stage.release chain).2.1.bare, (stage.release chain).2.2) := by
  have hstop : stage.bare.callStop chain
      = ((stage.callStop chain).1, (stage.callStop chain).2.1.bare, (stage.callStop chain).2.2) := rfl
  unfold Stage.release
  rw [hstop, show stage.bare.state = stage.state from rfl]
  split
  · generalize stage.callStop chain = told
    obtain ⟨result, told, chain⟩ := told
    cases result with
    | error p => rfl
    | ok _ => exact Stage.disposeOf_bare { told with state := .stopped } chain
  · exact Stage.disposeOf_bare stage chain

/-- A round of releases depends on nothing that a release does not look at. -/
theorem releaseAll_bare (manager : DisposalManager) (stages : List Stage) (chain : Chain) :
    manager.releaseAll Stage.releasable chain (stages.map Stage.bare)
      = { manager.releaseAll Stage.releasable chain stages with
          items := (manager.releaseAll Stage.releasable chain stages).items.map Stage.bare } := by
  induction stages with
  | nil => rfl
  | cons stage rest ih =>
    rw [List.map_cons]
    unfold DisposalManager.releaseAll
    rw [ih]
    generalize manager.releaseAll Stage.releasable chain rest = later
    obtain ⟨faults, items, surroundings, manager⟩ := later
    have hdue : manager.isDue Stage.releasable stage.bare = manager.isDue Stage.releasable stage := rfl
    have hrelease : Stage.releasable.release stage.bare surroundings
        = ((stage.release surroundings).1, (stage.release surroundings).2.1.bare,
          (stage.release surroundings).2.2) := stage.release_bare surroundings
    simp only [hdue, hrelease]
    split <;> rfl

namespace Pipeline

/-- A pipeline as far as the release of its commands looks at it. -/
def bare (p : Pipeline) : Pipeline :=
  { p with stages := p.stages.map Stage.bare }

/-- Releasing all commands of a pipeline depends on nothing that a release does not look at. -/
theorem releaseAll_bare (p : Pipeline) :
    p.bare.releaseAll = (p.releaseAll.1, p.releaseAll.2.bare) := by
  unfold releaseAll
  simp only [bare, CommandChain.releaseAll_bare]

/-- The source of a command is found by what a release looks at. -/
theorem sourceOf_bare (p : Pipeline) (id : CommandId) : p.bare.sourceOf id = p.sourceOf id := by
  unfold sourceOf
  rw [bare, List.find?_map, show (fun stage : Stage => stage.id == id) ∘ Stage.bare
    = fun stage => stage.id == id from rfl]
  cases p.stages.find? (fun stage => stage.id == id) <;> rfl

/-- Reporting the faults of a cleanup changes nothing of the stages. -/
theorem reportCleanup_bare (p : Pipeline) (faults : List CleanupFault) :
    p.bare.reportCleanup faults = (p.reportCleanup faults).bare := by
  induction faults generalizing p with
  | nil => rfl
  | cons fault rest ih =>
    unfold reportCleanup
    rw [sourceOf_bare]
    exact ih { p with chain := p.chain.emitError (p.sourceOf fault.command) fault.error }

/-- Completing a pipeline looks at no more than its release. -/
theorem complete_bare (p : Pipeline) : p.bare.complete = (p.complete.1, p.complete.2.bare) := by
  unfold complete
  rw [releaseAll_bare]
  generalize p.releaseAll = released
  obtain ⟨faults, released⟩ := released
  simp only [reportCleanup_bare]
  rfl

/-- Giving up a pipeline depends on nothing that a release does not look at. -/
theorem drop_bare (p : Pipeline) : p.bare.drop = p.drop.bare := by
  have hdisposed : p.bare.stages.all (·.state.isDisposed) = p.stages.all (·.state.isDisposed) := by
    rw [bare, List.all_map]
    rfl
  unfold drop
  rw [hdisposed]
  split
  · rfl
  · exact congrArg Prod.snd p.releaseAll_bare

end Pipeline

/-! ## Binding that fails -/

/-- A command that was created stays so when it fails. -/
theorem Stage.fail_created {stage : Stage} (h : stage.state = .created) (chain : Chain)
    (e : ErrorRecord) : (stage.fail chain e).1 = stage := by
  show { stage with state := stage.state.becomeIfAllowed .error } = stage
  rw [show stage.state.becomeIfAllowed .error = stage.state by rw [h]; rfl]

/-- Some commands can be bound, and the one behind them cannot. -/
structure Stage.FailsBehind (hostInput : Bool) (adapter : Adapter) (before : List Stage)
    (stage : Stage) (e : BindingError) : Prop where
  bound : ∀ earlier ∈ before, ∃ bound,
    earlier.bindStatically adapter (earlier.position != 0 || hostInput) = .ok bound
  created : stage.state = .created
  error : stage.bindStatically adapter (stage.position != 0 || hostInput) = .error e

variable {before after : List Stage} {stage : Stage} {e : BindingError}

/-- Binding ends with the failure of the first command that cannot be bound. No stage is told from what
it was by its release. -/
theorem bindAll_failing {n : Nat} {stages : Stages n} {chain : Chain} {hostInput : Bool}
    (h : stage.FailsBehind hostInput chain.adapter before e)
    (hstages : stages.toList = before ++ stage :: after) :
    (bindAll hostInput stages chain).1.toList.map Stage.bare = stages.toList.map Stage.bare
      ∧ (bindAll hostInput stages chain).2
        = (stage.fail chain { e.toRecord with phase := some .bind }).2 := by
  induction stages generalizing before with
  | nil => simp [Stages.toList] at hstages
  | cons first rest ih =>
    unfold bindAll
    cases before with
    | nil =>
      obtain ⟨rfl, hrest⟩ := List.cons.inj hstages
      simp only [h.error, Stage.fail_created h.created]
      exact ⟨trivial, trivial⟩
    | cons earlier before =>
      obtain ⟨rfl, hrest⟩ := List.cons.inj hstages
      obtain ⟨bound, hbound⟩ := h.bound first (.head _)
      obtain ⟨hlater, hfails⟩ := ih ⟨fun s hs => h.bound s (.tail _ hs), h.created, h.error⟩ hrest
      have hbare : bound.bare = first.bare := by
        rw [Stage.bindStatically_eq hbound]
        rfl
      simp only [hbound]
      refine ⟨?_, hfails⟩
      rw [Stages.toList, Stages.toList, List.map_cons, List.map_cons, hlater, hbare]

/-- Where no command is running, none is told to stop. -/
theorem stopRunning_of_not_running {stages : List Stage} (chain : Chain)
    (h : ∀ stage ∈ stages, stage.state.isRunning = false) :
    (stopRunning stages chain).1 = .ok ()
      ∧ (stopRunning stages chain).2.1.map Stage.bare = stages.map Stage.bare
      ∧ (stopRunning stages chain).2.2 = chain := by
  induction stages with
  | nil => exact ⟨rfl, rfl, rfl⟩
  | cons stage rest ih =>
    rw [List.forall_mem_cons] at h
    obtain ⟨houtcome, hstages, hchain⟩ := ih h.2
    unfold stopRunning
    simp only [h.1, Bool.false_eq_true, if_false]
    refine ⟨houtcome, ?_, hchain⟩
    rw [List.map_cons, List.map_cons, hstages]
    rfl

namespace Pipeline

/-- A pipeline when one of its commands has failed to be bound. -/
def failedAt (p : Pipeline) (stage : Stage) (e : BindingError) : Pipeline :=
  { p with chain := (stage.fail p.chain { e.toRecord with phase := some .bind }).2 }

/-- A run in which some command cannot be bound winds down to the pipeline as it was, but for the failure
of the first such command. -/
theorem wind_failing {p : Pipeline} {input : Option (List Value)}
    (h : stage.FailsBehind input.isSome p.chain.adapter before e)
    (hstages : p.stages = before ++ stage :: after)
    (hcreated : ∀ stage ∈ p.stages, stage.state = .created) :
    (p.wind input).1 = .ok () ∧ (p.wind input).2.bare = (p.failedAt stage e).bare := by
  have hrow : (Stages.ofList p.stages).toList = before ++ stage :: after := by
    rw [Stages.toList_ofList, hstages]
  obtain ⟨hbare, hchain⟩ := bindAll_failing h hrow
  rw [Stages.toList_ofList] at hbare
  have hsteps := @steps_of_halted _ input (.ofList p.stages) p.chain
  unfold wind
  generalize bindAll input.isSome (.ofList p.stages) p.chain = bound at hbare hchain hsteps
  obtain ⟨stages, chain⟩ := bound
  simp only at hbare hchain hsteps
  subst hchain
  rw [hsteps (stage.isHalted_fail _ _)]
  -- The release keeps states in view, so none of these commands has begun.
  have hidle : ∀ s ∈ stages.toList, s.state.isRunning = false := by
    intro s hs
    have hmem : s.bare ∈ p.stages.map Stage.bare := hbare ▸ List.mem_map_of_mem hs
    obtain ⟨built, hbuilt, hsame⟩ := List.mem_map.mp hmem
    rw [show s.state = s.bare.state from rfl, ← hsame]
    show built.state.isRunning = false
    rw [hcreated built hbuilt]
    rfl
  obtain ⟨houtcome, hstopped, hleft⟩ := stopRunning_of_not_running
    (stage.fail p.chain { e.toRecord with phase := some .bind }).2 hidle
  refine ⟨houtcome, ?_⟩
  simp only [bare, failedAt, hstopped, hbare, hleft]

/-- Pipelines that do not differ for a release are completed in the same way. -/
theorem complete_congr {p p' : Pipeline} (h : p.bare = p'.bare) :
    p.complete.1 = p'.complete.1 ∧ p.complete.2.bare = p'.complete.2.bare := by
  have hp := p.complete_bare
  rw [h, complete_bare] at hp
  exact ⟨(congrArg Prod.fst hp).symm, (congrArg Prod.snd hp).symm⟩

/-- Pipelines that look alike to a release are left alike when they are given up. -/
theorem drop_congr {p p' : Pipeline} (h : p.bare = p'.bare) : p.drop.bare = p'.drop.bare := by
  rw [← drop_bare, ← drop_bare, h]

/-- Pipelines that look alike to a release have the same chain. -/
theorem chain_eq_of_bare {p p' : Pipeline} (h : p.bare = p'.bare) : p.chain = p'.chain :=
  show p.bare.chain = p'.bare.chain by rw [h]

/-- A run in which some command cannot be bound is the failure of the first such command and the release
of the pipeline as it was. -/
theorem invoke_failing {p : Pipeline} {input : Option (List Value)}
    (h : stage.FailsBehind input.isSome p.chain.adapter before e)
    (hstages : p.stages = before ++ stage :: after)
    (hcreated : ∀ stage ∈ p.stages, stage.state = .created) :
    (p.invoke input).1 = .ok (p.failedAt stage e).complete.1
      ∧ (p.invoke input).2.chain = (p.failedAt stage e).complete.2.drop.chain := by
  obtain ⟨hwound, hbare⟩ := wind_failing h hstages hcreated
  obtain ⟨houtcome, hcompleted⟩ := complete_congr hbare
  unfold invoke
  rw [run_of_wind hwound]
  exact ⟨congrArg Except.ok houtcome, chain_eq_of_bare (drop_congr hcompleted)⟩

end Pipeline

/-! ## Chains that cannot be bound -/

/-- The first command of a chain that cannot be bound, and why. -/
structure Setting.FailsAt (set : Setting) (k : Nat) (e : BindingError) : Prop where
  error : set.bind k = some (.error e)
  earlier : ∀ j < k, ∃ stage, set.bind j = some (.ok stage)

/-- The error of a command that cannot be bound, as it is reported. -/
def BindingError.reported (e : BindingError) : ErrorRecord :=
  { e.toRecord with phase := some .bind, terminating := true }

/-- A step by which no command is called or told to stop. -/
def Event.Uncalling : Event → Prop
  | called .. | stopping _ => False
  | _ => True

/-- A run came to nothing but the failure of the command that could not be bound and the release of all
commands. -/
structure Setting.FailedFast (set : Setting) (k : Nat) (e : BindingError) (specs : List CommandSpec)
    (o : Outcome) (journal : List Event) : Prop where
  uncalled : ∀ id phase parameters input, .called id phase parameters input ∉ journal
  unstopped : ∀ id, .stopping id ∉ journal
  disposed : Journal.disposals journal = lastFirst specs
  status : o.status = .failed
  fault : o.terminalFault = some e.reported
  records : ∃ r cleanup, o.records = r :: cleanup ∧ r.source = set.source ⟨k⟩
    ∧ r.error? = some e.reported
    ∧ ∀ r ∈ cleanup, ∃ err, r.error? = some err ∧ err.category = .cleanup ∧ err.phase = some .dispose
      ∧ err.duringCleanup = true ∧ err.terminating = false

namespace Pipeline

/-- The first stages of a pipeline are those of the first of its commands. -/
theorem take_stagesFrom (settings : ChainSettings) (position k : Nat) (specs : List CommandSpec) :
    (stagesFrom settings position specs).take k = stagesFrom settings position (specs.take k) := by
  induction specs generalizing position k with
  | nil => simp [stagesFrom]
  | cons spec rest ih =>
    cases k with
    | zero => rfl
    | succ k => rw [stagesFrom, List.take_succ_cons, List.take_succ_cons, ih, stagesFrom]

/-- What a release looks at in new stages is which commands they hold. -/
theorem stagesFrom_bare (settings : ChainSettings) (position : Nat) {specs specs' : List CommandSpec}
    (h : specs'.map CommandSpec.command = specs.map CommandSpec.command) :
    (stagesFrom settings position specs').map Stage.bare
      = (stagesFrom settings position specs).map Stage.bare := by
  induction specs generalizing position specs' with
  | nil => rw [List.map_eq_nil_iff.mp h]
  | cons spec rest ih =>
    cases specs' with
    | nil => cases h
    | cons spec' rest' =>
      rw [List.map_cons, List.map_cons, List.cons.injEq] at h
      rw [stagesFrom, stagesFrom, List.map_cons, List.map_cons, ih (position + 1) h.2]
      obtain ⟨command, _, _⟩ := spec
      obtain ⟨_, _, _⟩ := spec'
      obtain rfl : _ = command := h.1
      rfl

/-- A run that ends with a terminal fault has failed. -/
theorem status_of_complete {p : Pipeline} {err : ErrorRecord}
    (h : p.complete.1.terminalFault = some err) : p.complete.1.status = .failed := by
  generalize hfinal : (p.releaseAll.2.reportCleanup p.releaseAll.1).chain = chain
  have hfault : p.complete.1.terminalFault = chain.fault := by
    rw [← hfinal]
    rfl
  have hstatus : p.complete.1.status = chain.status := by
    rw [← hfinal]
    rfl
  rw [hstatus, Chain.status, ← hfault, h]
  rfl

section

variable {settings : ChainSettings} {host : StopToken} {flags : StopFlags}
  {specs specs' : List CommandSpec} {tokens : List StopToken} {input input' : Option (List Value)}
  {k : Nat}

/-- The first command that cannot be bound stands behind some that can. -/
theorem failsBehind_of_failsAt
    (h : ((build settings host flags specs).setting input).FailsAt k e) :
    ∃ stage, (build settings host flags specs).stages[k]? = some stage
      ∧ stage.FailsBehind input.isSome settings.adapter
        ((build settings host flags specs).stages.take k) e := by
  obtain ⟨stage, hk, herror⟩ := Option.map_eq_some_iff.mp h.error
  have hnew := stagesFrom_new settings specs 0 k stage hk
  rw [Nat.zero_add] at hnew
  refine ⟨stage, hk, fun earlier hmem => ?_, hnew.created, ?_⟩
  · obtain ⟨j, hj⟩ := List.getElem?_of_mem hmem
    have hlt : j < k := by
      have := (List.getElem?_eq_some_iff.mp hj).1
      rw [List.length_take] at this
      omega
    rw [List.getElem?_take_of_lt hlt] at hj
    have hposition := (stagesFrom_new settings specs 0 j earlier hj).position
    obtain ⟨bound, hbound⟩ := h.earlier j hlt
    obtain ⟨found, hfound, hbind⟩ := Option.map_eq_some_iff.mp hbound
    obtain rfl : earlier = found := Option.some.inj (hj.symm.trans hfound)
    refine ⟨bound, ?_⟩
    rw [hposition, Nat.zero_add]
    exact hbind
  · rw [hnew.position]
    exact herror

/-- Chains that agree up to a place have the same stages there. -/
theorem getElem?_stagesFrom {j : Nat} (hspecs : specs'.take (k + 1) = specs.take (k + 1))
    (hj : j ≤ k) : (stagesFrom settings 0 specs')[j]? = (stagesFrom settings 0 specs)[j]? := by
  have hlt : j < k + 1 := Nat.lt_succ_of_le hj
  rw [← List.getElem?_take_of_lt hlt, take_stagesFrom, hspecs, ← take_stagesFrom,
    List.getElem?_take_of_lt hlt]

/-- Which command cannot be bound depends on no objects and on no command behind it. -/
theorem failsAt_congr (h : ((build settings host flags specs).setting input).FailsAt k e)
    (hinput : input'.isSome = input.isSome) (hspecs : specs'.take (k + 1) = specs.take (k + 1)) :
    ((build settings host flags specs').setting input').FailsAt k e := by
  have hbind {j : Nat} (hj : j ≤ k) : ((build settings host flags specs').setting input').bind j
      = ((build settings host flags specs).setting input).bind j := by
    show ((stagesFrom settings 0 specs')[j]?).map (fun stage =>
        stage.bindStatically settings.adapter (j != 0 || input'.isSome))
      = ((stagesFrom settings 0 specs)[j]?).map fun stage =>
        stage.bindStatically settings.adapter (j != 0 || input.isSome)
    rw [getElem?_stagesFrom hspecs hj, hinput]
  refine ⟨?_, fun j hj => ?_⟩
  · rw [hbind (Nat.le_refl k)]
    exact h.error
  · rw [hbind (Nat.le_of_lt hj)]
    exact h.earlier j hj

/-- A chain that cannot be bound is the failure of the first command that cannot be, and its release. -/
theorem invoke_of_failsAt (h : ((build settings host flags specs).setting input).FailsAt k e)
    (tokens : List StopToken) :
    ∃ stage, (stagesFrom settings 0 specs)[k]? = some stage
      ∧ (((build settings host flags specs).signaled tokens).invoke input).1
        = .ok (((build settings host flags specs).signaled tokens).failedAt stage e).complete.1
      ∧ (((build settings host flags specs).signaled tokens).invoke input).2.chain
        = (((build settings host flags specs).signaled tokens).failedAt stage e).complete.2.drop.chain := by
  obtain ⟨stage, hk, hfails⟩ := failsBehind_of_failsAt h
  have hadapter : ((build settings host flags specs).signaled tokens).chain.adapter
      = settings.adapter := (build_tracks settings host flags specs tokens input).ledger.adapter
  have hsplit : ((build settings host flags specs).signaled tokens).stages
      = (build settings host flags specs).stages.take k
        ++ stage :: (build settings host flags specs).stages.drop (k + 1) := by
    obtain ⟨hlt, hstage⟩ := List.getElem?_eq_some_iff.mp hk
    rw [← hstage, ← List.drop_eq_getElem_cons hlt, List.take_append_drop]
    rfl
  rw [← hadapter] at hfails
  exact ⟨stage, hk, invoke_failing hfails hsplit (created_built settings host flags specs)⟩

end

section

variable (settings : ChainSettings) (host : StopToken) (flags : StopFlags)
  (specs : List CommandSpec) (tokens : List StopToken) (input : Option (List Value)) (k : Nat)
  (e : BindingError)

/-- The record of a command that cannot be bound is the first of its chain, and its error is that of the
chain. -/
theorem failedAt_chain (stage : Stage) :
    ∃ r, (((build settings host flags specs).signaled tokens).failedAt stage e).chain.records = [r]
      ∧ r.source = stage.source ∧ r.error? = some e.reported
      ∧ (((build settings host flags specs).signaled tokens).failedAt stage e).chain.fault
        = some e.reported
      ∧ (((build settings host flags specs).signaled tokens).failedAt stage e).chain.journal
        = tokens.map .signaled ++ [.emitted r, .delivered r, .failed stage.id,
          .signaled ((build settings host flags specs).signaled tokens).chain.stop] := by
  obtain ⟨hdelivered, hfault, -, -⟩ := Chain.signalAll_noteAll_eq
    (build settings host flags specs).chain [] tokens
  have hjournal : ((build settings host flags specs).signaled tokens).chain.journal
      = tokens.map .signaled := Chain.journal_signalAll _ tokens
  refine ⟨((build settings host flags specs).signaled tokens).chain.errorRecord stage.source
    e.reported, ?_, rfl, rfl, ?_, ?_⟩
  · show (_ :: ((build settings host flags specs).signaled tokens).chain.delivered).reverse = _
    rw [show ((build settings host flags specs).signaled tokens).chain.delivered = [] from hdelivered]
    rfl
  · show some (((build settings host flags specs).signaled tokens).chain.fault.getD _) = _
    rw [show ((build settings host flags specs).signaled tokens).chain.fault = none from hfault]
    rfl
  · rw [← hjournal]
    exact Stage.journal_fail _ _ _

/-- Up to then no command is called, told to stop or disposed of. -/
theorem failedAt_uncalling (stage : Stage) :
    (∀ step ∈ (((build settings host flags specs).signaled tokens).failedAt stage e).chain.journal,
        step.Uncalling)
      ∧ Journal.disposals
        (((build settings host flags specs).signaled tokens).failedAt stage e).chain.journal = [] := by
  obtain ⟨r, -, -, -, -, hjournal⟩ := failedAt_chain settings host flags specs tokens e stage
  rw [hjournal]
  constructor
  · intro step hstep
    rcases List.mem_append.mp hstep with hstep | hstep
    · obtain ⟨token, -, rfl⟩ := List.mem_map.mp hstep
      trivial
    · simp only [List.mem_cons, List.not_mem_nil, or_false] at hstep
      rcases hstep with rfl | rfl | rfl | rfl <;> trivial
  · simp [Journal.disposals, List.filterMap_eq_nil_iff, Event.disposed?]

/-- The setting names a command by the source of its stage. -/
theorem source_of_getElem? {stage : Stage} (hk : (stagesFrom settings 0 specs)[k]? = some stage) :
    ((build settings host flags specs).setting input).source ⟨k⟩ = stage.source := by
  have hposition := (stagesFrom_new settings specs 0 k stage hk).position
  have hcommand : ((build settings host flags specs).setting input).commands[k]?
      = some stage.command := by
    rw [setting, List.getElem?_map]
    exact congrArg (Option.map Stage.command) hk
  rw [Setting.source, hcommand, Stage.source, Stage.id, hposition, Nat.zero_add]
  rfl

/-- The failure of the command that could not be bound and the release of all commands is a run that
failed fast. -/
theorem failedFast_of_release {stage : Stage} (hk : (stagesFrom settings 0 specs)[k]? = some stage) :
    ((build settings host flags specs).setting input).FailedFast k e specs
      (((build settings host flags specs).signaled tokens).failedAt stage e).complete.1
      (((build settings host flags specs).signaled tokens).failedAt stage e).complete.2.drop.chain.journal
      := by
  obtain ⟨r, hrecords, hsource, herror, hfault, -⟩ :=
    failedAt_chain settings host flags specs tokens e stage
  obtain ⟨hbefore, hnone⟩ := failedAt_uncalling settings host flags specs tokens e stage
  have hids : (((build settings host flags specs).signaled tokens).failedAt stage e).stages.map Stage.id
      = (List.range specs.length).map CommandId.mk := ids_built settings host flags specs
  have hreleases : (((build settings host flags specs).signaled tokens).failedAt stage e).Releases _ _ :=
    complete_releases rfl (idle_built settings host flags specs) (nodup_built settings host flags specs)
  obtain ⟨block, hgrown, hdisposed, hblock⟩ := hreleases.calls
  obtain ⟨cleanup, hcleanup, hentries⟩ := hreleases.errors
  have hterminal := hreleases.fault.trans hfault
  rw [hreleases.dropped, hgrown]
  have huncalling : ∀ step ∈
      (((build settings host flags specs).signaled tokens).failedAt stage e).chain.journal ++ block,
      step.Uncalling := by
    refine List.forall_mem_append.mpr ⟨hbefore, fun step hstep => ?_⟩
    rcases hblock step hstep with hclearing | ⟨_, rfl⟩ | ⟨_, rfl⟩
    · cases step <;> trivial
    all_goals trivial
  exact {
    uncalled := fun id phase parameters v hcalled => huncalling _ hcalled
    unstopped := fun id hstopping => huncalling _ hstopping
    disposed := by
      rw [Journal.disposals_append, hnone, hdisposed, hids]
      rfl
    status := status_of_complete hterminal
    fault := hterminal
    records := by
      refine ⟨r, cleanup, ?_, ?_, herror, Disposal.cleanup_of_entries hentries⟩
      · rw [hcleanup, hrecords]
        rfl
      · rw [hsource, source_of_getElem? settings host flags specs input k hk] }

/-- **Binding fails fast.** When the k-th command of a chain is the first that cannot be bound, whatever
its commands do and whatever was signaled before, the run completes: no command is called but to dispose
of it, and every command is disposed of; the chain has failed with the error of that command, and the one
record of it comes before those of the cleanup. With other objects to feed, and other arguments behind
that command, everything happens in the same way. -/
theorem binding_fails_fast
    (h : ((build settings host flags specs).setting input).FailsAt k e) :
    ∃ o, (((build settings host flags specs).signaled tokens).invoke input).1 = .ok o
      ∧ ((build settings host flags specs).setting input).FailedFast k e specs o
        (((build settings host flags specs).signaled tokens).invoke input).2.chain.journal
      ∧ ∀ specs' input', input'.isSome = input.isSome →
        specs'.map CommandSpec.command = specs.map CommandSpec.command →
        specs'.take (k + 1) = specs.take (k + 1) →
        (((build settings host flags specs').signaled tokens).invoke input').1 = .ok o
          ∧ (((build settings host flags specs').signaled tokens).invoke input').2.chain
            = (((build settings host flags specs).signaled tokens).invoke input).2.chain := by
  obtain ⟨stage, hk, houtcome, hchain⟩ := invoke_of_failsAt h tokens
  refine ⟨_, houtcome, ?_, ?_⟩
  · rw [hchain]
    exact failedFast_of_release settings host flags specs tokens input k e hk
  · intro specs' input' hinput hcommands hspecs
    obtain ⟨stage', hk', houtcome', hchain'⟩ :=
      invoke_of_failsAt (failsAt_congr h hinput hspecs) tokens
    rw [getElem?_stagesFrom hspecs (Nat.le_refl k), hk] at hk'
    obtain rfl := Option.some.inj hk'
    have hbare : (((build settings host flags specs').signaled tokens).failedAt stage e).bare
        = (((build settings host flags specs).signaled tokens).failedAt stage e).bare := by
      show Pipeline.mk ((stagesFrom settings 0 specs').map Stage.bare) _ _
        = Pipeline.mk ((stagesFrom settings 0 specs).map Stage.bare) _ _
      rw [stagesFrom_bare settings 0 hcommands]
      rfl
    obtain ⟨hsame, hcompleted⟩ := complete_congr hbare
    rw [houtcome', hchain', hchain, hsame]
    exact ⟨rfl, chain_eq_of_bare (drop_congr hcompleted)⟩

end

/-- Three commands, the second of which has no parameter of the name that was supplied for it, and
panics when it is disposed of. -/
def failingToBind : List CommandSpec :=
  [{ command := .disposing (.ok none) },
    { command := .disposing (.error .other), arguments := [.named "depth" (some (.int 3))] },
    { command := .disposing (.ok none), arguments := [.named "-target" none] }]

/-- A chain whose second command is given an argument it has no parameter for fails although the
chain was signaled before, and all three commands are disposed of, the last first. -/
theorem binding_fails_fast_unknown :
    ((build {} ⟨0, []⟩ ⟨1, []⟩ failingToBind).setting none).FailsAt 1 (.parameterNotFound "depth")
      ∧ ∃ o, (((build {} ⟨0, []⟩ ⟨1, []⟩ failingToBind).signaled [⟨0, []⟩]).invoke none).1 = .ok o
        ∧ o.status = .failed
        ∧ Journal.disposals (((build {} ⟨0, []⟩ ⟨1, []⟩ failingToBind).signaled
          [⟨0, []⟩]).invoke none).2.chain.journal = [⟨2⟩, ⟨1⟩, ⟨0⟩] := by
  have hfails : ((build {} ⟨0, []⟩ ⟨1, []⟩ failingToBind).setting none).FailsAt 1
      (.parameterNotFound "depth") := by
    refine ⟨rfl, fun j hj => ?_⟩
    obtain rfl : j = 0 := by omega
    exact ⟨_, rfl⟩
  obtain ⟨o, ho, hfast, -⟩ :=
    binding_fails_fast {} ⟨0, []⟩ ⟨1, []⟩ failingToBind [⟨0, []⟩] none 1 _ hfails
  exact ⟨hfails, o, ho, hfast.status, hfast.disposed⟩

end Pipeline

end CommandChain
