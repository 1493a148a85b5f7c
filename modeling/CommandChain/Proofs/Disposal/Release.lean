import CommandChain.Proofs.Conduct.Whole
import CommandChain.Proofs.Disposal.Round
import Mathlib.Data.List.Basic
/-!
# The release of the commands of a run

A run winds down to a point at which no command is running, and all commands are released there:
each dispose hook is called once, the last command first, and each that fails leaves one error at the
end of the timeline. Giving up the pipeline afterwards calls none of them again.
-/

namespace CommandChain

/-! ## Up to the release -/

namespace Pipeline

/-- A run up to the release of its commands. -/
def wind (p : Pipeline) (input : Option (List Value)) : Except Panic Unit × Pipeline :=
  let ran := steps input (.ofList p.stages) p.chain
  match ran.outcome with
  | .error e => (.error e, { p with stages := ran.stages.toList, chain := ran.chain })
  | .ok () =>
    let (outcome, stages, chain) := stopRunning ran.stages.toList ran.chain
    (outcome, { p with stages := stages, chain := chain })

/-- A run winds down and is completed, unless a panic unwinds it. -/
theorem run_eq_wind (p : Pipeline) (input : Option (List Value)) :
    p.run input = match p.wind input with
      | (.error e, p) => (.error e, p)
      | (.ok (), p) => (.ok p.complete.1, p.complete.2) := by
  unfold run wind
  dsimp only
  generalize steps input (.ofList p.stages) p.chain = ran
  obtain ⟨outcome, stages, chain⟩ := ran
  cases outcome with
  | error e => rfl
  | ok _ =>
    dsimp only
    generalize stopRunning stages.toList chain = stopped
    obtain ⟨outcome, stages, chain⟩ := stopped
    cases outcome <;> rfl

/-- A run that winds down is completed. -/
theorem run_of_wind {p : Pipeline} {input : Option (List Value)} (h : (p.wind input).1 = .ok ()) :
    p.run input = (.ok (p.wind input).2.complete.1, (p.wind input).2.complete.2) := by
  rw [run_eq_wind]
  generalize p.wind input = wound at h ⊢
  obtain ⟨outcome, p⟩ := wound
  obtain rfl : outcome = .ok () := h
  rfl

/-- A run that no panic unwound was completed when it had wound down. -/
theorem wind_of_run {p : Pipeline} {input : Option (List Value)} {o : Outcome}
    (h : (p.run input).1 = .ok o) :
    (steps input (.ofList p.stages) p.chain).outcome = .ok () ∧ (p.wind input).1 = .ok () := by
  have hwound : (p.wind input).1 = .ok () := by
    rw [run_eq_wind] at h
    generalize p.wind input = wound at h ⊢
    obtain ⟨outcome, p⟩ := wound
    cases outcome with
    | error e => cases h
    | ok _ => rfl
  refine ⟨?_, hwound⟩
  unfold wind at hwound
  dsimp only at hwound
  split at hwound
  · cases hwound
  · assumption

end Pipeline

/-- A step that may happen while commands are told to stop. -/
def Event.Halting : Event → Prop
  | signaled _ | stopping _ => True
  | _ => False

/-- Telling commands to stop adds nothing to the journal but that, and the signals that their hooks
raise. -/
theorem stopRunning_grown (stages : List Stage) (chain : Chain) :
    ∃ block, (stopRunning stages chain).2.2.journal = chain.journal ++ block
      ∧ ∀ e ∈ block, e.Halting := by
  induction stages generalizing chain with
  | nil => exact ⟨[], by simp [stopRunning], by simp⟩
  | cons stage rest ih =>
    unfold stopRunning
    by_cases hrunning : stage.state.isRunning = true
    · simp only [hrunning, if_true]
      have hgrown : (Stage.callStop { stage with input := stage.input.close } chain).2.2.journal
          = chain.journal ++ (.stopping stage.id
            :: (stage.command.stop chain.flags stage.memory).signals.map .signaled) := by
        rw [Stage.callStop, Chain.journal_signalAll, Chain.journal_noteAll, Chain.journal_log,
          List.append_assoc]
        rfl
      have hall : ∀ e ∈ Event.stopping stage.id
          :: (stage.command.stop chain.flags stage.memory).signals.map .signaled, e.Halting := by
        simp [Event.Halting]
      generalize Stage.callStop { stage with input := stage.input.close } chain = told at hgrown ⊢
      obtain ⟨result, told, chain'⟩ := told
      cases result with
      | error p => exact ⟨_, hgrown, hall⟩
      | ok _ =>
        obtain ⟨block, hblock, hlater⟩ := ih chain'
        refine ⟨_ ++ block, ?_, fun e he => (List.mem_append.mp he).elim (hall e) (hlater e)⟩
        show (stopRunning rest chain').2.2.journal = _
        rw [hblock, hgrown, List.append_assoc]
    · simp only [hrunning, Bool.false_eq_true, if_false]
      exact ih chain

/-- Telling the running commands to stop leaves every command in its place, and stopped where it was
running. -/
theorem stopRunning_stages (stages : List Stage) (chain : Chain)
    (hok : (stopRunning stages chain).1 = .ok ()) :
    (stopRunning stages chain).2.1.map (fun stage => (stage.id, stage.command, stage.state))
      = stages.map fun stage =>
        (stage.id, stage.command, stage.state.becomeIfAllowed .stopped) := by
  induction stages generalizing chain with
  | nil => rfl
  | cons stage rest ih =>
    unfold stopRunning at hok ⊢
    by_cases hrunning : stage.state.isRunning = true
    · simp only [hrunning, if_true] at hok ⊢
      have hsame : (Stage.callStop { stage with input := stage.input.close } chain).2.1.id = stage.id
          ∧ (Stage.callStop { stage with input := stage.input.close } chain).2.1.command
            = stage.command
          ∧ (Stage.callStop { stage with input := stage.input.close } chain).2.1.state
            = stage.state := ⟨rfl, rfl, rfl⟩
      generalize Stage.callStop { stage with input := stage.input.close } chain = told
        at hsame hok ⊢
      obtain ⟨result, told, chain'⟩ := told
      cases result with
      | error p => cases hok
      | ok _ =>
        obtain ⟨hid, hcommand, hstate⟩ := hsame
        rw [List.map_cons, List.map_cons, ih chain' hok]
        exact congrArg (· :: _) (Prod.ext hid (Prod.ext hcommand
          (congrArg (CommandState.becomeIfAllowed · .stopped) hstate)))
    · simp only [hrunning, Bool.false_eq_true, if_false] at hok ⊢
      rw [List.map_cons, List.map_cons, ih chain hok]
      refine congrArg (· :: _) (Prod.ext rfl (Prod.ext rfl ?_))
      cases hs : stage.state <;> rw [hs] at hrunning <;> first | rfl | exact absurd rfl hrunning

/-- Once the running commands were told to stop, all commands can be disposed of. -/
theorem CommandState.canBecome_disposed {state : CommandState} (h : state ≠ .disposed) :
    (state.becomeIfAllowed .stopped).canBecome .disposed = true := by
  cases state <;> first | rfl | exact absurd rfl h

/-- Until commands are released, the journal knows no state in which one was disposed of. -/
theorem Journal.state_ne_disposed (journal : List Event) (id : CommandId) :
    state journal id ≠ .disposed := by
  intro hstate
  rcases state_cases journal id with hs | hs | ⟨hs, -⟩ | ⟨hs, -⟩ <;> rw [hstate] at hs <;> cases hs

/-- What holds of a row of stages holds of each. -/
theorem Stages.Holds.forall_mem {p : Nat → Stage → Prop} {q : Stage → Prop} {position n : Nat}
    {stages : Stages n} (h : stages.Holds p position) (himp : ∀ i stage, p i stage → q stage) :
    ∀ stage ∈ stages.toList, q stage := by
  intro stage hstage
  obtain ⟨i, hi⟩ := h.exists_of_mem hstage
  exact himp i stage hi

/-! ## The release -/

/-- The record of an error on the timeline. -/
def Disposal.entry? (d : Disposal) : Option (RecordSource × Payload) :=
  d.error?.map fun e => (d.source, .message (.error e))

/-- The errors of dispose hooks are those of the cleanup. -/
theorem Disposal.cleanup_of_error? {d : Disposal} {e : ErrorRecord} (h : d.error? = some e) :
    e.category = .cleanup ∧ e.phase = some .dispose ∧ e.duringCleanup = true
      ∧ e.terminating = false := by
  unfold error? at h
  split at h
  · cases h
  all_goals
    cases h
    exact ⟨rfl, rfl, rfl, rfl⟩

/-- The records of failed dispose hooks carry such errors. -/
theorem Disposal.cleanup_of_entries {disposals : List Disposal} {cleanup : List Record}
    (h : cleanup.map (fun r => (r.source, r.payload)) = disposals.filterMap entry?) :
    ∀ r ∈ cleanup, ∃ e, r.error? = some e ∧ e.category = .cleanup ∧ e.phase = some .dispose
      ∧ e.duringCleanup = true ∧ e.terminating = false := by
  intro r hr
  have hmem := List.mem_map_of_mem (f := fun r : Record => (r.source, r.payload)) hr
  rw [h] at hmem
  obtain ⟨d, -, hd⟩ := List.mem_filterMap.mp hmem
  obtain ⟨e, he, hentry⟩ := Option.map_eq_some_iff.mp hd
  refine ⟨e, ?_, cleanup_of_error? he⟩
  have hpayload : .message (.error e) = r.payload := congrArg Prod.snd hentry
  rw [Record.error?, ← hpayload]

/-- Some commands are released: their dispose hooks are called, each that fails leaves an error at
the end of the timeline, and no pipeline that was released calls them again. -/
structure Pipeline.Releases (wound : Pipeline) (o : Outcome) (final : Pipeline) : Prop where
  calls : ∃ block, final.chain.journal = wound.chain.journal ++ block
    ∧ Journal.disposals block = (wound.stages.map Stage.id).reverse
    ∧ ∀ e ∈ block, e.Clearing ∨ (∃ r, e = .emitted r) ∨ ∃ r, e = .delivered r
  errors : ∃ cleanup, o.records = wound.chain.records ++ cleanup
    ∧ cleanup.map (fun r => (r.source, r.payload))
      = (disposals wound.chain.flags wound.stages).1.filterMap Disposal.entry?
  fault : o.terminalFault = wound.chain.fault
  status : (∀ stage ∈ wound.stages, stage.command.DisposesQuietly wound.chain.stop) →
    o.status = wound.chain.status
  dropped : final.drop = final

namespace Pipeline

variable {p : Pipeline}

/-- The dispose hooks of some stages are called with the last first. -/
theorem disposals_sources (flags : StopFlags) (stages : List Stage) :
    (disposals flags stages).1.map Disposal.source = (stages.map Stage.source).reverse := by
  induction stages with
  | nil => rfl
  | cons stage rest ih => simp [disposals, ih]

/-- A stage is found by its identity. -/
theorem find?_id {stages : List Stage} (hnodup : (stages.map Stage.id).Nodup) {stage : Stage}
    (h : stage ∈ stages) : stages.find? (fun other => other.id == stage.id) = some stage := by
  induction stages with
  | nil => cases h
  | cons first rest ih =>
    rw [List.map_cons, List.nodup_cons] at hnodup
    rcases List.mem_cons.mp h with rfl | h
    · rw [List.find?_cons_of_pos (by simp)]
    · have hne : first.id ≠ stage.id := fun he => hnodup.1 (he ▸ List.mem_map_of_mem h)
      rw [List.find?_cons_of_neg (by simpa using hne)]
      exact ih hnodup.2 h

/-- The source of a command is found by its identity. -/
theorem sourceOf_id (hnodup : (p.stages.map Stage.id).Nodup) {source : RecordSource}
    (h : source ∈ p.stages.map Stage.source) : p.sourceOf source.id = source := by
  obtain ⟨stage, hmem, rfl⟩ := List.mem_map.mp h
  rw [sourceOf, show stage.source.id = stage.id from rfl, find?_id hnodup hmem]

/-- Every fault of the cleanup becomes one record, and nothing else changes. -/
theorem reportCleanup_grown (faults : List CleanupFault) :
    ∃ cleanup, (p.reportCleanup faults).chain.records = p.chain.records ++ cleanup
      ∧ cleanup.map (fun r => (r.source, r.payload))
        = faults.map (fun f => (p.sourceOf f.command, .message (.error f.error)))
      ∧ (∃ block, (p.reportCleanup faults).chain.journal = p.chain.journal ++ block
        ∧ ∀ e ∈ block, (∃ r, e = .emitted r) ∨ ∃ r, e = .delivered r)
      ∧ (p.reportCleanup faults).chain.fault = p.chain.fault
      ∧ (p.reportCleanup faults).chain.isHalted = p.chain.isHalted
      ∧ (p.reportCleanup faults).stages = p.stages
      ∧ (p.reportCleanup faults).disposal = p.disposal := by
  induction faults generalizing p with
  | nil => exact ⟨[], by simp [reportCleanup], rfl, ⟨[], by simp [reportCleanup], by simp⟩, rfl,
      rfl, rfl, rfl⟩
  | cons fault rest ih =>
    obtain ⟨cleanup, hrecords, hentries, ⟨block, hgrown, hall⟩, hfault, hhalted, hstages, hdisposal⟩ :=
      ih (p := { p with chain := p.chain.emitError (p.sourceOf fault.command) fault.error })
    have hfirst := p.chain.journal_emitError (p.sourceOf fault.command) fault.error
    refine ⟨p.chain.errorRecord (p.sourceOf fault.command) fault.error :: cleanup, ?_, ?_,
      ⟨.emitted (p.chain.errorRecord (p.sourceOf fault.command) fault.error)
        :: .delivered (p.chain.errorRecord (p.sourceOf fault.command) fault.error) :: block, ?_, ?_⟩,
      hfault, hhalted, hstages, hdisposal⟩
    · show (reportCleanup _ rest).chain.records = _
      rw [hrecords, Chain.emitError, Chain.records_deliverToHost, List.append_assoc]
      rfl
    · rw [List.map_cons, List.map_cons, hentries]
      rfl
    · show (reportCleanup _ rest).chain.journal = _
      rw [hgrown, hfirst, List.append_assoc]
      rfl
    · rw [List.forall_mem_cons, List.forall_mem_cons]
      exact ⟨.inl ⟨_, rfl⟩, .inr ⟨_, rfl⟩, hall⟩

/-- A pipeline that has wound down is released when it is completed. -/
theorem complete_releases (hfresh : p.disposal = .fresh)
    (hidle : ∀ stage ∈ p.stages, stage.state.canBecome .disposed = true)
    (hnodup : (p.stages.map Stage.id).Nodup) : p.Releases p.complete.1 p.complete.2 := by
  have hround := releaseAll_disposed p.disposal p.stages p.chain hidle hnodup fun id _ => by
    rw [hfresh]
    exact List.not_mem_nil
  have hreleased : p.releaseAll = ((p.disposal.releaseAll Stage.releasable p.chain p.stages).faults,
    ⟨(p.disposal.releaseAll Stage.releasable p.chain p.stages).items,
      (p.disposal.releaseAll Stage.releasable p.chain p.stages).surroundings,
      (p.disposal.releaseAll Stage.releasable p.chain p.stages).manager⟩) := rfl
  unfold complete
  rw [hreleased]
  generalize p.disposal.releaseAll Stage.releasable p.chain p.stages = round at hround ⊢
  obtain ⟨faults, items, chain, manager⟩ := round
  obtain ⟨hclears, hfaults, hsources, hattempted⟩ := hround
  simp only at hclears hfaults hsources hattempted ⊢
  obtain ⟨cleanup, hrecords, hentries, ⟨reports, hreports, hreported⟩, hfault, hhalted, hstages,
    hdisposal⟩ := reportCleanup_grown (p := ⟨items, chain, manager⟩) faults
  have hids : items.map Stage.id = p.stages.map Stage.id := by
    have := congrArg (List.map RecordSource.id) hsources
    rwa [List.map_map, List.map_map] at this
  obtain ⟨block, hgrown, hcalls, hclearing⟩ := hclears.grown
  refine ⟨⟨block ++ reports, ?_, ?_, ?_⟩, ⟨cleanup, ?_, ?_⟩, ?_, fun hquiet => ?_, ?_⟩
  · show (reportCleanup ⟨items, chain, manager⟩ faults).chain.journal = _
    rw [hreports, hgrown, List.append_assoc]
  · have hnone : Journal.disposals reports = [] := by
      rw [Journal.disposals, List.filterMap_eq_nil_iff]
      intro e he
      rcases hreported e he with ⟨r, rfl⟩ | ⟨r, rfl⟩ <;> rfl
    rw [Journal.disposals_append, hcalls, hnone, List.append_nil]
  · exact fun e he => (List.mem_append.mp he).imp (hclearing e) (hreported e)
  · show (reportCleanup ⟨items, chain, manager⟩ faults).chain.records = _
    rw [hrecords]
    exact congrArg (· ++ cleanup) (Chain.records_of_clears hclears)
  · rw [hentries, hfaults, cleanupFaults, List.map_filterMap]
    refine List.filterMap_congr fun d hd => ?_
    -- Cleanup looks a command up by its name, and the names are all different.
    have hsource : sourceOf ⟨items, chain, manager⟩ d.source.id = d.source := by
      refine sourceOf_id (hids ▸ hnodup) ?_
      rw [hsources, ← List.mem_reverse, ← disposals_sources p.chain.flags]
      exact List.mem_map_of_mem hd
    rw [Disposal.entry?, Option.map_map]
    congr 1
    funext e
    exact Prod.ext hsource rfl
  · show (reportCleanup ⟨items, chain, manager⟩ faults).chain.fault = _
    exact hfault.trans hclears.fault
  · have hstill : chain.isHalted = p.chain.isHalted := by
      rw [Chain.isHalted, hclears.flags, hclears.stop]
      exact disposals_isSignaled _ _ hquiet
    show (reportCleanup ⟨items, chain, manager⟩ faults).chain.status = _
    rw [Chain.status, Chain.status, hfault, hhalted, hclears.fault, hstill]
  · -- No release is attempted twice.
    unfold drop
    split
    · rfl
    · have hnone : ∀ stage ∈ (reportCleanup ⟨items, chain, manager⟩ faults).stages,
          (reportCleanup ⟨items, chain, manager⟩ faults).disposal.isDue Stage.releasable stage
            = false := by
        rw [hstages, hdisposal]
        intro stage hstage
        have hmem : stage.id ∈ manager.attempted := by
          rw [hattempted, List.mem_append, List.mem_reverse, ← hids]
          exact .inr (List.mem_map_of_mem hstage)
        simp only [DisposalManager.isDue, Stage.releasable, List.contains_eq_mem, hmem, decide_true,
          Bool.or_true, Bool.not_true]
      rw [releaseAll, DisposalManager.releaseAll_of_not_due _ _ _ hnone]

end Pipeline

/-! ## Runs of a pipeline that was built -/

/-- The commands of a chain, the last first. -/
def lastFirst (specs : List CommandSpec) : List CommandId :=
  ((List.range specs.length).map CommandId.mk).reverse

/-- A pipeline has wound down: its commands can be disposed of, and none was. -/
structure Pipeline.Wound (stop : StopToken) (specs : List CommandSpec) (p : Pipeline) : Prop where
  fresh : p.disposal = .fresh
  idle : ∀ stage ∈ p.stages, stage.state.canBecome .disposed = true
  ids : (p.stages.map Stage.id).reverse = lastFirst specs
  nodup : (p.stages.map Stage.id).Nodup
  commands : ∀ stage ∈ p.stages, ∃ spec ∈ specs, stage.command = spec.command
  stop : p.chain.stop = stop
  undisposed : Journal.disposals p.chain.journal = []

/-- In a pipeline that has wound down, the commands dispose quietly if those it was built of do. -/
theorem Pipeline.Wound.quiet {p : Pipeline} {stop : StopToken} {specs : List CommandSpec}
    (h : p.Wound stop specs)
    (hquiet : ∀ spec ∈ specs, spec.command.DisposesQuietly stop) :
    ∀ stage ∈ p.stages, stage.command.DisposesQuietly p.chain.stop := by
  intro stage hstage
  obtain ⟨spec, hspec, hcommand⟩ := h.commands stage hstage
  rw [hcommand, h.stop]
  exact hquiet spec hspec

section

variable (settings : ChainSettings) (host : StopToken) (flags : StopFlags)
  (specs : List CommandSpec) (tokens : List StopToken) (input : Option (List Value))

namespace Pipeline

/-- The stages of a chain hold its commands, in order. -/
theorem stagesFrom_commands (position : Nat) :
    (stagesFrom settings position specs).map Stage.command = specs.map CommandSpec.command := by
  induction specs generalizing position with
  | nil => rfl
  | cons spec rest ih => rw [stagesFrom, List.map_cons, ih, List.map_cons]

/-- A run that no panic unwinds has wound down when its running commands were told to stop. -/
theorem wind_eq {o : Outcome}
    (ho : (((build settings host flags specs).signaled tokens).run input).1 = .ok o) :
    ((build settings host flags specs).signaled tokens).wind input
      = ((stopRunning (ran settings host flags specs tokens input).stages.toList
            (ran settings host flags specs tokens input).chain).1,
          ⟨(stopRunning (ran settings host flags specs tokens input).stages.toList
            (ran settings host flags specs tokens input).chain).2.1,
          (stopRunning (ran settings host flags specs tokens input).stages.toList
            (ran settings host flags specs tokens input).chain).2.2, .fresh⟩) := by
  have hsteps := (wind_of_run ho).1
  unfold wind
  simp only [hsteps]
  rfl

/-- Winding down adds no more to the steps of a run than that the running commands are told to
stop. -/
theorem wind_grown {o : Outcome}
    (ho : (((build settings host flags specs).signaled tokens).run input).1 = .ok o) :
    ((build settings host flags specs).setting input).Tracks
        (((build settings host flags specs).signaled tokens).wind input).2.chain
      ∧ ∃ block, (((build settings host flags specs).signaled tokens).wind input).2.chain.journal
          = (ran settings host flags specs tokens input).chain.journal ++ block
        ∧ (∀ e ∈ block, e.Halting)
        ∧ Journal.stops block
          = runningIds (ran settings host flags specs tokens input).stages.toList := by
  have htracks := (ran_course settings host flags specs tokens input).tracks
  have hwound := (wind_of_run ho).2
  rw [wind_eq settings host flags specs tokens input ho] at hwound ⊢
  obtain ⟨block, hgrown, hhalting⟩ := stopRunning_grown
    (ran settings host flags specs tokens input).stages.toList
    (ran settings host flags specs tokens input).chain
  rcases stopRunning_parts (ran settings host flags specs tokens input).stages.toList _ htracks with
    ⟨-, -, hparts⟩ | ⟨_, _, _, _, _, hun⟩
  · obtain ⟨block', hgrown', -, -, hstops⟩ := hparts.grown
    obtain rfl := List.append_cancel_left (hgrown.symm.trans hgrown')
    exact ⟨hparts.tracks, block, hgrown, hhalting, hstops⟩
  · obtain ⟨e, he⟩ := hun.outcome
    rw [he] at hwound
    cases hwound

/-- A run that no panic unwinds winds down. -/
theorem wound_of_run {o : Outcome}
    (ho : (((build settings host flags specs).signaled tokens).run input).1 = .ok o) :
    Wound (build settings host flags specs).chain.stop specs
      (((build settings host flags specs).signaled tokens).wind input).2 := by
  have hwound := (wind_of_run ho).2
  have hcourse := ran_course settings host flags specs tokens input
  obtain ⟨htracks, block, hgrown, hhalting, -⟩ :=
    wind_grown settings host flags specs tokens input ho
  rw [wind_eq settings host flags specs tokens input ho] at hwound htracks hgrown ⊢
  have hstages := stopRunning_stages _ (ran settings host flags specs tokens input).chain hwound
  have hids := congrArg (List.map Prod.fst) hstages
  rw [List.map_map, List.map_map] at hids
  have hids : (stopRunning (ran settings host flags specs tokens input).stages.toList
      (ran settings host flags specs tokens input).chain).2.1.map Stage.id
        = (ran settings host flags specs tokens input).stages.toList.map Stage.id := hids
  -- Each stage that is left is one of those after the steps of the run.
  have hfound : ∀ stage ∈ (stopRunning (ran settings host flags specs tokens input).stages.toList
      (ran settings host flags specs tokens input).chain).2.1,
      ∃ ended ∈ (ran settings host flags specs tokens input).stages.toList,
        stage.command = ended.command ∧ stage.state = ended.state.becomeIfAllowed .stopped := by
    intro stage hstage
    have hmem := List.mem_map_of_mem
      (f := fun stage : Stage => (stage.id, stage.command, stage.state)) hstage
    rw [hstages] at hmem
    obtain ⟨ended, hended, hsame⟩ := List.mem_map.mp hmem
    simp only [Prod.mk.injEq] at hsame
    exact ⟨ended, hended, hsame.2.1.symm, hsame.2.2.symm⟩
  refine ⟨rfl, fun stage hstage => ?_, ?_, ?_, fun stage hstage => ?_, htracks.stop, ?_⟩
  · obtain ⟨ended, hended, -, hstate⟩ := hfound stage hstage
    rw [hstate]
    exact CommandState.canBecome_disposed
      (hcourse.placed.forall_mem (fun k _ hp => hp.state ▸ Journal.state_ne_disposed _ ⟨k⟩) ended
        hended)
  · rw [hids, hcourse.placed.map_id, lastFirst, List.range_eq_range',
      show (build settings host flags specs).stages.length = specs.length from
        length_stagesFrom settings 0 specs]
  · rw [hids]
    exact hcourse.placed.nodup_id
  · obtain ⟨ended, hended, hsame, -⟩ := hfound stage hstage
    obtain ⟨k, hk⟩ := hcourse.placed.exists_of_mem hended
    have hcommand := List.mem_of_getElem? hk.command
    change _ ∈ (stagesFrom settings 0 specs).map Stage.command at hcommand
    rw [stagesFrom_commands] at hcommand
    obtain ⟨spec, hspec, heq⟩ := List.mem_map.mp hcommand
    exact ⟨spec, hspec, hsame.trans heq.symm⟩
  · obtain ⟨-, -, first, hfirst, hrun, -⟩ := hcourse.grown
    rw [hgrown, hfirst, Journal.disposals, List.filterMap_eq_nil_iff]
    intro e he
    rw [List.mem_append, List.mem_append] at he
    rcases he with (he | he) | he
    · rw [signaled, Chain.journal_signalAll] at he
      have he : e ∈ tokens.map Event.signaled := he
      obtain ⟨token, -, rfl⟩ := List.mem_map.mp he
      rfl
    · have hrun := hrun e he
      cases e <;> first | rfl | cases hrun
    · have hhalting := hhalting e he
      cases e <;> first | rfl | exact hhalting.elim

/-- A run that no panic unwinds releases its commands where it has wound down. -/
theorem releases_of_run {o : Outcome}
    (ho : (((build settings host flags specs).signaled tokens).run input).1 = .ok o) :
    (((build settings host flags specs).signaled tokens).wind input).2.Releases o
      (((build settings host flags specs).signaled tokens).run input).2 := by
  have hwound := wound_of_run settings host flags specs tokens input ho
  have hrun := run_of_wind (wind_of_run ho).2
  rw [hrun] at ho ⊢
  obtain rfl := Except.ok.inj ho
  exact complete_releases hwound.fresh hwound.idle hwound.nodup

/-- The commands of a pipeline that was built were created. -/
theorem created_built :
    ∀ stage ∈ (build settings host flags specs).stages, stage.state = .created := by
  intro stage hstage
  obtain ⟨i, hi⟩ := List.getElem?_of_mem hstage
  exact (stagesFrom_new settings specs 0 i stage hi).created

/-- The commands of a pipeline that was built can be disposed of. -/
theorem idle_built : ∀ stage ∈ (build settings host flags specs).stages,
    stage.state.canBecome .disposed = true := by
  intro stage hstage
  rw [created_built settings host flags specs stage hstage]
  rfl

/-- The commands of a pipeline that was built are named by their places. -/
theorem ids_built : (build settings host flags specs).stages.map Stage.id
    = (List.range specs.length).map CommandId.mk := by
  have hplaced := (build_built settings host flags specs none).mono
    fun _ _ _ _ hbuilt => hbuilt.placed (untouched_signaled settings host flags specs [])
  rw [← Stages.toList_ofList (build settings host flags specs).stages, hplaced.map_id,
    List.range_eq_range', show (build settings host flags specs).stages.length = specs.length from
      length_stagesFrom settings 0 specs]

/-- The commands of a pipeline have identities of their own. -/
theorem nodup_built : ((build settings host flags specs).stages.map Stage.id).Nodup := by
  rw [ids_built]
  exact List.Pairwise.map _ (fun a b hab he => hab (CommandId.mk.inj he)) List.nodup_range

/-- A pipeline that was built and never runs disposes of its commands when it is given up. -/
theorem drop_built :
    ∃ block, ((build settings host flags specs).signaled tokens).drop.chain.journal
        = ((build settings host flags specs).signaled tokens).chain.journal ++ block
      ∧ Journal.disposals block = lastFirst specs ∧ ∀ e ∈ block, e.Clearing := by
  have hround := releaseAll_disposed .fresh (build settings host flags specs).stages
    ((build settings host flags specs).signaled tokens).chain
    (idle_built settings host flags specs) (nodup_built settings host flags specs) fun id _ =>
      List.not_mem_nil
  obtain ⟨block, hgrown, hcalls, hclearing⟩ := hround.clears.grown
  rw [ids_built] at hcalls
  unfold drop
  split
  · next hdisposed =>
    -- Only a chain without commands has nothing to dispose of.
    cases specs with
    | nil => exact ⟨[], by simp, rfl, by simp⟩
    | cons spec rest => simp [signaled, build, stagesFrom, CommandState.isDisposed] at hdisposed
  · exact ⟨block, hgrown, hcalls, hclearing⟩

end Pipeline

end

end CommandChain
