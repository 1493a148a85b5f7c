import CommandChain.Proofs.Disposal.Release
import CommandChain.Proofs.Disposal.Replacement
/-!
# Disposal is complete

Every run that no panic unwinds disposes of all its commands, whatever the dispose hooks do, and what
they do reaches nothing of the outcome but the errors at its end.
-/

namespace CommandChain

/-! ## Other dispose hooks -/

namespace Pipeline

/-- The pipeline with the dispose hooks chosen for its commands. -/
def redispose (choice : Disposers) (p : Pipeline) : Pipeline :=
  { p with stages := p.stages.map (Stage.redispose choice) }

/-- Up to the release of the commands, a run is the same with other dispose hooks. -/
theorem wind_redispose (choice : Disposers) (p : Pipeline) (input : Option (List Value)) :
    (p.redispose choice).wind input = ((p.wind input).1, (p.wind input).2.redispose choice) := by
  have hrow : (Stages.ofList (p.redispose choice).stages).toList
      = ((Stages.ofList p.stages).map (Stage.redispose choice)).toList := by
    rw [Stages.toList_ofList, Stages.toList_map, Stages.toList_ofList]
    rfl
  obtain ⟨houtcome, hstages, hchain⟩ := steps_congr hrow input p.chain
  rw [steps_redispose] at houtcome hstages hchain
  unfold wind
  simp only [show (p.redispose choice).chain = p.chain from rfl, houtcome, hstages, hchain]
  generalize steps input (.ofList p.stages) p.chain = ran
  obtain ⟨outcome, stages, chain⟩ := ran
  simp only [Ran.map, Stages.toList_map]
  cases outcome with
  | error e => rfl
  | ok _ =>
    simp only [stopRunning_redispose]
    rfl

/-- The stages of commands with other dispose hooks are the stages of the commands, with those
hooks. -/
theorem stagesFrom_redispose (choice : Disposers) (settings : ChainSettings) (position : Nat)
    (specs : List CommandSpec) :
    stagesFrom settings position (redisposeFrom choice position specs)
      = (stagesFrom settings position specs).map (Stage.redispose choice) := by
  induction specs generalizing position with
  | nil => rfl
  | cons spec rest ih =>
    rw [redisposeFrom, stagesFrom, stagesFrom, List.map_cons, ih]
    rfl

end Pipeline

/-- Two outcomes differ in nothing but the errors of the cleanup at their ends. -/
structure Outcome.SameButCleanup (o o' : Outcome) : Prop where
  status : o'.status = o.status
  fault : o'.terminalFault = o.terminalFault
  records : ∃ common cleanup cleanup', o.records = common ++ cleanup
    ∧ o'.records = common ++ cleanup'
    ∧ ∀ r ∈ cleanup ++ cleanup', ∃ e, r.error? = some e ∧ e.category = .cleanup
      ∧ e.phase = some .dispose ∧ e.duringCleanup = true ∧ e.terminating = false

section

variable (settings : ChainSettings) (host : StopToken) (flags : StopFlags)
  (specs : List CommandSpec) (tokens : List StopToken) (input : Option (List Value))

namespace Pipeline

/-- A pipeline of commands with other dispose hooks. -/
theorem build_redispose (choice : Disposers) :
    (build settings host flags (redisposeFrom choice 0 specs)).signaled tokens
      = ((build settings host flags specs).signaled tokens).redispose choice := by
  unfold build signaled redispose
  simp only [stagesFrom_redispose]

end Pipeline

/-- **Disposal is complete.** A pipeline that was built and never runs disposes of every command when
it is given up, once and the last first. A run that no panic unwinds, whatever its commands do and
whatever it is fed, winds down to a point where every command is disposed of in the same way, and no
hook of another kind is called from there on. A dispose hook that faults or panics leaves one error,
which terminates nothing, and all these errors come last and in the order of the calls; with other
hooks that do not signal the chain's token, nothing but these errors differs. Giving up the pipeline
then does nothing. -/
theorem Pipeline.disposal_complete :
    (∃ block, ((build settings host flags specs).signaled tokens).drop.chain.journal
          = ((build settings host flags specs).signaled tokens).chain.journal ++ block
        ∧ Journal.disposals block = lastFirst specs ∧ ∀ e ∈ block, e.Clearing)
      ∧ ∀ o, (((build settings host flags specs).signaled tokens).run input).1 = .ok o →
        (((build settings host flags specs).signaled tokens).wind input).2.Wound
          (build settings host flags specs).chain.stop specs
        ∧ (((build settings host flags specs).signaled tokens).wind input).2.Releases o
          (((build settings host flags specs).signaled tokens).run input).2
        ∧ ∀ choice : Disposers,
          (∀ spec ∈ specs ++ redisposeFrom choice 0 specs,
            spec.command.DisposesQuietly (build settings host flags specs).chain.stop) →
          ∃ o', (((build settings host flags (redisposeFrom choice 0 specs)).signaled tokens).run
              input).1 = .ok o' ∧ o.SameButCleanup o' := by
  refine ⟨drop_built settings host flags specs tokens, fun o ho => ?_⟩
  have hwound := wound_of_run settings host flags specs tokens input ho
  have hreleases := releases_of_run settings host flags specs tokens input ho
  refine ⟨hwound, hreleases, fun choice hquiet => ?_⟩
  have hvariant := wind_redispose choice ((build settings host flags specs).signaled tokens) input
  rw [← build_redispose] at hvariant
  obtain ⟨o', ho'⟩ : ∃ o', (((build settings host flags (redisposeFrom choice 0 specs)).signaled
      tokens).run input).1 = .ok o' := by
    refine ⟨_, congrArg Prod.fst (run_of_wind ?_)⟩
    rw [hvariant]
    exact (wind_of_run ho).2
  have hwound' := wound_of_run settings host flags (redisposeFrom choice 0 specs) tokens input ho'
  have hreleases' :=
    releases_of_run settings host flags (redisposeFrom choice 0 specs) tokens input ho'
  have hchain : (((build settings host flags (redisposeFrom choice 0 specs)).signaled tokens).wind
      input).2.chain = (((build settings host flags specs).signaled tokens).wind input).2.chain := by
    rw [hvariant]
    rfl
  refine ⟨o', ho', ?_, ?_, ?_⟩
  · rw [hreleases.status (hwound.quiet fun spec hspec => hquiet spec (List.mem_append_left _ hspec)),
      hreleases'.status (hwound'.quiet fun spec hspec => hquiet spec (List.mem_append_right _ hspec)),
      hchain]
  · rw [hreleases.fault, hreleases'.fault, hchain]
  · obtain ⟨cleanup, hrecords, hentries⟩ := hreleases.errors
    obtain ⟨cleanup', hrecords', hentries'⟩ := hreleases'.errors
    refine ⟨_, cleanup, cleanup', hrecords, hchain ▸ hrecords', fun r hr => ?_⟩
    exact (List.mem_append.mp hr).elim (Disposal.cleanup_of_entries hentries r)
      (Disposal.cleanup_of_entries hentries' r)

end

/-- A command without parameters whose dispose hook returns this, or panics. -/
def Command.disposing (result : Except Panic (Option CommandFault)) : Command where
  name := "disposing"
  parameters := []
  Memory := Unit
  fresh := ()
  process _ _ := .done .ok
  dispose _ memory := { memory := memory, result := result }

/-- Two commands, the last of which panics when it is disposed of. -/
def panickingDisposal : List CommandSpec :=
  [{ command := .disposing (.ok none) }, { command := .disposing (.error .other) }]

/-- Of two commands the last panics when it is disposed of: the run succeeds all the same, and both
are released. -/
theorem disposal_complete_panicking :
    ∃ o, (((Pipeline.build {} ⟨0, []⟩ ⟨1, []⟩ panickingDisposal).signaled []).run none).1 = .ok o
      ∧ o.status = .succeeded ∧ o.records.length = 1
      ∧ (((Pipeline.build {} ⟨0, []⟩ ⟨1, []⟩ panickingDisposal).signaled []).wind none).2.Releases o
        (((Pipeline.build {} ⟨0, []⟩ ⟨1, []⟩ panickingDisposal).signaled []).run none).2 :=
  ⟨_, rfl, rfl, rfl,
    ((Pipeline.disposal_complete {} ⟨0, []⟩ ⟨1, []⟩ panickingDisposal [] none).2 _ rfl).2.1⟩

end CommandChain
