import CommandChain.Proofs.Cut
import CommandChain.Proofs.Disposal.Once
import CommandChain.Proofs.Disposal.Release
/-!
# Pipelines that are given up

Giving a pipeline up releases the commands that are due, whatever states a run left them in. The
release of a running command is two calls under one guard: it is told to stop, and then it is
disposed of. A command that balks, that is one whose stop hook panics there, is not disposed of, and
since its release was attempted it never will be. All others are disposed of once, the last first.
-/

namespace CommandChain

/-! ## The calls of a release -/

/-- A chain has come out of another by calls that told some commands to stop and disposed of
some. -/
def Chain.Calls (chain chain' : Chain) (stops disposals : List CommandId) : Prop :=
  ∃ block, chain'.journal = chain.journal ++ block ∧ Journal.stops block = stops
    ∧ Journal.disposals block = disposals

namespace Chain.Calls

variable {chain chain' chain'' : Chain} {stops stops' disposals disposals' : List CommandId}

theorem refl (chain : Chain) : chain.Calls chain [] [] :=
  ⟨[], (List.append_nil _).symm, rfl, rfl⟩

theorem trans (h : chain.Calls chain' stops disposals)
    (h' : chain'.Calls chain'' stops' disposals') :
    chain.Calls chain'' (stops ++ stops') (disposals ++ disposals') := by
  obtain ⟨block, hgrown, hstops, hdisposals⟩ := h
  obtain ⟨block', hgrown', hstops', hdisposals'⟩ := h'
  refine ⟨block ++ block', ?_, ?_, ?_⟩
  · rw [hgrown', hgrown, List.append_assoc]
  · rw [Journal.stops_append, hstops, hstops']
  · rw [Journal.disposals_append, hdisposals, hdisposals']

/-- A call that parts with a command adds itself to what a chain did, and signals. -/
theorem of_call (chain : Chain) (e : Event) (notes : List String) (signals : List StopToken) :
    chain.Calls (((chain.log e).noteAll notes).signalAll signals) (Journal.stops [e])
      (Journal.disposals [e]) := by
  refine ⟨e :: signals.map .signaled, ?_, ?_, ?_⟩
  · rw [Chain.journal_signalAll, Chain.journal_noteAll, Chain.journal_log, List.append_assoc]
    rfl
  · rw [← List.singleton_append, Journal.stops_append, Journal.stops_signals, List.append_nil]
  · rw [← List.singleton_append, Journal.disposals_append, Journal.disposals_signals,
      List.append_nil]

end Chain.Calls

namespace Stage

/-- Whether a command is told to stop on its release, and panics. -/
def balks (stage : Stage) (chain : Chain) : Bool :=
  match (stage.callStop chain).1 with
  | .ok _ => false
  | .error _ => stage.state.isRunning

/-- A command that is not running is not told to stop on its release, so it cannot balk. -/
theorem balks_of_idle {stage : Stage} (h : stage.state.isRunning = false) (chain : Chain) :
    stage.balks chain = false := by
  unfold balks
  split
  · rfl
  · exact h

/-- Having a command release what it holds disposes of it, whatever comes of that. -/
theorem disposeOf_calls (stage : Stage) (chain : Chain) :
    chain.Calls (release.disposeOf stage chain).2.2 [] [stage.id] := by
  rw [(disposeOf_called stage chain).1]
  exact .of_call chain (.disposing stage.id) _ _

/-- The release of a command tells it to stop where it is running, and disposes of it unless it
balks. -/
theorem release_calls (stage : Stage) (chain : Chain) :
    chain.Calls (stage.release chain).2.2 (runningIds [stage])
      (if stage.balks chain then [] else [stage.id]) := by
  unfold release
  by_cases hrunning : stage.state.isRunning = true
  · rw [runningIds_cons_of_running hrunning]
    have htold : chain.Calls (stage.callStop chain).2.2 [stage.id] [] :=
      .of_call chain (.stopping stage.id) _ _
    have hid : (stage.callStop chain).2.1.id = stage.id := rfl
    simp only [balks, hrunning, if_true]
    generalize stage.callStop chain = told at htold hid
    obtain ⟨result, told, chain'⟩ := told
    cases result with
    | error p => exact htold
    | ok _ =>
      rw [← hid] at htold ⊢
      exact htold.trans (disposeOf_calls { told with state := .stopped } chain')
  · simp only [hrunning, Bool.false_eq_true, if_false]
    rw [Bool.not_eq_true] at hrunning
    rw [runningIds_cons_of_idle hrunning, balks_of_idle hrunning]
    exact disposeOf_calls stage chain

end Stage

/-! ## The calls of a round -/

/-- The release of a command, and whether the command balked. -/
structure Attempt where
  id : CommandId
  balked : Bool
deriving DecidableEq

/-- The commands that some attempts disposed of. -/
def Attempt.disposed (attempts : List Attempt) : List CommandId :=
  (attempts.filter fun a => !a.balked).map Attempt.id

namespace DisposalManager

/-- The releases that a round attempts, in order. -/
def attempts (m : DisposalManager) (chain : Chain) : List Stage → List Attempt
  | [] => []
  | stage :: rest =>
    let later := m.releaseAll Stage.releasable chain rest
    if later.manager.isDue Stage.releasable stage then
      m.attempts chain rest ++ [⟨stage.id, stage.balks later.surroundings⟩]
    else m.attempts chain rest

variable (m : DisposalManager) (chain : Chain)

/-- A round attempts the releases that it is to attempt, the last first. -/
theorem attempts_ids (stages : List Stage) :
    (m.attempts chain stages).map Attempt.id
      = ((Stage.releasable.due m.attempted stages).map Stage.id).reverse := by
  induction stages with
  | nil => rfl
  | cons stage rest ih =>
    rw [attempts, m.due_cons_eq Stage.releasable chain]
    split
    · rw [List.map_append, ih]
      exact List.reverse_cons.symm
    · exact ih

/-- A round disposes of the commands that it releases, but for those that balk. -/
theorem releaseAll_calls (stages : List Stage) :
    chain.Calls (m.releaseAll Stage.releasable chain stages).surroundings
      (runningIds (Stage.releasable.due m.attempted stages)).reverse
      (Attempt.disposed (m.attempts chain stages)) := by
  induction stages with
  | nil => exact .refl chain
  | cons stage rest ih =>
    rw [attempts, m.due_cons_eq Stage.releasable chain]
    by_cases hdue : (m.releaseAll Stage.releasable chain rest).manager.isDue Stage.releasable stage
        = true
    · rw [if_pos hdue, if_pos hdue, m.releaseAll_cons_of_due Stage.releasable chain hdue]
      have hstage := stage.release_calls (m.releaseAll Stage.releasable chain rest).surroundings
      have hdisposed (balked : Bool) :
          Attempt.disposed (m.attempts chain rest ++ [⟨stage.id, balked⟩])
            = Attempt.disposed (m.attempts chain rest) ++ if balked then [] else [stage.id] := by
        rw [Attempt.disposed, List.filter_append, List.map_append]
        cases balked <;> rfl
      rw [reverse_runningIds_cons, hdisposed]
      exact ih.trans hstage
    · rw [if_neg hdue, if_neg hdue, m.releaseAll_cons_of_not_due Stage.releasable chain hdue]
      exact ih

/-- A round disposes of all commands that it releases exactly if none balks. -/
theorem disposed_attempts_iff (stages : List Stage) :
    Attempt.disposed (m.attempts chain stages)
        = ((Stage.releasable.due m.attempted stages).map Stage.id).reverse
      ↔ ∀ a ∈ m.attempts chain stages, a.balked = false := by
  rw [← m.attempts_ids chain]
  constructor
  · intro h a ha
    have hlength := congrArg List.length h
    rw [Attempt.disposed, List.length_map, List.length_map, List.length_filter_eq_length_iff]
      at hlength
    simpa using hlength a ha
  · intro h
    rw [Attempt.disposed, List.filter_eq_self.mpr]
    intro a ha
    rw [h a ha]
    rfl

end DisposalManager

/-! ## Giving a pipeline up -/

namespace Pipeline

/-- The commands that are to be disposed of when the pipeline is given up, the last first. -/
def dueIds (p : Pipeline) : List CommandId :=
  ((Stage.releasable.due p.disposal.attempted p.stages).map Stage.id).reverse

/-- The releases that are attempted when the pipeline is given up. -/
def attempts (p : Pipeline) : List Attempt :=
  p.disposal.attempts p.chain p.stages

/-- Giving the pipeline up disposes of the commands that are due, each once and the last first, and
of no other. -/
def DisposesDue (p : Pipeline) : Prop :=
  Journal.disposals p.drop.chain.journal = Journal.disposals p.chain.journal ++ p.dueIds

/-- Giving a pipeline up tells the running ones among the due commands to stop, and disposes of
those that do not balk. -/
theorem drop_calls (p : Pipeline) : p.chain.Calls p.drop.chain
    (runningIds (Stage.releasable.due p.disposal.attempted p.stages)).reverse
    (Attempt.disposed p.attempts) := by
  have hround := p.disposal.releaseAll_calls p.chain p.stages
  unfold drop
  split
  · next hdisposed =>
    -- With nothing left to release a round leaves the chain as it is.
    have hidle : ∀ stage ∈ p.stages, p.disposal.isDue Stage.releasable stage = false := by
      intro stage hstage
      have hstate : stage.state.isDisposed = true := List.all_eq_true.mp hdisposed stage hstage
      simp [DisposalManager.isDue, Stage.releasable, hstate]
    rwa [p.disposal.releaseAll_of_not_due Stage.releasable p.chain hidle] at hround
  · exact hround

/-- Whatever states its commands are in, giving a pipeline up disposes of those that are due exactly
if no command balks. -/
theorem disposesDue_iff (p : Pipeline) :
    p.DisposesDue ↔ ∀ a ∈ p.attempts, a.balked = false := by
  obtain ⟨block, hgrown, -, hdisposals⟩ := p.drop_calls
  rw [DisposesDue, hgrown, Journal.disposals_append, hdisposals, List.append_cancel_left_eq]
  exact p.disposal.disposed_attempts_iff p.chain p.stages

end Pipeline

/-! ## Through a whole run -/

/-- A run came to the end of its steps and was unwound all the same, by a command that was told to
stop. -/
def Pipeline.UnwindsHalting (p : Pipeline) (input : Option (List Value)) : Prop :=
  (steps input (.ofList p.stages) p.chain).outcome = .ok () ∧ ∃ e, (p.run input).1 = .error e

/-- However a run ends, no command is told to stop twice, unless the run was unwound by telling one
to stop. -/
theorem Setting.Concludes.stops_nodup_iff {set : Setting} {p : Pipeline}
    {input : Option (List Value)} {stages : List Stage} {chain : Chain}
    {outcome : Except Panic Unit} (h : set.Concludes p input stages chain outcome)
    (hnodup : (stages.map Stage.id).Nodup) (hquiet : Journal.stops chain.journal = []) :
    (Journal.stops (p.invoke input).2.chain.journal).Nodup
      ↔ ¬ (outcome = .ok () ∧ ∃ e, (p.run input).1 = .error e) := by
  have hrunning := nodup_runningIds hnodup
  cases h with
  | panicked e hout hrun hchain hdrop =>
    obtain ⟨block, hgrown, -, -, hstops⟩ := hdrop.grown
    refine iff_of_true ?_ fun h => ?_
    · rw [hgrown, Journal.stops_append, hquiet, hstops, List.nil_append]
      exact List.nodup_reverse.mpr hrunning
    · rw [hout] at h
      cases h.1
  | completed o final hout hrun hstatus hfinal hdrop =>
    obtain ⟨block, hgrown, -, -, hstops⟩ := (hfinal.trans hdrop).grown
    refine iff_of_true ?_ ?_
    · rw [hgrown, Journal.stops_append, hquiet, hstops, List.nil_append, List.append_nil]
      exact hrunning
    · rintro ⟨-, e, he⟩
      rw [hrun] at he
      cases he
  -- The command that unwound the run is still running when the pipeline is given up.
  | unwound e before stage after hout hrun hsplit hstage hstop hdrop =>
    obtain ⟨block, hgrown, -, -, hstops⟩ := hstop.grown
    obtain ⟨block', hgrown', -, -, hstops'⟩ := hdrop.grown
    refine iff_of_false (fun h => ?_) (not_not_intro ⟨hout, e, hrun⟩)
    rw [hgrown', Journal.stops_append, hgrown, Journal.stops_append, hstops, hstops'] at h
    refine (List.nodup_append.mp h).2.2 stage.id ?_ stage.id ?_ rfl
    · exact List.mem_append_right _ (List.mem_concat_self)
    · exact List.mem_reverse.mpr (mem_runningIds (.head _) hstage)

/-- A pipeline survives its hooks: giving it up after its run disposes of the commands that are due,
and through the whole run and after it no command is told to stop twice. -/
structure Pipeline.Survives (p : Pipeline) (input : Option (List Value)) : Prop where
  disposes : (p.run input).2.DisposesDue
  stops : (Journal.stops (p.invoke input).2.chain.journal).Nodup

section

variable (settings : ChainSettings) (host : StopToken) (flags : StopFlags)
  (specs : List CommandSpec) (tokens : List StopToken) (input : Option (List Value))

/-- **Pipelines survive their hooks, but for a panic where a command is told to stop.** Whatever the
commands of a chain do, and whichever of their hooks panic or fault, all that are due are disposed
of and none is told to stop twice, exactly if no command balks when the pipeline is given up, and
none unwinds the run where it is told to stop. -/
theorem Pipeline.survives_iff :
    ((build settings host flags specs).signaled tokens).Survives input
      ↔ (∀ a ∈ (((build settings host flags specs).signaled tokens).run input).2.attempts,
          a.balked = false)
        ∧ ¬ ((build settings host flags specs).signaled tokens).UnwindsHalting input := by
  have hcourse := ran_course settings host flags specs tokens input
  have hstops := (invoke_concluded settings host flags specs tokens input).stops_nodup_iff
    hcourse.placed.nodup_id (stops_ran settings host flags specs tokens input)
  constructor
  · rintro ⟨hdisposes, honce⟩
    exact ⟨(disposesDue_iff _).mp hdisposes, hstops.mp honce⟩
  · rintro ⟨hcalm, hwound⟩
    exact ⟨(disposesDue_iff _).mpr hcalm, hstops.mpr hwound⟩

end

/-- A command that does not end of its own accord, and panics when it is told to stop. -/
def Command.balking : Command where
  name := "balking"
  parameters := []
  Memory := Unit
  fresh := ()
  process _ _ := .done .ok
  finish _ _ := .done .stopped
  stop _ _ := { memory := (), result := .error (.text "balked") }

/-- A command that panics when it is told to stop is told so again, and is never disposed of. -/
theorem Pipeline.not_survives_balking :
    Journal.stops ((build {} ⟨0, []⟩ ⟨1, []⟩ [{ command := .balking }]).invoke
        none).2.chain.journal = [⟨0⟩, ⟨0⟩]
      ∧ Journal.disposals ((build {} ⟨0, []⟩ ⟨1, []⟩ [{ command := .balking }]).invoke
        none).2.chain.journal = []
      ∧ ¬ ((build {} ⟨0, []⟩ ⟨1, []⟩ [{ command := .balking }]).signaled []).Survives none := by
  refine ⟨rfl, rfl, fun h => ?_⟩
  have hdisposes : [] = [CommandId.mk 0] := h.disposes
  cases hdisposes

end CommandChain
