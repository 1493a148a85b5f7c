import CommandChain.Proofs.Lifecycle.Refusal
import CommandChain.Proofs.Pipes.Coverage
import CommandChain.Proofs.Pipes.Passing
/-!
# Pipes are safe

At every moment of a run all pipes are empty, but for the one through which a record is just passing.
Pipes are closed from the front, and a command writes only to the pipe behind its own, which is closed
when that command has come to its end: no write finds a pipe closed or full, and the wave that ends a
chain finds no record left. So no command receives the refusal of a pipe, and when a run is over every
record that was written to a pipe has been read.
-/

namespace CommandChain

variable {n : Nat} {sources : List RecordSource}

/-! ## The steps of a run -/

/-- Binding the parameters leaves the pipes of a row ready. -/
theorem bindAll_receptive (hostInput : Bool) {stages : Stages n} (h : stages.Receptive sources)
    (chain : Chain) : (bindAll hostInput stages chain).1.Receptive sources := by
  induction stages generalizing chain sources with
  | nil => exact h
  | cons stage rest ih =>
    obtain ⟨others, rfl, hstage, hrest⟩ := h.exists_of_cons
    unfold bindAll
    split
    · next bound hbound =>
      rw [Stage.bindStatically_eq hbound]
      exact .cons rfl hstage (ih hrest chain)
    · exact .cons rfl hstage hrest

theorem bindMoments_safe (hostInput : Bool) {stages : Stages n} (h : stages.Receptive sources)
    (chain : Chain) : ∀ m ∈ bindMoments hostInput stages chain, m.Safe sources := by
  induction stages generalizing chain sources with
  | nil => exact List.forall_mem_singleton.mpr (Moment.safe_between h.idle chain)
  | cons stage rest ih =>
    obtain ⟨others, rfl, hstage, hrest⟩ := h.exists_of_cons
    refine List.forall_mem_cons.mpr ⟨Moment.safe_between h.idle chain, ?_⟩
    split
    · next bound hbound =>
      rw [Stage.bindStatically_eq hbound]
      exact Moment.safe_behind (ih hrest chain) rfl hstage.toIdle
    · next e _ =>
      have hfailed : Lined Pipe.Idle (stage.source :: others)
          ((stage.fail chain { e.toRecord with phase := some .bind }).1 :: rest.toList) :=
        .cons rfl hstage.toIdle hrest.idle
      exact List.forall_mem_singleton.mpr (Moment.safe_between hfailed _)

/-- The pipes of a row are ready after its commands have begun. -/
theorem beginAll_receptive (n : Nat) {stages : Stages n} (h : stages.Receptive sources)
    (chain : Chain) : (beginAll n stages chain).stages.Receptive sources := by
  induction n generalizing chain sources with
  | zero =>
    cases stages
    exact h
  | succ n ih =>
    cases stages with
    | cons stage rest =>
    obtain ⟨others, rfl, hstage, hrest⟩ := h.exists_of_cons
    have hleaves : (invoke (deliver n) stage rest chain .begin none none).Leaves stage others :=
      invoke_leaves (deliver_safe n) hrest chain .begin none none
    have hbegun := hleaves.ready hstage
    simp only [beginAll]
    split
    · exact h
    · split
      · exact hbegun
      · exact .cons hleaves.source (hleaves.input ▸ hstage) (ih hleaves.receptive _)
      · exact hbegun

theorem beginMoments_safe (n : Nat) {stages : Stages n} (h : stages.Receptive sources)
    (chain : Chain) : ∀ m ∈ beginMoments n stages chain, m.Safe sources := by
  induction n generalizing chain sources with
  | zero =>
    cases stages
    simp [beginMoments]
  | succ n ih =>
    cases stages with
    | cons stage rest =>
    obtain ⟨others, rfl, hstage, hrest⟩ := h.exists_of_cons
    have hleaves : (invoke (deliver n) stage rest chain .begin none none).Leaves stage others :=
      invoke_leaves (deliver_safe n) hrest chain .begin none none
    simp only [beginMoments]
    split
    · simp
    · refine List.forall_mem_append.mpr
        ⟨invokeMoments_safe (deliver_safe n) hstage.toIdle hrest chain _ _ _, ?_⟩
      split
      · exact Moment.safe_behind (ih hleaves.receptive _) hleaves.source
          (hleaves.input ▸ hstage.toIdle)
      · simp

/-- Feeding objects leaves the pipes of a row ready. -/
theorem feedObjects_receptive (values : List Value) {stages : Stages n}
    (h : stages.Receptive sources) (chain : Chain) :
    (feedObjects values stages chain).stages.Receptive sources := by
  induction values generalizing stages chain with
  | nil => exact h
  | cons v values ih =>
    unfold feedObjects
    split
    · exact h
    · have hpushed := (deliver_safe n).receptive sources stages
        ((chain.log (.feeding v)).emit (.object v) .host).2
        ((chain.log (.feeding v)).emit (.object v) .host).1 h
      dsimp only
      split
      · exact hpushed
      · exact ih hpushed _

theorem feedMoments_safe (values : List Value) {stages : Stages n} (h : stages.Receptive sources)
    (chain : Chain) : ∀ m ∈ feedMoments values stages chain, m.Safe sources := by
  induction values generalizing stages chain with
  | nil => simp [feedMoments]
  | cons v values ih =>
    unfold feedMoments
    split
    · simp
    · have hpushed := (deliver_safe n).receptive sources stages
        ((chain.log (.feeding v)).emit (.object v) .host).2
        ((chain.log (.feeding v)).emit (.object v) .host).1 h
      refine List.forall_mem_append.mpr ⟨(deliver_safe n).moments sources stages _ _ h, ?_⟩
      split
      · simp
      · exact ih hpushed _

/-- Having the first command process once leaves the pipes of a row ready. -/
theorem processHead_receptive {stages : Stages n} (h : stages.Receptive sources) (chain : Chain) :
    (processHead stages chain).stages.Receptive sources := by
  cases stages with
  | nil => exact h
  | cons stage rest =>
    obtain ⟨others, rfl, hstage, hrest⟩ := h.exists_of_cons
    exact (invoke_leaves (deliver_safe _) hrest chain .process none none).ready hstage

theorem headMoments_safe {stages : Stages n} (h : stages.Receptive sources) (chain : Chain) :
    ∀ m ∈ headMoments stages chain, m.Safe sources := by
  cases stages with
  | nil => simp [headMoments]
  | cons stage rest =>
    obtain ⟨others, rfl, hstage, hrest⟩ := h.exists_of_cons
    exact invokeMoments_safe (deliver_safe _) hstage.toIdle hrest chain _ _ _

/-- The pipes of a row are idle, and those behind the first are ready. -/
structure Stages.Ending (sources : List RecordSource) (stages : Stages n) : Prop where
  idle : Lined Pipe.Idle sources stages.toList
  behind : ∀ stage ∈ stages.toList.tail, stage.input.Ready

namespace Stages.Ending

/-- Ready pipes are those of a row that may come to its end. -/
theorem of_receptive {stages : Stages n} (h : stages.Receptive sources) :
    stages.Ending sources :=
  ⟨h.idle, fun stage hstage => h.pipes stage (List.mem_of_mem_tail hstage)⟩

/-- Closing the first pipe of a row lets it come to its end. -/
theorem closeFirst {stages : Stages n} (h : stages.Ending sources) :
    stages.closeFirst.Ending sources := by
  cases stages with
  | nil => exact h
  | cons stage rest =>
    obtain ⟨others, rfl, hstage, hrest⟩ := h.idle.exists_of_cons
    exact ⟨.cons rfl hstage.close hrest, h.behind⟩

/-- In a row that comes to its end, the first pipe is idle and those behind it are ready. -/
theorem exists_of_cons {stage : Stage} {rest : Stages n} (h : (cons stage rest).Ending sources) :
    ∃ others, sources = stage.source :: others ∧ stage.input.Idle ∧ rest.Receptive others := by
  obtain ⟨others, rfl, hstage, hrest⟩ := h.idle.exists_of_cons
  exact ⟨others, rfl, hstage, hrest.sources, h.behind⟩

end Stages.Ending

/-- When the first command has been fed its pipe may be closed, and those behind it are ready. -/
theorem feedHead_ending (input : Option (List Value)) {stages : Stages n}
    (h : stages.Receptive sources) (chain : Chain) :
    (feedHead input stages chain).stages.Ending sources := by
  have hclose {fed : Ran n} (hfed : fed.stages.Receptive sources) :
      fed.closeFirst.stages.Ending sources := by
    unfold Ran.closeFirst
    split
    · exact .of_receptive hfed
    · exact (Stages.Ending.of_receptive hfed).closeFirst
  refine feedHead_cases (motive := fun fed => fed.stages.Ending sources) input ?_ (fun values => ?_) ?_
  · exact .of_receptive h
  · exact hclose (feedObjects_receptive values h chain)
  · exact hclose (processHead_receptive h chain)

theorem feedHeadMoments_safe (input : Option (List Value)) {stages : Stages n}
    (h : stages.Receptive sources) (chain : Chain) :
    ∀ m ∈ feedHeadMoments input stages chain, m.Safe sources := by
  have hafter := (feedHead_ending input h chain).idle
  refine List.forall_mem_append.mpr
    ⟨?_, List.forall_mem_singleton.mpr (Moment.safe_between hafter _)⟩
  split
  · simp
  · cases input with
    | some values => exact feedMoments_safe values h chain
    | none => exact headMoments_safe h chain

/-! ## The wave that ends a chain -/

/-- What the wave does with a stage leaves its pipe at rest, and those behind it ready. -/
structure Settled.Rests (stage : Stage) (sources : List RecordSource) (settled : Settled n) :
    Prop where
  source : settled.stage.source = stage.source
  idle : settled.stage.input.Idle
  receptive : settled.rest.Receptive sources

namespace Settled.Rests

variable {settled settled' : Settled n} {stage : Stage}

/-- A call of a stage whose pipe is idle leaves its pipe at rest. -/
theorem of_leaves (h : settled.Leaves stage sources) (hstage : stage.input.Idle) :
    settled.Rests stage sources :=
  ⟨h.source, h.input ▸ hstage, h.receptive⟩

theorem trans (h : settled.Rests stage sources) (h' : settled'.Rests settled.stage sources) :
    settled'.Rests stage sources :=
  ⟨h'.source.trans h.source, h'.idle, h'.receptive⟩

/-- What a stage leaves at rest is a row of idle pipes. -/
theorem lined (h : settled.Rests stage sources) :
    Lined Pipe.Idle (stage.source :: sources) (settled.stage :: settled.rest.toList) :=
  .cons h.source h.idle h.receptive.idle

end Settled.Rests

section Wave

variable {push : Push n} {passage : Passage n} {rest : Stages n} {stage : Stage}

/-- There is nothing to drain. -/
theorem drain_rests (push : Push n) (hstage : stage.input.Idle) (hrest : rest.Receptive sources)
    (chain : Chain) : (drain push stage rest chain).Rests stage sources := by
  unfold drain
  rw [hstage.take_eq]
  by_cases hend : (stage.input.closed || chain.isHalted) = true
  · rw [if_pos hend]
    exact ⟨rfl, hstage, hrest⟩
  · rw [if_neg hend]
    exact ⟨rfl, hstage.close, hrest⟩

theorem drainMoments_safe (hstage : stage.input.Idle) (hrest : rest.Receptive sources)
    (chain : Chain) :
    ∀ m ∈ drainMoments push passage stage rest chain, m.Safe (stage.source :: sources) := by
  have hbefore : Lined Pipe.Idle (stage.source :: sources) (stage :: rest.toList) :=
    .cons rfl hstage hrest.idle
  refine List.forall_mem_cons.mpr
    ⟨⟨hbefore.sources, hbefore.pipes, .head _, hstage.take_ne_record _⟩, ?_⟩
  refine List.forall_mem_append.mpr ⟨?_, List.forall_mem_singleton.mpr
    (Moment.safe_between (drain_rests push hstage hrest chain).lined _)⟩
  -- No record is read from a pipe that rests.
  split
  · next r pipe htake => exact absurd (congrArg Prod.fst htake) (hstage.take_ne_record _ r)
  · simp

/-- Having a command process once leaves its pipe at rest. -/
theorem processOnce_rests (hpush : push.Safe passage) (hstage : stage.input.Idle)
    (hrest : rest.Receptive sources) (chain : Chain) :
    (processOnce push stage rest chain).Rests stage sources := by
  unfold processOnce
  split
  · exact .of_leaves (invoke_leaves hpush hrest chain _ _ _) hstage
  · exact ⟨rfl, hstage, hrest⟩

theorem onceMoments_safe (hpush : push.Safe passage) (hstage : stage.input.Idle)
    (hrest : rest.Receptive sources) (chain : Chain) :
    ∀ m ∈ onceMoments push passage stage rest chain, m.Safe (stage.source :: sources) := by
  unfold onceMoments
  split
  · exact invokeMoments_safe hpush hstage hrest chain _ _ _
  · simp

/-- Having a command end leaves its pipe at rest. -/
theorem finishStage_rests (hpush : push.Safe passage) (hstage : stage.input.Idle)
    (hrest : rest.Receptive sources) (chain : Chain) :
    (finishStage push stage rest chain).Rests stage sources := by
  unfold finishStage
  split
  · have hleaves : (invoke push stage rest chain .finish none none).Leaves stage sources :=
      invoke_leaves hpush hrest chain .finish none none
    have hrests := Settled.Rests.of_leaves hleaves hstage
    dsimp only
    split
    · exact ⟨hrests.source, hrests.idle, hrests.receptive⟩
    · exact hrests
  · exact ⟨rfl, hstage, hrest⟩

theorem finishMoments_safe (hpush : push.Safe passage) (hstage : stage.input.Idle)
    (hrest : rest.Receptive sources) (chain : Chain) :
    ∀ m ∈ finishMoments push passage stage rest chain, m.Safe (stage.source :: sources) := by
  unfold finishMoments
  split
  · refine List.forall_mem_append.mpr
      ⟨invokeMoments_safe hpush hstage hrest chain _ _ _, List.forall_mem_singleton.mpr ?_⟩
    exact Moment.safe_between (finishStage_rests hpush hstage hrest chain).lined _
  · simp

/-- What one command does in the wave leaves its pipe at rest. -/
theorem completeStage_rests (hpush : push.Safe passage) (hstage : stage.input.Idle)
    (hrest : rest.Receptive sources) (chain : Chain) :
    (completeStage push stage rest chain).Rests stage sources := by
  have hdrained := drain_rests push hstage hrest chain
  generalize hdrain : drain push stage rest chain = drained at hdrained
  have honce := hdrained.trans
    (processOnce_rests hpush hdrained.idle hdrained.receptive drained.chain)
  generalize hprocess : processOnce push drained.stage drained.rest drained.chain = once at honce
  exact completeStage_cases hdrain hprocess hdrained honce
    (honce.trans (finishStage_rests hpush honce.idle honce.receptive once.chain))

theorem completeMoments_safe (hpush : push.Safe passage) (hstage : stage.input.Idle)
    (hrest : rest.Receptive sources) (chain : Chain) :
    ∀ m ∈ completeMoments push passage stage rest chain, m.Safe (stage.source :: sources) := by
  have hdrained := drain_rests push hstage hrest chain
  have hdrains : ∀ m ∈ drainMoments push passage stage rest chain,
      m.Safe (stage.source :: sources) := drainMoments_safe hstage hrest chain
  unfold completeMoments
  dsimp only
  generalize drain push stage rest chain = drained at hdrained ⊢
  have honces := onceMoments_safe hpush hdrained.idle hdrained.receptive drained.chain
  have honce := hdrained.trans
    (processOnce_rests hpush hdrained.idle hdrained.receptive drained.chain)
  generalize processOnce push drained.stage drained.rest drained.chain = once at honce ⊢
  have hfinishes := finishMoments_safe hpush honce.idle honce.receptive once.chain
  rw [hdrained.source] at honces
  rw [honce.source] at hfinishes
  refine List.forall_mem_append.mpr ⟨hdrains, ?_⟩
  split
  · simp
  · split
    · simp
    · refine List.forall_mem_append.mpr ⟨honces, ?_⟩
      split
      · simp
      · exact hfinishes
      · split
        · simp
        · exact hfinishes

end Wave

/-- The wave closes a pipe only when the command before it has ended, and a command that was cut off
leaves the pipe behind it ready. -/
theorem endWave_idle (n : Nat) {stages : Stages n} (h : stages.Ending sources) (chain : Chain) :
    Lined Pipe.Idle sources (endWave n stages chain).stages.toList := by
  induction n generalizing chain sources with
  | zero =>
    cases stages
    exact h.idle
  | succ n ih =>
    cases stages with
    | cons stage rest =>
    obtain ⟨others, rfl, hstage, hrest⟩ := h.exists_of_cons
    have hended := completeStage_rests (deliver_safe n) hstage hrest chain
    have hclosed := (Stages.Ending.of_receptive hended.receptive).closeFirst
    simp only [endWave]
    split
    · exact h.idle
    · split
      · -- A command that was cut off closes nothing: the pipe behind it is still ready.
        exact .cons rfl hstage (ih (.of_receptive hrest) chain)
      · split
        · exact hended.lined
        · exact .cons hended.source hended.idle (ih hclosed _)

theorem endMoments_safe (n : Nat) {stages : Stages n} (h : stages.Ending sources)
    (chain : Chain) : ∀ m ∈ endMoments n stages chain, m.Safe sources := by
  induction n generalizing chain sources with
  | zero =>
    cases stages
    simp [endMoments]
  | succ n ih =>
    cases stages with
    | cons stage rest =>
    obtain ⟨others, rfl, hstage, hrest⟩ := h.exists_of_cons
    have hended := completeStage_rests (deliver_safe n) hstage hrest chain
    have hclosed := (Stages.Ending.of_receptive hended.receptive).closeFirst
    simp only [endMoments]
    split
    · simp
    · split
      · -- A command that was cut off closes nothing: the pipe behind it is still ready.
        exact Moment.safe_behind (ih (.of_receptive hrest) chain) rfl hstage
      · refine List.forall_mem_append.mpr
          ⟨completeMoments_safe (deliver_safe n) hstage hrest chain, ?_⟩
        split
        · simp
        · refine List.forall_mem_cons.mpr
            ⟨?_, Moment.safe_behind (ih hclosed _) hended.source hended.idle⟩
          exact Moment.safe_between (.cons hended.source hended.idle hclosed.idle) _

/-! ## After the wave -/

/-- Closing the pipe of a command and telling it to stop leaves nothing in its pipe. -/
theorem Stage.callStop_idle (stage : Stage) (h : stage.input.Idle) (chain : Chain) :
    (Stage.callStop { stage with input := stage.input.close } chain).2.1.source = stage.source
      ∧ (Stage.callStop { stage with input := stage.input.close } chain).2.1.input.Idle :=
  ⟨rfl, h.close⟩

/-- Telling the running commands to stop leaves all pipes idle. -/
theorem stopRunning_idle {stages : List Stage} (h : Lined Pipe.Idle sources stages)
    (chain : Chain) : Lined Pipe.Idle sources (stopRunning stages chain).2.1 := by
  induction stages generalizing chain sources with
  | nil => exact h
  | cons stage rest ih =>
    obtain ⟨others, rfl, hstage, hrest⟩ := h.exists_of_cons
    have htold := stage.callStop_idle hstage chain
    unfold stopRunning
    dsimp only
    split
    · generalize Stage.callStop { stage with input := stage.input.close } chain = told at htold ⊢
      obtain ⟨result, told, chain'⟩ := told
      cases result with
      | error p => exact .cons htold.1 htold.2 hrest
      | ok _ => exact .cons htold.1 htold.2 (ih hrest chain')
    · exact .cons rfl hstage.close (ih hrest chain)

theorem stopMoments_safe {stages : List Stage} (h : Lined Pipe.Idle sources stages)
    (chain : Chain) : ∀ m ∈ stopMoments stages chain, m.Safe sources := by
  induction stages generalizing chain sources with
  | nil => exact List.forall_mem_singleton.mpr (Moment.safe_between h chain)
  | cons stage rest ih =>
    obtain ⟨others, rfl, hstage, hrest⟩ := h.exists_of_cons
    have htold := stage.callStop_idle hstage chain
    have hclosed : Lined Pipe.Idle (stage.source :: others)
        ({ stage with input := stage.input.close } :: rest) := .cons rfl hstage.close hrest
    unfold stopMoments
    dsimp only
    split
    · refine List.forall_mem_cons.mpr ⟨Moment.safe_inside hclosed chain stage.id, ?_⟩
      generalize Stage.callStop { stage with input := stage.input.close } chain = told at htold ⊢
      obtain ⟨result, told, chain'⟩ := told
      cases result with
      | error p =>
        exact List.forall_mem_singleton.mpr
          (Moment.safe_between (.cons htold.1 htold.2 hrest) chain')
      | ok _ => exact Moment.safe_behind (ih hrest chain') htold.1 htold.2
    · exact Moment.safe_behind (ih hrest chain) rfl hstage.close

/-- A release leaves the pipe of its stage alone. -/
theorem Stage.release_input (stage : Stage) (chain : Chain) :
    (stage.release chain).2.1.source = stage.source
      ∧ (stage.release chain).2.1.input = stage.input := by
  have hdispose (stage : Stage) (chain : Chain) :
      (Stage.release.disposeOf stage chain).2.1.source = stage.source
        ∧ (Stage.release.disposeOf stage chain).2.1.input = stage.input := by
    obtain ⟨-, state, -, hleft⟩ := stage.disposeOf_called chain
    rw [hleft]
    exact ⟨rfl, rfl⟩
  unfold release
  split
  · have hsame : (stage.callStop chain).2.1.source = stage.source
        ∧ (stage.callStop chain).2.1.input = stage.input := ⟨rfl, rfl⟩
    generalize stage.callStop chain = told at hsame ⊢
    obtain ⟨result, told, chain'⟩ := told
    cases result with
    | error p => exact hsame
    | ok _ =>
      obtain ⟨hsource, hinput⟩ := hdispose { told with state := .stopped } chain'
      exact ⟨hsource.trans hsame.1, hinput.trans hsame.2⟩
  · exact hdispose stage chain

theorem Stage.releaseMoments_safe {stage : Stage} (hstage : stage.input.Idle) {rest : List Stage}
    (hrest : Lined Pipe.Idle sources rest) (chain : Chain) :
    ∀ m ∈ stage.releaseMoments rest chain, m.Safe (stage.source :: sources) := by
  obtain ⟨hsource, hinput⟩ := stage.release_input chain
  refine List.forall_mem_append.mpr ⟨?_, List.forall_mem_singleton.mpr
    (Moment.safe_between (.cons hsource (hinput ▸ hstage) hrest) _)⟩
  have hbefore : Lined Pipe.Idle (stage.source :: sources) (stage :: rest) :=
    .cons rfl hstage hrest
  split
  · refine List.forall_mem_cons.mpr ⟨Moment.safe_inside hbefore chain _, ?_⟩
    have htold : (stage.callStop chain).2.1.source = stage.source
        ∧ (stage.callStop chain).2.1.input.Idle := ⟨rfl, hstage⟩
    generalize stage.callStop chain = told at htold ⊢
    obtain ⟨result, told, chain'⟩ := told
    cases result with
    | error p => simp
    | ok _ =>
      have hlined : Lined Pipe.Idle (stage.source :: sources)
          ({ told with state := .stopped } :: rest) := .cons htold.1 htold.2 hrest
      exact List.forall_mem_singleton.mpr (Moment.safe_inside hlined chain' told.id)
  · exact List.forall_mem_singleton.mpr (Moment.safe_inside hbefore chain _)

/-- A round of releases leaves all pipes idle. -/
theorem releaseAll_lined (manager : DisposalManager) {stages : List Stage}
    (h : Lined Pipe.Idle sources stages) (chain : Chain) :
    Lined Pipe.Idle sources (manager.releaseAll Stage.releasable chain stages).items := by
  induction stages generalizing sources with
  | nil => exact h
  | cons stage rest ih =>
    obtain ⟨others, rfl, hstage, hrest⟩ := h.exists_of_cons
    by_cases hdue : (manager.releaseAll Stage.releasable chain rest).manager.isDue Stage.releasable stage
        = true
    · rw [manager.releaseAll_cons_of_due Stage.releasable chain hdue]
      obtain ⟨hsource, hinput⟩ := stage.release_input
        (manager.releaseAll Stage.releasable chain rest).surroundings
      exact .cons hsource (hinput ▸ hstage) (ih hrest)
    · rw [manager.releaseAll_cons_of_not_due Stage.releasable chain hdue]
      exact .cons rfl hstage (ih hrest)

theorem releaseMoments_safe (manager : DisposalManager) {stages : List Stage}
    (h : Lined Pipe.Idle sources stages) (chain : Chain) :
    ∀ m ∈ manager.releaseMoments chain stages, m.Safe sources := by
  induction stages generalizing sources with
  | nil => simp [DisposalManager.releaseMoments]
  | cons stage rest ih =>
    obtain ⟨others, rfl, hstage, hrest⟩ := h.exists_of_cons
    refine List.forall_mem_append.mpr ⟨Moment.safe_behind (ih hrest) rfl hstage, ?_⟩
    split
    · exact stage.releaseMoments_safe hstage (releaseAll_lined manager hrest chain) _
    · simp

/-! ## Whole runs -/

namespace Pipeline

/-- The commands of a pipeline are these, and all pipes are idle. -/
abbrev Resting (sources : List RecordSource) (p : Pipeline) : Prop :=
  Lined Pipe.Idle sources p.stages

namespace Resting

variable {p : Pipeline}

theorem releaseAll (h : p.Resting sources) : p.releaseAll.2.Resting sources :=
  releaseAll_lined p.disposal h p.chain

theorem releaseMoments (h : p.Resting sources) : ∀ m ∈ p.releaseMoments, m.Safe sources :=
  List.forall_mem_append.mpr ⟨releaseMoments_safe p.disposal h p.chain,
    List.forall_mem_singleton.mpr (Moment.safe_between (releaseAll h) _)⟩

theorem reportCleanup (h : p.Resting sources) (faults : List CleanupFault) :
    (p.reportCleanup faults).Resting sources := by
  induction faults generalizing p with
  | nil => exact h
  | cons fault rest ih => exact ih (p := { p with chain := _ }) h

theorem complete (h : p.Resting sources) : p.complete.2.Resting sources :=
  reportCleanup (releaseAll h) p.releaseAll.1

theorem drop (h : p.Resting sources) : p.drop.Resting sources := by
  unfold Pipeline.drop
  split
  · exact h
  · exact releaseAll h

end Resting

/-- The steps of a run leave all pipes idle, however they end. -/
theorem steps_idle (input : Option (List Value)) {stages : Stages n} (h : stages.Receptive sources)
    (chain : Chain) : Lined Pipe.Idle sources (steps input stages chain).stages.toList := by
  have hbegun := beginAll_receptive n (bindAll_receptive input.isSome h chain)
    (bindAll input.isSome stages chain).2
  unfold steps
  dsimp only
  split
  · exact hbegun.idle
  · have hfed := feedHead_ending input hbegun
      (beginAll n (bindAll input.isSome stages chain).1 (bindAll input.isSome stages chain).2).chain
    split
    · exact hfed.idle
    · exact endWave_idle n hfed _

theorem stepMoments_safe (input : Option (List Value)) {stages : Stages n}
    (h : stages.Receptive sources) (chain : Chain) :
    ∀ m ∈ stepMoments input stages chain, m.Safe sources := by
  have hbound := bindAll_receptive input.isSome h chain
  have hbegun := beginAll_receptive n hbound (bindAll input.isSome stages chain).2
  unfold stepMoments
  refine List.forall_mem_append.mpr ⟨bindMoments_safe input.isSome h chain, ?_⟩
  refine List.forall_mem_append.mpr ⟨beginMoments_safe n hbound _, ?_⟩
  split
  · simp
  · refine List.forall_mem_append.mpr ⟨feedHeadMoments_safe input hbegun _, ?_⟩
    split
    · simp
    · exact endMoments_safe n (feedHead_ending input hbegun _) _

section

variable {p : Pipeline} (h : Lined Pipe.Ready sources p.stages) (input : Option (List Value))
include h

/-- A pipeline whose pipes are ready gives a row whose pipes are. -/
theorem receptive_ofList : (Stages.ofList p.stages).Receptive sources := by
  rw [Stages.Receptive, Stages.toList_ofList]
  exact h

/-- A run leaves all pipes idle. -/
theorem run_resting : (p.run input).2.Resting sources := by
  have hran := steps_idle input (receptive_ofList h) p.chain
  unfold Pipeline.run
  dsimp only
  generalize steps input (.ofList p.stages) p.chain = ran at hran ⊢
  split
  · exact hran
  · have hstopped := stopRunning_idle hran ran.chain
    generalize stopRunning ran.stages.toList ran.chain = stopped at hstopped ⊢
    obtain ⟨outcome, stages, chain⟩ := stopped
    cases outcome with
    | error e => exact hstopped
    | ok _ =>
      exact Resting.complete (p := { p with stages := stages, chain := chain }) hstopped

theorem runMoments_safe : ∀ m ∈ p.runMoments input, m.Safe sources := by
  have hran := steps_idle input (receptive_ofList h) p.chain
  refine List.forall_mem_append.mpr ⟨List.forall_mem_append.mpr
    ⟨stepMoments_safe input (receptive_ofList h) p.chain, ?_⟩,
    List.forall_mem_singleton.mpr (Moment.safe_between (run_resting h input) _)⟩
  generalize steps input (.ofList p.stages) p.chain = ran at hran ⊢
  split
  · simp
  · refine List.forall_mem_append.mpr ⟨stopMoments_safe hran ran.chain, ?_⟩
    have hstopped := stopRunning_idle hran ran.chain
    generalize stopRunning ran.stages.toList ran.chain = stopped at hstopped ⊢
    obtain ⟨outcome, stages, chain⟩ := stopped
    cases outcome with
    | error e => simp
    | ok _ =>
      exact Resting.releaseMoments (p := { p with stages := stages, chain := chain }) hstopped

theorem moments_safe : ∀ m ∈ p.moments input, m.Safe sources := by
  have hrun := run_resting h input
  refine List.forall_mem_append.mpr ⟨List.forall_mem_append.mpr ⟨runMoments_safe h input, ?_⟩,
    List.forall_mem_singleton.mpr (Moment.safe_between (Resting.drop hrun) _)⟩
  split
  · simp
  · exact Resting.releaseMoments hrun

end

end Pipeline

/-! ## Refusals -/

/-- The engine refuses a write with a fault only where it comes too early. -/
theorem Legal.wrote_fault {set : Setting} {journal : List Event} (h : Legal set [] journal)
    {id : CommandId} {f : CommandFault} (hwrote : .wrote id (.fault f) ∈ journal) :
    f = ⟨true, writeInBegin⟩ := by
  obtain ⟨past, steps, rest, rfl, hmove, hwrote⟩ := h.exists_move hwrote
  cases hmove with
  | tooEarly i v hcut =>
    simp only [List.mem_cons, reduceCtorEq, List.not_mem_nil, or_false, false_or,
      Event.wrote.injEq, CallResult.terminating, CallResult.fault.injEq] at hwrote
    exact hwrote.2
  | wrote i result hresult =>
    obtain ⟨-, rfl⟩ : id = i ∧ CallResult.fault f = result := by simpa using hwrote
    exact absurd rfl (hresult f)
  | offered position v r offer handover hv hhalt hoffer hover =>
    cases hoffer <;> cases hover <;> simp at hwrote
  | settled i phase result completed block honce hcalled hclear hblock =>
    cases hblock <;> simp at hwrote
  | onceAborted i result block honce hcalled hblock => cases hblock <;> simp at hwrote
  | onceEnded i result completed block parameters honce hcalled hblock =>
    cases hblock <;> simp at hwrote
  | _ => simp at hwrote

/-- The refusal of a pipe is of a kind that the engine does not make itself. -/
theorem PipeError.isForeign (refusal : PipeError) {e : ErrorRecord}
    (h : e.errorId = refusal.fault.error.errorId) : e.IsForeign := by
  have hid : e.errorId = "PipeFailure" := h
  refine ⟨fun err => ?_, fun kind => ?_, ?_⟩ <;> rw [hid]
  · cases err <;> simp [BindingError.errorId]
  · show "PipeFailure" ≠ "ActionPreferenceStop"
    decide
  · decide

section

variable (settings : ChainSettings) (host : StopToken) (flags : StopFlags)
  (specs : List CommandSpec) (tokens : List StopToken) (input : Option (List Value))

namespace Pipeline

/-- The pipes of a new pipeline are ready. -/
theorem stagesFrom_ready (position : Nat) :
    ∀ stage ∈ stagesFrom settings position specs, stage.input.Ready := by
  induction specs generalizing position with
  | nil => simp [stagesFrom]
  | cons spec rest ih =>
    exact List.forall_mem_cons.mpr ⟨⟨⟨rfl, rfl⟩, rfl⟩, ih (position + 1)⟩

/-- **Pipes are safe.** At every moment of every run, whatever its commands do, the commands of the
chain stand in their order and their pipes are as they should be: all of them rest between lifecycle
calls and inside hooks, a write is accepted and its record is the only one that waits, and the wave that
ends the chain finds no record. No hook takes a step and none is entered but at such a moment. So no
command receives the refusal of a pipe, no error of that kind is on the timeline but where a command or
its dispose hook describes one, and in the end all that was written to a pipe has been read. -/
theorem pipes_safe :
    (∀ m ∈ ((build settings host flags specs).signaled tokens).moments input,
        m.Safe ((build settings host flags specs).stages.map Stage.source))
      ∧ Covers (((build settings host flags specs).signaled tokens).moments input) []
        (((build settings host flags specs).signaled tokens).invoke input).2.chain.journal
      ∧ (∀ id f, .wrote id (.fault f) ∈
          (((build settings host flags specs).signaled tokens).invoke input).2.chain.journal →
        f = ⟨true, writeInBegin⟩)
      ∧ (∀ o, (((build settings host flags specs).signaled tokens).invoke input).1 = .ok o →
        ∀ e ∈ o.errors, ∀ refusal : PipeError, e.errorId = refusal.fault.error.errorId →
          (∃ described ∈ (((build settings host flags specs).signaled tokens).invoke
              input).2.chain.journal.filterMap Event.described?, described.errorId = e.errorId)
            ∨ ∃ d ∈ (disposals
                (((build settings host flags specs).signaled tokens).wind input).2.chain.flags
                (((build settings host flags specs).signaled tokens).wind input).2.stages).1,
              ∃ f, d.result = .ok (some f) ∧ f.error.errorId = e.errorId)
      ∧ ∀ stage ∈ (((build settings host flags specs).signaled tokens).invoke input).2.stages,
        stage.input.Idle := by
  have hready : Lined Pipe.Ready ((build settings host flags specs).stages.map Stage.source)
      ((build settings host flags specs).signaled tokens).stages :=
    ⟨rfl, stagesFrom_ready settings specs 0⟩
  have hlegal := legal_journal settings host flags specs tokens input
  refine ⟨moments_safe hready input, ?_, ?_, ?_, ?_⟩
  · refine Covers.trans ?_ (invoke_covers _ input)
    show Covers _ [] ((build settings host flags specs).chain.signalAll tokens).journal
    rw [Chain.journal_signalAll]
    exact Chain.signals_covers [] tokens
  · intro id f hwrote
    exact hlegal.wrote_fault hwrote
  · intro o ho e he refusal hid
    exact Outcome.described_of_isForeign (errors_of_invoke settings host flags specs tokens input ho)
      he (refusal.isForeign hid)
  · exact (Resting.drop (run_resting hready input)).pipes

end Pipeline

end

/-- A command without parameters that writes an object too early and two in time, and describes an
error like the refusal of a pipe when it ends. -/
def Command.hasty : Command where
  name := "hasty"
  parameters := []
  Memory := Unit
  fresh := ()
  begin _ _ := .write (.int 0) fun _ => .done .ok
  process _ _ := .write (.int 1) fun _ => .write (.int 2) .done
  finish _ _ := .done (.nonTerminating { message := "no room", errorId := "PipeFailure" })

/-- Two such commands, the second of which reports the objects that it is given. -/
def hastyPair : List CommandSpec :=
  [{ command := .hasty }, { command := .hasty, bindingErrors := some .nonTerminating }]

/-- The fault with which a write of a command was refused at a step. -/
def Event.refusal? (id : CommandId) : Event → Option CommandFault
  | .wrote i (.fault f) => if i = id then some f else none
  | _ => none

theorem Event.refusal?_eq_some {e : Event} {id : CommandId} {f : CommandFault} :
    e.refusal? id = some f ↔ e = .wrote id (.fault f) := by
  constructor
  · intro h
    unfold refusal? at h
    split at h
    · obtain ⟨rfl, hf⟩ := Option.ite_none_right_eq_some.mp h
      rw [Option.some.inj hf]
    · cases h
  · rintro rfl
    exact if_pos rfl

/-- The object that the first command writes too early is refused, the other two go through the pipe of
the second command, and the errors of that kind are those that the commands describe. -/
theorem Pipeline.pipes_safe_hasty :
    (∃ m ∈ ((build {} ⟨0, []⟩ ⟨1, []⟩ hastyPair).signaled []).moments none,
        m.stages.map (fun stage => stage.input.pending) = [0, 1]
          ∧ m.Safe ((build {} ⟨0, []⟩ ⟨1, []⟩ hastyPair).stages.map Stage.source))
      ∧ (Covers (((build {} ⟨0, []⟩ ⟨1, []⟩ hastyPair).signaled []).moments none) []
          (((build {} ⟨0, []⟩ ⟨1, []⟩ hastyPair).signaled []).invoke none).2.chain.journal
        ∧ ((((build {} ⟨0, []⟩ ⟨1, []⟩ hastyPair).signaled []).invoke none).2.chain.journal.filterMap
          Event.entered?).map CommandId.number = [0, 0, 1, 1, 0, 0, 0, 0, 1, 1, 1, 1])
      ∧ (∃ f, .wrote ⟨0⟩ (.fault f) ∈
          (((build {} ⟨0, []⟩ ⟨1, []⟩ hastyPair).signaled []).invoke none).2.chain.journal
        ∧ f = ⟨true, writeInBegin⟩)
      ∧ (∃ o, (((build {} ⟨0, []⟩ ⟨1, []⟩ hastyPair).signaled []).invoke none).1 = .ok o
        ∧ ∃ e ∈ o.errors, e.errorId = PipeError.full.fault.error.errorId
          ∧ ((∃ described ∈ (((build {} ⟨0, []⟩ ⟨1, []⟩ hastyPair).signaled []).invoke
              none).2.chain.journal.filterMap Event.described?, described.errorId = e.errorId)
            ∨ ∃ d ∈ (disposals
                (((build {} ⟨0, []⟩ ⟨1, []⟩ hastyPair).signaled []).wind none).2.chain.flags
                (((build {} ⟨0, []⟩ ⟨1, []⟩ hastyPair).signaled []).wind none).2.stages).1,
              ∃ f, d.result = .ok (some f) ∧ f.error.errorId = e.errorId))
      ∧ (((build {} ⟨0, []⟩ ⟨1, []⟩ hastyPair).signaled []).invoke none).2.stages.map
          (fun stage => (stage.input.written, stage.input.read)) = [(0, 0), (2, 2)]
      ∧ ∀ stage ∈ (((build {} ⟨0, []⟩ ⟨1, []⟩ hastyPair).signaled []).invoke none).2.stages,
        stage.input.Idle := by
  obtain ⟨hmoments, hcovers, hwrote, herrors, hpipes⟩ :=
    pipes_safe {} ⟨0, []⟩ ⟨1, []⟩ hastyPair [] none
  have hpassing : (((build {} ⟨0, []⟩ ⟨1, []⟩ hastyPair).signaled []).moments none).any (fun m =>
      m.stages.map (fun stage => stage.input.pending) == [0, 1]) = true := by decide +kernel
  have hrefused : (((build {} ⟨0, []⟩ ⟨1, []⟩ hastyPair).signaled []).invoke none).2.chain.journal.any
      (fun e => (e.refusal? ⟨0⟩).isSome) = true := by decide +kernel
  have hids : (((build {} ⟨0, []⟩ ⟨1, []⟩ hastyPair).signaled []).invoke none).1.toOption.map
      (fun o => o.errors.map ErrorRecord.errorId) = some ["NoParameterAcceptsInput",
        "NoParameterAcceptsInput", "PipeFailure", "PipeFailure"] := by decide +kernel
  refine ⟨?_, ⟨hcovers, by decide +kernel⟩, ?_, ?_, by decide +kernel, hpipes⟩
  · obtain ⟨m, hm, hpending⟩ := List.any_eq_true.mp hpassing
    exact ⟨m, hm, beq_iff_eq.mp hpending, hmoments m hm⟩
  · obtain ⟨e, he, hwritten⟩ := List.any_eq_true.mp hrefused
    obtain ⟨f, hf⟩ := Option.isSome_iff_exists.mp hwritten
    obtain rfl := Event.refusal?_eq_some.mp hf
    exact ⟨f, he, hwrote ⟨0⟩ f he⟩
  · cases ho : (((build {} ⟨0, []⟩ ⟨1, []⟩ hastyPair).signaled []).invoke none).1 with
    | error p =>
      rw [ho] at hids
      cases hids
    | ok o =>
      rw [ho] at hids
      have hids : o.errors.map ErrorRecord.errorId = _ := Option.some.inj hids
      have hmem : "PipeFailure" ∈ o.errors.map ErrorRecord.errorId := by
        rw [hids]
        simp
      obtain ⟨e, he, hid⟩ := List.mem_map.mp hmem
      exact ⟨o, rfl, e, he, hid, herrors o ho e he .full hid⟩

end CommandChain
