import CommandChain.Proofs.Conduct.Teardown
/-!
# A round of releases

At the end of a run no command is running any more, and its release is a call of its dispose hook.
The hooks are called in turn, the last command first, and what each returns depends on its memory
and on the flags that it finds. `disposals` computes that without the chain; a round of releases adds
nothing to it but the steps in the journal and the notes on the timeline.
-/

namespace CommandChain

/-! ## What dispose hooks return -/

/-- What the dispose hook of a command returned, unless it panicked. -/
structure Disposal where
  source : RecordSource
  result : Except Panic (Option CommandFault)

/-- The error that is reported of a dispose hook which faults or panics. It is marked as one of the
cleanup, and it terminates nothing. -/
def Disposal.error? (d : Disposal) : Option ErrorRecord :=
  match d.result with
  | .ok none => none
  | .ok (some f) =>
    some { f.error with
      category := .cleanup
      terminating := false
      phase := some .dispose
      duringCleanup := true }
  | .error p =>
    some
      { message := p.releaseText
        errorId := "ReleasePanicked"
        category := .cleanup
        terminating := false
        phase := some .dispose
        duringCleanup := true }

/-- What the dispose hooks of some stages return, called in turn with the last first, and the flags
that they leave. -/
def disposals (flags : StopFlags) : List Stage → List Disposal × StopFlags
  | [] => ([], flags)
  | stage :: rest =>
    let (later, flags) := disposals flags rest
    let parting := stage.command.dispose flags stage.memory
    (later ++ [⟨stage.source, parting.result⟩], flags.signalAll parting.signals)

/-- A dispose hook signals no token that a given one listens to. -/
def Command.DisposesQuietly (stop : StopToken) (c : Command) : Prop :=
  ∀ flags memory, ∀ token ∈ (c.dispose flags memory).signals,
    (Event.signaled token).raises stop = false

/-- Signals of tokens that raise none of its flags leave a token as it reads. -/
theorem StopFlags.isSignaled_signalAll (flags : StopFlags) (tokens : List StopToken)
    {stop : StopToken} (h : ∀ token ∈ tokens, (Event.signaled token).raises stop = false) :
    (flags.signalAll tokens).isSignaled stop = flags.isSignaled stop := by
  induction tokens generalizing flags with
  | nil => rfl
  | cons token tokens ih =>
    rw [List.forall_mem_cons] at h
    rw [signalAll, List.foldl_cons, ← signalAll, ih _ h.2, isSignaled_signal]
    have hself : stop.lineage.contains token.flag = false := h.1
    rw [hself, Bool.or_false]

/-- Dispose hooks that are quiet halt nothing. -/
theorem disposals_isSignaled (flags : StopFlags) (stages : List Stage) {stop : StopToken}
    (h : ∀ stage ∈ stages, stage.command.DisposesQuietly stop) :
    (disposals flags stages).2.isSignaled stop = flags.isSignaled stop := by
  induction stages with
  | nil => rfl
  | cons stage rest ih =>
    rw [List.forall_mem_cons] at h
    rw [← ih h.2]
    exact StopFlags.isSignaled_signalAll _ _ (h.1 _ _)

/-! ## Chains that only dispose -/

/-- The command that a step disposes of. -/
def Event.disposed? : Event → Option CommandId
  | disposing id => some id
  | _ => none

/-- The commands that were disposed of, in order. -/
def Journal.disposals (journal : List Event) : List CommandId :=
  journal.filterMap Event.disposed?

@[simp] theorem Journal.disposals_append (journal block : List Event) :
    disposals (journal ++ block) = disposals journal ++ disposals block := by
  simp [disposals]

@[simp] theorem Journal.disposals_signals (tokens : List StopToken) :
    disposals (tokens.map .signaled) = [] := by
  simp [disposals, Event.disposed?]

/-- A step that may happen while commands are disposed of. -/
def Event.Clearing : Event → Prop
  | signaled _ | disposing _ => True
  | _ => False

/-- A chain has come out of another by calls of dispose hooks: these commands were disposed of, no
record was made, and these are the flags by now. -/
structure Chain.Clears (chain chain' : Chain) (ids : List CommandId) (flags : StopFlags) :
    Prop where
  grown : ∃ block, chain'.journal = chain.journal ++ block ∧ Journal.disposals block = ids
    ∧ ∀ e ∈ block, e.Clearing
  delivered : chain'.delivered = chain.delivered
  fault : chain'.fault = chain.fault
  stop : chain'.stop = chain.stop
  flags : chain'.flags = flags

namespace Chain

variable {chain chain' chain'' : Chain} {ids later : List CommandId} {flags after : StopFlags}

theorem Clears.refl (chain : Chain) : chain.Clears chain [] chain.flags :=
  ⟨⟨[], by simp, rfl, by simp⟩, rfl, rfl, rfl, rfl⟩

theorem Clears.trans (h : chain.Clears chain' ids flags) (h' : chain'.Clears chain'' later after) :
    chain.Clears chain'' (ids ++ later) after := by
  obtain ⟨block, hgrown, hids, hall⟩ := h.grown
  obtain ⟨block', hgrown', hids', hall'⟩ := h'.grown
  refine ⟨⟨block ++ block', ?_, ?_, fun e he => ?_⟩, h'.delivered.trans h.delivered,
    h'.fault.trans h.fault, h'.stop.trans h.stop, h'.flags⟩
  · rw [hgrown', hgrown, List.append_assoc]
  · rw [Journal.disposals_append, hids, hids']
  · exact (List.mem_append.mp he).elim (hall e) (hall' e)

/-- Calls of dispose hooks add no record. -/
theorem records_of_clears (h : chain.Clears chain' ids flags) : chain'.records = chain.records := by
  rw [records, records, h.delivered]

/-- Notes and signals keep what a chain is observed by, but for its flags. -/
theorem signalAll_noteAll_eq (chain : Chain) (texts : List String) (tokens : List StopToken) :
    ((chain.noteAll texts).signalAll tokens).delivered = chain.delivered
      ∧ ((chain.noteAll texts).signalAll tokens).fault = chain.fault
      ∧ ((chain.noteAll texts).signalAll tokens).stop = chain.stop
      ∧ ((chain.noteAll texts).signalAll tokens).flags = chain.flags.signalAll tokens := by
  have hnotes (chain : Chain) : (chain.noteAll texts).delivered = chain.delivered
      ∧ (chain.noteAll texts).fault = chain.fault ∧ (chain.noteAll texts).stop = chain.stop
      ∧ (chain.noteAll texts).flags = chain.flags := by
    induction texts generalizing chain with
    | nil => exact ⟨rfl, rfl, rfl, rfl⟩
    | cons text texts ih => exact ih (chain.note text)
  have hsignals (chain : Chain) : (chain.signalAll tokens).delivered = chain.delivered
      ∧ (chain.signalAll tokens).fault = chain.fault ∧ (chain.signalAll tokens).stop = chain.stop
      ∧ (chain.signalAll tokens).flags = chain.flags.signalAll tokens := by
    induction tokens generalizing chain with
    | nil => exact ⟨rfl, rfl, rfl, rfl⟩
    | cons token tokens ih => exact ih (chain.signal token)
  obtain ⟨hdelivered, hfault, hstop, hflags⟩ := hsignals (chain.noteAll texts)
  obtain ⟨hdelivered', hfault', hstop', hflags'⟩ := hnotes chain
  exact ⟨hdelivered.trans hdelivered', hfault.trans hfault', hstop.trans hstop',
    hflags.trans (by rw [hflags'])⟩

end Chain

/-! ## Releasing one command -/

/-- A command that may be disposed of is not running. -/
theorem CommandState.isRunning_of_canBecome_disposed {state : CommandState}
    (h : state.canBecome .disposed = true) : state.isRunning = false := by
  cases state <;> first | rfl | cases h

namespace Stage

variable {stage : Stage}

/-- The release of a command that is not running, and was not disposed of before, is one call of its
dispose hook. -/
theorem release_clears (h : stage.state.canBecome .disposed = true) (chain : Chain) :
    chain.Clears (stage.release chain).2.2 [stage.id] (disposals chain.flags [stage]).2
      ∧ (stage.release chain).1.error?
        = Disposal.error? ⟨stage.source,
            (stage.command.dispose chain.flags stage.memory).result⟩
      ∧ (stage.release chain).2.1.source = stage.source := by
  have hidle := CommandState.isRunning_of_canBecome_disposed h
  have hclears : chain.Clears (stage.callDispose chain).2.2 [stage.id]
      (disposals chain.flags [stage]).2 := by
    obtain ⟨hdelivered, hfault, hstop, hflags⟩ := Chain.signalAll_noteAll_eq
      (chain.log (.disposing stage.id)) (stage.command.dispose chain.flags stage.memory).notes
      (stage.command.dispose chain.flags stage.memory).signals
    refine ⟨⟨.disposing stage.id :: (stage.command.dispose chain.flags stage.memory).signals.map
      .signaled, ?_, ?_, ?_⟩, hdelivered, hfault, hstop, hflags⟩
    · rw [callDispose, Chain.journal_signalAll, Chain.journal_noteAll, Chain.journal_log,
        List.append_assoc]
      rfl
    · simp [Journal.disposals, Event.disposed?]
    · simp [Event.Clearing]
  have hstate : (stage.callDispose chain).2.1.state.become .disposed = .ok .disposed := by
    show stage.state.become .disposed = .ok .disposed
    rw [CommandState.become, if_pos h]
  have hresult : (stage.callDispose chain).1
      = (stage.command.dispose chain.flags stage.memory).result := rfl
  have hsource : (stage.callDispose chain).2.1.source = stage.source := rfl
  unfold release release.disposeOf
  simp only [hidle, Bool.false_eq_true, if_false]
  rw [← hresult]
  generalize stage.callDispose chain = called at hclears hstate hsource ⊢
  obtain ⟨result, called, chain'⟩ := called
  simp only at hclears hstate hsource ⊢
  cases result with
  | error p => exact ⟨hclears, rfl, hsource⟩
  | ok fault =>
    simp only [hstate]
    cases fault <;> exact ⟨hclears, rfl, hsource⟩

end Stage

/-! ## Releasing all commands -/

/-- The faults that a round of releases finds. -/
def cleanupFaults (disposals : List Disposal) : List CleanupFault :=
  disposals.filterMap fun d => d.error?.map (CleanupFault.mk d.source.id)

/-- Every stage was released, the last first. -/
structure Disposed (m : DisposalManager) (stages : List Stage) (chain : Chain)
    (round : ReleaseRound Stage Chain) : Prop where
  clears : chain.Clears round.surroundings (stages.map Stage.id).reverse
    (disposals chain.flags stages).2
  faults : round.faults = cleanupFaults (disposals chain.flags stages).1
  sources : round.items.map Stage.source = stages.map Stage.source
  attempted : round.manager.attempted = m.attempted ++ (stages.map Stage.id).reverse

/-- Where none was disposed of or attempted before, a round of releases calls the dispose hook of
every command once. -/
theorem releaseAll_disposed (m : DisposalManager) (stages : List Stage) (chain : Chain)
    (hidle : ∀ stage ∈ stages, stage.state.canBecome .disposed = true)
    (hnodup : (stages.map Stage.id).Nodup)
    (hnew : ∀ id ∈ stages.map Stage.id, id ∉ m.attempted) :
    Disposed m stages chain (m.releaseAll Stage.releasable chain stages) := by
  induction stages with
  | nil => exact ⟨.refl chain, rfl, rfl, (List.append_nil _).symm⟩
  | cons stage rest ih =>
    rw [List.forall_mem_cons] at hidle
    rw [List.map_cons, List.nodup_cons] at hnodup
    rw [List.map_cons, List.forall_mem_cons] at hnew
    -- The commands behind are disposed of first.
    have hlater := ih hidle.2 hnodup.2 hnew.2
    -- None of their names is this one's, so it is still due.
    have hdue : (m.releaseAll Stage.releasable chain rest).manager.isDue Stage.releasable stage
        = true := by
      have hnotDisposed : stage.state.isDisposed = false := by
        have hstate := hidle.1
        cases hs : stage.state <;> rw [hs] at hstate <;> first | rfl | cases hstate
      have hnotAttempted :
          stage.id ∉ (m.releaseAll Stage.releasable chain rest).manager.attempted := by
        rw [hlater.attempted, List.mem_append, List.mem_reverse]
        exact fun h => h.elim hnew.1 hnodup.1
      simp only [DisposalManager.isDue, Stage.releasable, hnotDisposed, Bool.false_or,
        Bool.not_eq_true', List.contains_eq_mem, decide_eq_false_iff_not]
      exact hnotAttempted
    rw [m.releaseAll_cons_of_due Stage.releasable chain hdue]
    generalize m.releaseAll Stage.releasable chain rest = later at hlater ⊢
    obtain ⟨hclears, herror, hsource⟩ := Stage.release_clears hidle.1 later.surroundings
    rw [hlater.clears.flags] at hclears herror
    refine ⟨?_, ?_, ?_, ?_⟩
    · rw [List.map_cons, List.reverse_cons]
      exact hlater.clears.trans hclears
    · show later.faults ++ ((stage.release later.surroundings).1.error?.map
        (CleanupFault.mk stage.id)).toList = _
      rw [herror, hlater.faults]
      simp only [cleanupFaults, disposals, List.filterMap_append, List.filterMap_cons,
        List.filterMap_nil]
      cases Disposal.error? _ <;> rfl
    · rw [List.map_cons, List.map_cons, hlater.sources]
      exact congrArg (· :: _) hsource
    · rw [List.map_cons, List.reverse_cons, ← List.append_assoc, ← hlater.attempted]
      rfl

/-- A round of releases finds nothing to do where every item was disposed of or attempted. -/
theorem DisposalManager.releaseAll_of_not_due {α : Type*} {ε : Type} (m : DisposalManager)
    (r : Releasable α ε) (env : ε) {items : List α} (h : ∀ item ∈ items, m.isDue r item = false) :
    m.releaseAll r env items = ⟨[], items, env, m⟩ := by
  induction items with
  | nil => rfl
  | cons item rest ih =>
    rw [List.forall_mem_cons] at h
    rw [releaseAll_cons_of_not_due m r env (by rw [ih h.2, h.1]; exact Bool.false_ne_true), ih h.2]

end CommandChain
