import CommandChain.Proofs.Conduct.Run
/-!
# After the steps of a run

However the steps of a run come to an end, what follows only tells commands to stop, disposes of
them and reports what goes wrong then. A command is told to stop where it is found running, and
from then on it is not, unless telling it panicked.
-/

namespace CommandChain

/-- The command that a step tells to stop. -/
def Event.stopped? : Event → Option CommandId
  | stopping id => some id
  | _ => none

/-- The commands that were told to stop, in order. -/
def Journal.stops (journal : List Event) : List CommandId :=
  journal.filterMap Event.stopped?

@[simp] theorem Journal.stops_append (journal block : List Event) :
    stops (journal ++ block) = stops journal ++ stops block := by
  simp [stops]

@[simp] theorem Journal.stops_signals (tokens : List StopToken) :
    stops (tokens.map .signaled) = [] := by
  simp [stops, Event.stopped?]

/-- A step that may follow the steps of a run. -/
def Event.Parting : Event → Prop
  | signaled _ | emitted _ | delivered _ | stopping _ | disposing _ => True
  | _ => False

/-- A chain has come out of another by parting steps, and these commands were told to stop. -/
structure Setting.Parts (set : Setting) (chain chain' : Chain) (stops : List CommandId) : Prop where
  tracks : set.Tracks chain'
  grown : ∃ block, chain'.journal = chain.journal ++ block ∧ Legal set chain.journal block
    ∧ (∀ e ∈ block, e.Parting) ∧ Journal.stops block = stops

variable {set : Setting}

namespace Setting.Parts

variable {chain chain' chain'' : Chain} {first second : List CommandId}

theorem refl (h : set.Tracks chain) : set.Parts chain chain [] :=
  ⟨h, [], by simp, .nil _, by simp, rfl⟩

theorem trans (h : set.Parts chain chain' first) (h' : set.Parts chain' chain'' second) :
    set.Parts chain chain'' (first ++ second) := by
  obtain ⟨block, hgrown, hlegal, hparting, hstops⟩ := h.grown
  obtain ⟨block', hgrown', hlegal', hparting', hstops'⟩ := h'.grown
  refine ⟨h'.tracks, block ++ block', ?_, ?_, fun e he => ?_, ?_⟩
  · rw [hgrown', hgrown, List.append_assoc]
  · exact hlegal.append (hgrown ▸ hlegal')
  · exact (List.mem_append.mp he).elim (hparting e) (hparting' e)
  · rw [Journal.stops_append, hstops, hstops']

/-- What a run did before it was concluded is found before that. -/
theorem mem_of_mem {e : Event} (h : set.Parts chain chain' first) (he : e ∈ chain'.journal)
    (hparting : ¬ e.Parting) : e ∈ chain.journal := by
  obtain ⟨block, hgrown, -, hall, -⟩ := h.grown
  rw [hgrown] at he
  exact (List.mem_append.mp he).resolve_right fun he => hparting (hall e he)

/-- What a run did before it was concluded is followed by the same steps, and then by parting ones. -/
theorem split {past rest : List Event} {e : Event} (h : set.Parts chain chain' first)
    (hsplit : chain'.journal = past ++ e :: rest) (hparting : ¬ e.Parting) :
    ∃ middle later, chain.journal = past ++ e :: middle ∧ rest = middle ++ later
      ∧ ∀ e ∈ later, e.Parting := by
  obtain ⟨block, hgrown, -, hall, -⟩ := h.grown
  rw [hgrown] at hsplit
  obtain ⟨middle, hsteps, hrest⟩ :=
    Journal.split_of_not_mem hsplit fun he => hparting (hall e he)
  exact ⟨middle, block, hsteps, hrest, hall⟩

/-- A step stays in the journal by parting steps. -/
theorem mem_of_mem_start {e : Event} (h : set.Parts chain chain' first) (he : e ∈ chain.journal) :
    e ∈ chain'.journal := by
  obtain ⟨block, hgrown, -⟩ := h.grown
  rw [hgrown]
  exact List.mem_append_left _ he

/-- A call that parts with a command may put notes on the timeline and signal tokens. -/
theorem of_call {e : Event} (h : set.Tracks chain) (he : e.isPlain = true)
    (hneutral : e.isNeutral = true) (hparting : e.Parting)
    (hmove : ∀ journal, Move set journal [e]) (notes : List String) (signals : List StopToken) :
    set.Parts chain (((chain.log e).noteAll notes).signalAll signals) (Journal.stops [e]) := by
  refine ⟨((h.log he hneutral).noteAll notes).signalAll signals, e :: signals.map .signaled,
    ?_, ?_, ?_, ?_⟩
  · rw [Chain.journal_signalAll, Chain.journal_noteAll, Chain.journal_log, List.append_assoc]
    rfl
  · exact .move (hmove _) (Legal.signals set _ signals)
  · rw [List.forall_mem_cons]
    exact ⟨hparting, by simp [Event.Parting]⟩
  · rw [← List.singleton_append, Journal.stops_append, Journal.stops_signals, List.append_nil]

/-- Reporting an error is a parting step behind others. -/
theorem emitError (h : set.Tracks chain) (source : RecordSource) (e : ErrorRecord)
    (hparting : chain.journal.any Event.isParting = true) :
    set.Parts chain (chain.emitError source e) [] :=
  ⟨h.emitError source e, _, chain.journal_emitError source e, .of_move (.message _ rfl hparting),
    by simp [Event.Parting], by simp [Journal.stops, Event.stopped?]⟩

theorem send (h : set.Tracks chain) (m : HostMessage) : set.Parts chain (chain.send m) [] :=
  ⟨h.send m, [], (List.append_nil _).symm, .nil _, by simp, rfl⟩

end Setting.Parts

/-! ## Telling commands to stop -/

namespace Stage

variable {chain : Chain}

/-- Telling a command to stop is a parting step, and leaves its stage in place and in its state. -/
theorem callStop_parts (stage : Stage) (h : set.Tracks chain) :
    set.Parts chain (stage.callStop chain).2.2 [stage.id]
      ∧ (stage.callStop chain).2.1.position = stage.position
      ∧ (stage.callStop chain).2.1.state = stage.state :=
  ⟨.of_call (e := .stopping stage.id) h rfl rfl trivial (fun _ => .stopping _) _ _, rfl, rfl⟩

/-- Disposing of a command is a parting step by which none is told to stop. -/
theorem callDispose_parts (stage : Stage) (h : set.Tracks chain) :
    set.Parts chain (stage.callDispose chain).2.2 [] :=
  .of_call (e := .disposing stage.id) h rfl rfl trivial (fun _ => .disposing _) _ _

end Stage

/-- The commands of the stages that are running. -/
def runningIds (stages : List Stage) : List CommandId :=
  (stages.filter (·.state.isRunning)).map Stage.id

/-- A running command at the head is the first to be told to stop. -/
theorem runningIds_cons_of_running {stage : Stage} {rest : List Stage}
    (h : stage.state.isRunning = true) :
    runningIds (stage :: rest) = stage.id :: runningIds rest := by
  simp [runningIds, h]

/-- A command at the head that does not run is not to be told to stop. -/
theorem runningIds_cons_of_idle {stage : Stage} {rest : List Stage}
    (h : stage.state.isRunning = false) : runningIds (stage :: rest) = runningIds rest := by
  simp [runningIds, h]

@[simp] theorem runningIds_append (stages rest : List Stage) :
    runningIds (stages ++ rest) = runningIds stages ++ runningIds rest := by
  simp [runningIds]

/-- The last first, a command in front of others comes after them. -/
theorem reverse_runningIds_cons (stage : Stage) (rest : List Stage) :
    (runningIds (stage :: rest)).reverse = (runningIds rest).reverse ++ runningIds [stage] := by
  cases hrunning : stage.state.isRunning with
  | true =>
    rw [runningIds_cons_of_running hrunning, runningIds_cons_of_running hrunning,
      List.reverse_cons]
    rfl
  | false =>
    rw [runningIds_cons_of_idle hrunning, runningIds_cons_of_idle hrunning]
    exact (List.append_nil _).symm

/-- Among commands none of which runs there is none to be told to stop. -/
theorem runningIds_of_idle {stages : List Stage}
    (h : ∀ stage ∈ stages, stage.state.isRunning = false) : runningIds stages = [] := by
  rw [runningIds, List.map_eq_nil_iff, List.filter_eq_nil_iff]
  intro stage hstage
  rw [h stage hstage]
  exact Bool.false_ne_true

/-- A running command is among those to be told to stop. -/
theorem mem_runningIds {stages : List Stage} {stage : Stage} (h : stage ∈ stages)
    (hrunning : stage.state.isRunning = true) : stage.id ∈ runningIds stages :=
  List.mem_map_of_mem (List.mem_filter.mpr ⟨h, hrunning⟩)

/-- Commands with identities of their own are to be told to stop once each. -/
theorem nodup_runningIds {stages : List Stage} (h : (stages.map Stage.id).Nodup) :
    (runningIds stages).Nodup :=
  h.sublist (List.filter_sublist.map _)

/-- What is left of stages that were told to stop: each is in its place, and none runs. -/
structure Stopped (stages stages' : List Stage) : Prop where
  ids : stages'.map Stage.id = stages.map Stage.id
  idle : ∀ stage ∈ stages', stage.state.isRunning = false

/-- With one more stage that stands still, stages that were told to stop are left in place and
still. -/
theorem Stopped.cons {stages stages' : List Stage} {stage stage' : Stage}
    (h : Stopped stages stages') (hid : stage'.id = stage.id)
    (hidle : stage'.state.isRunning = false) : Stopped (stage :: stages) (stage' :: stages') := by
  refine ⟨?_, List.forall_mem_cons.mpr ⟨hidle, h.idle⟩⟩
  rw [List.map_cons, List.map_cons, hid, h.ids]

/-- Telling the running commands to stop panics at one of them, which goes on running, and those
behind it are not reached. -/
structure Unwound (set : Setting) (stages : List Stage) (chain : Chain)
    (out : Except Panic Unit × List Stage × Chain) (before : List Stage) (stage : Stage)
    (after before' : List Stage) (stage' : Stage) : Prop where
  outcome : ∃ p, out.1 = .error p
  split : stages = before ++ stage :: after
  stages : out.2.1 = before' ++ stage' :: after
  earlier : Stopped before before'
  id : stage'.id = stage.id
  state : stage'.state = stage.state
  running : stage.state.isRunning = true
  parts : set.Parts chain out.2.2 (runningIds before ++ [stage.id])

/-- Telling the running commands to stop reaches all of them, unless it panics at one. -/
theorem stopRunning_parts (stages : List Stage) (chain : Chain) (h : set.Tracks chain) :
    ((stopRunning stages chain).1 = .ok () ∧ Stopped stages (stopRunning stages chain).2.1
      ∧ set.Parts chain (stopRunning stages chain).2.2
        (runningIds stages)) ∨
    ∃ before stage after before' stage', Unwound set stages chain (stopRunning stages chain) before
      stage after before' stage' := by
  induction stages generalizing chain with
  | nil => exact .inl ⟨rfl, ⟨rfl, by simp [stopRunning]⟩, .refl h⟩
  | cons stage rest ih =>
    unfold stopRunning
    by_cases hrunning : stage.state.isRunning = true
    · simp only [hrunning, if_true]
      obtain ⟨hparts, hposition, hstate⟩ :=
        Stage.callStop_parts { stage with input := stage.input.close } h
      generalize Stage.callStop { stage with input := stage.input.close } chain = told
        at hparts hposition hstate ⊢
      obtain ⟨result, told, chain'⟩ := told
      have hid : told.id = stage.id := congrArg CommandId.mk hposition
      -- A panic leaves the commands behind as they were; otherwise they are told as well.
      cases result with
      | error p =>
        refine .inr ⟨[], stage, rest, [], told, ⟨p, rfl⟩, rfl, rfl, ⟨rfl, by simp⟩, hid, hstate,
          hrunning, hparts⟩
      | ok _ =>
        have hstopped : (told.state.becomeIfAllowed .stopped).isRunning = false := by
          cases told.state <;> rfl
        rcases ih chain' hparts.tracks with
          ⟨hok, hrest, hparts'⟩ | ⟨before, s, after, before', s', hun⟩
        · refine .inl ⟨hok, hrest.cons hid hstopped, ?_⟩
          rw [runningIds_cons_of_running hrunning]
          exact hparts.trans hparts'
        · obtain ⟨hout, hsplit, hstages, hbefore, hid', hstate', hrunning', hparts'⟩ := hun
          refine .inr ⟨stage :: before, s, after,
            { told with state := told.state.becomeIfAllowed .stopped } :: before', s', hout, ?_, ?_,
            hbefore.cons hid hstopped, hid', hstate', hrunning', ?_⟩
          · rw [hsplit, List.cons_append]
          · rw [List.cons_append, ← hstages]
          · rw [runningIds_cons_of_running hrunning]
            exact hparts.trans hparts'
    · simp only [hrunning, Bool.false_eq_true, if_false]
      rw [Bool.not_eq_true] at hrunning
      rcases ih chain h with ⟨hok, hrest, hparts'⟩ | ⟨before, s, after, before', s', hun⟩
      · refine .inl ⟨hok, hrest.cons rfl hrunning, ?_⟩
        rw [runningIds_cons_of_idle hrunning]
        exact hparts'
      · obtain ⟨hout, hsplit, hstages, hbefore, hid', hstate', hrunning', hparts'⟩ := hun
        refine .inr ⟨stage :: before, s, after,
          { stage with input := stage.input.close } :: before', s', hout, ?_, ?_,
          hbefore.cons rfl hrunning, hid', hstate', hrunning', ?_⟩
        · rw [hsplit, List.cons_append]
        · rw [List.cons_append, ← hstages]
        · rw [runningIds_cons_of_idle hrunning]
          exact hparts'

/-! ## Releasing commands -/

/-- Having a command that is not running release what it holds tells no command to stop. -/
theorem Stage.disposeOf_parts (stage : Stage) {chain : Chain} (h : set.Tracks chain)
    (hidle : stage.state.isRunning = false) :
    set.Parts chain (release.disposeOf stage chain).2.2 []
      ∧ (release.disposeOf stage chain).2.1.state.isRunning = false := by
  obtain ⟨hchain, state, hstate, hleft⟩ := disposeOf_called stage chain
  rw [hchain, hleft]
  refine ⟨callDispose_parts stage h, ?_⟩
  rcases hstate with rfl | rfl
  · exact hidle
  · rfl

/-- Releasing a command tells it to stop where it is running, and leaves it so only where that
panics. -/
theorem Stage.release_parts (stage : Stage) {chain : Chain} (h : set.Tracks chain) :
    set.Parts chain (stage.release chain).2.2 (runningIds [stage])
      ∧ (stage.state.isRunning = false → (stage.release chain).2.1.state.isRunning = false) := by
  unfold release
  by_cases hrunning : stage.state.isRunning = true
  · simp only [hrunning, if_true]
    have hparts := (callStop_parts stage h).1
    rw [runningIds_cons_of_running hrunning]
    generalize stage.callStop chain = told at hparts ⊢
    obtain ⟨result, told, chain'⟩ := told
    cases result with
    | error p => exact ⟨hparts, by simp⟩
    | ok _ =>
      obtain ⟨hparts', hidle⟩ :=
        disposeOf_parts { told with state := .stopped } hparts.tracks rfl
      exact ⟨hparts.trans hparts', fun _ => hidle⟩
  · simp only [hrunning, Bool.false_eq_true, if_false]
    rw [Bool.not_eq_true] at hrunning
    rw [runningIds_cons_of_idle hrunning]
    obtain ⟨hparts, hidle⟩ := disposeOf_parts stage h hrunning
    exact ⟨hparts, fun _ => hidle⟩

/-- A release is in the journal, whatever comes of it. -/
theorem Stage.release_parting (stage : Stage) (chain : Chain) :
    (stage.release chain).2.2.journal.any Event.isParting = true := by
  have hdispose (stage : Stage) (chain : Chain) :
      (release.disposeOf stage chain).2.2.journal.any Event.isParting = true := by
    rw [(disposeOf_called stage chain).1, callDispose, Chain.journal_signalAll,
      Chain.journal_noteAll, Chain.journal_log]
    simp [Event.isParting]
  have hstop : (stage.callStop chain).2.2.journal.any Event.isParting = true := by
    rw [callStop, Chain.journal_signalAll, Chain.journal_noteAll, Chain.journal_log]
    simp [Event.isParting]
  unfold release
  split
  · generalize stage.callStop chain = told at hstop ⊢
    obtain ⟨result, told, chain'⟩ := told
    cases result with
    | error p => exact hstop
    | ok _ => exact hdispose _ _
  · exact hdispose stage chain

/-- The round of releases tells every running command to stop, the last first, where none of them
was attempted before. -/
theorem releaseAll_parts (m : DisposalManager) (stages : List Stage) (chain : Chain)
    (h : set.Tracks chain) (hnodup : (stages.map Stage.id).Nodup)
    (hnew : ∀ id ∈ stages.map Stage.id, id ∉ m.attempted) :
    set.Parts chain (m.releaseAll Stage.releasable chain stages).surroundings
        (runningIds stages).reverse
      ∧ ∀ id ∈ (m.releaseAll Stage.releasable chain stages).manager.attempted,
        id ∈ m.attempted ∨ id ∈ stages.map Stage.id := by
  induction stages with
  | nil => exact ⟨.refl h, fun id hid => .inl hid⟩
  | cons stage rest ih =>
    rw [List.map_cons, List.nodup_cons] at hnodup
    rw [List.map_cons, List.forall_mem_cons] at hnew
    obtain ⟨hparts, hattempted⟩ := ih hnodup.2 hnew.2
    by_cases hdue : (m.releaseAll Stage.releasable chain rest).manager.isDue Stage.releasable stage = true
    · rw [m.releaseAll_cons_of_due Stage.releasable chain hdue]
      generalize m.releaseAll Stage.releasable chain rest = later at hparts hattempted ⊢
      have hparts' := (Stage.release_parts stage hparts.tracks).1
      refine ⟨?_, fun id hid => ?_⟩
      · rw [reverse_runningIds_cons]
        exact hparts.trans hparts'
      · rw [List.map_cons, List.mem_cons]
        rcases List.mem_append.mp hid with hid | hid
        · exact (hattempted id hid).imp_right .inr
        · exact .inr (.inl (List.mem_singleton.mp hid))
    · rw [m.releaseAll_cons_of_not_due Stage.releasable chain hdue]
      generalize m.releaseAll Stage.releasable chain rest = later at hdue hparts hattempted ⊢
      -- No two commands share a name, so one that is not due was disposed of during the run.
      have hidle : stage.state.isRunning = false := by
        have hnotAttempted : stage.id ∉ later.manager.attempted := fun hmem =>
          (hattempted _ hmem).elim hnew.1 hnodup.1
        rw [Bool.not_eq_true, DisposalManager.isDue, Bool.not_eq_false', Bool.or_eq_true] at hdue
        rcases hdue with hdue | hdue
        · have hdisposed : stage.state = .disposed := by
            simpa [Stage.releasable, CommandState.isDisposed] using hdue
          rw [hdisposed]
          rfl
        · exact absurd (by simpa [Stage.releasable] using hdue) hnotAttempted
      rw [runningIds_cons_of_idle hidle]
      refine ⟨hparts, fun id hid => ?_⟩
      rw [List.map_cons, List.mem_cons]
      exact (hattempted id hid).imp_right .inr

/-- A round of releases tells no command to stop where none is running. -/
theorem releaseAll_idle (m : DisposalManager) (stages : List Stage) (chain : Chain)
    (h : set.Tracks chain) (hidle : ∀ stage ∈ stages, stage.state.isRunning = false) :
    set.Parts chain (m.releaseAll Stage.releasable chain stages).surroundings []
      ∧ (∀ stage ∈ (m.releaseAll Stage.releasable chain stages).items,
        stage.state.isRunning = false)
      ∧ ((m.releaseAll Stage.releasable chain stages).faults ≠ [] →
        (m.releaseAll Stage.releasable chain stages).surroundings.journal.any Event.isParting
          = true) := by
  induction stages with
  | nil => exact ⟨.refl h, by simp [DisposalManager.releaseAll], fun hne => absurd rfl hne⟩
  | cons stage rest ih =>
    rw [List.forall_mem_cons] at hidle
    obtain ⟨hparts, hitems, hfaults⟩ := ih hidle.2
    by_cases hdue : (m.releaseAll Stage.releasable chain rest).manager.isDue Stage.releasable stage = true
    · rw [m.releaseAll_cons_of_due Stage.releasable chain hdue]
      generalize m.releaseAll Stage.releasable chain rest = later at hparts hitems hfaults ⊢
      obtain ⟨hparts', hstays⟩ := Stage.release_parts stage hparts.tracks
      rw [runningIds_cons_of_idle hidle.1] at hparts'
      exact ⟨hparts.trans hparts', List.forall_mem_cons.mpr ⟨hstays hidle.1, hitems⟩,
        fun _ => stage.release_parting later.surroundings⟩
    · rw [m.releaseAll_cons_of_not_due Stage.releasable chain hdue]
      exact ⟨hparts, List.forall_mem_cons.mpr ⟨hidle.1, hitems⟩, hfaults⟩

/-! ## The end of a run -/

namespace Pipeline

variable {p : Pipeline}

/-- Reporting the faults of a cleanup takes parting steps behind others, and leaves the stages as
they are. -/
theorem reportCleanup_parts (faults : List CleanupFault) (h : set.Tracks p.chain)
    (hparting : faults ≠ [] → p.chain.journal.any Event.isParting = true) :
    set.Parts p.chain (p.reportCleanup faults).chain []
      ∧ (p.reportCleanup faults).stages = p.stages := by
  induction faults generalizing p with
  | nil => exact ⟨.refl h, rfl⟩
  | cons fault rest ih =>
    have hparting := hparting (List.cons_ne_nil fault rest)
    have hreported := Setting.Parts.emitError h (p.sourceOf fault.command) fault.error hparting
    obtain ⟨hparts, hstages⟩ := ih (p := { p with
      chain := p.chain.emitError (p.sourceOf fault.command) fault.error }) hreported.tracks
      fun _ => by rw [Chain.journal_emitError, List.any_append, hparting, Bool.true_or]
    exact ⟨hreported.trans hparts, hstages⟩

/-- A pipeline none of whose commands runs is completed without telling any to stop. Its outcome is
that of the chain as it stands then. -/
theorem complete_parts (h : set.Tracks p.chain)
    (hidle : ∀ stage ∈ p.stages, stage.state.isRunning = false) :
    ∃ chain, set.Parts p.chain chain [] ∧ set.Parts chain p.complete.2.chain []
      ∧ p.complete.1 = ⟨chain.status, chain.records, chain.fault⟩
      ∧ ∀ stage ∈ p.complete.2.stages, stage.state.isRunning = false := by
  obtain ⟨hparts, hitems, hfaults⟩ := releaseAll_idle p.disposal p.stages p.chain h hidle
  obtain ⟨hreported, hstages⟩ := reportCleanup_parts (p := p.releaseAll.2) p.releaseAll.1
    hparts.tracks hfaults
  refine ⟨_, hparts.trans hreported, .send hreported.tracks _, rfl, ?_⟩
  change ∀ stage ∈ (p.releaseAll.2.reportCleanup p.releaseAll.1).stages, _
  rw [hstages]
  exact hitems

/-- Giving up a pipeline none of whose commands runs tells no command to stop. -/
theorem drop_idle (h : set.Tracks p.chain)
    (hidle : ∀ stage ∈ p.stages, stage.state.isRunning = false) :
    set.Parts p.chain p.drop.chain [] := by
  unfold drop
  split
  · exact .refl h
  · exact (releaseAll_idle p.disposal p.stages p.chain h hidle).1

/-- Giving up a pipeline that released no command yet tells the running ones to stop. -/
theorem drop_parts (h : set.Tracks p.chain) (hfresh : p.disposal = .fresh)
    (hnodup : (p.stages.map Stage.id).Nodup) :
    set.Parts p.chain p.drop.chain (runningIds p.stages).reverse := by
  unfold drop
  split
  · next hdisposed =>
    have hidle : ∀ stage ∈ p.stages, stage.state.isRunning = false := fun stage hstage => by
      have hstate : stage.state = .disposed := by
        simpa [CommandState.isDisposed] using List.all_eq_true.mp hdisposed stage hstage
      rw [hstate]
      rfl
    rw [runningIds_of_idle hidle]
    exact .refl h
  · refine (releaseAll_parts p.disposal p.stages p.chain h hnodup fun id _ => ?_).1
    rw [hfresh]
    exact List.not_mem_nil

end Pipeline

/-- How a run concludes after its steps, and which commands it tells to stop then. -/
inductive Setting.Concludes (set : Setting) (p : Pipeline) (input : Option (List Value))
    (stages : List Stage) (chain : Chain) (outcome : Except Panic Unit) : Prop
  /-- A panic cut the steps short, and the pipeline is given up. -/
  | panicked (e : Panic) (hout : outcome = .error e) (hrun : (p.run input).1 = .error e)
    (hchain : (p.run input).2.chain = chain)
    (hdrop : set.Parts chain (p.invoke input).2.chain (runningIds stages).reverse)
  /-- Telling a command to stop panics, and the pipeline is given up. -/
  | unwound (e : Panic) (before : List Stage) (stage : Stage) (after : List Stage)
    (hout : outcome = .ok ()) (hrun : (p.run input).1 = .error e)
    (hsplit : stages = before ++ stage :: after) (hrunning : stage.state.isRunning = true)
    (hstop : set.Parts chain (p.run input).2.chain (runningIds before ++ [stage.id]))
    (hdrop : set.Parts (p.run input).2.chain (p.invoke input).2.chain
      (runningIds (stage :: after)).reverse)
  | completed (o : Outcome) (final : Chain) (hout : outcome = .ok ())
    (hrun : (p.run input).1 = .ok o) (ho : o = ⟨final.status, final.records, final.fault⟩)
    (hfinal : set.Parts chain final (runningIds stages))
    (hdrop : set.Parts final (p.invoke input).2.chain [])

/-- However the steps of a run end, it concludes in one of the ways that a run can. -/
theorem Pipeline.invoke_concludes {p : Pipeline} {input : Option (List Value)}
    (hfresh : p.disposal = .fresh)
    (htracks : set.Tracks (steps input (.ofList p.stages) p.chain).chain)
    (hnodup : ((steps input (.ofList p.stages) p.chain).stages.toList.map Stage.id).Nodup) :
    set.Concludes p input (steps input (.ofList p.stages) p.chain).stages.toList
      (steps input (.ofList p.stages) p.chain).chain
      (steps input (.ofList p.stages) p.chain).outcome := by
  have hinvoke : p.invoke input = ((p.run input).1, (p.run input).2.drop) := rfl
  generalize hran : steps input (.ofList p.stages) p.chain = ran at htracks hnodup ⊢
  obtain ⟨outcome, stages, chain⟩ := ran
  simp only at htracks hnodup ⊢
  -- A run ends by a panic in its steps, by a panic while commands are told to stop, or complete.
  cases outcome with
  | error e =>
    have hrun : p.run input = (.error e, { p with stages := stages.toList, chain := chain }) := by
      unfold run
      simp only [hran]
    refine .panicked e rfl (by rw [hrun]) (by rw [hrun]) ?_
    rw [hinvoke, hrun]
    exact drop_parts (p := { p with stages := stages.toList, chain := chain }) htracks hfresh hnodup
  | ok _ =>
    rcases stopRunning_parts stages.toList chain htracks with
      ⟨hok, hstopped, hparts⟩ | ⟨before, stage, after, before', stage', hun⟩
    · generalize hstop : stopRunning stages.toList chain = stop at hok hstopped hparts
      obtain ⟨result, left, final⟩ := stop
      simp only at hok hstopped hparts
      subst hok
      have hrun : p.run input = (.ok (complete { p with stages := left, chain := final }).1,
          (complete { p with stages := left, chain := final }).2) := by
        unfold run
        simp only [hran, hstop]
      obtain ⟨settled, hreleased, hsent, hstatus, hidle⟩ := complete_parts
        (p := { p with stages := left, chain := final }) hparts.tracks hstopped.idle
      refine .completed _ settled rfl (by rw [hrun]) hstatus ?_ ?_
      · have := hparts.trans hreleased
        rwa [List.append_nil] at this
      · rw [hinvoke, hrun]
        exact hsent.trans (drop_idle hsent.tracks hidle)
    · generalize hstop : stopRunning stages.toList chain = stop at hun
      obtain ⟨result, left, final⟩ := stop
      obtain ⟨⟨e, he⟩, hsplit, hleft, hearlier, hid, hstate, hrunning, hparts⟩ := hun
      simp only at he hleft hparts
      subst he
      have hrun : p.run input = (.error e, { p with stages := left, chain := final }) := by
        unfold run
        simp only [hran, hstop]
      refine .unwound e before stage after rfl (by rw [hrun]) hsplit hrunning ?_ ?_
      · rw [hrun]
        exact hparts
      · rw [hinvoke, hrun]
        have hids : left.map Stage.id = stages.toList.map Stage.id := by
          rw [hleft, hsplit, List.map_append, List.map_append, hearlier.ids, List.map_cons,
            List.map_cons, hid]
        have hrunning' : runningIds left = runningIds (stage :: after) := by
          rw [hleft, runningIds_append, runningIds_of_idle hearlier.idle, List.nil_append,
            runningIds_cons_of_running (hstate ▸ hrunning), runningIds_cons_of_running hrunning,
            hid]
        rw [← hrunning']
        exact drop_parts (p := { p with stages := left, chain := final }) hparts.tracks hfresh
          (hids ▸ hnodup)

end CommandChain
