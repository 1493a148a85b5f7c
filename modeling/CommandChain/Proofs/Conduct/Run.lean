import CommandChain.Proofs.Conduct.Start
/-!
# The course of a run

Feeding keeps all stages waiting, and the wave that ends a chain takes the stages one by one out of
the row of those that wait. `Setting.Course` collects what holds of the steps of a run as a whole,
whether a panic cut them short or not.
-/

namespace CommandChain

variable {set : Setting} {n k position : Nat} {journal : List Event}

/-! ## Feeding the first command -/

/-- The object that a step feeds. -/
def Event.fed? : Event → Option Value
  | feeding v => some v
  | _ => none

/-- The objects that the host fed, in order. -/
def Journal.feeds (journal : List Event) : List Value :=
  journal.filterMap Event.fed?

@[simp] theorem Journal.feeds_append (journal block : List Event) :
    feeds (journal ++ block) = feeds journal ++ feeds block := by
  simp [feeds]

/-- A journal has grown by steps of a run up to the end of the last command, and these objects were
fed in them. -/
def Journal.GrowsTo (journal journal' : List Event) (values : List Value) : Prop :=
  ∃ block, journal' = journal ++ block ∧ (∀ e ∈ block, e.isParting = false) ∧ feeds block = values

namespace Journal.GrowsTo

variable {journal' journal'' : List Event} {values later : List Value}

theorem refl (journal : List Event) : GrowsTo journal journal [] :=
  ⟨[], (List.append_nil _).symm, by simp, rfl⟩

theorem trans (h : GrowsTo journal journal' values) (h' : GrowsTo journal' journal'' later) :
    GrowsTo journal journal'' (values ++ later) := by
  obtain ⟨block, rfl, hrun, rfl⟩ := h
  obtain ⟨block', rfl, hrun', rfl⟩ := h'
  exact ⟨block ++ block', List.append_assoc .., fun e he =>
    (List.mem_append.mp he).elim (hrun e) (hrun' e), feeds_append ..⟩

/-- What happens from a position on feeds nothing. -/
theorem of_from (h : ∃ block, journal' = journal ++ block ∧ ∀ e ∈ block, e.From position) :
    GrowsTo journal journal' [] := by
  obtain ⟨block, hgrown, hfrom⟩ := h
  refine ⟨block, hgrown, fun e he => ?_, List.filterMap_eq_nil_iff.mpr fun e he => ?_⟩
  · have := hfrom e he
    cases e <;> first | rfl | exact this.elim
  · have := hfrom e he
    cases e <;> first | rfl | exact this.elim

end Journal.GrowsTo

/-- Feeding the objects of the host keeps all stages waiting, and it feeds them in order until it
stops. -/
theorem feedObjects_steady (values : List Value) (stages : Stages n) (chain : Chain)
    (hflowing : set.Flowing chain.journal) (hpending : chain.pendingStop = none)
    (h : set.Steady 0 chain.journal stages chain) :
    set.Steady 0 (feedObjects values stages chain).chain.journal
        (feedObjects values stages chain).stages (feedObjects values stages chain).chain
      ∧ ∃ fed, fed <+: values
        ∧ Journal.GrowsTo chain.journal (feedObjects values stages chain).chain.journal fed := by
  induction values generalizing stages chain with
  | nil => exact ⟨h, [], List.nil_prefix, .refl _⟩
  | cons v values ih =>
    unfold feedObjects
    by_cases hstop : (chain.isHalted || chain.inputCut.isSome) = true
    · simp only [hstop, if_true]
      exact ⟨h, [], List.nil_prefix, .refl _⟩
    simp only [hstop, Bool.false_eq_true, if_false]
    rw [Bool.not_eq_true, Bool.or_eq_false_iff, h.tracks.halted, h.tracks.cutAny] at hstop
    have hlogged := h.tracks.log (e := .feeding v) rfl
    obtain ⟨hpushed, -⟩ := deliver_pushes set n 0 stages _ chain.journal v
      ((chain.log (.feeding v)).emit (.object v) .host).1 _ h.legal (hlogged.emit (.object v) .host)
      (by rw [Chain.journal_emit, Chain.journal_log, List.append_assoc]; rfl) (.host v _ hstop.2)
      rfl rfl hstop.1 hflowing hpending h.count h.waits
    have hcalm := fun result => deliver_calm n stages
      ((chain.log (.feeding v)).emit (.object v) .host).2
      ((chain.log (.feeding v)).emit (.object v) .host).1 result hpending
    generalize deliver n stages _ _ = pushed at hpushed hcalm ⊢
    obtain ⟨block, hgrown, hwithin⟩ := hpushed.grown
    -- The push itself feeds nothing more: it happens in the row.
    have hfed : Journal.GrowsTo chain.journal pushed.chain.journal [v] :=
      Journal.GrowsTo.trans ⟨_, rfl, by simp [Event.isParting], rfl⟩
        (.of_from ⟨block, hgrown, fun e he => (hwithin e he).from⟩)
    cases hout : pushed.outcome with
    | error p => exact ⟨hpushed.refl, [v], ⟨values, rfl⟩, hfed⟩
    | ok result =>
      have hflowing : set.Flowing pushed.chain.journal := by
        rw [hgrown, List.append_assoc]
        exact hflowing.append _
      obtain ⟨hsteady, fed, hprefix, hlater⟩ := ih pushed.stages pushed.chain hflowing
        (hcalm result hout) hpushed.refl
      exact ⟨hsteady, v :: fed, List.cons_prefix_cons.mpr ⟨rfl, hprefix⟩, hfed.trans hlater⟩

/-- When objects flow and the chain is not halting, the first command runs. -/
theorem Setting.Steady.head_running {stage : Stage} {rest : Stages n} {chain : Chain}
    (h : set.Steady 0 journal (.cons stage rest) chain) (hflowing : set.Flowing chain.journal)
    (hhalt : set.isHalted chain.journal = false) : stage.state.isRunning = true := by
  rcases h.waits.1.toIdle.state_cases with hs | hs | hs
  · exact hs
  · have hcount := h.count
    obtain ⟨j, hj, -⟩ := hflowing 0 (by omega) (h.waits.1.state ▸ hs)
    exact absurd hj (Nat.not_lt_zero j)
  · rw [h.legal.halted_of_failed hs] at hhalt
    cases hhalt

/-- The first of the stages is idle, and those behind it wait for objects. -/
def Stages.Ready (set : Setting) (journal : List Event) (position : Nat) {n : Nat} :
    Stages n → Prop
  | nil => True
  | cons stage rest =>
    stage.Idle set journal position ∧ rest.Holds (Stage.Waits set journal) (position + 1)

/-- Stages that wait for objects are ready for the wave. -/
theorem Stages.Holds.ready {stages : Stages n}
    (h : stages.Holds (Stage.Waits set journal) position) : stages.Ready set journal position := by
  cases stages with
  | nil => trivial
  | cons stage rest => exact ⟨h.1.toIdle, h.2⟩

/-- Stages that are ready for the wave stand at their places. -/
theorem Stages.Ready.placed {stages : Stages n} (h : stages.Ready set journal position) :
    stages.Holds (Stage.Placed set journal) position := by
  cases stages with
  | nil => trivial
  | cons stage rest => exact ⟨h.1.toPlaced, h.2.mono fun _ _ _ _ hw => hw.toPlaced⟩

/-- Closing the pipe of the first stage leaves it idle. -/
theorem Stages.Holds.ready_closeFirst {stages : Stages n}
    (h : stages.Holds (Stage.Waits set journal) position) :
    stages.closeFirst.Ready set journal position := by
  cases stages with
  | nil => trivial
  | cons stage rest =>
    exact ⟨⟨⟨h.1.position, h.1.command, h.1.state⟩, h.1.slot, h.1.clear, h.1.bound⟩, h.2⟩

/-- The first command has been fed, and its pipe may be closed by now. -/
structure Setting.Fed (set : Setting) (input : List Value) (journal : List Event) {n : Nat}
    (ran : Ran n) : Prop where
  tracks : set.Tracks ran.chain
  legal : Legal set [] ran.chain.journal
  grown : ∃ fed, fed <+: input ∧ Journal.GrowsTo journal ran.chain.journal fed
  ready : ran.stages.Ready set ran.chain.journal 0
  head : set.hostInput = false → set.isHalted ran.chain.journal = false → n ≠ 0 →
    ran.outcome = .ok () → Journal.state ran.chain.journal ⟨0⟩ ≠ .began

/-- A running command that has processed nothing has only begun. -/
theorem CommandState.eq_began_of_isRunning {state : CommandState} (h : state.isRunning = true)
    (hfresh : state ≠ .processing) : state = .began := by
  cases state <;> first | rfl | exact absurd rfl hfresh | cases h

/-- A first command that processes in place of being fed goes on waiting, and it does not process
again at its end. -/
theorem processHead_steady {stages : Stages n} {chain : Chain}
    (h : set.Steady 0 journal stages chain) (hflowing : set.Flowing chain.journal)
    (hpending : chain.pendingStop = none)
    (hfresh : Journal.state chain.journal ⟨0⟩ ≠ .processing)
    (hhalt : set.isHalted chain.journal = false) (hinput : set.hostInput = false) :
    set.Steady 0 journal (processHead stages chain).stages (processHead stages chain).chain
      ∧ (n ≠ 0 → Journal.state (processHead stages chain).chain.journal ⟨0⟩ ≠ .began) := by
  cases stages with
  | nil => exact ⟨h, fun hn => absurd rfl hn⟩
  | cons stage rest =>
    have hw := h.waits.1
    have hcount := h.count
    have hrunning := h.head_running hflowing hhalt
    have hbegan : Journal.state chain.journal ⟨0⟩ = .began :=
      CommandState.eq_began_of_isRunning (hw.state ▸ hrunning) hfresh
    have hcalling : set.Calling chain.journal ⟨0⟩ :=
      ⟨hflowing, h.tracks.ledger.pending.symm.trans hpending, by rw [hbegan]; rfl, hw.clear⟩
    have hcalled := h.legal.snoc
      (.head ((none : Option BoundParameters).getD stage.bound) hhalt hinput hcalling hbegan
        hw.bound.parameters?_eq)
    obtain ⟨inner, block, hinvoked⟩ := invoke_invoked none hw.toPlaced hw.bound
      (CommandState.entering_process hrunning) rfl (deliver_calm _) (.inr (deliver_pushes set _ 1))
      (.inr hflowing) h.tracks hpending hcalled (by omega) h.waits.2
    simp only [processHead]
    generalize invoke (deliver _) stage rest chain .process none none = ran at hinvoked ⊢
    generalize (none : Option BoundParameters).getD stage.bound = parameters at hinvoked
    have honce : set.processesOnce ⟨0⟩ = false := by
      rw [Setting.processesOnce, hinput]
      simp
    refine ⟨h.trans (hinvoked.steady_process hw (by omega) honce), fun _ hagain => ?_⟩
    · rw [hinvoked.journal, List.append_assoc] at hagain
      have hstate := hw.toPlaced.state_called (CommandState.entering_process hrunning) parameters none
      -- The call has left the state it found, and commands do not begin twice.
      rcases Journal.began_of_append hagain with hs | hs <;> rw [hstate] at hs <;> cases hs

/-- When feeding is over, all stages wait, and the pipe of the first is closed where the run goes
on. -/
theorem Setting.Steady.fed {fed ran : Ran n} {input : List Value}
    (h : set.Steady 0 fed.chain.journal fed.stages fed.chain)
    (hgrown : ∃ values, values <+: input ∧ Journal.GrowsTo journal fed.chain.journal values)
    (hhead : set.hostInput = false → n ≠ 0 → Journal.state fed.chain.journal ⟨0⟩ ≠ .began)
    (hran : (∃ p, ran = ⟨.error p, fed.stages, fed.chain⟩)
      ∨ ran = ⟨.ok (), fed.stages.closeFirst, fed.chain⟩) : set.Fed input journal ran := by
  rcases hran with ⟨p, rfl⟩ | rfl
  · exact ⟨h.tracks, h.legal, hgrown, h.waits.ready, by simp⟩
  · exact ⟨h.tracks, h.legal, hgrown, h.waits.ready_closeFirst, fun hno _ hn _ => hhead hno hn⟩

/-- Feeding keeps all stages waiting, but for the pipe of the first, which is closed. -/
theorem feedHead_fed {input : Option (List Value)} (hinput : set.hostInput = input.isSome)
    {stages : Stages n} {chain : Chain} (h : set.Steady 0 chain.journal stages chain)
    (hflowing : set.isHalted chain.journal = true ∨ set.Flowing chain.journal)
    (hpending : chain.pendingStop = none)
    (hfresh : Journal.state chain.journal ⟨0⟩ ≠ .processing) :
    set.Fed (input.getD []) chain.journal (feedHead input stages chain) := by
  unfold feedHead
  by_cases hskip : (chain.isHalted || n == 0) = true
  · simp only [hskip, if_true]
    refine ⟨h.tracks, h.legal, ⟨[], List.nil_prefix, .refl _⟩, h.waits.ready,
      fun _ hhalt hn _ => ?_⟩
    rw [Bool.or_eq_true, h.tracks.halted, hhalt] at hskip
    simp [hn] at hskip
  simp only [hskip, Bool.false_eq_true, if_false]
  rw [Bool.not_eq_true, Bool.or_eq_false_iff, h.tracks.halted] at hskip
  have hflowing := hflowing.resolve_left (by rw [hskip.1]; exact Bool.false_ne_true)
  cases input with
  | some values =>
    obtain ⟨hsteady, hfed⟩ := feedObjects_steady values stages chain hflowing hpending h
    refine hsteady.fed hfed (fun hno => ?_) ?_
    · rw [hinput] at hno
      cases hno
    · simp only
      split
      · exact .inl ⟨_, rfl⟩
      · exact .inr rfl
  | none =>
    obtain ⟨hsteady, hhead⟩ := processHead_steady h hflowing hpending hfresh hskip.1 hinput
    obtain ⟨block, hgrown, hwithin⟩ := hsteady.grown
    refine hsteady.refl.fed ⟨[], List.nil_prefix,
      .of_from ⟨block, hgrown, fun e he => (hwithin e he).from⟩⟩ (fun _ => hhead) ?_
    simp only
    split
    · exact .inl ⟨_, rfl⟩
    · exact .inr rfl

/-! ## The wave that ends a chain -/

/-- A command has had its turn in the wave that ends a chain. Where the chain goes on, it ended or
was given no chance to: it never began. -/
structure Setting.Ends (set : Setting) (position : Nat) (journal : List Event) {n : Nat}
    (settled : Settled n) : Prop where
  tracks : set.Tracks settled.chain
  legal : Legal set [] settled.chain.journal
  grown : ∃ block, settled.chain.journal = journal ++ block ∧ ∀ e ∈ block, e.From position
  stage : settled.stage.Placed set settled.chain.journal position
  rest : settled.rest.Holds (Stage.Waits set settled.chain.journal) (position + 1)
  ended : (∃ result, settled.outcome = .ok result) → set.isHalted settled.chain.journal = true
    ∨ Journal.state settled.chain.journal ⟨position⟩ = .created
    ∨ ∃ completed, .settled ⟨position⟩ .finish completed ∈ settled.chain.journal

/-- What happens from a position on leaves the commands before it past their turns. -/
theorem Journal.Passed.append {block : List Event} (h : Passed journal position)
    (hblock : ∀ e ∈ block, e.From position) : Passed (journal ++ block) position := by
  intro i hi
  rcases h i hi with hcreated | hcut | ⟨completed, hsettled⟩
  · rw [state_append_of_spares fun e he => (hblock e he).spares hi]
    exact .inl hcreated
  · exact .inr (.inl ( isCut_of_prefix hcut))
  · exact .inr (.inr ⟨completed, List.mem_append_left _ hsettled⟩)

/-- The commands before the next position are past their turns once that at this one is. -/
theorem Journal.Passed.succ (h : Passed journal position)
    (hturn : state journal ⟨position⟩ = .created ∨ isCut journal position = true
      ∨ ∃ completed, .settled ⟨position⟩ .finish completed ∈ journal) :
    Passed journal (position + 1) := by
  intro i hi
  rcases Nat.lt_succ_iff_lt_or_eq.mp hi with hi | rfl
  · exact h i hi
  · exact hturn

/-- A running command that may be called to end does so once. -/
theorem finishStage_ends {stage : Stage} {rest : Stages n} {chain : Chain}
    (htracks : set.Tracks chain) (hstage : stage.Placed set chain.journal position)
    (hbound : stage.Bound set position) (hpending : chain.pendingStop = none)
    (hrunning : stage.state.isRunning = true)
    (hclear : Journal.Clear chain.journal ⟨position⟩ .finish)
    (hcalled : Legal set [] (chain.journal ++ [.called ⟨position⟩ .finish stage.bound none]))
    (hflowing : set.Flowing chain.journal) (hcount : position + 1 + n = set.commands.length)
    (hrest : rest.Holds (Stage.Waits set chain.journal) (position + 1)) :
    set.Ends position chain.journal (finishStage (deliver n) stage rest chain) := by
  have henter : stage.state.entering .finish = .ok stage.state := rfl
  obtain ⟨inner, block, hinvoked⟩ := invoke_invoked none hstage hbound henter hrunning
    (deliver_calm n) (.inr (deliver_pushes set n _)) (.inr hflowing) htracks hpending hcalled hcount
    hrest
  unfold finishStage
  simp only [hrunning, if_true]
  generalize invoke (deliver n) stage rest chain .finish none none = ended at hinvoked ⊢
  generalize (none : Option BoundParameters).getD stage.bound = parameters at hinvoked
  have hposition := hinvoked.position.trans hstage.position
  have hcommand : set.commands[position]? = some ended.stage.command :=
    hinvoked.command ▸ hstage.command
  have hlegal := hinvoked.legal_once (by decide) hclear
  rcases hinvoked.outcome with ⟨p, hout, rfl⟩ | ⟨result, completed, hout, hblock, -⟩
  · simp only [hout]
    refine ⟨hinvoked.tracks, hlegal, ⟨_, hinvoked.grown, hinvoked.from_start⟩,
      ⟨hposition, hcommand, ?_⟩, hinvoked.waits, ?_⟩
    · rw [hinvoked.state, hinvoked.journal, List.dropLast_nil]
    · rintro ⟨_, hok⟩
      rw [hout] at hok
      cases hok
  · -- The stage itself is the one before the last step, which settles the call.
    have hstate : Journal.state ended.chain.journal ⟨position⟩
        = ended.stage.state.after ⟨position⟩ (.settled ⟨position⟩ .finish completed) := by
      rw [hinvoked.state, hinvoked.journal, hblock.dropLast_append, ← List.append_assoc,
        Journal.state_append _ [_], List.dropLast_concat]
      rfl
    have hsettled : .settled ⟨position⟩ .finish completed ∈ ended.chain.journal := by
      rw [hinvoked.journal]
      exact List.mem_append_right _ hblock.settled_mem
    cases completed with
    | true =>
      simp only [hout, if_true]
      refine ⟨hinvoked.tracks, hlegal, ⟨_, hinvoked.grown, hinvoked.from_start⟩,
        ⟨hposition, hcommand, ?_⟩, hinvoked.waits, fun _ => .inr (.inr ⟨_, hsettled⟩)⟩
      simp only [hstate, CommandState.after, if_true]
    | false =>
      simp only [hout, Bool.false_eq_true, if_false]
      refine ⟨hinvoked.tracks, hlegal, ⟨_, hinvoked.grown, hinvoked.from_start⟩,
        ⟨hposition, hcommand, ?_⟩, hinvoked.waits, fun _ => .inr (.inr ⟨_, hsettled⟩)⟩
      simp only [hstate, CommandState.after]

/-- What a command did before it was called to end belongs to its turn. -/
theorem Setting.Ends.after {settled : Settled n} {middle : List Event} {block : List Event}
    (h : set.Ends position middle settled) (hmiddle : middle = journal ++ block)
    (hblock : ∀ e ∈ block, e.From position) : set.Ends position journal settled := by
  obtain ⟨rest, hrest, hall⟩ := h.grown
  refine ⟨h.tracks, h.legal, ⟨block ++ rest, ?_, fun e he => ?_⟩, h.stage, h.rest, h.ended⟩
  · rw [hrest, hmiddle, List.append_assoc]
  · exact (List.mem_append.mp he).elim (hblock e) (hall e)

/-- A pipe without a record has nothing to process. -/
theorem drain_of_empty (push : Push n) (stage : Stage) (rest : Stages n) (chain : Chain)
    (h : stage.input.slot = none) :
    ∃ pipe : Pipe, pipe.slot = none
      ∧ drain push stage rest chain = ⟨.ok .ok, { stage with input := pipe }, rest, chain⟩ := by
  unfold drain Pipe.take
  simp only [h]
  by_cases hclosed : (stage.input.closed || chain.isHalted) = true
  · simp only [hclosed, if_true]
    exact ⟨stage.input, h, rfl⟩
  · simp only [hclosed, Bool.false_eq_true, if_false]
    exact ⟨stage.input.close, h, rfl⟩

/-- A command that has processed once may end right after that, if it completed that call or the chain
goes on. -/
theorem Setting.Invoked.finishStage_ends {stage : Stage} {inner block : List Event} {once : Settled n}
    {parameters : BoundParameters} {result : CallResult} {completed : Bool}
    (h : set.Invoked position .process stage
      (journal ++ [.called ⟨position⟩ .process parameters none]) once inner block)
    (hstage : stage.Idle set journal position) (honce : set.processesOnce ⟨position⟩ = true)
    (hrunning : stage.state.isRunning = true) (hflowing : set.Flowing journal)
    (hpassed : Journal.Passed journal position) (hpending : once.chain.pendingStop = none)
    (hcount : position + 1 + n = set.commands.length)
    (hblock : Settlement set ⟨position⟩ .process result completed block)
    (hverdict : set.Verdict (journal ++ [.called ⟨position⟩ .process parameters none] ++ inner)
      ⟨position⟩ .process result block)
    (hgo : completed = true ∨ set.isHalted once.chain.journal = false) :
    set.Ends position journal (finishStage (deliver n) once.stage once.rest once.chain) := by
  have hclear : Journal.Clear once.chain.journal ⟨position⟩ .finish :=
    h.clear hstage.clear (by decide) (by simp)
  have hstate : once.stage.state = .processing := by
    have hspares : ∀ e ∈ inner, e.Spares ⟨position⟩ := fun e he =>
      (h.within e he).spares (Nat.lt_succ_self position)
    rw [h.state, Journal.state_append, Journal.state_append_of_spares hspares,
      hstage.toPlaced.state_called (CommandState.entering_process hrunning)]
    cases hblock with
    | completed => rfl
    | reported f r hf hr => rfl
    | givenUp => rfl
    | failed result r hr =>
      -- A failure halts the chain, so it does not go on to this end.
      rw [h.journal, Setting.isHalted_append] at hgo
      simp at hgo
  have hcalled : Event.called ⟨position⟩ .process parameters none
      ∈ journal ++ [.called ⟨position⟩ .process parameters none] ++ inner := by
    simp
  have hfrom : ∀ e ∈ [.called ⟨position⟩ .process parameters none] ++ inner, e.From position :=
    fun e he => h.from_start e (by
      rw [List.mem_cons, List.mem_append]
      exact (List.mem_cons.mp he).imp_right .inl)
  refine Setting.Ends.after (CommandChain.finishStage_ends h.tracks
    (h.placed (by decide) hstage.toPlaced) (h.bound hstage.bound) hpending (by rw [hstate]; rfl) hclear
    ?_ ?_ hcount h.waits) h.grown h.from_start
  · rw [h.journal] at hgo hclear ⊢
    rw [List.append_assoc]
    refine h.legal.snoc (.onceEnded ⟨position⟩ result completed block _ honce ⟨_, _, hcalled⟩
      hblock hgo ?_ hverdict ?_ ?_)
    · exact fun e he => hclear e (List.mem_append_left _ he)
    · rw [List.append_assoc]
      exact hflowing.append _
    · rw [List.append_assoc]
      exact hpassed.append hfrom
  · rw [h.grown]
    exact hflowing.append _

/-- A command that has processed once ends right after that, unless it gave up or failed in a chain
that is halting by then. -/
theorem Setting.Invoked.ends_once {stage : Stage} {inner block : List Event} {once : Settled n}
    {parameters : BoundParameters}
    (h : set.Invoked position .process stage
      (journal ++ [.called ⟨position⟩ .process parameters none]) once inner block)
    (hstage : stage.Idle set journal position) (honce : set.processesOnce ⟨position⟩ = true)
    (hrunning : stage.state.isRunning = true) (hflowing : set.Flowing journal)
    (hpassed : Journal.Passed journal position)
    (hcalm : ∀ result, once.outcome = .ok result → once.chain.pendingStop = none)
    (hcount : position + 1 + n = set.commands.length) :
    set.Ends position journal (match once.outcome with
      | .error _ => once
      | .ok .ok => finishStage (deliver n) once.stage once.rest once.chain
      | .ok _ =>
        if once.chain.isHalted then once
        else finishStage (deliver n) once.stage once.rest once.chain) := by
  have hplaced := h.placed (by decide) hstage.toPlaced
  rcases h.outcome with ⟨p, hout, rfl⟩ | ⟨result, completed, hout, hblock, hverdict⟩
  · simp only [hout]
    refine ⟨h.tracks, ?_, ⟨_, h.grown, h.from_start⟩, hplaced, h.waits, ?_⟩
    · rw [h.journal, List.append_nil]
      exact h.legal
    · rintro ⟨_, hok⟩
      rw [hout] at hok
      cases hok
  -- A call that came to its end is followed by the end of the command, unless it halted the run.
  have hfinish := h.finishStage_ends hstage honce hrunning hflowing hpassed (hcalm _ hout) hcount
    hblock hverdict
  cases completed with
  | true =>
    simp only [hout, if_true]
    exact hfinish (.inl rfl)
  | false =>
    simp only [hout, Bool.false_eq_true, if_false]
    by_cases hhalt : once.chain.isHalted = true
    · simp only [hhalt, if_true]
      rw [h.tracks.halted] at hhalt
      refine ⟨h.tracks, ?_, ⟨_, h.grown, h.from_start⟩, hplaced, h.waits, fun _ => .inl hhalt⟩
      rw [h.journal] at hhalt ⊢
      exact h.legal.snoc (.onceAborted ⟨position⟩ result block honce ⟨parameters, none, by simp⟩
        hblock hhalt hverdict)
    · simp only [hhalt, Bool.false_eq_true, if_false]
      rw [h.tracks.halted, Bool.not_eq_true] at hhalt
      exact hfinish (.inr hhalt)

/-- An idle command that runs may be called. -/
theorem Stage.Idle.calling {stage : Stage} {chain : Chain}
    (hstage : stage.Idle set chain.journal position) (htracks : set.Tracks chain)
    (hflowing : set.Flowing chain.journal) (hpending : chain.pendingStop = none)
    (hrunning : stage.state.isRunning = true) : set.Calling chain.journal ⟨position⟩ :=
  ⟨hflowing, htracks.ledger.pending.symm.trans hpending, hstage.state ▸ hrunning, hstage.clear⟩

/-- A command that may be called to end ends, unless it never began. -/
theorem Stage.Idle.finishStage_ends {stage : Stage} {rest : Stages n} {chain : Chain}
    (hstage : stage.Idle set chain.journal position) (htracks : set.Tracks chain)
    (hlegal : Legal set [] chain.journal) (hhalt : set.isHalted chain.journal = false)
    (hcut : Journal.isCut chain.journal position = false) (hflowing : set.Flowing chain.journal)
    (hpending : chain.pendingStop = none) (hpassed : Journal.Passed chain.journal position)
    (hcount : position + 1 + n = set.commands.length)
    (hrest : rest.Holds (Stage.Waits set chain.journal) (position + 1)) :
    set.Ends position chain.journal (finishStage (deliver n) stage rest chain) := by
  by_cases hrunning : stage.state.isRunning = true
  · exact CommandChain.finishStage_ends htracks hstage.toPlaced hstage.bound hpending hrunning
      hstage.clear (hlegal.snoc (.finish ⟨position⟩ _ hhalt hcut hstage.clear
        (hstage.calling htracks hflowing hpending hrunning) hpassed)) hflowing hcount hrest
  · unfold finishStage
    simp only [hrunning, Bool.false_eq_true, if_false]
    refine ⟨htracks, hlegal, ⟨[], by simp, by simp⟩, hstage.toPlaced, hrest,
      fun _ => .inr (.inl ?_)⟩
    rcases hstage.state_cases with hs | hs | hs
    · exact absurd hs hrunning
    · rw [← hstage.state, hs]
    · rw [hlegal.halted_of_failed hs] at hhalt
      cases hhalt

/-- A command without input that has only begun by its turn is one that processes once. -/
theorem Stage.Idle.processesOnce {stage : Stage} (hstage : stage.Idle set journal position)
    (honce : (!stage.acceptsInput && stage.state == .began) = true)
    (hhead : position = 0 → set.hostInput = false → stage.state ≠ .began) :
    set.processesOnce ⟨position⟩ = true := by
  rw [Bool.and_eq_true, beq_iff_eq, Bool.not_eq_true', Stage.acceptsInput] at honce
  have hinput : position = 0 → set.hostInput = true := fun h0 => by
    rw [← Bool.not_eq_false]
    exact fun hno => hhead h0 hno honce.2
  rw [Setting.processesOnce, hstage.command, Option.any_some, honce.1, Bool.not_false, Bool.true_and,
    Bool.or_eq_true, bne_iff_ne, ne_eq]
  exact (Nat.eq_zero_or_pos position).symm.imp Nat.ne_of_gt hinput

/-- A command whose turn it is ends, unless it never began. -/
theorem completeStage_ends {stage : Stage} {rest : Stages n} {chain : Chain}
    (htracks : set.Tracks chain) (hlegal : Legal set [] chain.journal)
    (hstage : stage.Idle set chain.journal position)
    (hhalt : set.isHalted chain.journal = false)
    (hcut : Journal.isCut chain.journal position = false) (hflowing : set.Flowing chain.journal)
    (hpending : chain.pendingStop = none) (hpassed : Journal.Passed chain.journal position)
    (hhead : position = 0 → set.hostInput = false → stage.state ≠ .began)
    (hcount : position + 1 + n = set.commands.length)
    (hrest : rest.Holds (Stage.Waits set chain.journal) (position + 1)) :
    set.Ends position chain.journal (completeStage (deliver n) stage rest chain) := by
  -- Nothing waits in the pipe, so that draining it is only a read that finds it empty.
  obtain ⟨pipe, hslot, hdrain⟩ := drain_of_empty (deliver n) stage rest chain hstage.slot
  have hstage : Stage.Idle set chain.journal position { stage with input := pipe } :=
    ⟨⟨hstage.position, hstage.command, hstage.state⟩, hslot, hstage.clear, hstage.bound⟩
  have hgoes : chain.isHalted = false := by rw [htracks.halted, hhalt]
  have hhead : position = 0 → set.hostInput = false →
      ({ stage with input := pipe } : Stage).state ≠ .began :=
    hhead
  unfold completeStage
  simp only [hdrain, hgoes, Bool.false_eq_true, if_false]
  generalize ({ stage with input := pipe } : Stage) = piped at hstage hhead ⊢
  unfold processOnce
  by_cases honce : (!piped.acceptsInput && piped.state == .began) = true
  · simp only [honce, if_true]
    have hset := hstage.processesOnce honce hhead
    rw [Bool.and_eq_true, beq_iff_eq] at honce
    have hrunning : piped.state.isRunning = true := by
      rw [honce.2]
      rfl
    have hbegan : Journal.state chain.journal ⟨position⟩ = .began := hstage.state ▸ honce.2
    obtain ⟨inner, block, hinvoked⟩ := invoke_invoked none hstage.toPlaced hstage.bound
      (CommandState.entering_process hrunning) rfl (deliver_calm n) (.inr (deliver_pushes set n _))
      (.inr hflowing) htracks hpending
      (hlegal.snoc (.once ⟨position⟩ ((none : Option BoundParameters).getD piped.bound) hhalt hset
        (hstage.calling htracks hflowing hpending hrunning) hbegan hstage.bound.parameters?_eq)) hcount
      hrest
    exact hinvoked.ends_once hstage hset hrunning hflowing hpassed
      (fun result => invoke_calm (deliver_calm n) piped rest .process none none hpending) hcount
  · simp only [honce, Bool.false_eq_true, if_false]
    exact hstage.finishStage_ends htracks hlegal hhalt hcut hflowing hpending hpassed hcount hrest

/-- The commands from a position on have had their turns. -/
structure Setting.Ended (set : Setting) (position : Nat) (journal : List Event) {n : Nat}
    (ran : Ran n) : Prop where
  tracks : set.Tracks ran.chain
  legal : Legal set [] ran.chain.journal
  grown : ∃ block, ran.chain.journal = journal ++ block ∧ ∀ e ∈ block, e.From position
  placed : ran.stages.Holds (Stage.Placed set ran.chain.journal) position
  ended : ran.outcome = .ok () → set.isHalted ran.chain.journal = true ∨
    Journal.Passed ran.chain.journal set.commands.length

/-- The turn of a command comes before those of the commands behind it. -/
theorem Setting.Ended.cons {stage : Stage} {later : Ran n} {middle block : List Event}
    (h : set.Ended (position + 1) middle later) (hgrown : middle = journal ++ block)
    (hfrom : ∀ e ∈ block, e.From position) (hstage : stage.Placed set middle position) :
    set.Ended position journal ⟨later.outcome, .cons stage later.stages, later.chain⟩ := by
  obtain ⟨block', hgrown', hfrom'⟩ := h.grown
  refine ⟨h.tracks, h.legal, ⟨block ++ block', ?_, fun e he => ?_⟩, ⟨?_, h.placed⟩, h.ended⟩
  · rw [hgrown', hgrown, List.append_assoc]
  · exact (List.mem_append.mp he).elim (hfrom e) fun he => (hfrom' e he).mono (Nat.le_succ _)
  · rw [hgrown']
    exact hstage.append fun e he => (hfrom' e he).spares (Nat.lt_succ_self position)

/-- In a chain that goes on, every command that has begun and is not cut off has its turn to end. -/
theorem endWave_ended (n : Nat) : ∀ (position : Nat) (stages : Stages n) (chain : Chain),
    set.Tracks chain → Legal set [] chain.journal → stages.Ready set chain.journal position →
    position + n = set.commands.length → chain.pendingStop = none →
    set.isHalted chain.journal = true
      ∨ set.Flowing chain.journal ∧ Journal.Passed chain.journal position →
    (position = 0 → set.hostInput = false → set.isHalted chain.journal = false → n ≠ 0 →
      Journal.state chain.journal ⟨0⟩ ≠ .began) →
    set.Ended position chain.journal (endWave n stages chain) := by
  induction n with
  | zero =>
    intro position stages chain htracks hlegal hready hcount hpending hgoes hhead
    cases stages
    refine ⟨htracks, hlegal, ⟨[], by simp [endWave], by simp⟩, trivial, fun _ => ?_⟩
    rw [← hcount]
    exact hgoes.imp_right And.right
  | succ n ih =>
    intro position stages chain htracks hlegal hready hcount hpending hgoes hhead
    cases stages with
    | cons stage rest =>
    obtain ⟨hstage, hrest⟩ := hready
    unfold endWave
    by_cases hhalt : chain.isHalted = true
    · simp only [hhalt, if_true]
      rw [htracks.halted] at hhalt
      exact ⟨htracks, hlegal, ⟨[], by simp, by simp⟩, Stages.Ready.placed ⟨hstage, hrest⟩,
        fun _ => .inl hhalt⟩
    simp only [hhalt, Bool.false_eq_true, if_false]
    rw [htracks.halted, Bool.not_eq_true] at hhalt
    obtain ⟨hflowing, hpassed⟩ := hgoes.resolve_left (by rw [hhalt]; exact Bool.false_ne_true)
    by_cases hcut : chain.isCut stage.position = true
    · -- A command that is cut off has no turn, and nothing happens on its account.
      simp only [hcut, if_true]
      rw [htracks.cut, hstage.position] at hcut
      have hlater := ih (position + 1) rest chain htracks hlegal hrest.ready (by omega) hpending
        (.inr ⟨hflowing, hpassed.succ (.inr (.inl hcut))⟩) (fun h0 => absurd h0 (Nat.succ_ne_zero _))
      exact hlater.cons (List.append_nil _).symm (by simp) hstage.toPlaced
    simp only [hcut, Bool.false_eq_true, if_false]
    rw [htracks.cut, hstage.position, Bool.not_eq_true] at hcut
    have hturn := completeStage_ends htracks hlegal hstage hhalt hcut hflowing hpending hpassed
      (fun h0 hno => by subst h0; rw [hstage.state]; exact hhead rfl hno hhalt (Nat.succ_ne_zero n))
      (by omega) hrest
    have hcalm : ∀ result, (completeStage (deliver n) stage rest chain).outcome = .ok result → _ :=
      fun _ => completeStage_calm stage rest hpending
    generalize completeStage (deliver n) stage rest chain = turn at hturn hcalm ⊢
    obtain ⟨block, hgrown, hfrom⟩ := hturn.grown
    cases hout : turn.outcome with
    | error p =>
      exact ⟨hturn.tracks, hturn.legal, ⟨block, hgrown, hfrom⟩,
        ⟨hturn.stage, hturn.rest.mono fun _ _ _ _ hw => hw.toPlaced⟩, by simp⟩
    | ok result =>
      -- The turn adds nothing before its position, so the commands there stay past their turns.
      have hpassed' : set.isHalted turn.chain.journal = true
          ∨ set.Flowing turn.chain.journal ∧ Journal.Passed turn.chain.journal (position + 1) := by
        refine (hturn.ended ⟨result, hout⟩).imp_right fun hended => ?_
        rw [hgrown] at hended ⊢
        exact ⟨hflowing.append block, (hpassed.append hfrom).succ (hended.imp_right .inr)⟩
      have hlater := ih (position + 1) turn.rest.closeFirst turn.chain hturn.tracks hturn.legal
        hturn.rest.ready_closeFirst (by omega) (hcalm result hout) hpassed'
        (fun h0 => absurd h0 (Nat.succ_ne_zero _))
      exact hlater.cons hgrown hfrom hturn.stage

/-! ## All steps together -/

/-- A command could not be bound before any command began, and that is all that happened. -/
def Setting.FailsToBind (set : Setting) (journal journal' : List Event) : Prop :=
  ∃ k r, k < set.commands.length ∧ set.Unbindable journal ⟨k⟩ r
    ∧ journal' = journal ++ [.emitted r, .delivered r, .failed ⟨k⟩, .signaled set.stop]

/-- What holds of the steps of a run. Where no panic cut them short and the chain goes on, commands
began before objects flowed, and every command had its turn to end. -/
structure Setting.Course (set : Setting) (input : List Value) (journal : List Event) {n : Nat}
    (ran : Ran n) : Prop where
  tracks : set.Tracks ran.chain
  legal : Legal set [] ran.chain.journal
  grown : ∃ fed, fed <+: input ∧ Journal.GrowsTo journal ran.chain.journal fed
  placed : ran.stages.Holds (Stage.Placed set ran.chain.journal) 0
  bindings : (∀ k < set.commands.length, ∃ stage, set.bind k = some (.ok stage))
    ∨ set.FailsToBind journal ran.chain.journal
  ended : ran.outcome = .ok () → set.isHalted ran.chain.journal = true ∨
    set.Flowing ran.chain.journal ∧ Journal.Passed ran.chain.journal set.commands.length

/-- In a chain that is halted before any command begins, no command is called. -/
theorem Pipeline.steps_of_halted {input : Option (List Value)} {stages : Stages n} {chain : Chain}
    (h : (bindAll input.isSome stages chain).2.isHalted = true) :
    steps input stages chain = ⟨.ok (), (bindAll input.isSome stages chain).1,
      (bindAll input.isSome stages chain).2⟩ := by
  unfold steps
  generalize bindAll input.isSome stages chain = bound at h ⊢
  obtain ⟨stages, chain⟩ := bound
  simp only at h ⊢
  cases n with
  | zero =>
    cases stages
    simp [beginAll, feedHead, endWave]
  | succ n =>
    cases stages
    simp [beginAll, feedHead, endWave, h]

/-- Where all commands are bound, the steps of a run take their course. -/
theorem Pipeline.steps_of_bound {input : Option (List Value)} (hinput : set.hostInput = input.isSome)
    {stages : Stages n} {chain : Chain} (hpending : chain.pendingStop = none)
    (hjournal : Journal.Untouched chain.journal)
    (h : set.Steady 0 chain.journal (bindAll input.isSome stages chain).1 chain)
    (hchain : (bindAll input.isSome stages chain).2 = chain)
    (hall : ∀ k < set.commands.length, ∃ stage, set.bind k = some (.ok stage)) :
    set.Course (input.getD []) chain.journal (steps input stages chain) := by
  unfold steps
  generalize bindAll input.isSome stages chain = bound at h hchain ⊢
  obtain ⟨boundStages, boundChain⟩ := bound
  obtain rfl : boundChain = chain := hchain
  simp only at h ⊢
  -- The commands begin,
  have hbegun := beginAll_begun n 0 boundStages boundChain h hpending
    (fun j hj => absurd hj (Nat.not_lt_zero j)) fun k _ => hjournal.clear _ _
  have hbegunCalm := beginAll_calm n boundStages boundChain hpending
  generalize beginAll n boundStages boundChain = begun at hbegun hbegunCalm ⊢
  have hfirst : Journal.GrowsTo boundChain.journal begun.chain.journal [] :=
    .of_from (hbegun.grown.imp fun block hb => ⟨hb.1, fun e he => (hb.2 e he).1⟩)
  cases hout : begun.outcome with
  | error p =>
    simp only
    refine ⟨hbegun.tracks, hbegun.legal, ⟨[], List.nil_prefix, hfirst⟩, ?_, .inl hall,
      fun hok => ?_⟩
    · exact hbegun.waits.mono fun _ _ _ _ hw => hw.toPlaced
    · rw [hout] at hok
      cases hok
  | ok _ =>
  have hpending := hbegunCalm hout
  have hflowing : set.isHalted begun.chain.journal = true ∨ set.Flowing begun.chain.journal :=
    (hbegun.flowing hout).imp_right fun hf k hk => hf k (Nat.zero_le k) hk
  -- the head is fed,
  have hready : set.Steady 0 begun.chain.journal begun.stages begun.chain :=
    ⟨hbegun.tracks, hbegun.legal, ⟨[], by simp, by simp⟩, h.count, hbegun.waits⟩
  have hfed := feedHead_fed hinput hready hflowing hpending hbegun.fresh
  have hfedCalm := feedHead_calm input begun.stages hpending
  simp only
  generalize feedHead input begun.stages begun.chain = fed at hfed hfedCalm ⊢
  obtain ⟨values, hprefix, hfeeds⟩ := hfed.grown
  have hsecond : Journal.GrowsTo boundChain.journal fed.chain.journal values := hfirst.trans hfeeds
  have hflowing : set.isHalted fed.chain.journal = true ∨ set.Flowing fed.chain.journal := by
    obtain ⟨block, hblock, -⟩ := hfeeds
    rw [hblock]
    exact hflowing.imp set.isHalted_of_prefix (·.append block)
  cases hout : fed.outcome with
  | error p =>
    refine ⟨hfed.tracks, hfed.legal, ⟨values, hprefix, hsecond⟩, hfed.ready.placed, .inl hall,
      fun hok => ?_⟩
    rw [hout] at hok
    cases hok
  | ok _ =>
  -- and the commands end, from the head on.
  have hended := endWave_ended n 0 fed.stages fed.chain hfed.tracks hfed.legal hfed.ready h.count
    (hfedCalm hout) (hflowing.imp_right fun hf => ⟨hf, fun i hi => absurd hi (Nat.not_lt_zero i)⟩)
    fun _ hno hhalt hn => hfed.head hno hhalt hn hout
  simp only
  generalize endWave n fed.stages fed.chain = ended at hended ⊢
  obtain ⟨third, hthird, -⟩ := hended.grown
  have hfourth := hsecond.trans (.of_from hended.grown)
  rw [List.append_nil] at hfourth
  refine ⟨hended.tracks, hended.legal, ⟨values, hprefix, hfourth⟩, hended.placed, .inl hall,
    fun hok => ?_⟩
  rcases hended.ended hok with hhalted | hall
  · exact .inl hhalted
  · rw [hthird] at hall ⊢
    exact hflowing.imp set.isHalted_of_prefix fun hf => ⟨hf.append third, hall⟩

/-- The steps of a run take their course, unless a command cannot be bound. -/
theorem Pipeline.steps_course {input : Option (List Value)} (hinput : set.hostInput = input.isSome)
    {stages : Stages n} {chain : Chain} (htracks : set.Tracks chain)
    (hlegal : Legal set [] chain.journal) (hpending : chain.pendingStop = none)
    (hcount : n = set.commands.length) (hjournal : Journal.Untouched chain.journal)
    (h : stages.Holds (Stage.Built set) 0) :
    set.Course (input.getD []) chain.journal (steps input stages chain) := by
  have hbindings := bindAll_bindings htracks.ledger.adapter hjournal h
  rw [hinput] at hbindings
  have hsteps := @steps_of_bound _ _ _ hinput stages _ hpending hjournal
  have hhalted := @steps_of_halted _ input stages chain
  generalize bindAll input.isSome stages chain = bound at hbindings hsteps hhalted
  cases hbindings with
  | bound boundStages hwaits hall =>
    exact hsteps ⟨htracks, hlegal, ⟨[], by simp, by simp⟩, by omega, hwaits⟩ rfl fun k hk =>
      hall k (Nat.zero_le k) (by omega)
  | failed k stage e boundStages hk hstage hbind hearlier hplaced =>
    have htracked := htracks.fail stage { e.toRecord with phase := some .bind }
    have hj := stage.journal_fail chain { e.toRecord with phase := some .bind }
    rw [hstage.id_eq, htracks.stop] at hj
    have hunbindable : set.Unbindable chain.journal ⟨k⟩ (chain.errorRecord stage.source
        { e.toRecord with phase := some .bind, terminating := true }) :=
      ⟨hjournal, fun j hj => hearlier j (Nat.zero_le j) hj, hstage.source_eq, e, hbind, rfl⟩
    have hsignaled : set.isHalted
        (stage.fail chain { e.toRecord with phase := some .bind }).2.journal = true := by
      rw [hj, Setting.isHalted_append]
      simp
    rw [hhalted (htracked.halted.trans hsignaled)]
    refine ⟨htracked, ?_, ⟨[], List.nil_prefix, _, hj, by simp [Event.isParting], rfl⟩, hplaced,
      .inr ⟨k, _, by omega, hunbindable, hj⟩, fun _ => .inl hsignaled⟩
    rw [hj]
    exact hlegal.snoc (.failed ⟨k⟩ _ rfl hunbindable)

end CommandChain
