import CommandChain.Proofs.Conduct.Steady
/-!
# What a lifecycle call adds to the journal

The requests of a hook are answered by legal moves, a call is settled in one, and pushing an object
into a row of stages starts with the move that hands it over. The three facts depend on each other
as the functions do: a hook writes into the stages behind its command, so the last is proved by
induction on their number.
-/

namespace CommandChain

/-- A way to push records that, offered an object, hands it over and otherwise moves only within the
stages it is given. A push is not answered with a fault. -/
def Setting.Pushes (set : Setting) {n : Nat} (position : Nat) (push : Push n) : Prop :=
  ∀ (stages : Stages n) (chain : Chain) (journal : List Event) (v : Value) (r : Record)
    (offer : List Event), Legal set [] journal → set.Tracks chain → chain.journal = journal ++ offer →
    Offer journal position v r offer → r.object? = some v → r.source = set.offerer position →
    set.isHalted journal = false → set.Flowing journal → chain.pendingStop = none →
    position + n = set.commands.length → stages.Holds (Stage.Waits set journal) position →
    set.Steady position (journal ++ offer) (push stages chain r).stages (push stages chain r).chain
      ∧ ∀ f, (push stages chain r).outcome ≠ .ok (.fault f)

/-! ## Settling a call -/

/-- A settled call tells whether the chain goes on, and no more. -/
theorem settle_ne_fault (stage : Stage) (chain : Chain) (phase : Phase) (input : Option Value)
    (result : CallResult) (f : CommandFault) : (settle stage chain phase input result).1 ≠ .fault f := by
  refine settle_cases (motive := fun out => out.1 ≠ .fault f) stage chain phase input result
    (fun _ => ?_) ?_ ?_ fun _ => ?_
  all_goals simp

/-- A lifecycle call is not answered with a fault: settling it makes the fault an error. -/
theorem invoke_ne_fault {n : Nat} (push : Push n) (stage : Stage) (rest : Stages n) (chain : Chain)
    (phase : Phase) (bound : Option BoundParameters) (input : Option Value) (f : CommandFault) :
    (invoke push stage rest chain phase bound input).outcome ≠ .ok (.fault f) := by
  unfold invoke
  split
  · simp
  · dsimp only
    split
    · simp
    · intro h
      exact settle_ne_fault _ _ _ _ _ f (Except.ok.inj h)

/-- Processing a record is not answered with a fault. -/
theorem processRecord_ne_fault {n : Nat} (push : Push n) (stage : Stage) (rest : Stages n)
    (chain : Chain) (r : Record) (f : CommandFault) :
    (processRecord push stage rest chain r).outcome ≠ .ok (.fault f) := by
  unfold processRecord
  split
  · simp
  · split
    · simp
    · split
      · exact invoke_ne_fault _ _ _ _ _ _ _ f
      · dsimp only
        split <;> simp

/-- A call that returned a result has been settled. -/
structure Setting.Settles (set : Setting) (stage : Stage) (phase : Phase) (result : CallResult)
    (journal : List Event) (out : CallResult × Stage × Chain) (completed : Bool)
    (block : List Event) : Prop where
  settlement : Settlement set stage.id phase result completed block
  verdict : set.Verdict journal stage.id phase result block
  answer : out.1 = if completed then .ok else .stopped
  journal : out.2.2.journal ++ [.settled stage.id phase completed] = journal ++ block
  tracks : set.Tracks out.2.2
  stage : out.2.1
    = { stage with state := block.dropLast.foldl (CommandState.after stage.id) stage.state }

section Settling

variable {set : Setting} {chain : Chain} {stage : Stage} {phase : Phase} {input : Option Value}
  {result : CallResult}

/-- A terminating fault settles a call that is fatal to its command. -/
theorem Setting.Tracks.settles_fail (h : set.Tracks chain)
    (hsource : stage.source = set.source stage.id) (e : ErrorRecord) {journal : List Event}
    (hj : chain.journal = journal ++ [.returned stage.id phase result])
    (hverdict : ∀ block, Journal.errors block = [(set.source stage.id, { e with terminating := true })] →
      .failed stage.id ∈ block → set.Verdict journal stage.id phase result block) :
    ∃ block, set.Settles stage phase result journal
      (.stopped, (stage.fail chain e).1, (stage.fail chain e).2) false block := by
  refine ⟨_, .failed result (chain.errorRecord stage.source { e with terminating := true }) rfl,
    hverdict _ ?_ (by simp), rfl, ?_, h.fail stage e, ?_⟩
  · rw [← hsource]
    rfl
  · rw [Stage.journal_fail, hj, h.stop]
    simp only [List.append_assoc, List.cons_append, List.nil_append]
  · simp [Stage.fail, CommandState.after]

/-- Every result of a call is settled. -/
theorem settle_settles (h : set.Tracks chain) (hsource : stage.source = set.source stage.id)
    (hpreferences : set.preferences stage.id = stage.preferences)
    (hattends : chain.Attends stage.id)
    (hcall : Journal.call? chain.journal stage.id = some (phase, input))
    (hrunning : (Journal.state chain.journal stage.id).isRunning = true) :
    ∃ completed block, set.Settles stage phase result chain.journal
      (settle stage (chain.log (.returned stage.id phase result)) phase input result)
      completed block := by
  have hj : ((chain.log (.returned stage.id phase result)).takePendingStop stage.id).2.journal
      = chain.journal ++ [.returned stage.id phase result] := by
    rw [Chain.journal_takePendingStop, Chain.journal_log]
  have ht := h.returned stage.id phase result
  have htaken : ((chain.log (.returned stage.id phase result)).takePendingStop stage.id).1
      = set.escalation chain.journal stage.id := by
    rw [Chain.takePendingStop_eq, Setting.escalation, ← h.ledger.pending]
    rfl
  have hverdict {block : List Event} (herrors : Journal.errors block
      = (result.error? (set.escalation chain.journal stage.id) stage.preferences phase
        input).toList.map fun e => (set.source stage.id, e))
      (hfailed : .failed stage.id ∈ block
        ↔ result.isFatal (set.escalation chain.journal stage.id) stage.preferences = true) :
      set.Verdict chain.journal stage.id phase result block :=
    ⟨hrunning, fun p hp => hattends p (h.ledger.pending.trans hp),
      ⟨input, hcall, by rw [hpreferences]; exact herrors⟩, by rw [hpreferences]; exact hfailed⟩
  rcases htake : (chain.log (.returned stage.id phase result)).takePendingStop stage.id
    with ⟨pending, taken⟩
  rw [htake] at hj ht htaken
  simp only [settle, htake]
  cases pending with
  | some e =>
    -- The error with which the call has to end takes the place of its result.
    have hsome : set.escalation chain.journal stage.id = some e := htaken.symm
    rw [hsome] at hverdict
    exact ⟨false, ht.settles_fail hsource _ hj fun block herrors hfailed =>
      hverdict herrors (iff_of_true hfailed rfl)⟩
  | none =>
    have hnone : set.escalation chain.journal stage.id = none := htaken.symm
    rw [hnone] at hverdict
    cases result with
    | ok => exact ⟨true, _, .completed, hverdict rfl (by simp [CallResult.isFatal]), rfl,
        by simp [hj], ht, rfl⟩
    | stopped => exact ⟨false, _, .givenUp, hverdict rfl (by simp [CallResult.isFatal]), rfl,
        by simp [hj], ht, rfl⟩
    | fault f =>
      have hfatal : (CallResult.fault f).isFatal none stage.preferences
          = (f.terminating || stage.preferences.errorAction == .stop) := Bool.false_or _
      have herror : (CallResult.fault f).error? none stage.preferences phase input
          = some { f.error with
            phase := some phase
            target := f.error.target.or input
            terminating := (f.terminating || stage.preferences.errorAction == .stop)
              || f.error.terminating } := by
        rw [← hfatal]
        rfl
      by_cases hterminating : (f.terminating || stage.preferences.errorAction == .stop) = true
      · rw [hterminating] at hfatal herror
        simp only [hterminating, if_true]
        exact ⟨false, ht.settles_fail hsource _ hj fun block herrors hfailed =>
          hverdict (by rw [herrors, herror]; rfl) (iff_of_true hfailed hfatal)⟩
      · rw [Bool.not_eq_true] at hterminating
        rw [hterminating, Bool.false_or] at herror
        rw [hterminating] at hfatal
        simp only [hterminating]
        have hf : f.terminating = false := (Bool.or_eq_false_iff.mp hterminating).1
        refine ⟨true, _, .reported f (taken.errorRecord stage.source { f.error with
          phase := some phase, target := f.error.target.or input }) hf rfl, hverdict ?_ ?_, rfl, ?_,
          ht.emitError _ _, rfl⟩
        · rw [herror, ← hsource]
          rfl
        · simp [hfatal]
        · simp [hj]

end Settling

/-! ## Answering a hook -/

/-- A call is one of the command at a position. -/
structure Call.Of (set : Setting) (i : Nat) (call : Call) : Prop where
  id : call.id = ⟨i⟩
  position : call.position = i
  source : call.source = set.source ⟨i⟩
  preferences : set.preferences ⟨i⟩ = call.preferences

section Serving

variable {set : Setting} {σ : Type} {n i : Nat}

/-- A message adds a record, which the preference for its channel lets through or not. -/
theorem Setting.Steady.report {journal : List Event} {rest : Stages n} {chain : Chain}
    {position : Nat} (h : set.Steady position journal rest chain) {call : Call}
    (hof : call.Of set i) (hattends : chain.Attends call.id)
    (hcall : Journal.call? chain.journal call.id = some (call.phase, call.input)) (m : Message) :
    set.Steady position journal rest (call.report m (chain.log (.reporting call.id m))).2 := by
  have hpreferences : set.preferences call.id = call.preferences := hof.id ▸ hof.preferences
  have hreports : set.Reports chain.journal call.id m (call.record m chain) := by
    refine ⟨fun p hp => hattends p (h.tracks.ledger.pending.trans hp), ?_,
      call.phase, call.input, hcall, ?_⟩
    · rw [hof.id, ← hof.source]
      rfl
    · rw [← call.complete_eq]
      rfl
  have htracks := h.tracks.report hpreferences m
  have hj := chain.journal_report call m
  by_cases hdelivers : call.preferences.delivers m.kind = true
  · rw [if_pos hdelivers] at hj
    exact h.aside hj (.of_move (.reported _ rfl _ _ hreports (hpreferences ▸ hdelivers)))
      (by simp [Event.Within]) htracks
  · rw [if_neg hdelivers] at hj
    rw [Bool.not_eq_true] at hdelivers
    exact h.aside hj (.of_move (.silenced _ rfl _ _ hreports (hpreferences ▸ hdelivers)))
      (by simp [Event.Within]) htracks

/-- A write is answered by legal moves, and the stages behind its command go on waiting, up to a panic
in one of them. -/
structure Setting.Answers (set : Setting) (position : Nat) (journal : List Event) (id : CommandId)
    (pushed : Pushed n) : Prop where
  panicked : ∀ p, pushed.outcome = .error p →
    set.Steady position journal pushed.stages pushed.chain
  wrote : ∀ result, pushed.outcome = .ok result →
    set.Steady position journal pushed.stages (pushed.chain.log (.wrote id result))

/-- A write of a command is answered by legal moves of the stages behind it. -/
theorem Call.writeObject_answers {call : Call} {push : Push n} (hof : call.Of set i)
    (hcalm : push.Calm) (hpush : call.phase = .begin ∨ set.Pushes (i + 1) push) (v : Value)
    {rest : Stages n} {chain : Chain} (hflowing : call.phase = .begin ∨ set.Flowing chain.journal)
    (hattends : chain.Attends call.id) (h : set.Steady (i + 1) chain.journal rest chain) :
    set.Answers (i + 1) chain.journal call.id
      (call.writeObject push v rest (chain.log (.writing call.id v))) := by
  have hlogged := h.tracks.log (e := .writing call.id v) rfl
  have hj := chain.journal_log (.writing call.id v)
  -- A refused write concerns no command.
  have hrefused (result : CallResult)
      (hmove : Move set chain.journal [.writing call.id v, .wrote call.id result]) :
      set.Answers (i + 1) chain.journal call.id
        ⟨.ok result, rest, chain.log (.writing call.id v)⟩ := by
    refine ⟨by simp, fun result' hresult => ?_⟩
    cases hresult
    exact h.aside (by rw [Chain.journal_log, hj, List.append_assoc]; rfl) (.of_move hmove)
      (by simp [Event.Within]) (hlogged.log rfl)
  unfold writeObject
  by_cases hstop : call.isStopping (chain.log (.writing call.id v)) = true
  · rw [if_pos hstop]
    refine hrefused .stopped (.refused _ _ fun p hp => hattends p ?_)
    rw [h.tracks.ledger.pending, hp]
  · rw [if_neg hstop]
    rw [Bool.not_eq_true] at hstop
    have hpending : (chain.log (.writing call.id v)).pendingStop = none :=
      (hattends.of_eq rfl).none_of_not_stopping hstop
    simp only [isStopping, Bool.or_eq_false_iff] at hstop
    obtain ⟨⟨hhalt, hcut⟩, -⟩ := hstop
    rw [hlogged.halted, hj, Setting.isHalted_append, Bool.or_eq_false_iff] at hhalt
    rw [hlogged.cut, hj, Journal.isCut_append, hof.position, Bool.or_eq_false_iff] at hcut
    by_cases hbegin : call.phase = .begin
    · rw [hbegin, if_pos (beq_self_eq_true _)]
      exact hrefused (.terminating writeInBegin) (.tooEarly _ _ (by rw [hof.id]; exact hcut.1)
        (h.tracks.ledger.pending.symm.trans hpending))
    · simp only [beq_eq_false_iff_ne.mpr hbegin, Bool.false_eq_true, if_false]
      obtain ⟨hs, hanswer⟩ := hpush.resolve_left hbegin rest
        ((chain.log (.writing call.id v)).emit (.object v) call.source).2 chain.journal v
        ((chain.log (.writing call.id v)).emit (.object v) call.source).1 _ h.legal
        (hlogged.emit _ _) (by rw [Chain.journal_emit, hj, List.append_assoc])
        (by rw [hof.id]; exact .command i v _ hcut.1) rfl hof.source hhalt.1
        (hflowing.resolve_left hbegin) hpending h.count h.waits
      have hs := hs.since rfl (by simp [Event.Within])
      refine ⟨fun p _ => hs, fun result hresult => ?_⟩
      have hkept := hcalm rest ((chain.log (.writing call.id v)).emit (.object v) call.source).2
        ((chain.log (.writing call.id v)).emit (.object v) call.source).1 result hpending hresult
      exact hs.aside (Chain.journal_log _ _)
        (.of_move (.wrote _ _ (fun f hf => hanswer f (hf ▸ hresult))
          (hs.tracks.ledger.pending.symm.trans hkept)))
        (by simp [Event.Within]) (hs.tracks.log rfl)

/-- The requests of a hook are answered by legal moves, and the stages behind its command go on
waiting. Only the hook of a beginning command may come before objects flow, and it is not allowed
to write any. -/
theorem serve_steady {call : Call} {push : Push n} (hof : call.Of set i) (hcalm : push.Calm)
    (hpush : call.phase = .begin ∨ set.Pushes (i + 1) push)
    {journal : List Event} (hook : Hook σ) (memory : σ) (rest : Stages n) (chain : Chain)
    (hflowing : call.phase = .begin ∨ set.Flowing chain.journal) (hattends : chain.Attends call.id)
    (hcall : Journal.call? chain.journal ⟨i⟩ = some (call.phase, call.input))
    (h : set.Steady (i + 1) journal rest chain) :
    set.Steady (i + 1) journal (serve call push hook memory rest chain).rest
      (serve call push hook memory rest chain).chain := by
  -- What happens behind the command leaves its call the latest one.
  have goesOn {chain chain' : Chain} {block : List Event}
      (hf : call.phase = .begin ∨ set.Flowing chain.journal)
      (hc : Journal.call? chain.journal ⟨i⟩ = some (call.phase, call.input))
      (hj : chain'.journal = chain.journal ++ block) (hwithin : ∀ e ∈ block, e.Within (i + 1)) :
      (call.phase = .begin ∨ set.Flowing chain'.journal)
        ∧ Journal.call? chain'.journal ⟨i⟩ = some (call.phase, call.input) := by
    rw [hj, Journal.call?_append_of_spares fun e he => (hwithin e he).spares (Nat.lt_succ_self i)]
    exact ⟨hf.imp_right fun hf => hf.append block, hc⟩
  induction hook generalizing memory rest chain with
  | done result => exact h
  | panic p => exact h
  | store memory' next ih => exact ih memory' rest chain hflowing hattends hcall h
  | write v next ih =>
    have hanswers := Call.writeObject_answers hof hcalm hpush v hflowing hattends h.refl
    have hlogged : (chain.log (.writing call.id v)).Attends call.id := hattends.of_eq rfl
    have hkept := fun result (hok : _ = Except.ok result) =>
      call.writeObject_attends hcalm v rest hlogged hok
    unfold serve
    simp only
    generalize call.writeObject push v rest (chain.log (.writing call.id v)) = pushed
      at hanswers hkept ⊢
    obtain ⟨outcome, rest', chain'⟩ := pushed
    cases outcome with
    | error p => exact h.trans (hanswers.panicked p rfl)
    | ok result =>
      have hwrote := hanswers.wrote result rfl
      obtain ⟨block, hgrown, hwithin⟩ := hwrote.grown
      obtain ⟨hf, hc⟩ := goesOn hflowing hcall hgrown hwithin
      exact ih result memory rest' _ hf ((hkept result rfl).of_eq rfl) hc (h.trans hwrote)
  | report m next ih =>
    have hcall' : Journal.call? chain.journal call.id = some (call.phase, call.input) := by
      rw [hof.id]
      exact hcall
    obtain ⟨block, hgrown, hwithin⟩ := (h.refl.report hof hattends hcall' m).grown
    obtain ⟨hf, hc⟩ := goesOn hflowing hcall hgrown hwithin
    exact ih _ memory rest _ hf (call.report_attends hattends m) hc
      (h.report hof hattends hcall' m)
  | cutInput next ih =>
    have hj := chain.journal_cutInput call.id call.position
    obtain ⟨hf, hc⟩ := goesOn hflowing hcall hj (by simp [Event.Within])
    have hcuts : Move set chain.journal [.cut call.id] :=
      .cut _ fun p hp => hattends p (h.tracks.ledger.pending.trans hp)
    exact ih memory rest _ hf (hattends.of_eq rfl) hc (h.aside hj (.of_move hcuts)
      (by simp [Event.Within]) (by rw [hof.id, hof.position]; exact h.tracks.cutInput i))
  | askStopping next ih => exact ih _ memory rest chain hflowing hattends hcall h
  | note text next ih =>
    exact ih memory rest _ hflowing (hattends.of_eq rfl) hcall
      (h.quiet rfl (h.tracks.note text))
  | signal token next ih =>
    have hj := chain.journal_signal token
    obtain ⟨hf, hc⟩ := goesOn hflowing hcall hj (by simp [Event.Within])
    exact ih memory rest _ hf (hattends.of_eq rfl) hc (h.aside hj (.of_move (.signaled _))
      (by simp [Event.Within]) (h.tracks.signal token))
  | askSignaled token next ih => exact ih _ memory rest chain hflowing hattends hcall h
  | runChain run next ih =>
    have hj := chain.journal_absorb (run chain.flags)
    have hs : set.Steady (i + 1) journal rest (chain.absorb (run chain.flags)) :=
      h.aside hj (Legal.signals _ _ _) (by simp [Event.Within]) (h.tracks.absorb _)
    obtain ⟨hf, hc⟩ := goesOn hflowing hcall hj (by simp [Event.Within])
    unfold serve
    simp only
    cases (run chain.flags).outcome with
    | error p => exact hs
    | ok outcome =>
      exact ih outcome memory rest _ hf (hattends.of_eq (chain.pendingStop_absorb _)) hc hs

end Serving

/-! ## A lifecycle call -/

/-- What a lifecycle call leaves, given the journal up to its making: steps of the stages behind,
and, unless the hook unwinds, the steps that settle the call. Whether the command has come to its
end is left to the caller. -/
structure Setting.Invoked (set : Setting) (k : Nat) (phase : Phase) (stage : Stage)
    (start : List Event) {n : Nat} (settled : Settled n) (inner block : List Event) : Prop where
  tracks : set.Tracks settled.chain
  legal : Legal set [] (start ++ inner)
  within : ∀ e ∈ inner, e.Within (k + 1)
  journal : settled.chain.journal = start ++ inner ++ block
  waits : settled.rest.Holds (Stage.Waits set settled.chain.journal) (k + 1)
  reset : settled.stage.reset = stage.reset
  input : settled.stage.input = stage.input
  state : settled.stage.state = Journal.state (start ++ inner ++ block.dropLast) ⟨k⟩
  outcome : (∃ p, settled.outcome = .error p ∧ block = []) ∨
    ∃ result completed, settled.outcome = .ok (if completed then .ok else .stopped)
      ∧ Settlement set ⟨k⟩ phase result completed block
      ∧ set.Verdict (start ++ inner) ⟨k⟩ phase result block

/-- The journal knows the state that a command enters. -/
theorem CommandState.after_called {state next : CommandState} {phase : Phase} (id : CommandId)
    (parameters : BoundParameters) (input : Option Value) (h : state.entering phase = .ok next) :
    state.after id (.called id phase parameters input) = next := by
  cases phase <;> cases state <;> cases h <;> simp [after] <;> rfl

/-- A command that is called is known to be in the state that it enters. -/
theorem Stage.Placed.state_called {set : Setting} {journal : List Event} {k : Nat} {stage : Stage}
    {state : CommandState} {phase : Phase} (h : stage.Placed set journal k)
    (henter : stage.state.entering phase = .ok state) (parameters : BoundParameters)
    (input : Option Value) :
    Journal.state (journal ++ [.called ⟨k⟩ phase parameters input]) ⟨k⟩ = state := by
  rw [Journal.state_append, ← h.state]
  exact CommandState.after_called ⟨k⟩ parameters input henter

/-- The stages behind a command wait when it is called. -/
theorem Setting.Steady.of_called {set : Setting} {n k : Nat} {rest : Stages n} {chain : Chain}
    {phase : Phase} {parameters : BoundParameters} {input : Option Value} (htracks : set.Tracks chain)
    (hlegal : Legal set [] (chain.journal ++ [.called ⟨k⟩ phase parameters input]))
    (hcount : k + 1 + n = set.commands.length)
    (hrest : rest.Holds (Stage.Waits set chain.journal) (k + 1)) :
    set.Steady (k + 1) (chain.journal ++ [.called ⟨k⟩ phase parameters input]) rest
      (chain.log (.called ⟨k⟩ phase parameters input)) := by
  have hcalled := chain.journal_log (.called ⟨k⟩ phase parameters input)
  rw [← hcalled] at hlegal ⊢
  refine ⟨htracks.log rfl, hlegal, ⟨[], by simp, by simp⟩, hcount, ?_⟩
  rw [hcalled]
  refine hrest.mono fun i _ hi _ hw => hw.append ?_
  simp only [List.mem_singleton, forall_eq, Event.Spares, ne_eq, CommandId.mk.injEq]
  omega

/-- Once the hook of a call has been served, the settlement of its result completes the call. -/
theorem Setting.Settles.invoked {set : Setting} {n k : Nat} {σ : Type} {phase : Phase}
    {result : CallResult} {completed : Bool} {stage entered : Stage} {served : Served σ n}
    {out : CallResult × Stage × Chain} {start inner block : List Event}
    (h : set.Settles entered phase result served.chain.journal out completed block)
    (hid : entered.id = ⟨k⟩) (hreset : entered.reset = stage.reset)
    (hinput : entered.input = stage.input) (hstate : entered.state = Journal.state (start ++ inner) ⟨k⟩)
    (hserved : set.Steady (k + 1) start served.rest served.chain)
    (hinner : served.chain.journal = start ++ inner) (hwithin : ∀ e ∈ inner, e.Within (k + 1)) :
    set.Invoked k phase stage start
      ⟨.ok out.1, out.2.1, served.rest, out.2.2.log (.settled out.2.1.id phase out.1.isOk)⟩
      inner block := by
  obtain ⟨answer, settledStage, settledChain⟩ := out
  obtain ⟨hsettlement, hverdict, hanswer, hjournal, htracks, hsame⟩ := h
  dsimp only at hanswer hjournal htracks hsame ⊢
  rw [hid, hinner] at hverdict
  rw [hid] at hsettlement hjournal hsame
  have hsettled : settledStage.id = ⟨k⟩ := by
    rw [hsame]
    exact hid
  have hok : answer.isOk = completed := by
    rw [hanswer]
    cases completed <;> rfl
  have hgrown : (settledChain.log (.settled ⟨k⟩ phase answer.isOk)).journal
      = start ++ inner ++ block := by
    rw [Chain.journal_log, hok, hjournal, hinner]
  rw [hsettled]
  refine ⟨htracks.log rfl, hinner ▸ hserved.legal, hwithin, hgrown, ?_, ?_, ?_, ?_,
    .inr ⟨result, completed, congrArg Except.ok hanswer, hsettlement, hverdict⟩⟩
  · rw [hgrown, ← hinner]
    refine hserved.waits.mono fun i _ hi _ hw => hw.append (hsettlement.spares ?_)
    simp only [ne_eq, CommandId.mk.injEq]
    omega
  · rw [hsame]
    exact hreset
  · rw [hsame]
    exact hinput
  · rw [hsame, Journal.state_append, ← hstate]

/-- A lifecycle call that the engine may make adds steps of the stages behind its command and those that
settle it. -/
theorem invoke_invoked {set : Setting} {n k : Nat} {push : Push n} {stage : Stage} {rest : Stages n}
    {chain : Chain} {phase : Phase} (bound : Option BoundParameters) {input : Option Value}
    {state : CommandState} (hstage : stage.Placed set chain.journal k) (hbound : stage.Bound set k)
    (henter : stage.state.entering phase = .ok state) (hrunning : state.isRunning = true)
    (hcalm : push.Calm) (hpush : phase = .begin ∨ set.Pushes (k + 1) push)
    (hflowing : phase = .begin ∨ set.Flowing chain.journal) (htracks : set.Tracks chain)
    (hpending : chain.pendingStop = none)
    (hlegal : Legal set [] (chain.journal ++ [.called ⟨k⟩ phase (bound.getD stage.bound) input]))
    (hcount : k + 1 + n = set.commands.length)
    (hrest : rest.Holds (Stage.Waits set chain.journal) (k + 1)) :
    ∃ inner block, set.Invoked k phase stage
      (chain.journal ++ [.called ⟨k⟩ phase (bound.getD stage.bound) input])
      (invoke push stage rest chain phase bound input) inner block := by
  have hid := hstage.id_eq
  have hsource := hstage.source_eq
  have hcalled := chain.journal_log (.called ⟨k⟩ phase (bound.getD stage.bound) input)
  have hstate := hstage.state_called henter (bound.getD stage.bound) input
  have hstart := Setting.Steady.of_called htracks hlegal hcount hrest
  have hcall : Journal.call? (chain.journal ++ [.called ⟨k⟩ phase (bound.getD stage.bound) input]) ⟨k⟩
      = some (phase, input) := by
    rw [Journal.call?_append]
    exact if_pos rfl
  have hof : (Stage.call { stage with state := state } chain phase (bound.getD stage.bound)
      input).Of set k :=
    ⟨hid, hstage.position, hsource, hbound.preferences_eq⟩
  have hserved := serve_steady hof hcalm hpush (stage.command.hook
      (Stage.call { stage with state := state } chain phase (bound.getD stage.bound) input)
      stage.memory) stage.memory rest (chain.log (.called ⟨k⟩ phase (bound.getD stage.bound) input))
      (hflowing.imp_right fun hf => by rw [hcalled]; exact hf.append _)
      (Chain.attends_of_none hpending) (by rw [hcalled]; exact hcall) hstart
  have hkept := fun result (hok : _ = Except.ok result) => serve_attends
      (Stage.call { stage with state := state } chain phase (bound.getD stage.bound) input) hcalm
      (stage.command.hook
      (Stage.call { stage with state := state } chain phase (bound.getD stage.bound) input)
      stage.memory) stage.memory rest (chain.log (.called ⟨k⟩ phase (bound.getD stage.bound) input))
      (Chain.attends_of_none hpending) hok
  have hname : Stage.id { stage with state := state } = ⟨k⟩ := hid
  simp only [invoke, henter, hname]
  generalize serve _ push _ stage.memory rest _ = served at hserved hkept ⊢
  -- The stages behind the command do not touch its state, so the journal still knows it.
  obtain ⟨inner, hinner, hwithin⟩ := hserved.grown
  have hspares : ∀ e ∈ inner, e.Spares ⟨k⟩ := fun e he => (hwithin e he).spares (Nat.lt_succ_self k)
  have hspared : Journal.state (chain.journal
      ++ [.called ⟨k⟩ phase (bound.getD stage.bound) input] ++ inner) ⟨k⟩ = state := by
    rw [Journal.state_append_of_spares hspares, hstate]
  cases hout : served.outcome with
  | error p =>
    refine ⟨inner, [], hserved.tracks, hinner ▸ hserved.legal, hwithin, ?_, hserved.waits, rfl, rfl, ?_,
      .inl ⟨p, rfl, rfl⟩⟩
    · rw [hinner, List.append_nil]
    · rw [List.dropLast_nil, List.append_nil, hspared]
  | ok result =>
    have hname : Stage.id { stage with state := state, memory := served.memory } = ⟨k⟩ := hid
    obtain ⟨completed, block, hsettles⟩ := @settle_settles set served.chain
      { stage with state := state, memory := served.memory } phase input result
      hserved.tracks (by rw [hname]; exact hsource)
      (by rw [hname]; exact hbound.preferences_eq) (by rw [hname, ← hid]; exact hkept result hout)
      (by rw [hname, hinner, Journal.call?_append_of_spares hspares, hcall])
      (by rw [hname, hinner, hspared, hrunning])
    exact ⟨inner, block, hsettles.invoked hname rfl rfl hspared.symm hserved hinner hwithin⟩

namespace Setting.Invoked

variable {set : Setting} {k n : Nat} {phase : Phase} {stage : Stage}
  {start inner block : List Event} {settled : Settled n}

/-- A lifecycle call leaves its stage where it stands. -/
theorem position (h : set.Invoked k phase stage start settled inner block) :
    settled.stage.position = stage.position := by
  show settled.stage.reset.position = _
  rw [h.reset]
  rfl

/-- A lifecycle call leaves its stage the command that it has. -/
theorem command (h : set.Invoked k phase stage start settled inner block) :
    settled.stage.command = stage.command := by
  show settled.stage.reset.command = _
  rw [h.reset]
  rfl

/-- A call leaves what its command is bound to before it begins. -/
theorem bound (h : set.Invoked k phase stage start settled inner block) (hbound : stage.Bound set k) :
    settled.stage.Bound set k := by
  rw [Stage.Bound, h.reset]
  exact hbound

/-- What happens during a call and its settling happens from its command on. -/
theorem from_position (h : set.Invoked k phase stage start settled inner block) :
    ∀ e ∈ inner ++ block, e.From k := by
  intro e he
  rcases List.mem_append.mp he with he | he
  · exact (h.within e he).from.mono (Nat.le_succ k)
  · rcases h.outcome with ⟨-, -, rfl⟩ | ⟨result, completed, -, hblock, -⟩
    · cases he
    · exact hblock.from_position e he

/-- During a call objects are processed, and other than that only the call itself is settled. -/
theorem phase_eq (h : set.Invoked k phase stage start settled inner block) {e : Event}
    (he : e ∈ inner ++ block) {id : CommandId} {p : Phase} (hof : e.isOf id p = true) :
    p = .process ∨ p = phase ∧ id = ⟨k⟩ := by
  rcases List.mem_append.mp he with he | he
  · have hwithin := h.within e he
    cases e <;> simp only [Event.isOf, Bool.and_eq_true, beq_iff_eq, Bool.false_eq_true] at hof
    all_goals exact .inl (hof.2.symm.trans hwithin.1)
  · rcases h.outcome with ⟨-, -, rfl⟩ | ⟨result, completed, -, hblock, -⟩
    · cases he
    · exact .inr (hblock.phase_eq e he hof)

/-- A call is legal up to its settling, and so is the settling where a move allows it. -/
theorem legal_journal (h : set.Invoked k phase stage start settled inner block)
    (hmove : ∀ result completed, Settlement set ⟨k⟩ phase result completed block →
      set.Verdict (start ++ inner) ⟨k⟩ phase result block → Move set (start ++ inner) block) :
    Legal set [] settled.chain.journal := by
  rw [h.journal]
  rcases h.outcome with ⟨-, -, rfl⟩ | ⟨result, completed, -, hblock, hverdict⟩
  · rw [List.append_nil]
    exact h.legal
  · exact h.legal.snoc (hmove result completed hblock hverdict)

/-- Until a command has come to its end, its stage is in the state that the journal tells. -/
theorem state_eq (h : set.Invoked k phase stage start settled inner block)
    (hphase : phase ≠ .finish) : settled.stage.state = Journal.state settled.chain.journal ⟨k⟩ := by
  rw [h.state, h.journal]
  rcases h.outcome with ⟨-, -, rfl⟩ | ⟨result, completed, -, hblock, -⟩
  · rfl
  · rw [Journal.state_append, Journal.state_append _ block]
    cases hblock <;> cases phase <;> first | rfl | exact absurd rfl hphase

section

variable {journal : List Event} {parameters : BoundParameters} {input : Option Value}

/-- A lifecycle call adds to the journal that it was made, what happened behind it, and how it was
settled. -/
theorem grown (h : set.Invoked k phase stage (journal ++ [.called ⟨k⟩ phase parameters input])
    settled inner block) :
    settled.chain.journal = journal ++ (.called ⟨k⟩ phase parameters input :: (inner ++ block)) := by
  rw [h.journal]
  simp only [List.append_assoc, List.cons_append, List.nil_append]

/-- No step of a lifecycle call concerns a command before its own. -/
theorem from_start (h : set.Invoked k phase stage (journal ++ [.called ⟨k⟩ phase parameters input])
    settled inner block) :
    ∀ e ∈ Event.called ⟨k⟩ phase parameters input :: (inner ++ block), e.From k :=
  List.forall_mem_cons.mpr ⟨Nat.le_refl k, h.from_position⟩

/-- A command that was called is at its place afterwards. -/
theorem placed (h : set.Invoked k phase stage (journal ++ [.called ⟨k⟩ phase parameters input])
    settled inner block) (hphase : phase ≠ .finish) (hstage : stage.Placed set journal k) :
    settled.stage.Placed set settled.chain.journal k :=
  ⟨h.position.trans hstage.position, h.command ▸ hstage.command, h.state_eq hphase⟩

/-- A call adds no other call, but for the processing of objects. -/
theorem clear (h : set.Invoked k phase stage (journal ++ [.called ⟨k⟩ phase parameters input])
    settled inner block) {id : CommandId} {p : Phase} (hclear : Journal.Clear journal id p)
    (hp : p ≠ .process) (hother : p = phase → id ≠ ⟨k⟩) :
    Journal.Clear settled.chain.journal id p := by
  rw [h.grown, Journal.clear_append]
  refine ⟨hclear, List.forall_mem_cons.mpr ⟨?_, fun e he => ?_⟩⟩
  · rw [Bool.eq_false_iff]
    intro hof
    simp only [Event.isOf, Bool.and_eq_true, beq_iff_eq] at hof
    exact hother hof.2.symm hof.1.symm
  · rw [Bool.eq_false_iff]
    intro hof
    rcases h.phase_eq he hof with hprocess | ⟨hsame, hid⟩
    · exact hp hprocess
    · exact hother hsame hid

/-- The one call to begin or to end is settled by a legal move. -/
theorem legal_once (h : set.Invoked k phase stage
    (journal ++ [.called ⟨k⟩ phase parameters input]) settled inner block)
    (hphase : phase ≠ .process) (hclear : Journal.Clear journal ⟨k⟩ phase) :
    Legal set [] settled.chain.journal := by
  refine h.legal_journal fun result completed hb hverdict =>
    .settled ⟨k⟩ phase result completed block (fun hp => absurd hp hphase)
      ⟨parameters, input, by simp⟩ ?_ hb hverdict
  intro _ r hr
  simp only [List.mem_append, List.mem_singleton, reduceCtorEq, or_false] at hr
  rcases hr with hr | hr
  · have hnone := hclear _ hr
    simp [Event.isOf] at hnone
  · exact absurd (h.within _ hr).1 hphase

/-- A waiting stage that has processed an object waits for the next. -/
theorem steady_process (h : set.Invoked k .process stage
      (journal ++ [.called ⟨k⟩ .process parameters input]) settled inner block)
    (hstage : stage.Waits set journal k)
    (hcount : k + 1 + n = set.commands.length) (honce : set.processesOnce ⟨k⟩ = false) :
    set.Steady k journal (.cons settled.stage settled.rest) settled.chain := by
  have hblock : ∀ e ∈ block, e.Within k := by
    rcases h.outcome with ⟨-, -, rfl⟩ | ⟨result, completed, -, hblock, -⟩
    · simp
    · cases hblock <;> simp [Event.Within]
  have hwithin :
      ∀ e ∈ Event.called ⟨k⟩ .process parameters input :: (inner ++ block), e.Within k := by
    intro e he
    rcases List.mem_cons.mp he with rfl | he
    · exact ⟨rfl, Nat.le_refl k⟩
    · exact (List.mem_append.mp he).elim (fun he => (h.within e he).mono (Nat.le_succ k)) (hblock e)
  refine ⟨h.tracks, ?_, ⟨_, h.grown, hwithin⟩, by omega, ?_, h.waits⟩
  · refine h.legal_journal fun result completed hb hverdict =>
      .settled ⟨k⟩ .process result completed block (fun _ => honce) ⟨parameters, input, ?_⟩
        (fun hne => absurd rfl hne) hb hverdict
    simp
  · refine ⟨⟨h.placed (by decide) hstage.toPlaced, ?_,
      h.clear hstage.clear (by decide) (by simp), h.bound hstage.bound⟩, ?_⟩
    · rw [h.input, hstage.slot]
    · rw [h.input, hstage.opened]

end

end Setting.Invoked

/-! ## Pushing an object -/

namespace Offer

variable {set : Setting} {journal offer : List Event} {position : Nat} {v : Value} {r : Record}

/-- An offer concerns no command. -/
theorem spares (h : Offer journal position v r offer) (id : CommandId) :
    ∀ e ∈ offer, e.Spares id := by
  cases h <;> simp [Event.Spares]

/-- An offer leaves the error pending that is. -/
theorem pending_append (h : Offer journal position v r offer) :
    set.pending (journal ++ offer) = set.pending journal := by
  rw [Setting.pending_append]
  cases h <;> rfl

/-- An offer halts nothing. -/
theorem isHalted_append (h : Offer journal position v r offer) :
    set.isHalted (journal ++ offer) = set.isHalted journal := by
  rw [Setting.isHalted_append]
  cases h <;> simp [Event.raises]

end Offer

/-- A stage that is idle is running, has not begun, or has failed. -/
theorem Stage.Idle.state_cases {set : Setting} {journal : List Event} {k : Nat} {stage : Stage}
    (h : stage.Idle set journal k) :
    stage.state.isRunning = true ∨ stage.state = .created ∨ .failed ⟨k⟩ ∈ journal := by
  rw [h.state]
  rcases Journal.state_cases journal ⟨k⟩ with hs | hs | ⟨-, hs⟩ | ⟨-, hs⟩
  · exact .inr (.inl hs)
  · exact .inl hs
  · exact .inr (.inr hs)
  · exact absurd (h.clear _ hs) (by simp [Event.isOf])

/-- A running stage may be called to process. -/
theorem CommandState.entering_process {state : CommandState} (h : state.isRunning = true) :
    state.entering .process = .ok .processing := by
  cases state <;> first | rfl | cases h

/-- An object is bound only where some parameter takes values from arriving objects. -/
theorem Binder.acceptsInput_of_bindObject {binder : Binder} {bound result : BoundParameters}
    {v : Value} (h : binder.bindObject bound v = .ok result) : binder.acceptsInput = true := by
  unfold bindObject at h
  split at h
  · cases h
  · next hacc => rwa [Bool.not_eq_true', Bool.not_eq_false] at hacc

section Handover

variable {set : Setting} {n k : Nat} {stage stage' : Stage} {rest : Stages n} {chain chain' : Chain}
  {journal offer : List Event} {v : Value} {r : Record}

/-- A waiting stage whose command fails goes on waiting. -/
theorem Stage.Waits.fail (h : stage.Waits set journal k) (chain : Chain) (e : ErrorRecord)
    (r : Record) :
    (stage.fail chain e).1.Waits set
      (journal ++ [.emitted r, .delivered r, .failed ⟨k⟩, .signaled set.stop]) k := by
  refine ⟨⟨⟨h.position, h.command, ?_⟩, h.slot, ?_, h.bound⟩, h.opened⟩
  · rw [Journal.state_append, ← h.state]
    simp [CommandState.after, Stage.fail]
  · exact h.clear.append_of_within (by decide) (k := k) (by simp [Event.Within])

/-- An offer leaves stages waiting. -/
theorem Offer.waits {position : Nat} (h : Offer journal k v r offer)
    (hrest : rest.Holds (Stage.Waits set journal) position) :
    rest.Holds (Stage.Waits set (journal ++ offer)) position :=
  hrest.mono fun i _ _ _ hw => hw.append (h.spares ⟨i⟩)

/-- An object is offered to the stage of a command. The stage waits for it, and so do those behind. -/
structure Setting.Offered (set : Setting) (k : Nat) (journal offer : List Event) (v : Value)
    (r : Record) (stage : Stage) (rest : Stages n) (chain : Chain) : Prop where
  legal : Legal set [] journal
  made : Offer journal k v r offer
  object : r.object? = some v
  source : r.source = set.offerer k
  running : set.isHalted journal = false
  flowing : set.Flowing journal
  count : k + 1 + n = set.commands.length
  waits : stage.Waits set journal k
  behind : rest.Holds (Stage.Waits set journal) (k + 1)
  tracks : set.Tracks chain
  grown : chain.journal = journal ++ offer
  pending : chain.pendingStop = none

namespace Setting.Offered

/-- Nothing is pending when an object is offered. -/
theorem calm (h : set.Offered k journal offer v r stage rest chain) : set.pending journal = none := by
  rw [← h.made.pending_append, ← h.grown, ← h.tracks.ledger.pending, h.pending]

/-- An object is offered to a command of the chain. -/
theorem lt_length (h : set.Offered k journal offer v r stage rest chain) :
    k < set.commands.length := by
  have hcount := h.count
  omega

/-- The offer concerns no command, so the stage waits for the object after it. -/
theorem waits_append (h : set.Offered k journal offer v r stage rest chain) :
    stage.Waits set (journal ++ offer) k :=
  h.waits.append (h.made.spares ⟨k⟩)

/-- What the object is bound to does not depend on what has happened in the chain. -/
theorem bindObject_eq (h : set.Offered k journal offer v r stage rest chain) :
    set.bindObject ⟨k⟩ v = (stage.binder chain.adapter).bindObject stage.bound v := by
  rw [h.waits.bound.bindObject_eq, h.tracks.ledger.adapter]

/-- Handing the object over in any way is a legal move. -/
theorem legal_append (h : set.Offered k journal offer v r stage rest chain) {handover : List Event}
    (hover : Handover set journal k v r handover) :
    Legal set [] (journal ++ offer ++ handover) := by
  rw [List.append_assoc]
  exact h.legal.snoc (.offered k v r offer handover h.object h.running h.made hover h.flowing h.calm
    h.source)

/-- Every way to hand the object over but a call leaves the stages behind as they are. -/
theorem steady (h : set.Offered k journal offer v r stage rest chain) {handover : List Event}
    (hover : Handover set journal k v r handover)
    (hj : chain'.journal = journal ++ offer ++ handover) (htracks : set.Tracks chain')
    (hwithin : ∀ e ∈ handover, e.Within k) (hspares : ∀ e ∈ handover, ∀ i, k < i → e.Spares ⟨i⟩)
    (hstage : stage'.Waits set (journal ++ offer ++ handover) k) :
    set.Steady k (journal ++ offer) (.cons stage' rest) chain' := by
  have hcount := h.count
  refine ⟨htracks, ?_, ⟨handover, hj, hwithin⟩, by omega, ?_, ?_⟩
  · rw [hj]
    exact h.legal_append hover
  · rw [hj]
    exact hstage
  · rw [hj]
    exact (h.made.waits h.behind).mono fun i _ hi _ hw => hw.append fun e he => hspares e he i hi

/-- The command is called with the object where it could be bound. -/
theorem called {push : Push n} (h : set.Offered k journal offer v r stage rest chain)
    (hpush : set.Pushes (k + 1) push) (hcalm : push.Calm) (hrunning : stage.state.isRunning = true)
    {bound : BoundParameters}
    (hbind : (stage.binder chain.adapter).bindObject stage.bound v = .ok bound) :
    set.Steady k (journal ++ offer)
      (.cons (invoke push stage rest chain .process (some bound) (some v)).stage
        (invoke push stage rest chain .process (some bound) (some v)).rest)
      (invoke push stage rest chain .process (some bound) (some v)).chain := by
  have hstaged := h.waits_append
  have hruns : (Journal.state journal ⟨k⟩).isRunning = true := by rw [← h.waits.state, hrunning]
  have hlegal := h.legal_append (.called bound h.lt_length
    ⟨h.flowing, h.calm, hruns, h.waits.clear⟩ (h.bindObject_eq.trans hbind))
  -- A command that takes objects is not one that processes once.
  have honce : set.processesOnce ⟨k⟩ = false := by
    have hacc := Binder.acceptsInput_of_bindObject hbind
    simp only [Stage.binder, Binder.acceptsInput] at hacc
    rw [Setting.processesOnce, h.waits.command, Option.any_some, hacc, Bool.not_true, Bool.false_and]
  rw [← h.grown] at hlegal hstaged ⊢
  obtain ⟨inner, block, hinvoked⟩ := invoke_invoked (some bound) hstaged.toPlaced h.waits.bound
    (CommandState.entering_process hrunning) rfl hcalm (.inr hpush)
    (.inr (h.grown ▸ h.flowing.append offer)) h.tracks h.pending hlegal h.count
    (h.grown ▸ h.made.waits h.behind)
  exact hinvoked.steady_process hstaged h.count honce

/-- An object that could not be bound is rejected as the command chose. -/
theorem rejects (h : set.Offered k journal offer v r stage rest chain)
    (hrunning : stage.state.isRunning = true) {e : BindingError}
    (hbind : (stage.binder chain.adapter).bindObject stage.bound v = .error e) (terminating : Bool)
    {err : ErrorRecord} (herr : err = { e.toRecord with
      target := some v, phase := some .process, terminating := terminating })
    (hchoice : stage.bindingErrors = if terminating then .terminating else .nonTerminating) :
    set.Rejects journal k v (chain.errorRecord stage.source err) terminating :=
  ⟨h.lt_length, h.waits.state ▸ hrunning, h.waits.source_eq,
    ⟨e, h.bindObject_eq.trans hbind, congrArg some herr⟩,
    h.waits.bound.bindingErrors_eq.trans hchoice⟩

/-- The object is reported and skipped. -/
theorem reported (h : set.Offered k journal offer v r stage rest chain)
    (hrunning : stage.state.isRunning = true) {e : BindingError}
    (hbind : (stage.binder chain.adapter).bindObject stage.bound v = .error e)
    (hchoice : stage.bindingErrors = .nonTerminating) :
    set.Steady k (journal ++ offer) (.cons stage rest) (chain.emitError stage.source
      { e.toRecord with target := some v, phase := some .process }) := by
  have hover : Handover set journal k v r _ :=
    .rejected (chain.errorRecord stage.source { e.toRecord with
      target := some v, phase := some .process }) rfl (h.rejects hrunning hbind false rfl hchoice)
  refine h.steady hover ?_ (h.tracks.emitError _ _) (by simp [Event.Within])
    (by simp [Event.Spares]) (h.waits_append.append (by simp [Event.Spares]))
  rw [Chain.journal_emitError, h.grown]

/-- The object fails the command. -/
theorem failed (h : set.Offered k journal offer v r stage rest chain)
    (hrunning : stage.state.isRunning = true) {e : BindingError}
    (hbind : (stage.binder chain.adapter).bindObject stage.bound v = .error e)
    (hchoice : stage.bindingErrors = .terminating) :
    set.Steady k (journal ++ offer)
      (.cons (stage.fail chain { e.toRecord with target := some v, phase := some .process }).1 rest)
      (stage.fail chain { e.toRecord with target := some v, phase := some .process }).2 := by
  have hover : Handover set journal k v r _ :=
    .failed (chain.errorRecord stage.source { e.toRecord with
      target := some v, phase := some .process, terminating := true }) rfl
      (h.rejects hrunning hbind true rfl hchoice)
  refine h.steady hover ?_ (h.tracks.fail stage _) (by simp [Event.Within]) ?_
    (h.waits_append.fail chain _ _)
  · rw [Stage.journal_fail, h.grown, h.waits.id_eq, h.tracks.stop]
  · simp only [List.mem_cons, List.not_mem_nil, or_false, forall_eq_or_imp, forall_eq, Event.Spares,
      ne_eq, CommandId.mk.injEq, implies_true, true_and, and_true]
    omega

/-- A command that is not running never began, so one before it did not complete its begin. -/
theorem skipped (h : set.Offered k journal offer v r stage rest chain)
    (hidle : ¬ stage.state.isRunning = true) :
    set.Steady k (journal ++ offer) (.cons stage rest) chain := by
  have hcreated : stage.state = .created := by
    rcases h.waits.toIdle.state_cases with hs | hs | hs
    · exact absurd hs hidle
    · exact hs
    · exact absurd (h.legal.halted_of_failed hs) (by simp [h.running])
  have hcreated : Journal.state journal ⟨k⟩ = .created := h.waits.state ▸ hcreated
  obtain ⟨j, hlt, hbegin⟩ := h.flowing k h.lt_length hcreated
  have hover : Handover set journal k v r [] := .skipped j h.lt_length hlt hbegin hcreated
  refine h.steady hover ?_ h.tracks (by simp) (by simp) ?_
  · rw [h.grown, List.append_nil]
  · rw [List.append_nil]
    exact h.waits_append

/-- Having a waiting stage process an object hands the object over. -/
theorem processed {push : Push n} (h : set.Offered k journal offer v r stage rest chain)
    (hpush : set.Pushes (k + 1) push) (hcalm : push.Calm) :
    set.Steady k (journal ++ offer)
      (.cons (processRecord push stage rest chain r).stage
        (processRecord push stage rest chain r).rest)
      (processRecord push stage rest chain r).chain := by
  unfold processRecord
  simp only [h.object]
  by_cases hrunning : stage.state.isRunning = true
  · simp only [hrunning, Bool.not_true, Bool.false_eq_true, if_false]
    cases hbind : (stage.binder chain.adapter).bindObject stage.bound v with
    | ok bound => exact h.called hpush hcalm hrunning hbind
    | error e =>
      simp only
      cases hchoice : stage.bindingErrors with
      | nonTerminating => exact h.reported hrunning hbind hchoice
      | terminating => exact h.failed hrunning hbind hchoice
  · simp only [hrunning, Bool.not_false, if_true]
    exact h.skipped hrunning

end Setting.Offered

end Handover

/-- A delivery hands an object over by legal moves: by induction on the row of stages. -/
theorem deliver_pushes (set : Setting) : ∀ (n position : Nat), set.Pushes position (deliver n) := by
  intro n
  induction n with
  | zero =>
    intro position stages chain journal v r offer hlegal htracks hj hoffer hv hsource hhalt hflowing
      hpending hcount _
    cases stages with
    | nil =>
      have hgrown : (chain.deliverToHost r).journal = journal ++ offer ++ [.delivered r] := by
        rw [Chain.journal_deliverToHost, hj]
      have hnone : set.pending journal = none := by
        rw [← hoffer.pending_append, ← hj, ← htracks.ledger.pending, hpending]
      refine ⟨⟨htracks.deliverToHost r, ?_, ⟨_, hgrown, by simp [Event.Within]⟩, hcount, trivial⟩,
        by simp [deliver]⟩
      change Legal set [] (chain.deliverToHost r).journal
      rw [hgrown, List.append_assoc]
      exact hlegal.snoc (.offered position v r offer _ hv hhalt hoffer (.host hcount) hflowing hnone
        hsource)
  | succ n ih =>
    intro position stages chain journal v r offer hlegal htracks hj hoffer hv hsource hhalt hflowing
      hpending hcount hwaits
    cases stages with
    | cons stage rest =>
      obtain ⟨hstage, hrest⟩ := hwaits
      have hrunning : chain.isHalted = false := by
        rw [htracks.halted, hj, hoffer.isHalted_append, hhalt]
      have hwrite : stage.input.write false r
          = .ok { stage.input with slot := some r, written := stage.input.written + 1 } := by
        simp [Pipe.write, hstage.opened, hstage.slot]
      simp only [deliver, hrunning, hwrite, Pipe.take, Bool.false_eq_true, if_false]
      refine ⟨?_, processRecord_ne_fault _ _ _ _ _⟩
      have hready : Stage.Waits set journal position { stage with input := { stage.input with
          slot := none, written := stage.input.written + 1, read := stage.input.read + 1 } } :=
        ⟨⟨⟨hstage.position, hstage.command, hstage.state⟩, rfl, hstage.clear, hstage.bound⟩,
          hstage.opened⟩
      have hoffered := Setting.Offered.mk hlegal hoffer hv hsource hhalt hflowing (by omega) hready
        hrest htracks hj hpending
      exact hoffered.processed (ih (position + 1)) (deliver_calm n)

end CommandChain
