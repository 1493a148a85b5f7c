import CommandChain.Proofs.Journal.Replay
/-!
# No error is left pending

A write under a preference to stop leaves an error with which the call of its command has to end, and
the call settles it when it returns. While a call is served, an error that is pending is that of the
call itself, since a command with one writes no more objects; between calls none is pending, unless a
panic is unwinding them.
-/

namespace CommandChain

/-- An error with which a call has to end is that of a call of this command. -/
def Chain.Attends (chain : Chain) (id : CommandId) : Prop :=
  ∀ p, chain.pendingStop = some p → p.1 = id

/-- A push that returns leaves no error pending where there was none. -/
def Push.Calm {n : Nat} (push : Push n) : Prop :=
  ∀ stages chain r result, chain.pendingStop = none → (push stages chain r).outcome = .ok result →
    (push stages chain r).chain.pendingStop = none

variable {n : Nat} {chain chain' : Chain} {id : CommandId}

/-- Whose call has to end with an error depends on what is pending only. -/
theorem Chain.Attends.of_eq (h : chain.Attends id) (heq : chain'.pendingStop = chain.pendingStop) :
    chain'.Attends id := fun p hp => h p (heq.symm.trans hp)

/-- With nothing pending, no other command's call has to end with an error. -/
theorem Chain.attends_of_none (h : chain.pendingStop = none) : chain.Attends id := fun p hp => by
  rw [h] at hp
  cases hp

/-- A command that may write has no error pending. -/
theorem Chain.Attends.none_of_not_stopping {call : Call} (h : chain.Attends call.id)
    (hstop : call.isStopping chain = false) : chain.pendingStop = none := by
  rw [Call.isStopping, Bool.or_eq_false_iff] at hstop
  cases hpending : chain.pendingStop with
  | none => rfl
  | some p =>
    have hown := hstop.2
    rw [Chain.hasPendingStop, hpending, Option.any_some, h p hpending, beq_self_eq_true] at hown
    cases hown

/-- A report of a command leaves nothing pending for another command. -/
theorem Call.report_attends {call : Call} (h : chain.Attends call.id) (m : Message) :
    (call.report m (chain.log (.reporting call.id m))).2.Attends call.id := by
  have hkept {c : Chain} (hc : c.pendingStop = chain.pendingStop) (e : ErrorRecord) :
      (c.escalateAfterCall call.id e).Attends call.id := by
    intro p hp
    have hp : some (c.pendingStop.getD (call.id, e)) = some p := hp
    cases hpending : c.pendingStop with
    | none =>
      rw [hpending] at hp
      cases hp
      rfl
    | some q =>
      rw [hpending] at hp
      cases hp
      exact h q (hc ▸ hpending)
  unfold report
  simp only
  split <;> split
  · exact hkept rfl _
  · exact hkept rfl _
  · exact h.of_eq rfl
  · exact h.of_eq rfl

/-- A write that returns leaves nothing pending for another command. -/
theorem Call.writeObject_attends {call : Call} {push : Push n} (hpush : push.Calm) (v : Value)
    (rest : Stages n) (h : chain.Attends call.id) {result : CallResult}
    (hok : (call.writeObject push v rest chain).outcome = .ok result) :
    (call.writeObject push v rest chain).chain.Attends call.id := by
  unfold writeObject at hok ⊢
  by_cases hstop : call.isStopping chain = true
  · rw [if_pos hstop]
    exact h
  · rw [if_neg hstop] at hok ⊢
    rw [Bool.not_eq_true] at hstop
    by_cases hbegin : (call.phase == .begin) = true
    · rw [if_pos hbegin]
      exact h
    · rw [if_neg hbegin] at hok ⊢
      exact Chain.attends_of_none (hpush rest _ _ result (h.none_of_not_stopping hstop) hok)

/-- While a hook is served, an error that is pending is that of its call. -/
theorem serve_attends {σ : Type} (call : Call) {push : Push n} (hpush : push.Calm) (hook : Hook σ)
    (memory : σ) (rest : Stages n) (chain : Chain) (h : chain.Attends call.id) {result : CallResult}
    (hok : (serve call push hook memory rest chain).outcome = .ok result) :
    (serve call push hook memory rest chain).chain.Attends call.id := by
  induction hook generalizing memory rest chain with
  | done result => exact h
  | panic p => cases hok
  | store memory' next ih => exact ih memory' rest chain h hok
  | write v next ih =>
    -- A call with an error pending writes nothing, so a push starts where none is.
    have hlogged : (chain.log (.writing call.id v)).Attends call.id := h.of_eq rfl
    have hwrite := fun result (hok : _ = Except.ok result) =>
      call.writeObject_attends hpush v rest hlogged hok
    unfold serve at hok ⊢
    simp only at hok ⊢
    generalize call.writeObject push v rest (chain.log (.writing call.id v)) = pushed
      at hwrite hok ⊢
    obtain ⟨outcome, rest', chain'⟩ := pushed
    cases outcome with
    | error p => cases hok
    | ok result => exact ih result memory rest' _ ((hwrite result rfl).of_eq rfl) hok
  | report m next ih => exact ih _ memory rest _ (call.report_attends h m) hok
  | cutInput next ih => exact ih memory rest _ (h.of_eq rfl) hok
  | askStopping next ih => exact ih _ memory rest chain h hok
  | note text next ih => exact ih memory rest _ (h.of_eq rfl) hok
  | signal token next ih => exact ih memory rest _ (h.of_eq rfl) hok
  | askSignaled token next ih => exact ih _ memory rest chain h hok
  | runChain run next ih =>
    have habsorb : (chain.absorb (run chain.flags)).pendingStop = chain.pendingStop :=
      chain.pendingStop_absorb _
    unfold serve at hok ⊢
    simp only at hok ⊢
    cases hrun : (run chain.flags).outcome with
    | error p =>
      rw [hrun] at hok
      cases hok
    | ok outcome =>
      rw [hrun] at hok
      exact ih outcome memory rest _ (h.of_eq habsorb) hok

/-- A call settles the error with which it has to end. -/
theorem settle_calm {stage : Stage} (h : chain.Attends stage.id) (phase : Phase)
    (input : Option Value) (result : CallResult) :
    (settle stage chain phase input result).2.2.pendingStop = none := by
  have htaken : (chain.takePendingStop stage.id).2.pendingStop = none := by
    rw [Chain.takePendingStop_eq]
    cases hpending : chain.pendingStop with
    | none => rfl
    | some p =>
      show (if _ then none else some p) = none
      rw [Option.any_some, h p hpending, beq_self_eq_true, if_pos rfl]
  exact settle_cases (motive := fun out => out.2.2.pendingStop = none) stage chain phase input result
    (fun _ => htaken) htaken htaken fun _ => htaken

/-- A lifecycle call that returns leaves nothing pending: its own error is taken when it is settled.
-/
theorem invoke_calm {push : Push n} (hpush : push.Calm) (stage : Stage) (rest : Stages n)
    (phase : Phase) (bound : Option BoundParameters) (input : Option Value)
    (h : chain.pendingStop = none) {result : CallResult}
    (hok : (invoke push stage rest chain phase bound input).outcome = .ok result) :
    (invoke push stage rest chain phase bound input).chain.pendingStop = none := by
  unfold invoke at hok ⊢
  cases henter : stage.state.entering phase with
  | error e => exact h
  | ok state =>
    simp only [henter] at hok ⊢
    have hserve := fun result (hok : _ = Except.ok result) => serve_attends
      (Stage.call { stage with state := state } chain phase (bound.getD stage.bound) input) hpush
      (stage.command.hook (Stage.call { stage with state := state } chain phase
        (bound.getD stage.bound) input) stage.memory)
      stage.memory rest (chain.log (.called (Stage.id { stage with state := state }) phase
        (bound.getD stage.bound) input)) (Chain.attends_of_none h) hok
    generalize serve _ push _ stage.memory rest _ = served at hserve hok ⊢
    obtain ⟨outcome, memory, rest', chain'⟩ := served
    cases outcome with
    | error p => cases hok
    | ok result =>
      -- What is pending when the hook returns is the error of this call, and settling takes it.
      have hattends : (chain'.log (.returned stage.id phase result)).Attends
          (Stage.id { stage with state := state, memory := memory }) := (hserve result rfl).of_eq rfl
      exact settle_calm hattends phase input result

theorem processRecord_calm {push : Push n} (hpush : push.Calm) (stage : Stage) (rest : Stages n)
    (r : Record) (h : chain.pendingStop = none) {result : CallResult}
    (hok : (processRecord push stage rest chain r).outcome = .ok result) :
    (processRecord push stage rest chain r).chain.pendingStop = none := by
  unfold processRecord at hok ⊢
  cases hobject : r.object? with
  | none => exact h
  | some v =>
    simp only [hobject] at hok ⊢
    by_cases hrunning : stage.state.isRunning = true
    · simp only [hrunning, Bool.not_true, Bool.false_eq_true, if_false] at hok ⊢
      cases hbind : (stage.binder chain.adapter).bindObject stage.bound v with
      | ok bound =>
        simp only [hbind] at hok
        exact invoke_calm hpush stage rest .process (some bound) (some v) h hok
      | error e =>
        simp only
        cases stage.bindingErrors <;> exact h
    · simp only [hrunning, Bool.not_false, if_true]
      exact h

/-- A delivery to any row leaves nothing pending: by induction on the row. -/
theorem deliver_calm (n : Nat) : (deliver n).Calm := by
  induction n with
  | zero =>
    intro stages chain r result h _
    cases stages
    exact h
  | succ n ih =>
    intro stages chain r result h hok
    cases stages with
    | cons stage rest =>
    unfold deliver at hok ⊢
    by_cases hhalt : chain.isHalted = true
    · simp only [hhalt, if_true]
      exact h
    · simp only [hhalt, Bool.false_eq_true, if_false] at hok ⊢
      cases hwrite : stage.input.write false r with
      | error refusal => cases refusal <;> exact h
      | ok pipe =>
        rw [hwrite] at hok
        simp only at hok ⊢
        generalize pipe.take false = taken at hok ⊢
        obtain ⟨read, pipe⟩ := taken
        cases read with
        | record r => exact processRecord_calm ih { stage with input := pipe } rest r h hok
        | empty => exact h
        | endOfInput => exact h

/-! ## The steps of a run -/

/-- Binding the parameters leaves what is pending as it is. -/
theorem bindAll_pendingStop (hostInput : Bool) (stages : Stages n) (chain : Chain) :
    (bindAll hostInput stages chain).2.pendingStop = chain.pendingStop := by
  induction stages generalizing chain with
  | nil => rfl
  | cons stage rest ih =>
    unfold bindAll
    cases stage.bindStatically chain.adapter (stage.position != 0 || hostInput) with
    | error e => rfl
    | ok bound => exact ih chain

/-- Having the commands begin leaves nothing pending, unless a panic unwinds it. -/
theorem beginAll_calm (n : Nat) (stages : Stages n) (chain : Chain) (h : chain.pendingStop = none)
    (hok : (beginAll n stages chain).outcome = .ok ()) :
    (beginAll n stages chain).chain.pendingStop = none := by
  induction n generalizing chain with
  | zero =>
    cases stages
    exact h
  | succ n ih =>
    cases stages with
    | cons stage rest =>
    unfold beginAll at hok ⊢
    by_cases hhalt : chain.isHalted = true
    · simp only [hhalt, if_true]
      exact h
    · simp only [hhalt, Bool.false_eq_true, if_false] at hok ⊢
      have hbegun := fun result (hok : _ = Except.ok result) =>
        invoke_calm (deliver_calm n) stage rest .begin none none h hok
      generalize invoke (deliver n) stage rest chain .begin none none = begun at hbegun hok ⊢
      obtain ⟨outcome, stage', rest', chain'⟩ := begun
      cases outcome with
      | error p => cases hok
      | ok result =>
        cases result with
        | ok => exact ih rest' chain' (hbegun _ rfl) hok
        | stopped => exact hbegun _ rfl
        | fault f => exact hbegun _ rfl

/-- Feeding objects leaves nothing pending, unless a panic unwinds it. -/
theorem feedObjects_calm (values : List Value) (stages : Stages n) (chain : Chain)
    (h : chain.pendingStop = none) (hok : (feedObjects values stages chain).outcome = .ok ()) :
    (feedObjects values stages chain).chain.pendingStop = none := by
  induction values generalizing stages chain with
  | nil => exact h
  | cons v values ih =>
    unfold feedObjects at hok ⊢
    by_cases hstop : (chain.isHalted || chain.inputCut.isSome) = true
    · simp only [hstop, if_true]
      exact h
    · simp only [hstop, Bool.false_eq_true, if_false] at hok ⊢
      have hpushed := fun result => deliver_calm n stages
        ((chain.log (.feeding v)).emit (.object v) .host).2
        ((chain.log (.feeding v)).emit (.object v) .host).1 result h
      generalize deliver n stages _ _ = pushed at hpushed hok ⊢
      obtain ⟨outcome, stages', chain'⟩ := pushed
      cases outcome with
      | error p => cases hok
      | ok result => exact ih stages' chain' (hpushed result rfl) hok

/-- Having the first command process once leaves nothing pending, unless a panic unwinds it. -/
theorem processHead_calm (stages : Stages n) (h : chain.pendingStop = none)
    (hok : (processHead stages chain).outcome = .ok ()) :
    (processHead stages chain).chain.pendingStop = none := by
  cases stages with
  | nil => exact h
  | cons stage rest =>
    unfold processHead at hok ⊢
    have hran := fun result (hok : _ = Except.ok result) =>
      invoke_calm (deliver_calm _) stage rest .process none none h hok
    simp only at hok ⊢
    generalize invoke (deliver _) stage rest chain .process none none = ran at hran hok ⊢
    obtain ⟨outcome, stage', rest', chain'⟩ := ran
    cases outcome with
    | error p => cases hok
    | ok result => exact hran result rfl

theorem Ran.calm_closeFirst {fed : Ran n}
    (h : fed.outcome = .ok () → fed.chain.pendingStop = none)
    (hok : fed.closeFirst.outcome = .ok ()) : fed.closeFirst.chain.pendingStop = none := by
  obtain ⟨outcome, stages, chain⟩ := fed
  cases outcome with
  | error p => cases hok
  | ok _ => exact h rfl

/-- Feeding the first command leaves nothing pending, unless a panic unwinds it. -/
theorem feedHead_calm (input : Option (List Value)) (stages : Stages n)
    (h : chain.pendingStop = none) (hok : (feedHead input stages chain).outcome = .ok ()) :
    (feedHead input stages chain).chain.pendingStop = none := by
  refine feedHead_cases
    (motive := fun ran => ran.outcome = .ok () → ran.chain.pendingStop = none) input ?_ ?_ ?_ hok
  · exact fun _ => h
  · exact fun values => Ran.calm_closeFirst (feedObjects_calm values stages chain h)
  · exact Ran.calm_closeFirst (processHead_calm stages h)

theorem finishStage_calm (stage : Stage) (rest : Stages n) (h : chain.pendingStop = none)
    {result : CallResult} (hok : (finishStage (deliver n) stage rest chain).outcome = .ok result) :
    (finishStage (deliver n) stage rest chain).chain.pendingStop = none := by
  unfold finishStage at hok ⊢
  split at hok
  · next hrunning =>
    have hcalled := fun result (hok : _ = Except.ok result) =>
      invoke_calm (deliver_calm n) stage rest .finish none none h hok
    simp only [hrunning, if_true]
    generalize invoke (deliver n) stage rest chain .finish none none = settled at hcalled hok ⊢
    obtain ⟨outcome, stage', rest', chain'⟩ := settled
    cases outcome with
    | error p => cases hok
    | ok result => cases result <;> exact hcalled _ rfl
  · next hidle =>
    simp only [hidle, Bool.false_eq_true, if_false]
    exact h

theorem drain_calm (stage : Stage) (rest : Stages n) (h : chain.pendingStop = none)
    {result : CallResult} (hok : (drain (deliver n) stage rest chain).outcome = .ok result) :
    (drain (deliver n) stage rest chain).chain.pendingStop = none := by
  unfold drain at hok ⊢
  generalize stage.input.take chain.isHalted = taken at hok ⊢
  obtain ⟨read, pipe⟩ := taken
  cases read with
  | empty => exact h
  | endOfInput => exact h
  | record r =>
    have hprocessed := fun result (hok : _ = Except.ok result) =>
      processRecord_calm (deliver_calm n) { stage with input := pipe } rest r h hok
    simp only at hok ⊢
    generalize processRecord (deliver n) { stage with input := pipe } rest chain r = settled
      at hprocessed hok ⊢
    obtain ⟨outcome, stage', rest', chain'⟩ := settled
    cases outcome with
    | error p => cases hok
    | ok result =>
      have hcalm := hprocessed result rfl
      cases result <;> simp only <;> first | exact hcalm | (split <;> exact hcalm)

theorem processOnce_calm (stage : Stage) (rest : Stages n) (h : chain.pendingStop = none)
    {result : CallResult} (hok : (processOnce (deliver n) stage rest chain).outcome = .ok result) :
    (processOnce (deliver n) stage rest chain).chain.pendingStop = none := by
  unfold processOnce at hok ⊢
  split at hok
  · next honce =>
    rw [if_pos honce]
    exact invoke_calm (deliver_calm n) stage rest .process none none h hok
  · next honce =>
    rw [if_neg honce]
    exact h

theorem completeStage_calm (stage : Stage) (rest : Stages n) (h : chain.pendingStop = none)
    {result : CallResult} (hok : (completeStage (deliver n) stage rest chain).outcome = .ok result) :
    (completeStage (deliver n) stage rest chain).chain.pendingStop = none := by
  -- Draining, processing once and ending hand a calm chain on to each other.
  have hdrained := fun result (hok : _ = Except.ok result) => drain_calm stage rest h hok
  unfold completeStage at hok ⊢
  simp only at hok ⊢
  generalize drain (deliver n) stage rest chain = drained at hdrained hok ⊢
  obtain ⟨outcome, stage', rest', chain'⟩ := drained
  cases outcome with
  | error p => cases hok
  | ok _ =>
    have hcalm : chain'.pendingStop = none := hdrained _ rfl
    simp only at hok ⊢
    by_cases hhalt : chain'.isHalted = true
    · simp only [hhalt, if_true]
      exact hcalm
    simp only [hhalt, Bool.false_eq_true, if_false] at hok ⊢
    have honce := fun result (hok : _ = Except.ok result) =>
      processOnce_calm stage' rest' hcalm hok
    generalize processOnce (deliver n) stage' rest' chain' = once at honce hok ⊢
    obtain ⟨outcome, stage'', rest'', chain''⟩ := once
    cases outcome with
    | error p => cases hok
    | ok answer =>
      have hcalm : chain''.pendingStop = none := honce _ rfl
      have hfinish := fun result (hok : _ = Except.ok result) =>
        finishStage_calm stage'' rest'' hcalm hok
      cases answer with
      | ok => exact hfinish result hok
      | stopped | fault f =>
        simp only at hok ⊢
        split at hok
        · next hhalt =>
          rw [if_pos hhalt]
          exact hcalm
        · next hhalt =>
          rw [if_neg hhalt]
          exact hfinish result hok

/-- The wave leaves nothing pending, unless a panic unwinds it. -/
theorem endWave_calm (n : Nat) (stages : Stages n) (chain : Chain) (h : chain.pendingStop = none)
    (hok : (endWave n stages chain).outcome = .ok ()) :
    (endWave n stages chain).chain.pendingStop = none := by
  induction n generalizing chain with
  | zero =>
    cases stages
    exact h
  | succ n ih =>
    cases stages with
    | cons stage rest =>
    unfold endWave at hok ⊢
    by_cases hhalt : chain.isHalted = true
    · simp only [hhalt, if_true]
      exact h
    simp only [hhalt, Bool.false_eq_true, if_false] at hok ⊢
    by_cases hcut : chain.isCut stage.position = true
    · simp only [hcut, if_true] at hok ⊢
      exact ih rest chain h hok
    · simp only [hcut, Bool.false_eq_true, if_false] at hok ⊢
      have hended := fun result (hok : _ = Except.ok result) => completeStage_calm stage rest h hok
      generalize completeStage (deliver n) stage rest chain = ended at hended hok ⊢
      obtain ⟨outcome, stage', rest', chain'⟩ := ended
      cases outcome with
      | error p => cases hok
      | ok result => exact ih rest'.closeFirst chain' (hended result rfl) hok

/-- When the steps of a run come to their end, no error is pending. -/
theorem Pipeline.steps_calm (input : Option (List Value)) (stages : Stages n)
    (h : chain.pendingStop = none) (hok : (steps input stages chain).outcome = .ok ()) :
    (steps input stages chain).chain.pendingStop = none := by
  have hbound := bindAll_pendingStop input.isSome stages chain
  unfold steps at hok ⊢
  generalize bindAll input.isSome stages chain = bound at hbound hok ⊢
  have hbegun := beginAll_calm n bound.1 bound.2 (hbound.trans h)
  dsimp only at hok ⊢
  generalize beginAll n bound.1 bound.2 = begun at hbegun hok ⊢
  obtain ⟨outcome, stages', chain'⟩ := begun
  cases outcome with
  | error p => cases hok
  | ok _ =>
    have hfed := feedHead_calm input stages' (hbegun rfl)
    dsimp only at hok ⊢
    generalize feedHead input stages' chain' = fed at hfed hok ⊢
    obtain ⟨outcome, stages'', chain''⟩ := fed
    cases outcome with
    | error p => cases hok
    | ok _ => exact endWave_calm n stages'' chain'' (hfed rfl) hok

end CommandChain
