import CommandChain.Chain.Nested
import CommandChain.Proofs.Disposal.Replacement
import CommandChain.Proofs.Journal.Replay
/-!
# Runs that are watched

A chain does the same whether a host watches it or not, and the host that watches is sent every record
that is kept for the outcome, in the same order, as long as it stays connected. Two runs of the same
commands, only the second of which is watched over a given channel, go hand in hand: at every step their
stages are the same, and their chains differ in nothing but the channel and what went over it. Every
function of the engine keeps two runs in this relation.
-/

namespace CommandChain

/-! ## Channels -/

namespace LiveChannel

/-- What gets through of some messages that are sent in turn. -/
def carries : LiveChannel → List HostMessage → List HostMessage
  | absent, _ => []
  | connected none, ms => ms
  | connected (some n), ms => ms.take n

/-- The channel after so many attempts to send. -/
def after : LiveChannel → Nat → LiveChannel
  | absent, _ => absent
  | connected none, _ => connected none
  | connected (some n), count => if count ≤ n then connected (some (n - count)) else absent

theorem after_zero (start : LiveChannel) : start.after 0 = start := by
  rcases start with _ | _ | n <;> rfl

/-- A channel that has been sent one message more is the one after that many. -/
theorem send_after (start : LiveChannel) (count : Nat) :
    (start.after count).send.1 = start.after (count + 1) := by
  rcases start with _ | _ | n
  · rfl
  · rfl
  · show (if count ≤ n then connected (some (n - count)) else absent).send.1
      = if count + 1 ≤ n then connected (some (n - (count + 1))) else absent
    by_cases hlt : count < n
    · rw [if_pos (Nat.le_of_lt hlt), if_pos (Nat.succ_le_of_lt hlt),
        show n - count = n - (count + 1) + 1 by omega]
      rfl
    · rw [if_neg (show ¬ count + 1 ≤ n by omega)]
      split
      · rw [show n - count = 0 by omega]
        rfl
      · rfl

/-- One more message gets through where the channel still takes it. -/
theorem carries_append (start : LiveChannel) (ms : List HostMessage) (m : HostMessage) :
    start.carries (ms ++ [m])
      = start.carries ms ++ if (start.after ms.length).send.2 then [m] else [] := by
  rcases start with _ | _ | n
  · rfl
  · rfl
  · show (ms ++ [m]).take n = ms.take n
      ++ if (if ms.length ≤ n then connected (some (n - ms.length)) else absent).send.2 then [m] else []
    by_cases hlt : ms.length < n
    · rw [if_pos (Nat.le_of_lt hlt), show n - ms.length = n - (ms.length + 1) + 1 by omega,
        List.take_of_length_le (Nat.le_of_lt hlt),
        List.take_of_length_le (by rw [List.length_append]; exact hlt)]
      rfl
    · rw [List.take_append_of_le_length (by omega)]
      split
      · rw [show n - ms.length = 0 by omega]
        exact (List.append_nil _).symm
      · exact (List.append_nil _).symm

end LiveChannel

/-! ## Related runs -/

/-- The messages over the channel, in order. -/
def Chain.messages (chain : Chain) : List HostMessage :=
  chain.timeline.filterMap TimelineEntry.message?

/-- The messages that a host is sent which is not gone: every record, and what closes the run. -/
def Chain.due (chain : Chain) (closing : List HostMessage) : List HostMessage :=
  chain.records.map .record ++ closing

/-- Two chains differ in nothing but the channel and what is on the timeline: over the channel of the
second was sent what is due, and of that it carried what it does. -/
def Chain.Watched (start : LiveChannel) (closing : List HostMessage) (chain chain' : Chain) : Prop :=
  ∃ shown, chain' =
      { chain with live := start.after (chain.due closing).length, shown := shown }
    ∧ chain'.messages = start.carries (chain.due closing)

/-- Two pushes left the same but for their chains, which are related. -/
def Pushed.Watched (start : LiveChannel) {n : Nat} (pushed pushed' : Pushed n) : Prop :=
  ∃ chain', pushed.chain.Watched start [] chain' ∧ pushed' = { pushed with chain := chain' }

/-- Two hooks were served the same but for their chains, which are related. -/
def Served.Watched (start : LiveChannel) {σ : Type} {n : Nat} (served served' : Served σ n) : Prop :=
  ∃ chain', served.chain.Watched start [] chain' ∧ served' = { served with chain := chain' }

/-- Two calls left the same but for their chains, which are related. -/
def Settled.Watched (start : LiveChannel) {n : Nat} (settled settled' : Settled n) : Prop :=
  ∃ chain', settled.chain.Watched start [] chain' ∧ settled' = { settled with chain := chain' }

/-- A push keeps two runs related. -/
def Push.Shows (start : LiveChannel) {n : Nat} (push : Push n) : Prop :=
  ∀ stages chain chain' r, chain.Watched start [] chain' →
    (push stages chain r).Watched start (push stages chain' r)

variable {start : LiveChannel} {closing : List HostMessage} {n : Nat}

/-! ## What chains do -/

namespace Chain.Watched

variable {chain chain' : Chain}

/-- A watched chain has the same flags. -/
theorem flags_eq (h : chain.Watched start closing chain') : chain'.flags = chain.flags := by
  obtain ⟨shown, rfl, -⟩ := h
  rfl

theorem adapter_eq (h : chain.Watched start closing chain') : chain'.adapter = chain.adapter := by
  obtain ⟨shown, rfl, -⟩ := h
  rfl

theorem inputCut_eq (h : chain.Watched start closing chain') : chain'.inputCut = chain.inputCut := by
  obtain ⟨shown, rfl, -⟩ := h
  rfl

/-- A watched chain is halted exactly if the other is. -/
theorem isHalted_eq (h : chain.Watched start closing chain') : chain'.isHalted = chain.isHalted := by
  obtain ⟨shown, rfl, -⟩ := h
  rfl

/-- A watched chain is cut off at the same positions. -/
theorem isCut_eq (h : chain.Watched start closing chain') (position : Nat) :
    chain'.isCut position = chain.isCut position := by
  obtain ⟨shown, rfl, -⟩ := h
  rfl

/-- Whether a call is to stop does not depend on who watches. -/
theorem isStopping_eq (h : chain.Watched start closing chain') (call : Call) :
    call.isStopping chain' = call.isStopping chain := by
  obtain ⟨shown, rfl, -⟩ := h
  rfl

/-- A call is the same in a watched chain. -/
theorem call_eq (h : chain.Watched start closing chain') (stage : Stage) (phase : Phase)
    (parameters : BoundParameters) (input : Option Value) :
    stage.call chain' phase parameters input = stage.call chain phase parameters input := by
  obtain ⟨shown, rfl, -⟩ := h
  rfl

theorem log (h : chain.Watched start closing chain') (e : Event) :
    (chain.log e).Watched start closing (chain'.log e) := by
  obtain ⟨shown, rfl, hshown⟩ := h
  exact ⟨shown, rfl, hshown⟩

/-- A note is no message. -/
theorem note (h : chain.Watched start closing chain') (text : String) :
    (chain.note text).Watched start closing (chain'.note text) := by
  obtain ⟨shown, rfl, hshown⟩ := h
  refine ⟨.note text :: shown, rfl, ?_⟩
  rw [messages, timeline_note, List.filterMap_append]
  exact (List.append_nil _).trans hshown

theorem noteAll (h : chain.Watched start closing chain') (texts : List String) :
    (chain.noteAll texts).Watched start closing (chain'.noteAll texts) := by
  induction texts generalizing chain chain' with
  | nil => exact h
  | cons text texts ih => exact ih (h.note text)

theorem signal (h : chain.Watched start closing chain') (token : StopToken) :
    (chain.signal token).Watched start closing (chain'.signal token) := by
  obtain ⟨shown, rfl, hshown⟩ := h
  exact ⟨shown, rfl, hshown⟩

theorem signalAll (h : chain.Watched start closing chain') (tokens : List StopToken) :
    (chain.signalAll tokens).Watched start closing (chain'.signalAll tokens) := by
  induction tokens generalizing chain chain' with
  | nil => exact h
  | cons token tokens ih => exact ih (h.signal token)

theorem absorb (h : chain.Watched start closing chain') (report : ChainReport) :
    (chain.absorb report).Watched start closing (chain'.absorb report) :=
  (h.noteAll report.notes).signalAll report.signals

theorem cutInput (h : chain.Watched start closing chain') (id : CommandId) (position : Nat) :
    (chain.cutInput id position).Watched start closing (chain'.cutInput id position) := by
  obtain ⟨shown, rfl, hshown⟩ := h
  exact ⟨shown, rfl, hshown⟩

theorem escalateAfterCall (h : chain.Watched start closing chain') (id : CommandId)
    (e : ErrorRecord) :
    (chain.escalateAfterCall id e).Watched start closing (chain'.escalateAfterCall id e) := by
  obtain ⟨shown, rfl, hshown⟩ := h
  exact ⟨shown, rfl, hshown⟩

/-- What is pending is settled in the same way, watched or not. -/
theorem takePendingStop (h : chain.Watched start closing chain') (id : CommandId) :
    (chain'.takePendingStop id).1 = (chain.takePendingStop id).1
      ∧ (chain.takePendingStop id).2.Watched start closing (chain'.takePendingStop id).2 := by
  obtain ⟨shown, rfl, hshown⟩ := h
  rw [Chain.takePendingStop_eq, Chain.takePendingStop_eq]
  exact ⟨rfl, shown, rfl, hshown⟩

/-- The next record is the same, watched or not. -/
theorem emit (h : chain.Watched start closing chain') (payload : Payload) (source : RecordSource) :
    (chain'.emit payload source).1 = (chain.emit payload source).1
      ∧ (chain.emit payload source).2.Watched start closing (chain'.emit payload source).2 := by
  obtain ⟨shown, rfl, hshown⟩ := h
  exact ⟨rfl, shown, rfl, hshown⟩

/-- Sending a message makes it due, and the host receives it where the channel still takes it. -/
theorem send (h : chain.Watched start closing chain') (m : HostMessage) :
    ∃ shown, chain'.send m =
        { chain with live := start.after ((chain.due closing).length + 1), shown := shown }
      ∧ (chain'.send m).messages = start.carries (chain.due closing ++ [m]) := by
  obtain ⟨shown, rfl, hshown⟩ := h
  unfold Chain.send
  simp only [LiveChannel.send_after]
  refine ⟨_, rfl, ?_⟩
  rw [LiveChannel.carries_append, ← hshown]
  split
  · simp [messages, timeline, TimelineEntry.message?]
  · exact (List.append_nil _).symm

/-- While the run is not closed, a record that reaches the host is sent to it. -/
theorem deliverToHost (h : chain.Watched start [] chain') (r : Record) :
    (chain.deliverToHost r).Watched start [] (chain'.deliverToHost r) := by
  obtain ⟨shown, hsent, hshown⟩ := h.send (.record r)
  have hdue : (chain.deliverToHost r).due [] = chain.due [] ++ [.record r] := by
    simp [due]
  refine ⟨shown, ?_, ?_⟩
  · rw [hdue, List.length_append]
    unfold Chain.deliverToHost
    rw [hsent]
    rfl
  · rw [hdue, ← hshown]
    rfl

/-- Another message to the host closes the run. -/
theorem close (h : chain.Watched start [] chain') (m : HostMessage) :
    (chain.send m).Watched start [m] (chain'.send m) := by
  obtain ⟨shown, hsent, hshown⟩ := h.send m
  have hdue : (chain.send m).due [m] = chain.due [] ++ [m] := by
    simp [due, records, Chain.send]
  refine ⟨shown, ?_, ?_⟩
  · rw [hdue, List.length_append, hsent]
    rfl
  · rw [hdue, ← hshown]

/-- An error is sent as it reaches the host. -/
theorem emitError (h : chain.Watched start [] chain') (source : RecordSource) (e : ErrorRecord) :
    (chain.emitError source e).Watched start [] (chain'.emitError source e) := by
  obtain ⟨hsame, hemit⟩ := h.emit (.message (.error e)) source
  show ((chain.emit _ source).2.deliverToHost (chain.emit _ source).1).Watched start []
    ((chain'.emit _ source).2.deliverToHost (chain'.emit _ source).1)
  rw [hsame]
  exact hemit.deliverToHost _

theorem halt (h : chain.Watched start closing chain') :
    (chain.signal chain.stop).Watched start closing (chain'.signal chain'.stop) := by
  obtain ⟨shown, rfl, hshown⟩ := h
  exact ⟨shown, rfl, hshown⟩

theorem setFault (h : chain.Watched start closing chain') (e : ErrorRecord) :
    Chain.Watched start closing { chain with fault := some (chain.fault.getD e) }
      { chain' with fault := some (chain'.fault.getD e) } := by
  obtain ⟨shown, rfl, hshown⟩ := h
  exact ⟨shown, rfl, hshown⟩

/-- A command that fails is watched as its error is. -/
theorem fail (h : chain.Watched start [] chain') (stage : Stage) (e : ErrorRecord) :
    (stage.fail chain e).2.Watched start [] (stage.fail chain' e).2 :=
  (((h.emitError stage.source { e with terminating := true }).log (.failed stage.id)).setFault
    { e with terminating := true }).halt

end Chain.Watched

/-! ## Lifecycle calls -/

section

variable {chain chain' : Chain}

/-- A report is answered in the same way, watched or not, and what of it reaches the host is sent.
-/
theorem Call.report_watched (call : Call) (m : Message) (h : chain.Watched start [] chain') :
    (call.report m chain').1 = (call.report m chain).1
      ∧ (call.report m chain).2.Watched start [] (call.report m chain').2 := by
  obtain ⟨hsame, hemit⟩ := h.emit (.message (call.complete m)) call.source
  unfold Call.report
  simp only [hsame]
  generalize (chain.emit (.message (call.complete m)) call.source).1 = r
  generalize (chain.emit (.message (call.complete m)) call.source).2 = made at hemit ⊢
  generalize (chain'.emit (.message (call.complete m)) call.source).2 = made' at hemit ⊢
  by_cases hlet : call.preferences.delivers (call.complete m).kind = true
  · rw [if_pos hlet, if_pos hlet]
    split
    · exact ⟨rfl, (hemit.deliverToHost r).escalateAfterCall _ _⟩
    · exact ⟨rfl, hemit.deliverToHost r⟩
  · rw [if_neg hlet, if_neg hlet]
    split
    · exact ⟨rfl, hemit.escalateAfterCall _ _⟩
    · exact ⟨rfl, hemit⟩

/-- A write is answered in the same way, watched or not. -/
theorem Call.writeObject_watched (call : Call) {push : Push n} (hpush : push.Shows start) (v : Value)
    (rest : Stages n) (h : chain.Watched start [] chain') :
    (call.writeObject push v rest chain).Watched start (call.writeObject push v rest chain') := by
  unfold Call.writeObject
  rw [h.isStopping_eq]
  split
  · exact ⟨chain', h, rfl⟩
  · split
    · exact ⟨chain', h, rfl⟩
    · obtain ⟨hsame, hemit⟩ := h.emit (.object v) call.source
      show (push rest (chain.emit (.object v) call.source).2
        (chain.emit (.object v) call.source).1).Watched start
        (push rest (chain'.emit (.object v) call.source).2 (chain'.emit (.object v) call.source).1)
      rw [hsame]
      exact hpush rest _ _ _ hemit

/-- A hook is served in the same way, watched or not. -/
theorem serve_watched {σ : Type} (call : Call) {push : Push n} (hpush : push.Shows start)
    (hook : Hook σ) (memory : σ) (rest : Stages n) (h : chain.Watched start [] chain') :
    (serve call push hook memory rest chain).Watched start
      (serve call push hook memory rest chain') := by
  induction hook generalizing memory rest chain chain' with
  | done result => exact ⟨chain', h, rfl⟩
  | panic p => exact ⟨chain', h, rfl⟩
  | store memory' next ih => exact ih memory' rest h
  | write v next ih =>
    obtain ⟨left', hleft, hwritten⟩ :=
      call.writeObject_watched hpush v rest (h.log (.writing call.id v))
    unfold serve
    simp only [hwritten]
    generalize call.writeObject push v rest (chain.log (.writing call.id v)) = pushed at hleft ⊢
    cases pushed.outcome with
    | error p => exact ⟨left', hleft, rfl⟩
    | ok result => exact ih result memory pushed.stages (hleft.log _)
  | report m next ih =>
    obtain ⟨hresult, hreported⟩ := call.report_watched m (h.log (.reporting call.id m))
    unfold serve
    simp only [hresult]
    exact ih _ memory rest hreported
  | cutInput next ih => exact ih memory rest (h.cutInput _ _)
  | askStopping next ih =>
    unfold serve
    rw [h.isStopping_eq]
    exact ih _ memory rest h
  | note text next ih => exact ih memory rest (h.note text)
  | signal token next ih => exact ih memory rest (h.signal token)
  | askSignaled token next ih =>
    unfold serve
    rw [h.flags_eq]
    exact ih _ memory rest h
  | runChain run next ih =>
    unfold serve
    simp only [h.flags_eq]
    cases (run chain.flags).outcome with
    | error p => exact ⟨_, h.absorb _, rfl⟩
    | ok outcome => exact ih outcome memory rest (h.absorb _)

/-- The result of a call is settled in the same way, watched or not. -/
theorem settle_watched (stage : Stage) (h : chain.Watched start [] chain') (phase : Phase)
    (input : Option Value) (result : CallResult) :
    ∃ left', (settle stage chain phase input result).2.2.Watched start [] left'
      ∧ settle stage chain' phase input result = ((settle stage chain phase input result).1,
        (settle stage chain phase input result).2.1, left') := by
  obtain ⟨htaken, hleft⟩ := h.takePendingStop stage.id
  unfold settle
  generalize chain.takePendingStop stage.id = taken at htaken hleft ⊢
  generalize chain'.takePendingStop stage.id = taken' at htaken hleft ⊢
  obtain ⟨pending, chain⟩ := taken
  obtain ⟨pending', chain'⟩ := taken'
  simp only at htaken hleft
  subst htaken
  cases pending' with
  | some e => exact ⟨_, hleft.fail stage _, rfl⟩
  | none =>
    cases result with
    | ok => exact ⟨chain', hleft, rfl⟩
    | stopped => exact ⟨chain', hleft, rfl⟩
    | fault f =>
      simp only
      split
      · exact ⟨_, hleft.fail stage _, rfl⟩
      · exact ⟨_, hleft.emitError _ _, rfl⟩

theorem concludeCall_watched (stage : Stage) (phase : Phase) (input : Option Value)
    {served served' : Served stage.command.Memory n} (h : served.Watched start served') :
    (concludeCall stage phase input served).Watched start
      (concludeCall stage phase input served') := by
  obtain ⟨chain', hchain, rfl⟩ := h
  obtain ⟨outcome, memory, rest, chain⟩ := served
  cases outcome with
  | error p => exact ⟨chain', hchain, rfl⟩
  | ok result =>
    obtain ⟨left', hleft, hsettled⟩ := settle_watched { stage with memory := memory }
      (hchain.log (.returned stage.id phase result)) phase input result
    rw [concludeCall_ok stage phase input result memory rest chain rfl,
      concludeCall_ok stage phase input result memory rest chain' hsettled]
    exact ⟨_, hleft.log _, rfl⟩

variable {push : Push n}

/-- A lifecycle call goes in the same way, watched or not. -/
theorem invoke_watched (hpush : push.Shows start) (stage : Stage) (rest : Stages n)
    (h : chain.Watched start [] chain') (phase : Phase) (bound : Option BoundParameters)
    (input : Option Value) :
    (invoke push stage rest chain phase bound input).Watched start
      (invoke push stage rest chain' phase bound input) := by
  unfold invoke
  cases stage.state.entering phase with
  | error e => exact ⟨_, h.fail stage _, rfl⟩
  | ok state =>
    simp only [h.call_eq]
    exact concludeCall_watched { stage with state := state } phase input
      (serve_watched _ hpush _ _ rest (h.log _))

theorem processRecord_watched (hpush : push.Shows start) (stage : Stage) (rest : Stages n)
    (h : chain.Watched start [] chain') (r : Record) :
    (processRecord push stage rest chain r).Watched start
      (processRecord push stage rest chain' r) := by
  unfold processRecord
  rw [h.adapter_eq]
  cases r.object? with
  | none => exact ⟨chain', h, rfl⟩
  | some v =>
    simp only
    split
    · exact ⟨chain', h, rfl⟩
    · cases (stage.binder chain.adapter).bindObject stage.bound v with
      | ok bound => exact invoke_watched hpush stage rest h _ _ _
      | error e =>
        cases stage.bindingErrors with
        | nonTerminating => exact ⟨_, h.emitError _ _, rfl⟩
        | terminating => exact ⟨_, h.fail stage _, rfl⟩

end

/-- However deep a record is pushed, the host that watches is sent what reaches the host. -/
theorem deliver_shows (n : Nat) : (deliver n).Shows start := by
  induction n with
  | zero =>
    intro stages chain chain' r h
    cases stages
    exact ⟨_, h.deliverToHost r, rfl⟩
  | succ n ih =>
    intro stages chain chain' r h
    cases stages with
    | cons stage rest =>
    simp only [deliver, h.isHalted_eq]
    split
    · exact ⟨chain', h, rfl⟩
    · cases stage.input.write chain.isHalted r with
      | error refusal => cases refusal <;> exact ⟨chain', h, rfl⟩
      | ok pipe =>
        simp only
        rcases pipe.take chain.isHalted with ⟨read, pipe⟩
        cases read with
        | record r =>
          obtain ⟨left', hleft, hsettled⟩ :=
            processRecord_watched ih { stage with input := pipe } rest h r
          simp only [hsettled]
          exact ⟨left', hleft, rfl⟩
        | empty => exact ⟨chain', h, rfl⟩
        | endOfInput => exact ⟨chain', h, rfl⟩

end CommandChain
