import CommandChain.Proofs.Journal.Ledger
/-!
# Agreement of a chain with its journal

`Setting.Tracks` says that a chain agrees with its journal about whether it is halting, which
commands are cut off, and all that the ledger keeps. The operations on the shared state of a chain
keep that agreement.
-/

namespace CommandChain

/-- A chain agrees with its journal. -/
structure Setting.Tracks (set : Setting) (chain : Chain) : Prop where
  stop : chain.stop = set.stop
  halted : chain.isHalted = set.isHalted chain.journal
  cut : ∀ position, chain.isCut position = Journal.isCut chain.journal position
  cutAny : chain.inputCut.isSome = chain.journal.any Event.isCut
  fault : chain.fault.isSome = chain.journal.any Event.isFailed
  ledger : set.Ledger chain

namespace Setting.Tracks

variable {set : Setting} {chain chain' : Chain}

/-- An operation that adds plain steps, and leaves the flags, the cut and the fault alone, keeps
the agreement. -/
theorem of_plain (h : set.Tracks chain) {block : List Event}
    (hj : chain'.journal = chain.journal ++ block) (hb : block.all Event.isPlain = true)
    (hstop : chain'.stop = chain.stop) (hflags : chain'.flags = chain.flags)
    (hcut : chain'.inputCut = chain.inputCut) (hfault : chain'.fault = chain.fault)
    (hledger : set.Ledger chain') : set.Tracks chain' := by
  rw [List.all_eq_true] at hb
  have plain {p : Event → Bool} (hp : ∀ e, e.isPlain = true → p e = false) :
      block.any p = false := by
    rw [List.any_eq_false]
    intro e he
    rw [hp e (hb e he)]
    exact Bool.false_ne_true
  refine ⟨hstop.trans h.stop, ?_, fun position => ?_, ?_, ?_, hledger⟩
  · rw [Chain.isHalted, hflags, hstop, ← Chain.isHalted, h.halted, hj, isHalted_append,
      plain (by intro e he; cases e <;> first | rfl | cases he), Bool.or_false]
  · have hblock : Journal.isCut block position = false :=
      plain (by intro e he; cases e <;> first | rfl | cases he)
    rw [Chain.isCut, hcut, ← Chain.isCut, h.cut, hj, Journal.isCut_append, hblock, Bool.or_false]
  · rw [hcut, h.cutAny, hj, List.any_append,
      plain (by intro e he; cases e <;> first | rfl | cases he), Bool.or_false]
  · rw [hfault, h.fault, hj, List.any_append,
      plain (by intro e he; cases e <;> first | rfl | cases he), Bool.or_false]

theorem log (h : set.Tracks chain) {e : Event} (he : e.isPlain = true)
    (hneutral : e.isNeutral = true := by rfl) : set.Tracks (chain.log e) :=
  h.of_plain (chain.journal_log e) (by simpa using he) rfl rfl rfl rfl (h.ledger.log hneutral)

theorem signal (h : set.Tracks chain) (token : StopToken) : set.Tracks (chain.signal token) := by
  refine ⟨h.stop, ?_, fun position => ?_, ?_, ?_, h.ledger.signal token⟩
  · have hhalted := h.halted
    rw [Chain.isHalted] at hhalted
    rw [Chain.journal_signal, isHalted_append, ← hhalted, ← h.stop]
    simp [Chain.isHalted, Chain.signal, Chain.log, StopFlags.isSignaled_signal, Event.raises]
  · rw [Chain.journal_signal, Journal.isCut_append, ← h.cut]
    simp [Journal.isCut, Event.cutsOff, Chain.isCut, Chain.signal, Chain.log]
  · rw [Chain.journal_signal, List.any_append, ← h.cutAny]
    simp [Event.isCut, Chain.signal, Chain.log]
  · rw [Chain.journal_signal, List.any_append, ← h.fault]
    simp [Event.isFailed, Chain.signal, Chain.log]

/-- Signaling several tokens keeps a chain in agreement with its journal, one token after the other.
-/
theorem signalAll (h : set.Tracks chain) (tokens : List StopToken) :
    set.Tracks (chain.signalAll tokens) := by
  induction tokens generalizing chain with
  | nil => exact h
  | cons token tokens ih => exact ih (h.signal token)

/-- A cut further down stays, so what is cut off is decided by the furthest cut. -/
theorem cutInput (h : set.Tracks chain) (position : Nat) :
    set.Tracks (chain.cutInput ⟨position⟩ position) := by
  have hj := chain.journal_cutInput ⟨position⟩ position
  refine ⟨h.stop, ?_, fun other => ?_, ?_, ?_, h.ledger.of_neutral hj rfl rfl rfl rfl rfl rfl⟩
  · have hhalted := h.halted
    rw [Chain.journal_cutInput, isHalted_append, ← hhalted]
    simp [Event.raises, Chain.isHalted, Chain.cutInput, Chain.log]
  · rw [Chain.journal_cutInput, Journal.isCut_append, ← h.cut]
    unfold Chain.isCut Chain.cutInput
    cases hcut : chain.inputCut with
    | none => simp [Journal.isCut, Event.cutsOff]
    | some cut =>
      rw [Bool.eq_iff_iff]
      simp only [Option.any_some, Journal.isCut, Event.cutsOff, List.any_cons, List.any_nil,
        Bool.or_false, Bool.or_eq_true, decide_eq_true_eq]
      omega
  · rw [Chain.journal_cutInput, List.any_append]
    simp [Event.isCut, Chain.cutInput]
  · rw [Chain.journal_cutInput, List.any_append, ← h.fault]
    simp [Event.isFailed, Chain.cutInput, Chain.log]

theorem note (h : set.Tracks chain) (text : String) : set.Tracks (chain.note text) :=
  h.of_plain (List.append_nil _).symm rfl rfl rfl rfl rfl
    (h.ledger.of_same rfl rfl rfl rfl rfl rfl)

theorem noteAll (h : set.Tracks chain) (texts : List String) :
    set.Tracks (chain.noteAll texts) := by
  induction texts generalizing chain with
  | nil => exact h
  | cons text texts ih => exact ih (h.note text)

theorem send (h : set.Tracks chain) (m : HostMessage) : set.Tracks (chain.send m) :=
  h.of_plain (List.append_nil _).symm rfl rfl rfl rfl rfl
    (h.ledger.of_same rfl rfl rfl rfl rfl rfl)

theorem emit (h : set.Tracks chain) (payload : Payload) (source : RecordSource) :
    set.Tracks (chain.emit payload source).2 :=
  h.of_plain (chain.journal_emit payload source) rfl rfl rfl rfl rfl
    (h.ledger.emit payload source)

theorem deliverToHost (h : set.Tracks chain) (r : Record) : set.Tracks (chain.deliverToHost r) :=
  h.of_plain (chain.journal_deliverToHost r) rfl rfl rfl rfl rfl (h.ledger.deliverToHost r)

/-- Reporting an error keeps a chain in agreement with its journal. -/
theorem emitError (h : set.Tracks chain) (source : RecordSource) (e : ErrorRecord) :
    set.Tracks (chain.emitError source e) :=
  (h.emit _ source).deliverToHost _

/-- A command writes a message. -/
theorem report (h : set.Tracks chain) {call : Call}
    (hpreferences : set.preferences call.id = call.preferences) (m : Message) :
    set.Tracks (call.report m (chain.log (.reporting call.id m))).2 := by
  have hledger := h.ledger.report hpreferences m
  have hj := chain.journal_report call m
  refine h.of_plain hj ?_ ?_ ?_ ?_ ?_ hledger
  · split <;> rfl
  all_goals
    unfold Call.report
    simp only
    split <;> split <;> rfl

/-- A call returns, and the error with which it has to end is taken. -/
theorem returned (h : set.Tracks chain) (id : CommandId) (phase : Phase) (result : CallResult) :
    set.Tracks ((chain.log (.returned id phase result)).takePendingStop id).2 := by
  have hledger := h.ledger.returned id phase result
  rw [Chain.takePendingStop_eq] at hledger ⊢
  exact h.of_plain (chain.journal_log (.returned id phase result)) rfl rfl rfl rfl rfl hledger

/-- What a chain that a command ran leaves behind keeps the chain in agreement with its journal. -/
theorem absorb (h : set.Tracks chain) (report : ChainReport) :
    set.Tracks (chain.absorb report) :=
  (h.noteAll _).signalAll _

/-- A terminating fault is recorded and halts the chain. -/
theorem fail (h : set.Tracks chain) (stage : Stage) (e : ErrorRecord) :
    set.Tracks (stage.fail chain e).2 := by
  have hj := stage.journal_fail chain e
  have hs := ((h.emitError stage.source { e with terminating := true }).signal chain.stop)
  refine ⟨hs.stop, ?_, fun position => ?_, ?_, ?_, h.ledger.fail stage e⟩
  · have hhalted : (stage.fail chain e).2.isHalted = _ := hs.halted
    rw [hj, isHalted_append]
    rw [Chain.journal_signal, Chain.journal_emitError, isHalted_append, isHalted_append] at hhalted
    simpa [Event.raises] using hhalted
  · have hcut : (stage.fail chain e).2.isCut position = _ := hs.cut position
    rw [hj, Journal.isCut_append]
    rw [Chain.journal_signal, Chain.journal_emitError, Journal.isCut_append,
      Journal.isCut_append] at hcut
    simpa [Journal.isCut, Event.cutsOff] using hcut
  · have hcut : (stage.fail chain e).2.inputCut.isSome = _ := hs.cutAny
    rw [hj, List.any_append]
    rw [Chain.journal_signal, Chain.journal_emitError, List.any_append, List.any_append] at hcut
    simpa [Event.isCut] using hcut
  · rw [hj, List.any_append]
    simp [Event.isFailed, Stage.fail, Chain.signal, Chain.log]

end Setting.Tracks

end CommandChain
