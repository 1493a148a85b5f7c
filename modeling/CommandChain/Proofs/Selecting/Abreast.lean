import CommandChain.Proofs.Conduct.Calm
import CommandChain.Proofs.Disposal.Replacement
import CommandChain.Proofs.Pipes.Coverage
import CommandChain.Proofs.Pipes.Passing
/-!
# Runs that go abreast

What stands behind some commands in a chain is not seen by them, as long as it takes what they write
and does not interfere: it raises no signal, and cuts nothing off. So two chains that have their first
commands in common go abreast, whatever stands behind these in either, until the run of one of them is
disturbed, or unwound by a panic, or the first command behind them needs no more. A `Pairing` says what
is compared, and every function of the engine keeps two runs abreast or leaves them apart for good.
-/

namespace CommandChain

/-- A row of stages with another one behind it. -/
def Stages.append : {n m : Nat} → Stages n → Stages m → Stages (m + n)
  | _, _, nil, back => back
  | _, _, cons stage rest, back => cons stage (rest.append back)

/-! ## What journals are compared by -/

/-- The object of a step that calls the command at a position to process. -/
def Event.taken? (k : Nat) : Event → Option (Option Value)
  | called id .process _ input => if id = ⟨k⟩ then some input else none
  | _ => none

/-- A step that disturbs the command at a position: a signal, a cut that another command makes, that a
command in front of it does not complete beginning, and that it is told to stop where it writes an
object. -/
def Event.Disturbs (k : Nat) : Event → Prop
  | signaled _ => True
  | cut id => id ≠ ⟨k⟩
  | settled id .begin completed => id.number < k ∧ completed = false
  | wrote id .stopped => id = ⟨k⟩
  | _ => False

instance (k : Nat) : DecidablePred (Event.Disturbs k)
  | .signaled _ => .isTrue trivial
  | .cut id => inferInstanceAs (Decidable (id ≠ ⟨k⟩))
  | .settled id .begin completed => inferInstanceAs (Decidable (id.number < k ∧ completed = false))
  | .wrote id .stopped => inferInstanceAs (Decidable (id = ⟨k⟩))
  | .wrote _ .ok | .wrote _ (.fault _) | .settled _ .bind _ | .settled _ .process _
  | .settled _ .finish _ | .settled _ .stop _ | .settled _ .dispose _
  | .called .. | .returned .. | .failed _ | .feeding _ | .writing .. | .reporting ..
  | .emitted _ | .delivered _ | .stopping _ | .disposing _ => .isFalse id

namespace Journal

variable {journal : List Event} {k : Nat}

/-- The objects with which the command at a position is called to process. -/
def processed (journal : List Event) (k : Nat) : List (Option Value) :=
  journal.filterMap (Event.taken? k)

/-- The objects that reach the host. -/
def arrivals (journal : List Event) : List Value :=
  (deliveries journal).filterMap Record.object?

/-- The command at a position is disturbed. -/
def Disturbed (k : Nat) (journal : List Event) : Prop :=
  ∃ e ∈ journal, e.Disturbs k

instance (k : Nat) (journal : List Event) : Decidable (Disturbed k journal) :=
  inferInstanceAs (Decidable (∃ e ∈ journal, e.Disturbs k))

@[simp] theorem processed_append (journal block : List Event) (k : Nat) :
    processed (journal ++ block) k = processed journal k ++ processed block k :=
  List.filterMap_append ..

@[simp] theorem arrivals_append (journal block : List Event) :
    arrivals (journal ++ block) = arrivals journal ++ arrivals block := by
  rw [arrivals, deliveries_append, List.filterMap_append]
  rfl

/-- Nothing reaches the host where what is delivered is no object. -/
theorem arrivals_eq_nil (h : ∀ e ∈ journal, ∀ r, e = .delivered r → r.object? = none) :
    arrivals journal = [] := by
  refine List.filterMap_eq_nil_iff.mpr fun r hr => ?_
  obtain ⟨e, he, hdelivered⟩ := List.mem_filterMap.mp hr
  unfold Event.delivered? at hdelivered
  split at hdelivered
  · cases hdelivered
    exact h _ he _ rfl
  · cases hdelivered

/-- A disturbance is not undone by what follows. -/
theorem Disturbed.mono {later : List Event} (h : Disturbed k journal) (hgrown : journal <+: later) :
    Disturbed k later := by
  obtain ⟨e, he, hdisturbs⟩ := h
  exact ⟨e, hgrown.subset he, hdisturbs⟩

end Journal

/-- What is delivered reaches the host where it is an object. -/
theorem Chain.arrivals_deliverToHost (chain : Chain) (r : Record) :
    Journal.arrivals (chain.deliverToHost r).journal
      = Journal.arrivals chain.journal ++ r.object?.toList := by
  rw [chain.journal_deliverToHost, Journal.arrivals_append]
  cases hobject : r.object? <;>
    simp [Journal.arrivals, Journal.deliveries, Event.delivered?, hobject]

/-- A journal that moments cover has only grown. -/
theorem Covers.grown {moments : List Moment} {journal journal' : List Event}
    (h : Covers moments journal journal') : journal <+: journal' := by
  obtain ⟨added, rfl, -⟩ := h
  exact List.prefix_append _ _

/-! ## Chains -/

/-- A chain that has not been halted or cut off since it was another one. -/
structure Chain.Even (base chain : Chain) : Prop where
  stop : chain.stop = base.stop
  flags : chain.flags = base.flags
  adapter : chain.adapter = base.adapter
  scripts : chain.scripts = base.scripts
  uncut : chain.inputCut = none

namespace Chain.Even

variable {base chain : Chain}

/-- An even chain is halted exactly if it was at the start. -/
theorem isHalted (h : base.Even chain) : chain.isHalted = base.isHalted := by
  rw [Chain.isHalted, h.flags, h.stop]
  rfl

/-- Nothing is cut off in an even chain. -/
theorem isCut (h : base.Even chain) (position : Nat) : chain.isCut position = false := by
  rw [Chain.isCut, h.uncut]
  rfl

theorem log (h : base.Even chain) (e : Event) : base.Even (chain.log e) :=
  ⟨h.stop, h.flags, h.adapter, h.scripts, h.uncut⟩

theorem note (h : base.Even chain) (text : String) : base.Even (chain.note text) :=
  ⟨h.stop, h.flags, h.adapter, h.scripts, h.uncut⟩

theorem emit (h : base.Even chain) (payload : Payload) (source : RecordSource) :
    base.Even (chain.emit payload source).2 :=
  ⟨h.stop, h.flags, h.adapter, h.scripts, h.uncut⟩

theorem deliverToHost (h : base.Even chain) (r : Record) : base.Even (chain.deliverToHost r) :=
  ⟨h.stop, h.flags, h.adapter, h.scripts, h.uncut⟩

theorem emitError (h : base.Even chain) (source : RecordSource) (e : ErrorRecord) :
    base.Even (chain.emitError source e) :=
  (h.emit _ source).deliverToHost _

theorem escalateAfterCall (h : base.Even chain) (id : CommandId) (e : ErrorRecord) :
    base.Even (chain.escalateAfterCall id e) :=
  ⟨h.stop, h.flags, h.adapter, h.scripts, h.uncut⟩

theorem takePendingStop (h : base.Even chain) (id : CommandId) :
    base.Even (chain.takePendingStop id).2 := by
  rw [Chain.takePendingStop_eq]
  exact ⟨h.stop, h.flags, h.adapter, h.scripts, h.uncut⟩

/-- A message leaves the chain even. -/
theorem report (h : base.Even chain) (call : Call) (m : Message) :
    base.Even (call.report m chain).2 := by
  unfold Call.report
  simp only
  split <;> split
  · exact ((h.emit _ _).deliverToHost _).escalateAfterCall _ _
  · exact (h.emit _ _).escalateAfterCall _ _
  · exact (h.emit _ _).deliverToHost _
  · exact h.emit _ _

/-- A call is the same in an even chain as at the start. -/
theorem call_eq (h : base.Even chain) (stage : Stage) (phase : Phase)
    (parameters : BoundParameters) (input : Option Value) :
    stage.call chain phase parameters input = stage.call base phase parameters input := by
  unfold Stage.call
  rw [h.adapter, h.scripts]

end Chain.Even

/-- What two runs are compared by: the chain as it was at the start of both, where the commands stand
that they have in common and the first one behind these, when that one needs no more, by the journals
of the runs, and what holds of the stages from there on in either run, by what that command was called
with in the first run and what reached the host of the second. -/
structure Pairing (m m' : Nat) where
  base : Chain
  running : base.isHalted = false
  position : Nat
  Front : Nat → Prop
  front_ne : ∀ q, Front q → q ≠ position
  Enough : List Event → List Event → Prop
  enough_mono : ∀ {journal journal' later later'}, Enough journal journal' → journal <+: later →
    journal' <+: later' → Enough later later'
  Behind : List (Option Value) → List Value → Stages m → Stages m' → Prop

namespace Pairing

variable {m m' n : Nat} (pair : Pairing m m')

/-- The runs are apart for good: the first was disturbed, or the command behind needs no more. -/
def Apart (chain chain' : Chain) : Prop :=
  Journal.Disturbed pair.position chain.journal ∨ pair.Enough chain.journal chain'.journal

/-- Two chains that are the same for the commands that they have in common. -/
structure Abreast (taken : List (Option Value)) (passed : List Value) (chain chain' : Chain) :
    Prop where
  even : pair.base.Even chain
  even' : pair.base.Even chain'
  pending : chain'.pendingStop = chain.pendingStop
  processed : Journal.processed chain.journal pair.position = taken
  arrived : Journal.arrivals chain'.journal = passed

/-- Two rows of stages have the first ones in common, and in their chains these go abreast. -/
def Level (row : Stages (m + n)) (row' : Stages (m' + n)) (chain chain' : Chain) : Prop :=
  ∃ (front : Stages n) (back : Stages m) (back' : Stages m') (taken : List (Option Value))
    (passed : List Value), (∀ stage ∈ front.toList, pair.Front stage.position)
    ∧ row = front.append back ∧ row' = front.append back' ∧ pair.Behind taken passed back back'
    ∧ pair.Abreast taken passed chain chain'

/-- What a function of the engine makes of two runs that went abreast: they are apart, or the first
was unwound, or both came to the same and go abreast. -/
inductive Followed {α : Type} (outcome outcome' : Except Panic α) (chain chain' : Chain)
    (level : Prop) : Prop
  | apart (h : pair.Apart chain chain')
  | panicked (p : Panic) (h : outcome = .error p)
  | level (h : outcome' = outcome) (hlevel : level)

variable {pair} {chain chain' later later' : Chain}

/-- Runs that are apart stay apart. -/
theorem Apart.mono (h : pair.Apart chain chain') (hgrown : chain.journal <+: later.journal)
    (hgrown' : chain'.journal <+: later'.journal) : pair.Apart later later' :=
  h.imp (·.mono hgrown) (pair.enough_mono · hgrown hgrown')

/-- The runs are apart where a step disturbs the first. -/
theorem apart_of_mem {e : Event} (he : e ∈ chain.journal) (hdisturbs : e.Disturbs pair.position) :
    pair.Apart chain chain' :=
  .inl ⟨e, he, hdisturbs⟩

/-- A signal drives two runs apart. -/
theorem apart_of_signaled (token : StopToken) (he : .signaled token ∈ chain.journal) :
    pair.Apart chain chain' :=
  apart_of_mem he trivial

/-- A command that fails drives two runs apart, since its fault raises the flag of the chain. -/
theorem apart_fail (stage : Stage) (e : ErrorRecord) :
    pair.Apart (stage.fail chain e).2 chain' :=
  apart_of_signaled chain.stop (by simp [stage.journal_fail])

/-- What is done next follows from what was done, where it unwinds what did. -/
theorem Followed.andThen {α β : Type} {outcome outcome' : Except Panic α}
    {last last' : Except Panic β} {level level' : Prop}
    (h : pair.Followed outcome outcome' chain chain' level)
    (hgrown : chain.journal <+: later.journal) (hgrown' : chain'.journal <+: later'.journal)
    (hpanic : ∀ p, outcome = .error p → last = .error p)
    (hnext : outcome' = outcome → level → pair.Followed last last' later later' level') :
    pair.Followed last last' later later' level' := by
  cases h with
  | apart h => exact .apart (h.mono hgrown hgrown')
  | panicked p h => exact .panicked p (hpanic p h)
  | level h hlevel => exact hnext h hlevel

namespace Abreast

variable {taken : List (Option Value)} {passed : List Value}

/-- The first of two chains that go abreast is running. -/
theorem running (h : pair.Abreast taken passed chain chain') : chain.isHalted = false :=
  h.even.isHalted.trans pair.running

/-- The second of two chains that go abreast is running. -/
theorem running' (h : pair.Abreast taken passed chain chain') : chain'.isHalted = false :=
  h.even'.isHalted.trans pair.running

theorem flags_eq (h : pair.Abreast taken passed chain chain') : chain'.flags = chain.flags :=
  h.even'.flags.trans h.even.flags.symm

theorem adapter_eq (h : pair.Abreast taken passed chain chain') : chain'.adapter = chain.adapter :=
  h.even'.adapter.trans h.even.adapter.symm

/-- Whether a call is to stop reads the same in both chains, as nothing is cut off in either. -/
theorem isStopping_eq (h : pair.Abreast taken passed chain chain') (call : Call) :
    call.isStopping chain' = call.isStopping chain := by
  rw [Call.isStopping, Call.isStopping, h.running, h.running', h.even.isCut, h.even'.isCut,
    Chain.hasPendingStop, Chain.hasPendingStop, h.pending]

/-- A call is the same in both chains. -/
theorem call_eq (h : pair.Abreast taken passed chain chain') (stage : Stage) (phase : Phase)
    (parameters : BoundParameters) (input : Option Value) :
    stage.call chain' phase parameters input = stage.call chain phase parameters input := by
  rw [h.even.call_eq, h.even'.call_eq]

/-- Operations that add steps with no part in the comparison keep two chains abreast. -/
theorem of_steps (h : pair.Abreast taken passed chain chain') (heven : pair.base.Even later)
    (heven' : pair.base.Even later') (hpending : later'.pendingStop = later.pendingStop)
    {block block' : List Event} (hj : later.journal = chain.journal ++ block)
    (hj' : later'.journal = chain'.journal ++ block')
    (hblock : ∀ e ∈ block, e.taken? pair.position = none)
    (hblock' : ∀ e ∈ block', ∀ r, e = .delivered r → r.object? = none) :
    pair.Abreast taken passed later later' := by
  refine ⟨heven, heven', hpending, ?_, ?_⟩
  · rw [hj, Journal.processed_append, h.processed, Journal.processed,
      List.filterMap_eq_nil_iff.mpr hblock, List.append_nil]
  · rw [hj', Journal.arrivals_append, h.arrived, Journal.arrivals_eq_nil hblock', List.append_nil]

/-- Steps other than calls of the command at the position and deliveries keep two chains abreast. -/
theorem log (h : pair.Abreast taken passed chain chain') {e e' : Event}
    (he : e.taken? pair.position = none) (he' : ∀ r, e' ≠ .delivered r) :
    pair.Abreast taken passed (chain.log e) (chain'.log e') :=
  h.of_steps (h.even.log e) (h.even'.log e') h.pending (chain.journal_log e) (chain'.journal_log e')
    (by simpa using he) (by simpa using fun r hr => absurd hr (he' r))

theorem note (h : pair.Abreast taken passed chain chain') (text : String) :
    pair.Abreast taken passed (chain.note text) (chain'.note text) :=
  ⟨h.even.note text, h.even'.note text, h.pending, h.processed, h.arrived⟩

theorem noteAll (h : pair.Abreast taken passed chain chain') (texts : List String) :
    pair.Abreast taken passed (chain.noteAll texts) (chain'.noteAll texts) := by
  induction texts generalizing chain chain' with
  | nil => exact h
  | cons text texts ih => exact ih (h.note text)

/-- Making a record, perhaps another one in either chain, keeps them abreast. -/
theorem emit (h : pair.Abreast taken passed chain chain') (payload payload' : Payload)
    (source source' : RecordSource) :
    pair.Abreast taken passed (chain.emit payload source).2 (chain'.emit payload' source').2 :=
  h.of_steps (h.even.emit _ _) (h.even'.emit _ _) h.pending (chain.journal_emit _ _)
    (chain'.journal_emit _ _) (by simp [Event.taken?]) (by simp)

/-- Reporting an error keeps two chains abreast: it is delivered, but is no object. -/
theorem emitError (h : pair.Abreast taken passed chain chain') (source : RecordSource)
    (e : ErrorRecord) :
    pair.Abreast taken passed (chain.emitError source e) (chain'.emitError source e) := by
  have hobject : (chain'.errorRecord source e).object? = none := rfl
  exact h.of_steps (h.even.emitError _ _) (h.even'.emitError _ _) h.pending
    (chain.journal_emitError _ _) (chain'.journal_emitError _ _) (by simp [Event.taken?])
    (by simp [hobject])

/-- Settling what is pending gives the same in both chains, and keeps them abreast. -/
theorem takePendingStop (h : pair.Abreast taken passed chain chain') (id : CommandId) :
    (chain'.takePendingStop id).1 = (chain.takePendingStop id).1
      ∧ pair.Abreast taken passed (chain.takePendingStop id).2 (chain'.takePendingStop id).2 := by
  have hleft := h.even.takePendingStop id
  have hleft' := h.even'.takePendingStop id
  rw [Chain.takePendingStop_eq] at hleft hleft'
  rw [Chain.takePendingStop_eq, Chain.takePendingStop_eq, h.pending]
  rw [h.pending] at hleft'
  exact ⟨rfl, hleft, hleft', rfl, h.processed, h.arrived⟩

/-- A message is answered in both runs alike. -/
theorem report (h : pair.Abreast taken passed chain chain') (call : Call) (message : Message) :
    (call.report message (chain'.log (.reporting call.id message))).1
        = (call.report message (chain.log (.reporting call.id message))).1
      ∧ pair.Abreast taken passed (call.report message (chain.log (.reporting call.id message))).2
        (call.report message (chain'.log (.reporting call.id message))).2 := by
  have hpending {c c' : Chain} (hc : c'.pendingStop = c.pendingStop) :
      (call.report message c').1 = (call.report message c).1
        ∧ (call.report message c').2.pendingStop = (call.report message c).2.pendingStop := by
    have hkept (e : ErrorRecord) :
        some (c'.pendingStop.getD (call.id, e)) = some (c.pendingStop.getD (call.id, e)) := by
      rw [hc]
    unfold Call.report
    simp only
    split <;> split
    · exact ⟨rfl, hkept _⟩
    · exact ⟨rfl, hkept _⟩
    · exact ⟨rfl, hc⟩
    · exact ⟨rfl, hc⟩
  have hsame := @hpending (chain.log (.reporting call.id message))
    (chain'.log (.reporting call.id message)) h.pending
  refine ⟨hsame.1, h.of_steps ((h.even.log _).report call message)
    ((h.even'.log _).report call message) hsame.2 (chain.journal_report call message)
    (chain'.journal_report call message) ?_ ?_⟩
  · split <;> simp [Event.taken?]
  · have hobject : (call.record message chain').object? = none := rfl
    split <;> simp [hobject]

end Abreast

/-! ## Rows -/

namespace Level

variable {row : Stages (m + n)} {row' : Stages (m' + n)}

/-- What keeps two chains abreast keeps rows level. -/
theorem imp (h : pair.Level row row' chain chain') (himp : ∀ taken passed,
    pair.Abreast taken passed chain chain' → pair.Abreast taken passed later later') :
    pair.Level row row' later later' := by
  obtain ⟨front, back, back', taken, passed, hfront, hrow, hrow', hbehind, habreast⟩ := h
  exact ⟨front, back, back', taken, passed, hfront, hrow, hrow', hbehind, himp taken passed habreast⟩

/-- A step with no part in the comparison keeps rows level. -/
theorem log (h : pair.Level row row' chain chain') (e : Event)
    (he : e.taken? pair.position = none) (hother : ∀ r, e ≠ .delivered r := by simp) :
    pair.Level row row' (chain.log e) (chain'.log e) :=
  h.imp fun _ _ h => h.log he hother

/-- Chains whose rows are level go abreast. -/
theorem abreast (h : pair.Level row row' chain chain') :
    ∃ taken passed, pair.Abreast taken passed chain chain' := by
  obtain ⟨front, back, back', taken, passed, -, -, -, -, habreast⟩ := h
  exact ⟨taken, passed, habreast⟩

/-- A stage in front of both rows is one more that they have in common. -/
theorem cons {stage : Stage} (hstage : pair.Front stage.position)
    (h : pair.Level row row' chain chain') :
    pair.Level (n := n + 1) (.cons stage row) (.cons stage row') chain chain' := by
  obtain ⟨front, back, back', taken, passed, hfront, rfl, rfl, hbehind, habreast⟩ := h
  exact ⟨.cons stage front, back, back', taken, passed,
    List.forall_mem_cons.mpr ⟨hstage, hfront⟩, rfl, rfl, hbehind, habreast⟩

/-- The first of the stages in common stands in front of both rows. -/
theorem exists_of_succ {row : Stages (m + (n + 1))} {row' : Stages (m' + (n + 1))}
    (h : pair.Level row row' chain chain') :
    ∃ stage rest rest', row = .cons stage rest ∧ row' = .cons stage rest'
      ∧ pair.Front stage.position ∧ pair.Level (n := n) rest rest' chain chain' := by
  obtain ⟨front, back, back', taken, passed, hfront, rfl, rfl, hbehind, habreast⟩ := h
  cases front with
  | cons stage front =>
  obtain ⟨hstage, hfront⟩ := List.forall_mem_cons.mp hfront
  exact ⟨stage, front.append back, front.append back', rfl, rfl, hstage, front, back, back', taken,
    passed, hfront, rfl, rfl, hbehind, habreast⟩

end Level

end Pairing

/-! ## Lifecycle calls -/

section

variable {m m' n : Nat} (pair : Pairing m m')

/-- Two pushes came to the same in runs that go abreast. -/
def Pushed.Followed (pushed : Pushed (m + n)) (pushed' : Pushed (m' + n)) : Prop :=
  pair.Followed pushed.outcome pushed'.outcome pushed.chain pushed'.chain
    (pair.Level pushed.stages pushed'.stages pushed.chain pushed'.chain)

/-- Two hooks came to the same in runs that go abreast. -/
def Served.Followed {σ : Type} (served : Served σ (m + n)) (served' : Served σ (m' + n)) : Prop :=
  pair.Followed served.outcome served'.outcome served.chain served'.chain
    (served'.memory = served.memory
      ∧ pair.Level served.rest served'.rest served.chain served'.chain)

/-- Two calls came to the same in runs that go abreast. -/
def Settled.Followed (settled : Settled (m + n)) (settled' : Settled (m' + n)) : Prop :=
  pair.Followed settled.outcome settled'.outcome settled.chain settled'.chain
    (settled'.stage = settled.stage ∧ pair.Front settled.stage.position
      ∧ pair.Level settled.rest settled'.rest settled.chain settled'.chain)

/-- Two steps of a run came to the same in runs that go abreast. -/
def Ran.Followed (ran : Ran (m + n)) (ran' : Ran (m' + n)) : Prop :=
  pair.Followed ran.outcome ran'.outcome ran.chain ran'.chain
    (pair.Level ran.stages ran'.stages ran.chain ran'.chain)

/-- Deliveries past so many stages in common keep two runs abreast. -/
def Pairing.Carries (n : Nat) : Prop :=
  ∀ (row : Stages (m + n)) (row' : Stages (m' + n)) (chain chain' : Chain) (r r' : Record),
    r'.object? = r.object? → chain.pendingStop = none → pair.Level row row' chain chain' →
    (deliver (m + n) row chain r).Followed pair (deliver (m' + n) row' chain' r')

variable {pair} {chain chain' : Chain} {rest : Stages (m + n)} {rest' : Stages (m' + n)}

/-- A write of a command in front comes to the same in both runs, if a delivery past the stages
behind it does. -/
theorem Call.writeObject_followed {call : Call} (hpush : call.phase = .begin ∨ pair.Carries n)
    (v : Value) (hattends : chain.Attends call.id) (h : pair.Level rest rest' chain chain') :
    (call.writeObject (deliver (m + n)) v rest chain).Followed pair
      (call.writeObject (deliver (m' + n)) v rest' chain') := by
  obtain ⟨taken, passed, habreast⟩ := h.abreast
  unfold Call.writeObject
  rw [habreast.isStopping_eq]
  by_cases hstop : call.isStopping chain = true
  · rw [if_pos hstop, if_pos hstop]
    exact .level rfl h
  · rw [if_neg hstop, if_neg hstop]
    rw [Bool.not_eq_true] at hstop
    by_cases hbegin : call.phase = .begin
    · rw [hbegin]
      exact .level rfl h
    · rw [if_neg (by simpa using hbegin), if_neg (by simpa using hbegin)]
      exact hpush.resolve_left hbegin rest rest' _ _ _ _ rfl (hattends.none_of_not_stopping hstop)
        (h.imp fun _ _ h => h.emit _ _ _ _)

/-- What was pushed stays in the journal while the hook goes on. -/
theorem serve_write_grown (stage : Stage) {call : Call} (hid : call.id = stage.id) (v : Value)
    (next : CallResult → Hook stage.command.Memory) (memory : stage.command.Memory)
    (rest : Stages n) (chain : Chain) :
    (call.writeObject (deliver n) v rest (chain.log (.writing call.id v))).chain.journal
      <+: (serve call (deliver n) (.write v next) memory rest chain).chain.journal := by
  unfold serve
  dsimp only
  split
  · exact List.prefix_rfl
  · refine List.IsPrefix.trans ?_ (serve_covers stage call hid (deliver_covers n) _ _ _ _).grown
    rw [Chain.journal_log]
    exact List.prefix_append _ _

/-- Hooks that are served alike keep two runs abreast. Where a hook interferes, its run is apart, and
stays so while the hook goes on. -/
theorem serve_followed (stage : Stage) (call : Call) (hid : call.id = stage.id)
    (hfront : pair.Front stage.position) (hpush : call.phase = .begin ∨ pair.Carries n)
    (hook : Hook stage.command.Memory) (memory : stage.command.Memory)
    (hattends : chain.Attends call.id) (h : pair.Level rest rest' chain chain') :
    (serve call (deliver (m + n)) hook memory rest chain).Followed pair
      (serve call (deliver (m' + n)) hook memory rest' chain') := by
  have hgrown {k : Nat} (hook : Hook stage.command.Memory) (memory : stage.command.Memory)
      (rest : Stages k) (chain : Chain) :
      chain.journal <+: (serve call (deliver k) hook memory rest chain).chain.journal :=
    (serve_covers stage call hid (deliver_covers k) hook memory rest chain).grown
  induction hook generalizing memory rest rest' chain chain' with
  | done result => exact .level rfl ⟨rfl, h⟩
  | panic p => exact .panicked p rfl
  | store memory' next ih => exact ih memory' hattends h
  | write v next ih =>
    have hlogged : (chain.log (.writing call.id v)).Attends call.id := hattends.of_eq rfl
    have hwritten := Call.writeObject_followed hpush v hlogged
      (h.log (.writing call.id v) rfl)
    refine hwritten.andThen (serve_write_grown stage hid v next memory rest chain)
      (serve_write_grown stage hid v next memory rest' chain') (fun p hp => ?_) fun hsame hlevel => ?_
    · unfold serve
      simp only [hp]
    · have hcalm := fun result (hok : _ = Except.ok result) =>
        call.writeObject_attends (deliver_calm (m + n)) v rest hlogged hok
      unfold serve
      simp only [hsame]
      generalize call.writeObject (deliver (m + n)) v rest (chain.log (.writing call.id v)) = pushed
        at hcalm hlevel ⊢
      cases hout : pushed.outcome with
      | error p => exact .panicked p rfl
      | ok result =>
        exact ih result memory ((hcalm result hout).of_eq rfl)
          (hlevel.log (.wrote call.id result) rfl)
  | report message next ih =>
    obtain ⟨taken, passed, habreast⟩ := h.abreast
    unfold serve
    simp only [(habreast.report call message).1]
    exact ih _ memory (call.report_attends hattends message)
      (h.imp fun _ _ h => (h.report call message).2)
  | cutInput next ih =>
    have hcut : pair.Apart (chain.cutInput call.id call.position)
        (chain'.cutInput call.id call.position) :=
      Pairing.apart_of_mem (e := .cut call.id) (by simp) fun hsame =>
        pair.front_ne _ hfront (congrArg CommandId.number (hid.symm.trans hsame))
    exact .apart (hcut.mono (hgrown next memory rest _) (hgrown next memory rest' _))
  | askStopping next ih =>
    obtain ⟨taken, passed, habreast⟩ := h.abreast
    unfold serve
    rw [habreast.isStopping_eq]
    exact ih _ memory hattends h
  | note text next ih => exact ih memory (hattends.of_eq rfl) (h.imp fun _ _ h => h.note text)
  | signal token next ih =>
    have hsignaled : pair.Apart (chain.signal token) (chain'.signal token) :=
      Pairing.apart_of_signaled token (by simp)
    exact .apart (hsignaled.mono (hgrown next memory rest _) (hgrown next memory rest' _))
  | askSignaled token next ih =>
    obtain ⟨taken, passed, habreast⟩ := h.abreast
    unfold serve
    rw [habreast.flags_eq]
    exact ih _ memory hattends h
  | runChain run next ih =>
    obtain ⟨taken, passed, habreast⟩ := h.abreast
    unfold serve
    simp only [habreast.flags_eq]
    cases hout : (run chain.flags).outcome with
    | error p => exact .panicked p rfl
    | ok outcome =>
      cases hsignals : (run chain.flags).signals with
      | nil =>
        have hquiet (c : Chain) : c.absorb (run chain.flags) = c.noteAll (run chain.flags).notes := by
          rw [Chain.absorb, hsignals]
          rfl
        refine ih outcome memory (hattends.of_eq (chain.pendingStop_absorb _)) ?_
        rw [hquiet, hquiet]
        exact h.imp fun _ _ h => h.noteAll _
      | cons token tokens =>
        have hsignaled : pair.Apart (chain.absorb (run chain.flags)) (chain'.absorb (run chain.flags)) :=
          Pairing.apart_of_signaled token (by simp [hsignals])
        exact .apart (hsignaled.mono (hgrown _ memory rest _) (hgrown _ memory rest' _))

/-- A result is settled in both runs alike, unless it halts the first. -/
theorem settle_followed (stage : Stage) (h : pair.Level rest rest' chain chain') (phase : Phase)
    (input : Option Value) (result : CallResult) :
    pair.Apart (settle stage chain phase input result).2.2
        (settle stage chain' phase input result).2.2
      ∨ (settle stage chain' phase input result).1 = (settle stage chain phase input result).1
        ∧ (settle stage chain phase input result).2.1 = stage
        ∧ (settle stage chain' phase input result).2.1 = stage
        ∧ pair.Level rest rest' (settle stage chain phase input result).2.2
          (settle stage chain' phase input result).2.2 := by
  obtain ⟨taken, passed, habreast⟩ := h.abreast
  have hsame := (habreast.takePendingStop stage.id).1
  have hleft := h.imp fun _ _ h => (h.takePendingStop stage.id).2
  unfold settle
  generalize chain.takePendingStop stage.id = left at hsame hleft ⊢
  generalize chain'.takePendingStop stage.id = left' at hsame hleft ⊢
  obtain ⟨pending, left⟩ := left
  obtain ⟨pending', left'⟩ := left'
  obtain rfl : pending' = pending := hsame
  cases pending' with
  | some e => exact .inl (Pairing.apart_fail stage _)
  | none =>
    cases result with
    | ok => exact .inr ⟨rfl, rfl, rfl, hleft⟩
    | stopped => exact .inr ⟨rfl, rfl, rfl, hleft⟩
    | fault f =>
      dsimp only
      split
      · exact .inl (Pairing.apart_fail stage _)
      · exact .inr ⟨rfl, rfl, rfl, hleft.imp fun _ _ h => h.emitError _ _⟩

/-- What a hook did stays in the journal when its result is settled. -/
theorem concludeCall_grown (stage : Stage) (phase : Phase) (input : Option Value)
    (served : Served stage.command.Memory n) :
    served.chain.journal <+: (concludeCall stage phase input served).chain.journal := by
  obtain ⟨outcome, memory, rest, chain⟩ := served
  cases outcome with
  | error p => exact List.prefix_rfl
  | ok result =>
    rw [concludeCall_ok stage phase input result memory rest chain rfl, Chain.journal_log]
    refine List.IsPrefix.trans ?_ (List.prefix_append _ _)
    have hsettled : Covers [] _ _ := settle_covers { stage with memory := memory }
      (chain.log (.returned stage.id phase result)) phase input result
    refine List.IsPrefix.trans ?_ hsettled.grown
    rw [Chain.journal_log]
    exact List.prefix_append _ _

/-- Concluding a call comes to the same in both runs if serving its hook did. -/
theorem concludeCall_followed (stage : Stage) (hfront : pair.Front stage.position) (phase : Phase)
    (input : Option Value) {served : Served stage.command.Memory (m + n)}
    {served' : Served stage.command.Memory (m' + n)} (h : served.Followed pair served') :
    (concludeCall stage phase input served).Followed pair (concludeCall stage phase input served') := by
  refine h.andThen (concludeCall_grown stage phase input served)
    (concludeCall_grown stage phase input served') (fun p hp => ?_) fun hsame hlevel => ?_
  · unfold concludeCall
    simp only [hp]
  · obtain ⟨outcome, memory, rest, chain⟩ := served
    obtain ⟨outcome', memory', rest', chain'⟩ := served'
    obtain rfl : outcome' = outcome := hsame
    obtain ⟨rfl, hrest⟩ : memory' = memory ∧ pair.Level rest rest' chain chain' := hlevel
    cases outcome' with
    | error p => exact .panicked p rfl
    | ok result =>
      have hreturned := hrest.log (.returned stage.id phase result) rfl
      have hsettled := settle_followed { stage with memory := memory' } hreturned phase input result
      generalize hout : settle { stage with memory := memory' }
        (chain.log (.returned stage.id phase result)) phase input result = out at hsettled
      generalize hout' : settle { stage with memory := memory' }
        (chain'.log (.returned stage.id phase result)) phase input result = out' at hsettled
      rw [concludeCall_ok stage phase input result memory' rest chain hout,
        concludeCall_ok stage phase input result memory' rest' chain' hout']
      obtain ⟨result, settled, left⟩ := out
      obtain ⟨result', settled', left'⟩ := out'
      rcases hsettled with hapart | ⟨hresult, hstage, hstage', hleft⟩
      · refine .apart (hapart.mono ?_ ?_) <;> exact (Chain.journal_log ..).symm ▸ List.prefix_append _ _
      · dsimp only at hresult hstage hstage' hleft ⊢
        subst hresult hstage hstage'
        exact .level rfl ⟨rfl, hfront, hleft.log _ rfl⟩

/-- A call of a command that two runs have in common is the same in both. -/
theorem invoke_followed (stage : Stage) (hfront : pair.Front stage.position) {phase : Phase}
    (hpush : phase = .begin ∨ pair.Carries n) (hnone : chain.pendingStop = none)
    (h : pair.Level rest rest' chain chain') (bound : Option BoundParameters)
    (input : Option Value) :
    (invoke (deliver (m + n)) stage rest chain phase bound input).Followed pair
      (invoke (deliver (m' + n)) stage rest' chain' phase bound input) := by
  obtain ⟨taken, passed, habreast⟩ := h.abreast
  unfold invoke
  cases stage.state.entering phase with
  | error e => exact .apart (Pairing.apart_fail stage _)
  | ok state =>
    have hother : stage.id ≠ ⟨pair.position⟩ := fun hid =>
      pair.front_ne _ hfront (congrArg CommandId.number hid)
    have hcalled := h.log (.called stage.id phase (bound.getD stage.bound) input)
      (by cases phase <;> simp [Event.taken?, hother])
    have hattends : (chain.log (.called stage.id phase (bound.getD stage.bound) input)).Attends
        stage.id := Chain.attends_of_none hnone
    have hserved := serve_followed { stage with state := state }
      (Stage.call { stage with state := state } chain phase (bound.getD stage.bound) input) rfl
      hfront hpush (stage.command.hook (Stage.call { stage with state := state } chain phase
        (bound.getD stage.bound) input) stage.memory) stage.memory hattends hcalled
    have hcall := habreast.call_eq { stage with state := state } phase (bound.getD stage.bound) input
    dsimp only at hcall ⊢
    rw [hcall]
    exact concludeCall_followed { stage with state := state } hfront phase input hserved

/-- Processing records with the same object comes to the same in both runs. -/
theorem processRecord_followed (stage : Stage) (hfront : pair.Front stage.position)
    (hpush : pair.Carries n) (hnone : chain.pendingStop = none)
    (h : pair.Level rest rest' chain chain') {r r' : Record} (hr : r'.object? = r.object?) :
    (processRecord (deliver (m + n)) stage rest chain r).Followed pair
      (processRecord (deliver (m' + n)) stage rest' chain' r') := by
  obtain ⟨taken, passed, habreast⟩ := h.abreast
  unfold processRecord
  rw [hr, habreast.adapter_eq]
  cases r.object? with
  | none => exact .level rfl ⟨rfl, hfront, h⟩
  | some v =>
    dsimp only
    split
    · exact .level rfl ⟨rfl, hfront, h⟩
    · cases (stage.binder chain.adapter).bindObject stage.bound v with
      | ok bound => exact invoke_followed stage hfront (.inr hpush) hnone h (some bound) (some v)
      | error e =>
        dsimp only
        cases stage.bindingErrors with
        | nonTerminating => exact .level rfl ⟨rfl, hfront, h.imp fun _ _ h => h.emitError _ _⟩
        | terminating => exact .apart (Pairing.apart_fail stage _)

/-! ## Deliveries -/

/-- Where a call of the first stage is followed, so is the push that it belongs to. -/
theorem Settled.Followed.pushed {settled : Settled (m + n)} {settled' : Settled (m' + n)}
    (h : settled.Followed pair settled') :
    Pushed.Followed (n := n + 1) pair
      ⟨settled.outcome, .cons settled.stage settled.rest, settled.chain⟩
      ⟨settled'.outcome, .cons settled'.stage settled'.rest, settled'.chain⟩ := by
  refine h.andThen List.prefix_rfl List.prefix_rfl (fun p hp => hp) fun hsame hlevel => ?_
  obtain ⟨hstage, hfront, hrest⟩ := hlevel
  rw [hstage]
  exact .level hsame (hrest.cons hfront)

/-- Past the stages in common a delivery keeps the runs abreast when it does from there on: the pipes
in front take the record in both runs, or refuse it. -/
theorem Pairing.Carries.deliver (h : pair.Carries 0) (n : Nat) : pair.Carries n := by
  induction n with
  | zero => exact h
  | succ n ih =>
    intro row row' chain chain' r r' hr hnone hlevel
    obtain ⟨stage, rest, rest', rfl, rfl, hfront, hrest⟩ := hlevel.exists_of_succ
    obtain ⟨taken, passed, habreast⟩ := hrest.abreast
    change Pushed.Followed (n := n + 1) pair (CommandChain.deliver (m + n + 1) _ _ _)
      (CommandChain.deliver (m' + n + 1) _ _ _)
    simp only [CommandChain.deliver, habreast.running, habreast.running', Bool.false_eq_true, if_false]
    by_cases hclosed : stage.input.closed = true
    · simp only [Pipe.write, hclosed, Bool.false_eq_true, if_true, if_false]
      exact .level rfl hlevel
    · by_cases hfull : stage.input.slot.isSome = true
      · simp only [Pipe.write, hclosed, hfull, Bool.false_eq_true, if_true, if_false]
        exact .level rfl hlevel
      · have hwrite (r : Record) : stage.input.write false r = .ok (stage.input.given r) := by
          simp [Pipe.write, Pipe.given, hclosed, hfull]
        simp only [hwrite, Pipe.take_given]
        exact (processRecord_followed { stage with input := stage.input.passed } hfront ih hnone hrest
          hr).pushed

end

end CommandChain
