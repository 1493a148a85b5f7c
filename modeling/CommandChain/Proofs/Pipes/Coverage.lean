import CommandChain.Proofs.Disposal.Replacement
import CommandChain.Proofs.Journal.Grammar
import CommandChain.Proofs.Pipes.Moments
/-!
# The moments of a run cover it

The moments of a run and its journal are two accounts of the same run. They agree on where control is:
every step that a hook takes happens at a moment inside that hook, and every step by which control comes
to a hook ends at one. So what holds at all moments holds whenever a hook runs, however deep in the
chain its call is.
-/

namespace CommandChain

/-- The command in whose hook control is where a step is taken. -/
def Event.taker? : Event → Option CommandId
  | writing id _ | reporting id _ | cut id | returned id _ _ | stopping id | disposing id => some id
  | _ => none

/-- The command in whose hook control is after a step. -/
def Event.entered? : Event → Option CommandId
  | called id _ _ _ | wrote id _ => some id
  | _ => none

/-- At a moment control is inside a hook of a command, and this is what has happened. -/
structure Moment.Inside (m : Moment) (id : CommandId) (journal : List Event) : Prop where
  control : m.control = .inside id
  journal : m.chain.journal = journal

/-- There are moments inside the hooks that control leaves or comes to with a step. -/
structure Event.Witnessed (moments : List Moment) (past : List Event) (e : Event) : Prop where
  before : ∀ id, e.taker? = some id → ∃ m ∈ moments, m.Inside id past
  after : ∀ id, e.entered? = some id → ∃ m ∈ moments, m.Inside id (past ++ [e])

/-- The moments witness every step that a journal has gained. -/
def Covers (moments : List Moment) (journal journal' : List Event) : Prop :=
  ∃ added, journal' = journal ++ added
    ∧ Journal.Each (fun past e _ => e.Witnessed moments past) journal added

namespace Covers

variable {moments moments' : List Moment} {journal journal' journal'' : List Event} {e : Event}
  {id : CommandId} {m : Moment}

theorem refl (moments : List Moment) (journal : List Event) : Covers moments journal journal :=
  ⟨[], (List.append_nil journal).symm, trivial⟩

theorem trans (h : Covers moments journal journal') (h' : Covers moments journal' journal'') :
    Covers moments journal journal'' := by
  obtain ⟨added, rfl, heach⟩ := h
  obtain ⟨later, rfl, heach'⟩ := h'
  exact ⟨added ++ later, List.append_assoc .., heach.append (fun _ _ _ _ hlaw => hlaw) heach'⟩

/-- Moments cover what others cover when they are inside the same hooks after the same steps. -/
theorem imp (h : Covers moments journal journal')
    (himp : ∀ m ∈ moments, ∀ id past, m.Inside id past → ∃ m' ∈ moments', m'.Inside id past) :
    Covers moments' journal journal' := by
  obtain ⟨added, rfl, heach⟩ := h
  refine ⟨added, rfl, Journal.each_iff.mpr fun before e rest hsplit => ?_⟩
  have hwitnessed := Journal.each_iff.mp heach before e rest hsplit
  refine ⟨fun id hid => ?_, fun id hid => ?_⟩
  · obtain ⟨m, hm, hinside⟩ := hwitnessed.before id hid
    exact himp m hm id _ hinside
  · obtain ⟨m, hm, hinside⟩ := hwitnessed.after id hid
    exact himp m hm id _ hinside

/-- More moments witness what fewer did. -/
theorem mono (h : Covers moments journal journal') (hsub : moments ⊆ moments') :
    Covers moments' journal journal' :=
  h.imp fun m hm _ _ hinside => ⟨m, hsub hm, hinside⟩

/-- Where control is does not depend on the stages in front. -/
theorem behind (h : Covers moments journal journal') (stage : Stage) :
    Covers (moments.map (·.behind stage)) journal journal' :=
  h.imp fun m hm _ _ hinside =>
    ⟨m.behind stage, List.mem_map_of_mem hm, hinside.control, hinside.journal⟩

/-- What two stretches of a journal have as moments together covers both, one behind the other. -/
theorem append (h : Covers moments journal journal') (h' : Covers moments' journal' journal'') :
    Covers (moments ++ moments') journal journal'' :=
  (h.mono (List.subset_append_left _ _)).trans (h'.mono (List.subset_append_right _ _))

/-- Moments cover one step exactly as far as they witness it. -/
theorem step (h : e.Witnessed moments journal) : Covers moments journal (journal ++ [e]) :=
  ⟨[e], rfl, h, trivial⟩

/-- A step that a hook takes. -/
theorem taken (hm : m ∈ moments) (hinside : m.Inside id journal) (htaker : e.taker? = some id)
    (hentered : e.entered? = none) : Covers moments journal (journal ++ [e]) := by
  refine step ⟨fun i hi => ?_, fun i hi => ?_⟩
  · obtain rfl : id = i := Option.some.inj (htaker.symm.trans hi)
    exact ⟨m, hm, hinside⟩
  · rw [hentered] at hi
    cases hi

/-- A step by which control comes to a hook. -/
theorem entering (hm : m ∈ moments) (hinside : m.Inside id (journal ++ [e]))
    (hentered : e.entered? = some id) (htaker : e.taker? = none) :
    Covers moments journal (journal ++ [e]) := by
  refine step ⟨fun i hi => ?_, fun i hi => ?_⟩
  · rw [htaker] at hi
    cases hi
  · obtain rfl : id = i := Option.some.inj (hentered.symm.trans hi)
    exact ⟨m, hm, hinside⟩

/-- Steps that no hook takes and none is entered by need no moments. -/
theorem tacit (moments : List Moment) (journal : List Event) {added : List Event}
    (h : ∀ e ∈ added, e.taker? = none ∧ e.entered? = none) :
    Covers moments journal (journal ++ added) := by
  refine ⟨added, rfl, Journal.each_iff.mpr fun before e rest hsplit => ?_⟩
  obtain ⟨htaker, hentered⟩ := h e (by simp [hsplit])
  refine ⟨fun i hi => ?_, fun i hi => ?_⟩
  · rw [htaker] at hi
    cases hi
  · rw [hentered] at hi
    cases hi

/-- What is covered from a chain on whose journal another agrees. -/
theorem of_journal {chain chain' : Chain} (h : chain'.journal = chain.journal) :
    Covers moments chain.journal chain'.journal :=
  h ▸ refl moments _

end Covers

/-! ## What the engine does by itself -/

variable {moments : List Moment}

/-- Reporting an error needs no moment: it happens in no hook. -/
theorem Chain.emitError_covers (chain : Chain) (source : RecordSource) (e : ErrorRecord) :
    Covers moments chain.journal (chain.emitError source e).journal := by
  rw [journal_emitError]
  exact .tacit _ _ (by simp [Event.taker?, Event.entered?])

/-- A command that fails needs no moment for it. -/
theorem Stage.fail_covers (stage : Stage) (chain : Chain) (e : ErrorRecord) :
    Covers moments chain.journal (stage.fail chain e).2.journal := by
  rw [journal_fail]
  exact .tacit _ _ (by simp [Event.taker?, Event.entered?])

/-- Signaling tokens needs no moment. -/
theorem Chain.signals_covers (journal : List Event) (tokens : List StopToken) :
    Covers moments journal (journal ++ tokens.map .signaled) :=
  .tacit _ _ (by simp [Event.taker?, Event.entered?])

/-- What the engine makes of the result of a call needs no moment. -/
theorem settle_covers (stage : Stage) (chain : Chain) (phase : Phase) (input : Option Value)
    (result : CallResult) :
    Covers moments chain.journal (settle stage chain phase input result).2.2.journal := by
  have htaken : Covers moments chain.journal (chain.takePendingStop stage.id).2.journal :=
    .of_journal (chain.journal_takePendingStop stage.id)
  exact settle_cases (motive := fun out => Covers moments chain.journal out.2.2.journal)
    stage chain phase input result
    (fun e => htaken.trans (stage.fail_covers _ e)) htaken htaken
    fun e => htaken.trans (Chain.emitError_covers _ _ e)

/-! ## Calls -/

/-- The moments of a push cover it. -/
def Push.Covered {n : Nat} (push : Push n) (passage : Passage n) : Prop :=
  ∀ stages chain r, Covers (passage stages chain r) chain.journal (push stages chain r).chain.journal

variable {n : Nat} {push : Push n} {passage : Passage n} {stage : Stage}

/-- The moments of a write cover what happens while an object goes to the stages behind. -/
theorem Call.writeObject_covers (call : Call) (hpush : push.Covered passage) (v : Value)
    (rest : Stages n) (chain : Chain) :
    Covers (call.writeMoments passage v rest chain) chain.journal
      (call.writeObject push v rest chain).chain.journal := by
  unfold writeMoments writeObject
  split
  · exact .refl _ _
  · split
    · exact .refl _ _
    · have hemitted := chain.journal_emit (.object v) call.source
      refine Covers.trans ?_ (hpush rest (chain.emit (.object v) call.source).2 _)
      rw [hemitted]
      exact .tacit _ _ (by simp [Event.taker?, Event.entered?])

/-- A hook starts at a moment inside it. -/
theorem serveMoments_head (stage : Stage) (call : Call) (push : Push n) (passage : Passage n)
    (hook : Hook stage.command.Memory) (memory : stage.command.Memory) (rest : Stages n)
    (chain : Chain) :
    ∃ m ∈ serveMoments stage call push passage hook memory rest chain,
      m.Inside stage.id chain.journal := by
  refine ⟨stage.hookMoment memory rest chain, ?_, rfl, rfl⟩
  cases hook <;> (unfold serveMoments; exact .head _)

/-- A hook that returns does so at a moment inside it. -/
theorem serveMoments_last (stage : Stage) (call : Call) (push : Push n) (passage : Passage n)
    (hook : Hook stage.command.Memory) (memory : stage.command.Memory) (rest : Stages n)
    (chain : Chain) {r : CallResult}
    (hok : (serve call push hook memory rest chain).outcome = .ok r) :
    ∃ m ∈ serveMoments stage call push passage hook memory rest chain,
      m.Inside stage.id (serve call push hook memory rest chain).chain.journal := by
  have later {moments : List Moment} {m : Moment} {journal : List Event}
      (h : ∃ m' ∈ moments, m'.Inside stage.id journal) :
      ∃ m' ∈ m :: moments, m'.Inside stage.id journal := by
    obtain ⟨m', hm, hinside⟩ := h
    exact ⟨m', .tail _ hm, hinside⟩
  induction hook generalizing memory rest chain with
  | done result' => exact ⟨_, .head _, rfl, rfl⟩
  | panic p => cases hok
  | store memory' next ih => exact later (ih memory' rest chain hok)
  | write v next ih =>
    unfold serve at hok ⊢
    unfold serveMoments
    dsimp only at hok ⊢
    generalize call.writeObject push v rest (chain.log (.writing call.id v)) = pushed at hok ⊢
    obtain ⟨outcome, stages, chain'⟩ := pushed
    cases outcome with
    | error p => cases hok
    | ok result' =>
      obtain ⟨m, hm, hinside⟩ := ih result' memory stages (chain'.log (.wrote call.id result')) hok
      exact ⟨m, .tail _ (List.mem_append_right _ hm), hinside⟩
  | report m next ih => exact later (ih _ memory rest _ hok)
  | cutInput next ih => exact later (ih memory rest _ hok)
  | askStopping next ih => exact later (ih _ memory rest chain hok)
  | note text next ih => exact later (ih memory rest _ hok)
  | signal token next ih => exact later (ih memory rest _ hok)
  | askSignaled token next ih => exact later (ih _ memory rest chain hok)
  | runChain run next ih =>
    unfold serve at hok ⊢
    unfold serveMoments
    dsimp only at hok ⊢
    cases hreport : (run chain.flags).outcome with
    | error p =>
      rw [hreport] at hok
      cases hok
    | ok outcome =>
      simp only [hreport] at hok ⊢
      exact later (ih outcome memory rest _ hok)

/-- The moments of a hook cover what happens while it is served. -/
theorem serve_covers (stage : Stage) (call : Call) (hid : call.id = stage.id)
    (hpush : push.Covered passage) (hook : Hook stage.command.Memory)
    (memory : stage.command.Memory) (rest : Stages n) (chain : Chain) :
    Covers (serveMoments stage call push passage hook memory rest chain) chain.journal
      (serve call push hook memory rest chain).chain.journal := by
  have hhere (memory : stage.command.Memory) (rest : Stages n) (chain : Chain) :
      (stage.hookMoment memory rest chain).Inside call.id chain.journal :=
    ⟨congrArg Control.inside hid.symm, rfl⟩
  -- A request is taken at the moment before it, and the moments that follow cover the rest.
  have htaken {e : Event} (htaker : e.taker? = some call.id) (hentered : e.entered? = none)
      (memory : stage.command.Memory) (rest : Stages n) (chain : Chain) (moments : List Moment) :
      Covers (stage.hookMoment memory rest chain :: moments) chain.journal (chain.journal ++ [e]) :=
    .taken (.head _) (hhere memory rest chain) htaker hentered
  induction hook generalizing memory rest chain with
  | done result => exact .refl _ _
  | panic p => exact .refl _ _
  | store memory' next ih => exact (ih memory' rest chain).mono (List.subset_cons_self _ _)
  | write v next ih =>
    have hwrites := (call.writeObject_covers hpush v rest
      (chain.log (.writing call.id v))).behind { stage with memory := memory }
    have hasked := htaken (e := .writing call.id v) rfl rfl memory rest chain
    rw [Chain.journal_log] at hwrites
    unfold serve serveMoments
    dsimp only
    generalize call.writeObject push v rest (chain.log (.writing call.id v)) = pushed at hwrites ⊢
    obtain ⟨outcome, stages, chain'⟩ := pushed
    cases outcome with
    | error p =>
      refine (hasked _).trans (hwrites.mono ?_)
      simp
    | ok result =>
      obtain ⟨m, hm, hinside⟩ := serveMoments_head stage call push passage (next result) memory
        stages (chain'.log (.wrote call.id result))
      rw [Chain.journal_log, ← hid] at hinside
      have hanswered := Covers.entering hm hinside rfl rfl
      have hlater := ih result memory stages (chain'.log (.wrote call.id result))
      rw [Chain.journal_log] at hlater
      exact (hasked _).trans
        ((hwrites.append (hanswered.trans hlater)).mono (List.subset_cons_self _ _))
  | report m next ih =>
    have hasked := htaken (e := .reporting call.id m) rfl rfl memory rest chain
    have hlater := ih (call.report m (chain.log (.reporting call.id m))).1 memory rest
      (call.report m (chain.log (.reporting call.id m))).2
    rw [Chain.journal_report, List.append_cons] at hlater
    refine (hasked _).trans (.trans ?_ (hlater.mono (List.subset_cons_self _ _)))
    exact .tacit _ _ (by split <;> simp [Event.taker?, Event.entered?])
  | cutInput next ih =>
    have hasked := htaken (e := .cut call.id) rfl rfl memory rest chain
    have hlater := ih memory rest (chain.cutInput call.id call.position)
    rw [Chain.journal_cutInput] at hlater
    exact (hasked _).trans (hlater.mono (List.subset_cons_self _ _))
  | askStopping next ih => exact (ih _ memory rest chain).mono (List.subset_cons_self _ _)
  | note text next ih =>
    exact (ih memory rest (chain.note text)).mono (List.subset_cons_self _ _)
  | signal token next ih =>
    have hlater := ih memory rest (chain.signal token)
    rw [Chain.journal_signal] at hlater
    exact (Chain.signals_covers _ [token]).trans (hlater.mono (List.subset_cons_self _ _))
  | askSignaled token next ih => exact (ih _ memory rest chain).mono (List.subset_cons_self _ _)
  | runChain run next ih =>
    have habsorbed : Covers (serveMoments stage call push passage (.runChain run next) memory rest
        chain) chain.journal (chain.absorb (run chain.flags)).journal := by
      rw [Chain.journal_absorb]
      exact Chain.signals_covers _ _
    unfold serve
    unfold serveMoments at habsorbed ⊢
    dsimp only at habsorbed ⊢
    cases hreport : (run chain.flags).outcome with
    | error p =>
      simp only [hreport] at habsorbed ⊢
      exact habsorbed
    | ok outcome =>
      simp only [hreport] at habsorbed ⊢
      exact habsorbed.trans ((ih outcome memory rest _).mono (List.subset_cons_self _ _))

/-- The moments of a hook cover its call, from the start of the call to its settlement. -/
theorem concludeCall_covers (stage : Stage) (call : Call) (hid : call.id = stage.id)
    (hpush : push.Covered passage) (rest : Stages n) (chain : Chain) (phase : Phase)
    (parameters : BoundParameters) (input : Option Value) :
    Covers
      (serveMoments stage call push passage (stage.command.hook call stage.memory) stage.memory rest
        (chain.log (.called stage.id phase parameters input)))
      chain.journal
      (concludeCall stage phase input (serve call push (stage.command.hook call stage.memory)
        stage.memory rest (chain.log (.called stage.id phase parameters input)))).chain.journal := by
  obtain ⟨first, hfirst, hstarts⟩ := serveMoments_head stage call push passage
    (stage.command.hook call stage.memory) stage.memory rest
    (chain.log (.called stage.id phase parameters input))
  have hserved := serve_covers stage call hid hpush (stage.command.hook call stage.memory)
    stage.memory rest (chain.log (.called stage.id phase parameters input))
  have hlast {result : CallResult} := serveMoments_last stage call push passage
    (stage.command.hook call stage.memory) stage.memory rest
    (chain.log (.called stage.id phase parameters input)) (r := result)
  rw [Chain.journal_log] at hstarts hserved
  replace hserved := (Covers.entering hfirst hstarts rfl rfl).trans hserved
  generalize serve call push (stage.command.hook call stage.memory) stage.memory rest
    (chain.log (.called stage.id phase parameters input)) = served at hserved hlast ⊢
  unfold concludeCall
  cases hout : served.outcome with
  | error p => exact hserved
  | ok result =>
    obtain ⟨last, hmem, hends⟩ := hlast hout
    -- The hook returns at its last moment, and settling its result enters no other.
    have hreturned := hserved.trans
      (Covers.taken (e := .returned stage.id phase result) hmem hends rfl rfl)
    rw [← Chain.journal_log] at hreturned
    refine (hreturned.trans (settle_covers { stage with memory := served.memory } _ phase input
      result)).trans ?_
    rw [Chain.journal_log]
    exact .tacit _ _ (by simp [Event.taker?, Event.entered?])

theorem invoke_covers (hpush : push.Covered passage) (stage : Stage) (rest : Stages n)
    (chain : Chain) (phase : Phase) (bound : Option BoundParameters) (input : Option Value) :
    Covers (invokeMoments push passage stage rest chain phase bound input) chain.journal
      (invoke push stage rest chain phase bound input).chain.journal := by
  refine Covers.mono ?_ (List.subset_append_left _ _)
  unfold invoke
  cases stage.state.entering phase with
  | error e => exact stage.fail_covers chain _
  | ok state =>
    exact concludeCall_covers { stage with state := state } _ rfl hpush rest chain phase _ input

theorem processRecord_covers (hpush : push.Covered passage) (stage : Stage) (rest : Stages n)
    (chain : Chain) (r : Record) :
    Covers (processMoments push passage stage rest chain r) chain.journal
      (processRecord push stage rest chain r).chain.journal := by
  unfold processRecord processMoments
  cases r.object? with
  | none => exact .refl _ _
  | some v =>
    dsimp only
    split
    · exact .refl _ _
    · cases (stage.binder chain.adapter).bindObject stage.bound v with
      | ok bound => exact invoke_covers hpush stage rest chain .process (some bound) (some v)
      | error e =>
        dsimp only
        split
        · exact chain.emitError_covers _ _
        · exact stage.fail_covers chain _

/-- The moments of a delivery cover it, by recursion on the row. -/
theorem deliver_covers (n : Nat) : (deliver n).Covered (deliverMoments n) := by
  induction n with
  | zero =>
    intro stages chain r
    cases stages
    show Covers _ chain.journal (chain.deliverToHost r).journal
    rw [Chain.journal_deliverToHost]
    exact .tacit _ _ (by simp [Event.taker?, Event.entered?])
  | succ n ih =>
    intro stages chain r
    cases stages with
    | cons stage rest =>
    refine Covers.mono ?_ (List.subset_append_left _ _)
    simp only [deliver]
    split
    · exact .refl _ _
    · cases stage.input.write chain.isHalted r with
      | error refusal => cases refusal <;> exact .refl _ _
      | ok pipe =>
        dsimp only
        generalize pipe.take chain.isHalted = taken
        obtain ⟨read, pipe'⟩ := taken
        cases read with
        | record r' =>
          refine (processRecord_covers ih { stage with input := pipe' } rest chain r').mono ?_
          intro m hm
          exact .tail _ (.tail _ hm)
        | _ => exact .refl _ _

/-! ## The steps of a run -/

/-- Binding the parameters needs no moment: no hook is called. -/
theorem bindAll_covers (hostInput : Bool) (stages : Stages n) (chain : Chain) :
    Covers moments chain.journal (bindAll hostInput stages chain).2.journal := by
  induction stages generalizing chain with
  | nil => exact .refl _ _
  | cons stage rest ih =>
    unfold bindAll
    split
    · exact ih chain
    · exact stage.fail_covers chain _

theorem beginAll_covers (n : Nat) (stages : Stages n) (chain : Chain) :
    Covers (beginMoments n stages chain) chain.journal (beginAll n stages chain).chain.journal := by
  induction n generalizing chain with
  | zero =>
    cases stages
    exact .refl _ _
  | succ n ih =>
    cases stages with
    | cons stage rest =>
    have hbegun := invoke_covers (deliver_covers n) stage rest chain .begin none none
    simp only [beginAll, beginMoments]
    split
    · exact .refl _ _
    · generalize invoke (deliver n) stage rest chain .begin none none = begun at hbegun ⊢
      obtain ⟨outcome, stage', rest', chain'⟩ := begun
      rcases outcome with p | result
      · exact hbegun.mono (List.subset_append_left _ _)
      · cases result with
        | ok => exact hbegun.append ((ih rest' chain').behind stage')
        | _ => exact hbegun.mono (List.subset_append_left _ _)

theorem feedObjects_covers (values : List Value) (stages : Stages n) (chain : Chain) :
    Covers (feedMoments values stages chain) chain.journal
      (feedObjects values stages chain).chain.journal := by
  induction values generalizing stages chain with
  | nil => exact .refl _ _
  | cons v values ih =>
    unfold feedObjects feedMoments
    split
    · exact .refl _ _
    · have hpushed := deliver_covers n stages ((chain.log (.feeding v)).emit (.object v) .host).2
        ((chain.log (.feeding v)).emit (.object v) .host).1
      have hmade : Covers (deliverMoments n stages ((chain.log (.feeding v)).emit (.object v) .host).2
          ((chain.log (.feeding v)).emit (.object v) .host).1) chain.journal
          ((chain.log (.feeding v)).emit (.object v) .host).2.journal := by
        rw [Chain.journal_emit, Chain.journal_log, List.append_assoc]
        exact .tacit _ _ (by simp [Event.taker?, Event.entered?])
      replace hpushed := hmade.trans hpushed
      dsimp only
      generalize deliver n stages ((chain.log (.feeding v)).emit (.object v) .host).2
        ((chain.log (.feeding v)).emit (.object v) .host).1 = pushed at hpushed ⊢
      cases hout : pushed.outcome with
      | error p => exact hpushed.mono (List.subset_append_left _ _)
      | ok result => exact hpushed.append (ih pushed.stages pushed.chain)

theorem processHead_covers (stages : Stages n) (chain : Chain) :
    Covers (headMoments stages chain) chain.journal (processHead stages chain).chain.journal := by
  cases stages with
  | nil => exact .refl _ _
  | cons stage rest => exact invoke_covers (deliver_covers _) stage rest chain .process none none

/-- The moments of feeding the first command cover it, with and without objects of the host. -/
theorem feedHead_covers (input : Option (List Value)) (stages : Stages n) (chain : Chain) :
    Covers (feedHeadMoments input stages chain) chain.journal
      (feedHead input stages chain).chain.journal := by
  refine Covers.mono ?_ (List.subset_append_left _ _)
  cases input with
  | some values =>
    rw [feedHead_some]
    split
    · exact .refl _ _
    · rw [Ran.chain_closeFirst]
      exact feedObjects_covers values stages chain
  | none =>
    rw [feedHead_none]
    split
    · exact .refl _ _
    · rw [Ran.chain_closeFirst]
      exact processHead_covers stages chain

section Wave

variable (hpush : push.Covered passage) (stage : Stage) (rest : Stages n) (chain : Chain)
include hpush

theorem drain_covers : Covers (drainMoments push passage stage rest chain) chain.journal
    (drain push stage rest chain).chain.journal := by
  refine Covers.mono ?_ fun m hm => List.mem_cons_of_mem _ (List.mem_append_left _ hm)
  unfold drain
  generalize stage.input.take chain.isHalted = taken
  obtain ⟨read, pipe⟩ := taken
  cases read with
  | record r =>
    have hprocessed := processRecord_covers hpush { stage with input := pipe } rest chain r
    dsimp only
    split
    · split <;> exact hprocessed
    · exact hprocessed
  | _ => exact .refl _ _

theorem processOnce_covers : Covers (onceMoments push passage stage rest chain) chain.journal
    (processOnce push stage rest chain).chain.journal := by
  unfold processOnce onceMoments
  split
  · exact invoke_covers hpush stage rest chain .process none none
  · exact .refl _ _

theorem finishStage_covers : Covers (finishMoments push passage stage rest chain) chain.journal
    (finishStage push stage rest chain).chain.journal := by
  have hfinished := invoke_covers hpush stage rest chain .finish none none
  unfold finishStage finishMoments
  split
  · refine Covers.mono ?_ (List.subset_append_left _ _)
    dsimp only
    split <;> exact hfinished
  · exact .refl _ _

/-- The moments of one command in the wave cover what it does there. -/
theorem completeStage_covers : Covers (completeMoments push passage stage rest chain) chain.journal
    (completeStage push stage rest chain).chain.journal := by
  have hdrained := drain_covers hpush stage rest chain
  unfold completeStage completeMoments
  dsimp only
  generalize drain push stage rest chain = drained at hdrained ⊢
  have honce := processOnce_covers hpush drained.stage drained.rest drained.chain
  generalize processOnce push drained.stage drained.rest drained.chain = once at honce ⊢
  have hfinished := finishStage_covers hpush once.stage once.rest once.chain
  cases drained.outcome with
  | error p => exact hdrained.mono (List.subset_append_left _ _)
  | ok result =>
    dsimp only
    split
    · exact hdrained.mono (List.subset_append_left _ _)
    · refine hdrained.append ?_
      obtain ⟨outcome, stage', rest', chain'⟩ := once
      rcases outcome with p | result
      · exact honce.mono (List.subset_append_left _ _)
      · cases result with
        | ok => exact honce.append hfinished
        | _ =>
          dsimp only
          split
          · exact honce.mono (List.subset_append_left _ _)
          · exact honce.append hfinished

end Wave

theorem endWave_covers (n : Nat) (stages : Stages n) (chain : Chain) :
    Covers (endMoments n stages chain) chain.journal (endWave n stages chain).chain.journal := by
  induction n generalizing chain with
  | zero =>
    cases stages
    exact .refl _ _
  | succ n ih =>
    cases stages with
    | cons stage rest =>
    have hended := completeStage_covers (deliver_covers n) stage rest chain
    simp only [endWave, endMoments]
    split
    · exact .refl _ _
    · split
      · exact (ih rest chain).behind stage
      · generalize completeStage (deliver n) stage rest chain = ended at hended ⊢
        cases hout : ended.outcome with
        | error p => exact hended.mono (List.subset_append_left _ _)
        | ok result =>
          have hlater := (ih ended.rest.closeFirst ended.chain).behind ended.stage
          exact hended.append (hlater.mono (List.subset_cons_self _ _))

/-! ## After the wave -/

section Parting

variable {m : Moment} (stage : Stage) (chain : Chain) (hm : m ∈ moments)
  (hinside : m.Inside stage.id chain.journal)
include hm hinside

/-- A moment inside its hooks covers that a command is told to stop. -/
theorem Stage.callStop_covers :
    Covers moments chain.journal (stage.callStop chain).2.2.journal := by
  have htold := Covers.taken (e := .stopping stage.id) hm hinside rfl rfl
  rw [callStop, Chain.journal_signalAll, Chain.journal_noteAll, Chain.journal_log]
  exact htold.trans (Chain.signals_covers _ _)

/-- A moment inside its hooks covers that a command is disposed of. -/
theorem Stage.callDispose_covers :
    Covers moments chain.journal (stage.callDispose chain).2.2.journal := by
  have hdisposed := Covers.taken (e := .disposing stage.id) hm hinside rfl rfl
  rw [callDispose, Chain.journal_signalAll, Chain.journal_noteAll, Chain.journal_log]
  exact hdisposed.trans (Chain.signals_covers _ _)

/-- Such a moment covers all that the disposal of a command does. -/
theorem Stage.disposeOf_covers :
    Covers moments chain.journal (Stage.release.disposeOf stage chain).2.2.journal := by
  rw [(stage.disposeOf_called chain).1]
  exact stage.callDispose_covers chain hm hinside

end Parting

theorem stopRunning_covers (stages : List Stage) (chain : Chain) :
    Covers (stopMoments stages chain) chain.journal (stopRunning stages chain).2.2.journal := by
  induction stages generalizing chain with
  | nil => exact .refl _ _
  | cons stage rest ih =>
    unfold stopRunning stopMoments
    dsimp only
    split
    · have htold := Stage.callStop_covers { stage with input := stage.input.close } chain
        (List.mem_singleton_self ⟨.inside stage.id, { stage with input := stage.input.close } :: rest,
          chain⟩) ⟨rfl, rfl⟩
      generalize Stage.callStop { stage with input := stage.input.close } chain = told at htold ⊢
      obtain ⟨result, told, chain'⟩ := told
      cases result with
      | error p => exact htold.mono (List.subset_append_left [_] _)
      | ok _ => exact htold.append ((ih chain').behind _)
    · exact (ih chain).behind _

theorem Stage.release_covers (stage : Stage) (rest : List Stage) (chain : Chain) :
    Covers (stage.releaseMoments rest chain) chain.journal (stage.release chain).2.2.journal := by
  refine Covers.mono ?_ (List.subset_append_left _ _)
  have hhere : Moment.Inside ⟨.inside stage.id, stage :: rest, chain⟩ stage.id chain.journal :=
    ⟨rfl, rfl⟩
  unfold release
  split
  · have htold := stage.callStop_covers chain (List.mem_singleton_self _) hhere
    have hid : (stage.callStop chain).2.1.id = stage.id := rfl
    generalize stage.callStop chain = told at htold hid ⊢
    obtain ⟨result, told, chain'⟩ := told
    cases result with
    | error p => exact htold
    | ok _ =>
      have hdisposed := Stage.disposeOf_covers { told with state := .stopped } chain'
        (List.mem_singleton_self ⟨.inside told.id, { told with state := .stopped } :: rest, chain'⟩)
        ⟨rfl, rfl⟩
      exact htold.append hdisposed
  · exact stage.disposeOf_covers chain (List.mem_singleton_self _) hhere

theorem DisposalManager.releaseAll_covers (manager : DisposalManager) (chain : Chain)
    (stages : List Stage) :
    Covers (manager.releaseMoments chain stages) chain.journal
      (manager.releaseAll Stage.releasable chain stages).surroundings.journal := by
  induction stages with
  | nil => exact .refl _ _
  | cons stage rest ih =>
    have hlater := ih.behind stage
    unfold releaseAll releaseMoments
    dsimp only
    generalize manager.releaseAll Stage.releasable chain rest = later at hlater ⊢
    split
    · exact hlater.append (stage.release_covers later.items later.surroundings)
    · exact hlater.mono (List.subset_append_left _ _)

/-! ## Whole runs -/

namespace Pipeline

theorem releaseAll_covers (p : Pipeline) :
    Covers p.releaseMoments p.chain.journal p.releaseAll.2.chain.journal :=
  (p.disposal.releaseAll_covers p.chain p.stages).mono (List.subset_append_left _ _)

/-- Reporting the faults of a cleanup needs no moment. -/
theorem reportCleanup_covers (p : Pipeline) (faults : List CleanupFault) :
    Covers moments p.chain.journal (p.reportCleanup faults).chain.journal := by
  induction faults generalizing p with
  | nil => exact .refl _ _
  | cons fault rest ih => exact (p.chain.emitError_covers _ _).trans (ih _)

/-- The moments of the release cover the completion of a run. -/
theorem complete_covers (p : Pipeline) :
    Covers p.releaseMoments p.chain.journal p.complete.2.chain.journal :=
  p.releaseAll_covers.trans (p.releaseAll.2.reportCleanup_covers p.releaseAll.1)

/-- The moments of the steps of a run cover them. -/
theorem steps_covers (input : Option (List Value)) (stages : Stages n) (chain : Chain) :
    Covers (stepMoments input stages chain) chain.journal (steps input stages chain).chain.journal := by
  have hbound : Covers (bindMoments input.isSome stages chain) chain.journal
      (bindAll input.isSome stages chain).2.journal := bindAll_covers input.isSome stages chain
  have hbegun := beginAll_covers n (bindAll input.isSome stages chain).1
    (bindAll input.isSome stages chain).2
  unfold steps stepMoments
  refine hbound.append ?_
  dsimp only
  generalize beginAll n (bindAll input.isSome stages chain).1 (bindAll input.isSome stages chain).2
    = begun at hbegun ⊢
  have hfed := feedHead_covers input begun.stages begun.chain
  cases begun.outcome with
  | error p => exact hbegun.mono (List.subset_append_left _ _)
  | ok _ =>
    refine hbegun.append ?_
    dsimp only
    generalize feedHead input begun.stages begun.chain = fed at hfed ⊢
    cases fed.outcome with
    | error p => exact hfed.mono (List.subset_append_left _ _)
    | ok _ => exact hfed.append (endWave_covers n fed.stages fed.chain)

theorem run_covers (p : Pipeline) (input : Option (List Value)) :
    Covers (p.runMoments input) p.chain.journal (p.run input).2.chain.journal := by
  have hran := steps_covers input (.ofList p.stages) p.chain
  refine Covers.mono ?_ (List.subset_append_left _ _)
  unfold run
  dsimp only
  generalize steps input (.ofList p.stages) p.chain = ran at hran ⊢
  have hstopped := stopRunning_covers ran.stages.toList ran.chain
  cases ran.outcome with
  | error e => exact hran.mono (List.subset_append_left _ _)
  | ok _ =>
    refine hran.append ?_
    dsimp only
    generalize stopRunning ran.stages.toList ran.chain = stopped at hstopped ⊢
    obtain ⟨outcome, stages, chain⟩ := stopped
    cases outcome with
    | error e => exact hstopped.mono (List.subset_append_left _ _)
    | ok _ =>
      exact hstopped.append (complete_covers { p with stages := stages, chain := chain })

/-- The moments of a run cover all that happens in it. -/
theorem invoke_covers (p : Pipeline) (input : Option (List Value)) :
    Covers (p.moments input) p.chain.journal (p.invoke input).2.chain.journal := by
  refine Covers.mono ?_ (List.subset_append_left _ _)
  refine (p.run_covers input).append ?_
  show Covers _ (p.run input).2.chain.journal (p.run input).2.drop.chain.journal
  unfold drop
  split
  · exact .refl _ _
  · exact (p.run input).2.releaseAll_covers

end Pipeline

end CommandChain
