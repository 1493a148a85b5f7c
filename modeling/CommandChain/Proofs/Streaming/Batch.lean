import CommandChain.Builtin.Output
import CommandChain.Proofs.Streaming.Opening
/-!
# Streaming equals batch

A chain pushes its objects through all commands one by one, and stops early where a command needs no
further input. Where the commands are transducers, the host gets what it would get if each command
were run over the whole of what the one before it writes.
-/

namespace CommandChain

/-- What a chain of commands with their parameters bound writes for the objects of the host, if each
command has begun and runs over all that the one before it writes. A chain without commands takes
nothing. -/
def Pipeline.batch (chain : Chain) (stages : List Stage) (input : List Value) : List Value :=
  if stages.isEmpty then [] else Stage.batch chain (stages.map (·.begun chain)) input

variable {base chain : Chain} {k n : Nat} {row : Stages n}

/-! ## Feeding -/

/-- Feeding the objects of the host conveys them, though a cut may keep some of them back. -/
theorem feedObjects_conveys (values : List Value) (row : Stages n) (chain : Chain)
    (hsmooth : chain.Smooth base) (hbounded : ∀ c, chain.inputCut = some c → c < 0 + n)
    (hrow : row.Holds (Stage.Open base chain.inputCut) 0) :
    (feedObjects values row chain).outcome = .ok ()
      ∧ Conveys base 0 values row chain (feedObjects values row chain).stages
        (feedObjects values row chain).chain := by
  induction values generalizing row chain with
  | nil => exact ⟨rfl, .of_quiet (.refl chain) hbounded hrow⟩
  | cons v values ih =>
    unfold feedObjects
    cases hcut : chain.inputCut with
    | some c =>
      simp only [hsmooth.running, Option.isSome_some, Bool.or_true, if_true, true_and]
      exact .of_cut (.refl chain) hbounded hrow hcut (Nat.zero_le c) (v :: values)
    | none =>
      simp only [hsmooth.running, Option.isSome_none, Bool.or_false, Bool.false_eq_true, if_false]
      have hquiet := (Chain.Quiet.log chain (.feeding v)).trans (.emit _ (.object v) .host)
      have hbefore := Conveys.of_quiet hquiet hbounded hrow
      have hpushed := deliver_conducting base n 0 row _
        ((chain.log (.feeding v)).emit (.object v) .host).1 v (hsmooth.quiet hquiet) rfl
        (fun c hc => by rw [hquiet.inputCut, hcut] at hc; cases hc) hbefore.holds
      generalize deliver n row _ _ = pushed at hpushed ⊢
      have hconveys := hbefore.trans hpushed.conveys
      obtain ⟨hok, hafter⟩ := ih pushed.stages pushed.chain (hconveys.smooth hsmooth)
        hconveys.bounded hconveys.holds
      have hall := hconveys.trans hafter
      rcases hpushed.outcome with hout | ⟨hout, -⟩
      all_goals
        simp only [hout]
        exact ⟨hok, hall⟩

/-- The first command of a row streams and comes to its end, and objects may still be pushed to
those behind it. -/
def Stages.Due (base : Chain) (cut : Option Nat) (k : Nat) : {n : Nat} → Stages n → Prop
  | _, nil => True
  | _, cons stage rest => stage.Ready base cut k ∧ rest.Holds (Stage.Open base cut) (k + 1)

/-- In a row that takes objects, the turn of the first command can come. -/
theorem Stages.Holds.due {cut : Option Nat} (h : row.Holds (Stage.Open base cut) k) :
    row.Due base cut k := by
  cases row with
  | nil => trivial
  | cons stage rest => exact ⟨h.1.toReady, h.2⟩

/-- The turn of the first command can come once its pipe is closed. -/
theorem Stages.Holds.due_closeFirst {cut : Option Nat} (h : row.Holds (Stage.Open base cut) k) :
    row.closeFirst.Due base cut k := by
  cases row with
  | nil => trivial
  | cons stage rest =>
    obtain ⟨hopen, hrest⟩ := h
    exact ⟨⟨hopen.position, hopen.running, hopen.empty, hopen.binds, hopen.errors, hopen.streams,
      hopen.saturated⟩, hrest⟩

/-- Closing the pipe of the first command makes no difference to what the row still writes. -/
theorem Stages.total_closeFirst (row : Stages n) (chain : Chain) (vs : List Value) :
    row.closeFirst.total base chain vs = row.total base chain vs := by
  cases row <;> rfl

/-- The first command has been fed, and its turn to end has come. This is what the host has and will
get. -/
structure Ran.Fed (base : Chain) (outputs : List Value) (ran : Ran n) : Prop where
  outcome : ran.outcome = .ok ()
  smooth : ran.chain.Smooth base
  bounded : ∀ c, ran.chain.inputCut = some c → c < 0 + n
  due : ran.stages.Due base ran.chain.inputCut 0
  total : ran.stages.total base ran.chain [] = outputs

/-- Once the first command is fed, the host has and will get what the row writes for the objects. -/
theorem feedHead_fed_total (values : List Value) (hn : n ≠ 0) (hsmooth : chain.Smooth base)
    (hbounded : ∀ c, chain.inputCut = some c → c < 0 + n)
    (hrow : row.Holds (Stage.Open base chain.inputCut) 0) :
    (feedHead (some values) row chain).Fed base (row.total base chain values) := by
  obtain ⟨hout, hconveys⟩ := feedObjects_conveys values row chain hsmooth hbounded hrow
  have hcount : (n == 0) = false := beq_eq_false_iff_ne.mpr hn
  unfold feedHead
  simp only [hsmooth.running, hcount, Bool.or_self, Bool.false_eq_true, if_false]
  generalize feedObjects values row chain = fed at hout hconveys ⊢
  simp only [hout]
  refine ⟨rfl, hconveys.smooth hsmooth, hconveys.bounded, hconveys.holds.due_closeFirst, ?_⟩
  rw [Stages.total_closeFirst, hconveys.total, List.append_nil]

/-! ## The wave that ends a chain -/

/-- A command that comes to its end writes what it writes then, and passes no object over. -/
theorem completeStage_conveys {stage : Stage} {rest : Stages n} (hsmooth : chain.Smooth base)
    (hstage : stage.Ready base chain.inputCut k) (hcut : chain.isCut k = false)
    (hrest : rest.Holds (Stage.Open base chain.inputCut) (k + 1)) :
    (∃ result, (completeStage (deliver n) stage rest chain).outcome = .ok result)
      ∧ Conveys base (k + 1) (stage.outputs base []) rest chain
        (completeStage (deliver n) stage rest chain).rest
        (completeStage (deliver n) stage rest chain).chain := by
  obtain ⟨pipe, hslot, hdrain⟩ := drain_of_empty (deliver n) stage rest chain hstage.empty
  have haccepts : ({ stage with input := pipe } : Stage).acceptsInput = true :=
    Binder.acceptsInput_of_bindObject (hstage.binds .null)
  have hrunning : ({ stage with input := pipe } : Stage).state.isRunning = true := hstage.running
  have hstreams := hstage.streams (Chain.isCut_eq_false_iff.mp hcut)
  have hinvoked := invoke_streamed (deliver_conducting base n (k + 1)) { stage with input := pipe }
    .finish none none (by decide) rfl hstage.position hstage.errors hsmooth hcut hrest
    hstreams.finish
  unfold completeStage
  simp only [hdrain, hsmooth.running, processOnce, haccepts, Bool.not_true, Bool.false_and,
    Bool.false_eq_true, if_false, finishStage, hrunning, if_true]
  generalize invoke (deliver n) { stage with input := pipe } rest chain .finish none none = settled
    at hinvoked ⊢
  rcases hinvoked.outcome with hout | ⟨hout, -⟩
  all_goals
    simp only [hout]
    exact ⟨⟨_, rfl⟩, hinvoked.conveys⟩

/-- The steps of a run went well up to some point, and this has come out. -/
structure Ran.Done (base : Chain) (outputs : List Value) (ran : Ran n) : Prop where
  outcome : ran.outcome = .ok ()
  smooth : ran.chain.Smooth base
  outputs : ran.chain.outputs = outputs

/-- Where all commands come to their ends, the host gets all that was left to come. -/
theorem endWave_done (n : Nat) : ∀ (k : Nat) (row : Stages n) (chain : Chain), chain.Smooth base →
    (∀ c, chain.inputCut = some c → c < k + n) → row.Due base chain.inputCut k →
    (endWave n row chain).Done base (row.total base chain []) := by
  induction n with
  | zero =>
    intro k row chain hsmooth hbounded hrow
    cases row
    exact ⟨rfl, hsmooth, (List.append_nil _).symm⟩
  | succ n ih =>
    intro k row chain hsmooth hbounded hrow
    cases row with
    | cons stage rest =>
      obtain ⟨hstage, hrest⟩ := hrow
      unfold endWave
      simp only [hsmooth.running, hstage.position, Bool.false_eq_true, if_false]
      cases hcut : chain.isCut k with
      | true =>
        have hbounded' (c : Nat) (hc : chain.inputCut = some c) : c < k + 1 + n := by
          have := hbounded c hc
          omega
        have hdone := ih (k + 1) rest chain hsmooth hbounded' hrest.due
        -- A command that is cut off writes nothing more, so passing it over makes no difference.
        rw [Stages.total_cons_of_cut hstage.position hcut]
        exact ⟨hdone.outcome, hdone.smooth, hdone.outputs⟩
      | false =>
        obtain ⟨⟨result, hout⟩, hconveys⟩ := completeStage_conveys hsmooth hstage hcut hrest
        rw [Stages.total_cons_of_not_cut hstage.position hcut]
        generalize completeStage (deliver n) stage rest chain = ended at hout hconveys ⊢
        have hdone := ih (k + 1) ended.rest.closeFirst ended.chain (hconveys.smooth hsmooth)
          hconveys.bounded hconveys.holds.due_closeFirst
        rw [Stages.total_closeFirst, hconveys.total, List.append_nil] at hdone
        simp only [hout, Bool.false_eq_true, if_false]
        exact ⟨hdone.outcome, hdone.smooth, hdone.outputs⟩

/-! ## All steps together -/

/-- The steps of a run of commands that let objects flow yield the batch. -/
theorem Pipeline.steps_done {bound : List Stage} (input : List Value) (hsmooth : chain.Smooth base)
    (hcut : chain.inputCut = none) (houtputs : chain.outputs = []) (hrow : row.Holds Stage.New 0)
    (hbind : row.toList.mapM (·.bindStatically base.adapter true) = .ok bound)
    (hbound : ∀ stage ∈ bound, stage.Flows base) :
    (steps (some input) row chain).Done base (batch base bound input) := by
  obtain ⟨hchain, hlist, hfresh⟩ := bindAll_fresh hrow hsmooth.adapter hbind hbound
  have hbegun := beginAll_opened n 0 (bindAll true row chain).1 chain hsmooth (by simp [hcut])
    hfresh
  have hlength : bound.length = n := by rw [← hlist, Stages.length_toList]
  have hremaining := hbegun.remaining
  rw [hlist] at hremaining
  unfold steps
  simp only [Option.isSome_some, hchain]
  generalize beginAll n (bindAll true row chain).1 chain = begun at hbegun hremaining ⊢
  have hsmooth' := hbegun.prelude.smooth base hsmooth
  have houtputs' : begun.chain.outputs = [] := hbegun.prelude.outputs.trans houtputs
  have hbounded (c : Nat) (hc : begun.chain.inputCut = some c) : c < 0 + n := by
    rcases hbegun.cut c hc with hbefore | ⟨-, hlt⟩
    · rw [hcut] at hbefore
      cases hbefore
    · exact hlt
  have hfed :
      (feedHead (some input) begun.stages begun.chain).Fed base (batch base bound input) := by
    -- A chain without commands is not fed at all.
    cases bound with
    | nil =>
      obtain rfl : 0 = n := hlength
      have hskip : feedHead (some input) begun.stages begun.chain
          = ⟨.ok (), begun.stages, begun.chain⟩ := by
        rw [feedHead, beq_self_eq_true, Bool.or_true, if_pos rfl]
      rw [hskip]
      refine ⟨rfl, hsmooth', hbounded, hbegun.holds.due, ?_⟩
      rw [Stages.total, houtputs', Stages.remaining_eq hbegun.holds hbounded, hremaining]
      rfl
    | cons stage rest =>
      have hfed := feedHead_fed_total input (by rw [← hlength]; exact Nat.succ_ne_zero _) hsmooth'
        hbounded hbegun.holds
      rw [Stages.total, houtputs', List.nil_append, Stages.remaining_eq hbegun.holds hbounded,
        hremaining] at hfed
      exact hfed
  rw [hbegun.outcome]
  simp only
  generalize feedHead (some input) begun.stages begun.chain = fed at hfed ⊢
  rw [hfed.outcome, ← hfed.total]
  exact endWave_done n 0 fed.stages fed.chain hfed.smooth hfed.bounded hfed.due

/-! ## After the steps -/

namespace Stage

variable (stage : Stage)

/-- Telling a gentle command to stop leaves no more than notes and steps. -/
theorem callStop_quiet (h : stage.command.Gentle) (chain : Chain) :
    (stage.callStop chain).1 = .ok () ∧ (stage.callStop chain).2.1.command = stage.command
      ∧ chain.Quiet (stage.callStop chain).2.2 := by
  obtain ⟨hsignals, hok⟩ := h.stop chain.flags stage.memory
  refine ⟨hok, rfl, ?_⟩
  unfold callStop
  simp only [hsignals]
  exact (Chain.Quiet.log chain _).trans (.noteAll _ _)

/-- A gentle command changes nothing that counts when it is disposed of. -/
theorem callDispose_quiet (h : stage.command.Gentle) (chain : Chain) :
    chain.Quiet (stage.callDispose chain).2.2 := by
  unfold callDispose
  simp only [h.dispose chain.flags stage.memory]
  exact (Chain.Quiet.log chain _).trans (.noteAll _ _)

/-- The disposal of a gentle command, with its bookkeeping, changes nothing that counts. -/
theorem disposeOf_quiet (h : stage.command.Gentle) (chain : Chain) :
    chain.Quiet (release.disposeOf stage chain).2.2 := by
  rw [(stage.disposeOf_called chain).1]
  exact stage.callDispose_quiet h chain

/-- Releasing a gentle command leaves no more than notes and steps. -/
theorem release_quiet (h : stage.command.Gentle) (chain : Chain) :
    chain.Quiet (stage.release chain).2.2 := by
  unfold release
  by_cases hrunning : stage.state.isRunning = true
  · obtain ⟨hok, hcommand, hquiet⟩ := stage.callStop_quiet h chain
    simp only [hrunning, if_true]
    generalize stage.callStop chain = told at hok hcommand hquiet ⊢
    obtain ⟨result, told, chain'⟩ := told
    simp only at hok hcommand hquiet ⊢
    subst hok
    exact hquiet.trans (disposeOf_quiet { told with state := .stopped } (hcommand ▸ h) chain')
  · simp only [hrunning, Bool.false_eq_true, if_false]
    exact stage.disposeOf_quiet h chain

end Stage

/-- Telling gentle commands to stop reaches all that are running. -/
theorem stopRunning_quiet (stages : List Stage) (chain : Chain)
    (h : ∀ stage ∈ stages, stage.command.Gentle) :
    (stopRunning stages chain).1 = .ok () ∧ chain.Quiet (stopRunning stages chain).2.2
      ∧ ∀ stage ∈ (stopRunning stages chain).2.1, stage.command.Gentle := by
  induction stages generalizing chain with
  | nil => exact ⟨rfl, .refl chain, h⟩
  | cons stage rest ih =>
    rw [List.forall_mem_cons] at h
    unfold stopRunning
    by_cases hrunning : stage.state.isRunning = true
    · obtain ⟨hok, hcommand, hquiet⟩ :=
        Stage.callStop_quiet { stage with input := stage.input.close } h.1 chain
      simp only [hrunning, if_true]
      generalize Stage.callStop { stage with input := stage.input.close } chain = told
        at hok hcommand hquiet ⊢
      obtain ⟨result, told, chain'⟩ := told
      simp only at hok hcommand hquiet ⊢
      subst hok
      obtain ⟨hok, hquiet', hrest⟩ := ih chain' h.2
      exact ⟨hok, hquiet.trans hquiet', List.forall_mem_cons.mpr ⟨hcommand ▸ h.1, hrest⟩⟩
    · simp only [hrunning, Bool.false_eq_true, if_false]
      obtain ⟨hok, hquiet, hrest⟩ := ih chain h.2
      exact ⟨hok, hquiet, List.forall_mem_cons.mpr ⟨h.1, hrest⟩⟩

/-- A round of releases of gentle commands leaves no more than notes and steps. -/
theorem releaseAll_quiet (m : DisposalManager) (stages : List Stage) (chain : Chain)
    (h : ∀ stage ∈ stages, stage.command.Gentle) :
    chain.Quiet (m.releaseAll Stage.releasable chain stages).surroundings := by
  induction stages with
  | nil => exact .refl chain
  | cons stage rest ih =>
    rw [List.forall_mem_cons] at h
    have hlater := ih h.2
    by_cases hdue : (m.releaseAll Stage.releasable chain rest).manager.isDue Stage.releasable stage = true
    · rw [m.releaseAll_cons_of_due Stage.releasable chain hdue]
      exact hlater.trans (stage.release_quiet h.1 _)
    · rw [m.releaseAll_cons_of_not_due Stage.releasable chain hdue]
      exact hlater

/-- A chain that goes on without trouble succeeds. -/
theorem Chain.Smooth.succeeded (h : chain.Smooth base) : chain.status = .succeeded := by
  rw [Chain.status, h.fault, h.running]
  rfl

namespace Pipeline

/-- Reporting the faults of a cleanup changes nothing that counts. -/
theorem reportCleanup_quiet (p : Pipeline) (faults : List CleanupFault) :
    p.chain.Quiet (p.reportCleanup faults).chain := by
  induction faults generalizing p with
  | nil => exact .refl p.chain
  | cons fault rest ih =>
    have hreported := Chain.Quiet.emitError p.chain (p.sourceOf fault.command) fault.error
    exact hreported.trans
      (ih { p with chain := p.chain.emitError (p.sourceOf fault.command) fault.error })

/-- Where the steps of a run went well and all commands are gentle, the run succeeds with what has
come out. -/
theorem run_of_done {p : Pipeline} {input : Option (List Value)} {outputs : List Value}
    (h : (steps input (.ofList p.stages) p.chain).Done base outputs)
    (hgentle : ∀ stage ∈ (steps input (.ofList p.stages) p.chain).stages.toList,
      stage.command.Gentle) :
    ∃ o, (p.run input).1 = .ok o ∧ o.status = .succeeded ∧ o.outputValues = outputs := by
  obtain ⟨hout, hsmooth, houtputs⟩ := h
  unfold run
  generalize steps input (.ofList p.stages) p.chain = ran at hout hsmooth houtputs hgentle ⊢
  obtain ⟨hok, hstopped, hleft⟩ := stopRunning_quiet ran.stages.toList ran.chain hgentle
  simp only [hout]
  generalize stopRunning ran.stages.toList ran.chain = stop at hok hstopped hleft ⊢
  obtain ⟨result, stages, chain⟩ := stop
  simp only at hok hstopped hleft
  subst hok
  have hreleased := releaseAll_quiet p.disposal stages chain hleft
  have hquiet := (hstopped.trans hreleased).trans (reportCleanup_quiet
    (releaseAll { p with stages := stages, chain := chain }).2
    (releaseAll { p with stages := stages, chain := chain }).1)
  have hsmooth' := hsmooth.quiet hquiet
  exact ⟨_, rfl, hsmooth'.succeeded, hquiet.outputs.trans houtputs⟩

/-- Where the commands let objects flow, those of the batch reach the host, and the run succeeds. -/
theorem invoke_eq_batch (settings : ChainSettings) (host : StopToken) (flags : StopFlags)
    (specs : List CommandSpec) (input : List Value) {bound : List Stage}
    (hrunning : (build settings host flags specs).chain.isHalted = false)
    (hbind : (build settings host flags specs).stages.mapM (·.bindStatically settings.adapter true)
      = .ok bound)
    (hbound : ∀ stage ∈ bound, stage.Flows (build settings host flags specs).chain) :
    ∃ o, ((build settings host flags specs).invoke (some input)).1 = .ok o ∧ o.status = .succeeded
      ∧ o.outputValues = batch (build settings host flags specs).chain bound input := by
  have hsmooth : (build settings host flags specs).chain.Smooth
      (build settings host flags specs).chain :=
    ⟨rfl, rfl, rfl, hrunning, rfl, rfl⟩
  have hnew : (Stages.ofList (build settings host flags specs).stages).Holds Stage.New 0 :=
    Stages.holds_ofList _ 0 (stagesFrom_new settings specs 0)
  have hdone := steps_done input hsmooth rfl rfl hnew (by rwa [Stages.toList_ofList]) hbound
  refine run_of_done hdone fun stage hstage => ?_
  -- Stages keep their commands, and those are the ones that were bound.
  obtain ⟨k, hplaced⟩ :=
    (ran_course settings host flags specs [] (some input)).placed.exists_of_mem hstage
  have hmem : stage.command ∈ (build settings host flags specs).stages.map (·.command) :=
    List.mem_of_getElem? hplaced.command
  rw [← Stage.commands_of_bound hbind] at hmem
  obtain ⟨fresh, hfresh, hcommand⟩ := List.mem_map.mp hmem
  rw [← hcommand]
  exact (hbound fresh hfresh).gentle

/-- Streaming equals batch: where the commands transduce, the objects that reach the host are those
of the batch, and the run succeeds. -/
theorem streaming_eq_batch (settings : ChainSettings) (host : StopToken) (flags : StopFlags)
    (specs : List CommandSpec) (input : List Value) {bound : List Stage}
    (hrunning : (build settings host flags specs).chain.isHalted = false)
    (hbind : (build settings host flags specs).stages.mapM (·.bindStatically settings.adapter true)
      = .ok bound)
    (hbound : ∀ stage ∈ bound, stage.Transduces (build settings host flags specs).chain) :
    ∃ o, ((build settings host flags specs).invoke (some input)).1 = .ok o ∧ o.status = .succeeded
      ∧ o.outputValues = batch (build settings host flags specs).chain bound input :=
  invoke_eq_batch settings host flags specs input hrunning hbind
    fun stage hstage => (hbound stage hstage).flows

end Pipeline

/-! ## Writing objects out and selecting some -/

/-- A command that leaves it to the engine to part with it is gentle. -/
theorem Command.gentle_of_default {c : Command}
    (hstop : c.stop = fun _ m => { memory := m, result := .ok () })
    (hdispose : c.dispose = fun _ m => { memory := m, result := .ok none }) : c.Gentle := by
  refine ⟨fun flags memory => ?_, fun flags memory => ?_⟩
  · rw [hstop]
    exact ⟨rfl, rfl⟩
  · rw [hdispose]

/-- The command that writes objects out transduces. -/
theorem Builtin.Output.transduces {stage : Stage} (hcommand : stage.command = command)
    (hfree : stage.bound.contains "InputObject" = false)
    (herrors : stage.preferences.errorAction ≠ .stop) (chain : Chain) : stage.Transduces chain := by
  obtain ⟨position, c, memory, arguments, state, bound, preferences, bindingErrors, input⟩ := stage
  simp only at hcommand hfree herrors
  subst hcommand
  have hprocess (call : Call) :
      (process call).Streams chain.flags preferences (fun _ => False) () := by
    unfold process Hook.writeEnumerated
    split
    · exact ⟨rfl, .inl rfl⟩
    · split
      · exact Hook.streams_writeAll ..
      · exact ⟨rfl, .inl rfl⟩
  exact ⟨⟨_, rfl, rfl, rfl, hfree⟩, herrors, rfl, .inr ⟨rfl, fun vs => ⟨fun v => hprocess _, rfl⟩⟩,
    Command.gentle_of_default rfl rfl⟩

/-- The command that selects objects transduces where it can begin. -/
theorem Builtin.Selection.transduces {stage : Stage} (hcommand : stage.command = command)
    (hfree : stage.bound.contains "InputObject" = false)
    (herrors : stage.preferences.errorAction ≠ .stop) {chain : Chain}
    (hbegins : ((stage.opening chain).yield chain.flags stage.memory).result.completes = true) :
    stage.Transduces chain := by
  refine ⟨⟨{ name := "InputObject", pipeline := .byValue }, ?_, rfl, rfl, hfree⟩, herrors, hbegins,
    .inl hcommand, ?_⟩
  · rw [hcommand]
    rfl
  · rw [hcommand]
    exact Command.gentle_of_default rfl rfl

/-- Objects are written out, and the first of them is selected. -/
def Builtin.selectingFirst : List CommandSpec := [
  { command := Builtin.Output.command },
  { command := Builtin.Selection.command, arguments := [.named "First" (some (.int 1))] }]

/-- Three integers are written out and the first of them is selected: the run succeeds, and the
first is all that reaches the host. -/
theorem Pipeline.streaming_eq_batch_selectingFirst :
    ∃ o, ((build {} ⟨0, []⟩ ⟨1, []⟩ Builtin.selectingFirst).invoke
        (some [.int 1, .int 2, .int 3])).1 = .ok o
      ∧ o.status = .succeeded ∧ o.outputValues = [.int 1] := by
  have hbind : (build {} ⟨0, []⟩ ⟨1, []⟩ Builtin.selectingFirst).stages.mapM
      (·.bindStatically (.standard .empty) true) = .ok [
        ⟨0, Builtin.Output.command, (), [], .created, .empty, {}, .terminating, {}⟩,
        ⟨1, Builtin.Selection.command, ({} : Builtin.Selection.Memory),
          [.named "First" (some (.int 1))], .created, ⟨[⟨"First", .int 1, .named⟩]⟩, {},
          .terminating, {}⟩] := rfl
  obtain ⟨o, ho, hstatus, hvalues⟩ := streaming_eq_batch {} ⟨0, []⟩ ⟨1, []⟩ Builtin.selectingFirst
    [.int 1, .int 2, .int 3] rfl hbind (by
      rw [List.forall_mem_cons, List.forall_mem_singleton]
      exact ⟨Builtin.Output.transduces rfl rfl (by decide) _,
        Builtin.Selection.transduces rfl rfl (by decide) rfl⟩)
  exact ⟨o, ho, hstatus, hvalues.trans rfl⟩

end CommandChain
