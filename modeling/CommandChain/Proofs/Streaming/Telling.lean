import CommandChain.Proofs.Disposal.Release
import CommandChain.Proofs.Streaming.Alone
/-!
# What a command alone tells the host

Behind a command that is alone in its chain stands the host. It gets the objects that the command
writes, the messages that the command lets through, and the errors that the calls return, in the
order in which they come up. `Call.told` is what one call tells and `Stage.told` what all calls
tell; a run of the command alone leaves exactly this on the timeline.
-/

namespace CommandChain

/-! ## Calls -/

/-- What a hook tells the host where all that it writes is accepted: the objects, and the messages
that the preferences let through. -/
def Hook.told {σ : Type} (call : Call) (flags : StopFlags) : Hook σ → List Payload
  | done _ => []
  | panic _ => []
  | store _ next => next.told call flags
  | write v next => .object v :: (next .ok).told call flags
  | report m next =>
    (if call.preferences.delivers m.kind then [.message (call.complete m)] else [])
      ++ (next .ok).told call flags
  | cutInput next => next.told call flags
  | askStopping next => (next false).told call flags
  | note _ next => next.told call flags
  | signal _ next => next.told call flags
  | askSignaled token next => (next (flags.isSignaled token)).told call flags
  | runChain run next =>
    match (run flags).outcome with
    | .ok outcome => (next outcome).told call flags
    | .error _ => []

/-- What the engine tells the host about the result of a call: a fault is an error. -/
def CallResult.told (phase : Phase) (input : Option Value) : CallResult → List Payload
  | fault f => [.message (Message.completed (.error f.error) phase input)]
  | _ => []

/-- What a call tells the host, with what the engine makes of its result. -/
def Call.told {σ : Type} (call : Call) (flags : StopFlags) (hook : Hook σ) (memory : σ) :
    List Payload :=
  hook.told call flags ++ (hook.yield flags memory).result.told call.phase call.input

/-- A hook that only changes the memory, and returns. -/
def Hook.Inward {σ : Type} : Hook σ → Prop
  | done _ => True
  | store _ next => next.Inward
  | _ => False

namespace Stage

/-- What the call for an object tells the host. -/
def toldFor (stage : Stage) (chain : Chain) (memory : stage.command.Memory) (v : Value) :
    List Payload :=
  (stage.call chain .process (stage.withObject v) (some v)).told chain.flags
    ((stage.transducer chain).process memory v) memory

/-- What the calls for a list of objects tell the host. -/
def toldForAll (stage : Stage) (chain : Chain) : stage.command.Memory → List Value → List Payload
  | _, [] => []
  | memory, v :: vs =>
    stage.toldFor chain memory v
      ++ stage.toldForAll chain ((stage.transducer chain).step memory v) vs

/-- What the first of some objects tells comes first. -/
theorem toldForAll_cons_append (stage : Stage) (chain : Chain) (memory : stage.command.Memory)
    (v : Value) (vs : List Value) (rest : List Payload) :
    stage.toldForAll chain memory (v :: vs) ++ rest = stage.toldFor chain memory v
      ++ (stage.toldForAll chain ((stage.transducer chain).step memory v) vs ++ rest) :=
  List.append_assoc _ _ _

/-- What the call to end tells the host. -/
def toldAtEnd (stage : Stage) (chain : Chain) (memory : stage.command.Memory) : List Payload :=
  (stage.closing chain).told chain.flags ((stage.transducer chain).finish memory) memory

/-- What all calls tell the host, where the host supplies some objects. -/
def told (stage : Stage) (chain : Chain) (input : List Value) : List Payload :=
  ((stage.opening chain).yield chain.flags stage.memory).result.told .begin none
    ++ stage.toldForAll chain (stage.begun chain).memory input
    ++ stage.toldAtEnd chain (input.foldl (stage.transducer chain).step (stage.begun chain).memory)

/-- A command that tells the host all that it has to tell. Its parameter takes any object, its errors
do not stop the chain, its begin only changes its memory, it never declares that it needs no further
input, and nothing is told when it is released. -/
structure Tells (chain : Chain) (stage : Stage) : Prop where
  parameter : ∃ p, stage.command.parameters.filter Parameter.acceptsInput = [p]
    ∧ p.pipeline = .byValue ∧ p.type = .any ∧ stage.bound.contains p.name = false
  errors : stage.preferences.errorAction ≠ .stop
  inward : (stage.command.begin (stage.call chain .begin stage.bound none) stage.memory).Inward
  begins : ((stage.opening chain).yield chain.flags stage.memory).result.completes = true
  behaves : (stage.transducer chain).Streams stage.preferences (fun _ => False)
    (stage.begun chain).memory
  stop : stage.command.stop = fun _ m => { memory := m, result := .ok () }
  dispose : stage.command.dispose = fun _ m => { memory := m, result := .ok none }

end Stage

/-! ## What hooks come to -/

/-- The elements of an array, or any other value itself. -/
def Value.elements : Value → List Value
  | array items => items
  | other => [other]

/-- The hook of a call streams, and this is what it leaves in the memory and what the call tells the
host. -/
structure Hook.ComesTo {σ : Type} (call : Call) (flags : StopFlags) (hook : Hook σ)
    (memory after : σ) (told : List Payload) : Prop where
  streams : hook.Streams flags call.preferences (fun _ => False) memory
  leaves : (hook.yield flags memory).memory = after
  tells : call.told flags hook memory = told

namespace Hook.ComesTo

variable {σ : Type} {call : Call} {flags : StopFlags} {memory memory' after : σ}
  {told : List Payload} {next : CallResult → Hook σ}

/-- Returning tells what the engine makes of the result. -/
theorem done {result : CallResult} (h : result.completes = true) :
    (Hook.done result).ComesTo call flags memory memory (result.told call.phase call.input) :=
  ⟨h, rfl, rfl⟩

theorem store {hook : Hook σ} (h : hook.ComesTo call flags memory' after told) :
    (Hook.store memory' hook).ComesTo call flags memory after told :=
  ⟨h.streams, h.leaves, h.tells⟩

/-- A write tells an object before what the hook goes on to tell, provided the hook subsides where
the write is refused. -/
theorem write (v : Value) (h : (next .ok).ComesTo call flags memory after told)
    (hrefused : (next .stopped).Subsides flags call.preferences) :
    (Hook.write v next).ComesTo call flags memory after (.object v :: told) :=
  ⟨⟨h.streams, hrefused⟩, h.leaves, congrArg (Payload.object v :: ·) h.tells⟩

/-- Writing several values tells each, in order, before what the hook goes on to tell. -/
theorem writeAll (vs : List Value) (h : (next .ok).ComesTo call flags memory after told)
    (hrefused : (next .stopped).Subsides flags call.preferences) :
    (Hook.writeAll vs next).ComesTo call flags memory after (vs.map .object ++ told) := by
  induction vs with
  | nil => exact h
  | cons v vs ih => exact write v ih hrefused

/-- The elements of an array are written one by one. -/
theorem writeEnumerated (v : Value) (h : (next .ok).ComesTo call flags memory after told)
    (hrefused : (next .stopped).Subsides flags call.preferences) :
    (Hook.writeEnumerated v next).ComesTo call flags memory after
      (v.elements.map .object ++ told) := by
  cases v with
  | array items => exact h.writeAll items hrefused
  | _ => exact h.write _ hrefused

end Hook.ComesTo

/-! ## The timeline of a chain -/

namespace Chain

/-- The entries of the timeline: what reached the host, with its sources. -/
def entries (chain : Chain) : List (RecordSource × Payload) :=
  chain.records.map fun r => (r.source, r.payload)

/-- A chain went on without trouble, nothing was cut off, and these entries reached the host. -/
structure Shows (chain : Chain) (entries : List (RecordSource × Payload)) (chain' : Chain) :
    Prop where
  smooth : ∀ base, chain.Smooth base → chain'.Smooth base
  inputCut : chain'.inputCut = chain.inputCut
  entries : chain'.entries = chain.entries ++ entries

namespace Shows

variable {chain chain' chain'' : Chain} {entries entries' : List (RecordSource × Payload)}

theorem trans (h : chain.Shows entries chain') (h' : chain'.Shows entries' chain'') :
    chain.Shows (entries ++ entries') chain'' :=
  ⟨fun base hsmooth => h'.smooth base (h.smooth base hsmooth), h'.inputCut.trans h.inputCut,
    by rw [h'.entries, h.entries, List.append_assoc]⟩

/-- Nothing reached the host. -/
theorem of_quiet (hquiet : chain.Quiet chain') (hrecords : chain'.records = chain.records) :
    chain.Shows [] chain' :=
  ⟨fun _ hsmooth => hsmooth.quiet hquiet, hquiet.inputCut,
    by rw [Chain.entries, hrecords, List.append_nil, Chain.entries]⟩

theorem refl (chain : Chain) : chain.Shows [] chain :=
  of_quiet (.refl chain) rfl

theorem log (chain : Chain) (e : Event) : chain.Shows [] (chain.log e) :=
  of_quiet (.log chain e) rfl

theorem note (chain : Chain) (text : String) : chain.Shows [] (chain.note text) :=
  of_quiet (.note chain text) rfl

theorem emit (chain : Chain) (payload : Payload) (source : RecordSource) :
    chain.Shows [] (chain.emit payload source).2 :=
  of_quiet (.emit chain payload source) rfl

/-- A chain that a command ran, and that signaled no token, leaves nothing on the timeline. -/
theorem absorb (chain : Chain) {report : ChainReport} (h : report.signals = []) :
    chain.Shows [] (chain.absorb report) := by
  refine of_quiet (.absorb chain h) ?_
  rw [Chain.absorb, h]
  exact records_noteAll chain report.notes
where
  records_noteAll (chain : Chain) (texts : List String) :
      (chain.noteAll texts).records = chain.records := by
    induction texts generalizing chain with
    | nil => rfl
    | cons text texts ih => exact ih (chain.note text)

/-- A delivered record is shown with its source. -/
theorem deliverToHost (chain : Chain) (r : Record) :
    chain.Shows [(r.source, r.payload)] (chain.deliverToHost r) :=
  ⟨fun _ h => ⟨h.adapter, h.scripts, h.flags, h.running, h.pending, h.fault⟩, rfl, by
    rw [Chain.entries, records_deliverToHost, List.map_append, Chain.entries, List.map_singleton]⟩

/-- A record that is made and handed to the host is shown. -/
theorem tell (chain : Chain) (payload : Payload) (source : RecordSource) :
    chain.Shows [(source, payload)]
      ((chain.emit payload source).2.deliverToHost (chain.emit payload source).1) :=
  (emit chain payload source).trans (deliverToHost _ (chain.emit payload source).1)

/-- A message is shown where the preferences let it through. -/
theorem report {call : Call} {m : Message} (h : call.preferences.forKind m.kind ≠ .stop)
    (chain : Chain) : chain.Shows ((if call.preferences.delivers m.kind then
      [.message (call.complete m)] else []).map (call.source, ·)) (call.report m chain).2 := by
  have hpreference : (call.preferences.forKind (call.complete m).kind == .stop) = false := by
    rw [call.kind_complete, beq_eq_false_iff_ne]
    exact h
  rw [Call.report, hpreference, call.kind_complete]
  simp only [Bool.false_eq_true, if_false]
  split
  · exact tell chain (.message (call.complete m)) call.source
  · exact emit chain (.message (call.complete m)) call.source

end Shows

end Chain

variable {base chain : Chain} {σ : Type}

/-! ## Serving a call -/

/-- What serving a hook comes to where the host stands behind the command. -/
structure Served.Told (source : RecordSource) (y : Yield σ) (payloads : List Payload)
    (chain : Chain) (served : Served σ 0) : Prop where
  outcome : served.outcome = .ok y.result
  memory : served.memory = y.memory
  shows : chain.Shows (payloads.map (source, ·)) served.chain

/-- What was shown before a call comes before what the call tells. -/
theorem Served.Told.of_shows {source : RecordSource} {y : Yield σ} {payloads : List Payload}
    {chain' : Chain} {served : Served σ 0} (h : served.Told source y payloads chain')
    (before : List Payload) (hbefore : chain.Shows (before.map (source, ·)) chain') :
    served.Told source y (before ++ payloads) chain :=
  ⟨h.outcome, h.memory, by rw [List.map_append]; exact hbefore.trans h.shows⟩

namespace Hook.Inward

variable {hook : Hook σ}

/-- Such a hook writes nothing that could be refused. -/
theorem refuseWrites_eq (h : hook.Inward) : hook.refuseWrites = hook := by
  induction hook with
  | done result => rfl
  | store memory next ih => rw [Hook.refuseWrites, ih h]
  | _ => exact h.elim

/-- Such a hook streams, if it completes. -/
theorem streams (h : hook.Inward) {flags : StopFlags} {preferences : Preferences}
    {saturated : σ → Prop} {memory : σ} (hcompletes : (hook.yield flags memory).result.completes = true) :
    hook.Streams flags preferences saturated memory := by
  induction hook generalizing memory with
  | done result => exact hcompletes
  | store memory' next ih => exact ih h hcompletes
  | _ => exact h.elim

/-- Serving a hook that keeps to itself shows nothing before it returns, and yields what the hook
yields. -/
theorem serve_told (h : hook.Inward) (call : Call) (push : Push 0) (flags : StopFlags) (memory : σ)
    (chain : Chain) :
    (serve call push hook memory .nil chain).Told call.source (hook.yield flags memory) [] chain := by
  induction hook generalizing memory with
  | done result => exact ⟨rfl, rfl, .refl chain⟩
  | store memory' next ih => exact ih h memory'
  | _ => exact h.elim

end Hook.Inward

/-- Serving a hook that streams tells the host what the hook tells. -/
theorem serve_told (call : Call) (hphase : call.phase ≠ .begin) (hook : Hook σ) (memory : σ)
    (chain : Chain) (hsmooth : chain.Smooth base) (hcut : chain.inputCut = none)
    (h : hook.Streams base.flags call.preferences (fun _ => False) memory) :
    (serve call (deliver 0) hook memory .nil chain).Told call.source (hook.yield base.flags memory)
      (hook.told call base.flags) chain := by
  have hfree {chain : Chain} (hcut : chain.inputCut = none) : chain.isCut call.position = false := by
    rw [Chain.isCut, hcut]
    rfl
  induction hook generalizing memory chain with
  | done result => exact ⟨rfl, rfl, .refl chain⟩
  | store memory' next ih => exact ih memory' chain hsmooth hcut h
  | note text next ih =>
    have hnote := Chain.Shows.note chain text
    exact (ih memory _ (hnote.smooth _ hsmooth) (hnote.inputCut.trans hcut) h).of_shows [] hnote
  -- The host takes whatever is written.
  | write v next ih =>
    have hlog := Chain.Shows.log chain (.writing call.id v)
    have hstop : call.isStopping (chain.log (.writing call.id v)) = false :=
      Call.isStopping_of_smooth (hlog.smooth _ hsmooth) (hfree hcut)
    have hbegin : (call.phase == .begin) = false := beq_eq_false_iff_ne.mpr hphase
    have hwrite := (hlog.trans (Chain.Shows.tell _ (.object v) call.source)).trans
      (.log _ (.wrote call.id .ok))
    have hnext := (ih .ok memory _ (hwrite.smooth _ hsmooth) (hwrite.inputCut.trans hcut) h.1).of_shows
      [.object v] hwrite
    unfold serve
    simp only [Call.writeObject, hstop, hbegin, Bool.false_eq_true, if_false]
    exact ⟨hnext.outcome, hnext.memory, hnext.shows⟩
  | report m next ih =>
    have hreport := (Chain.Shows.log chain (.reporting call.id m)).trans (.report h.1 _)
    have hnext := (ih .ok memory _ (hreport.smooth _ hsmooth) (hreport.inputCut.trans hcut)
      h.2).of_shows _ hreport
    unfold serve
    simp only [(Call.report_quiet h.1 (chain.log (.reporting call.id m))).1]
    exact hnext
  | askStopping next ih =>
    unfold serve
    rw [Call.isStopping_of_smooth hsmooth (hfree hcut)]
    exact ih false memory chain hsmooth hcut h.1
  | askSignaled token next ih =>
    unfold serve
    rw [hsmooth.flags]
    exact ih _ memory chain hsmooth hcut h
  | runChain run next ih =>
    obtain ⟨hsignals, outcome, hout, hnext⟩ := h
    have habsorb := Chain.Shows.absorb chain hsignals
    have hserved := (ih outcome memory (chain.absorb (run base.flags))
      (habsorb.smooth _ hsmooth) (habsorb.inputCut.trans hcut) hnext).of_shows [] habsorb
    rw [Hook.yield_runChain hout, Hook.told, hout]
    unfold serve
    simp only [hsmooth.flags, hout]
    exact hserved
  | cutInput next => exact h.1.elim
  | _ => exact h.elim

/-! ## Settling a call -/

/-- A call that completes is settled with the error that it returned, if any. -/
theorem settle_told (stage : Stage) (chain : Chain) (hpending : chain.pendingStop = none)
    (herrors : stage.preferences.errorAction ≠ .stop) (phase : Phase) (input : Option Value)
    {result : CallResult} (h : result.completes = true) :
    ∃ chain', settle stage chain phase input result = (.ok, stage, chain')
      ∧ chain.Shows ((result.told phase input).map (stage.source, ·)) chain' := by
  cases result with
  | ok => exact ⟨chain, settle_ok stage hpending phase input, .refl chain⟩
  | stopped => cases h
  | fault f =>
    have hgoes : f.terminating = false := by simpa [CallResult.completes] using h
    exact ⟨_, settle_fault stage hpending phase input hgoes herrors, .tell chain _ stage.source⟩

/-- A call that completes tells the host what its hook told, and then what it returned. -/
theorem invoke_told_of_served {push : Push 0} {stage : Stage} {phase : Phase} {state : CommandState}
    (bound : Option BoundParameters) (input : Option Value) {y : Yield stage.command.Memory}
    {payloads : List Payload} (henter : stage.state.entering phase = .ok state)
    (herrors : stage.preferences.errorAction ≠ .stop) (hsmooth : chain.Smooth base)
    (hserved : (serve (stage.call base phase (bound.getD stage.bound) input) push
      (stage.command.hook (stage.call base phase (bound.getD stage.bound) input) stage.memory)
      stage.memory .nil (chain.log (.called stage.id phase (bound.getD stage.bound) input))).Told
        stage.source y payloads
        (chain.log (.called stage.id phase (bound.getD stage.bound) input)))
    (hcompletes : y.result.completes = true) :
    ∃ chain', invoke push stage .nil chain phase bound input
        = ⟨.ok .ok, { stage with state := state, memory := y.memory }, .nil, chain'⟩
      ∧ chain.Shows ((payloads ++ y.result.told phase input).map (stage.source, ·)) chain' := by
  have hcall :
      ({ stage with state := state } : Stage).call chain phase (bound.getD stage.bound) input
        = stage.call base phase (bound.getD stage.bound) input :=
    hsmooth.call_eq { stage with state := state } phase _ input
  unfold invoke
  rw [henter]
  simp only
  generalize bound.getD stage.bound = parameters at hcall hserved ⊢
  rw [hcall, show ({ stage with state := state } : Stage).id = stage.id from rfl]
  generalize serve (stage.call base phase parameters input) push _ stage.memory .nil
    (chain.log (.called stage.id phase parameters input)) = served at hserved ⊢
  obtain ⟨outcome, memory, rest, chain'⟩ := served
  obtain ⟨hout, hmemory, hshows⟩ := hserved
  simp only at hout hmemory hshows ⊢
  subst hout hmemory
  cases rest
  have hbefore := ((Chain.Shows.log chain (.called stage.id phase parameters input)).trans
    hshows).trans (.log chain' (.returned stage.id phase y.result))
  obtain ⟨chain'', hsettle, hafter⟩ : ∃ chain'', settle { stage with state, memory := y.memory }
        (chain'.log (.returned stage.id phase y.result)) phase input y.result
        = (.ok, { stage with state, memory := y.memory }, chain'')
      ∧ (chain'.log (.returned stage.id phase y.result)).Shows
        ((y.result.told phase input).map (stage.source, ·)) chain'' :=
    settle_told { stage with state, memory := y.memory } _ (hbefore.smooth _ hsmooth).pending herrors
      phase input hcompletes
  have hall := (hbefore.trans hafter).trans (.log chain'' (.settled stage.id phase true))
  rw [List.nil_append, List.append_nil, List.append_nil, ← List.map_append] at hall
  refine ⟨_, ?_, hall⟩
  simp only [Stage.id] at hsettle ⊢
  rw [hsettle]
  rfl

/-- A call for an object, or to end, tells the host what it tells. -/
theorem invoke_told (stage : Stage) {phase : Phase} {state : CommandState}
    (bound : Option BoundParameters) (input : Option Value) (hphase : phase ≠ .begin)
    (henter : stage.state.entering phase = .ok state)
    (herrors : stage.preferences.errorAction ≠ .stop) (hsmooth : chain.Smooth base)
    (hcut : chain.inputCut = none)
    (h : (stage.command.hook (stage.call base phase (bound.getD stage.bound) input)
      stage.memory).Streams base.flags stage.preferences (fun _ => False) stage.memory) :
    ∃ chain', invoke (deliver 0) stage .nil chain phase bound input
        = ⟨.ok .ok, { stage with
            state := state
            memory := ((stage.command.hook (stage.call base phase (bound.getD stage.bound) input)
              stage.memory).yield base.flags stage.memory).memory }, .nil, chain'⟩
      ∧ chain.Shows (((stage.call base phase (bound.getD stage.bound) input).told base.flags
          (stage.command.hook (stage.call base phase (bound.getD stage.bound) input) stage.memory)
          stage.memory).map (stage.source, ·)) chain' := by
  have hlog := Chain.Shows.log chain (.called stage.id phase (bound.getD stage.bound) input)
  exact invoke_told_of_served bound input henter herrors hsmooth
    (serve_told (stage.call base phase (bound.getD stage.bound) input) hphase _ stage.memory _
      (hlog.smooth _ hsmooth) hcut h) h.completes

/-! ## Steps of a run -/

namespace Stage

/-- A stage in the middle of a run: its state, its memory and its pipe have changed. -/
def amid (stage : Stage) (state : CommandState) (memory : stage.command.Memory) (pipe : Pipe) :
    Stage :=
  { stage with state := state, memory := memory, input := pipe }

/-- In the middle of a run the command takes objects and streams, and it needs them all. -/
structure Listens (base : Chain) (stage : Stage) (state : CommandState)
    (memory : stage.command.Memory) (pipe : Pipe) : Prop where
  running : state.isRunning = true
  empty : pipe.slot = none
  binds : ∀ v, (stage.binder base.adapter).bindObject stage.bound v = .ok (stage.withObject v)
  errors : stage.preferences.errorAction ≠ .stop
  streams : (stage.transducer base).Streams stage.preferences (fun _ => False) memory

end Stage

variable {stage : Stage} {state : CommandState} {memory : stage.command.Memory} {pipe : Pipe}

/-- A command that is called to begin tells the host no more than what it returns. -/
theorem beginAll_told (h : stage.Tells base) (hfresh : stage.Fresh base 0)
    (hsmooth : chain.Smooth base) :
    ∃ chain', beginAll 1 (.cons stage .nil) chain
        = ⟨.ok (), .cons (stage.amid .began (stage.begun base).memory stage.input) .nil, chain'⟩
      ∧ chain.Shows ((((stage.opening base).yield base.flags stage.memory).result.told .begin
          none).map (stage.source, ·)) chain' := by
  have henter : stage.state.entering .begin = .ok .began := by
    rw [hfresh.created]
    rfl
  have hyield : (stage.command.begin (stage.call base .begin stage.bound none) stage.memory).yield
      base.flags stage.memory = (stage.opening base).yield base.flags stage.memory := by
    rw [Stage.opening, h.inward.refuseWrites_eq]
  have hserved := h.inward.serve_told (stage.call base .begin stage.bound none) (deliver 0) base.flags
    stage.memory (chain.log (.called stage.id .begin stage.bound none))
  rw [hyield] at hserved
  obtain ⟨chain', hinvoke, hshows⟩ := invoke_told_of_served none none henter h.errors hsmooth hserved
    h.begins
  refine ⟨chain', ?_, hshows⟩
  simp only [beginAll, hsmooth.running, Bool.false_eq_true, if_false]
  rw [hinvoke]
  rfl

/-- An object that is pushed into the command tells the host what the call for it tells. -/
theorem deliver_told {r : Record} {v : Value} (hv : r.object? = some v)
    (hlistens : stage.Listens base state memory pipe) (hopened : pipe.closed = false)
    (hsmooth : chain.Smooth base) (hcut : chain.inputCut = none) :
    ∃ pipe' chain', deliver 1 (.cons (stage.amid state memory pipe) .nil) chain r
        = ⟨.ok .ok, .cons (stage.amid .processing ((stage.transducer base).step memory v) pipe') .nil,
          chain'⟩
      ∧ pipe'.slot = none ∧ pipe'.closed = false
      ∧ chain.Shows ((stage.toldFor base memory v).map (stage.source, ·)) chain' := by
  have hwrite : pipe.write false r
      = .ok { pipe with slot := some r, written := pipe.written + 1 } := by
    simp [Pipe.write, hopened, hlistens.empty]
  let taken : Pipe := ⟨none, pipe.closed, pipe.written + 1, pipe.read + 1⟩
  obtain ⟨chain', hinvoke, hshows⟩ := invoke_told (stage.amid state memory taken)
    (some (stage.withObject v)) (some v) (by decide : Phase.process ≠ .begin)
    (CommandState.entering_process hlistens.running) hlistens.errors hsmooth hcut
    (hlistens.streams.process v)
  have hprocess : processRecord (deliver 0) (stage.amid state memory taken) .nil chain r
      = ⟨.ok .ok, stage.amid .processing ((stage.transducer base).step memory v) taken, .nil,
        chain'⟩ :=
    (processRecord_of_bound hv hlistens.running (hsmooth.adapter ▸ hlistens.binds v)).trans hinvoke
  refine ⟨taken, chain', ?_, rfl, hopened, hshows⟩
  unfold deliver
  simp only [hsmooth.running, Stage.amid, hwrite, Pipe.take, Bool.false_eq_true, if_false]
  simp only [Stage.amid, taken] at hprocess
  rw [hprocess]

/-- Feeding the objects of the host tells it what the calls for them tell. -/
theorem feedObjects_told (values : List Value) (hlistens : stage.Listens base state memory pipe)
    (hopened : pipe.closed = false) (hsmooth : chain.Smooth base) (hcut : chain.inputCut = none) :
    ∃ state' pipe' chain', feedObjects values (.cons (stage.amid state memory pipe) .nil) chain
        = ⟨.ok (), .cons (stage.amid state' (values.foldl (stage.transducer base).step memory) pipe')
          .nil, chain'⟩
      ∧ stage.Listens base state' (values.foldl (stage.transducer base).step memory) pipe'
      ∧ chain.Shows ((stage.toldForAll base memory values).map (stage.source, ·)) chain' := by
  induction values generalizing state memory pipe chain with
  | nil => exact ⟨state, pipe, chain, rfl, hlistens, .refl chain⟩
  | cons v values ih =>
    have hfeed := (Chain.Shows.log chain (.feeding v)).trans (.emit _ (.object v) .host)
    obtain ⟨pipe', chain', hdeliver, hempty, hopened', hshows⟩ := deliver_told
      (r := ((chain.log (.feeding v)).emit (.object v) .host).1) rfl hlistens hopened
      (hfeed.smooth _ hsmooth) (hfeed.inputCut.trans hcut)
    have hbefore := hfeed.trans hshows
    have hgoing : stage.Listens base .processing ((stage.transducer base).step memory v) pipe' :=
      ⟨rfl, hempty, hlistens.binds, hlistens.errors, hlistens.streams.step v⟩
    obtain ⟨state', pipe'', chain'', hfed, hlistens', hafter⟩ := ih hgoing hopened'
      (hbefore.smooth _ hsmooth) (hbefore.inputCut.trans hcut)
    refine ⟨state', pipe'', chain'', ?_, hlistens', ?_⟩
    · unfold feedObjects
      simp only [hsmooth.running, hcut, Option.isSome_none, Bool.or_self, Bool.false_eq_true, if_false]
      rw [hdeliver]
      exact hfed
    · rw [Stage.toldForAll, List.map_append]
      exact hbefore.trans hafter

/-- A command that comes to its end tells the host what its call to end tells. -/
theorem endWave_told (hlistens : stage.Listens base state memory pipe)
    (hsmooth : chain.Smooth base) (hcut : chain.inputCut = none) :
    (endWave 1 (.cons (stage.amid state memory pipe) .nil) chain).outcome = .ok ()
      ∧ chain.Shows ((stage.toldAtEnd base memory).map (stage.source, ·))
        (endWave 1 (.cons (stage.amid state memory pipe) .nil) chain).chain := by
  obtain ⟨pipe', -, hdrain⟩ := drain_of_empty (deliver 0) (stage.amid state memory pipe) .nil chain
    hlistens.empty
  have haccepts : (stage.amid state memory pipe').acceptsInput = true :=
    Binder.acceptsInput_of_bindObject (hlistens.binds .null)
  have hfree : chain.isCut (stage.amid state memory pipe).position = false := by
    rw [Chain.isCut, hcut]
    rfl
  obtain ⟨chain', hinvoke, hshows⟩ := invoke_told (stage.amid state memory pipe') none none
    (by decide : Phase.finish ≠ .begin) rfl hlistens.errors hsmooth hcut hlistens.streams.finish
  have honce : processOnce (deliver 0) (stage.amid state memory pipe') .nil chain
      = ⟨.ok .ok, stage.amid state memory pipe', .nil, chain⟩ := by
    rw [processOnce, haccepts]
    rfl
  have hfinish : finishStage (deliver 0) (stage.amid state memory pipe') .nil chain
      = ⟨.ok .ok, stage.amid (state.becomeIfAllowed .ended)
        (((stage.transducer base).finish memory).yield base.flags memory).memory pipe', .nil,
        chain'⟩ := by
    have hrunning : (stage.amid state memory pipe').state.isRunning = true := hlistens.running
    rw [finishStage, if_pos hrunning, hinvoke]
    rfl
  have hended : completeStage (deliver 0) (stage.amid state memory pipe) .nil chain
      = ⟨.ok .ok, stage.amid (state.becomeIfAllowed .ended)
        (((stage.transducer base).finish memory).yield base.flags memory).memory pipe', .nil,
        chain'⟩ := by
    have hpiped : ({ stage.amid state memory pipe with input := pipe' } : Stage)
        = stage.amid state memory pipe' := rfl
    unfold completeStage
    rw [hpiped] at hdrain
    simp only [hdrain, hsmooth.running, honce, hfinish, Bool.false_eq_true, if_false]
  unfold endWave
  simp only [hsmooth.running, hfree, hended, Bool.false_eq_true, if_false]
  exact ⟨rfl, hshows⟩

/-! ## A whole run -/

namespace Stage.Tells

/-- A command that tells all lets objects flow. -/
theorem flows (h : stage.Tells base) : stage.Flows base := by
  refine Transduces.flows ⟨h.parameter, h.errors, h.begins, .inr ⟨?_, h.behaves⟩,
    Command.gentle_of_default h.stop h.dispose⟩
  have hinward := h.inward
  have hbegins := h.begins
  rw [Stage.opening, hinward.refuseWrites_eq] at hbegins ⊢
  exact hinward.streams hbegins

/-- The steps of a run of the command alone tell the host what all its calls tell. -/
theorem steps_told {fresh : Stage} (h : stage.Tells base) (hnew : fresh.New 0)
    (hbind : fresh.bindStatically base.adapter true = .ok stage) (hsmooth : chain.Smooth base)
    (hcut : chain.inputCut = none) (input : List Value) :
    chain.Shows ((stage.told base input).map (stage.source, ·))
      (Pipeline.steps (some input) (.cons fresh .nil) chain).chain := by
  have hfresh := h.flows.fresh hbind hnew
  have hbinds : bindAll true (.cons fresh .nil) chain = (.cons stage .nil, chain) := by
    have hbind' : fresh.bindStatically chain.adapter (fresh.position != 0 || true) = .ok stage := by
      rw [hsmooth.adapter, Bool.or_true, hbind]
    simp only [bindAll, hbind']
  obtain ⟨begun, hbegin, hopening⟩ := beginAll_told h hfresh hsmooth
  have hlistens : stage.Listens base .began (stage.begun base).memory stage.input :=
    ⟨rfl, hfresh.empty, hfresh.binds, h.errors, h.behaves⟩
  have hbegun := hopening.smooth _ hsmooth
  obtain ⟨state, pipe, fed, hfeed, hlistens', hfed⟩ := feedObjects_told input hlistens hfresh.opened
    hbegun (hopening.inputCut.trans hcut)
  have hbefore := hopening.trans hfed
  -- The pipe is closed behind the last object.
  have hclosed : stage.Listens base state (input.foldl (stage.transducer base).step
      (stage.begun base).memory) pipe.close :=
    ⟨hlistens'.running, hlistens'.empty, hlistens'.binds, hlistens'.errors, hlistens'.streams⟩
  have hhead : feedHead (some input)
        (.cons (stage.amid .began (stage.begun base).memory stage.input) .nil) begun
      = ⟨.ok (), .cons (stage.amid state (input.foldl (stage.transducer base).step
          (stage.begun base).memory) pipe.close) .nil, fed⟩ := by
    unfold feedHead
    simp only [hbegun.running, hfeed]
    rfl
  obtain ⟨-, hended⟩ := endWave_told hclosed (hbefore.smooth _ hsmooth)
    (hbefore.inputCut.trans hcut)
  have hall := hbefore.trans hended
  rw [← List.map_append, ← List.map_append] at hall
  unfold Pipeline.steps
  simp only [Option.isSome_some, hbinds, hbegin, hhead]
  exact hall

end Stage.Tells

/-- Commands that leave it to the engine to dispose of them report nothing. -/
theorem entries_of_default (flags : StopFlags) (stages : List Stage)
    (h : ∀ stage ∈ stages,
      stage.command.dispose = fun _ m => { memory := m, result := .ok none }) :
    (disposals flags stages).1.filterMap Disposal.entry? = [] := by
  induction stages with
  | nil => rfl
  | cons stage rest ih =>
    rw [List.forall_mem_cons] at h
    simp only [disposals, h.1, List.filterMap_append, ih h.2]
    rfl

namespace Pipeline.Alone

variable {settings : ChainSettings} {host : StopToken} {flags : StopFlags} {spec : CommandSpec}

/-- A run of a command alone that tells all succeeds, and what its calls tell reaches the host. -/
theorem invoke_told (h : Alone settings host flags spec stage)
    (htells : stage.Tells (build settings host flags [spec]).chain) (input : List Value) :
    ∃ o, ((build settings host flags [spec]).invoke (some input)).1 = .ok o ∧ o.status = .succeeded
      ∧ o.records.map (fun r => (r.source, r.payload))
        = (stage.told (build settings host flags [spec]).chain input).map (stage.source, ·) := by
  obtain ⟨o, ho, hstatus, -⟩ := h.invoke htells.flows input
  refine ⟨o, ho, hstatus, ?_⟩
  have hrun : (((build settings host flags [spec]).signaled []).run (some input)).1 = .ok o := ho
  obtain ⟨first, later, hbind, hnil, hlist⟩ := Stage.bound_cons h.binds
  cases hnil
  obtain ⟨rfl, -⟩ := List.cons.inj hlist
  have hsteps := htells.steps_told ⟨rfl, rfl, rfl, rfl⟩ hbind ⟨rfl, rfl, rfl, h.running, rfl, rfl⟩ rfl
    input
  -- Telling the command to stop and disposing of it tells the host nothing.
  obtain ⟨htracks, block, hgrown, hhalting, -⟩ :=
    wind_grown settings host flags [spec] [] (some input) hrun
  have hblock : Journal.deliveries block = [] := List.filterMap_eq_nil_iff.mpr fun e he => by
    have := hhalting e he
    cases e <;> first | rfl | exact this.elim
  have hwind : (((build settings host flags [spec]).signaled []).wind (some input)).2.chain.records
      = (ran settings host flags [spec] [] (some input)).chain.records := by
    rw [htracks.ledger.records, hgrown, Journal.deliveries_append, hblock, List.append_nil,
      (ran_course settings host flags [spec] [] (some input)).tracks.ledger.records]
  obtain ⟨cleanup, hrecords, hcleanup⟩ :=
    (releases_of_run settings host flags [spec] [] (some input) hrun).errors
  have hnone : cleanup.map (fun r => (r.source, r.payload)) = [] := by
    rw [hcleanup]
    refine entries_of_default _ _ fun left hleft => ?_
    obtain ⟨spec', hspec, hcommand⟩ := (wound_of_run settings host flags [spec] [] (some input)
      hrun).commands left hleft
    obtain ⟨preferences, hstage⟩ := h.stage_eq
    have hdispose := htells.dispose
    rw [hcommand, List.mem_singleton.mp hspec]
    rw [hstage] at hdispose
    exact hdispose
  rw [hrecords, List.map_append, hnone, List.append_nil, hwind]
  exact hsteps.entries

end Pipeline.Alone

end CommandChain
