import CommandChain.Proofs.Selecting.Trailing
import CommandChain.Proofs.Selecting.Window
/-!
# Taking the first objects

A command that selects the first objects of a chain takes those that it skips and those that it
writes, and cuts its input off behind the last of them, or at once where there are none. So a run of
the commands in front of it goes abreast with the run of the chain until then: what reaches the host
in the one is what the command is called with in the other.
-/

namespace CommandChain

namespace Journal

variable {k limit : Nat} {journal journal' later later' : List Event}

/-- The command at a position has cut its input off behind so many objects, which are the first that
reach the host of another run. -/
def Sated (k limit : Nat) (journal journal' : List Event) : Prop :=
  ∃ before after taken, journal = before ++ .cut ⟨k⟩ :: after
    ∧ processed before k = List.map some taken ∧ taken.length = limit ∧ taken <+: arrivals journal'

/-- A command that has cut its input off has done so for good. -/
theorem Sated.mono (h : Sated k limit journal journal') (hgrown : journal <+: later)
    (hgrown' : journal' <+: later') : Sated k limit later later' := by
  obtain ⟨before, after, taken, rfl, htaken, hlength, harrived⟩ := h
  obtain ⟨block, rfl⟩ := hgrown
  obtain ⟨block', rfl⟩ := hgrown'
  refine ⟨before, after ++ block, taken, by simp, htaken, hlength, ?_⟩
  rw [arrivals_append]
  exact harrived.trans (List.prefix_append _ _)

/-- The command at a position was called to end when it had taken all that reaches the host of another
run, which is less than it needed. -/
def Exhausted (k limit : Nat) (journal journal' : List Event) : Prop :=
  ∃ before after parameters input, journal = before ++ .called ⟨k⟩ .finish parameters input :: after
    ∧ processed before k = List.map some (arrivals journal') ∧ (arrivals journal').length < limit

/-- A command that was called to end has been so for good. -/
theorem Exhausted.mono (h : Exhausted k limit journal journal') (hgrown : journal <+: later) :
    Exhausted k limit later journal' := by
  obtain ⟨before, after, parameters, input, rfl, hrest⟩ := h
  obtain ⟨block, rfl⟩ := hgrown
  exact ⟨before, after ++ block, parameters, input, by simp, hrest⟩

end Journal

namespace Builtin.Selection

variable {first skip seen k p : Nat} {properties : List String}

/-! ## The command -/

/-- The memory of a command that selects the first objects, after so many objects. -/
def Memory.taking (first skip : Nat) (properties : List String) (seen : Nat) : Memory where
  properties := properties
  first := some first
  skip := skip
  seen := seen
  written := seen - skip

/-- How many objects a command takes that selects the first ones. -/
def limit (first skip : Nat) : Nat :=
  if first = 0 then 0 else skip + first

/-- An object that is not behind the window is skipped or written, and after the last of these the
input is cut off. -/
theorem process_eq (call : Call) (h : seen < skip + first) :
    process call (.taking first skip properties seen) =
      .store { Memory.taking first skip properties seen with seen := seen + 1 }
        (if seen < skip then .done .ok
        else .store (.taking first skip properties (seen + 1))
          (.write (project properties call.adapter call.inputObject) fun
            | .ok => if seen + 1 = skip + first then .cutInput (.done .ok) else .done .ok
            | refused => .done refused)) := by
  unfold process
  by_cases hskip : seen < skip
  · simp only [Memory.taking, hskip, if_true]
  · have hroom : seen - skip < first := by omega
    have hnext : seen - skip + 1 = seen + 1 - skip := by omega
    have hlast : seen + 1 - skip = first ↔ seen + 1 = skip + first := by omega
    simp only [Memory.taking, hskip, hroom, if_true, if_false, writeFirst, hnext]
    refine congrArg (Hook.store _) (congrArg (Hook.store _) (congrArg (Hook.write _) ?_))
    funext result
    cases result <;> simp [hlast]

/-- The stage of the command at a position, which runs and has taken so many objects. -/
inductive Taking (k first skip : Nat) : Nat → Stage → Prop
  | mk (seen : Nat) (properties : List String) (arguments : List Argument) (state : CommandState)
    (bound : BoundParameters) (preferences : Preferences) (bindingErrors : BindingErrorAction)
    (input : Pipe) (hrunning : state.isRunning = true) (hready : input.Ready)
    (hfree : bound.contains "InputObject" = false) :
    Taking k first skip seen ⟨k, command, .taking first skip properties seen, arguments, state, bound,
      preferences, bindingErrors, input⟩

/-- The stage of the command at a position before it begins, with its counts bound. -/
inductive Waiting (k first skip : Nat) : Stage → Prop
  | mk (arguments : List Argument) (bound : BoundParameters) (preferences : Preferences)
    (bindingErrors : BindingErrorAction) (input : Pipe)
    (hbound : Window.Bound ⟨some first, none, skip⟩ bound) (hready : input.Ready)
    (hfree : bound.contains "InputObject" = false) :
    Waiting k first skip
      ⟨k, command, {}, arguments, .created, bound, preferences, bindingErrors, input⟩

/-- The stage of the command at a position before its arguments are bound. -/
inductive Built (k first skip : Nat) (adapter : Adapter) : Stage → Prop
  | mk (arguments : List Argument) (bound : BoundParameters) (preferences : Preferences)
    (bindingErrors : BindingErrorAction) (input : Pipe) (hready : input.Ready)
    (hbinds : ∀ bound, (Binder.mk parameters adapter).bindArguments arguments true = .ok bound →
      Window.Bound ⟨some first, none, skip⟩ bound ∧ bound.contains "InputObject" = false) :
    Built k first skip adapter
      ⟨k, command, {}, arguments, .created, bound, preferences, bindingErrors, input⟩

namespace Taking

variable {stage : Stage}

theorem isRunning (h : Taking k first skip seen stage) : stage.state.isRunning = true := by
  cases h
  assumption

theorem ready (h : Taking k first skip seen stage) : stage.input.Ready := by
  cases h
  assumption

/-- A record has gone through the pipe of the command. -/
theorem passed (h : Taking k first skip seen stage) :
    Taking k first skip seen { stage with input := stage.input.passed } := by
  obtain ⟨properties, arguments, state, own, preferences, bindingErrors, input, hstate, hready,
    hfree⟩ := h
  exact .mk _ _ _ _ _ _ _ _ hstate hready.passed hfree

/-- The command takes every object. -/
theorem binds (h : Taking k first skip seen stage) (adapter : Adapter) (v : Value) :
    (stage.binder adapter).bindObject stage.bound v
      = .ok (stage.bound.insert "InputObject" v .pipelineByValue) := by
  obtain ⟨properties, arguments, state, own, preferences, bindingErrors, input, hstate, hready,
    hfree⟩ := h
  change (Binder.mk parameters adapter).bindObject own v = _
  exact Binder.bindObject_of_only (p := { name := "InputObject", pipeline := .byValue }) rfl rfl rfl
    hfree rfl v

end Taking

end Builtin.Selection

/-! ## A call to process -/

/-- Concluding a call that completed, with nothing pending, changes only what the command remembers.
-/
theorem concludeCall_of_calm {n : Nat} (stage : Stage) (phase : Phase) (input : Option Value)
    (memory : stage.command.Memory) (rest : Stages n) {chain : Chain} (h : chain.pendingStop = none) :
    concludeCall stage phase input ⟨.ok .ok, memory, rest, chain⟩
      = ⟨.ok .ok, { stage with memory := memory }, rest,
          (chain.log (.returned stage.id phase .ok)).log (.settled stage.id phase true)⟩ := by
  have hreturned : (chain.log (.returned stage.id phase .ok)).pendingStop = none := h
  rw [concludeCall_ok stage phase input .ok memory rest chain
    (settle_ok { stage with memory := memory } hreturned phase input)]
  rfl

/-- A call that may be made is the serving of its hook and the settlement of what that returns. -/
theorem invoke_of_entering {n : Nat} (push : Push n) (stage : Stage) (rest : Stages n) (chain : Chain)
    {phase : Phase} (bound : Option BoundParameters) (input : Option Value) {state : CommandState}
    (henter : stage.state.entering phase = .ok state) :
    invoke push stage rest chain phase bound input
      = concludeCall { stage with state := state } phase input
        (serve (Stage.call { stage with state := state } chain phase (bound.getD stage.bound) input) push
          (stage.command.hook (Stage.call { stage with state := state } chain phase
            (bound.getD stage.bound) input) stage.memory)
          stage.memory rest (chain.log (.called stage.id phase (bound.getD stage.bound) input))) := by
  unfold invoke
  rw [henter]
  rfl

/-- A call starts with a step of its own, which stays in the journal. -/
theorem invoke_called_grown {n : Nat} (stage : Stage) (rest : Stages n) (chain : Chain) (phase : Phase)
    (bound : Option BoundParameters) (input : Option Value) {state : CommandState}
    (henter : stage.state.entering phase = .ok state) :
    (chain.log (.called stage.id phase (bound.getD stage.bound) input)).journal
      <+: (invoke (deliver n) stage rest chain phase bound input).chain.journal := by
  rw [invoke_of_entering (deliver n) stage rest chain bound input henter]
  exact (serve_covers { stage with state := state } _ rfl (deliver_covers n) _ _ _ _).grown.trans
    (concludeCall_grown { stage with state := state } phase input _)

namespace Builtin.Selection

variable {base chain : Chain} {taken : List (Option Value)} {stage : Stage} {post : Stages (0 + p)}

/-- What serving a hook of the command leaves, when it completes: the memory after so many objects, and
the chain as it was, unless the command has cut its input off. -/
def Took (base : Chain) (k first skip : Nat) (properties : List String) (seen : Nat)
    (taken : List (Option Value)) (cuts : Bool) (served : Served Memory (0 + p)) : Prop :=
  ∃ (rest : Stages (0 + p)) (left : Chain), rest.Trails k ∧ base.Spares k taken left
    ∧ served = ⟨.ok .ok, .taking first skip properties seen, rest,
      if cuts then left.cutInput ⟨k⟩ k else left⟩

/-- What a call of the command leaves, when it completes: the command has taken so many objects. -/
def Goes (base : Chain) (k first skip seen : Nat) (taken : List (Option Value)) (cuts : Bool)
    (phase : Phase) (settled : Settled (0 + p)) : Prop :=
  ∃ (stage : Stage) (rest : Stages (0 + p)) (left : Chain), Taking k first skip seen stage
    ∧ rest.Trails k ∧ base.Spares k taken left
    ∧ settled = ⟨.ok .ok, stage, rest,
      ((if cuts then left.cutInput ⟨k⟩ k else left).log (.returned ⟨k⟩ phase .ok)).log
        (.settled ⟨k⟩ phase true)⟩

/-- A call of the command is settled as its hook was served. -/
theorem concludeCall_taking {cuts : Bool} {memory : Memory} (arguments : List Argument)
    {state : CommandState} {own : BoundParameters} (preferences : Preferences)
    (bindingErrors : BindingErrorAction) {input : Pipe} (hstate : state.isRunning = true)
    (hready : input.Ready) (hfree : own.contains "InputObject" = false) (phase : Phase)
    (given : Option Value) {served : Served Memory (0 + p)}
    (h : Journal.Disturbed k served.chain.journal ∨ (∃ panic, served.outcome = .error panic)
      ∨ Took base k first skip properties seen taken cuts served) :
    Journal.Disturbed k (concludeCall ⟨k, command, memory, arguments, state, own, preferences,
        bindingErrors, input⟩ phase given served).chain.journal
      ∨ (∃ panic, (concludeCall ⟨k, command, memory, arguments, state, own, preferences, bindingErrors,
        input⟩ phase given served).outcome = .error panic)
      ∨ Goes base k first skip seen taken cuts phase (concludeCall ⟨k, command, memory, arguments, state,
        own, preferences, bindingErrors, input⟩ phase given served) := by
  rcases h with hdisturbed | ⟨panic, hpanic⟩ | ⟨rest, left, hrest, hleft, rfl⟩
  · exact .inl (hdisturbed.mono (concludeCall_grown ⟨k, command, memory, arguments, state, own,
      preferences, bindingErrors, input⟩ phase given served))
  · refine .inr (.inl ⟨panic, ?_⟩)
    unfold concludeCall
    simp only [hpanic]
  · refine .inr (.inr ⟨⟨k, command, .taking first skip properties seen, arguments, state, own,
      preferences, bindingErrors, input⟩, rest, left, .mk _ _ _ _ _ _ _ _ hstate hready hfree, hrest,
      hleft, ?_⟩)
    have hcalm : (if cuts then left.cutInput ⟨k⟩ k else left).pendingStop = none := by
      split <;> exact hleft.calm
    exact concludeCall_of_calm ⟨k, command, memory, arguments, state, own, preferences, bindingErrors,
      input⟩ phase given (.taking first skip properties seen) rest hcalm

/-- While its hook to process is served, the command takes the object, and cuts its input off where it
is the last one. -/
theorem serve_taking (hrunning : base.isHalted = false) (hfirst : 0 < first) (call : Call)
    (hid : call.id = ⟨k⟩) (hposition : call.position = k) (hphase : call.phase = .process)
    (hseen : seen < skip + first) (hpost : post.Trails k) (h : base.Spares k taken chain)
    (memory : Memory) :
    Journal.Disturbed k (serve call (deliver (0 + p)) (process call (.taking first skip properties seen))
        memory post chain).chain.journal
      ∨ (∃ panic, (serve call (deliver (0 + p)) (process call (.taking first skip properties seen))
        memory post chain).outcome = .error panic)
      ∨ Took base k first skip properties (seen + 1) taken (seen + 1 = skip + first)
        (serve call (deliver (0 + p)) (process call (.taking first skip properties seen)) memory post
          chain) := by
  rw [process_eq call hseen]
  by_cases hskip : seen < skip
  · rw [if_pos hskip]
    have hmore : ¬ seen + 1 = skip + first := by omega
    have hnone : seen - skip = seen + 1 - skip := by omega
    refine .inr (.inr ⟨post, chain, hpost, h, ?_⟩)
    simp only [serve, Memory.taking, hnone, hmore, decide_false, Bool.false_eq_true, if_false]
  · rw [if_neg hskip]
    rcases serve_write_spares hrunning hpost h ⟨k, command, {}, [], .created, .empty, call.preferences,
      .terminating, {}⟩ hid hid (by rw [hphase]; decide)
      (project properties call.adapter call.inputObject) _
      (Memory.taking first skip properties (seen + 1)) with hdisturbed | hpanic | ⟨rest, left, hrest,
        hleft, hserved⟩
    · exact .inl hdisturbed
    · exact .inr (.inl hpanic)
    · refine .inr (.inr ⟨rest, left, hrest, hleft, ?_⟩)
      refine Eq.trans hserved ?_
      simp only [decide_eq_true_eq]
      split
      · rw [← hid, ← hposition]
        rfl
      · rfl

/-- Called to process, the command takes an object. -/
theorem invoke_taking (hrunning : base.isHalted = false) (hfirst : 0 < first)
    (hstage : Taking k first skip seen stage) (hseen : seen < skip + first) (hpost : post.Trails k)
    (h : base.Spares k taken chain) (bound : BoundParameters) (v : Value) :
    Journal.Disturbed k
        (invoke (deliver (0 + p)) stage post chain .process (some bound) (some v)).chain.journal
      ∨ (∃ panic, (invoke (deliver (0 + p)) stage post chain .process (some bound) (some v)).outcome
        = .error panic)
      ∨ Goes base k first skip (seen + 1) (taken ++ [some v]) (seen + 1 = skip + first) .process
        (invoke (deliver (0 + p)) stage post chain .process (some bound) (some v)) := by
  obtain ⟨properties, arguments, state, own, preferences, bindingErrors, input, hstate, hready,
    hfree⟩ := hstage
  have hcalled : base.Spares k (taken ++ [some v])
      (chain.log (.called ⟨k⟩ .process bound (some v))) := by
    refine ⟨h.even.log _, h.calm, ?_⟩
    rw [chain.journal_log, Journal.processed_append, h.processed]
    simp [Journal.processed, Event.taken?]
  rw [invoke_of_entering _ _ _ _ _ _ (CommandState.entering_process hstate)]
  exact concludeCall_taking arguments preferences bindingErrors rfl hready hfree .process (some v)
    (serve_taking hrunning hfirst _ rfl rfl rfl hseen hpost hcalled _)

/-! ## The comparison -/

/-- The comparison of a chain with the commands in front of one that selects the first objects. -/
def pairing (base : Chain) (hrunning : base.isHalted = false) (k first skip p : Nat) :
    Pairing (0 + p + 1) 0 where
  base := base
  running := hrunning
  position := k
  Front q := q < k
  front_ne _ hlt := Nat.ne_of_lt hlt
  Enough := Journal.Sated k (limit first skip)
  enough_mono := Journal.Sated.mono
  Behind taken passed back _ := taken = passed.map some ∧ 0 < first ∧ passed.length < skip + first
    ∧ ∃ (stage : Stage) (post : Stages (0 + p)), back = .cons stage post
      ∧ Taking k first skip passed.length stage ∧ post.Trails k

section

variable (hrunning : base.isHalted = false) {chain' : Chain} {passed : List Value}

/-- A call in which the command has cut its input off leaves the runs apart. -/
theorem Goes.apart {phase : Phase} {settled : Settled (0 + p)}
    (h : Goes base k first skip seen (passed.map some) true phase settled)
    (hlength : passed.length = limit first skip) (hpassed : passed <+: Journal.arrivals chain'.journal)
    {later : Chain} (hgrown : settled.chain.journal <+: later.journal) :
    (pairing base hrunning k first skip p).Apart later chain' := by
  obtain ⟨stage, rest, left, -, -, hleft, rfl⟩ := h
  obtain ⟨after, hafter⟩ := hgrown
  simp only [if_true, Chain.journal_log, Chain.journal_cutInput, List.append_assoc] at hafter
  exact .inr ⟨left.journal, _, passed, hafter.symm, hleft.processed, hlength, hpassed⟩

omit hrunning in
/-- Any other call leaves the chain as it was. -/
theorem Goes.spares {taken : List (Option Value)} {phase : Phase} {settled : Settled (0 + p)}
    (h : Goes base k first skip seen taken false phase settled) :
    settled.outcome = .ok .ok ∧ Taking k first skip seen settled.stage ∧ settled.rest.Trails k
      ∧ base.Spares k taken settled.chain := by
  obtain ⟨stage, rest, left, hstage, hrest, hleft, rfl⟩ := h
  exact ⟨rfl, hstage, hrest, (hleft.log (.returned ⟨k⟩ phase .ok) rfl).log (.settled ⟨k⟩ phase true) rfl⟩

/-- The runs are level while the command has taken what has reached the host, and needs more. -/
theorem pairing_level (hfirst : 0 < first) (hroom : passed.length < skip + first)
    (hstage : Taking k first skip passed.length stage) (hpost : post.Trails k)
    (h : base.Spares k (passed.map some) chain) (heven' : base.Even chain')
    (hnone' : chain'.pendingStop = none) (harrived : Journal.arrivals chain'.journal = passed) :
    (pairing base hrunning k first skip p).Level (n := 0) (.cons stage post) .nil chain chain' :=
  ⟨.nil, _, .nil, passed.map some, passed, fun _ hfront => absurd hfront List.not_mem_nil, rfl, rfl,
    ⟨rfl, hfirst, hroom, stage, post, rfl, hstage, hpost⟩, h.even, heven', hnone'.trans h.calm.symm,
    h.processed, harrived⟩

omit hrunning in
/-- Handed an object, the command is called to process with it. -/
theorem processRecord_taking (push : Push (0 + p)) (hstage : Taking k first skip seen stage)
    {r : Record} {v : Value} (hobject : r.object? = some v) :
    processRecord push stage post chain r = invoke push stage post chain .process
      (some (stage.bound.insert "InputObject" v .pipelineByValue)) (some v) := by
  have hrunning : (!stage.state.isRunning) = false := by
    rw [hstage.isRunning]
    rfl
  unfold processRecord
  simp only [hobject, hrunning, Bool.false_eq_true, if_false, hstage.binds]

/-- The object that the command takes in the chain is the one that the host gets without it. -/
theorem pairing_carries : (pairing base hrunning k first skip p).Carries 0 := by
  rintro row row' chain chain' r r' hr hnone ⟨front, back, back', taken, passed, hfront, rfl, rfl,
    ⟨rfl, hfirst, hroom, stage, post, rfl, hstage, hpost⟩, habreast⟩
  cases front
  cases back'
  have hspares : base.Spares k (passed.map some) chain := ⟨habreast.even, hnone, habreast.processed⟩
  have harrived := chain'.arrivals_deliverToHost r'
  rw [habreast.arrived, hr] at harrived
  have heven' := habreast.even'.deliverToHost r'
  have hnone' : (chain'.deliverToHost r').pendingStop = none := habreast.pending.trans hnone
  change Pushed.Followed (n := 0) (pairing base hrunning k first skip p)
    (deliver (0 + p + 1) (.cons stage post) chain r) ⟨.ok .ok, .nil, chain'.deliverToHost r'⟩
  rw [deliver_of_ready (hspares.running hrunning) hstage.ready]
  cases hobject : r.object? with
  | none =>
    rw [hobject, Option.toList_none, List.append_nil] at harrived
    unfold processRecord
    rw [hobject]
    exact .level rfl (pairing_level hrunning hfirst hroom hstage.passed hpost hspares heven' hnone'
      harrived)
  | some v =>
    rw [hobject, Option.toList_some] at harrived
    have htaken : passed.map some ++ [some v] = (passed ++ [v]).map some := by simp
    have hlength : (passed ++ [v]).length = passed.length + 1 := by simp
    have hcalled := invoke_taking hrunning hfirst hstage.passed hroom hpost hspares
      (stage.bound.insert "InputObject" v .pipelineByValue) v
    rw [processRecord_taking _ hstage.passed hobject]
    generalize invoke (deliver (0 + p)) { stage with input := stage.input.passed } post chain .process
      (some (stage.bound.insert "InputObject" v .pipelineByValue)) (some v) = settled at hcalled ⊢
    rcases hcalled with hdisturbed | ⟨panic, hpanic⟩ | hgoes
    · exact .apart (.inl hdisturbed)
    · exact .panicked panic hpanic
    · rw [htaken, ← hlength] at hgoes
      by_cases hlast : (passed ++ [v]).length = skip + first
      · rw [decide_eq_true hlast] at hgoes
        have hlimit : (passed ++ [v]).length = limit first skip := by
          rw [hlast, limit, if_neg (Nat.ne_of_gt hfirst)]
        exact .apart (hgoes.apart hrunning hlimit (harrived ▸ List.prefix_rfl) List.prefix_rfl)
      · rw [decide_eq_false hlast] at hgoes
        obtain ⟨hout, hnext, hrest, hsettled⟩ := hgoes.spares
        exact .level hout.symm (pairing_level hrunning hfirst (by omega) hnext hrest hsettled heven'
          hnone' harrived)

/-- Before it begins the command has taken nothing, and nothing has reached the host. -/
def Starting (k p : Nat) (starts : Stage → Prop) (taken : List (Option Value)) (passed : List Value)
    (back : Stages (0 + p + 1)) (_ : Stages 0) : Prop :=
  taken = [] ∧ passed = [] ∧ ∃ (stage : Stage) (post : Stages (0 + p)), back = .cons stage post
    ∧ starts stage ∧ post.Trails k

/-- While its hook to begin is served the command reads its counts, and cuts its input off where it
needs none. -/
theorem serve_begin (call : Call) (hid : call.id = ⟨k⟩) (hposition : call.position = k)
    (hbound : Window.Bound ⟨some first, none, skip⟩ call.parameters) (hpost : post.Trails k)
    (h : base.Spares k taken chain) (memory : Memory) :
    Took base k first skip (call.textList "Property") 0 taken (first = 0)
      (serve call (deliver (0 + p)) (begin call {}) memory post chain) := by
  refine ⟨post, chain, hpost, h, ?_⟩
  have hmemory : Window.memory ⟨some first, none, skip⟩ (call.textList "Property")
      = .taking first skip (call.textList "Property") 0 := by
    simp [Window.memory, Memory.taking]
  rw [begin_eq hbound, hmemory]
  by_cases hfirst : first = 0 <;> simp [serve, hfirst, hid, hposition]

/-- The command begins. -/
theorem invoke_begin (hstage : Waiting k first skip stage) (hpost : post.Trails k)
    (h : base.Spares k taken chain) :
    Journal.Disturbed k (invoke (deliver (0 + p)) stage post chain .begin none none).chain.journal
      ∨ (∃ panic, (invoke (deliver (0 + p)) stage post chain .begin none none).outcome = .error panic)
      ∨ Goes base k first skip 0 taken (first = 0) .begin
        (invoke (deliver (0 + p)) stage post chain .begin none none) := by
  obtain ⟨arguments, own, preferences, bindingErrors, input, hbound, hready, hfree⟩ := hstage
  have henter : CommandState.created.entering .begin = .ok .began := rfl
  have hserved := serve_begin (Stage.call ⟨k, command, ({} : Memory), arguments, .began, own, preferences,
    bindingErrors, input⟩ chain .begin own none) rfl rfl hbound hpost
    (h.log (.called ⟨k⟩ .begin own none) rfl) ({} : Memory)
  rw [invoke_of_entering _ _ _ _ _ _ henter]
  exact concludeCall_taking arguments preferences bindingErrors rfl hready hfree .begin none
    (.inr (.inr hserved))

/-- The command and those behind it begin while nothing reaches the host. -/
theorem pairing_begins (back : Stages (0 + p + 1)) (back' : Stages 0) (chain chain' : Chain)
    (hnone : chain.pendingStop = none)
    (h : ((pairing base hrunning k first skip p).relating (Starting k p (Waiting k first skip))).Level
      (n := 0) back back' chain chain') :
    Ran.Followed (n := 0) (pairing base hrunning k first skip p) (beginAll (0 + p + 1) back chain)
      (beginAll 0 back' chain') := by
  obtain ⟨front, back, back', taken, passed, hfront, rfl, rfl, ⟨rfl, rfl, stage, post, rfl, hstage,
    hpost⟩, habreast⟩ := h
  cases front
  cases back'
  have hspares : base.Spares k [] chain := ⟨habreast.even, hnone, habreast.processed⟩
  have hgrown := beginAll_grown stage post chain (hspares.running hrunning)
  change Ran.Followed (n := 0) (pairing base hrunning k first skip p)
    (beginAll (0 + p + 1) (.cons stage post) chain) ⟨.ok (), .nil, chain'⟩
  rcases invoke_begin hstage hpost hspares with hdisturbed | ⟨panic, hpanic⟩ | hgoes
  · exact .apart (.inl (hdisturbed.mono hgrown))
  · refine .panicked panic ?_
    simp only [beginAll, hspares.running hrunning, Bool.false_eq_true, if_false, hpanic]
  · by_cases hzero : first = 0
    · rw [decide_eq_true hzero] at hgoes
      have hlimit : ([] : List Value).length = limit first skip := (if_pos hzero).symm
      exact .apart (hgoes.apart hrunning hlimit List.nil_prefix hgrown)
    · rw [decide_eq_false hzero] at hgoes
      obtain ⟨hout, hnext, hrest, hleft⟩ := hgoes.spares
      simp only [beginAll, hspares.running hrunning, Bool.false_eq_true, if_false, hout]
      generalize invoke (deliver (0 + p)) stage post chain .begin none none = begun
        at hnext hrest hleft ⊢
      rcases beginAll_spares hrunning hrest hleft with hdisturbed | ⟨panic, hpanic⟩ | ⟨hlater, hspared⟩
      · exact .apart (.inl hdisturbed)
      · exact .panicked panic hpanic
      · cases hbegun : (beginAll (0 + p) begun.rest begun.chain).outcome with
        | error panic => exact .panicked panic rfl
        | ok _ =>
          have hpos : 0 < first := Nat.pos_of_ne_zero hzero
          have hroom : ([] : List Value).length < skip + first := Nat.lt_add_left skip hpos
          exact .level rfl (pairing_level hrunning hpos hroom hnext hlater hspared habreast.even'
            (habreast.pending.trans hnone) habreast.arrived)

/-- Where the arguments of the command can be bound, it waits to begin. -/
theorem Built.bindStatically {adapter : Adapter} (hstage : Built k first skip adapter stage)
    {expectsInput : Bool} (hexpects : expectsInput = true) {bound : Stage}
    (hbound : stage.bindStatically adapter expectsInput = .ok bound) : Waiting k first skip bound := by
  obtain ⟨arguments, own, preferences, bindingErrors, input, hready, hbinds⟩ := hstage
  subst hexpects
  have hbinder : Stage.binder ⟨k, command, ({} : Memory), arguments, .created, own, preferences,
      bindingErrors, input⟩ adapter = ⟨parameters, adapter⟩ := rfl
  unfold Stage.bindStatically at hbound
  rw [hbinder] at hbound
  cases hnamed : (Binder.mk parameters adapter).bindArguments arguments true with
  | error e =>
    rw [hnamed] at hbound
    cases hbound
  | ok values =>
    rw [hnamed] at hbound
    obtain ⟨hwindow, hfree⟩ := hbinds values hnamed
    simp only at hbound
    split at hbound
    · cases hbound
    · cases hbound
      exact .mk _ _ _ _ _ hwindow hready hfree

/-- The command and those behind it are bound, or the chain fails. -/
theorem pairing_binds {adapter : Adapter} (hadapter : base.adapter = adapter) (back : Stages (0 + p + 1))
    (back' : Stages 0) (chain chain' : Chain)
    (h : ((pairing base hrunning k first skip p).relating
      (Starting k p (Built k first skip adapter))).Level (n := 0) back back' chain chain') :
    (pairing base hrunning k first skip p).Apart (bindAll true back chain).2 (bindAll true back' chain').2
      ∨ ((pairing base hrunning k first skip p).relating (Starting k p (Waiting k first skip))).Level
        (n := 0) (bindAll true back chain).1 (bindAll true back' chain').1 (bindAll true back chain).2
        (bindAll true back' chain').2 := by
  obtain ⟨front, back, back', taken, passed, hfront, rfl, rfl, ⟨rfl, rfl, stage, post, rfl, hstage,
    hpost⟩, habreast⟩ := h
  cases front
  cases back'
  have hchain : chain.adapter = adapter := habreast.even.adapter.trans hadapter
  change Pairing.Apart _ (bindAll true (.cons stage post) chain).2 chain'
    ∨ Pairing.Level (n := 0) _ (bindAll true (.cons stage post) chain).1 .nil
      (bindAll true (.cons stage post) chain).2 chain'
  unfold bindAll
  rw [hchain]
  cases hbound : stage.bindStatically adapter (stage.position != 0 || true) with
  | error e => exact .inl (Pairing.apart_fail stage _)
  | ok bound =>
    have hwaiting := hstage.bindStatically (Bool.or_true _) hbound
    have hlater : (bindAll true post chain).1.Trails k :=
      hpost.of_receptive (bindAll_receptive true hpost.receptive chain)
    rcases bindAll_spares true post chain with ⟨token, hsignaled⟩ | hsame
    · exact .inl (Pairing.apart_of_signaled token hsignaled)
    · simp only [hsame]
      exact .inr ⟨.nil, _, .nil, [], [], hfront, rfl, rfl, ⟨rfl, rfl, bound, _, rfl, hwaiting, hlater⟩,
        habreast.even, habreast.even', habreast.pending, habreast.processed, habreast.arrived⟩

omit hrunning in
/-- With its pipe closed and nothing left in it, the command is called to end. -/
theorem completeStage_called (hstage : Taking k first skip seen stage) (post : Stages (0 + p))
    (hhalt : chain.isHalted = false) :
    (chain.log (.called ⟨k⟩ .finish stage.bound none)).journal
      <+: (completeStage (deliver (0 + p)) { stage with input := stage.input.close } post
        chain).chain.journal := by
  have htake : stage.input.close.take false = (.endOfInput, stage.input.close) :=
    hstage.ready.toIdle.close.take_eq false
  have haccepts : Stage.acceptsInput { stage with input := stage.input.close } = true := by
    cases hstage
    rfl
  have hid : stage.id = ⟨k⟩ := by
    cases hstage
    rfl
  have henter : stage.state.entering .finish = .ok stage.state := rfl
  have hcalled := invoke_called_grown { stage with input := stage.input.close } post chain .finish none
    none henter
  unfold completeStage drain processOnce finishStage
  simp only [hhalt, htake, haccepts, hstage.isRunning, Bool.not_true, Bool.false_and,
    Bool.false_eq_true, if_true, if_false]
  change (chain.log (.called stage.id .finish stage.bound none)).journal <+: _ at hcalled
  rw [hid] at hcalled
  split <;> exact hcalled

/-- When the commands in front have ended, the command is called to end. -/
theorem pairing_ends (back : Stages (0 + p + 1)) (back' : Stages 0) (chain chain' : Chain)
    (_ : chain.pendingStop = none)
    (h : (pairing base hrunning k first skip p).Level (n := 0) back back' chain chain') :
    (pairing base hrunning k first skip p).Followed (endWave (0 + p + 1) back.closeFirst chain).outcome
      (endWave 0 back'.closeFirst chain').outcome (endWave (0 + p + 1) back.closeFirst chain).chain
      (endWave 0 back'.closeFirst chain').chain
      (Journal.Exhausted k (limit first skip)
        (endWave (0 + p + 1) back.closeFirst chain).chain.journal
        (endWave 0 back'.closeFirst chain').chain.journal) := by
  obtain ⟨front, back, back', taken, passed, hfront, rfl, rfl, ⟨rfl, hfirst, hroom, stage, post, rfl,
    hstage, hpost⟩, habreast⟩ := h
  cases front
  cases back'
  have hgrown := (completeStage_called hstage post habreast.running).trans
    (endWave_grown { stage with input := stage.input.close } post chain habreast.running
      (habreast.even.isCut _))
  change Pairing.Followed _
    (endWave (0 + p + 1) (.cons { stage with input := stage.input.close } post) chain).outcome (.ok ())
    (endWave (0 + p + 1) (.cons { stage with input := stage.input.close } post) chain).chain chain'
    (Journal.Exhausted k (limit first skip)
      (endWave (0 + p + 1) (.cons { stage with input := stage.input.close } post) chain).chain.journal
      chain'.journal)
  generalize endWave (0 + p + 1) (.cons { stage with input := stage.input.close } post) chain = ended
    at hgrown ⊢
  obtain ⟨after, hafter⟩ := hgrown
  rw [chain.journal_log, List.append_assoc] at hafter
  cases hout : ended.outcome with
  | error panic => exact .panicked panic rfl
  | ok _ =>
    refine .level rfl ⟨chain.journal, after, stage.bound, none, hafter.symm, ?_, ?_⟩
    · rw [habreast.arrived]
      exact habreast.processed
    · rw [habreast.arrived, limit, if_neg (Nat.ne_of_gt hfirst)]
      exact hroom

/-- The command and those behind it take what the others write for as long as the command needs
objects. -/
theorem pairing_conducts {adapter : Adapter} (hadapter : base.adapter = adapter) :
    (pairing base hrunning k first skip p).Conducts (Starting k p (Built k first skip adapter))
      (Starting k p (Waiting k first skip)) (Journal.Exhausted k (limit first skip)) where
  short _ hlt := hlt
  binds := pairing_binds hrunning hadapter
  begins := pairing_begins hrunning
  carries := pairing_carries hrunning
  ends := pairing_ends hrunning

end

end Builtin.Selection

end CommandChain
