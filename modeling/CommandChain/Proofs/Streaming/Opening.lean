import CommandChain.Proofs.Conduct.Whole
import CommandChain.Proofs.Streaming.Delivery
import CommandChain.Proofs.Streaming.Selection
/-!
# Before objects flow

Commands are bound and begin before the first object comes. `Stage.Flows` says what is asked of a
command with its parameters bound; a row of such commands begins without a write, after which it
streams, behind the cuts that its commands declared while they began. `Stage.Transduces` is the case
of a command that may return faults.
-/

namespace CommandChain

/-- A command that is told to stop or disposed of raises no flag, and does not unwind when it is
told to stop. -/
structure Command.Gentle (c : Command) : Prop where
  stop : ∀ flags memory, (c.stop flags memory).signals = [] ∧ (c.stop flags memory).result = .ok ()
  dispose : ∀ flags memory, (c.dispose flags memory).signals = []

/-- A command as a transducer at its place in a chain, with its parameters bound. It takes objects
through the only parameter that takes any from the pipeline, by value and whatever they are; errors
do not stop the chain; its begin completes. It is the command that passes on a window of the
objects, or else one that never declares that it needs no further input. -/
structure Stage.Transduces (chain : Chain) (stage : Stage) : Prop where
  parameter : ∃ p, stage.command.parameters.filter Parameter.acceptsInput = [p]
    ∧ p.pipeline = .byValue ∧ p.type = .any ∧ stage.bound.contains p.name = false
  errors : stage.preferences.errorAction ≠ .stop
  begins : ((stage.opening chain).yield chain.flags stage.memory).result.completes = true
  behaves : stage.command = Builtin.Selection.command
    ∨ (stage.opening chain).Streams chain.flags stage.preferences (fun _ => False) stage.memory
      ∧ (stage.transducer chain).Streams stage.preferences (fun _ => False)
        (stage.begun chain).memory
  gentle : stage.command.Gentle

/-- A command with its parameters bound lets objects flow. It takes them through the only parameter
that takes any from the pipeline, by value and whatever they are; its calls stream; errors do not
stop the chain, or it returns none. -/
structure Stage.Flows (chain : Chain) (stage : Stage) : Prop where
  parameter : ∃ p, stage.command.parameters.filter Parameter.acceptsInput = [p]
    ∧ p.pipeline = .byValue ∧ p.type = .any ∧ stage.bound.contains p.name = false
  errors : stage.preferences.errorAction ≠ .stop ∨ stage.command.Faultless
    ∧ ((stage.opening chain).yield chain.flags stage.memory).result = .ok
  streams : stage.memory = stage.command.fresh → stage.Streams chain
  gentle : stage.command.Gentle

variable {base chain : Chain} {k n : Nat}

/-! ## Binding -/

/-- A command before it is called to begin. -/
structure Stage.Fresh (base : Chain) (k : Nat) (stage : Stage) : Prop where
  position : stage.position = k
  created : stage.state = .created
  empty : stage.input.slot = none
  opened : stage.input.closed = false
  binds : ∀ v, (stage.binder base.adapter).bindObject stage.bound v = .ok (stage.withObject v)
  errors : stage.preferences.errorAction ≠ .stop ∨ stage.command.Faultless
    ∧ ((stage.opening base).yield base.flags stage.memory).result = .ok
  streams : stage.Streams base

namespace Stage

/-- Static binding leaves nothing mandatory open. -/
theorem missing?_of_bindStatically {stage bound : Stage} {adapter : Adapter}
    (h : stage.bindStatically adapter true = .ok bound) :
    (stage.binder adapter).missing? bound.bound true = none := by
  unfold bindStatically at h
  split at h
  · cases h
  · next parameters hparameters =>
    split at h
    · cases h
    · cases h
      obtain ⟨-, -, -, hmissing⟩ := Binder.bindArguments_ok hparameters
      exact hmissing

/-- A command that transduces lets objects flow. -/
theorem Transduces.flows {stage : Stage} (h : stage.Transduces base) : stage.Flows base := by
  refine ⟨h.parameter, .inl h.errors, fun hfresh => ?_, h.gentle⟩
  rcases h.behaves with hselection | ⟨hopening, hbegun⟩
  · exact Builtin.Selection.streams hselection hfresh h.begins
  · exact ⟨hopening.mono fun _ => False.elim, hbegun.mono fun _ => False.elim⟩

/-- An object arriving at a command without mandatory parameters to fill is bound as its input. -/
theorem Flows.binds {stage : Stage} (h : stage.Flows base)
    (hmissing : (stage.binder base.adapter).missing? stage.bound true = none) (v : Value) :
    (stage.binder base.adapter).bindObject stage.bound v = .ok (stage.withObject v) := by
  obtain ⟨p, honly, hvalue, hany, hfree⟩ := h.parameter
  rw [Binder.bindObject_of_only honly hvalue hany hfree hmissing, withObject, ← List.head?_filter,
    honly]
  rfl

/-- A command that is bound and lets objects flow is ready to begin. -/
theorem Flows.fresh {stage bound : Stage} (h : bound.Flows base)
    (hbind : stage.bindStatically base.adapter true = .ok bound) (hnew : stage.New k) :
    bound.Fresh base k := by
  have hsame := bindStatically_eq hbind
  have hmissing := missing?_of_bindStatically hbind
  have hstreams : bound.Streams base := by
    refine h.streams ?_
    rw [hsame]
    exact hnew.memory
  have hbinder : bound.binder base.adapter = stage.binder base.adapter := by rw [hsame]; rfl
  refine ⟨?_, ?_, ?_, ?_, h.binds (by rwa [hbinder]), h.errors, hstreams⟩
  · rw [hsame]
    exact hnew.position
  · rw [hsame]
    exact hnew.created
  · rw [hsame]
    exact congrArg Pipe.slot hnew.input
  · rw [hsame]
    exact congrArg Pipe.closed hnew.input

end Stage

/-- A list of commands could be bound if each of them could. -/
theorem Stage.bound_cons {stage : Stage} {rest bound : List Stage}
    {bind : Stage → Except BindingError Stage} (h : (stage :: rest).mapM bind = .ok bound) :
    ∃ first later, bind stage = .ok first ∧ rest.mapM bind = .ok later 
      ∧ bound = first :: later := by
  rw [List.mapM_cons] at h
  cases hfirst : bind stage with
  | error e =>
    rw [hfirst] at h
    cases h
  | ok first =>
    cases hlater : rest.mapM bind with
    | error e =>
      rw [hfirst, hlater] at h
      cases h
    | ok later =>
      rw [hfirst, hlater] at h
      cases h
      exact ⟨first, later, rfl, rfl, rfl⟩

/-- Binding leaves the commands in their places. -/
theorem Stage.commands_of_bound {adapter : Adapter} {stages bound : List Stage}
    (h : stages.mapM (·.bindStatically adapter true) = .ok bound) :
    bound.map (·.command) = stages.map (·.command) := by
  induction stages generalizing bound with
  | nil =>
    cases h
    rfl
  | cons stage rest ih =>
    obtain ⟨first, later, hfirst, hlater, rfl⟩ := bound_cons h
    rw [List.map_cons, List.map_cons, ih hlater, bindStatically_eq hfirst]

/-- Static binding of all commands leaves a row that is ready to begin. -/
theorem bindAll_fresh {row : Stages n} {bound : List Stage} (hrow : row.Holds Stage.New k)
    (hadapter : chain.adapter = base.adapter)
    (hbind : row.toList.mapM (·.bindStatically base.adapter true) = .ok bound)
    (hbound : ∀ stage ∈ bound, stage.Flows base) :
    (bindAll true row chain).2 = chain ∧ (bindAll true row chain).1.toList = bound
      ∧ (bindAll true row chain).1.Holds (Stage.Fresh base) k := by
  induction row generalizing k bound with
  | nil =>
    cases hbind
    exact ⟨rfl, rfl, trivial⟩
  | cons stage rest ih =>
    obtain ⟨first, later, hstage, hrest, rfl⟩ := Stage.bound_cons hbind
    rw [List.forall_mem_cons] at hbound
    obtain ⟨hchain, hlist, hholds⟩ := ih hrow.2 hrest hbound.2
    have hfirst : stage.bindStatically chain.adapter (stage.position != 0 || true) = .ok first := by
      rw [hadapter, Bool.or_true, hstage]
    simp only [bindAll, hfirst]
    exact ⟨hchain, by rw [Stages.toList, hlist], hbound.1.fresh hstage hrow.1, hholds⟩

/-! ## Beginning -/

/-- A chain went on while its commands began: nothing reached the host but messages, and cuts may
have been declared. -/
structure Chain.Prelude (chain chain' : Chain) : Prop where
  smooth : ∀ base, chain.Smooth base → chain'.Smooth base
  raised : ∀ i, chain.isCut i = true → chain'.isCut i = true
  outputs : chain'.outputs = chain.outputs

namespace Chain.Prelude

variable {chain' chain'' : Chain}

theorem of_quiet (h : chain.Quiet chain') : chain.Prelude chain' :=
  ⟨fun _ hsmooth => hsmooth.quiet h, fun i hi => by rw [h.isCut, hi], h.outputs⟩

theorem trans (h : chain.Prelude chain') (h' : chain'.Prelude chain'') : chain.Prelude chain'' :=
  ⟨fun base hsmooth => h'.smooth base (h.smooth base hsmooth),
    fun i hi => h'.raised i (h.raised i hi), h'.outputs.trans h.outputs⟩

/-- Declaring that no input is needed is part of a prelude while nothing is cut there. -/
theorem cutInput (id : CommandId) (hcut : chain.isCut k = false) :
    chain.Prelude (chain.cutInput id k) := by
  refine ⟨fun _ hsmooth => hsmooth.cutInput id k, fun i hi => ?_, rfl⟩
  obtain ⟨c, hc, hlt⟩ := Chain.isCut_eq_true_iff.mp hi
  have := Chain.isCut_eq_false_iff.mp hcut c hc
  exact Chain.isCut_eq_true_iff.mpr ⟨k, Chain.inputCut_cutInput id hcut, by omega⟩

end Chain.Prelude

/-- What serving the hook of a call to begin comes to. -/
structure Served.Opened {σ : Type} (k : Nat) (saturated : σ → Prop) (y : Yield σ) (rest : Stages n)
    (chain : Chain) (served : Served σ n) : Prop where
  prelude : chain.Prelude served.chain
  outcome : served.outcome = .ok y.result
  memory : served.memory = y.memory
  rest : served.rest = rest
  cut : ∀ c, served.chain.inputCut = some c → chain.inputCut = some c ∨ c = k ∧ saturated y.memory

/-- A call that opened has done so from before the quiet steps that went ahead of it. -/
theorem Served.Opened.of_quiet {σ : Type} {saturated : σ → Prop} {y : Yield σ} {rest : Stages n}
    {chain' : Chain} {served : Served σ n} (h : served.Opened k saturated y rest chain')
    (hquiet : chain.Quiet chain') : served.Opened k saturated y rest chain :=
  ⟨(Chain.Prelude.of_quiet hquiet).trans h.prelude, h.outcome, h.memory, h.rest,
    fun c hc => (h.cut c hc).imp_left hquiet.inputCut.symm.trans⟩

/-- Serving the hook of a begin, whose writes are refused, leaves what the hook yields. -/
theorem serve_opened {σ : Type} {saturated : σ → Prop} (call : Call) (push : Push n)
    (hposition : call.position = k) (hphase : call.phase = .begin) (hook : Hook σ) (memory : σ)
    (rest : Stages n) (chain : Chain) (hsmooth : chain.Smooth base) (hcut : chain.isCut k = false)
    (h : hook.refuseWrites.Streams base.flags call.preferences saturated memory) :
    (serve call push hook memory rest chain).Opened k saturated
      (hook.refuseWrites.yield base.flags memory) rest chain := by
  induction hook generalizing memory chain with
  | done result => exact ⟨.of_quiet (.refl chain), rfl, rfl, rfl, fun c hc => .inl hc⟩
  | store memory' next ih => exact ih memory' chain hsmooth hcut h
  | note text next ih =>
    have hquiet := Chain.Quiet.note chain text
    exact (ih memory (chain.note text) (hsmooth.quiet hquiet) hcut h).of_quiet hquiet
  -- A write before any input is refused, and the hook goes on from the refusal.
  | write v next ih =>
    have hquiet := Chain.Quiet.log chain (.writing call.id v)
    have hstop : call.isStopping (chain.log (.writing call.id v)) = false :=
      Call.isStopping_of_smooth (hsmooth.quiet hquiet) (by rwa [hposition])
    have hbegin : (call.phase == .begin) = true := by
      rw [hphase]
      rfl
    have hquiet' := hquiet.trans (.log _ (.wrote call.id (.terminating writeInBegin)))
    have hnext := ih (.terminating writeInBegin) memory _ (hsmooth.quiet hquiet') hcut h
    unfold serve
    simp only [Call.writeObject, hstop, hbegin, Bool.false_eq_true, if_false, if_true]
    exact hnext.of_quiet hquiet'
  | report m next ih =>
    obtain ⟨hok, hreport⟩ := Call.report_quiet h.1 (chain.log (.reporting call.id m))
    have hquiet := (Chain.Quiet.log chain (.reporting call.id m)).trans hreport
    have hnext := ih .ok memory _ (hsmooth.quiet hquiet)
      (by rw [hquiet.isCut, hcut]) h.2
    unfold serve
    simp only [hok]
    exact hnext.of_quiet hquiet
  | askStopping next ih =>
    unfold serve
    rw [Call.isStopping_of_smooth hsmooth (by rwa [hposition])]
    exact ih false memory chain hsmooth hcut h.1
  | askSignaled token next ih =>
    unfold serve
    rw [hsmooth.flags]
    exact ih _ memory chain hsmooth hcut h
  | runChain run next ih =>
    obtain ⟨hsignals, outcome, hout, hnext⟩ := h
    have hquiet := Chain.Quiet.absorb chain hsignals
    have hserved := ih outcome memory (chain.absorb (run base.flags)) (hsmooth.quiet hquiet)
      (by rw [hquiet.isCut, hcut]) hnext
    rw [Hook.refuseWrites, Hook.yield_runChain hout]
    unfold serve
    simp only [hsmooth.flags, hout]
    exact hserved.of_quiet hquiet
  -- The only cut there can be is the command's own, at which it is saturated.
  | cutInput next ih =>
    have hat := Chain.inputCut_cutInput call.id hcut
    have hcut' : (chain.cutInput call.id k).isCut k = false := by
      simp [Chain.isCut, hat]
    obtain ⟨hprelude, hout, hmemory, hrest, hcuts⟩ := ih memory (chain.cutInput call.id k)
      (hsmooth.cutInput call.id k) hcut' h.2
    unfold serve
    rw [hposition]
    refine ⟨(Chain.Prelude.cutInput call.id hcut).trans hprelude, hout, hmemory, hrest,
      fun c hc => .inr ?_⟩
    rcases hcuts c hc with hc' | hsaturated
    · rw [hat] at hc'
      cases hc'
      exact ⟨rfl, h.1⟩
    · exact hsaturated
  | _ => exact h.elim

/-- What calling a command to begin comes to. -/
structure Settled.Opened (base : Chain) (k : Nat) (stage : Stage) (rest : Stages n) (chain : Chain)
    (settled : Settled n) : Prop where
  outcome : settled.outcome = .ok .ok
  begun : settled.stage = { stage.begun base with state := .began }
  rest : settled.rest = rest
  prelude : chain.Prelude settled.chain
  cut : ∀ c, settled.chain.inputCut = some c →
    chain.inputCut = some c ∨ c = k ∧ (stage.transducer base).Saturated (stage.begun base).memory

/-- A fresh stage that is called to begin is left as its begin yields. -/
theorem invoke_opened (push : Push n) {stage : Stage} (rest : Stages n)
    (hstage : stage.Fresh base k) (hsmooth : chain.Smooth base) (hcut : chain.isCut k = false) :
    (invoke push stage rest chain .begin none none).Opened base k stage rest chain := by
  have hlog := Chain.Quiet.log chain (.called stage.id .begin stage.bound none)
  have hserved := (serve_opened (stage.call base .begin stage.bound none) push hstage.position rfl _
    stage.memory rest _ (hsmooth.quiet hlog) (by rw [hlog.isCut, hcut])
    hstage.streams.opening).of_quiet hlog
  have hcompletes := hstage.streams.opening.completes
  have henter : stage.state.entering .begin = .ok .began := by
    rw [hstage.created]
    rfl
  generalize hserve : serve (stage.call base .begin stage.bound none) push
    (stage.command.begin (stage.call base .begin stage.bound none) stage.memory) stage.memory rest
    (chain.log (.called stage.id .begin stage.bound none)) = served at hserved
  obtain ⟨hprelude, hout, hmemory, hrest, hcuts⟩ := hserved
  have hmild : ((stage.opening base).yield base.flags stage.memory).result.Mild
      (((stage.opening base).yield base.flags stage.memory).result = .ok) :=
    ⟨.inr hcompletes, .inl⟩
  obtain ⟨chain', hquiet, hinvoke⟩ := invoke_of_served none none henter
    (hstage.errors.imp_right And.right) hsmooth hserve hout (hprelude.smooth base hsmooth).pending
    hmild
  rw [show (Hook.refuseWrites _).yield base.flags stage.memory
    = (stage.opening base).yield base.flags stage.memory from rfl, hcompletes, if_pos rfl, hmemory,
    hrest] at hinvoke
  rw [hinvoke]
  exact ⟨rfl, rfl, rfl, hprelude.trans (.of_quiet hquiet),
    fun c hc => hcuts c (hquiet.inputCut.symm.trans hc)⟩

/-- The commands of a row have begun: they stream, behind the cuts that they declared. -/
structure Ran.Opened (base : Chain) (k : Nat) (row : Stages n) (chain : Chain) (ran : Ran n) :
    Prop where
  outcome : ran.outcome = .ok ()
  prelude : chain.Prelude ran.chain
  cut : ∀ c, ran.chain.inputCut = some c → chain.inputCut = some c ∨ k ≤ c ∧ c < k + n
  holds : ran.stages.Holds (Stage.Open base ran.chain.inputCut) k
  remaining : ∀ vs, ran.stages.remaining base none vs
    = Stage.batch base (row.toList.map (·.begun base)) vs

/-- Commands that are ready begin one after another. -/
theorem beginAll_opened (n : Nat) : ∀ (k : Nat) (row : Stages n) (chain : Chain),
    chain.Smooth base → (∀ c, chain.inputCut = some c → c < k) → row.Holds (Stage.Fresh base) k →
    (beginAll n row chain).Opened base k row chain := by
  induction n with
  | zero =>
    intro k row chain hsmooth hfree hrow
    cases row
    exact ⟨rfl, .of_quiet (.refl chain), fun c hc => .inl hc, trivial, fun vs => rfl⟩
  | succ n ih =>
    intro k row chain hsmooth hfree hrow
    cases row with
    | cons stage rest =>
      obtain ⟨hstage, hrest⟩ := hrow
      have hcut : chain.isCut k = false :=
        Chain.isCut_eq_false_iff.mpr fun c hc => Nat.le_of_lt (hfree c hc)
      have hbegun := invoke_opened (deliver n) rest hstage hsmooth hcut
      unfold beginAll
      simp only [hsmooth.running, Bool.false_eq_true, if_false]
      generalize invoke (deliver n) stage rest chain .begin none none = begun at hbegun ⊢
      obtain ⟨outcome, stage', rest', chain'⟩ := begun
      obtain ⟨hout, hstage', hrest', hprelude, hcuts⟩ := hbegun
      simp only at hout hstage' hrest' hprelude hcuts ⊢
      subst hout hstage' hrest'
      have hbound (c : Nat) (hc : chain'.inputCut = some c) : c ≤ k := by
        rcases hcuts c hc with hbefore | ⟨rfl, -⟩
        · exact Nat.le_of_lt (hfree c hbefore)
        · exact Nat.le_refl c
      have hlater := ih (k + 1) rest' chain' (hprelude.smooth base hsmooth)
        (fun c hc => Nat.lt_succ_of_le (hbound c hc)) hrest
      generalize beginAll n rest' chain' = later at hlater ⊢
      -- No command behind has begun, so a cut at this stage is its own.
      have hopen : Stage.Open base chain'.inputCut k { stage.begun base with state := .began } := by
        refine ⟨⟨hstage.position, rfl, hstage.empty, hstage.binds, hstage.errors.imp_right And.left,
          fun _ => hstage.streams.begun, fun hat => ?_⟩, hstage.opened⟩
        rcases hcuts k hat with hbefore | ⟨-, hsaturated⟩
        · exact absurd (hfree k hbefore) (Nat.lt_irrefl k)
        · exact hsaturated
      refine ⟨hlater.outcome, hprelude.trans hlater.prelude, fun c hc => ?_,
        ⟨hopen.mono (fun _ => hbound) fun hat => ?_, hlater.holds⟩, fun vs => ?_⟩
      · rcases hlater.cut c hc with hbefore | ⟨hle, hlt⟩
        · rcases hcuts c hbefore with hbefore | ⟨rfl, -⟩
          · exact .inl hbefore
          · exact .inr (by omega)
        · exact .inr (by omega)
      · refine (hlater.cut k hat).resolve_right ?_
        rintro ⟨hbehind, -⟩
        exact Nat.not_succ_le_self k hbehind
      · exact hlater.remaining _

end CommandChain
