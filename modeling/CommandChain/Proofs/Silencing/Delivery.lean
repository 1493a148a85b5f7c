import CommandChain.Proofs.Disposal.Replacement
import CommandChain.Proofs.Journal.Replay
import Mathlib.Data.List.Forall2
/-!
# Runs under quieter preferences

Two runs of the same commands, under preferences of which the second let through less, go hand in hand
as long as no command looks at its preferences. At every step their stages are alike but for the
preferences, and of their chains only the records that reached the host differ: the second host lacks
those that the preferences of their command keep from it. Every function of the engine keeps two runs in
this relation.
-/

namespace CommandChain

/-! ## Quieter preferences -/

/-- Messages stop under the one exactly as they do under the other, and no more of them reach the host. -/
structure Preferences.Quieter (p q : Preferences) : Prop where
  stop_iff : ∀ kind, q.forKind kind = .stop ↔ p.forKind kind = .stop
  delivers : ∀ kind, q.delivers kind = true → p.delivers kind = true

/-- What a command does depends on no preferences. -/
def Command.IgnoresPreferences (c : Command) : Prop :=
  ∀ call preferences memory, c.hook { call with preferences := preferences } memory = c.hook call memory

/-- A record reaches the host under the preferences of its command. -/
def Record.isHeard (preferences : CommandId → Preferences) (r : Record) : Bool :=
  (preferences r.source.id).delivers r.kind

/-- A step is not the delivery of a record that is kept from the host. -/
def Event.isHeard (preferences : CommandId → Preferences) : Event → Bool
  | .delivered r => r.isHeard preferences
  | _ => true

namespace Preferences

variable {p q p' : Preferences} {bound : BoundParameters}

/-- Errors are let through under all preferences. -/
theorem delivers_error (p : Preferences) : p.delivers .error = true := rfl

/-- The common parameters put the same in the place of any preferences, or leave them alone. -/
theorem overlay_forKind (h : p.overlay bound = .ok p') (q : Preferences) :
    ∃ q', q.overlay bound = .ok q' ∧ ∀ kind, q'.forKind kind = p'.forKind kind
      ∨ (p'.forKind kind = p.forKind kind ∧ q'.forKind kind = q.forKind kind) := by
  unfold overlay at h ⊢
  cases herror : bound? bound "ErrorAction" with
  | error e =>
    rw [herror] at h
    cases h
  | ok errorAction =>
    cases hwarning : bound? bound "WarningAction" with
    | error e =>
      rw [herror, hwarning] at h
      cases h
    | ok warning =>
      cases hinformation : bound? bound "InformationAction" with
      | error e =>
        rw [herror, hwarning, hinformation] at h
        cases h
      | ok information =>
        rw [herror, hwarning, hinformation] at h
        cases h
        -- A channel takes the value of its common parameter, and without one keeps its own.
        refine ⟨_, rfl, fun kind => ?_⟩
        cases kind with
        | object => exact .inl rfl
        | progress => exact .inr ⟨rfl, rfl⟩
        | error => cases errorAction <;> simp [forKind]
        | warning => cases warning <;> simp [forKind]
        | information => cases information <;> simp [forKind]
        | verbose => cases hverbose : bound.switch "Verbose" <;> simp [forKind]
        | debug => cases hdebug : bound.switch "Debug" <;> simp [forKind]

/-- Arguments that cannot be taken as preferences cannot over other preferences either. -/
theorem overlay_error {e : BindingError} (h : p.overlay bound = .error e) (q : Preferences) :
    q.overlay bound = .error e := by
  unfold overlay at h ⊢
  cases herror : bound? bound "ErrorAction" with
  | error e =>
    rw [herror] at h
    exact h
  | ok errorAction =>
    cases hwarning : bound? bound "WarningAction" with
    | error e =>
      rw [herror, hwarning] at h
      exact h
    | ok warning =>
      cases hinformation : bound? bound "InformationAction" with
      | error e =>
        rw [herror, hwarning, hinformation] at h
        exact h
      | ok information =>
        rw [herror, hwarning, hinformation] at h
        cases h

/-- Overlaid by the same common parameters, quieter preferences are quieter. -/
theorem Quieter.overlay (hquieter : p.Quieter q) (h : p.overlay bound = .ok p') :
    ∃ q', q.overlay bound = .ok q' ∧ p'.Quieter q' := by
  obtain ⟨q', hq', hkinds⟩ := overlay_forKind h q
  refine ⟨q', hq', fun kind => ?_, fun kind => ?_⟩
  · rcases hkinds kind with hsame | ⟨hp, hq⟩
    · rw [hsame]
    · rw [hp, hq]
      exact hquieter.stop_iff kind
  · rcases hkinds kind with hsame | ⟨hp, hq⟩
    · rw [Preferences.delivers, Preferences.delivers, hsame]
      exact id
    · rw [Preferences.delivers, Preferences.delivers, hp, hq]
      exact hquieter.delivers kind

end Preferences

/-! ## Related runs -/

/-- Two stages differ in nothing but their preferences, of which the second are quieter, and their
command looks at neither. -/
def Stage.Alike (stage stage' : Stage) : Prop :=
  ∃ q, stage' = { stage with preferences := q } ∧ stage.preferences.Quieter q
    ∧ stage.command.IgnoresPreferences

/-- Two stages are alike, the second of which runs under the preferences chosen for its command. -/
def Stage.Hushed (preferences : CommandId → Preferences) (stage stage' : Stage) : Prop :=
  stage' = { stage with preferences := preferences stage.id }
    ∧ stage.preferences.Quieter (preferences stage.id) ∧ stage.command.IgnoresPreferences

/-- Two chains differ in nothing but the records that reached the host, of which the second lacks those
that the preferences of their commands keep from it, and in what a watching host saw. -/
def Chain.Hushed (preferences : CommandId → Preferences) (chain chain' : Chain) : Prop :=
  ∃ live shown, chain' =
    { chain with
      delivered := chain.delivered.filter (Record.isHeard preferences)
      live := live
      shown := shown
      history := chain.history.filter (Event.isHeard preferences) }

/-- The stages of two rows are related pairwise. -/
def Stages.Hushed (preferences : CommandId → Preferences) {n : Nat} (stages stages' : Stages n) : Prop :=
  List.Forall₂ (Stage.Hushed preferences) stages.toList stages'.toList

/-- Two pushes ended in the same way and left what is related. -/
structure Pushed.Hushed (preferences : CommandId → Preferences) {n : Nat} (pushed pushed' : Pushed n) :
    Prop where
  outcome : pushed'.outcome = pushed.outcome
  stages : pushed.stages.Hushed preferences pushed'.stages
  chain : pushed.chain.Hushed preferences pushed'.chain

/-- Two hooks were served in the same way and left what is related. -/
structure Served.Hushed (preferences : CommandId → Preferences) {σ : Type} {n : Nat}
    (served served' : Served σ n) : Prop where
  outcome : served'.outcome = served.outcome
  memory : served'.memory = served.memory
  rest : served.rest.Hushed preferences served'.rest
  chain : served.chain.Hushed preferences served'.chain

/-- Two calls ended in the same way and left what is related. -/
structure Settled.Hushed (preferences : CommandId → Preferences) {n : Nat}
    (settled settled' : Settled n) : Prop where
  outcome : settled'.outcome = settled.outcome
  stage : settled.stage.Hushed preferences settled'.stage
  rest : settled.rest.Hushed preferences settled'.rest
  chain : settled.chain.Hushed preferences settled'.chain

/-- A push keeps two runs related. -/
def Push.Hushes (preferences : CommandId → Preferences) {n : Nat} (push : Push n) : Prop :=
  ∀ stages stages' chain chain' r, r.kind = .object → stages.Hushed preferences stages' →
    chain.Hushed preferences chain' →
    (push stages chain r).Hushed preferences (push stages' chain' r)

variable {preferences : CommandId → Preferences}

/-! ## What chains share -/

namespace Chain.Hushed

variable {chain chain' : Chain}

/-- A hushed chain has the same flags. -/
theorem flags_eq (h : chain.Hushed preferences chain') : chain'.flags = chain.flags := by
  obtain ⟨live, shown, rfl⟩ := h
  rfl

theorem adapter_eq (h : chain.Hushed preferences chain') : chain'.adapter = chain.adapter := by
  obtain ⟨live, shown, rfl⟩ := h
  rfl

/-- A hushed chain is halted exactly if the other is. -/
theorem isHalted_eq (h : chain.Hushed preferences chain') : chain'.isHalted = chain.isHalted := by
  obtain ⟨live, shown, rfl⟩ := h
  rfl

/-- Whether a call is told to stop does not depend on its preferences. -/
theorem isStopping_eq (h : chain.Hushed preferences chain') (call : Call) (q : Preferences) :
    Call.isStopping { call with preferences := q } chain' = call.isStopping chain := by
  obtain ⟨live, shown, rfl⟩ := h
  rfl

/-- A step that is not kept from the host goes into both journals. -/
theorem log (h : chain.Hushed preferences chain') {e : Event}
    (he : e.isHeard preferences = true) : (chain.log e).Hushed preferences (chain'.log e) := by
  obtain ⟨live, shown, rfl⟩ := h
  refine ⟨live, shown, ?_⟩
  unfold Chain.log
  rw [List.filter_cons_of_pos he]

theorem note (h : chain.Hushed preferences chain') (text : String) :
    (chain.note text).Hushed preferences (chain'.note text) := by
  obtain ⟨live, shown, rfl⟩ := h
  exact ⟨live, .note text :: shown, rfl⟩

theorem noteAll (h : chain.Hushed preferences chain') (texts : List String) :
    (chain.noteAll texts).Hushed preferences (chain'.noteAll texts) := by
  induction texts generalizing chain chain' with
  | nil => exact h
  | cons text texts ih => exact ih (h.note text)

theorem signal (h : chain.Hushed preferences chain') (token : StopToken) :
    (chain.signal token).Hushed preferences (chain'.signal token) := by
  obtain ⟨live, shown, rfl⟩ := h
  exact ⟨live, shown, rfl⟩

theorem signalAll (h : chain.Hushed preferences chain') (tokens : List StopToken) :
    (chain.signalAll tokens).Hushed preferences (chain'.signalAll tokens) := by
  induction tokens generalizing chain chain' with
  | nil => exact h
  | cons token tokens ih => exact ih (h.signal token)

theorem absorb (h : chain.Hushed preferences chain') (report : ChainReport) :
    (chain.absorb report).Hushed preferences (chain'.absorb report) :=
  (h.noteAll report.notes).signalAll report.signals

theorem cutInput (h : chain.Hushed preferences chain') (id : CommandId) (position : Nat) :
    (chain.cutInput id position).Hushed preferences (chain'.cutInput id position) := by
  obtain ⟨live, shown, rfl⟩ := h
  exact ⟨live, shown, rfl⟩

theorem escalateAfterCall (h : chain.Hushed preferences chain') (id : CommandId) (e : ErrorRecord) :
    (chain.escalateAfterCall id e).Hushed preferences (chain'.escalateAfterCall id e) := by
  obtain ⟨live, shown, rfl⟩ := h
  exact ⟨live, shown, rfl⟩

/-- What is pending is settled in the same way in both chains. -/
theorem takePendingStop (h : chain.Hushed preferences chain') (id : CommandId) :
    (chain'.takePendingStop id).1 = (chain.takePendingStop id).1
      ∧ (chain.takePendingStop id).2.Hushed preferences (chain'.takePendingStop id).2 := by
  obtain ⟨live, shown, rfl⟩ := h
  rw [Chain.takePendingStop_eq, Chain.takePendingStop_eq]
  exact ⟨rfl, live, shown, rfl⟩

/-- Records are numbered whether they reach the host or not, so both chains make the same. -/
theorem emit (h : chain.Hushed preferences chain') (payload : Payload) (source : RecordSource) :
    (chain'.emit payload source).1 = (chain.emit payload source).1
      ∧ (chain.emit payload source).2.Hushed preferences (chain'.emit payload source).2 := by
  obtain ⟨live, shown, rfl⟩ := h
  exact ⟨rfl, live, shown, rfl⟩

theorem send (h : chain.Hushed preferences chain') (m : HostMessage) :
    (chain.send m).Hushed preferences (chain'.send m) := by
  obtain ⟨live, shown, rfl⟩ := h
  exact ⟨_, _, rfl⟩

/-- A record that both hosts receive. -/
theorem deliverToHost (h : chain.Hushed preferences chain') {r : Record}
    (hr : r.isHeard preferences = true) :
    (chain.deliverToHost r).Hushed preferences (chain'.deliverToHost r) := by
  obtain ⟨live, shown, hlogged⟩ := (h.send (.record r)).log (e := .delivered r) hr
  refine ⟨live, shown, ?_⟩
  unfold Chain.deliverToHost
  rw [hlogged, List.filter_cons_of_pos hr]

/-- A record that only the first host receives. -/
theorem deliverToHost_of_not_heard (h : chain.Hushed preferences chain') {r : Record}
    (hr : r.isHeard preferences = false) :
    (chain.deliverToHost r).Hushed preferences chain' := by
  obtain ⟨live, shown, rfl⟩ := h
  refine ⟨live, shown, ?_⟩
  have hnot : ¬ r.isHeard preferences = true := by rw [hr]; exact Bool.false_ne_true
  have hevent : ¬ (Event.delivered r).isHeard preferences = true := hnot
  unfold Chain.deliverToHost
  simp only [Chain.log, Chain.send, List.filter_cons_of_neg hnot, List.filter_cons_of_neg hevent]

/-- An error reaches the host under all preferences, so it is reported in both chains. -/
theorem emitError (h : chain.Hushed preferences chain') (source : RecordSource) (e : ErrorRecord) :
    (chain.emitError source e).Hushed preferences (chain'.emitError source e) := by
  obtain ⟨hsame, hemit⟩ := h.emit (.message (.error e)) source
  show ((chain.emit _ source).2.deliverToHost (chain.emit _ source).1).Hushed preferences
    ((chain'.emit _ source).2.deliverToHost (chain'.emit _ source).1)
  rw [hsame]
  exact hemit.deliverToHost (Preferences.delivers_error _)

/-- A command fails in the same way in both chains. -/
theorem fail (h : chain.Hushed preferences chain') {stage stage' : Stage}
    (hstage : stage.Alike stage') (e : ErrorRecord) :
    (stage.fail chain e).2.Hushed preferences (stage'.fail chain' e).2 := by
  obtain ⟨q, rfl, -, -⟩ := hstage
  obtain ⟨live, shown, hfailed⟩ :=
    (h.emitError stage.source { e with terminating := true }).log (e := .failed stage.id) rfl
  unfold Stage.fail
  simp only [show Stage.source { stage with preferences := q } = stage.source from rfl,
    show Stage.id { stage with preferences := q } = stage.id from rfl, hfailed]
  exact signal ⟨live, shown, rfl⟩ _

end Chain.Hushed

/-! ## Lifecycle calls -/

variable {n : Nat}

namespace Stage.Alike

variable {stage stage' : Stage}

theorem id_eq (h : stage.Alike stage') : stage'.id = stage.id := by
  obtain ⟨q, rfl, -⟩ := h
  rfl

theorem source_eq (h : stage.Alike stage') : stage'.source = stage.source := by
  obtain ⟨q, rfl, -⟩ := h
  rfl

theorem state_eq (h : stage.Alike stage') : stage'.state = stage.state := by
  obtain ⟨q, rfl, -⟩ := h
  rfl

/-- Stages that are alike stay so when their states become the same. -/
theorem become (h : stage.Alike stage') (state : CommandState) :
    Stage.Alike { stage with state := state } { stage' with state := state } := by
  obtain ⟨q, rfl, hquieter, hignores⟩ := h
  exact ⟨q, rfl, hquieter, hignores⟩

/-- Stages that fail alike stay alike. -/
theorem fail (h : stage.Alike stage') (chain chain' : Chain) (e : ErrorRecord) :
    (stage.fail chain e).1.Alike (stage'.fail chain' e).1 := by
  show Stage.Alike { stage with state := stage.state.becomeIfAllowed .error }
    { stage' with state := stage'.state.becomeIfAllowed .error }
  rw [h.state_eq]
  exact h.become _

end Stage.Alike

namespace Stage.Hushed

variable {stage stage' : Stage}

/-- Hushed stages are alike. -/
theorem alike (h : stage.Hushed preferences stage') : stage.Alike stage' :=
  ⟨preferences stage.id, h⟩

theorem input_eq (h : stage.Hushed preferences stage') : stage'.input = stage.input := by
  rw [h.1]

/-- Related stages stay so when their pipes become the same. -/
theorem takes (h : stage.Hushed preferences stage') (pipe : Pipe) :
    Stage.Hushed preferences { stage with input := pipe } { stage' with input := pipe } := by
  obtain ⟨rfl, hquieter, hignores⟩ := h
  exact ⟨rfl, hquieter, hignores⟩

/-- Related stages stay so when their states become the same. -/
theorem become (h : stage.Hushed preferences stage') (state : CommandState) :
    Stage.Hushed preferences { stage with state := state } { stage' with state := state } := by
  obtain ⟨rfl, hquieter, hignores⟩ := h
  exact ⟨rfl, hquieter, hignores⟩

/-- Hushed stages stay so when they fail. -/
theorem fail (h : stage.Hushed preferences stage') (chain chain' : Chain) (e : ErrorRecord) :
    (stage.fail chain e).1.Hushed preferences (stage'.fail chain' e).1 := by
  show Stage.Hushed preferences { stage with state := stage.state.becomeIfAllowed .error }
    { stage' with state := stage'.state.becomeIfAllowed .error }
  rw [h.alike.state_eq]
  exact h.become _

end Stage.Hushed

/-- A message is answered alike. It reaches the second host if it is let through to it, and the first
one then too. -/
theorem Call.report_hushed (call : Call) (hquieter : call.preferences.Quieter (preferences call.id))
    (m : Message) {chain chain' : Chain} (hchain : chain.Hushed preferences chain') :
    (Call.report { call with preferences := preferences call.id } m chain').1
        = (call.report m chain).1
      ∧ (call.report m chain).2.Hushed preferences
        (Call.report { call with preferences := preferences call.id } m chain').2 := by
  obtain ⟨hsame, hemit⟩ := hchain.emit (.message (call.complete m)) call.source
  have hheard : (chain.emit (.message (call.complete m)) call.source).1.isHeard preferences
      = (preferences call.id).delivers (call.complete m).kind := rfl
  have hcomplete : Call.complete { call with preferences := preferences call.id } m
      = call.complete m := by cases m <;> rfl
  have hsource : Call.source { call with preferences := preferences call.id } = call.source := rfl
  have hstop : ((preferences call.id).forKind (call.complete m).kind == .stop)
      = (call.preferences.forKind (call.complete m).kind == .stop) := by
    rw [Bool.eq_iff_iff, beq_iff_eq, beq_iff_eq]
    exact hquieter.stop_iff _
  have hdelivered : (if call.preferences.delivers (call.complete m).kind then
          (chain.emit (.message (call.complete m)) call.source).2.deliverToHost
            (chain.emit (.message (call.complete m)) call.source).1
        else (chain.emit (.message (call.complete m)) call.source).2).Hushed preferences
      (if (preferences call.id).delivers (call.complete m).kind then
          (chain'.emit (.message (call.complete m)) call.source).2.deliverToHost
            (chain'.emit (.message (call.complete m)) call.source).1
        else (chain'.emit (.message (call.complete m)) call.source).2) := by
    rw [hsame]
    -- What the second host hears the first one hears too, but not the other way round.
    by_cases hlet : (preferences call.id).delivers (call.complete m).kind = true
    · rw [if_pos hlet, if_pos (hquieter.delivers _ hlet)]
      exact hemit.deliverToHost (hheard.trans hlet)
    · rw [if_neg hlet]
      split
      · exact hemit.deliverToHost_of_not_heard (hheard.trans (Bool.not_eq_true _ ▸ hlet))
      · exact hemit
  unfold Call.report
  simp only [hcomplete, hsource, hstop]
  generalize chain.emit (.message (call.complete m)) call.source = made at hdelivered ⊢
  generalize chain'.emit (.message (call.complete m)) call.source = made' at hdelivered ⊢
  by_cases hends : (call.preferences.forKind (call.complete m).kind == .stop) = true
  · rw [if_pos hends, if_pos hends]
    exact ⟨rfl, hdelivered.escalateAfterCall _ _⟩
  · rw [if_neg hends, if_neg hends]
    exact ⟨rfl, hdelivered⟩

theorem Call.writeObject_hushed (call : Call) (q : Preferences) {push : Push n}
    (hpush : push.Hushes preferences) (v : Value) {rest rest' : Stages n} {chain chain' : Chain}
    (hrest : rest.Hushed preferences rest') (hchain : chain.Hushed preferences chain') :
    (call.writeObject push v rest chain).Hushed preferences
      (Call.writeObject { call with preferences := q } push v rest' chain') := by
  unfold Call.writeObject
  simp only [hchain.isStopping_eq]
  split
  · exact ⟨rfl, hrest, hchain⟩
  · split
    · exact ⟨rfl, hrest, hchain⟩
    · obtain ⟨hsame, hemit⟩ := hchain.emit (.object v) call.source
      show (push rest (chain.emit (.object v) call.source).2
        (chain.emit (.object v) call.source).1).Hushed preferences
        (push rest' (chain'.emit (.object v) call.source).2 (chain'.emit (.object v) call.source).1)
      rw [hsame]
      exact hpush rest rest' _ _ _ rfl hrest hemit

/-- Hooks are served alike. -/
theorem serve_hushed {σ : Type} (call : Call)
    (hquieter : call.preferences.Quieter (preferences call.id)) {push : Push n}
    (hpush : push.Hushes preferences) (hook : Hook σ) (memory : σ) {rest rest' : Stages n}
    {chain chain' : Chain} (hrest : rest.Hushed preferences rest')
    (hchain : chain.Hushed preferences chain') :
    (serve call push hook memory rest chain).Hushed preferences
      (serve { call with preferences := preferences call.id } push hook memory rest' chain') := by
  induction hook generalizing memory rest rest' chain chain' with
  | done result => exact ⟨rfl, rfl, hrest, hchain⟩
  | panic p => exact ⟨rfl, rfl, hrest, hchain⟩
  | store memory' next ih => exact ih memory' hrest hchain
  | write v next ih =>
    have hwritten := call.writeObject_hushed (preferences call.id) hpush v hrest
      (hchain.log (e := .writing call.id v) rfl)
    unfold serve
    simp only
    generalize call.writeObject push v rest (chain.log (.writing call.id v)) = pushed at hwritten ⊢
    generalize Call.writeObject { call with preferences := preferences call.id } push v rest'
      (chain'.log (.writing call.id v)) = pushed' at hwritten ⊢
    rw [hwritten.outcome]
    cases pushed.outcome with
    | error p => exact ⟨rfl, rfl, hwritten.stages, hwritten.chain⟩
    | ok result => exact ih result memory hwritten.stages (hwritten.chain.log rfl)
  | report m next ih =>
    obtain ⟨hresult, hreported⟩ :=
      call.report_hushed hquieter m (hchain.log (e := .reporting call.id m) rfl)
    unfold serve
    simp only
    generalize call.report m (chain.log (.reporting call.id m)) = reported at hresult hreported ⊢
    generalize Call.report { call with preferences := preferences call.id } m
      (chain'.log (.reporting call.id m)) = reported' at hresult hreported ⊢
    rw [hresult]
    exact ih reported.1 memory hrest hreported
  | cutInput next ih => exact ih memory hrest (hchain.cutInput _ _)
  | askStopping next ih =>
    unfold serve
    rw [hchain.isStopping_eq]
    exact ih _ memory hrest hchain
  | note text next ih => exact ih memory hrest (hchain.note text)
  | signal token next ih => exact ih memory hrest (hchain.signal token)
  | askSignaled token next ih =>
    unfold serve
    rw [hchain.flags_eq]
    exact ih _ memory hrest hchain
  | runChain run next ih =>
    unfold serve
    simp only [hchain.flags_eq]
    cases (run chain.flags).outcome with
    | error p => exact ⟨rfl, rfl, hrest, hchain.absorb _⟩
    | ok outcome => exact ih outcome memory hrest (hchain.absorb _)

/-- Calls are settled alike: a fault is fatal under both preferences or under neither. -/
theorem settle_hushed {stage stage' : Stage} (hstage : stage.Hushed preferences stage')
    {chain chain' : Chain} (hchain : chain.Hushed preferences chain') (phase : Phase)
    (input : Option Value) (result : CallResult) :
    (settle stage' chain' phase input result).1 = (settle stage chain phase input result).1
      ∧ (settle stage chain phase input result).2.1.Hushed preferences
        (settle stage' chain' phase input result).2.1
      ∧ (settle stage chain phase input result).2.2.Hushed preferences
        (settle stage' chain' phase input result).2.2 := by
  have halike := hstage.alike
  obtain ⟨rfl, hquieter, hignores⟩ := hstage
  obtain ⟨htaken, hleft⟩ := hchain.takePendingStop stage.id
  have hfatal : ((preferences stage.id).errorAction == .stop)
      = (stage.preferences.errorAction == .stop) := by
    rw [Bool.eq_iff_iff, beq_iff_eq, beq_iff_eq]
    exact hquieter.stop_iff .error
  have hid : Stage.id { stage with preferences := preferences stage.id } = stage.id := rfl
  have hsource : Stage.source { stage with preferences := preferences stage.id } = stage.source := rfl
  unfold settle
  simp only [hid, hsource, hfatal]
  generalize chain.takePendingStop stage.id = taken at htaken hleft ⊢
  generalize chain'.takePendingStop stage.id = taken' at htaken hleft ⊢
  obtain ⟨pending, chain⟩ := taken
  obtain ⟨pending', chain'⟩ := taken'
  simp only at htaken hleft
  subst htaken
  cases pending' with
  | some e => exact ⟨rfl, ⟨rfl, hquieter, hignores⟩, hleft.fail halike _⟩
  | none =>
    cases result with
    | ok => exact ⟨rfl, ⟨rfl, hquieter, hignores⟩, hleft⟩
    | stopped => exact ⟨rfl, ⟨rfl, hquieter, hignores⟩, hleft⟩
    | fault f =>
      simp only
      split
      · exact ⟨rfl, ⟨rfl, hquieter, hignores⟩, hleft.fail halike _⟩
      · exact ⟨rfl, ⟨rfl, hquieter, hignores⟩, hleft.emitError _ _⟩

theorem concludeCall_hushed (stage : Stage)
    (hquieter : stage.preferences.Quieter (preferences stage.id))
    (hignores : stage.command.IgnoresPreferences) (phase : Phase) (input : Option Value)
    {served served' : Served stage.command.Memory n} (h : served.Hushed preferences served') :
    (concludeCall stage phase input served).Hushed preferences
      (concludeCall { stage with preferences := preferences stage.id } phase input served') := by
  obtain ⟨outcome, memory, rest, chain⟩ := served
  obtain ⟨outcome', memory', rest', chain'⟩ := served'
  obtain ⟨houtcome, hmemory, hrest, hchain⟩ := h
  simp only at houtcome hmemory hrest hchain
  subst houtcome hmemory
  have hstage : Stage.Hushed preferences { stage with memory := memory' }
      { stage with memory := memory', preferences := preferences stage.id } :=
    ⟨rfl, hquieter, hignores⟩
  cases outcome' with
  | error p => exact ⟨rfl, hstage, hrest, hchain⟩
  | ok result =>
    obtain ⟨hresult, hsettled, hleft⟩ := settle_hushed hstage
      (hchain.log (e := .returned stage.id phase result) rfl) phase input result
    generalize hout : settle { stage with memory := memory' }
      (chain.log (.returned stage.id phase result)) phase input result = out at hresult hsettled hleft
    generalize hout' : settle
      { stage with memory := memory', preferences := preferences stage.id }
      (chain'.log (.returned stage.id phase result)) phase input result = out'
      at hresult hsettled hleft
    rw [concludeCall_ok stage phase input result memory' rest chain hout,
      concludeCall_ok { stage with preferences := preferences stage.id } phase input result memory'
        rest' chain' hout', hresult, hsettled.alike.id_eq]
    exact ⟨rfl, hsettled, hrest, hleft.log rfl⟩

section

variable {push : Push n} {stage stage' : Stage} {rest rest' : Stages n} {chain chain' : Chain}

/-- A lifecycle call goes in the same way under both preferences. -/
theorem invoke_hushed (hpush : push.Hushes preferences) (hstage : stage.Hushed preferences stage')
    (hrest : rest.Hushed preferences rest') (hchain : chain.Hushed preferences chain')
    (phase : Phase) (bound : Option BoundParameters) (input : Option Value) :
    (invoke push stage rest chain phase bound input).Hushed preferences
      (invoke push stage' rest' chain' phase bound input) := by
  have halike := hstage.alike
  obtain ⟨rfl, hquieter, hignores⟩ := hstage
  unfold invoke
  simp only
  cases stage.state.entering phase with
  | error e => exact ⟨rfl, ⟨rfl, hquieter, hignores⟩, hrest, hchain.fail halike _⟩
  | ok state =>
    have hcall : Stage.call { stage with state := state, preferences := preferences stage.id } chain'
          phase (bound.getD stage.bound) input
        = { Stage.call { stage with state := state } chain phase (bound.getD stage.bound) input with
            preferences := preferences stage.id } := by
      obtain ⟨live, shown, rfl⟩ := hchain
      rfl
    have hserved := serve_hushed
      (Stage.call { stage with state := state } chain phase (bound.getD stage.bound) input)
      hquieter hpush (stage.command.hook
        (Stage.call { stage with state := state } chain phase (bound.getD stage.bound) input)
        stage.memory) stage.memory hrest
      (hchain.log (e := .called stage.id phase (bound.getD stage.bound) input) rfl)
    -- The hooks are the same, as the command does not look at its preferences.
    have hhook := hignores
      (Stage.call { stage with state := state } chain phase (bound.getD stage.bound) input)
      (preferences stage.id) stage.memory
    simp only [hcall, hhook]
    exact concludeCall_hushed { stage with state := state } hquieter hignores phase input hserved

theorem processRecord_hushed (hpush : push.Hushes preferences)
    (hstage : stage.Hushed preferences stage') (hrest : rest.Hushed preferences rest')
    (hchain : chain.Hushed preferences chain') (r : Record) :
    (processRecord push stage rest chain r).Hushed preferences
      (processRecord push stage' rest' chain' r) := by
  have hsame : stage'.state = stage.state ∧ stage'.bound = stage.bound
      ∧ stage'.bindingErrors = stage.bindingErrors ∧ stage'.source = stage.source
      ∧ stage'.binder chain.adapter = stage.binder chain.adapter := by
    rw [hstage.1]
    exact ⟨rfl, rfl, rfl, rfl, rfl⟩
  unfold processRecord
  simp only [hchain.adapter_eq, hsame]
  cases r.object? with
  | none => exact ⟨rfl, hstage, hrest, hchain⟩
  | some v =>
    simp only
    split
    · exact ⟨rfl, hstage, hrest, hchain⟩
    · cases (stage.binder chain.adapter).bindObject stage.bound v with
      | ok bound => exact invoke_hushed hpush hstage hrest hchain _ _ _
      | error e =>
        cases stage.bindingErrors with
        | nonTerminating => exact ⟨rfl, hstage, hrest, hchain.emitError _ _⟩
        | terminating =>
          have hfailed := hstage.fail chain chain'
            { e.toRecord with target := some v, phase := some .process }
          exact ⟨rfl, hfailed, hrest, hchain.fail hstage.alike _⟩

end

/-- A delivery to any row keeps the two runs related: by induction on the row. -/
theorem deliver_hushes (n : Nat) : (deliver n).Hushes preferences := by
  induction n with
  | zero =>
    intro stages stages' chain chain' r hr hstages hchain
    cases stages
    cases stages'
    -- Objects reach the host whatever the preferences are.
    refine ⟨rfl, hstages, hchain.deliverToHost ?_⟩
    rw [Record.isHeard, hr]
    rfl
  | succ n ih =>
    intro stages stages' chain chain' r hr hstages hchain
    cases stages with
    | cons stage rest =>
    cases stages' with
    | cons stage' rest' =>
    obtain ⟨hstage, hrest⟩ := List.forall₂_cons.mp hstages
    simp only [deliver, hchain.isHalted_eq, hstage.input_eq]
    split
    · exact ⟨rfl, hstages, hchain⟩
    · cases stage.input.write chain.isHalted r with
      | error refusal => cases refusal <;> exact ⟨rfl, hstages, hchain⟩
      | ok pipe =>
        simp only
        rcases pipe.take chain.isHalted with ⟨read, pipe⟩
        have hread := hstage.takes pipe
        cases read with
        | record r =>
          have hprocessed := processRecord_hushed ih hread hrest hchain r
          exact ⟨hprocessed.outcome, .cons hprocessed.stage hprocessed.rest, hprocessed.chain⟩
        | empty => exact ⟨rfl, .cons hread hrest, hchain⟩
        | endOfInput => exact ⟨rfl, .cons hread hrest, hchain⟩

end CommandChain
