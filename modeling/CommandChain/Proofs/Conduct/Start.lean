import CommandChain.Proofs.Conduct.Delivery
/-!
# The start of a run

Before objects flow, the commands of a chain are bound and begin, the first one first. Binding stops
at the first command that cannot be bound, and that halts the chain; beginning stops at the first
command that does not complete it.
-/

namespace CommandChain

variable {set : Setting} {n k position : Nat} {journal : List Event}

/-! ## Binding -/

/-- A command at its place in a new pipeline: it was created, its memory is fresh, and it stands
behind an empty pipe. -/
structure Stage.New (k : Nat) (stage : Stage) : Prop where
  position : stage.position = k
  created : stage.state = .created
  input : stage.input = {}
  memory : stage.memory = stage.command.fresh

/-- A stage stands at its place as it was built. -/
structure Stage.Built (set : Setting) (k : Nat) (stage : Stage) : Prop extends
    Stage.New k stage where
  found : set.stages[k]? = some stage
  command : set.commands[k]? = some stage.command

/-- Nothing has happened but signals. -/
def Journal.Untouched (journal : List Event) : Prop :=
  ∀ e ∈ journal, ∃ token, e = .signaled token

/-- A signal leaves every command alone. -/
theorem Journal.Untouched.spares (h : Untouched journal) {e : Event} (he : e ∈ journal)
    (id : CommandId) : e.Spares id := by
  obtain ⟨token, rfl⟩ := h e he
  trivial

/-- Where nothing but signals has happened, every command is as it was created. -/
theorem Journal.Untouched.state_eq (h : Untouched journal) (id : CommandId) :
    state journal id = .created :=
  @state_append_of_spares [] _ _ fun _ he => h.spares he id

/-- Where nothing but signals has happened, no lifecycle call has taken place. -/
theorem Journal.Untouched.clear (h : Untouched journal) (id : CommandId) (phase : Phase) :
    Clear journal id phase := by
  intro e he
  obtain ⟨token, rfl⟩ := h e he
  rfl

/-- A stage stands at its place as it was built, as long as nothing but signals has happened. -/
theorem Stage.Built.placed {stage : Stage} (h : stage.Built set k)
    (hjournal : Journal.Untouched journal) : stage.Placed set journal k :=
  ⟨h.position, h.command, by rw [h.created, hjournal.state_eq]⟩

/-- What comes of binding a stage as it was built. -/
theorem Stage.Built.bind_eq {stage : Stage} (h : stage.Built set k) :
    set.bind k = some (stage.bindStatically set.adapter (stage.position != 0 || set.hostInput)) := by
  rw [Setting.bind, h.found, h.position]
  rfl

/-- A stage that is bound waits for objects. -/
theorem Stage.Built.waits {stage bound : Stage} (h : stage.Built set k)
    (hjournal : Journal.Untouched journal) (hbind : set.bind k = some (.ok bound)) :
    bound.Waits set journal k := by
  have heq := hbind
  rw [h.bind_eq] at heq
  have heq := Stage.bindStatically_eq (Option.some.inj heq)
  have hposition : bound.position = k := by rw [heq, h.position]
  have hcreated : bound.state = .created := by rw [heq, h.created]
  have hinput : bound.input = {} := by rw [heq, h.input]
  have hbound : bound.reset = bound := by
    have hmemory := h.memory
    have hinput := h.input
    have hcreated := h.created
    rw [heq]
    obtain ⟨_, _, _, _, _, _, _, _, _⟩ := stage
    simp only at hmemory hinput hcreated
    subst hmemory hinput hcreated
    rfl
  have hcommand : set.commands[k]? = some bound.command := by
    rw [h.command, heq]
  refine ⟨⟨⟨hposition, hcommand, ?_⟩, by rw [hinput], hjournal.clear _ _, ?_⟩, by rw [hinput]⟩
  · rw [hcreated, hjournal.state_eq]
  · rw [Stage.Bound, hbound, Setting.bound, hbind]

/-- The failure of a command leaves the others at their places. -/
theorem Stage.Placed.fail_other {stage other : Stage} {chain : Chain} {i : Nat}
    (h : other.Placed set chain.journal i) (hstage : stage.Placed set chain.journal k) (hne : k ≠ i)
    (e : ErrorRecord) : other.Placed set (stage.fail chain e).2.journal i := by
  rw [Stage.journal_fail, hstage.id_eq]
  refine h.append ?_
  simp [Event.Spares, hne]

/-- What binding the commands from a position on comes to: all of them are bound, or the first that
cannot be fails. -/
inductive Setting.Bindings (set : Setting) (position : Nat) (chain : Chain) {n : Nat} :
    Stages n × Chain → Prop
  | bound (stages : Stages n) (hwaits : stages.Holds (Stage.Waits set chain.journal) position)
    (hall : ∀ k, position ≤ k → k < position + n → ∃ stage, set.bind k = some (.ok stage)) :
    Bindings set position chain (stages, chain)
  | failed (k : Nat) (stage : Stage) (e : BindingError) (stages : Stages n)
    (hk : position ≤ k ∧ k < position + n) (hstage : stage.Placed set chain.journal k)
    (hbind : set.bind k = some (.error e))
    (hearlier : ∀ j, position ≤ j → j < k → ∃ stage, set.bind j = some (.ok stage))
    (hplaced : stages.Holds (Stage.Placed set
      (stage.fail chain { e.toRecord with phase := some .bind }).2.journal) position) :
    Bindings set position chain (stages, (stage.fail chain { e.toRecord with phase := some .bind }).2)

/-- Binding changes no more than what the commands are bound to, up to a first failure. -/
theorem bindAll_bindings {stages : Stages n} {chain : Chain} (hadapter : chain.adapter = set.adapter)
    (hjournal : Journal.Untouched chain.journal) (h : stages.Holds (Stage.Built set) position) :
    set.Bindings position chain (bindAll set.hostInput stages chain) := by
  induction stages generalizing position with
  | nil => exact .bound _ trivial fun k hk hlt => by omega
  | cons stage rest ih =>
    obtain ⟨hstage, hrest⟩ := h
    have hplaced := hstage.placed hjournal
    have hbind := hstage.bind_eq
    rw [← hadapter] at hbind
    unfold bindAll
    cases hbound : stage.bindStatically chain.adapter (stage.position != 0 || set.hostInput) with
    | error e =>
      rw [hbound] at hbind
      refine .failed position stage e _ ⟨Nat.le_refl _, by omega⟩ hplaced hbind
        (fun j hj hlt => by omega) ⟨?_, ?_⟩
      · refine ⟨hstage.position, hstage.command, ?_⟩
        rw [Stage.journal_fail, hplaced.id_eq, Journal.state_append, ← hplaced.state]
        simp only [List.foldl_cons, List.foldl_nil, CommandState.after, if_true]
      · -- The stages behind were not bound, and the failure is not theirs.
        exact hrest.mono fun i built hi _ hbuilt => hbuilt.placed hjournal |>.fail_other hplaced
          (by omega) _
    | ok bound =>
      rw [hbound] at hbind
      have hwaits := hstage.waits hjournal hbind
      have hlater := ih hrest
      simp only
      generalize bindAll set.hostInput rest chain = later at hlater ⊢
      -- The first command behind that cannot be bound is the first of all, as this one was bound.
      cases hlater with
      | bound stages hholds hall =>
        refine .bound _ ⟨hwaits, hholds⟩ fun k hk hlt => ?_
        rcases Nat.eq_or_lt_of_le hk with rfl | hk
        · exact ⟨bound, hbind⟩
        · exact hall k hk (by omega)
      | failed k failing e stages hk hfailing hbindk hearlier hholds =>
        refine .failed k failing e _ ⟨by omega, by omega⟩ hfailing hbindk (fun j hj hlt => ?_)
          ⟨?_, hholds⟩
        · rcases Nat.eq_or_lt_of_le hj with rfl | hj
          · exact ⟨bound, hbind⟩
          · exact hearlier j hj hlt
        · exact hwaits.toPlaced.fail_other hfailing (by omega) _

/-! ## Beginning -/

/-- A step that may happen while the commands from a position on begin. -/
def Event.Opening (position : Nat) (e : Event) : Prop :=
  e.From position ∧ ∀ id, e.isOf id .finish = false

/-- A stage goes on waiting while commands behind it begin. -/
theorem Stage.Waits.append_opening {stage : Stage} {block : List Event}
    (h : stage.Waits set journal k) (hblock : ∀ e ∈ block, e.Opening position) (hk : k < position) :
    stage.Waits set (journal ++ block) k :=
  h.append fun e he => (hblock e he).1.spares hk

/-- A command has been called to begin, and no command behind it has. -/
structure Setting.Began (set : Setting) (position : Nat) (journal : List Event) {n : Nat}
    (settled : Settled n) : Prop where
  tracks : set.Tracks settled.chain
  legal : Legal set [] settled.chain.journal
  grown : ∃ block, settled.chain.journal = journal ++ block ∧ (∀ e ∈ block, e.Opening position)
    ∧ ∀ k, position < k → Journal.Clear block ⟨k⟩ .begin
  stage : settled.stage.Waits set settled.chain.journal position
  rest : settled.rest.Holds (Stage.Waits set settled.chain.journal) (position + 1)
  started : Journal.state settled.chain.journal ⟨position⟩ ≠ .created
  fresh : Journal.state settled.chain.journal ⟨position⟩ ≠ .processing
  outcome : (∃ p, settled.outcome = .error p) ∨
    ∃ completed, settled.outcome = .ok (if completed then .ok else .stopped)
      ∧ .settled ⟨position⟩ .begin completed ∈ settled.chain.journal

/-- A call to begin adds no call of another command for the same phase, and none for the end. -/
theorem Setting.Invoked.opening {stage : Stage} {start inner block : List Event}
    {settled : Settled n} (h : set.Invoked position .begin stage start settled inner block)
    {parameters : BoundParameters} {e : Event}
    (he : e ∈ Event.called ⟨position⟩ .begin parameters none :: (inner ++ block)) :
    e.Opening position ∧ ∀ k, position < k → e.isOf ⟨k⟩ .begin = false := by
  have hne {k : Nat} (hk : position < k) : (⟨position⟩ : CommandId) ≠ ⟨k⟩ := by
    rw [ne_eq, CommandId.mk.injEq]
    omega
  rcases List.mem_cons.mp he with rfl | he
  · refine ⟨⟨Nat.le_refl _, fun id => by simp [Event.isOf]⟩, fun k hk => ?_⟩
    rw [Event.isOf, beq_eq_false_iff_ne.mpr (hne hk), Bool.false_and]
  · refine ⟨⟨h.from_position e he, fun id => ?_⟩, fun k hk => ?_⟩
    all_goals
      rw [Bool.eq_false_iff]
      intro hof
      rcases h.phase_eq he hof with hp | ⟨hp, hid⟩
      · cases hp
    · cases hp
    · exact hne hk hid.symm

/-- A command whose turn it is to begin is called to, and no command behind it is. -/
theorem invoke_began {stage : Stage} {rest : Stages n} {chain : Chain}
    (h : set.Steady position journal (.cons stage rest) chain)
    (hpending : chain.pendingStop = none) (hhalt : set.isHalted chain.journal = false)
    (hbefore : ∀ j < position, .settled ⟨j⟩ .begin true ∈ chain.journal)
    (hclear : Journal.Clear chain.journal ⟨position⟩ .begin) :
    set.Began position chain.journal (invoke (deliver n) stage rest chain .begin none none) := by
  have hw := h.waits.1
  have hcount := h.count
  -- The command has not begun before, so it is as it was built.
  have hcreated : stage.state = .created := by
    rw [hw.state, Journal.created_of_clear hclear]
  have hcalled : Legal set [] (chain.journal
      ++ [.called ⟨position⟩ .begin ((none : Option BoundParameters).getD stage.bound) none]) :=
    h.legal.snoc (.begun ⟨position⟩ _ (by show position < _; omega) hhalt hbefore hclear
      (h.tracks.ledger.pending.symm.trans hpending))
  have henter : stage.state.entering .begin = .ok .began := by
    rw [hcreated]
    rfl
  obtain ⟨inner, block, hinvoked⟩ := invoke_invoked none hw.toPlaced hw.bound henter rfl
    (deliver_calm n) (.inl rfl) (.inl rfl) h.tracks hpending hcalled (by omega) h.waits.2
  generalize invoke (deliver n) stage rest chain .begin none none = begun at hinvoked ⊢
  generalize (none : Option BoundParameters).getD stage.bound = parameters at hinvoked
  have hgrown := hinvoked.grown
  refine ⟨hinvoked.tracks, hinvoked.legal_once (by decide) hclear, ⟨_, hgrown,
    fun e he => (hinvoked.opening he).1, fun k hk e he => (hinvoked.opening he).2 k hk⟩,
    ⟨⟨hinvoked.placed (by decide) hw.toPlaced, ?_, hinvoked.clear hw.clear (by decide) (by simp),
      hinvoked.bound hw.bound⟩, ?_⟩, hinvoked.waits, ?_, ?_, ?_⟩
  · rw [hinvoked.input, hw.slot]
  · rw [hinvoked.input, hw.opened]
  · have hmem : .called ⟨position⟩ .begin parameters none ∈ begun.chain.journal := by
      rw [hgrown]
      simp
    exact Journal.ne_created_of_begun hmem
  · -- The command does not process while it begins.
    have hbegan := hw.toPlaced.state_called henter parameters none
    rw [← Journal.state_append_of_spares fun e he =>
      (hinvoked.within e he).spares (Nat.lt_succ_self position)] at hbegan
    rw [hinvoked.journal, Journal.state_append, hbegan]
    rcases hinvoked.outcome with ⟨p, -, rfl⟩ | ⟨result, completed, -, hblock, -⟩
    · exact CommandState.noConfusion
    · cases hblock <;> simp [CommandState.after, CommandState.becomeIfAllowed,
        CommandState.canBecome]
  · rcases hinvoked.outcome with ⟨p, hout, -⟩ | ⟨result, completed, hout, hblock, -⟩
    · exact .inl ⟨p, hout⟩
    · refine .inr ⟨completed, hout, ?_⟩
      rw [hinvoked.journal]
      exact List.mem_append_right _ hblock.settled_mem

/-- The commands from a position on have begun, as far as that went. -/
structure Setting.Begun (set : Setting) (position : Nat) (journal : List Event) {n : Nat}
    (ran : Ran n) : Prop where
  tracks : set.Tracks ran.chain
  legal : Legal set [] ran.chain.journal
  grown : ∃ block, ran.chain.journal = journal ++ block ∧ ∀ e ∈ block, e.Opening position
  waits : ran.stages.Holds (Stage.Waits set ran.chain.journal) position
  fresh : Journal.state ran.chain.journal ⟨position⟩ ≠ .processing
  flowing : ran.outcome = .ok () → set.isHalted ran.chain.journal = true ∨
    ∀ k, position ≤ k → k < set.commands.length →
      Journal.state ran.chain.journal ⟨k⟩ = .created →
        ∃ j < k, .settled ⟨j⟩ .begin false ∈ ran.chain.journal

/-- A command that has begun stands before those that begin after it. -/
theorem Setting.Begun.cons {begun : Settled n} {later : Ran n}
    (h : set.Begun (position + 1) begun.chain.journal later)
    (hbegan : set.Began position journal begun) :
    set.Begun position journal ⟨later.outcome, .cons begun.stage later.stages, later.chain⟩ := by
  obtain ⟨block, hgrown, hopening, -⟩ := hbegan.grown
  obtain ⟨block', hgrown', hopening'⟩ := h.grown
  have hspares : ∀ e ∈ block', e.Spares ⟨position⟩ := fun e he =>
    (hopening' e he).1.spares (Nat.lt_succ_self position)
  refine ⟨h.tracks, h.legal, ⟨block ++ block', ?_, fun e he => ?_⟩, ⟨?_, h.waits⟩, ?_, fun hok => ?_⟩
  · rw [hgrown', hgrown, List.append_assoc]
  · rcases List.mem_append.mp he with he | he
    · exact hopening e he
    · exact ⟨(hopening' e he).1.mono (Nat.le_succ _), (hopening' e he).2⟩
  · rw [hgrown']
    exact hbegan.stage.append_opening hopening' (Nat.lt_succ_self _)
  · rw [hgrown']
    show Journal.state _ ⟨position⟩ ≠ _
    rw [Journal.state_append_of_spares hspares]
    exact hbegan.fresh
  · refine (h.flowing hok).imp_right fun hflowing k hk hlt hstate => ?_
    rcases Nat.eq_or_lt_of_le hk with rfl | hk
    · rw [hgrown'] at hstate
      exact absurd (Journal.created_of_append hstate) hbegan.started
    · exact hflowing k hk hlt hstate

/-- Commands begin in turn, each only if those before it completed that. -/
theorem beginAll_begun (n : Nat) : ∀ (position : Nat) (stages : Stages n) (chain : Chain),
    set.Steady position chain.journal stages chain → chain.pendingStop = none →
    (∀ j < position, .settled ⟨j⟩ .begin true ∈ chain.journal) →
    (∀ k, position ≤ k → Journal.Clear chain.journal ⟨k⟩ .begin) →
    set.Begun position chain.journal (beginAll n stages chain) := by
  induction n with
  | zero =>
    intro position stages chain h _ _ hclear
    cases stages
    refine ⟨h.tracks, h.legal, ⟨[], by simp [beginAll], by simp⟩, trivial, ?_, fun _ => .inr ?_⟩
    · show Journal.state chain.journal ⟨position⟩ ≠ _
      rw [Journal.created_of_clear (hclear position (Nat.le_refl _))]
      exact CommandState.noConfusion
    · have := h.count
      intro k hk hlt
      omega
  | succ n ih =>
    intro position stages chain h hpending hbefore hclear
    cases stages with
    | cons stage rest =>
    unfold beginAll
    by_cases hhalt : chain.isHalted = true
    · simp only [hhalt, if_true]
      refine ⟨h.tracks, h.legal, ⟨[], by simp, by simp⟩, h.waits, ?_, fun _ => .inl ?_⟩
      · rw [Journal.created_of_clear (hclear position (Nat.le_refl _))]
        exact CommandState.noConfusion
      · rw [← h.tracks.halted, hhalt]
    simp only [hhalt, Bool.false_eq_true, if_false]
    rw [h.tracks.halted, Bool.not_eq_true] at hhalt
    have hbegan := invoke_began h hpending hhalt hbefore (hclear position (Nat.le_refl _))
    have hcalm : ∀ result, (invoke (deliver n) stage rest chain .begin none none).outcome
        = .ok result → _ := fun _ => invoke_calm (deliver_calm n) stage rest .begin none none hpending
    generalize invoke (deliver n) stage rest chain .begin none none = begun at hbegan hcalm ⊢
    obtain ⟨block, hgrown, hopening, hother⟩ := hbegan.grown
    rcases hbegan.outcome with ⟨p, hout⟩ | ⟨completed, hout, hsettled⟩
    · simp only [hout]
      exact ⟨hbegan.tracks, hbegan.legal, ⟨block, hgrown, hopening⟩, ⟨hbegan.stage, hbegan.rest⟩,
        hbegan.fresh, by simp⟩
    cases completed with
    | false =>
      -- The commands behind this one never begin.
      simp only [hout, Bool.false_eq_true, if_false]
      refine ⟨hbegan.tracks, hbegan.legal, ⟨block, hgrown, hopening⟩, ⟨hbegan.stage, hbegan.rest⟩,
        hbegan.fresh, fun _ => .inr fun k hk _ hstate => ?_⟩
      rcases Nat.eq_or_lt_of_le hk with rfl | hlt
      · exact absurd hstate hbegan.started
      · exact ⟨position, hlt, hsettled⟩
    | true =>
      simp only [hout, if_true]
      have hcount := h.count
      refine Setting.Begun.cons (ih (position + 1) begun.rest begun.chain
        ⟨hbegan.tracks, hbegan.legal, ⟨[], by simp, by simp⟩, by omega, hbegan.rest⟩
        (hcalm _ hout) ?_ ?_) hbegan
      · intro j hj
        rcases Nat.lt_succ_iff_lt_or_eq.mp hj with hj | rfl
        · rw [hgrown]
          exact List.mem_append_left _ (hbefore j hj)
        · exact hsettled
      · intro k hk
        rw [hgrown, Journal.clear_append]
        exact ⟨hclear k (by omega), hother k (by omega)⟩

end CommandChain
