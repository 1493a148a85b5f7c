import CommandChain.Proofs.Conduct.Run
import CommandChain.Proofs.Silencing.Delivery
/-!
# Whole runs under quieter preferences

What holds of deliveries holds of the steps of a run, of its end and of the release of the commands. Once
the commands are bound, each runs under its own preferences, those of the chain overlaid by its common
parameters; where they cannot be bound none of them is called, and what their preferences are matters no
more.
-/

namespace CommandChain

variable {preferences : CommandId → Preferences} {n : Nat}

/-- Two steps of a run ended in the same way and left what is related. -/
structure Ran.Hushed (preferences : CommandId → Preferences) {n : Nat} (ran ran' : Ran n) : Prop where
  outcome : ran'.outcome = ran.outcome
  stages : ran.stages.Hushed preferences ran'.stages
  chain : ran.chain.Hushed preferences ran'.chain

/-- Two runs ended in the same way and left stages that are alike and related chains. -/
structure Ran.Alike (preferences : CommandId → Preferences) {n : Nat} (ran ran' : Ran n) : Prop where
  outcome : ran'.outcome = ran.outcome
  stages : List.Forall₂ Stage.Alike ran.stages.toList ran'.stages.toList
  chain : ran.chain.Hushed preferences ran'.chain

/-- Related steps of two runs leave stages that are alike. -/
theorem Ran.Hushed.alike {ran ran' : Ran n} (h : ran.Hushed preferences ran') :
    ran.Alike preferences ran' :=
  ⟨h.outcome, h.stages.imp fun _ _ => Stage.Hushed.alike, h.chain⟩

/-! ## Binding -/

/-- The arguments of a command are bound alike, whatever its preferences are. -/
theorem Stage.Alike.bindStatically {stage stage' : Stage} (h : stage.Alike stage') (adapter : Adapter)
    (expectsInput : Bool) :
    (∃ e, stage.bindStatically adapter expectsInput = .error e
        ∧ stage'.bindStatically adapter expectsInput = .error e)
      ∨ ∃ bound bound', stage.bindStatically adapter expectsInput = .ok bound
        ∧ stage'.bindStatically adapter expectsInput = .ok bound' ∧ bound.Alike bound' := by
  obtain ⟨q, rfl, hquieter, hignores⟩ := h
  have hbinder : Stage.binder { stage with preferences := q } adapter = stage.binder adapter := rfl
  unfold Stage.bindStatically
  simp only [hbinder]
  cases (stage.binder adapter).bindArguments stage.arguments expectsInput with
  | error e => exact .inl ⟨e, rfl, rfl⟩
  | ok bound =>
    cases hoverlay : stage.preferences.overlay bound with
    | error e =>
      simp only [hoverlay, Preferences.overlay_error hoverlay q]
      exact .inl ⟨e, rfl, rfl⟩
    | ok p' =>
      obtain ⟨q', hq', hquieter'⟩ := hquieter.overlay hoverlay
      simp only [hoverlay, hq']
      exact .inr ⟨_, _, rfl, rfl, q', rfl, hquieter', hignores⟩

/-- Parameters are bound alike under both preferences. -/
theorem bindAll_alike (hostInput : Bool) {stages stages' : Stages n}
    (h : List.Forall₂ Stage.Alike stages.toList stages'.toList) {chain chain' : Chain}
    (hchain : chain.Hushed preferences chain') :
    List.Forall₂ Stage.Alike (bindAll hostInput stages chain).1.toList
        (bindAll hostInput stages' chain').1.toList
      ∧ (bindAll hostInput stages chain).2.Hushed preferences (bindAll hostInput stages' chain').2 := by
  induction stages with
  | nil =>
    cases stages'
    exact ⟨.nil, hchain⟩
  | cons stage rest ih =>
    cases stages' with
    | cons stage' rest' =>
    obtain ⟨hstage, hrest⟩ := List.forall₂_cons.mp h
    have hposition : stage'.position = stage.position := by
      obtain ⟨q, rfl, -⟩ := hstage
      rfl
    unfold bindAll
    rw [hchain.adapter_eq, hposition]
    rcases hstage.bindStatically chain.adapter (stage.position != 0 || hostInput) with
      ⟨e, he, he'⟩ | ⟨bound, bound', hbound, hbound', halike⟩
    · rw [he, he']
      have hfailed := hstage.fail chain chain' { e.toRecord with phase := some .bind }
      exact ⟨.cons hfailed hrest, hchain.fail hstage _⟩
    · rw [hbound, hbound']
      obtain ⟨hlater, hleft⟩ := ih hrest
      exact ⟨.cons halike hlater, hleft⟩

/-! ## The steps of a run -/

theorem beginAll_hushed (n : Nat) {stages stages' : Stages n} (h : stages.Hushed preferences stages')
    {chain chain' : Chain} (hchain : chain.Hushed preferences chain') :
    (beginAll n stages chain).Hushed preferences (beginAll n stages' chain') := by
  induction n generalizing chain chain' with
  | zero =>
    cases stages
    cases stages'
    exact ⟨rfl, h, hchain⟩
  | succ n ih =>
    cases stages with
    | cons stage rest =>
    cases stages' with
    | cons stage' rest' =>
    obtain ⟨hstage, hrest⟩ := List.forall₂_cons.mp h
    have hbegun := invoke_hushed (deliver_hushes n) hstage hrest hchain .begin none none
    simp only [beginAll, hchain.isHalted_eq]
    generalize invoke (deliver n) stage rest chain .begin none none = begun at hbegun ⊢
    generalize invoke (deliver n) stage' rest' chain' .begin none none = begun' at hbegun ⊢
    rw [hbegun.outcome]
    split
    · exact ⟨rfl, h, hchain⟩
    · split
      · exact ⟨rfl, .cons hbegun.stage hbegun.rest, hbegun.chain⟩
      · have hlater := ih hbegun.rest hbegun.chain
        exact ⟨hlater.outcome, .cons hbegun.stage hlater.stages, hlater.chain⟩
      · exact ⟨rfl, .cons hbegun.stage hbegun.rest, hbegun.chain⟩

theorem feedObjects_hushed (values : List Value) {stages stages' : Stages n}
    (h : stages.Hushed preferences stages') {chain chain' : Chain}
    (hchain : chain.Hushed preferences chain') :
    (feedObjects values stages chain).Hushed preferences (feedObjects values stages' chain') := by
  induction values generalizing stages stages' chain chain' with
  | nil => exact ⟨rfl, h, hchain⟩
  | cons v values ih =>
    have hcut : chain'.inputCut = chain.inputCut := by
      obtain ⟨live, shown, rfl⟩ := hchain
      rfl
    obtain ⟨hsame, hemit⟩ := (hchain.log (e := .feeding v) rfl).emit (.object v) .host
    unfold feedObjects
    simp only [hchain.isHalted_eq, hcut, hsame]
    split
    · exact ⟨rfl, h, hchain⟩
    · have hpushed := deliver_hushes n stages stages' _ _
        ((chain.log (.feeding v)).emit (.object v) .host).1 rfl h hemit
      generalize deliver n stages _ _ = pushed at hpushed ⊢
      generalize deliver n stages' _ _ = pushed' at hpushed ⊢
      rw [hpushed.outcome]
      cases pushed.outcome with
      | error p => exact ⟨rfl, hpushed.stages, hpushed.chain⟩
      | ok result => exact ih hpushed.stages hpushed.chain

theorem processHead_hushed {stages stages' : Stages n} (h : stages.Hushed preferences stages')
    {chain chain' : Chain} (hchain : chain.Hushed preferences chain') :
    (processHead stages chain).Hushed preferences (processHead stages' chain') := by
  cases stages with
  | nil =>
    cases stages'
    exact ⟨rfl, h, hchain⟩
  | cons stage rest =>
    cases stages' with
    | cons stage' rest' =>
    obtain ⟨hstage, hrest⟩ := List.forall₂_cons.mp h
    have hran := invoke_hushed (deliver_hushes _) hstage hrest hchain .process none none
    have houtcome := congrArg (Except.map fun _ : CallResult => ()) hran.outcome
    exact ⟨houtcome, .cons hran.stage hran.rest, hran.chain⟩

theorem Stage.Hushed.close {stage stage' : Stage} (h : stage.Hushed preferences stage') :
    Stage.Hushed preferences { stage with input := stage.input.close }
      { stage' with input := stage'.input.close } := by
  rw [h.input_eq]
  exact h.takes _

/-- Closing the first pipe keeps two rows related. -/
theorem Stages.Hushed.closeFirst {stages stages' : Stages n} (h : stages.Hushed preferences stages') :
    stages.closeFirst.Hushed preferences stages'.closeFirst := by
  cases stages with
  | nil =>
    cases stages'
    exact h
  | cons stage rest =>
    cases stages' with
    | cons stage' rest' =>
    obtain ⟨hstage, hrest⟩ := List.forall₂_cons.mp h
    exact .cons hstage.close hrest

/-- Closing the first pipe keeps two runs related. -/
theorem Ran.Hushed.closeFirst {fed fed' : Ran n} (h : fed.Hushed preferences fed') :
    fed.closeFirst.Hushed preferences fed'.closeFirst := by
  unfold Ran.closeFirst
  rw [h.outcome]
  split
  · exact ⟨rfl, h.stages, h.chain⟩
  · exact ⟨rfl, h.stages.closeFirst, h.chain⟩

theorem feedHead_hushed (input : Option (List Value)) {stages stages' : Stages n}
    (h : stages.Hushed preferences stages') {chain chain' : Chain}
    (hchain : chain.Hushed preferences chain') :
    (feedHead input stages chain).Hushed preferences (feedHead input stages' chain') := by
  cases input with
  | some values =>
    rw [feedHead_some, feedHead_some, hchain.isHalted_eq]
    split
    · exact ⟨rfl, h, hchain⟩
    · exact (feedObjects_hushed values h hchain).closeFirst
  | none =>
    rw [feedHead_none, feedHead_none, hchain.isHalted_eq]
    split
    · exact ⟨rfl, h, hchain⟩
    · exact (processHead_hushed h hchain).closeFirst

section

variable {push : Push n} {stage stage' : Stage} {rest rest' : Stages n} {chain chain' : Chain}

theorem drain_hushed (hpush : push.Hushes preferences) (hstage : stage.Hushed preferences stage')
    (hrest : rest.Hushed preferences rest') (hchain : chain.Hushed preferences chain') :
    (drain push stage rest chain).Hushed preferences (drain push stage' rest' chain') := by
  unfold drain
  simp only [hchain.isHalted_eq, hstage.input_eq]
  rcases stage.input.take chain.isHalted with ⟨read, pipe⟩
  cases read with
  | record r =>
    have hsettled := processRecord_hushed hpush (hstage.takes pipe) hrest hchain r
    simp only
    generalize processRecord push { stage with input := pipe } rest chain r = settled at hsettled ⊢
    generalize processRecord push { stage' with input := pipe } rest' chain' r = settled'
      at hsettled ⊢
    rw [hsettled.outcome, hsettled.chain.isHalted_eq]
    split
    · split
      · exact hsettled
      · exact ⟨rfl, hsettled.stage.close, hsettled.rest, hsettled.chain⟩
    · exact hsettled
  | empty => exact ⟨rfl, hstage.takes pipe.close, hrest, hchain⟩
  | endOfInput => exact ⟨rfl, hstage.takes pipe, hrest, hchain⟩

theorem processOnce_hushed (hpush : push.Hushes preferences)
    (hstage : stage.Hushed preferences stage') (hrest : rest.Hushed preferences rest')
    (hchain : chain.Hushed preferences chain') :
    (processOnce push stage rest chain).Hushed preferences
      (processOnce push stage' rest' chain') := by
  have hsame : stage'.acceptsInput = stage.acceptsInput ∧ stage'.state = stage.state := by
    rw [hstage.1]
    exact ⟨rfl, rfl⟩
  unfold processOnce
  simp only [hsame]
  split
  · exact invoke_hushed hpush hstage hrest hchain .process none none
  · exact ⟨rfl, hstage, hrest, hchain⟩

theorem finishStage_hushed (hpush : push.Hushes preferences)
    (hstage : stage.Hushed preferences stage') (hrest : rest.Hushed preferences rest')
    (hchain : chain.Hushed preferences chain') :
    (finishStage push stage rest chain).Hushed preferences
      (finishStage push stage' rest' chain') := by
  unfold finishStage
  simp only [hstage.alike.state_eq]
  split
  · have hsettled := invoke_hushed hpush hstage hrest hchain .finish none none
    generalize invoke push stage rest chain .finish none none = settled at hsettled ⊢
    generalize invoke push stage' rest' chain' .finish none none = settled' at hsettled ⊢
    rw [hsettled.outcome]
    split
    · refine ⟨rfl, ?_, hsettled.rest, hsettled.chain⟩
      rw [hsettled.stage.alike.state_eq]
      exact hsettled.stage.become _
    · exact hsettled
  · exact ⟨rfl, hstage, hrest, hchain⟩

theorem completeStage_hushed (hpush : push.Hushes preferences)
    (hstage : stage.Hushed preferences stage') (hrest : rest.Hushed preferences rest')
    (hchain : chain.Hushed preferences chain') :
    (completeStage push stage rest chain).Hushed preferences
      (completeStage push stage' rest' chain') := by
  have hdrained := drain_hushed hpush hstage hrest hchain
  unfold completeStage
  simp only
  generalize drain push stage rest chain = drained at hdrained ⊢
  generalize drain push stage' rest' chain' = drained' at hdrained ⊢
  have honce := processOnce_hushed hpush hdrained.stage hdrained.rest hdrained.chain
  generalize processOnce push drained.stage drained.rest drained.chain = once at honce ⊢
  generalize processOnce push drained'.stage drained'.rest drained'.chain = once' at honce ⊢
  have hfinished := finishStage_hushed hpush honce.stage honce.rest honce.chain
  rw [hdrained.outcome, hdrained.chain.isHalted_eq, honce.outcome, honce.chain.isHalted_eq]
  split
  · exact hdrained
  · split
    · exact hdrained
    · split
      · exact honce
      · exact hfinished
      · split
        · exact honce
        · exact hfinished

end

theorem endWave_hushed (n : Nat) {stages stages' : Stages n} (h : stages.Hushed preferences stages')
    {chain chain' : Chain} (hchain : chain.Hushed preferences chain') :
    (endWave n stages chain).Hushed preferences (endWave n stages' chain') := by
  induction n generalizing chain chain' with
  | zero =>
    cases stages
    cases stages'
    exact ⟨rfl, h, hchain⟩
  | succ n ih =>
    cases stages with
    | cons stage rest =>
    cases stages' with
    | cons stage' rest' =>
    obtain ⟨hstage, hrest⟩ := List.forall₂_cons.mp h
    have hcut : chain'.isCut stage'.position = chain.isCut stage.position := by
      rw [hstage.1]
      obtain ⟨live, shown, rfl⟩ := hchain
      rfl
    have hended := completeStage_hushed (deliver_hushes n) hstage hrest hchain
    simp only [endWave, hchain.isHalted_eq, hcut]
    generalize completeStage (deliver n) stage rest chain = ended at hended ⊢
    generalize completeStage (deliver n) stage' rest' chain' = ended' at hended ⊢
    rw [hended.outcome]
    split
    · exact ⟨rfl, h, hchain⟩
    · split
      · have hlater := ih hrest hchain
        exact ⟨hlater.outcome, .cons hstage hlater.stages, hlater.chain⟩
      · split
        · exact ⟨rfl, .cons hended.stage hended.rest, hended.chain⟩
        · have hlater := ih hended.rest.closeFirst hended.chain
          exact ⟨hlater.outcome, .cons hended.stage hlater.stages, hlater.chain⟩

/-- The stages that were bound run under the preferences that their commands were bound to. -/
theorem Stages.Hushed.of_alike {stages stages' : Stages n}
    (h : List.Forall₂ Stage.Alike stages.toList stages'.toList)
    (hpreferences : ∀ stage' ∈ stages'.toList, stage'.preferences = preferences stage'.id) :
    stages.Hushed preferences stages' := by
  unfold Stages.Hushed
  generalize stages.toList = list at h ⊢
  generalize stages'.toList = list' at h hpreferences ⊢
  induction h with
  | nil => exact .nil
  | @cons stage stage' _ _ hstage _ ih =>
    obtain ⟨hown, hothers⟩ := List.forall_mem_cons.mp hpreferences
    obtain ⟨q, rfl, hquieter, hignores⟩ := hstage
    obtain rfl : q = preferences stage.id := hown
    exact .cons ⟨rfl, hquieter, hignores⟩ (ih hothers)

/-- The steps of a run end in the same way under both preferences, if the commands run under them
once bound. -/
theorem Pipeline.steps_alike (input : Option (List Value)) {stages stages' : Stages n}
    (h : List.Forall₂ Stage.Alike stages.toList stages'.toList) {chain chain' : Chain}
    (hchain : chain.Hushed preferences chain')
    (hbound : (bindAll input.isSome stages' chain').2.isHalted = true
      ∨ ∀ stage' ∈ (bindAll input.isSome stages' chain').1.toList,
        stage'.preferences = preferences stage'.id) :
    (steps input stages chain).Alike preferences (steps input stages' chain') := by
  obtain ⟨halike, hleft⟩ := bindAll_alike input.isSome h hchain
  rcases hbound with hhalted | hpreferences
  · rw [steps_of_halted hhalted, steps_of_halted (hleft.isHalted_eq.symm.trans hhalted)]
    exact ⟨rfl, halike, hleft⟩
  · refine Ran.Hushed.alike ?_
    unfold steps
    generalize bindAll input.isSome stages chain = bound at halike hleft ⊢
    generalize bindAll input.isSome stages' chain' = bound' at halike hleft hpreferences ⊢
    obtain ⟨stages, chain⟩ := bound
    obtain ⟨stages', chain'⟩ := bound'
    have hbegun := beginAll_hushed n (.of_alike halike hpreferences) hleft
    simp only
    generalize beginAll n stages chain = begun at hbegun ⊢
    generalize beginAll n stages' chain' = begun' at hbegun ⊢
    have hfed := feedHead_hushed input hbegun.stages hbegun.chain
    generalize feedHead input begun.stages begun.chain = fed at hfed ⊢
    generalize feedHead input begun'.stages begun'.chain = fed' at hfed ⊢
    rw [hbegun.outcome, hfed.outcome]
    split
    · exact hbegun
    · split
      · exact hfed
      · exact endWave_hushed n hfed.stages hfed.chain

end CommandChain
