import CommandChain.Proofs.Conduct.Whole
import CommandChain.Proofs.Silencing.Run
/-!
# Silencing changes nothing else

When some channels are silenced in the preferences of a chain, the messages on them are missing from the
outcome where no common parameter of their command says otherwise. Nothing else differs, as long as no
command looks at its preferences: the commands get the same calls with the same parameters, the run ends
in the same way, and the other records are the same, each with its number.
-/

namespace CommandChain

variable {preferences : CommandId → Preferences}

/-! ## The end of a run -/

section

variable {stage stage' : Stage} {chain chain' : Chain}

/-- A command is told to stop alike under quieter preferences. -/
theorem Stage.Alike.callStop (h : stage.Alike stage') (hchain : chain.Hushed preferences chain') :
    (stage'.callStop chain').1 = (stage.callStop chain).1
      ∧ (stage.callStop chain).2.1.Alike (stage'.callStop chain').2.1
      ∧ (stage.callStop chain).2.2.Hushed preferences (stage'.callStop chain').2.2 := by
  obtain ⟨q, rfl, hquieter, hignores⟩ := h
  unfold Stage.callStop
  dsimp only
  rw [hchain.flags_eq]
  refine ⟨rfl, ⟨q, rfl, hquieter, hignores⟩, ?_⟩
  exact ((hchain.log (e := .stopping stage.id) rfl).noteAll _).signalAll _

/-- A command is disposed of alike under quieter preferences. -/
theorem Stage.Alike.callDispose (h : stage.Alike stage') (hchain : chain.Hushed preferences chain') :
    (stage'.callDispose chain').1 = (stage.callDispose chain).1
      ∧ (stage.callDispose chain).2.1.Alike (stage'.callDispose chain').2.1
      ∧ (stage.callDispose chain).2.2.Hushed preferences (stage'.callDispose chain').2.2 := by
  obtain ⟨q, rfl, hquieter, hignores⟩ := h
  unfold Stage.callDispose
  dsimp only
  rw [hchain.flags_eq]
  refine ⟨rfl, ⟨q, rfl, hquieter, hignores⟩, ?_⟩
  exact ((hchain.log (e := .disposing stage.id) rfl).noteAll _).signalAll _

/-- The disposal of a command comes to the same under quieter preferences. -/
theorem Stage.Alike.disposeOf (h : stage.Alike stage') (hchain : chain.Hushed preferences chain') :
    (Stage.release.disposeOf stage' chain').1 = (Stage.release.disposeOf stage chain).1
      ∧ (Stage.release.disposeOf stage chain).2.1.Alike (Stage.release.disposeOf stage' chain').2.1
      ∧ (Stage.release.disposeOf stage chain).2.2.Hushed preferences
        (Stage.release.disposeOf stage' chain').2.2 := by
  obtain ⟨hresult, halike, hleft⟩ := h.callDispose hchain
  unfold Stage.release.disposeOf
  generalize stage.callDispose chain = disposed at hresult halike hleft ⊢
  generalize stage'.callDispose chain' = disposed' at hresult halike hleft ⊢
  obtain ⟨result, stage, chain⟩ := disposed
  obtain ⟨result', stage', chain'⟩ := disposed'
  simp only at hresult halike hleft
  subst hresult
  cases result' with
  | error p => exact ⟨rfl, halike, hleft⟩
  | ok fault =>
    simp only [halike.state_eq]
    cases stage.state.become .disposed with
    | error e => exact ⟨rfl, halike, hleft⟩
    | ok state =>
      cases fault with
      | some f => exact ⟨rfl, halike.become state, hleft⟩
      | none => exact ⟨rfl, halike.become state, hleft⟩

/-- The release of a command comes to the same under quieter preferences. -/
theorem Stage.Alike.release (h : stage.Alike stage') (hchain : chain.Hushed preferences chain') :
    (stage'.release chain').1 = (stage.release chain).1
      ∧ (stage.release chain).2.1.Alike (stage'.release chain').2.1
      ∧ (stage.release chain).2.2.Hushed preferences (stage'.release chain').2.2 := by
  unfold Stage.release
  rw [h.state_eq]
  split
  · obtain ⟨hresult, halike, hleft⟩ := h.callStop hchain
    generalize stage.callStop chain = told at hresult halike hleft ⊢
    generalize stage'.callStop chain' = told' at hresult halike hleft ⊢
    obtain ⟨result, stage, chain⟩ := told
    obtain ⟨result', stage', chain'⟩ := told'
    simp only at hresult halike hleft
    subst hresult
    cases result' with
    | error p => exact ⟨rfl, halike, hleft⟩
    | ok _ => exact (halike.become .stopped).disposeOf hleft
  · exact h.disposeOf hchain

end

section

variable {stages stages' : List Stage} {chain chain' : Chain}

/-- The running commands are told to stop alike under quieter preferences. -/
theorem stopRunning_alike (h : List.Forall₂ Stage.Alike stages stages')
    (hchain : chain.Hushed preferences chain') :
    (stopRunning stages' chain').1 = (stopRunning stages chain).1
      ∧ List.Forall₂ Stage.Alike (stopRunning stages chain).2.1 (stopRunning stages' chain').2.1
      ∧ (stopRunning stages chain).2.2.Hushed preferences (stopRunning stages' chain').2.2 := by
  induction h generalizing chain chain' with
  | nil => exact ⟨rfl, .nil, hchain⟩
  | @cons stage stage' rest rest' hstage hrest ih =>
    have hclosed : Stage.Alike { stage with input := stage.input.close }
        { stage' with input := stage'.input.close } := by
      obtain ⟨q, rfl, hquieter, hignores⟩ := hstage
      exact ⟨q, rfl, hquieter, hignores⟩
    unfold stopRunning
    by_cases hrunning : stage.state.isRunning = true
    · have hrunning' : stage'.state.isRunning = true := by rwa [hstage.state_eq]
      obtain ⟨hresult, halike, hleft⟩ := hclosed.callStop hchain
      simp only [hrunning, hrunning', if_true]
      generalize Stage.callStop { stage with input := stage.input.close } chain = told
        at hresult halike hleft ⊢
      generalize Stage.callStop { stage' with input := stage'.input.close } chain' = told'
        at hresult halike hleft ⊢
      obtain ⟨result, stage, chain⟩ := told
      obtain ⟨result', stage', chain'⟩ := told'
      simp only at hresult halike hleft
      subst hresult
      cases result' with
      | error p => exact ⟨rfl, .cons halike hrest, hleft⟩
      | ok _ =>
        obtain ⟨houtcome, hlater, hend⟩ := ih hleft
        refine ⟨houtcome, .cons ?_ hlater, hend⟩
        rw [halike.state_eq]
        exact halike.become _
    · have hrunning' : ¬ stage'.state.isRunning = true := by rwa [hstage.state_eq]
      simp only [hrunning, hrunning']
      obtain ⟨houtcome, hlater, hend⟩ := ih hchain
      exact ⟨houtcome, .cons hclosed hlater, hend⟩

/-- Two rounds of releases went in the same way. -/
theorem releaseAll_alike (manager : DisposalManager) (h : List.Forall₂ Stage.Alike stages stages')
    (hchain : chain.Hushed preferences chain') :
    (manager.releaseAll Stage.releasable chain' stages').faults
        = (manager.releaseAll Stage.releasable chain stages).faults
      ∧ (manager.releaseAll Stage.releasable chain' stages').manager
        = (manager.releaseAll Stage.releasable chain stages).manager
      ∧ List.Forall₂ Stage.Alike (manager.releaseAll Stage.releasable chain stages).items
        (manager.releaseAll Stage.releasable chain' stages').items
      ∧ (manager.releaseAll Stage.releasable chain stages).surroundings.Hushed preferences
        (manager.releaseAll Stage.releasable chain' stages').surroundings := by
  induction h with
  | nil => exact ⟨rfl, rfl, .nil, hchain⟩
  | @cons stage stage' rest rest' hstage _ ih =>
    obtain ⟨hfaults, hmanager, hitems, hleft⟩ := ih
    -- What is due is read off states and names, in which the runs agree.
    have hsame : (manager.releaseAll Stage.releasable chain' rest').manager.isDue Stage.releasable stage'
        = (manager.releaseAll Stage.releasable chain rest).manager.isDue Stage.releasable stage := by
      rw [hmanager]
      unfold DisposalManager.isDue Stage.releasable
      dsimp only
      rw [hstage.state_eq, hstage.id_eq]
    by_cases hdue : (manager.releaseAll Stage.releasable chain rest).manager.isDue Stage.releasable stage
        = true
    · rw [manager.releaseAll_cons_of_due Stage.releasable chain hdue,
        manager.releaseAll_cons_of_due Stage.releasable chain' (hsame.trans hdue)]
      generalize manager.releaseAll Stage.releasable chain rest = later at hfaults hmanager hitems hleft ⊢
      generalize manager.releaseAll Stage.releasable chain' rest' = later'
        at hfaults hmanager hitems hleft ⊢
      obtain ⟨hresult, halike, hend⟩ := hstage.release hleft
      refine ⟨?_, ?_, .cons halike hitems, hend⟩
      · show later'.faults ++ ((stage'.release later'.surroundings).1.error?.map
            (CleanupFault.mk stage'.id)).toList
          = later.faults ++ ((stage.release later.surroundings).1.error?.map
            (CleanupFault.mk stage.id)).toList
        rw [hresult, hfaults, hstage.id_eq]
      · show DisposalManager.mk (later'.manager.attempted ++ [stage'.id])
          = ⟨later.manager.attempted ++ [stage.id]⟩
        rw [hmanager, hstage.id_eq]
    · rw [manager.releaseAll_cons_of_not_due Stage.releasable chain hdue,
        manager.releaseAll_cons_of_not_due Stage.releasable chain' (hsame ▸ hdue)]
      exact ⟨hfaults, hmanager, .cons hstage hitems, hleft⟩

end

/-- Two pipelines are at the same point. -/
structure Pipeline.Alike (preferences : CommandId → Preferences) (p p' : Pipeline) : Prop where
  stages : List.Forall₂ Stage.Alike p.stages p'.stages
  chain : p.chain.Hushed preferences p'.chain
  disposal : p'.disposal = p.disposal

/-- The outcome without the records that are kept from the host. -/
def Outcome.hush (preferences : CommandId → Preferences) (o : Outcome) : Outcome :=
  { o with records := o.records.filter (Record.isHeard preferences) }

/-- Two results that each lack what is kept from the host in the other are the same. -/
theorem Outcome.eq_of_hush {hushed hushed' : CommandId → Preferences}
    {result result' : Except Panic Outcome} (h : result' = result.map (Outcome.hush hushed))
    (h' : result = result'.map (Outcome.hush hushed')) : result' = result := by
  cases result with
  | error p => exact h
  | ok o =>
    obtain rfl : result' = .ok (o.hush hushed) := h
    have hback : o = (o.hush hushed).hush hushed' := Except.ok.inj h'
    have hrecords : (o.hush hushed).records = o.records := by
      have hsub : (o.hush hushed).records.Sublist o.records := List.filter_sublist
      refine hsub.antisymm ?_
      conv_lhs => rw [hback]
      exact List.filter_sublist
    show Except.ok (Outcome.mk o.status (o.hush hushed).records o.terminalFault) = .ok o
    rw [hrecords]

namespace Pipeline.Alike

variable {p p' : Pipeline}

theorem releaseAll (h : p.Alike preferences p') :
    p'.releaseAll.1 = p.releaseAll.1 ∧ p.releaseAll.2.Alike preferences p'.releaseAll.2 := by
  obtain ⟨hfaults, hmanager, hitems, hleft⟩ := releaseAll_alike p.disposal h.stages h.chain
  unfold Pipeline.releaseAll
  rw [h.disposal]
  exact ⟨hfaults, hitems, hleft, hmanager⟩

theorem sourceOf_eq (h : p.Alike preferences p') (id : CommandId) : p'.sourceOf id = p.sourceOf id := by
  have hfound {stages stages' : List Stage} (hstages : List.Forall₂ Stage.Alike stages stages') :
      (stages'.find? (·.id == id)).map Stage.source = (stages.find? (·.id == id)).map Stage.source := by
    induction hstages with
    | nil => rfl
    | cons hstage _ ih =>
      rw [List.find?_cons, List.find?_cons, hstage.id_eq]
      split
      · exact congrArg some hstage.source_eq
      · exact ih
  have hsource (p : Pipeline) :
      p.sourceOf id = ((p.stages.find? (·.id == id)).map Stage.source).getD .host := by
    unfold sourceOf
    cases p.stages.find? (·.id == id) <;> rfl
  rw [hsource, hsource, hfound h.stages]

theorem reportCleanup (h : p.Alike preferences p') (faults : List CleanupFault) :
    (p.reportCleanup faults).Alike preferences (p'.reportCleanup faults) := by
  induction faults generalizing p p' with
  | nil => exact h
  | cons fault faults ih =>
    refine ih ⟨h.stages, ?_, h.disposal⟩
    rw [h.sourceOf_eq]
    exact h.chain.emitError _ _

/-- The outcome of the quieter pipeline is that of the other without what is kept from the host. -/
theorem outcome_eq (h : p.Alike preferences p') : p'.outcome = p.outcome.hush preferences := by
  obtain ⟨live, shown, hchain⟩ := h.chain
  unfold outcome
  rw [hchain]
  show (⟨_, (p.chain.delivered.filter _).reverse, _⟩ : Outcome) = _
  rw [← List.filter_reverse]
  rfl

/-- A run is completed alike under quieter preferences, but for what is kept from the host. -/
theorem complete (h : p.Alike preferences p') :
    p'.complete.1 = p.complete.1.hush preferences ∧ p.complete.2.Alike preferences p'.complete.2 := by
  obtain ⟨hfaults, hreleased⟩ := h.releaseAll
  have hreported := hreleased.reportCleanup p.releaseAll.1
  have houtcome := hreported.outcome_eq
  unfold Pipeline.complete
  simp only [hfaults]
  refine ⟨houtcome, hreported.stages, ?_, hreported.disposal⟩
  rw [houtcome]
  exact hreported.chain.send _

theorem drop (h : p.Alike preferences p') : p.drop.Alike preferences p'.drop := by
  have hdisposed : p'.stages.all (·.state.isDisposed) = p.stages.all (·.state.isDisposed) := by
    have hstages := h.stages
    generalize p.stages = stages at hstages ⊢
    generalize p'.stages = stages' at hstages ⊢
    induction hstages with
    | nil => rfl
    | cons hstage _ ih => rw [List.all_cons, List.all_cons, ih, hstage.state_eq]
  unfold Pipeline.drop
  rw [hdisposed]
  split
  · exact h
  · exact h.releaseAll.2

end Pipeline.Alike

/-! ## Whole runs -/

namespace Pipeline

/-- Two runs end in the same way, up to the records that are kept from the second host. -/
theorem Alike.run {p p' : Pipeline} (h : p.Alike preferences p') (input : Option (List Value))
    (hbound : ∀ {n : Nat} (row : Stages n), row.toList = p'.stages →
      (bindAll input.isSome row p'.chain).2.isHalted = true
        ∨ ∀ stage ∈ (bindAll input.isSome row p'.chain).1.toList,
          stage.preferences = preferences stage.id) :
    (p'.run input).1 = (p.run input).1.map (Outcome.hush preferences)
      ∧ (p.run input).2.Alike preferences (p'.run input).2 := by
  -- The rows are as long as each other, which their types do not tell.
  obtain ⟨row, hrow⟩ : ∃ row : Stages p.stages.length, row.toList = p'.stages :=
    h.stages.length_eq ▸ ⟨.ofList p'.stages, Stages.toList_ofList _⟩
  have hstages : List.Forall₂ Stage.Alike (Stages.ofList p.stages).toList row.toList := by
    rw [Stages.toList_ofList, hrow]
    exact h.stages
  have hsteps := steps_alike input hstages h.chain (hbound row hrow)
  obtain ⟨houtcome, hlist, hchain⟩ :=
    steps_congr ((Stages.toList_ofList p'.stages).trans hrow.symm) input p'.chain
  have hran : (steps input (.ofList p'.stages) p'.chain).outcome
        = (steps input (.ofList p.stages) p.chain).outcome
      ∧ List.Forall₂ Stage.Alike (steps input (.ofList p.stages) p.chain).stages.toList
        (steps input (.ofList p'.stages) p'.chain).stages.toList
      ∧ (steps input (.ofList p.stages) p.chain).chain.Hushed preferences
        (steps input (.ofList p'.stages) p'.chain).chain := by
    rw [houtcome, hlist, hchain]
    exact ⟨hsteps.outcome, hsteps.stages, hsteps.chain⟩
  unfold Pipeline.run
  generalize steps input (.ofList p.stages) p.chain = ran at hran ⊢
  generalize steps input (.ofList p'.stages) p'.chain = ran' at hran ⊢
  obtain ⟨hsame, halike, hleft⟩ := hran
  dsimp only
  rw [hsame]
  cases ran.outcome with
  | error e => exact ⟨rfl, halike, hleft, h.disposal⟩
  | ok _ =>
    obtain ⟨hstopped, hidle, hend⟩ := stopRunning_alike halike hleft
    simp only
    generalize stopRunning ran.stages.toList ran.chain = stopped at hstopped hidle hend ⊢
    generalize stopRunning ran'.stages.toList ran'.chain = stopped' at hstopped hidle hend ⊢
    obtain ⟨outcome, stages, chain⟩ := stopped
    obtain ⟨outcome', stages', chain'⟩ := stopped'
    simp only at hstopped hidle hend
    subst hstopped
    cases outcome' with
    | error e => exact ⟨rfl, hidle, hend, h.disposal⟩
    | ok _ =>
      have hwound : Pipeline.Alike preferences { p with stages := stages, chain := chain }
          { p' with stages := stages', chain := chain' } := ⟨hidle, hend, h.disposal⟩
      obtain ⟨hcomplete, hcompleted⟩ := hwound.complete
      exact ⟨congrArg Except.ok hcomplete, hcompleted⟩

section

variable (settings : ChainSettings) (host : StopToken) (flags : StopFlags)
  (specs : List CommandSpec) (tokens : List StopToken) (input : Option (List Value))

/-- The stages of a chain with quieter preferences are like those of the other, if no command looks
at its preferences. -/
theorem stagesFrom_alike {q : Preferences} (hquieter : settings.preferences.Quieter q)
    (hignores : ∀ spec ∈ specs, spec.command.IgnoresPreferences) (position : Nat) :
    List.Forall₂ Stage.Alike (stagesFrom settings position specs)
      (stagesFrom { settings with preferences := q } position specs) := by
  induction specs generalizing position with
  | nil => exact .nil
  | cons spec rest ih =>
    obtain ⟨hown, hothers⟩ := List.forall_mem_cons.mp hignores
    exact .cons ⟨q, rfl, hquieter, hown⟩ (ih hothers (position + 1))

/-- Where the commands of a pipeline are bound, each runs under the preferences that it was bound to. -/
theorem bound_preferences {n : Nat} (row : Stages n)
    (hrow : row.toList = ((build settings host flags specs).signaled tokens).stages) :
    (bindAll input.isSome row ((build settings host flags specs).signaled tokens).chain).2.isHalted
        = true
      ∨ ∀ stage ∈ (bindAll input.isSome row
          ((build settings host flags specs).signaled tokens).chain).1.toList,
        stage.preferences
          = ((build settings host flags specs).setting input).preferences stage.id := by
  obtain rfl : n = (build settings host flags specs).stages.length := by
    rw [← row.length_toList, hrow]
    rfl
  obtain rfl : row = .ofList (build settings host flags specs).stages :=
    Stages.toList_injective (hrow.trans (Stages.toList_ofList _).symm)
  have hadapter : ((build settings host flags specs).signaled tokens).chain.adapter
      = ((build settings host flags specs).setting input).adapter :=
    (build_tracks settings host flags specs tokens input).ledger.adapter
  have hbindings := bindAll_bindings hadapter (untouched_signaled settings host flags specs tokens)
    (build_built settings host flags specs input)
  change Setting.Bindings _ _ _ (bindAll input.isSome _ _) at hbindings
  generalize bindAll input.isSome _ _ = bound at hbindings ⊢
  cases hbindings with
  | bound stages hwaits hall =>
    refine .inr fun stage hstage => ?_
    obtain ⟨k, hk⟩ := hwaits.exists_of_mem hstage
    rw [hk.id_eq, hk.bound.preferences_eq]
  | failed k stage e stages hk hstage hbind hearlier hplaced => exact .inl (stage.isHalted_fail _ _)

/-- Under quieter preferences a run is the same up to what no longer reaches the host. -/
theorem invoke_hushed {q : Preferences} (hquieter : settings.preferences.Quieter q)
    (hignores : ∀ spec ∈ specs, spec.command.IgnoresPreferences)
    (hpreferences : preferences
      = ((build { settings with preferences := q } host flags specs).setting input).preferences) :
    (((build { settings with preferences := q } host flags specs).signaled tokens).invoke input).1
        = (((build settings host flags specs).signaled tokens).invoke input).1.map
          (Outcome.hush preferences)
      ∧ (((build { settings with preferences := q } host flags specs).signaled tokens).invoke
          input).2.chain.journal
        = (((build settings host flags specs).signaled tokens).invoke input).2.chain.journal.filter
          (Event.isHeard preferences) := by
  have hbuilt : ((build settings host flags specs).signaled tokens).Alike preferences
      ((build { settings with preferences := q } host flags specs).signaled tokens) :=
    ⟨stagesFrom_alike settings specs hquieter hignores 0,
      Chain.Hushed.signalAll ⟨settings.live, [], rfl⟩ tokens, rfl⟩
  obtain ⟨houtcome, hran⟩ := hbuilt.run input fun row hrow => hpreferences ▸
    bound_preferences { settings with preferences := q } host flags specs tokens input row hrow
  refine ⟨houtcome, ?_⟩
  obtain ⟨live, shown, hchain⟩ := hran.drop.chain
  show (((build { settings with preferences := q } host flags specs).signaled tokens).run
    input).2.drop.chain.history.reverse = _
  rw [hchain, ← List.filter_reverse]
  rfl

end

end Pipeline

/-! ## Silenced channels -/

/-- One set of preferences is another with some of the channels for messages silenced that let their
messages through before. -/
def Preferences.Silences (p q : Preferences) : Prop :=
  ∀ kind, q.forKind kind = p.forKind kind
    ∨ kind ≠ .error ∧ p.forKind kind = .continue ∧ q.forKind kind = .silentlyContinue

namespace Preferences

variable {p q : Preferences}

/-- Preferences with more channels silenced are quieter. -/
theorem Silences.quieter (h : p.Silences q) : p.Quieter q := by
  refine ⟨fun kind => ?_, fun kind hlet => ?_⟩
  · rcases h kind with hsame | ⟨-, hp, hq⟩
    · rw [hsame]
    · simp [hp, hq]
  · rcases h kind with hsame | ⟨-, hp, -⟩
    · rwa [Preferences.delivers, hsame] at hlet
    · rw [Preferences.delivers, hp]
      simp

/-- Errors reach the host under any preference. -/
theorem quieter_errorAction {errorAction : ActionPreference} (hp : p.errorAction ≠ .stop)
    (hq : errorAction ≠ .stop) : p.Quieter { p with errorAction := errorAction } := by
  refine ⟨fun kind => ?_, fun kind hlet => ?_⟩
  · cases kind with
    | error => exact iff_of_false hq hp
    | _ => exact Iff.rfl
  · cases kind with
    | error => rfl
    | _ => exact hlet

end Preferences

section

variable (settings : ChainSettings) (host : StopToken) (flags : StopFlags)
  (specs : List CommandSpec) (tokens : List StopToken) (input : Option (List Value))

/-- **Silencing changes nothing else.** Let no command look at its preferences. When some channels for
messages are silenced in those of the chain, every run ends as before, with the same status and error,
its outcome lacks exactly the messages that the preferences of their command keep from the host now, and
everything that happens in it happens as before, but for their delivery. Whether errors are continued
after silently or not changes nothing at all. -/
theorem Pipeline.silencing_confined
    (hignores : ∀ spec ∈ specs, spec.command.IgnoresPreferences) :
    (∀ q, settings.preferences.Silences q →
      (((build { settings with preferences := q } host flags specs).signaled tokens).invoke input).1
          = (((build settings host flags specs).signaled tokens).invoke input).1.map (Outcome.hush
            ((build { settings with preferences := q } host flags specs).setting input).preferences)
        ∧ (((build { settings with preferences := q } host flags specs).signaled tokens).invoke
            input).2.chain.journal
          = (((build settings host flags specs).signaled tokens).invoke
            input).2.chain.journal.filter (Event.isHeard
              ((build { settings with preferences := q } host flags specs).setting
                input).preferences))
      ∧ ∀ errorAction, settings.preferences.errorAction ≠ .stop → errorAction ≠ .stop →
        (((build { settings with preferences := { settings.preferences with
              errorAction := errorAction } } host flags specs).signaled tokens).invoke input).1
            = (((build settings host flags specs).signaled tokens).invoke input).1
          ∧ (((build { settings with preferences := { settings.preferences with
              errorAction := errorAction } } host flags specs).signaled tokens).invoke
              input).2.chain.journal
            = (((build settings host flags specs).signaled tokens).invoke input).2.chain.journal := by
  refine ⟨fun q hq => invoke_hushed settings host flags specs tokens input hq.quieter hignores rfl,
    fun errorAction hstop hstop' => ?_⟩
  -- Each of the two is quieter than the other, so neither lacks anything that the other has.
  have hthere := invoke_hushed settings host flags specs tokens input
    (Preferences.quieter_errorAction hstop hstop') hignores rfl
  have hback := invoke_hushed
    { settings with preferences := { settings.preferences with errorAction := errorAction } } host flags
    specs tokens input (Preferences.quieter_errorAction hstop' hstop) hignores rfl
  exact ⟨Outcome.eq_of_hush hthere.1 hback.1,
    (hthere.2 ▸ List.filter_sublist).antisymm (hback.2 ▸ List.filter_sublist)⟩

end

/-- A command that warns of every object that it is given, and writes one. -/
def Command.warning : Command where
  name := "warning"
  parameters := [{ name := "InputObject", pipeline := .byValue }]
  Memory := Unit
  fresh := ()
  process _ _ := .report (.warning "an object") fun _ => .write (.int 1) .done

/-- Two such commands, the second of which is to warn whatever the chain prefers. -/
def warningPair : List CommandSpec :=
  [{ command := .warning },
    { command := .warning, arguments := [.named "WarningAction" (some (.string "Continue"))] }]

/-- Where warnings are silenced, that of the first command is missing, and that of the second keeps its
number. -/
theorem Pipeline.silencing_confined_warning :
    (((build {} ⟨0, []⟩ ⟨1, []⟩ warningPair).signaled []).invoke (some [.int 0])).1.toOption.map
          (fun o => o.records.map fun r => (r.source.id.number, r.kind, r.sequence))
        = some [(0, .warning, 0), (1, .warning, 1), (1, .object, 2)]
      ∧ (((build { preferences := { warning := .silentlyContinue } } ⟨0, []⟩ ⟨1, []⟩
            warningPair).signaled []).invoke (some [.int 0])).1.toOption.map
          (fun o => o.records.map fun r => (r.source.id.number, r.kind, r.sequence))
        = some [(1, .warning, 1), (1, .object, 2)]
      ∧ (((build { preferences := { warning := .silentlyContinue } } ⟨0, []⟩ ⟨1, []⟩
            warningPair).signaled []).invoke (some [.int 0])).1
        = (((build {} ⟨0, []⟩ ⟨1, []⟩ warningPair).signaled []).invoke (some [.int 0])).1.map
          (Outcome.hush ((build { preferences := { warning := .silentlyContinue } } ⟨0, []⟩ ⟨1, []⟩
            warningPair).setting (some [.int 0])).preferences)
      ∧ (((build { preferences := { errorAction := .silentlyContinue } } ⟨0, []⟩ ⟨1, []⟩
            warningPair).signaled []).invoke (some [.int 0])).1
        = (((build {} ⟨0, []⟩ ⟨1, []⟩ warningPair).signaled []).invoke (some [.int 0])).1 := by
  have hignores : ∀ spec ∈ warningPair, spec.command.IgnoresPreferences := by
    intro spec hspec
    obtain rfl | rfl : spec = _ ∨ spec = _ := by simpa [warningPair] using hspec
    all_goals exact fun _ _ _ => rfl
  have hsilences : Preferences.Silences {} { warning := .silentlyContinue } := by
    intro kind
    cases kind with
    | warning => exact .inr ⟨by decide, rfl, rfl⟩
    | _ => exact .inl rfl
  obtain ⟨hsilenced, herrors⟩ :=
    silencing_confined {} ⟨0, []⟩ ⟨1, []⟩ warningPair [] (some [.int 0]) hignores
  exact ⟨by decide +kernel, by decide +kernel, (hsilenced _ hsilences).1,
    (herrors .silentlyContinue (by decide) (by decide)).1⟩

end CommandChain
