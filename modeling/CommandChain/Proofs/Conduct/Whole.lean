import CommandChain.Proofs.Conduct.Teardown
/-!
# A run from its start to its end

A pipeline is built, the host may signal tokens, and then it runs and is given up. The journal of
all this is legal, and it consists of the steps of the run and of what concludes it.
-/

namespace CommandChain

namespace Pipeline

/-- What is fixed before a pipeline runs. -/
def setting (p : Pipeline) (input : Option (List Value)) : Setting where
  commands := p.stages.map (·.command)
  hostInput := input.isSome
  stop := p.chain.stop
  flags := p.chain.flags
  stages := p.stages
  adapter := p.chain.adapter

/-- A pipeline after the host has signaled some tokens. -/
def signaled (p : Pipeline) (tokens : List StopToken) : Pipeline :=
  { p with chain := p.chain.signalAll tokens }

end Pipeline

/-! ## The start -/

/-- The commands of a new pipeline are new. -/
theorem Pipeline.stagesFrom_new (settings : ChainSettings) (specs : List CommandSpec)
    (position i : Nat) (stage : Stage) (h : (stagesFrom settings position specs)[i]? = some stage) :
    stage.New (position + i) := by
  induction specs generalizing position i with
  | nil => cases h
  | cons spec rest ih =>
    cases i with
    | zero =>
      cases h
      exact ⟨rfl, rfl, rfl, rfl⟩
    | succ i =>
      have hnew := ih (position + 1) i h
      rwa [Nat.add_assoc, Nat.add_comm 1 i] at hnew

/-- A pipeline has as many stages as commands. -/
theorem Pipeline.length_stagesFrom (settings : ChainSettings) (position : Nat)
    (specs : List CommandSpec) : (stagesFrom settings position specs).length = specs.length := by
  induction specs generalizing position with
  | nil => rfl
  | cons spec rest ih => rw [stagesFrom, List.length_cons, ih, List.length_cons]

/-- What holds of every stage of a list holds along its row. -/
theorem Stages.holds_ofList {p : Nat → Stage → Prop} (stages : List Stage) (position : Nat)
    (h : ∀ i stage, stages[i]? = some stage → p (position + i) stage) :
    (ofList stages).Holds p position := by
  induction stages generalizing position with
  | nil => trivial
  | cons stage rest ih =>
    refine ⟨h 0 stage rfl, ih (position + 1) fun i stage hi => ?_⟩
    have := h (i + 1) stage hi
    rwa [Nat.add_comm i, ← Nat.add_assoc] at this

/-- What holds along a row holds of each of its stages, at some place. -/
theorem Stages.Holds.exists_of_mem {p : Nat → Stage → Prop} {position n : Nat} {stages : Stages n}
    (h : stages.Holds p position) {stage : Stage} (hstage : stage ∈ stages.toList) :
    ∃ i, p i stage := by
  induction stages generalizing position with
  | nil => cases hstage
  | cons first rest ih =>
    rcases List.mem_cons.mp hstage with rfl | hstage
    · exact ⟨position, h.1⟩
    · exact ih h.2 hstage

section

variable (settings : ChainSettings) (host : StopToken) (flags : StopFlags)
  (specs : List CommandSpec) (tokens : List StopToken) (input : Option (List Value))

namespace Pipeline

/-- Before the run of a pipeline nothing has happened but the signals of the host. -/
theorem untouched_signaled : Journal.Untouched
    ((build settings host flags specs).signaled tokens).chain.journal := by
  have hjournal : ((build settings host flags specs).signaled tokens).chain.journal
      = tokens.map .signaled := Chain.journal_signalAll _ tokens
  intro e he
  rw [hjournal] at he
  obtain ⟨token, -, rfl⟩ := List.mem_map.mp he
  exact ⟨token, rfl⟩

/-- A new pipeline agrees with its journal. -/
theorem build_tracks : ((build settings host flags specs).setting input).Tracks
    ((build settings host flags specs).signaled tokens).chain := by
  have hledger : ((build settings host flags specs).setting input).Ledger
      (build settings host flags specs).chain :=
    ⟨rfl, rfl, fun kind => by cases kind <;> rfl, fun before r after heq => by simp [build,
      Chain.journal] at heq, rfl, rfl⟩
  have htracks : ((build settings host flags specs).setting input).Tracks
      (build settings host flags specs).chain :=
    ⟨rfl, (Bool.or_false _).symm, fun _ => rfl, rfl, rfl, hledger⟩
  exact htracks.signalAll tokens

/-- The stages of a pipeline stand as they were built. -/
theorem build_built : (Stages.ofList (build settings host flags specs).stages).Holds
    (Stage.Built ((build settings host flags specs).setting input)) 0 := by
  refine Stages.holds_ofList _ 0 fun i stage hi => ?_
  have hnew := stagesFrom_new settings specs 0 i stage hi
  rw [Nat.zero_add] at hnew ⊢
  refine ⟨hnew, hi, ?_⟩
  rw [setting, List.getElem?_map, hi]
  rfl

/-- The steps of the run of a pipeline. -/
def ran : Ran (build settings host flags specs).stages.length :=
  steps input (.ofList (build settings host flags specs).stages)
    ((build settings host flags specs).signaled tokens).chain

/-- The steps of the run of a new pipeline take the course of a run, whatever the host signaled
before. -/
theorem ran_course :
    ((build settings host flags specs).setting input).Course (input.getD [])
      ((build settings host flags specs).signaled tokens).chain.journal
      (ran settings host flags specs tokens input) := by
  have htracks := build_tracks settings host flags specs tokens input
  have hjournal : ((build settings host flags specs).signaled tokens).chain.journal
      = tokens.map .signaled := Chain.journal_signalAll _ tokens
  refine steps_course rfl htracks ?_ (Chain.pendingStop_signalAll _ tokens) ?_
    (untouched_signaled settings host flags specs tokens)
    (build_built settings host flags specs input)
  · rw [hjournal]
    exact Legal.signals _ _ tokens
  · simp [setting]

end Pipeline

/-! ## The end -/

/-- The stages of a row are known by their positions. -/
theorem Stages.Holds.map_id {set : Setting} {journal : List Event} {position n : Nat}
    {stages : Stages n} (h : stages.Holds (Stage.Placed set journal) position) :
    stages.toList.map Stage.id = (List.range' position n).map CommandId.mk := by
  induction stages generalizing position with
  | nil => rfl
  | cons stage rest ih =>
    rw [toList, List.map_cons, ih h.2, h.1.id_eq]
    rfl

/-- Stages at their places have identities of their own. -/
theorem Stages.Holds.nodup_id {set : Setting} {journal : List Event} {position n : Nat}
    {stages : Stages n} (h : stages.Holds (Stage.Placed set journal) position) :
    (stages.toList.map Stage.id).Nodup := by
  rw [h.map_id]
  exact List.Pairwise.map _ (fun a b hab he => hab (CommandId.mk.inj he)) List.nodup_range'

/-- A command of a row is found at its place. -/
theorem Stages.Holds.exists_stage {set : Setting} {journal : List Event} {position n : Nat}
    {stages : Stages n}
    (h : stages.Holds (Stage.Placed set journal) position) {k : Nat} (hk : position ≤ k)
    (hlt : k < position + n) :
    ∃ stage ∈ stages.toList, stage.id = ⟨k⟩ ∧ stage.state = Journal.state journal ⟨k⟩ := by
  induction stages generalizing position with
  | nil => omega
  | cons stage rest ih =>
    rcases Nat.eq_or_lt_of_le hk with rfl | hk
    · exact ⟨stage, .head _, h.1.id_eq, h.1.state⟩
    · obtain ⟨found, hmem, hfound⟩ := ih h.2 hk (by omega)
      exact ⟨found, .tail _ hmem, hfound⟩

/-- The run of a new pipeline concludes in one of the ways that a run can. -/
theorem Pipeline.invoke_concluded :
    ((build settings host flags specs).setting input).Concludes
      ((build settings host flags specs).signaled tokens) input
      (ran settings host flags specs tokens input).stages.toList
      (ran settings host flags specs tokens input).chain
      (ran settings host flags specs tokens input).outcome := by
  have hcourse := ran_course settings host flags specs tokens input
  exact invoke_concludes (p := (build settings host flags specs).signaled tokens) rfl hcourse.tracks
    hcourse.placed.nodup_id

end

/-- The journal of a run consists of its steps and of parting steps. -/
theorem Setting.Concludes.parts {set : Setting} {p : Pipeline} {input : Option (List Value)}
    {stages : List Stage} {chain : Chain} {outcome : Except Panic Unit}
    (h : set.Concludes p input stages chain outcome) :
    ∃ stops, set.Parts chain (p.invoke input).2.chain stops := by
  cases h with
  | panicked e hout hrun hchain hdrop => exact ⟨_, hdrop⟩
  | unwound e before stage after hout hrun hsplit hrunning hstop hdrop =>
    exact ⟨_, hstop.trans hdrop⟩
  | completed o final hout hrun hstatus hfinal hdrop => exact ⟨_, hfinal.trans hdrop⟩

/-- The journal of every run is legal. -/
theorem Pipeline.legal_journal (settings : ChainSettings) (host : StopToken) (flags : StopFlags)
    (specs : List CommandSpec) (tokens : List StopToken) (input : Option (List Value)) :
    Legal ((build settings host flags specs).setting input) []
      (((build settings host flags specs).signaled tokens).invoke input).2.chain.journal := by
  have hcourse := ran_course settings host flags specs tokens input
  obtain ⟨stops, hparts⟩ := (invoke_concluded settings host flags specs tokens input).parts
  obtain ⟨block, hgrown, hlegal, -⟩ := hparts.grown
  rw [hgrown]
  exact hcourse.legal.append hlegal

/-- A chain that succeeded is not halted: with a halt and no fault its status is another. -/
theorem Chain.isHalted_of_succeeded {chain : Chain} (h : chain.status = .succeeded) :
    chain.isHalted = false := by
  unfold Chain.status at h
  split at h
  · cases h
  · split at h
    · cases h
    · next hgo => exact (Bool.not_eq_true _).mp hgo

/-- What holds of the journal of a run that nothing kept from its end: no command failed, commands
began before objects flowed, and those that are not cut off had their turn to end. -/
structure Setting.Unhindered (set : Setting) (journal : List Event) : Prop where
  flowing : set.Flowing journal
  unfailed : ∀ id, .failed id ∉ journal
  ended : ∀ id, Journal.HasBegun journal id → Journal.isCut journal id.number = false →
    ∃ completed, .settled id .finish completed ∈ journal

section

variable (settings : ChainSettings) (host : StopToken) (flags : StopFlags)
  (specs : List CommandSpec) (tokens : List StopToken) (input : Option (List Value)) {o : Outcome}

namespace Pipeline

/-- A run that returns was not unwound: its steps ended, the running commands were told to stop, and
its outcome is that of the chain before it was given up. -/
theorem completed_of_invoke
    (ho : (((build settings host flags specs).signaled tokens).invoke input).1 = .ok o) :
    (ran settings host flags specs tokens input).outcome = .ok ()
      ∧ ∃ final, o = ⟨final.status, final.records, final.fault⟩
        ∧ ((build settings host flags specs).setting input).Parts
          (ran settings host flags specs tokens input).chain final
          (runningIds (ran settings host flags specs tokens input).stages.toList)
        ∧ ((build settings host flags specs).setting input).Parts final
          (((build settings host flags specs).signaled tokens).invoke input).2.chain [] := by
  have hrun : (((build settings host flags specs).signaled tokens).run input).1 = .ok o := ho
  cases invoke_concluded settings host flags specs tokens input with
  | panicked e hout hfail hchain hdrop =>
    rw [hrun] at hfail
    cases hfail
  | unwound e before stage after hout hfail hsplit hrunning hstop hdrop =>
    rw [hrun] at hfail
    cases hfail
  | completed o' final hout hok ho' hfinal hdrop =>
    rw [hrun] at hok
    obtain rfl := Except.ok.inj hok
    exact ⟨hout, final, ho', hfinal, hdrop⟩

/-- The outcome of a run is that of the chain after some parting steps. -/
theorem outcome_of_invoke
    (ho : (((build settings host flags specs).signaled tokens).invoke input).1 = .ok o) :
    ∃ final stops, ((build settings host flags specs).setting input).Parts
        (ran settings host flags specs tokens input).chain final stops
      ∧ o = ⟨final.status, final.records, final.fault⟩ := by
  obtain ⟨-, final, ho', hfinal, -⟩ :=
    completed_of_invoke settings host flags specs tokens input ho
  exact ⟨final, _, hfinal, ho'⟩

/-- A run succeeds where nothing halts it. -/
theorem succeeded_of_running
    (ho : (((build settings host flags specs).signaled tokens).invoke input).1 = .ok o)
    (hhalt : ((build settings host flags specs).setting input).isHalted
      (((build settings host flags specs).signaled tokens).invoke input).2.chain.journal = false) :
    o.status = .succeeded := by
  have hcourse := ran_course settings host flags specs tokens input
  obtain ⟨-, final, rfl, hfinal, hdrop⟩ :=
    completed_of_invoke settings host flags specs tokens input ho
  obtain ⟨block, hgrown, hlegal, -⟩ := hfinal.grown
  obtain ⟨last, hlast, -⟩ := hdrop.grown
  have hgo : ((build settings host flags specs).setting input).isHalted final.journal = false := by
    rw [hlast, Setting.isHalted_append, Bool.or_eq_false_iff] at hhalt
    exact hhalt.1
  have hlegal : Legal ((build settings host flags specs).setting input) [] final.journal := by
    rw [hgrown]
    exact hcourse.legal.append hlegal
  -- A fault is the failure of a command, and that would have halted the run.
  have hfault : final.fault.isSome = false := by
    rw [hfinal.tracks.fault, List.any_eq_false]
    intro e he hfailed
    cases e <;> cases hfailed
    rw [hlegal.halted_of_failed he] at hgo
    cases hgo
  rw [Chain.status, hfault, hfinal.tracks.halted, hgo]
  rfl

/-- Nothing kept a run that succeeds from its end. -/
theorem unhindered_of_succeeded
    (ho : (((build settings host flags specs).signaled tokens).invoke input).1 = .ok o)
    (hstatus : o.status = .succeeded) :
    ((build settings host flags specs).setting input).Unhindered
      (((build settings host flags specs).signaled tokens).invoke input).2.chain.journal := by
  have hcourse := ran_course settings host flags specs tokens input
  obtain ⟨hout, final, rfl, hfinal, hdrop⟩ :=
    completed_of_invoke settings host flags specs tokens input ho
  have hparts := hfinal.trans hdrop
  obtain ⟨block, hgrown, -⟩ := hparts.grown
  obtain ⟨middle, hmiddle, -⟩ := hfinal.grown
  have hgo : ((build settings host flags specs).setting input).isHalted
      (ran settings host flags specs tokens input).chain.journal = false := by
    have hfinalGo := Chain.isHalted_of_succeeded hstatus
    rw [hfinal.tracks.halted, hmiddle, Setting.isHalted_append, Bool.or_eq_false_iff] at hfinalGo
    exact hfinalGo.1
  -- Nothing halted the steps, so each command had its turn to end.
  obtain ⟨hflowing, hturn⟩ := (hcourse.ended hout).resolve_left (by simp [hgo])
  refine ⟨?_, fun id hfailed => ?_, ?_⟩
  · rw [hgrown]
    exact hflowing.append block
  · have hfailed := hparts.mem_of_mem hfailed not_false
    rw [hcourse.legal.halted_of_failed hfailed] at hgo
    cases hgo
  · rintro id ⟨parameters, input', hbegun⟩ hcut
    have hbegun := hparts.mem_of_mem hbegun not_false
    rw [hgrown, Journal.isCut_append, Bool.or_eq_false_iff] at hcut
    rcases hturn id.number (hcourse.legal.settled_of_begun hbegun).1 with
      hcreated | hcut' | ⟨completed, hsettled⟩
    · exact absurd hcreated (Journal.ne_created_of_begun hbegun)
    · rw [hcut.1] at hcut'
      cases hcut'
    · exact ⟨completed, hparts.mem_of_mem_start hsettled⟩

end Pipeline

end

end CommandChain
