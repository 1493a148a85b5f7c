import CommandChain.Proofs.Lifecycle.Refusal
import CommandChain.Proofs.Lifecycle.Trace
/-!
# The lives of the commands of a run

In a run that no panic unwinds every command lives through the same phases in the same order, as far
as it gets, and the commands take their turns: they begin one after another before anything else, they
end one after another, and those that are still running then are told to stop.
-/

namespace CommandChain

variable {set : Setting} {steps journal told cleared : List Event}
  {running commands : List CommandId} {id : CommandId} {phase : Phase}

/-! ## A journal as a whole -/

/-- How the commands of a run live. -/
structure Setting.Lifecycle (set : Setting) (journal : List Event) : Prop where
  lives : ∀ id : CommandId, id.number < set.commands.length → Life (Journal.received journal id)
  /-- Commands begin in turn, and nothing else was called by then. -/
  begins : ∀ before id parameters input after,
    journal = before ++ .called id .begin parameters input :: after →
      (∀ j < id.number, Journal.HasBegun before ⟨j⟩)
        ∧ ∀ i phase parameters input, .called i phase parameters input ∈ before → phase = .begin
  /-- A command that failed is disposed of, and that is all. -/
  failures : ∀ before id after, id.number < set.commands.length →
    journal = before ++ .failed id :: after → Journal.received after id = [.dispose]
  /-- When a command ends, those before it have ended or were cut off. -/
  ends : ∀ before id parameters input after,
    journal = before ++ .called id .finish parameters input :: after →
      ∀ i < id.number, Journal.isCut before i = true ∨ ∃ r, .returned ⟨i⟩ .finish r ∈ before
  stops : ∀ id, .stopping id ∈ journal ↔ Journal.HasBegun journal id ∧ .failed id ∉ journal
    ∧ ¬ ∃ r, .returned id .finish r ∈ journal ∧ r.completes = true
  once : ∀ id, set.ignoresInput id = true → (Journal.received journal id).count .process ≤ 1
  requests : Journal.Each set.Asks [] journal

/-- After the steps of a run some commands are told to stop, and then some are disposed of. -/
structure Journal.Closes (steps journal told cleared : List Event)
    (running commands : List CommandId) : Prop where
  grown : journal = steps ++ (told ++ cleared)
  halting : ∀ e ∈ told, e.Halting
  stops : stops told = running
  clearing : ∀ e ∈ cleared, e.Clearing ∨ (∃ r, e = .emitted r) ∨ ∃ r, e = .delivered r
  disposals : disposals cleared = commands

namespace Journal.Closes

/-- The steps that close a run part with commands. -/
theorem parting (h : Closes steps journal told cleared running commands) {e : Event}
    (he : e ∈ told ++ cleared) : e.Parting := by
  rcases List.mem_append.mp he with he | he
  · have hhalting := h.halting e he
    cases e <;> trivial
  · rcases h.clearing e he with hclearing | ⟨r, rfl⟩ | ⟨r, rfl⟩
    · cases e <;> trivial
    · trivial
    · trivial

/-- Up to parting steps a closed run has the steps that it had. -/
theorem mem_iff (h : Closes steps journal told cleared running commands) {e : Event}
    (hparting : ¬ e.Parting) : e ∈ journal ↔ e ∈ steps := by
  rw [h.grown, List.mem_append]
  exact ⟨fun he => he.resolve_right fun he => hparting (h.parting he), .inl⟩

/-- What follows a step of the run is followed by the steps that close it. -/
theorem split (h : Closes steps journal told cleared running commands) {before after : List Event}
    {e : Event} (hparting : ¬ e.Parting) (hsplit : journal = before ++ e :: after) :
    ∃ rest, steps = before ++ e :: rest ∧ after = rest ++ (told ++ cleared) := by
  rw [h.grown] at hsplit
  exact Journal.split_of_not_mem hsplit fun he => hparting (h.parting he)

/-- The calls that a command gets while the run is closed. -/
theorem received (h : Closes steps journal told cleared running commands) (id : CommandId) :
    Journal.received (told ++ cleared) id
      = List.replicate (running.count id) .stop ++ List.replicate (commands.count id) .dispose := by
  rw [received_append, ← h.stops, ← h.disposals,
    received_parting fun e he => (h.halting e he).partsWith,
    received_parting fun e he => Event.partsWith_disposed (h.clearing e he)]
  rfl

/-- A command was told to stop exactly if it was running when the run was closed. -/
theorem stopping_mem_iff (h : Closes steps journal told cleared running commands)
    (hrun : steps.any Event.isParting = false) : .stopping id ∈ journal ↔ id ∈ running := by
  have hsteps : .stopping id ∉ steps := fun hmem =>
    absurd rfl (List.any_eq_false.mp hrun _ hmem)
  have hcleared : .stopping id ∉ cleared := fun hmem => by
    rcases h.clearing _ hmem with hclearing | ⟨r, hr⟩ | ⟨r, hr⟩
    · exact hclearing
    · cases hr
    · cases hr
  rw [h.grown, List.mem_append, List.mem_append, ← h.stops, Journal.stops, List.mem_filterMap]
  constructor
  · intro hmem
    exact ⟨_, (hmem.resolve_left hsteps).resolve_right hcleared, rfl⟩
  · rintro ⟨e, he, hnamed⟩
    cases e <;> cases hnamed
    exact .inr (.inl he)

end Journal.Closes

/-- A command runs after the steps of a run if it has begun, has not failed, and did not complete its
end. -/
theorem Legal.isRunning_iff (h : Legal set [] steps) (horderly : set.Orderly steps) :
    (Journal.state steps id).isRunning = true ↔ Journal.HasBegun steps id ∧ .failed id ∉ steps
      ∧ ¬ ∃ r, .returned id .finish r ∈ steps ∧ r.completes = true := by
  constructor
  · intro hrunning
    have hfailed : .failed id ∉ steps := fun hf => by
      rw [horderly.idle_of_failed hf] at hrunning
      cases hrunning
    refine ⟨Journal.begun_of_isRunning hrunning, hfailed, ?_⟩
    rintro ⟨r, hr, hcompletes⟩
    obtain ⟨completed, hs⟩ := h.settled_of_returned hr
    cases completed with
    | true =>
      rw [horderly.idle_of_ended hs] at hrunning
      cases hrunning
    | false =>
      obtain ⟨result, hr', -, hgave⟩ := h.returned_of_settled hs
      obtain rfl := h.returned_unique (by decide) hr hr'
      rcases hgave rfl with rfl | hf
      · cases hcompletes
      · exact hfailed hf
  · rintro ⟨⟨parameters, input, hbegun⟩, hfailed, hended⟩
    refine Journal.isRunning_of_begun hbegun hfailed fun hs => hended ?_
    obtain ⟨r, hr, hcompletes, -⟩ := h.returned_of_settled hs
    exact ⟨r, hr, hcompletes rfl⟩

/-- A run is closed as it should be: the running commands are told to stop and all are disposed of,
each once. -/
structure Journal.ClosesAll (set : Setting) (steps journal told cleared : List Event)
    (running commands : List CommandId) : Prop
    extends Closes steps journal told cleared running commands where
  running_iff : ∀ id, id ∈ running ↔ (Journal.state steps id).isRunning = true
  nodup_running : running.Nodup
  commands_iff : ∀ id, id ∈ commands ↔ id.number < set.commands.length
  nodup_commands : commands.Nodup

namespace Journal.ClosesAll

variable (h : ClosesAll set steps journal told cleared running commands)
include h

/-- What a command is called for in a closed run: what it was before, to stop if it was running, and
to be disposed of. -/
theorem received_eq (hid : id.number < set.commands.length) :
    Journal.received journal id = Journal.received steps id
      ++ List.replicate (running.count id) .stop ++ [.dispose] := by
  have hone : commands.count id = 1 := by
    rw [h.nodup_commands.count, if_pos ((h.commands_iff id).mpr hid)]
  rw [h.grown, received_append, h.received, hone, List.append_assoc]
  rfl

/-- Every command of a closed run had a life. -/
theorem life (horderly : set.Orderly steps) (hrun : steps.any Event.isParting = false)
    (hid : id.number < set.commands.length) : Life (Journal.received journal id) := by
  rw [h.received_eq hid]
  have hlived := horderly.lived hrun id
  by_cases hbegun : HasBegun steps id
  · rcases hlived with hnone | ⟨objects, ended, hended, hcalls⟩
    · obtain ⟨parameters, input, hbegun⟩ := hbegun
      have hmem := mem_received_of_called hbegun
      rw [hnone] at hmem
      cases hmem
    · refine .inr ⟨objects, ended, running.count id, hended,
        List.nodup_iff_count.mp h.nodup_running id, ?_⟩
      rw [hcalls]
      simp
  · have hidle : id ∉ running := fun hmem =>
      hbegun (begun_of_isRunning ((h.running_iff id).mp hmem))
    rw [(lived_cases hlived).1 hbegun, List.count_eq_zero.mpr hidle]
    exact .inl rfl

/-- Telling the running commands to stop is allowed, and it leaves each of them stopped. -/
theorem stopped (hrun : steps.any Event.isParting = false) :
    Journal.Each set.Asks steps told
      ∧ ∀ id, Journal.life (steps ++ told) id = (state steps id).becomeIfAllowed .stopped := by
  have hstops : told.filterMap Event.stopped? = running := h.stops
  obtain ⟨hasks, hlife⟩ := @asks_parting set steps told .stop Event.stopped? .stopped
    (fun e he => (h.halting e he).partsWith) (hstops ▸ h.nodup_running) fun id hid => by
      rw [hstops, h.running_iff] at hid
      rw [life_eq_state hrun]
      generalize state steps id = s at hid
      cases s <;> first | rfl | cases hid
  refine ⟨hasks, fun id => ?_⟩
  rw [hlife, life_eq_state hrun]
  simp only [hstops, h.running_iff]
  cases state steps id <;> rfl

/-- Every step of a closed run asks commands only for states that they may enter, but for a failure
to bind. -/
theorem requests (horderly : set.Orderly steps) (hrun : steps.any Event.isParting = false) :
    Journal.Each set.Asks [] journal := by
  obtain ⟨htold, hstopped⟩ := h.stopped hrun
  have hdisposals : cleared.filterMap Event.disposed? = commands := h.disposals
  have hcleared : Journal.Each set.Asks (steps ++ told) cleared :=
    (@asks_parting set (steps ++ told) cleared .dispose Event.disposed? .disposed
      (fun e he => Event.partsWith_disposed (h.clearing e he)) (hdisposals ▸ h.nodup_commands)
      fun id _ => by
        rw [hstopped]
        exact CommandState.canBecome_disposed (state_ne_disposed steps id)).1
  have hlast : Journal.Each set.Asks steps (told ++ cleared) :=
    htold.append (fun _ _ _ _ hasks => hasks) hcleared
  rw [h.grown]
  exact (horderly.each_asks hrun).append (fun _ _ _ _ hasks => hasks) hlast

/-- The commands of a run that is closed as it should be live as they should. -/
theorem lifecycle (hlegal : Legal set [] steps) (horderly : set.Orderly steps)
    (hrun : steps.any Event.isParting = false) (hjournal : set.Orderly journal) :
    set.Lifecycle journal where
  lives id hid := h.life horderly hrun hid
  begins before id parameters input after hsplit := by
    have hallows := hjournal before _ after hsplit
    exact ⟨hallows.1, hallows.2.2.2⟩
  failures before id after hid hsplit := by
    obtain ⟨rest, rfl, hafter⟩ := h.split (e := .failed id) not_false hsplit
    have hidle : id ∉ running := fun hmem => by
      have hrunning := (h.running_iff id).mp hmem
      rw [horderly.idle_of_failed (List.mem_append_right _ (.head _))] at hrunning
      cases hrunning
    have hnone : received rest id = [] := List.filterMap_eq_nil_iff.mpr fun e he => by
      have hquiet := List.any_eq_false.mp hrun e (List.mem_append_right _ (.tail _ he))
      cases e with
      | called i phase parameters input =>
        refine if_neg ?_
        rintro rfl
        exact horderly.not_called_of_failed he
      | stopping i => exact absurd rfl hquiet
      | disposing i => exact absurd rfl hquiet
      | _ => rfl
    have hone : commands.count id = 1 := by
      rw [h.nodup_commands.count, if_pos ((h.commands_iff id).mpr hid)]
    rw [hafter, received_append, hnone, h.received, List.count_eq_zero.mpr hidle, hone]
    rfl
  ends before id parameters input after hsplit := (hjournal before _ after hsplit).2.2
  stops id := by
    have hbegun : HasBegun journal id ↔ HasBegun steps id :=
      exists_congr fun _ => exists_congr fun _ => h.mem_iff not_false
    have hfailed : .failed id ∈ journal ↔ .failed id ∈ steps := h.mem_iff not_false
    have hended : (∃ r, .returned id .finish r ∈ journal ∧ r.completes = true)
        ↔ ∃ r, .returned id .finish r ∈ steps ∧ r.completes = true :=
      exists_congr fun _ => and_congr_left' (h.mem_iff not_false)
    rw [h.stopping_mem_iff hrun, h.running_iff, hlegal.isRunning_iff horderly, hbegun, hfailed,
      hended]
  once id hignores := hjournal.processed_once hignores
  requests := h.requests horderly hrun

end Journal.ClosesAll

/-! ## Whole runs -/

section

variable (settings : ChainSettings) (host : StopToken) (flags : StopFlags)
  (specs : List CommandSpec) (tokens : List StopToken) (input : Option (List Value)) {o : Outcome}

namespace Pipeline

/-- A command binds an object only where it takes values from those that arrive. -/
theorem ignoresInput_of_bindObject (p : Pipeline) {v : Value} {parameters : BoundParameters}
    (h : (p.setting input).bindObject id v = .ok parameters) :
    (p.setting input).ignoresInput id = false := by
  unfold Setting.bindObject Setting.bound at h
  cases hbind : (p.setting input).bind id.number with
  | none =>
    rw [hbind] at h
    cases h
  | some bound =>
    rw [hbind] at h
    cases bound with
    | error e => cases h
    | ok bound =>
      obtain ⟨stage, hstage, hbound⟩ := Option.map_eq_some_iff.mp hbind
      have haccepts := Binder.acceptsInput_of_bindObject h
      have hcommand : bound.command = stage.command := by
        rw [Stage.bindStatically_eq hbound]
      have hfound : (p.setting input).commands[id.number]? = some stage.command := by
        show (p.stages.map Stage.command)[id.number]? = _
        rw [List.getElem?_map, show p.stages[id.number]? = some stage from hstage]
        rfl
      rw [Setting.ignoresInput, hfound, ← hcommand]
      simpa [Stage.binder, Binder.acceptsInput] using haccepts

/-- How a run that no panic unwinds is closed. -/
theorem invoke_closes
    (ho : (((build settings host flags specs).signaled tokens).invoke input).1 = .ok o) :
    ∃ told cleared,
      (((build settings host flags specs).signaled tokens).wind input).2.chain.journal
          = (ran settings host flags specs tokens input).chain.journal ++ told
        ∧ Journal.ClosesAll ((build settings host flags specs).setting input)
          (ran settings host flags specs tokens input).chain.journal
          (((build settings host flags specs).signaled tokens).invoke input).2.chain.journal
          told cleared (runningIds (ran settings host flags specs tokens input).stages.toList)
          (lastFirst specs) := by
  have hcourse := ran_course settings host flags specs tokens input
  have hwound := wound_of_run settings host flags specs tokens input ho
  have hreleases := releases_of_run settings host flags specs tokens input ho
  obtain ⟨-, told, htold, hhalting, hstops⟩ :=
    wind_grown settings host flags specs tokens input ho
  obtain ⟨cleared, hcleared, hdisposals, hclearing⟩ := hreleases.calls
  have hjournal : (((build settings host flags specs).signaled tokens).invoke input).2.chain.journal
      = (((build settings host flags specs).signaled tokens).run input).2.chain.journal :=
    congrArg (fun p : Pipeline => p.chain.journal) hreleases.dropped
  refine ⟨told, cleared, htold, ⟨?_, hhalting, hstops, hclearing, hdisposals.trans hwound.ids⟩,
    fun id => ?_, nodup_runningIds hcourse.placed.nodup_id, fun id => ?_, ?_⟩
  · rw [hjournal, hcleared, htold, List.append_assoc]
  · constructor
    · intro hmem
      obtain ⟨stage, hstage, rfl⟩ := List.mem_map.mp hmem
      obtain ⟨hstage, hrunning⟩ := List.mem_filter.mp hstage
      obtain ⟨k, hk⟩ := hcourse.placed.exists_of_mem hstage
      rwa [hk.id_eq, ← hk.state]
    · intro hrunning
      obtain ⟨parameters, input', hbegun⟩ := Journal.begun_of_isRunning hrunning
      obtain ⟨stage, hstage, hid, hstate⟩ := hcourse.placed.exists_stage (Nat.zero_le id.number) (by
        simpa [setting] using (hcourse.legal.settled_of_begun hbegun).1)
      rw [show id = stage.id from hid.symm]
      exact mem_runningIds hstage (by rw [hstate]; exact hrunning)
  · have hlength : ((build settings host flags specs).setting input).commands.length
        = specs.length := by
      rw [setting, List.length_map]
      exact length_stagesFrom settings 0 specs
    rw [hlength, lastFirst, List.mem_reverse, List.mem_map]
    constructor
    · rintro ⟨k, hk, rfl⟩
      exact List.mem_range.mp hk
    · exact fun hlt => ⟨id.number, List.mem_range.mpr hlt, rfl⟩
  · rw [← hwound.ids]
    exact (List.reverse_perm _).nodup_iff.mpr hwound.nodup

/-- When a run has wound down, every command is in the state that the journal tells. -/
theorem wind_states
    (ho : (((build settings host flags specs).signaled tokens).invoke input).1 = .ok o) :
    ∀ stage ∈ (((build settings host flags specs).signaled tokens).wind input).2.stages,
      stage.state = Journal.life
        (((build settings host flags specs).signaled tokens).wind input).2.chain.journal stage.id := by
  intro stage hstage
  have hcourse := ran_course settings host flags specs tokens input
  obtain ⟨told, cleared, htold, hcloses⟩ := invoke_closes settings host flags specs tokens input ho
  have hrun := ran_not_parting settings host flags specs tokens input
  have hwound := (wind_of_run ho).2
  rw [htold, (hcloses.stopped hrun).2]
  rw [wind_eq settings host flags specs tokens input ho] at hwound hstage
  have hmem := List.mem_map_of_mem
    (f := fun stage : Stage => (stage.id, stage.command, stage.state)) hstage
  rw [stopRunning_stages _ _ hwound] at hmem
  obtain ⟨ended, hended, hsame⟩ := List.mem_map.mp hmem
  simp only [Prod.mk.injEq] at hsame
  obtain ⟨k, hk⟩ := hcourse.placed.exists_of_mem hended
  rw [← hsame.2.2, ← hsame.1, hk.state, hk.id_eq]

/-- **Commands live as they should.** In every run that no panic unwinds, whatever its commands do and
whatever it is fed, the calls of a command are those of a life, commands take turns to begin and to
end, a command that failed is only disposed of, and exactly those are told to stop that have begun,
have not failed and did not complete their end. What a command is asked for is allowed to it, unless
its parameters could not be bound, and no refused step is reported but where a command describes
one. -/
theorem commands_live
    (ho : (((build settings host flags specs).signaled tokens).invoke input).1 = .ok o) :
    ((build settings host flags specs).setting input).Lifecycle
        (((build settings host flags specs).signaled tokens).invoke input).2.chain.journal
      ∧ (∀ stage ∈ (((build settings host flags specs).signaled tokens).wind input).2.stages,
        stage.state = Journal.life
          (((build settings host flags specs).signaled tokens).wind input).2.chain.journal stage.id)
      ∧ ∀ e ∈ o.errors, e.IsRefusal →
        (∃ described ∈ (((build settings host flags specs).signaled tokens).invoke
            input).2.chain.journal.filterMap Event.described?, described.errorId = e.errorId)
          ∨ ∃ d ∈ (disposals
              (((build settings host flags specs).signaled tokens).wind input).2.chain.flags
              (((build settings host flags specs).signaled tokens).wind input).2.stages).1,
            ∃ f, d.result = .ok (some f) ∧ f.error.errorId = e.errorId := by
  have hcourse := ran_course settings host flags specs tokens input
  have hbinds : ∀ id v parameters,
      ((build settings host flags specs).setting input).bindObject id v = .ok parameters →
        ((build settings host flags specs).setting input).ignoresInput id = false :=
    fun _ _ _ hbind => ignoresInput_of_bindObject input _ hbind
  obtain ⟨told, cleared, -, hcloses⟩ := invoke_closes settings host flags specs tokens input ho
  have herrors := errors_of_invoke settings host flags specs tokens input ho
  exact ⟨hcloses.lifecycle hcourse.legal (hcourse.legal.orderly hbinds)
      (ran_not_parting settings host flags specs tokens input)
      ((legal_journal settings host flags specs tokens input).orderly hbinds),
    wind_states settings host flags specs tokens input ho,
    fun e he hrefusal => Outcome.described_of_isForeign herrors he hrefusal.isForeign⟩

end Pipeline

end

/-- A command without parameters that does nothing. -/
def Command.idling : Command where
  name := "idling"
  parameters := []
  Memory := Unit
  fresh := ()
  process _ _ := .done .ok

/-- Three commands, the second of which fails when it ends. -/
def failingMiddle : List CommandSpec :=
  [{ command := .idling }, { command := .faulting }, { command := .idling }]

/-- The last command has begun by then, and it is told to stop. -/
theorem Pipeline.commands_live_failing :
    ∃ o, (((build {} ⟨0, []⟩ ⟨1, []⟩ failingMiddle).signaled []).invoke none).1 = .ok o
      ∧ Journal.received (((build {} ⟨0, []⟩ ⟨1, []⟩ failingMiddle).signaled []).invoke
          none).2.chain.journal ⟨1⟩ = [.begin, .process, .finish, .dispose]
      ∧ Journal.received (((build {} ⟨0, []⟩ ⟨1, []⟩ failingMiddle).signaled []).invoke
          none).2.chain.journal ⟨2⟩ = [.begin, .stop, .dispose]
      ∧ ((build {} ⟨0, []⟩ ⟨1, []⟩ failingMiddle).setting none).Lifecycle
        (((build {} ⟨0, []⟩ ⟨1, []⟩ failingMiddle).signaled []).invoke none).2.chain.journal :=
  ⟨_, rfl, rfl, rfl, (commands_live {} ⟨0, []⟩ ⟨1, []⟩ failingMiddle [] none rfl).1⟩

/-! ## A command that cannot be bound -/

/-- A step asks commands for states that they may enter, and for no other. -/
def Event.Granted (past : List Event) (e : Event) (_rest : List Event) : Prop :=
  ∀ id next, e.request? id = some next → (Journal.life past id).canBecome next = true

/-- A command with a parameter that has to be given, and is not. -/
def unbindable : List CommandSpec :=
  [{ command := { Command.idling with
      parameters := [{ name := "Path", type := .string, mandatory := true }] } }]

/-- A command that fails before it begins is asked for a state that it may not enter from that in
which it was created. -/
theorem Pipeline.not_granted_unbindable :
    ¬ Journal.Each Event.Granted [] (((build {} ⟨0, []⟩ ⟨1, []⟩ unbindable).signaled []).invoke
      none).2.chain.journal := by
  rintro ⟨-, -, hfailed, -⟩
  exact Bool.false_ne_true (hfailed ⟨0⟩ .error rfl)

end CommandChain
