import CommandChain.Proofs.Binding.Entries
import CommandChain.Proofs.Conduct.Whole
/-!
# What commands are called with

A command is called to process an object that was bound for it, or without one: the first command in
place of being fed, or a command that takes no objects, once. A mandatory parameter may stay open while
the arguments are bound only where an object is expected and can fill it. So in each of the three cases
nothing mandatory is missing, whatever the table and the arguments are.
-/

namespace CommandChain

variable {set : Setting} {journal block : List Event} {id : CommandId} {parameters : BoundParameters}
  {object : Option Value}

/-- A command is called to process what was bound for it: an object, or the arguments alone where no
object is expected or none is taken. -/
def Setting.Provides (set : Setting) (id : CommandId) (parameters : BoundParameters)
    (object : Option Value) : Prop :=
  (∃ v, object = some v ∧ set.bindObject id v = .ok parameters)
    ∨ object = none ∧ set.parameters? id = some parameters
      ∧ (id = ⟨0⟩ ∧ set.hostInput = false ∨ set.processesOnce id = true)

/-- The settling of one call holds no call of another command. -/
theorem Settlement.called_notMem {i j : CommandId} {p q : Phase} {result : CallResult}
    {completed : Bool} (h : Settlement set i p result completed block) :
    .called j q parameters object ∉ block := by
  cases h <;> simp

/-- A step that calls a command to process hands it what was bound for it. -/
theorem Move.provides (h : Move set journal block)
    (hcalled : .called id .process parameters object ∈ block) :
    set.Provides id parameters object := by
  cases h with
  | offered position v r offer handover hv hhalt hoffer hover =>
    rcases List.mem_append.mp hcalled with hmem | hmem
    · cases hoffer <;> simp at hmem
    · cases hover with
      | called bound hlt hcalling hbind =>
        obtain ⟨rfl, rfl, rfl⟩ : id = ⟨position⟩ ∧ parameters = bound ∧ object = some v := by
          simpa using hmem
        exact .inl ⟨v, rfl, hbind⟩
      | _ => simp at hmem
  | head bound hhalt hinput hcalling hbegan hbound =>
    obtain ⟨rfl, rfl, rfl⟩ : id = ⟨0⟩ ∧ parameters = bound ∧ object = none := by simpa using hcalled
    exact .inr ⟨rfl, hbound, .inl ⟨rfl, hinput⟩⟩
  | once i bound hhalt honce hcalling hbegan hbound =>
    obtain ⟨rfl, rfl, rfl⟩ : id = i ∧ parameters = bound ∧ object = none := by simpa using hcalled
    exact .inr ⟨rfl, hbound, .inr honce⟩
  | settled i phase result completed block honce hcalled' hclear hblock =>
    exact absurd hcalled hblock.called_notMem
  | onceAborted i result block honce hcalled' hblock =>
    exact absurd hcalled hblock.called_notMem
  | onceEnded i result completed steps finish honce hcalled' hblock =>
    rcases List.mem_append.mp hcalled with hmem | hmem
    · exact absurd hmem hblock.called_notMem
    · simp at hmem
  | _ => simp at hcalled

/-- Along a lawful journal, every command is called to process with what was bound for it. -/
theorem Legal.provides (h : Legal set [] journal)
    (hcalled : .called id .process parameters object ∈ journal) :
    set.Provides id parameters object := by
  obtain ⟨past, steps, rest, -, hmove, hmem⟩ := h.exists_move hcalled
  exact hmove.provides hmem

/-! ## The table of a command -/

/-- What a stage is bound to before any command begins comes of binding its arguments. -/
theorem Stage.bindArguments_of_bindStatically {stage bound : Stage} {adapter : Adapter}
    {expectsInput : Bool} (h : stage.bindStatically adapter expectsInput = .ok bound) :
    bound.binder adapter = stage.binder adapter
      ∧ (stage.binder adapter).bindArguments stage.arguments expectsInput = .ok bound.bound := by
  unfold bindStatically at h
  split at h
  · cases h
  · next hok =>
    split at h
    · cases h
    · cases h
      exact ⟨rfl, hok⟩

/-- A command that was bound is the one at its place, with its arguments bound. -/
theorem Setting.bound_eq {k : Nat} {bound : Stage} (h : set.bound k = some bound) :
    ∃ stage, set.stages[k]? = some stage
      ∧ stage.bindStatically set.adapter (k != 0 || set.hostInput) = .ok bound := by
  unfold Setting.bound Setting.bind at h
  cases hstage : set.stages[k]? with
  | none =>
    rw [hstage] at h
    cases h
  | some stage =>
    rw [hstage, Option.map_some] at h
    refine ⟨stage, rfl, ?_⟩
    split at h
    · next hok =>
      cases h
      exact Option.some.inj hok
    · cases h

section

variable (settings : ChainSettings) (host : StopToken) (flags : StopFlags)
  (specs : List CommandSpec) (tokens : List StopToken) (input : Option (List Value))

namespace Pipeline

/-- The stage at a place is that of the command supplied there. -/
theorem stagesFrom_spec {position i : Nat} {stage : Stage}
    (h : (stagesFrom settings position specs)[i]? = some stage) :
    ∃ spec, specs[i]? = some spec ∧ stage.command = spec.command
      ∧ stage.arguments = spec.arguments := by
  induction specs generalizing position i with
  | nil => cases h
  | cons spec rest ih =>
    cases i with
    | zero =>
      cases h
      exact ⟨spec, rfl, rfl, rfl⟩
    | succ i => exact ih h

/-- What is bound for a command before it begins. -/
theorem bound_spec {k : Nat} {stage : Stage}
    (h : ((build settings host flags specs).setting input).bound k = some stage) :
    ∃ spec, specs[k]? = some spec
      ∧ stage.binder settings.adapter = ⟨spec.command.parameters, settings.adapter⟩
      ∧ (Binder.mk spec.command.parameters settings.adapter).bindArguments spec.arguments
        (k != 0 || input.isSome) = .ok stage.bound
      ∧ ((build settings host flags specs).setting input).commands[k]? = some spec.command := by
  obtain ⟨built, hbuilt, hbind⟩ := Setting.bound_eq h
  obtain ⟨spec, hspec, hcommand, harguments⟩ := stagesFrom_spec settings specs hbuilt
  obtain ⟨hbinder, hbound⟩ := Stage.bindArguments_of_bindStatically hbind
  have htable : built.binder settings.adapter = ⟨spec.command.parameters, settings.adapter⟩ := by
    rw [Stage.binder, hcommand]
  refine ⟨spec, hspec, hbinder.trans htable, ?_, ?_⟩
  · rw [← htable, ← harguments]
    exact hbound
  · show ((build settings host flags specs).stages.map Stage.command)[k]? = _
    rw [List.getElem?_map, show (build settings host flags specs).stages[k]? = some built from hbuilt,
      Option.map_some, hcommand]

/-- **Binding is sound.** Where conversion is the built-in one and the names of a command's table are all
different, whatever the command is called to process with serves it: nothing mandatory is missing, every
value has its parameter's type unless it is a null taken from a property, at most one of them is the
object itself, and what its arguments were bound to before it began is still there. -/
theorem processes_served (hadapter : settings.adapter.convertTo = Value.convertTo)
    (hdistinct : ∀ spec, specs[id.number]? = some spec →
      Parameter.Distinct spec.command.parameters)
    (hcalled : .called id .process parameters object
      ∈ (((build settings host flags specs).signaled tokens).invoke input).2.chain.journal) :
    ∃ spec static, specs[id.number]? = some spec
      ∧ (Binder.mk spec.command.parameters settings.adapter).bindArguments spec.arguments
        (id.number != 0 || input.isSome) = .ok static
      ∧ (Binder.mk spec.command.parameters settings.adapter).Serves static parameters := by
  rcases (legal_journal settings host flags specs tokens input).provides hcalled with
    ⟨v, -, hbind⟩ | ⟨-, hbound, hcase⟩
  · unfold Setting.bindObject at hbind
    split at hbind
    · next stage hstage =>
      obtain ⟨spec, hspec, hbinder, hstatic, -⟩ := bound_spec settings host flags specs input hstage
      have hsupplied := Binder.bindArguments_supplied (hdistinct spec hspec) hadapter hstatic
      refine ⟨spec, stage.bound, hspec, hstatic, ?_⟩
      exact Binder.serves_of_bindObject (hdistinct spec hspec) hadapter hsupplied (hbinder ▸ hbind)
    · cases hbind
  · obtain ⟨stage, hstage, rfl⟩ := Option.map_eq_some_iff.mp hbound
    obtain ⟨spec, hspec, -, hstatic, hcommand⟩ :=
      bound_spec settings host flags specs input hstage
    have hsupplied := Binder.bindArguments_supplied (hdistinct spec hspec) hadapter hstatic
    obtain ⟨-, -, -, hmissing⟩ := Binder.bindArguments_ok hstatic
    refine ⟨spec, stage.bound, hspec, hstatic, Binder.serves_of_supplied hsupplied ?_⟩
    intro p hp hmandatory
    -- No object can be left to fill the parameter.
    refine Binder.contains_of_missing?_eq_none hmissing hp hmandatory ?_
    rcases hcase with ⟨rfl, hinput⟩ | honce
    · have hinput : input.isSome = false := hinput
      rw [hinput]
      rfl
    · rw [Setting.processesOnce, Bool.and_eq_true, hcommand, Option.any_some, Bool.not_eq_true',
        List.any_eq_false] at honce
      rw [Bool.eq_false_iff.mpr (honce.1 p hp), Bool.and_false]

end Pipeline

end

/-- A command that adds to the objects it is given, and does no more here than take them. -/
def Command.adding : Command where
  name := "adding"
  parameters := [
    { name := "Amount", type := .int, mandatory := true, position := some 0 },
    { name := "InputObject", mandatory := true, pipeline := .byValue },
    { name := "Label", type := .string, pipeline := .byPropertyName }]
  Memory := Unit
  fresh := ()
  process _ _ := .done .ok

/-- Such a command, whose amount is supplied as a text. -/
def addingSpecs : List CommandSpec :=
  [{ command := .adding, arguments := [.positional (.string "7")] }]

/-- The parameters with which a command is called to process at a step. -/
def Event.processed? (id : CommandId) : Event → Option BoundParameters
  | .called i .process parameters _ => if i = id then some parameters else none
  | _ => none

/-- A step gives parameters for a command exactly if it calls that command to process with them. -/
theorem Event.processed?_eq_some {e : Event} {id : CommandId} {parameters : BoundParameters} :
    e.processed? id = some parameters ↔ ∃ object, e = .called id .process parameters object := by
  constructor
  · intro h
    unfold processed? at h
    split at h
    · next object =>
      obtain ⟨rfl, hparameters⟩ := Option.ite_none_right_eq_some.mp h
      exact ⟨object, by rw [Option.some.inj hparameters]⟩
    · cases h
  · rintro ⟨object, rfl⟩
    exact if_pos rfl

/-- The object is bound as it is, its missing label as null, and the amount as an integer. -/
theorem Pipeline.processes_served_adding :
    ∃ parameters object, .called ⟨0⟩ .process parameters object
        ∈ (((build {} ⟨0, []⟩ ⟨1, []⟩ addingSpecs).signaled []).invoke
          (some [.object [("Label", .null)]])).2.chain.journal
      ∧ parameters.entries.map (fun e => (e.name, e.source)) = [("Amount", .positional),
        ("InputObject", .pipelineByValue), ("Label", .pipelineByPropertyName)]
      ∧ parameters.int? "Amount" = some 7
      ∧ ∃ spec static, addingSpecs[0]? = some spec
        ∧ (Binder.mk spec.command.parameters (.standard .empty)).bindArguments spec.arguments true
          = .ok static
        ∧ (Binder.mk spec.command.parameters (.standard .empty)).Serves static parameters := by
  have hcalls : (((build {} ⟨0, []⟩ ⟨1, []⟩ addingSpecs).signaled []).invoke
      (some [.object [("Label", .null)]])).2.chain.journal.any (fun e =>
        (e.processed? ⟨0⟩).any fun parameters => parameters.entries.map (fun e => (e.name, e.source))
            == [("Amount", .positional), ("InputObject", .pipelineByValue),
              ("Label", .pipelineByPropertyName)]
          && parameters.int? "Amount" == some 7) = true := by decide +kernel
  obtain ⟨e, he, hcall⟩ := List.any_eq_true.mp hcalls
  obtain ⟨parameters, hprocessed, hbound⟩ := (Option.any_eq_true _ _).mp hcall
  obtain ⟨object, rfl⟩ := Event.processed?_eq_some.mp hprocessed
  rw [Bool.and_eq_true, beq_iff_eq, beq_iff_eq] at hbound
  refine ⟨parameters, object, he, hbound.1, hbound.2, ?_⟩
  refine processes_served {} ⟨0, []⟩ ⟨1, []⟩ addingSpecs [] (some [.object [("Label", .null)]]) rfl
    (fun spec hspec => ?_) he
  obtain rfl : _ = spec := Option.some.inj hspec
  decide +kernel

end CommandChain
