import CommandChain.Proofs.Streaming.Batch
/-!
# A command alone

A chain of one command is what its builder gets to see of it: the host feeds the command, and gets
what the command writes for the objects and at its end.
-/

namespace CommandChain

/-- The entry of a name is the one inserted last. -/
theorem BoundParameters.get?_insert_self (bound : BoundParameters) (name : String) (v : Value)
    (source : BindingSource) : (bound.insert name v source).get? name = some v := by
  have hnone : (bound.entries.filter (!Text.sameName ·.name name)).find? (Text.sameName ·.name name)
      = none := by
    refine List.find?_eq_none.mpr fun e he => ?_
    simpa using (List.mem_filter.mp he).2
  rw [get?, entry?, insert, List.find?_append, hnone, Option.none_or, List.find?_singleton,
    Text.sameName_refl]
  rfl

/-- The entries of other names stay what they are. -/
theorem BoundParameters.get?_insert_of_ne (bound : BoundParameters) {name other : String}
    (h : Text.sameName name other = false) (v : Value) (source : BindingSource) :
    (bound.insert name v source).get? other = bound.get? other := by
  have hother (e : BoundParameter) : ((!Text.sameName e.name name) = true
      ∧ Text.sameName e.name other = true) ↔ Text.sameName e.name other = true := by
    refine and_iff_right_of_imp fun hsame => ?_
    rw [Bool.not_eq_true', ← h, Text.sameName, Text.sameName, Text.sameName_iff.mp hsame]
    exact BEq.comm
  rw [get?, entry?, insert, List.find?_append, List.find?_singleton, h, List.find?_filter]
  simp only [hother, Bool.decide_eq_true, Bool.false_eq_true, if_false, Option.or_none]
  rfl

/-- What the command of a stage sees of the call to end. -/
def Stage.closing (stage : Stage) (chain : Chain) : Call :=
  stage.call chain .finish stage.bound none

/-- A command stands alone in a chain that may run, and this is its stage with the parameters bound.
The objects come to it through the pipeline only. -/
structure Pipeline.Alone (settings : ChainSettings) (host : StopToken) (flags : StopFlags)
    (spec : CommandSpec) (stage : Stage) : Prop where
  running : (build settings host flags [spec]).chain.isHalted = false
  binds : (build settings host flags [spec]).stages.mapM (·.bindStatically settings.adapter true)
    = .ok [stage]
  free : stage.bound.contains "InputObject" = false

namespace Pipeline.Alone

variable {settings : ChainSettings} {host : StopToken} {flags : StopFlags} {spec : CommandSpec}
  {stage : Stage}

/-- Binding has changed what is bound and the preferences. -/
theorem stage_eq (h : Alone settings host flags spec stage) :
    ∃ preferences, stage = ⟨0, spec.command, spec.command.fresh, spec.arguments, .created,
      stage.bound, preferences, spec.bindingErrors.getD settings.bindingErrors, {}⟩ := by
  obtain ⟨first, later, hfirst, -, hlist⟩ := Stage.bound_cons h.binds
  obtain ⟨rfl, -⟩ := List.cons.inj hlist
  exact ⟨stage.preferences, Stage.bindStatically_eq hfirst⟩

/-- The run succeeds, and what the command writes reaches the host. -/
theorem invoke (h : Alone settings host flags spec stage)
    (hflows : stage.Flows (build settings host flags [spec]).chain) (input : List Value) :
    ∃ o, ((build settings host flags [spec]).invoke (some input)).1 = .ok o ∧ o.status = .succeeded
      ∧ o.outputValues = (stage.begun (build settings host flags [spec]).chain).outputs
        (build settings host flags [spec]).chain input :=
  invoke_eq_batch settings host flags [spec] input h.running h.binds
    (List.forall_mem_singleton.mpr hflows)

end Pipeline.Alone

end CommandChain
