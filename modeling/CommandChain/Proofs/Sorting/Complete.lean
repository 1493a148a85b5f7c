import CommandChain.Proofs.Sorting.Repetitions
import CommandChain.Proofs.Streaming.Alone
/-!
# The command that sorts

The command buffers what arrives and writes it at the end, so that what a run of it alone yields is
the sort of all objects of the host.
-/

namespace CommandChain

namespace Builtin.Sorting

variable {stage : Stage} {chain : Chain}

/-- The command that sorts returns no faults, but perhaps from its begin. -/
theorem faultless : command.Faultless :=
  fun call buffer => ⟨.inl rfl, Hook.faultless_writeAll (sorted call buffer)⟩

/-- The command lets objects flow. -/
theorem flows (hcommand : stage.command = command)
    (hfree : stage.bound.contains "InputObject" = false) : stage.Flows chain := by
  obtain ⟨position, c, memory, arguments, state, bound, preferences, bindingErrors, input⟩ := stage
  simp only at hcommand hfree
  subst hcommand
  refine ⟨⟨{ name := "InputObject", pipeline := .byValue }, rfl, rfl, rfl, hfree⟩,
    .inr ⟨faultless, rfl⟩, fun _ => ⟨rfl, fun vs => ⟨fun v => rfl, ?_⟩⟩,
    fun flags memory => ⟨rfl, rfl⟩, fun flags memory => rfl⟩
  exact Hook.streams_writeAll chain.flags preferences _ _ _

/-- A command that keeps the objects that arrive and writes at its end what it makes of them. -/
theorem outputs_of_buffering {t : Transducer (List Value)} {f : List Value → List Value}
    (hprocess : ∀ buffer v, t.process buffer v = .store (buffer ++ [v]) (.done .ok))
    (hfinish : ∀ buffer, t.finish buffer = .store [] (Hook.writeAll (f buffer) .done))
    (input : List Value) : t.outputs [] input = f input := by
  have hbuffer (buffer : List Value) : input.foldl t.step buffer = buffer ++ input := by
    induction input generalizing buffer with
    | nil => exact (List.append_nil buffer).symm
    | cons v input ih =>
      have hstep : t.step buffer v = buffer ++ [v] := by rw [Transducer.step, hprocess]; rfl
      rw [List.foldl_cons, hstep, ih, List.append_assoc, List.singleton_append]
  rw [Transducer.outputs_of_silent fun buffer v => by rw [hprocess]; rfl, hbuffer, List.nil_append,
    hfinish, Hook.yield, Hook.yield_writeAll]

end Builtin.Sorting

namespace Pipeline

open Builtin (Sorting.command)
open Builtin.Sorting

variable {settings : ChainSettings} {host : StopToken} {flags : StopFlags} {spec : CommandSpec}
  {stage : Stage}

/-- Alone in a chain the command writes the sort of all objects of the host. -/
theorem Alone.invoke_sorted (h : Alone settings host flags spec stage)
    (hcommand : spec.command = Sorting.command) (input : List Value) :
    ∃ o, ((build settings host flags [spec]).invoke (some input)).1 = .ok o ∧ o.status = .succeeded
      ∧ o.outputValues
        = sorted (stage.closing (build settings host flags [spec]).chain) input := by
  obtain ⟨command, arguments, bindingErrors⟩ := spec
  simp only at hcommand
  subst hcommand
  obtain ⟨preferences, hstage⟩ := h.stage_eq
  have hflows : stage.Flows
      (build settings host flags [⟨Sorting.command, arguments, bindingErrors⟩]).chain :=
    flows (congrArg Stage.command hstage) h.free
  obtain ⟨o, ho, hstatus, hvalues⟩ := h.invoke hflows input
  refine ⟨o, ho, hstatus, hvalues.trans ?_⟩
  generalize stage.bound = bound at hstage
  subst hstage
  refine outputs_of_buffering (fun buffer v => ?_) (fun _ => rfl) input
  change Hook.store (buffer ++ [((bound.insert "InputObject" v .pipelineByValue).get?
    "InputObject").getD .null]) _ = _
  rw [BoundParameters.get?_insert_self]
  rfl

/-! ## What a run yields -/

/-- Where each column of the keys holds texts, or truth values, and otherwise only null, the keys are
totally preordered and the command is a stable sort by them. -/
theorem sorts_stably (settings : ChainSettings) (host : StopToken) (flags : StopFlags)
    (spec : CommandSpec) (stage : Stage) (hcommand : spec.command = Sorting.command)
    (halone : Alone settings host flags spec stage)
    (hunique : stage.bound.switch "Unique" = false) (input : List Value)
    (hcolumns : HasColumns
      (input.map (keyOf (stage.closing (build settings host flags [spec]).chain)))) :
    TotallyPreordered (input.map (keyOf (stage.closing (build settings host flags [spec]).chain)))
      ∧ ∃ o, ((build settings host flags [spec]).invoke (some input)).1 = .ok o
        ∧ o.status = .succeeded
        ∧ SortedStably (stage.bound.switch "Descending")
          (keyOf (stage.closing (build settings host flags [spec]).chain)) input o.outputValues := by
  obtain ⟨o, ho, hstatus, hvalues⟩ := halone.invoke_sorted hcommand input
  refine ⟨totallyPreordered_of_compares (List.map Value.rank) fun a ha b hb => ?_,
    o, ho, hstatus, ?_⟩
  · obtain ⟨v, -, rfl⟩ := List.mem_map.mp ha
    obtain ⟨w, -, rfl⟩ := List.mem_map.mp hb
    exact hcolumns.compares ha hb (length_keyOf _ v w)
  · rw [hvalues]
    exact sortedStably_of_columns hunique hcolumns

/-- Objects are sorted by their names, from the last to the first. -/
def byName : CommandSpec where
  command := Sorting.command
  arguments := [.named "Property" (some (.array [.string "Name"])), .named "Descending" none]

/-- That command with its parameters bound. -/
def byNameStage : Stage :=
  ⟨0, Sorting.command, ([] : List Value), byName.arguments, .created,
    ⟨[⟨"Property", .array [.string "Name"], .named⟩, ⟨"Descending", .bool true, .named⟩]⟩, {},
    .terminating, {}⟩

/-- Objects one of which has no name. -/
def people : List Value :=
  [.object [("Name", .string "a")], .object [], .object [("Name", .string "B")]]

/-- Three objects, one of which has no name, are sorted by name from the last to the first. -/
theorem sorts_stably_byName :
    ∃ o, ((build {} ⟨0, []⟩ ⟨1, []⟩ [byName]).invoke (some people)).1 = .ok o
      ∧ SortedStably true (keyOf (byNameStage.closing (build {} ⟨0, []⟩ ⟨1, []⟩ [byName]).chain))
        people o.outputValues := by
  have hkeys : people.map (keyOf (byNameStage.closing (build {} ⟨0, []⟩ ⟨1, []⟩ [byName]).chain))
      = [[.string "a"], [.null], [.string "B"]] := rfl
  have hcolumns : HasColumns [[.string "a"], [.null], [.string "B"]] := by
    intro j
    cases j with
    | zero => exact .inl (by simp)
    | succ j => exact .inl (by simp)
  obtain ⟨-, o, ho, -, hsorted⟩ := sorts_stably {} ⟨0, []⟩ ⟨1, []⟩ byName byNameStage rfl
    ⟨rfl, rfl, rfl⟩ rfl people (hkeys ▸ hcolumns)
  exact ⟨o, ho, hsorted⟩

/-- Without repetitions, and by keys of texts, the command leaves one object for each key exactly if
no key comes back behind another one of the same place in the order. -/
theorem deduplicates_iff (settings : ChainSettings) (host : StopToken) (flags : StopFlags)
    (spec : CommandSpec) (stage : Stage) (hcommand : spec.command = Sorting.command)
    (halone : Alone settings host flags spec stage)
    (hunique : stage.bound.switch "Unique" = true) (input : List Value)
    (htexts : ∀ v ∈ input,
      IsTexts (keyOf (stage.closing (build settings host flags [spec]).chain) v)) :
    ∃ o, ((build settings host flags [spec]).invoke (some input)).1 = .ok o ∧ o.status = .succeeded
      ∧ (Deduplicated (keyOf (stage.closing (build settings host flags [spec]).chain)) input
          o.outputValues
        ↔ ¬ ComesBack (keyOf (stage.closing (build settings host flags [spec]).chain)) input) := by
  obtain ⟨o, ho, hstatus, hvalues⟩ := halone.invoke_sorted hcommand input
  refine ⟨o, ho, hstatus, ?_⟩
  rw [hvalues]
  exact deduplicated_iff htexts hunique

/-- Texts are sorted without repetitions. -/
def onlyOnce : CommandSpec where
  command := Sorting.command
  arguments := [.named "Unique" none]

/-- That command with its parameters bound. -/
def onlyOnceStage : Stage :=
  ⟨0, Sorting.command, ([] : List Value), onlyOnce.arguments, .created,
    ⟨[⟨"Unique", .bool true, .named⟩]⟩, {}, .terminating, {}⟩

/-- The key of a text is that text, where no property to sort by is given. -/
theorem isTexts_onlyOnce {input : List Value} (h : ∀ v ∈ input, ∃ s, v = .string s) {v : Value}
    (hv : v ∈ input) :
    IsTexts (keyOf (onlyOnceStage.closing (build {} ⟨0, []⟩ ⟨1, []⟩ [onlyOnce]).chain) v) := by
  have hkey : keyOf (onlyOnceStage.closing (build {} ⟨0, []⟩ ⟨1, []⟩ [onlyOnce]).chain) v = [v] :=
    rfl
  rw [hkey]
  exact List.forall_mem_singleton.mpr (h v hv)

/-- Of three letters two are the same up to case, and one of these is left. -/
theorem deduplicates_iff_letters :
    ∃ o, ((build {} ⟨0, []⟩ ⟨1, []⟩ [onlyOnce]).invoke
        (some [.string "b", .string "a", .string "B"])).1 = .ok o
      ∧ Deduplicated (keyOf (onlyOnceStage.closing (build {} ⟨0, []⟩ ⟨1, []⟩ [onlyOnce]).chain))
        [.string "b", .string "a", .string "B"] o.outputValues := by
  obtain ⟨o, ho, -, hiff⟩ := deduplicates_iff {} ⟨0, []⟩ ⟨1, []⟩ onlyOnce onlyOnceStage rfl
    ⟨rfl, rfl, rfl⟩ rfl [.string "b", .string "a", .string "B"]
    fun _ => isTexts_onlyOnce (by simp)
  refine ⟨o, ho, hiff.mpr ?_⟩
  rintro ⟨u, v, w, hsublist, -, htie, -⟩
  cases hsublist.eq_of_length rfl
  revert htie
  decide

/-- A text comes back behind its upper case, from which ASCII does not tell it apart. -/
theorem not_deduplicated_accents :
    ∃ o, ((build {} ⟨0, []⟩ ⟨1, []⟩ [onlyOnce]).invoke
        (some [.string "é", .string "É", .string "é"])).1 = .ok o
      ∧ ¬ Deduplicated (keyOf (onlyOnceStage.closing (build {} ⟨0, []⟩ ⟨1, []⟩ [onlyOnce]).chain))
        [.string "é", .string "É", .string "é"] o.outputValues := by
  have halone : Alone {} ⟨0, []⟩ ⟨1, []⟩ onlyOnce onlyOnceStage := ⟨rfl, rfl, rfl⟩
  obtain ⟨o, ho, -, hvalues⟩ := halone.invoke_sorted rfl
    [.string "é", .string "É", .string "é"]
  refine ⟨o, ho, ?_⟩
  rw [hvalues, deduplicated_iff (fun _ => isTexts_onlyOnce (by simp)) rfl, not_not]
  exact ⟨.string "é", .string "É", .string "é", .refl _, by decide, by decide, by decide⟩

end Pipeline

end CommandChain
