import CommandChain.Builtin.Measurement
import CommandChain.Proofs.Streaming.Telling
import Mathlib.Data.List.Induction
/-!
# The command that measures

The command counts the values that it finds and keeps running statistics of those that are numbers.
`Question.summary` says what they are for all objects at once: each statistic is a fold over the numbers
in the order of their arrival. The memory of the command is the summary of the objects that have arrived,
and an object without a value to measure, or with one that is no number, leaves an error of its own.
-/

namespace CommandChain

namespace Builtin.Measurement

/-! ## What is asked, and the answer -/

/-- What is asked of the command: the property to measure in place of the objects, and statistics. -/
structure Question where
  property? : Option String
  sum : Bool
  average : Bool
  maximum : Bool
  minimum : Bool
deriving DecidableEq

namespace Question

/-- What the parameters of the command ask. -/
def ofBound (bound : BoundParameters) : Question where
  property? := bound.text? "Property"
  sum := bound.switch "Sum"
  average := bound.switch "Average"
  maximum := bound.switch "Maximum"
  minimum := bound.switch "Minimum"

/-- Some statistic is asked for. -/
def wantsNumbers (q : Question) : Bool :=
  q.sum || q.average || q.maximum || q.minimum

/-- What is measured of an object; an object without the property has nothing to measure. -/
def measured? (q : Question) (adapter : Adapter) (v : Value) : Option Value :=
  match q.property? with
  | none => some v
  | some name => adapter.property? v name

/-- The measured values of some objects. Null is none. -/
def values (q : Question) (adapter : Adapter) (input : List Value) : List Value :=
  (input.filterMap (q.measured? adapter)).filter (!·.isNull)

/-- The number that a value converts to. -/
def number? (adapter : Adapter) (v : Value) : Option Float :=
  match adapter.convertTo v .float with
  | .ok w => w.asFloat
  | .error _ => none

/-- The numbers among the measured values of some objects. -/
def numbers (q : Question) (adapter : Adapter) (input : List Value) : List Float :=
  (q.values adapter input).filterMap (number? adapter)

/-- The sum of some numbers, from the first to the last. -/
def total? (xs : List Float) : Option Float :=
  if xs.isEmpty then none else some (xs.foldl (· + ·) 0)

/-- The sum of some numbers, divided by how many they are. -/
def mean? (xs : List Float) : Option Float :=
  if xs.isEmpty then none else some (xs.foldl (· + ·) 0 / Float.ofNat xs.length)

/-- What is left of some numbers where one of two is picked, from the first to the last. -/
def extreme? (pick : Float → Float → Float) : List Float → Option Float
  | [] => none
  | x :: xs => some (xs.foldl pick x)

/-- A statistic that may have been asked for. -/
def answer (wanted : Bool) (x? : Option Float) : Value :=
  if wanted then (x?.map Value.float).getD .null else .null

/-- The summary of some objects. -/
def summary (q : Question) (adapter : Adapter) (input : List Value) : Value :=
  .object [
    ("Average", answer q.average (mean? (q.numbers adapter input))),
    ("Count", .int (Int64.ofNat (q.values adapter input).length)),
    ("Maximum", answer q.maximum (extreme? greater (q.numbers adapter input))),
    ("Minimum", answer q.minimum (extreme? lesser (q.numbers adapter input))),
    ("Property", (q.property?.map Value.string).getD .null),
    ("Sum", answer q.sum (total? (q.numbers adapter input)))]

/-- The error of an object without the property. -/
def lacking (property : String) (v : Value) : ErrorRecord :=
  { message := "Property '" ++ property ++ "' cannot be found on the input object"
    category := .invalidArgument
    errorId := "PropertyNotFound"
    target := some v
    phase := some .process }

/-- The error of an object with a value that is no number. -/
def uncounted (w v : Value) : ErrorRecord :=
  { message := "Input \"" ++ w.display ++ "\" is not numeric"
    category := .invalidType
    errorId := "NonNumericInput"
    target := some v
    phase := some .process }

/-- The error that an object leaves: it lacks the property, or its value is no number where a statistic
is asked for. -/
def objection? (q : Question) (adapter : Adapter) (v : Value) : Option ErrorRecord :=
  match q.measured? adapter v with
  | none => q.property?.map (lacking · v)
  | some w =>
    if q.wantsNumbers && !w.isNull && (number? adapter w).isNone then some (uncounted w v) else none

end Question

/-! ## Running statistics -/

variable {q : Question} {adapter : Adapter} {seen : List Value} {m memory : Memory} {v w : Value}
  {xs : List Float} {x : Float}

/-- One more number is picked against the extreme of those before it. -/
theorem Question.extreme?_append (pick : Float → Float → Float) (xs : List Float) (x : Float) :
    extreme? pick (xs ++ [x]) = some (match extreme? pick xs with
      | some y => pick y x
      | none => x) := by
  cases xs with
  | nil => rfl
  | cons y ys => rw [List.cons_append, extreme?, extreme?, List.foldl_append]; rfl

/-- The memory holds the statistics of some numbers. -/
structure Memory.Summarizes (m : Memory) (xs : List Float) : Prop where
  numbers : m.numbers = xs.length
  sum : m.sum = xs.foldl (· + ·) 0
  least : m.least = Question.extreme? lesser xs
  greatest : m.greatest = Question.extreme? greater xs

/-- A number that is recorded joins the numbers that the memory summarizes. -/
theorem Memory.Summarizes.record (h : m.Summarizes xs) (x : Float) :
    (m.record x).Summarizes (xs ++ [x]) where
  numbers := by rw [List.length_append, ← h.numbers]; rfl
  sum := by rw [List.foldl_append, ← h.sum]; rfl
  least := by rw [Question.extreme?_append, ← h.least]; rfl
  greatest := by rw [Question.extreme?_append, ← h.greatest]; rfl

/-- The memory after a value was counted. -/
def Memory.counted (m : Memory) : Memory :=
  { m with count := m.count + 1 }

/-- Counting a value leaves the numbers that the memory summarizes as they are. -/
theorem Memory.Summarizes.counted (h : m.Summarizes xs) : m.counted.Summarizes xs :=
  ⟨h.numbers, h.sum, h.least, h.greatest⟩

/-- The memory is that of a command that has measured some objects. -/
structure Question.Kept (q : Question) (adapter : Adapter) (seen : List Value) (m : Memory) : Prop where
  count : m.count = (q.values adapter seen).length
  statistics : q.wantsNumbers = true → m.Summarizes (q.numbers adapter seen)

namespace Question

/-- Filtering a single value gives what is made of it, if anything. -/
theorem filterMap_singleton {α β : Type} (f : α → Option β) (a : α) :
    [a].filterMap f = (f a).toList := by
  rw [List.filterMap_cons]
  cases f a <;> rfl

/-- The values measured in objects and one more are those of the objects and that of the one, unless
it is null. -/
theorem values_append (q : Question) (adapter : Adapter) (seen : List Value) (v : Value) :
    q.values adapter (seen ++ [v])
      = q.values adapter seen ++ (q.measured? adapter v).toList.filter (!·.isNull) := by
  rw [values, values, List.filterMap_append, List.filter_append, filterMap_singleton]

/-- Nothing has been measured yet. -/
theorem kept_fresh (q : Question) (adapter : Adapter) : q.Kept adapter [] {} :=
  ⟨rfl, fun _ => ⟨rfl, rfl, rfl, rfl⟩⟩

/-- An object without a value to measure, or with null, changes nothing. -/
theorem Kept.ignore (h : q.Kept adapter seen m)
    (hnone : (q.measured? adapter v).toList.filter (!·.isNull) = []) :
    q.Kept adapter (seen ++ [v]) m := by
  have hvalues : q.values adapter (seen ++ [v]) = q.values adapter seen := by
    rw [values_append, hnone, List.append_nil]
  refine ⟨hvalues ▸ h.count, fun hwants => ?_⟩
  rw [numbers, hvalues]
  exact h.statistics hwants

/-- A value is counted, and taken into the statistics where it is a number. -/
theorem Kept.take (h : q.Kept adapter seen m) (hmeasured : q.measured? adapter v = some w)
    (hnull : w.isNull = false) (after : Memory) (hcount : after.count = m.count + 1)
    (hstatistics : q.wantsNumbers = true →
      after.Summarizes (q.numbers adapter seen ++ (number? adapter w).toList)) :
    q.Kept adapter (seen ++ [v]) after := by
  have hvalues : q.values adapter (seen ++ [v]) = q.values adapter seen ++ [w] := by
    rw [values_append, hmeasured, Option.toList_some, List.filter_singleton, hnull]
    rfl
  refine ⟨?_, fun hwants => ?_⟩
  · rw [hcount, h.count, hvalues, List.length_append, List.length_singleton]
  · rw [numbers, hvalues, List.filterMap_append, filterMap_singleton]
    exact hstatistics hwants

end Question

/-! ## Calls -/

variable {call : Call} {flags : StopFlags}

/-- What an object tells the host. -/
def Question.told (q : Question) (adapter : Adapter) (v : Value) : List Payload :=
  (q.objection? adapter v).toList.map fun e => .message (.error e)

/-- The command looks for numbers exactly if the question wants some. -/
theorem wantsStatistics_eq (hasks : Question.ofBound call.parameters = q) :
    wantsStatistics call = q.wantsNumbers := by
  subst hasks
  simp [wantsStatistics, Question.wantsNumbers, Question.ofBound, Bool.or_assoc]

/-- A measured value tells the host what the question says of its object, and is remembered among
the objects seen. -/
theorem measure_comesTo (hasks : Question.ofBound call.parameters = q) (hphase : call.phase = .process)
    (hinput : call.input = some v) (h : q.Kept call.adapter seen m)
    (hmeasured : q.measured? call.adapter v = some w) :
    ∃ after, (measure call m w).ComesTo call flags m after (q.told call.adapter v)
      ∧ q.Kept call.adapter (seen ++ [v]) after := by
  have hnumber : Question.number? call.adapter w = number? call w := rfl
  cases hnull : w.isNull with
  | true =>
    have hcall : measure call m w = .done .ok := by rw [measure, hnull]; rfl
    have htold : q.told call.adapter v = [] := by
      simp [Question.told, Question.objection?, hmeasured, hnull]
    rw [hcall, htold]
    exact ⟨m, .done rfl, h.ignore (by simp [hmeasured, hnull])⟩
  | false =>
    cases hwants : q.wantsNumbers with
    | false =>
      have hcall : measure call m w = .store m.counted (.done .ok) := by
        simp [measure, hnull, wantsStatistics_eq hasks, hwants, Memory.counted]
      have htold : q.told call.adapter v = [] := by
        simp [Question.told, Question.objection?, hmeasured, hwants]
      rw [hcall, htold]
      refine ⟨m.counted, .store (.done rfl), h.take hmeasured hnull _ rfl ?_⟩
      rw [hwants]
      exact nofun
    | true =>
      have hcounted := (h.statistics hwants).counted
      cases hfloat : number? call w with
      | some x =>
        have hcall : measure call m w = .store (m.counted.record x) (.done .ok) := by
          simp [measure, hnull, wantsStatistics_eq hasks, hwants, hfloat, Memory.counted]
        have htold : q.told call.adapter v = [] := by
          simp [Question.told, Question.objection?, hmeasured, hnumber, hfloat]
        rw [hcall, htold]
        refine ⟨m.counted.record x, .store (.done rfl), h.take hmeasured hnull _ rfl fun _ => ?_⟩
        rw [hnumber, hfloat]
        exact hcounted.record x
      | none =>
        have hcall : measure call m w = .store m.counted (.done (notNumeric w)) := by
          simp [measure, hnull, wantsStatistics_eq hasks, hwants, hfloat, Memory.counted]
        have htold : q.told call.adapter v = (notNumeric w).told call.phase call.input := by
          rw [hphase, hinput, Question.told, Question.objection?, hmeasured]
          simp only [hwants, hnull, hnumber, hfloat]
          rfl
        rw [hcall, htold]
        refine ⟨m.counted, .store (.done rfl), h.take hmeasured hnull _ rfl fun _ => ?_⟩
        rw [hnumber, hfloat, Option.toList_none, List.append_nil]
        exact hcounted

/-- Measuring only changes the memory. -/
theorem measure_inward (call : Call) (m : Memory) (w : Value) : (measure call m w).Inward := by
  unfold measure
  split
  · trivial
  · simp only
    split
    · split <;> trivial
    · trivial

/-- A call for an object only changes the memory, and returns. -/
theorem process_inward (call : Call) (m : Memory) : (process call m).Inward := by
  unfold process
  split
  · exact measure_inward call m _
  · split
    · exact measure_inward call m _
    · trivial

/-- The call for an object measures it. -/
theorem process_comesTo (hasks : Question.ofBound call.parameters = q) (hphase : call.phase = .process)
    (hinput : call.input = some v) (hobject : call.inputObject = v) (h : q.Kept call.adapter seen m) :
    ∃ after, (process call m).ComesTo call flags m after (q.told call.adapter v)
      ∧ q.Kept call.adapter (seen ++ [v]) after := by
  have hproperty : call.parameters.text? "Property" = q.property? := congrArg Question.property? hasks
  cases hname : q.property? with
  | none =>
    rw [process, hproperty, hname, hobject]
    exact measure_comesTo hasks hphase hinput h (by rw [Question.measured?, hname])
  | some name =>
    have hmeasured : q.measured? call.adapter v = call.adapter.property? v name := by
      rw [Question.measured?, hname]
    cases hread : call.adapter.property? v name with
    | some w =>
      have hcall : process call m = measure call m w := by
        simp only [process, hproperty, hname, hobject, hread]
      rw [hcall]
      exact measure_comesTo hasks hphase hinput h (hmeasured.trans hread)
    | none =>
      have hcall : process call m = .done (propertyNotFound name) := by
        simp only [process, hproperty, hname, hobject, hread]
      have htold : q.told call.adapter v = (propertyNotFound name).told call.phase call.input := by
        rw [hphase, hinput, Question.told, Question.objection?, hmeasured, hread, hname]
        rfl
      rw [hcall, htold]
      refine ⟨m, .done rfl, h.ignore ?_⟩
      rw [hmeasured, hread]
      rfl

/-- A statistic is in the summary by its name, with its number only if the question asks for it. -/
theorem statistic_eq {name : String} {wanted : Bool} {x? y? : Option Float}
    (hwanted : call.parameters.switch name = wanted) (h : wanted = true → x? = y?) :
    statistic call name x? = (name, Question.answer wanted y?) := by
  rw [statistic, Question.answer, hwanted]
  cases wanted with
  | false => rfl
  | true => rw [h rfl]

/-- What is known of some numbers where there are any. -/
theorem known_eq (h : m.Summarizes xs) (x : Float) :
    (if m.numbers == 0 then none else some x) = if xs.isEmpty then none else some x := by
  rw [h.numbers]
  cases xs <;> rfl

/-- The memory gives the answer to what was asked. -/
theorem summary_eq (hasks : Question.ofBound call.parameters = q) (h : q.Kept call.adapter seen m) :
    summary call m = q.summary call.adapter seen := by
  have hsum : statistic call "Sum" (if m.numbers == 0 then none else some m.sum)
      = ("Sum", Question.answer q.sum (Question.total? (q.numbers call.adapter seen))) := by
    refine statistic_eq (congrArg Question.sum hasks) fun hwanted => ?_
    have hnumbers := h.statistics (by simp [Question.wantsNumbers, hwanted])
    rw [known_eq hnumbers, hnumbers.sum, Question.total?]
  have haverage : statistic call "Average"
        (if m.numbers == 0 then none else some (m.sum / Float.ofNat m.numbers))
      = ("Average", Question.answer q.average (Question.mean? (q.numbers call.adapter seen))) := by
    refine statistic_eq (congrArg Question.average hasks) fun hwanted => ?_
    have hnumbers := h.statistics (by simp [Question.wantsNumbers, hwanted])
    rw [known_eq hnumbers, hnumbers.sum, hnumbers.numbers, Question.mean?]
  have hmaximum : statistic call "Maximum" m.greatest = ("Maximum",
      Question.answer q.maximum (Question.extreme? greater (q.numbers call.adapter seen))) :=
    statistic_eq (congrArg Question.maximum hasks) fun hwanted =>
      (h.statistics (by simp [Question.wantsNumbers, hwanted])).greatest
  have hminimum : statistic call "Minimum" m.least = ("Minimum",
      Question.answer q.minimum (Question.extreme? lesser (q.numbers call.adapter seen))) :=
    statistic_eq (congrArg Question.minimum hasks) fun hwanted =>
      (h.statistics (by simp [Question.wantsNumbers, hwanted])).least
  have hproperty : call.parameters.text? "Property" = q.property? := congrArg Question.property? hasks
  rw [summary, hsum, haverage, hmaximum, hminimum, hproperty, h.count]
  rfl

/-- The call to end writes the summary. -/
theorem finish_comesTo (hasks : Question.ofBound call.parameters = q)
    (h : q.Kept call.adapter seen m) :
    (command.finish call m).ComesTo call flags m m [.object (q.summary call.adapter seen)] := by
  rw [← summary_eq hasks h]
  exact .write _ (.done rfl) (.inl rfl)

/-! ## All calls together -/

/-- A stage of the command before it begins. -/
def stageOf (arguments : List Argument) (bound : BoundParameters) (preferences : Preferences)
    (bindingErrors : BindingErrorAction) : Stage :=
  ⟨0, command, ({} : Memory), arguments, .created, bound, preferences, bindingErrors, {}⟩

section

variable (arguments : List Argument) {bound : BoundParameters} (preferences : Preferences)
  (bindingErrors : BindingErrorAction) {chain : Chain}

/-- An object does not change what is asked. -/
theorem ofBound_insert (bound : BoundParameters) (v : Value) :
    Question.ofBound (bound.insert "InputObject" v .pipelineByValue) = Question.ofBound bound := by
  have hapart : ∀ name ∈ ["Property", "Sum", "Average", "Maximum", "Minimum"],
      Text.sameName "InputObject" name = false := by decide
  have hother := fun name hname =>
    bound.get?_insert_of_ne (hapart name hname) v .pipelineByValue
  simp only [List.forall_mem_cons] at hother
  obtain ⟨hproperty, hsum, haverage, hmaximum, hminimum, -⟩ := hother
  simp only [Question.ofBound, BoundParameters.text?, BoundParameters.switch, hproperty, hsum, haverage,
    hmaximum, hminimum]

/-- A call for an object tells what the question says of it, and remembers it among the objects
seen. -/
theorem transducer_process (h : (Question.ofBound bound).Kept chain.adapter seen m) (v : Value) :
    ∃ after, Hook.ComesTo ((stageOf arguments bound preferences bindingErrors).call chain .process
        (bound.insert "InputObject" v .pipelineByValue) (some v)) chain.flags
      (((stageOf arguments bound preferences bindingErrors).transducer chain).process m v) m after
      ((Question.ofBound bound).told chain.adapter v)
    ∧ (Question.ofBound bound).Kept chain.adapter (seen ++ [v]) after := by
  refine process_comesTo (ofBound_insert bound v) rfl rfl ?_ h
  rw [Call.inputObject]
  exact congrArg (·.getD .null) (bound.get?_insert_self "InputObject" v .pipelineByValue)

/-- The end writes one object, the summary of the objects seen. -/
theorem transducer_finish (h : (Question.ofBound bound).Kept chain.adapter seen m) :
    Hook.ComesTo ((stageOf arguments bound preferences bindingErrors).closing chain) chain.flags
      (((stageOf arguments bound preferences bindingErrors).transducer chain).finish m) m m
      [.object ((Question.ofBound bound).summary chain.adapter seen)] :=
  finish_comesTo rfl h

/-- What the command has measured, and one more object. -/
theorem transducer_step (h : (Question.ofBound bound).Kept chain.adapter seen m) (v : Value) :
    (Question.ofBound bound).Kept chain.adapter (seen ++ [v])
      (((stageOf arguments bound preferences bindingErrors).transducer chain).step m v) := by
  obtain ⟨after, hcall, hkept⟩ := transducer_process arguments preferences bindingErrors h v
  have hstep : ((stageOf arguments bound preferences bindingErrors).transducer chain).step m v = after :=
    hcall.leaves
  rw [hstep]
  exact hkept

/-- The command streams, and it needs all objects. -/
theorem streams (h : (Question.ofBound bound).Kept chain.adapter seen m) :
    ((stageOf arguments bound preferences bindingErrors).transducer chain).Streams preferences
      (fun _ => False) m := by
  refine .of_invariant (p := fun m => ∃ seen, (Question.ofBound bound).Kept chain.adapter seen m)
    (fun m v h => ?_) (fun m v h => ?_) (fun m h => ?_) ⟨seen, h⟩
  · obtain ⟨seen, h⟩ := h
    exact ⟨seen ++ [v], transducer_step arguments preferences bindingErrors h v⟩
  · obtain ⟨seen, h⟩ := h
    obtain ⟨after, hcall, -⟩ := transducer_process arguments preferences bindingErrors h v
    exact hcall.streams
  · obtain ⟨seen, h⟩ := h
    exact (transducer_finish arguments preferences bindingErrors h).streams

/-- What the calls for some more objects and to end tell the host: the errors that the objects leave,
and then the summary of all. -/
theorem toldForAll_append (input : List Value)
    (h : (Question.ofBound bound).Kept chain.adapter seen m) :
    (stageOf arguments bound preferences bindingErrors).toldForAll chain m input
        ++ (stageOf arguments bound preferences bindingErrors).toldAtEnd chain
          (input.foldl ((stageOf arguments bound preferences bindingErrors).transducer chain).step m)
      = input.flatMap ((Question.ofBound bound).told chain.adapter)
        ++ [.object ((Question.ofBound bound).summary chain.adapter (seen ++ input))] := by
  induction input generalizing seen m with
  | nil =>
    rw [List.append_nil]
    exact (transducer_finish arguments preferences bindingErrors h).tells
  | cons v input ih =>
    obtain ⟨after, hcall, -⟩ := transducer_process arguments preferences bindingErrors h v
    have htold : (stageOf arguments bound preferences bindingErrors).toldFor chain m v
        = (Question.ofBound bound).told chain.adapter v := hcall.tells
    have hrest := ih (transducer_step arguments preferences bindingErrors h v)
    rw [List.append_assoc, List.singleton_append] at hrest
    refine (Stage.toldForAll_cons_append (stageOf arguments bound preferences bindingErrors) chain m v
      input _).trans ?_
    rw [htold, List.flatMap_cons, List.append_assoc]
    exact congrArg _ hrest

/-- The command tells the host all that it has to tell. -/
theorem tells (hfree : bound.contains "InputObject" = false)
    (herrors : preferences.errorAction ≠ .stop) :
    (stageOf arguments bound preferences bindingErrors).Tells chain where
  parameter := ⟨{ name := "InputObject", pipeline := .byValue }, rfl, rfl, rfl, hfree⟩
  errors := herrors
  inward := trivial
  begins := rfl
  behaves := streams arguments preferences bindingErrors (Question.kept_fresh _ _)
  stop := rfl
  dispose := rfl

/-- All calls together tell the host the errors that the objects leave, and then the summary. -/
theorem told_eq (input : List Value) :
    (stageOf arguments bound preferences bindingErrors).told chain input
      = input.flatMap ((Question.ofBound bound).told chain.adapter)
        ++ [.object ((Question.ofBound bound).summary chain.adapter input)] :=
  toldForAll_append arguments preferences bindingErrors input (Question.kept_fresh _ _)

end

end Builtin.Measurement

/-! ## Runs -/

namespace Pipeline

open Builtin (Measurement.command)
open Builtin.Measurement

/-- **Measuring is folding.** Alone in a chain the command leaves one error for each object without a
value to measure or with one that is no number, in the order of the objects, and writes one summary
behind the last of them: how many values there are, and the folds over the numbers among them. -/
theorem measures_by_folds (settings : ChainSettings) (host : StopToken) (flags : StopFlags)
    (spec : CommandSpec) (stage : Stage) (hcommand : spec.command = Measurement.command)
    (halone : Alone settings host flags spec stage)
    (herrors : stage.preferences.errorAction ≠ .stop) (input : List Value) :
    (∀ call m, (Measurement.command.begin call m).Inward ∧ (Measurement.command.process call m).Inward)
      ∧ ∃ o, ((build settings host flags [spec]).invoke (some input)).1 = .ok o
        ∧ o.status = .succeeded
        ∧ o.records.map (fun r => (r.source, r.payload))
          = (input.flatMap ((Question.ofBound stage.bound).told settings.adapter)
              ++ [Payload.object ((Question.ofBound stage.bound).summary settings.adapter input)]).map
            (stage.source, ·) := by
  refine ⟨fun call m => ⟨trivial, process_inward call m⟩, ?_⟩
  obtain ⟨command, arguments, bindingErrors⟩ := spec
  simp only at hcommand
  subst hcommand
  obtain ⟨preferences, hstage⟩ := halone.stage_eq
  have hfree := halone.free
  generalize stage.bound = bound at hstage hfree
  change stage = stageOf arguments bound preferences _ at hstage
  subst hstage
  have htold := halone.invoke_told (tells arguments preferences _ hfree herrors) input
  rw [told_eq arguments preferences _ input] at htold
  exact htold

/-- The sizes of objects are measured. -/
def sizes : CommandSpec where
  command := Measurement.command
  arguments := [.named "Property" (some (.string "Size")), .named "Sum" none, .named "Minimum" none]

/-- That command with its parameters bound. -/
def sizesStage : Stage :=
  ⟨0, Measurement.command, ({} : Memory), sizes.arguments, .created,
    ⟨[⟨"Property", .string "Size", .named⟩, ⟨"Sum", .bool true, .named⟩,
      ⟨"Minimum", .bool true, .named⟩]⟩, {}, .terminating, {}⟩

/-- Objects one of which has no size; of the others one size is null and one is no number. -/
def sized : List Value :=
  [.object [("Size", .int 2)], .object [], .object [("Size", .null)],
    .object [("Size", .string "large")], .object [("Size", .string "1")]]

/-- What `sizes` asks. -/
def sizesAsked : Question :=
  ⟨some "Size", true, false, false, true⟩

/-- Of five objects measured by their sizes, the one without a size and the one whose size is no
number are told as errors. The count is of the sizes that are not null, the sum and the minimum are
of the numbers among them. -/
theorem measures_by_folds_sized :
    ∃ o, ((build {} ⟨0, []⟩ ⟨1, []⟩ [sizes]).invoke (some sized)).1 = .ok o ∧ o.status = .succeeded
      ∧ o.records.map Record.payload
        = [.message (.error (Question.lacking "Size" (.object []))),
          .message (.error (Question.uncounted (.string "large") (.object [("Size", .string "large")]))),
          .object (.object [("Average", .null), ("Count", .int 3), ("Maximum", .null),
            ("Minimum", .float 1), ("Property", .string "Size"), ("Sum", .float 3)])] := by
  obtain ⟨-, o, ho, hstatus, hrecords⟩ := measures_by_folds {} ⟨0, []⟩ ⟨1, []⟩ sizes sizesStage rfl
    ⟨rfl, rfl, rfl⟩ (by decide) sized
  refine ⟨o, ho, hstatus, ?_⟩
  have hpayloads := congrArg (List.map Prod.snd) hrecords
  rw [List.map_map, List.map_map] at hpayloads
  -- The kernel computes with doubles.
  have hnumbers : sizesAsked.numbers (.standard .empty) sized = [2, 1] := by decide +kernel
  have htotal : Question.total? [2, 1] = some 3 := by decide +kernel
  have hleast : Question.extreme? lesser [2, 1] = some 1 := by decide +kernel
  have hlarge : Question.number? (.standard .empty) (.string "large") = none := by decide +kernel
  have hone : Question.number? (.standard .empty) (.string "1") = some 1 := by decide +kernel
  have hsummary : sizesAsked.summary (.standard .empty) sized
      = .object [("Average", .null), ("Count", .int 3), ("Maximum", .null), ("Minimum", .float 1),
        ("Property", .string "Size"), ("Sum", .float 3)] := by
    rw [Question.summary, hnumbers, htotal, hleast]
    rfl
  have hread (s : String) : sizesAsked.measured? (.standard .empty)
      (.object [("Size", .string s)]) = some (.string s) := rfl
  have htold : sized.flatMap (sizesAsked.told (.standard .empty))
      = [.message (.error (Question.lacking "Size" (.object []))),
        .message (.error (Question.uncounted (.string "large")
          (.object [("Size", .string "large")])))] := by
    simp only [sized, List.flatMap_cons, Question.told, Question.objection?, hread, hlarge, hone]
    rfl
  have hasked : Question.ofBound sizesStage.bound = sizesAsked := by decide
  refine hpayloads.trans ?_
  rw [hasked]
  change List.map _ (sized.flatMap (sizesAsked.told (.standard .empty))
    ++ [.object (sizesAsked.summary (.standard .empty) sized)]) = _
  rw [htold, hsummary]
  rfl

end Pipeline

end CommandChain
