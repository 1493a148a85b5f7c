import CommandChain.Proofs.Streaming.Alone
import Mathlib.Data.List.DropRight
/-!
# The window of objects that are selected

The command writes the first objects behind those that it skips as they arrive, and keeps the last of
the others in a buffer that it writes at the end. What it does for a list of objects is told by what
its memory says of the window that is left.
-/

namespace CommandChain

namespace Builtin.Selection

/-- The counts that a window is given by. -/
structure Window where
  first : Option Nat
  last : Option Nat
  skip : Nat

/-- The objects in a window: all that are not skipped, or the first and the last of them. -/
def Window.select (w : Window) (input : List Value) : List Value :=
  let rest := input.drop w.skip
  match w.first, w.last with
  | none, none => rest
  | some first, none => rest.take first
  | none, some last => rest.rtake last
  | some first, some last => rest.take first ++ (rest.drop first).rtake last

/-- The counts that are bound are those of a window. -/
structure Window.Bound (w : Window) (bound : BoundParameters) : Prop where
  first : (bound.int? "First").map Int64.toInt = w.first.map Int.ofNat
  last : (bound.int? "Last").map Int64.toInt = w.last.map Int.ofNat
  skip : ((bound.int? "Skip").map Int64.toInt).getD 0 = w.skip

/-! ## The buffer -/

section

variable {size : Nat} {tail vs : List Value} {v : Value}

/-- The last of a list are all of it, if it is no longer than asked for. -/
theorem rtake_of_length_le (h : tail.length ≤ size) : tail.rtake size = tail := by
  rw [List.rtake, Nat.sub_eq_zero_of_le h, List.drop_zero]

theorem length_rtake_le (size : Nat) (vs : List Value) : (vs.rtake size).length ≤ size := by
  rw [List.rtake, List.length_drop]
  omega

/-- Of a list behind its own last elements, the last elements are those of the whole. -/
theorem rtake_rtake_append (size : Nat) (tail vs : List Value) :
    (tail.rtake size ++ vs).rtake size = (tail ++ vs).rtake size := by
  rw [List.rtake_eq_reverse_take_reverse, List.rtake_eq_reverse_take_reverse,
    List.rtake_eq_reverse_take_reverse, List.reverse_append, List.reverse_append,
    List.reverse_reverse, List.take_append, List.take_append, List.take_take]
  congr 3
  omega

/-- The buffer keeps the latest objects. -/
theorem keepLast_eq (h : tail.length ≤ size) (v : Value) :
    keepLast size tail v = (tail ++ [v]).rtake size := by
  unfold keepLast
  rw [List.rtake, List.length_append, List.length_singleton]
  by_cases hzero : size = 0
  · subst hzero
    obtain rfl := List.eq_nil_of_length_eq_zero (Nat.le_zero.mp h)
    rfl
  · rw [if_neg (by rwa [beq_iff_eq])]
    by_cases hfull : tail.length = size
    · rw [if_pos (beq_iff_eq.mpr hfull), hfull, Nat.add_sub_cancel_left,
        List.drop_append_of_le_length (by omega)]
    · rw [if_neg (by rwa [beq_iff_eq]), Nat.sub_eq_zero_of_le (by omega), List.drop_zero]

end

/-! ## What is written -/

namespace Memory

variable (m : Memory)

/-- What is written of the next objects as they arrive. -/
def passed (vs : List Value) : List Value :=
  match m.first, m.last with
  | none, none => vs
  | none, some _ => []
  | some first, _ => vs.take (first - m.written)

/-- What is in the buffer at the end. -/
def kept (vs : List Value) : List Value :=
  match m.last with
  | none => []
  | some size => (m.tail ++ match m.first with
    | none => vs
    | some first => vs.drop (first - m.written)).rtake size

/-- The buffer is not larger than asked for. -/
def Bounded : Prop :=
  m.tail.length ≤ m.last.getD 0

end Memory

/-- An object of the window is taken: it is written, goes to the buffer or is dropped, and what comes
behind it is dealt with by the memory that is left. -/
structure Memory.Takes (m : Memory) (v : Value) (y : Yield Memory) : Prop where
  properties : y.memory.properties = m.properties
  skip : y.memory.skip = m.skip
  seen : y.memory.seen = m.seen + 1
  bounded : y.memory.Bounded
  passed : ∀ vs, m.passed (v :: vs) = y.written ++ y.memory.passed vs
  kept : ∀ vs, m.kept (v :: vs) = y.memory.kept vs

variable {m : Memory} {v : Value}

/-- An object behind the first ones goes to the buffer. -/
theorem takes_of_last {size : Nat} (hbounded : m.Bounded) (hlast : m.last = some size)
    (hfirst : ∀ first, m.first = some first → first ≤ m.written) (v : Value) :
    m.Takes v ⟨{ m with seen := m.seen + 1, tail := keepLast size m.tail v }, [], .ok⟩ := by
  have hlength : m.tail.length ≤ size := by
    have := hbounded
    rwa [Memory.Bounded, hlast] at this
  have hbuffer := keepLast_eq hlength v
  refine ⟨rfl, rfl, rfl, ?_, fun vs => ?_, fun vs => ?_⟩
  · change (keepLast size m.tail v).length ≤ m.last.getD 0
    rw [hbuffer, hlast]
    exact length_rtake_le size _
  · unfold Memory.passed
    cases hcase : m.first with
    | none => simp only [hlast, List.nil_append]
    | some first =>
      simp only [Nat.sub_eq_zero_of_le (hfirst first hcase), List.take_zero, List.nil_append]
  · unfold Memory.kept
    simp only [hlast, hbuffer]
    cases hcase : m.first with
    | none =>
      simp only
      rw [rtake_rtake_append, List.append_assoc, List.singleton_append]
    | some first =>
      simp only [Nat.sub_eq_zero_of_le (hfirst first hcase), List.drop_zero]
      rw [rtake_rtake_append, List.append_assoc, List.singleton_append]

/-- An object that is not skipped is taken, with the selected properties. -/
theorem process_takes (call : Call) (flags : StopFlags) (hbounded : m.Bounded)
    (hskip : ¬ m.seen < m.skip) (memory : Memory) :
    m.Takes (project m.properties call.adapter call.inputObject)
      ((process call m).yield flags memory) := by
  obtain ⟨properties, first, last, skip, seen, written, tail⟩ := m
  simp only at hskip
  unfold process
  simp only [hskip, if_false, Hook.yield]
  generalize project properties call.adapter call.inputObject = v
  cases first with
  | none =>
    cases last with
    | none => exact ⟨rfl, rfl, rfl, hbounded, fun _ => rfl, fun _ => rfl⟩
    | some size => exact takes_of_last hbounded rfl (by simp) v
  | some first =>
    by_cases hroom : written < first
    · have hleft : first - written = first - (written + 1) + 1 := by omega
      have htaken : Memory.Takes ⟨properties, some first, last, skip, seen, written, tail⟩ v
          ⟨⟨properties, some first, last, skip, seen + 1, written + 1, tail⟩, [v], .ok⟩ := by
        refine ⟨rfl, rfl, rfl, hbounded, fun vs => ?_, fun vs => ?_⟩
        · simp only [Memory.passed, hleft, List.take_succ_cons, List.singleton_append]
        · simp only [Memory.kept, hleft, List.drop_succ_cons]
      simp only [if_pos hroom, writeFirst, Hook.yield]
      split <;> exact htaken
    · simp only [if_neg hroom]
      have hfull : first ≤ written := Nat.le_of_not_lt hroom
      cases last with
      | none =>
        have hdropped : Memory.Takes ⟨properties, some first, none, skip, seen, written, tail⟩ v
            ⟨⟨properties, some first, none, skip, seen + 1, written, tail⟩, [], .ok⟩ := by
          refine ⟨rfl, rfl, rfl, hbounded, fun vs => ?_, fun _ => rfl⟩
          simp only [Memory.passed, Nat.sub_eq_zero_of_le hfull, List.take_zero, List.nil_append]
        exact hdropped
      | some size => exact takes_of_last hbounded rfl (by simpa using hfull) v

variable {t : Transducer Memory} (call : Value → Call) (adapter : Adapter)

/-- What the command writes for the objects that come from a memory on. -/
theorem outputs_eq (hprocess : ∀ m v, t.process m v = process (call v) m)
    (hfinish : ∀ m, t.finish m = finish m) (hinput : ∀ v, (call v).inputObject = v)
    (hadapter : ∀ v, (call v).adapter = adapter) (hbounded : m.Bounded) (vs : List Value) :
    t.outputs m vs
      = m.passed ((vs.drop (m.skip - m.seen)).map (project m.properties adapter))
        ++ m.kept ((vs.drop (m.skip - m.seen)).map (project m.properties adapter)) := by
  induction vs generalizing m with
  | nil =>
    have hpassed : m.passed [] = [] := by
      unfold Memory.passed
      split <;> simp
    have hkept : m.kept [] = m.tail := by
      obtain ⟨properties, first, last, skip, seen, written, tail⟩ := m
      cases last with
      | none => exact (List.eq_nil_of_length_eq_zero (Nat.le_zero.mp hbounded)).symm
      | some size =>
        have hlength : tail.length ≤ size := hbounded
        cases first <;> simp [Memory.kept, rtake_of_length_le hlength]
    rw [List.drop_nil, List.map_nil, hpassed, hkept, Transducer.outputs, hfinish, finish, Hook.yield,
      Hook.yield_writeAll, List.nil_append]
  | cons v vs ih =>
    rw [Transducer.outputs, Transducer.step, hprocess]
    by_cases hskip : m.seen < m.skip
    · have hyield : (process (call v) m).yield t.flags m = ⟨{ m with seen := m.seen + 1 }, [], .ok⟩ := by
        unfold process
        simp only [hskip, if_true, Hook.yield]
      have hdrop : (v :: vs).drop (m.skip - m.seen) = vs.drop (m.skip - (m.seen + 1)) := by
        rw [show m.skip - m.seen = m.skip - (m.seen + 1) + 1 by omega, List.drop_succ_cons]
      have hrest := ih (m := { m with seen := m.seen + 1 }) hbounded
      rw [hyield, hdrop, List.nil_append]
      exact hrest
    · have htakes := process_takes (call v) t.flags hbounded hskip m
      rw [hinput, hadapter] at htakes
      have hzero : m.skip - m.seen = 0 := by omega
      rw [ih htakes.bounded, htakes.skip, htakes.seen, htakes.properties, hzero,
        Nat.sub_eq_zero_of_le (by omega : m.skip ≤ m.seen + 1), List.drop_zero, List.drop_zero,
        List.map_cons, htakes.passed, htakes.kept, List.append_assoc]

/-! ## A window that is read -/

variable {w : Window} {bound : BoundParameters}

/-- A count that is bound and not negative is read. -/
theorem count?_eq {call : Call} {parameter : String} {n : Option Nat}
    (h : (call.parameters.int? parameter).map Int64.toInt = n.map Int.ofNat) :
    count? call parameter = .ok n := by
  unfold count?
  generalize call.parameters.int? parameter = bound at h
  cases bound with
  | none =>
    cases n with
    | none => rfl
    | some n => cases h
  | some i =>
    cases n with
    | none => cases h
    | some n =>
      have hi : i.toInt = n := Option.some.inj h
      have hnonnegative : ¬ i < 0 := by
        rw [Int64.lt_iff_toInt_lt, hi]
        exact Int.not_lt.mpr (Int.natCast_nonneg n)
      simp only [hnonnegative, if_false, hi]
      rfl

/-- The memory of a command that has read its window. -/
def Window.memory (w : Window) (properties : List String) : Memory where
  properties := properties
  first := w.first
  last := w.last
  skip := w.skip

/-- Beginning reads the window, and cuts the input off where no object can be in it. -/
theorem begin_eq {call : Call} (h : w.Bound call.parameters) :
    begin call {} = .store (w.memory (call.textList "Property"))
      (if w.first == some 0 && w.last.isNone then .cutInput (.done .ok) else .done .ok) := by
  obtain ⟨skip, hskip, hsame⟩ : ∃ n : Option Nat,
      (call.parameters.int? "Skip").map Int64.toInt = n.map Int.ofNat ∧ n.getD 0 = w.skip := by
    have hbound := h.skip
    cases hcase : call.parameters.int? "Skip" with
    | none =>
      rw [hcase] at hbound
      exact ⟨none, rfl, (Int.natCast_eq_zero.mp hbound.symm).symm⟩
    | some i =>
      rw [hcase] at hbound
      exact ⟨some w.skip, congrArg some hbound, rfl⟩
  unfold begin
  simp only [count?_eq h.first, count?_eq h.last, count?_eq hskip, hsame]
  rfl

/-- From a window that is just read the objects in it are written. -/
theorem outputs_window (hprocess : ∀ m v, t.process m v = process (call v) m)
    (hfinish : ∀ m, t.finish m = finish m) (hinput : ∀ v, (call v).inputObject = v)
    (hadapter : ∀ v, (call v).adapter = adapter) (properties : List String) (input : List Value) :
    t.outputs (w.memory properties) input = (w.select input).map (project properties adapter) := by
  rw [outputs_eq call adapter hprocess hfinish hinput hadapter (Nat.zero_le _)]
  obtain ⟨first, last, skip⟩ := w
  cases first <;> cases last <;>
    simp [Window.memory, Window.select, Memory.passed, Memory.kept, List.rtake, List.map_take,
      List.map_drop]

/-! ## The command alone -/

variable {stage : Stage} {chain : Chain}

/-- Passing an object on behind the first ones returns no fault. -/
theorem writeRest_faultless (m : Memory) (v : Value) : (writeRest m v).Faultless := by
  unfold writeRest
  split
  · exact ⟨.inl rfl, .inr rfl⟩
  · exact .inl rfl

/-- A call for an object returns no fault. -/
theorem process_faultless (call : Call) (m : Memory) : (process call m).Faultless := by
  change Hook.Faultless (ite _ _ _)
  split
  · exact .inl rfl
  · split
    · exact writeRest_faultless _ _
    · split
      · refine ⟨?_, .inr rfl⟩
        simp only
        split <;> exact .inl rfl
      · split
        · exact .inl rfl
        · exact writeRest_faultless _ _

/-- The command that selects objects returns no faults, but perhaps from its begin. -/
theorem faultless : command.Faultless :=
  fun call m => ⟨process_faultless call m, Hook.faultless_writeAll m.tail⟩

/-- The command lets objects flow where its counts are those of a window. -/
theorem flows (hcommand : stage.command = command) (hfresh : stage.memory = stage.command.fresh)
    (hfree : stage.bound.contains "InputObject" = false) (hbound : w.Bound stage.bound) :
    stage.Flows chain := by
  obtain ⟨position, c, memory, arguments, state, bound, preferences, bindingErrors, input⟩ := stage
  simp only at hcommand hfree hfresh hbound
  subst hcommand hfresh
  have hopening : ((Stage.opening ⟨position, command, command.fresh, arguments, state, bound,
      preferences, bindingErrors, input⟩ chain).yield chain.flags command.fresh).result = .ok := by
    change (((begin _ {}).refuseWrites).yield chain.flags {}).result = .ok
    rw [begin_eq hbound]
    simp only [Hook.refuseWrites, Hook.yield]
    split <;> rfl
  refine ⟨⟨{ name := "InputObject", pipeline := .byValue }, rfl, rfl, rfl, hfree⟩,
    .inr ⟨faultless, hopening⟩, fun _ => ?_, Command.gentle_of_default rfl rfl⟩
  exact streams rfl rfl (congrArg CallResult.completes hopening)

/-- A command that has begun writes the objects in its window, with the selected properties. -/
theorem outputs_begun (hcommand : stage.command = command)
    (hfresh : stage.memory = stage.command.fresh) (hbound : w.Bound stage.bound)
    (input : List Value) : (stage.begun chain).outputs chain input = (w.select input).map
      (project ((stage.closing chain).textList "Property") chain.adapter) := by
  obtain ⟨position, c, memory, arguments, state, bound, preferences, bindingErrors, pipe⟩ := stage
  simp only at hcommand hfresh hbound
  subst hcommand hfresh
  have hread : ((begin (Stage.call ⟨position, command, command.fresh, arguments, state, bound,
      preferences, bindingErrors, pipe⟩ chain .begin bound none) {}).refuseWrites.yield chain.flags
      {}).memory = w.memory ((Stage.closing ⟨position, command, command.fresh, arguments, state,
      bound, preferences, bindingErrors, pipe⟩ chain).textList "Property") := by
    rw [begin_eq hbound]
    simp only [Hook.refuseWrites, Hook.yield]
    split <;> rfl
  refine (congrArg (fun m : Memory => Transducer.outputs _ m input) hread).trans
    (outputs_window (fun v => Stage.call ⟨position, command, command.fresh, arguments, state, bound,
      preferences, bindingErrors, pipe⟩ chain .process (bound.insert "InputObject" v .pipelineByValue)
      (some v)) chain.adapter (fun _ _ => rfl) (fun _ => rfl) (fun v => ?_) (fun v => rfl) _ input)
  change ((bound.insert "InputObject" v .pipelineByValue).get? "InputObject").getD .null = v
  rw [BoundParameters.get?_insert_self]
  rfl

end Builtin.Selection

namespace Pipeline

open Builtin (Selection.command Selection.Window Selection.project)

variable {settings : ChainSettings} {host : StopToken} {flags : StopFlags} {spec : CommandSpec}
  {stage : Stage} {w : Selection.Window}

/-- Alone in a chain the command writes the objects in its window, with the selected properties. -/
theorem Alone.invoke_selected (h : Alone settings host flags spec stage)
    (hcommand : spec.command = Selection.command) (hbound : w.Bound stage.bound)
    (input : List Value) :
    ∃ o, ((build settings host flags [spec]).invoke (some input)).1 = .ok o ∧ o.status = .succeeded
      ∧ o.outputValues = (w.select input).map (Selection.project
        ((stage.closing (build settings host flags [spec]).chain).textList "Property")
        settings.adapter) := by
  obtain ⟨command, arguments, bindingErrors⟩ := spec
  simp only at hcommand
  subst hcommand
  obtain ⟨preferences, hstage⟩ := h.stage_eq
  have hstart : stage.command = Selection.command ∧ stage.memory = stage.command.fresh := by
    rw [hstage]
    exact ⟨rfl, rfl⟩
  obtain ⟨o, ho, hstatus, hvalues⟩ :=
    h.invoke (Builtin.Selection.flows hstart.1 hstart.2 h.free hbound) input
  exact ⟨o, ho, hstatus,
    hvalues.trans (Builtin.Selection.outputs_begun hstart.1 hstart.2 hbound input)⟩

end Pipeline

end CommandChain
