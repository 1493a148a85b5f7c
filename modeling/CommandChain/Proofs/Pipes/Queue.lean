import CommandChain.Proofs.Journal.Replay
/-!
# A pipe is a queue of one record

Whatever is done with a pipe, what was accepted and what was read can be told from the answers that
it gave. They tell what it answers next: a write is refused where the pipe is stopped, closed or
full, in this order, and the records come out as they went in. A read that finds the end of the
input is the last one to find anything.
-/

namespace CommandChain

/-- What may be done with a pipe and with the tokens around it. -/
inductive PipeStep where
  | write (r : Record)
  | read
  | close
  | signal (token : StopToken)

/-- What a step answers. -/
inductive PipeAnswer where
  | written
  | refused (e : PipeError)
  | found (r : PipeRead)
  /-- A pipe is closed, or a token signaled, without an answer. -/
  | done

/-- A pipe with the token that stops it. -/
structure StoppablePipe where
  pipe : Pipe
  stop : StopToken
  flags : StopFlags

namespace StoppablePipe

/-- A new pipe. Its token may have been signaled before. -/
def new (stop : StopToken) (flags : StopFlags) : StoppablePipe := ⟨{}, stop, flags⟩

/-- Whether the token of the pipe reads as signaled. -/
def isStopped (p : StoppablePipe) : Bool :=
  p.flags.isSignaled p.stop

/-- Takes a step. -/
def step (p : StoppablePipe) : PipeStep → PipeAnswer × StoppablePipe
  | .write r =>
    match p.pipe.write p.isStopped r with
    | .ok pipe => (.written, { p with pipe := pipe })
    | .error e => (.refused e, p)
  | .read =>
    let (found, pipe) := p.pipe.take p.isStopped
    (.found found, { p with pipe := pipe })
  | .close => (.done, { p with pipe := p.pipe.close })
  | .signal token => (.done, { p with flags := p.flags.signal token })

/-- What is left after some steps. -/
def after (p : StoppablePipe) (steps : List PipeStep) : StoppablePipe :=
  steps.foldl (fun p s => (p.step s).2) p

/-- Steps with their answers. -/
def trace (p : StoppablePipe) : List PipeStep → List (PipeStep × PipeAnswer)
  | [] => []
  | s :: steps => (s, (p.step s).1) :: (p.step s).2.trace steps

end StoppablePipe

/-! ## What the answers tell -/

/-- Steps with their answers, in order. -/
abbrev PipeHistory := List (PipeStep × PipeAnswer)

namespace PipeHistory

/-- The records that were accepted. -/
def accepted (past : PipeHistory) : List Record :=
  past.filterMap fun
    | (.write r, .written) => some r
    | _ => none

/-- The records that were read. -/
def returned (past : PipeHistory) : List Record :=
  past.filterMap fun
    | (_, .found (.record r)) => some r
    | _ => none

/-- Whether the pipe was closed. -/
def isClosed (past : PipeHistory) : Bool :=
  past.any fun
    | (.close, _) => true
    | _ => false

/-- Whether a token or one of its ancestors was signaled. -/
def isStopped (stop : StopToken) (past : PipeHistory) : Bool :=
  past.any fun
    | (.signal token, _) => stop.lineage.contains token.flag
    | _ => false

/-- Why a pipe refuses a write, given whether its token was signaled before the pipe was made. -/
def refusal? (stop : StopToken) (before : Bool) (past : PipeHistory) : Option PipeError :=
  if before || isStopped stop past then some .stopped
  else if isClosed past then some .closed
  else if (returned past).length < (accepted past).length then some .full
  else none

@[simp] theorem accepted_append (past more : PipeHistory) :
    accepted (past ++ more) = accepted past ++ accepted more :=
  List.filterMap_append

@[simp] theorem returned_append (past more : PipeHistory) :
    returned (past ++ more) = returned past ++ returned more :=
  List.filterMap_append

@[simp] theorem isClosed_append (past more : PipeHistory) :
    isClosed (past ++ more) = (isClosed past || isClosed more) :=
  List.any_append

@[simp] theorem isStopped_append (stop : StopToken) (past more : PipeHistory) :
    isStopped stop (past ++ more) = (isStopped stop past || isStopped stop more) :=
  List.any_append

end PipeHistory

open PipeHistory

namespace StoppablePipe

variable {p q : StoppablePipe} {s : PipeStep} {steps before more : List PipeStep}
  {past later : PipeHistory} {answer : PipeAnswer} {initially : Bool} {r : Record}

/-- Steps in two parts leave what the second part leaves of the first. -/
theorem after_append (p : StoppablePipe) (steps more : List PipeStep) :
    p.after (steps ++ more) = (p.after steps).after more :=
  List.foldl_append

/-- A place in a trace is a place among the steps. -/
theorem exists_of_trace (h : p.trace steps = past ++ (s, answer) :: later) :
    ∃ before more, steps = before ++ s :: more ∧ past = p.trace before
      ∧ answer = ((p.after before).step s).1
      ∧ later = ((p.after before).step s).2.trace more := by
  induction past generalizing p steps with
  | nil =>
    cases steps with
    | nil => cases h
    | cons first more =>
      cases h
      exact ⟨[], more, rfl, rfl, rfl, rfl⟩
  | cons entry past ih =>
    cases steps with
    | nil => cases h
    | cons first more =>
      obtain ⟨rfl, hrest⟩ := List.cons.inj h
      obtain ⟨before, more, rfl, rfl, hanswer, hlater⟩ := ih hrest
      exact ⟨first :: before, more, rfl, rfl, hanswer, hlater⟩

/-- A read takes the record that waits. -/
theorem step_read_of_slot (hslot : p.pipe.slot = some r) :
    p.step .read = (.found (.record r),
      { p with pipe := { p.pipe with slot := none, read := p.pipe.read + 1 } }) := by
  rw [step, Pipe.take, hslot]

/-- A read from an empty pipe finds the end of the input if the pipe is closed or stopped, and else
nothing yet. -/
theorem step_read_of_empty (hslot : p.pipe.slot = none) :
    p.step .read
      = (.found (if p.pipe.closed || p.isStopped then .endOfInput else .empty), p) := by
  rw [step, Pipe.take, hslot]

/-! ## A pipe agrees with its answers -/

/-- A pipe is as its answers tell. -/
structure Agrees (stop : StopToken) (initially : Bool) (past : PipeHistory) (p : StoppablePipe) :
    Prop where
  token : p.stop = stop
  stopped : p.isStopped = (initially || PipeHistory.isStopped stop past)
  closed : p.pipe.closed = isClosed past
  order : accepted past = returned past ++ p.pipe.slot.toList
  written : p.pipe.written = (accepted past).length
  read : p.pipe.read = (returned past).length

variable {stop : StopToken}

/-- A new pipe is as an empty history tells. -/
theorem agrees_new (stop : StopToken) (flags : StopFlags) :
    Agrees stop (flags.isSignaled stop) [] (new stop flags) :=
  ⟨rfl, (Bool.or_false _).symm, rfl, rfl, rfl, rfl⟩

namespace Agrees

/-- A record waits exactly where fewer records were read than accepted. -/
theorem isSome_slot (h : Agrees stop initially past p) :
    p.pipe.slot.isSome = decide ((returned past).length < (accepted past).length) := by
  rw [h.order, List.length_append]
  cases p.pipe.slot <;> simp

/-- The refusal that the answers tell is that of the pipe. -/
theorem refusal?_eq (h : Agrees stop initially past p) :
    refusal? stop initially past =
      if p.isStopped then some .stopped
      else if p.pipe.closed then some .closed
      else if p.pipe.slot.isSome then some .full
      else none := by
  rw [refusal?, h.stopped, h.closed, h.isSome_slot]
  simp only [decide_eq_true_eq]

/-- A write is accepted or refused as the answers before it tell. -/
theorem step_write (h : Agrees stop initially past p) (r : Record) :
    p.step (.write r) = match refusal? stop initially past with
      | some e => (.refused e, p)
      | none => (.written,
        { p with pipe := { p.pipe with slot := some r, written := p.pipe.written + 1 } }) := by
  rw [h.refusal?_eq, StoppablePipe.step, Pipe.write]
  by_cases hstopped : p.isStopped = true
  · rw [if_pos hstopped, if_pos hstopped]
  rw [if_neg hstopped, if_neg hstopped]
  by_cases hclosed : p.pipe.closed = true
  · rw [if_pos hclosed, if_pos hclosed]
  rw [if_neg hclosed, if_neg hclosed]
  by_cases hfull : p.pipe.slot.isSome = true
  · rw [if_pos hfull, if_pos hfull]
  · rw [if_neg hfull, if_neg hfull]

/-- What a pipe does not refuse finds no record waiting. -/
theorem slot_of_refusal?_eq_none (h : Agrees stop initially past p)
    (hnone : refusal? stop initially past = none) : p.pipe.slot = none := by
  rw [h.refusal?_eq] at hnone
  cases hslot : p.pipe.slot with
  | none => rfl
  | some r =>
    rw [hslot] at hnone
    split at hnone
    · cases hnone
    · split at hnone <;> cases hnone

/-- A pipe agrees with one more answer that tells what the step changed. -/
theorem next (h : Agrees stop initially past p) {entry : PipeStep × PipeAnswer}
    (htoken : q.stop = p.stop)
    (hstopped : q.isStopped = (p.isStopped || PipeHistory.isStopped stop [entry]))
    (hclosed : q.pipe.closed = (p.pipe.closed || isClosed [entry]))
    (horder : accepted past ++ accepted [entry]
      = returned past ++ returned [entry] ++ q.pipe.slot.toList)
    (hwritten : q.pipe.written = p.pipe.written + (accepted [entry]).length)
    (hread : q.pipe.read = p.pipe.read + (returned [entry]).length) :
    Agrees stop initially (past ++ [entry]) q where
  token := htoken.trans h.token
  stopped := by rw [isStopped_append, ← Bool.or_assoc, ← h.stopped, hstopped]
  closed := by rw [isClosed_append, ← h.closed, hclosed]
  order := by rw [accepted_append, returned_append, horder]
  written := by rw [accepted_append, List.length_append, ← h.written, hwritten]
  read := by rw [returned_append, List.length_append, ← h.read, hread]

/-- A step leaves a pipe as its answers tell. -/
theorem step (h : Agrees stop initially past p) (s : PipeStep) :
    Agrees stop initially (past ++ [(s, (p.step s).1)]) (p.step s).2 := by
  have hstopped : p.isStopped = (p.isStopped || false) := (Bool.or_false _).symm
  have hclosed : p.pipe.closed = (p.pipe.closed || false) := (Bool.or_false _).symm
  have horder := h.order
  have hneutral : accepted past ++ [] = returned past ++ [] ++ p.pipe.slot.toList := by
    rw [List.append_nil, List.append_nil, horder]
  cases s with
  | write r =>
    rw [h.step_write r]
    cases hrefusal : refusal? stop initially past with
    | some e => exact h.next rfl hstopped hclosed hneutral rfl rfl
    | none =>
      rw [h.slot_of_refusal?_eq_none hrefusal, Option.toList_none, List.append_nil] at horder
      refine h.next rfl hstopped hclosed ?_ rfl rfl
      show accepted past ++ [r] = returned past ++ [] ++ [r]
      rw [List.append_nil, horder]
  | read =>
    cases hslot : p.pipe.slot with
    | some r =>
      rw [step_read_of_slot hslot]
      refine h.next rfl hstopped hclosed ?_ rfl rfl
      show accepted past ++ [] = returned past ++ [r] ++ []
      rw [List.append_nil, List.append_nil, horder, hslot, Option.toList_some]
    | none =>
      rw [step_read_of_empty hslot]
      split
      · exact h.next rfl hstopped hclosed hneutral rfl rfl
      · exact h.next rfl hstopped hclosed hneutral rfl rfl
  | close => exact h.next rfl hstopped (Bool.or_true _).symm hneutral rfl rfl
  | signal token =>
    refine h.next rfl ?_ hclosed hneutral rfl rfl
    have hraised := p.flags.isSignaled_signal token p.stop
    rw [← h.token, PipeHistory.isStopped, List.any_cons, List.any_nil, Bool.or_false]
    exact hraised

/-- Steps leave a pipe as its answers tell. -/
theorem run (h : Agrees stop initially past p) (steps : List PipeStep) :
    Agrees stop initially (past ++ p.trace steps) (p.after steps) := by
  induction steps generalizing past p with
  | nil =>
    rw [trace, List.append_nil]
    exact h
  | cons s steps ih =>
    have hrest := ih (h.step s)
    rw [List.append_assoc] at hrest
    exact hrest

end Agrees

/-! ## What waits, and the end of the input -/

/-- Nothing but a read takes the record that waits. -/
theorem slot_step (hslot : p.pipe.slot = some r) (hread : s ≠ .read) :
    (p.step s).2.pipe.slot = some r := by
  cases s with
  | write other =>
    rw [step, Pipe.write, hslot]
    cases p.isStopped with
    | true => exact hslot
    | false => cases p.pipe.closed <;> exact hslot
  | read => exact absurd rfl hread
  | close => exact hslot
  | signal token => exact hslot

/-- A record that waits is left waiting by all steps but a read. -/
theorem slot_after (hslot : p.pipe.slot = some r) (hunread : .read ∉ steps) :
    (p.after steps).pipe.slot = some r := by
  induction steps generalizing p with
  | nil => exact hslot
  | cons s steps ih =>
    rw [List.mem_cons, not_or] at hunread
    exact ih (slot_step hslot (Ne.symm hunread.1)) hunread.2

/-- Nothing waits, and no write is going to be accepted. -/
structure Ended (p : StoppablePipe) : Prop where
  slot : p.pipe.slot = none
  barred : p.pipe.closed = true ∨ p.isStopped = true

/-- Behind the end of the input, a read finds the end again. -/
theorem Ended.step_read (h : Ended p) : p.step .read = (.found .endOfInput, p) := by
  have hbarred : (p.pipe.closed || p.isStopped) = true := by
    rw [Bool.or_eq_true]
    exact h.barred
  rw [step_read_of_empty h.slot, if_pos hbarred]

/-- Behind the end of the input, a write is refused and changes nothing. -/
theorem Ended.step_write (h : Ended p) (r : Record) : ∃ e, p.step (.write r) = (.refused e, p) := by
  rw [step, Pipe.write]
  rcases Bool.eq_false_or_eq_true p.isStopped with hstopped | hstopped
  · rw [hstopped]
    exact ⟨.stopped, rfl⟩
  · have hclosed := h.barred.resolve_right (by rw [hstopped]; exact Bool.false_ne_true)
    rw [hstopped, hclosed]
    exact ⟨.closed, rfl⟩

/-- A read that finds the end of the input leaves a pipe that has ended. -/
theorem ended_of_read (h : (p.step .read).1 = .found .endOfInput) : Ended (p.step .read).2 := by
  cases hslot : p.pipe.slot with
  | some r =>
    rw [step_read_of_slot hslot] at h
    cases h
  | none =>
    rw [step_read_of_empty hslot] at h ⊢
    by_cases hbarred : (p.pipe.closed || p.isStopped) = true
    · exact ⟨hslot, Bool.or_eq_true _ _ ▸ hbarred⟩
    · rw [if_neg hbarred] at h
      cases h

/-- An answer that may follow the end of the input. -/
def Final : PipeStep × PipeAnswer → Prop
  | (.write _, answer) => ∃ e, answer = .refused e
  | (.read, answer) => answer = .found .endOfInput
  | _ => True

/-- Behind the end of the input every answer is final, and the end stays. -/
theorem Ended.step (h : Ended p) (s : PipeStep) :
    Final (s, (p.step s).1) ∧ Ended (p.step s).2 := by
  cases s with
  | write r =>
    obtain ⟨e, he⟩ := h.step_write r
    rw [he]
    exact ⟨⟨e, rfl⟩, h⟩
  | read =>
    rw [h.step_read]
    exact ⟨rfl, h⟩
  | close => exact ⟨trivial, h.slot, .inl rfl⟩
  | signal token =>
    refine ⟨trivial, h.slot, h.barred.imp_right fun hstopped => ?_⟩
    have hraised := p.flags.isSignaled_signal token p.stop
    rw [show p.flags.isSignaled p.stop = true from hstopped, Bool.true_or] at hraised
    exact hraised

/-- Behind the end of the input all answers are final, however many steps are taken. -/
theorem Ended.run (h : Ended p) (steps : List PipeStep) : ∀ entry ∈ p.trace steps, Final entry := by
  induction steps generalizing p with
  | nil => exact fun entry hentry => absurd hentry List.not_mem_nil
  | cons s steps ih => exact List.forall_mem_cons.mpr ⟨(h.step s).1, ih (h.step s).2⟩

/-! ## The whole law -/

/-- What holds of a new pipe and the steps that are taken with it. -/
structure Queues (stop : StopToken) (flags : StopFlags) (steps : List PipeStep) : Prop where
  /-- The records that were read are those that were accepted, in order, but for one that may
  wait. -/
  order : accepted ((new stop flags).trace steps)
    = returned ((new stop flags).trace steps) ++ ((new stop flags).after steps).pipe.slot.toList
  /-- The pipe counts what it accepted and what was read, and the difference is what waits. -/
  counts : ((new stop flags).after steps).pipe.written
      = (accepted ((new stop flags).trace steps)).length
    ∧ ((new stop flags).after steps).pipe.read = (returned ((new stop flags).trace steps)).length
    ∧ ((new stop flags).after steps).pipe.written - ((new stop flags).after steps).pipe.read
      = ((new stop flags).after steps).pipe.pending
    ∧ ((new stop flags).after steps).pipe.pending ≤ 1
  /-- A write is refused where the token is signaled, else where the pipe is closed, else where a
  record waits, and accepted otherwise. -/
  writes : ∀ past r answer later,
    (new stop flags).trace steps = past ++ (.write r, answer) :: later →
    answer = match refusal? stop (flags.isSignaled stop) past with
      | some e => .refused e
      | none => .written
  /-- A write that is refused changes nothing. -/
  refused : ∀ before r more e, steps = before ++ .write r :: more →
    (((new stop flags).after before).step (.write r)).1 = .refused e →
    (new stop flags).after (before ++ [.write r]) = (new stop flags).after before
  /-- A record that was accepted is found by the next read, whatever happens before that. -/
  waits : ∀ past r between answer later, (new stop flags).trace steps
      = past ++ (.write r, .written) :: (between ++ (.read, answer) :: later) →
    (∀ entry ∈ between, entry.1 ≠ .read) → answer = .found (.record r)
  /-- After a read that finds the end of the input every read does, and every write is refused. -/
  final : ∀ past later,
    (new stop flags).trace steps = past ++ (.read, .found .endOfInput) :: later →
    ∀ entry ∈ later, Final entry

/-- A history lists the steps that were taken. -/
theorem map_fst_trace (p : StoppablePipe) (steps : List PipeStep) :
    (p.trace steps).map Prod.fst = steps := by
  induction steps generalizing p with
  | nil => rfl
  | cons s steps ih => rw [trace, List.map_cons, ih]

/-- What a pipe holds is counted by its answers. -/
theorem Agrees.sub_eq_pending (h : Agrees stop initially past p) :
    p.pipe.written - p.pipe.read = p.pipe.pending ∧ p.pipe.pending ≤ 1 := by
  rw [h.written, h.read, h.order, List.length_append, Nat.add_sub_cancel_left, Pipe.pending]
  cases p.pipe.slot with
  | none => exact ⟨rfl, Nat.zero_le 1⟩
  | some r => exact ⟨rfl, Nat.le_refl 1⟩

/-- A record that was accepted waits in the pipe. -/
theorem slot_of_written (h : (p.step (.write r)).1 = .written) :
    (p.step (.write r)).2.pipe.slot = some r := by
  rw [step] at h ⊢
  unfold Pipe.write at h ⊢
  by_cases hstopped : p.isStopped = true
  · rw [if_pos hstopped] at h
    cases h
  rw [if_neg hstopped] at h ⊢
  by_cases hclosed : p.pipe.closed = true
  · rw [if_pos hclosed] at h
    cases h
  rw [if_neg hclosed] at h ⊢
  by_cases hfull : p.pipe.slot.isSome = true
  · rw [if_pos hfull] at h
    cases h
  · rw [if_neg hfull]

/-- **A pipe is a queue of one record with a final end.** Whatever is done with a new pipe, its own
token and those around it, in whatever order. -/
theorem records_queued (stop : StopToken) (flags : StopFlags) (steps : List PipeStep) :
    Queues stop flags steps := by
  have hagrees (steps : List PipeStep) : Agrees stop (flags.isSignaled stop)
      ((new stop flags).trace steps) ((new stop flags).after steps) :=
    (agrees_new stop flags).run steps
  refine ⟨(hagrees steps).order,
    ⟨(hagrees steps).written, (hagrees steps).read, (hagrees steps).sub_eq_pending⟩, ?_, ?_, ?_, ?_⟩
  · intro past r answer later htrace
    obtain ⟨before, more, rfl, rfl, rfl, -⟩ := exists_of_trace htrace
    rw [(hagrees before).step_write r]
    cases refusal? stop (flags.isSignaled stop) ((new stop flags).trace before) <;> rfl
  · rintro before r more e rfl hrefused
    rw [after_append]
    show (((new stop flags).after before).step (.write r)).2 = _
    rw [(hagrees before).step_write r] at hrefused ⊢
    cases hrefusal : refusal? stop (flags.isSignaled stop) ((new stop flags).trace before) with
    | some e => rfl
    | none =>
      rw [hrefusal] at hrefused
      cases hrefused
  · intro past r between answer later htrace hunread
    obtain ⟨before, more, rfl, rfl, hwritten, hlater⟩ := exists_of_trace htrace
    obtain ⟨middle, rest, rfl, rfl, rfl, -⟩ := exists_of_trace hlater.symm
    have hmiddle : .read ∉ middle := by
      intro hread
      rw [← map_fst_trace (((new stop flags).after before).step (.write r)).2 middle] at hread
      obtain ⟨entry, hentry, heq⟩ := List.mem_map.mp hread
      exact hunread entry hentry heq
    rw [step_read_of_slot (slot_after (slot_of_written hwritten.symm) hmiddle)]
  · intro past later htrace
    obtain ⟨before, more, rfl, rfl, hfound, rfl⟩ := exists_of_trace htrace
    exact (ended_of_read hfound.symm).run more

end StoppablePipe

end CommandChain
