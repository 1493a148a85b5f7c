import CommandChain.Proofs.Journal.Grammar
import Mathlib.Data.List.Induction
/-!
# Laws of legal journals

Each law is proved of the moves and carried over to all legal journals.
-/

namespace CommandChain

/-- A token listens to its own flag. -/
@[simp] theorem Event.raises_signaled_self (stop : StopToken) :
    (Event.signaled stop).raises stop = true := by
  simp [raises, StopToken.lineage]

/-! ## The state of a command -/

namespace Journal

variable {journal block : List Event} {id : CommandId}

/-- What holds of the state of a command, and held before every step after which it holds, held
from the start. -/
theorem state_of_append {p : CommandState → Prop}
    (hback : ∀ state e, p (CommandState.after id state e) → p state)
    (h : p (state (journal ++ block) id)) : p (state journal id) := by
  rw [state_append] at h
  induction block generalizing journal with
  | nil => exact h
  | cons e block ih =>
    have h' : p (state (journal ++ [e]) id) := ih (by rwa [state_append])
    rw [state_append] at h'
    exact hback _ _ h'

/-- A command does not come back to the state in which it was created. -/
theorem created_of_append (h : state (journal ++ block) id = .created) :
    state journal id = .created := by
  refine state_of_append (p := (· = .created)) (fun s e hs => ?_) h
  unfold CommandState.after at hs
  split at hs
  all_goals first | exact hs | skip
  all_goals
    split at hs
    · cases s <;> first | rfl | cases hs
    · exact hs

/-- A command that has only begun had done no more before. -/
theorem began_of_append (h : state (journal ++ block) id = .began) :
    state journal id = .created ∨ state journal id = .began := by
  refine state_of_append (p := fun s => s = .created ∨ s = .began) (fun s e hs => ?_) (.inr h)
  unfold CommandState.after at hs
  split at hs
  all_goals first | exact hs | skip
  all_goals
    split at hs
    · cases s <;> first | exact .inl rfl | exact .inr rfl | (rcases hs with hs | hs <;> cases hs)
    · exact hs

/-- A command that was not called to begin is in the state in which it was created. -/
theorem created_of_not_begun (h : ¬ HasBegun journal id) : state journal id = .created := by
  induction journal using List.reverseRecOn with
  | nil => rfl
  | append_singleton journal e ih =>
    have hstep : state (journal ++ [e]) id = (state journal id).after id e := state_append ..
    have hbefore : ¬ HasBegun journal id := by
      rintro ⟨parameters, input, hbegun⟩
      exact h ⟨parameters, input, List.mem_append_left _ hbegun⟩
    rw [hstep, ih hbefore]
    unfold CommandState.after
    split
    · rename_i i parameters input
      rw [if_neg]
      rintro rfl
      exact h ⟨parameters, input, by simp⟩
    all_goals
      first | (split <;> rfl) | rfl

/-- A command that was not called to begin is as it was created. -/
theorem created_of_clear (h : Clear journal id .begin) : state journal id = .created := by
  refine created_of_not_begun ?_
  rintro ⟨parameters, input, hbegun⟩
  exact absurd (h _ hbegun) (by simp [Event.isOf])

/-- A command that was called to begin is not in that state any more. -/
theorem ne_created_of_begun {parameters : BoundParameters} {input : Option Value}
    (h : .called id .begin parameters input ∈ journal) : state journal id ≠ .created := by
  obtain ⟨before, after, rfl⟩ := List.append_of_mem h
  rw [List.append_cons]
  intro hcreated
  have hbegun := created_of_append hcreated
  rw [state_append] at hbegun
  generalize state before id = s at hbegun
  cases s <;> simp [CommandState.after, CommandState.becomeIfAllowed, CommandState.canBecome]
    at hbegun

/-- A step leaves the state of a command as it is, sets it running, makes it fail or ends it. -/
theorem after_cases (state : CommandState) (id : CommandId) (e : Event) :
    state.after id e = state ∨ (state.after id e).isRunning = true
      ∨ (state.after id e = .error ∧ e = .failed id)
      ∨ (state.after id e = .ended ∧ e = .settled id .finish true) := by
  unfold CommandState.after
  split
  all_goals try exact .inl rfl
  all_goals
    split
    · next hid =>
      subst hid
      cases state <;> simp [CommandState.becomeIfAllowed, CommandState.canBecome,
        CommandState.isRunning]
    · exact .inl rfl

/-- In the journal, a command has not begun, is running, or has failed or ended. -/
theorem state_cases (journal : List Event) (id : CommandId) :
    state journal id = .created ∨ (state journal id).isRunning = true
      ∨ (state journal id = .error ∧ .failed id ∈ journal)
      ∨ (state journal id = .ended ∧ .settled id .finish true ∈ journal) := by
  induction journal using List.reverseRecOn with
  | nil => exact .inl rfl
  | append_singleton journal e ih =>
    have hstep : state (journal ++ [e]) id = (state journal id).after id e := state_append ..
    rw [hstep]
    rcases after_cases (state journal id) id e with h | h | ⟨h, rfl⟩ | ⟨h, rfl⟩
    · rw [h]
      exact ih.imp_right (.imp_right (.imp (.imp_right (List.mem_append_left _))
        (.imp_right (List.mem_append_left _))))
    · exact .inr (.inl h)
    · exact .inr (.inr (.inl ⟨h, by simp⟩))
    · exact .inr (.inr (.inr ⟨h, by simp⟩))

/-- A command that has begun runs as long as it has neither failed nor completed its end. -/
theorem isRunning_of_begun {parameters : BoundParameters} {input : Option Value}
    (hbegun : .called id .begin parameters input ∈ journal) (hfailed : .failed id ∉ journal)
    (hended : .settled id .finish true ∉ journal) : (state journal id).isRunning = true := by
  rcases state_cases journal id with h | h | ⟨-, h⟩ | ⟨-, h⟩
  · exact absurd h (ne_created_of_begun hbegun)
  · exact h
  · exact absurd h hfailed
  · exact absurd h hended

end Journal

/-! ## What a settled call tells -/

/-- Whether a call that returned this result counts as completed once it is settled without a
terminating fault. -/
def CallResult.completes : CallResult → Bool
  | .ok => true
  | .stopped => false
  | .fault f => !f.terminating

namespace Settlement

variable {set : Setting} {id : CommandId} {phase : Phase} {result : CallResult} {completed : Bool}
  {block : List Event}

/-- A terminating fault raises the chain's own token. -/
theorem signaled_of_failed (h : Settlement set id phase result completed block) {i : CommandId}
    (hf : .failed i ∈ block) : .signaled set.stop ∈ block := by
  cases h <;> simp at hf ⊢

/-- A call that is settled has returned. -/
theorem returned_mem (h : Settlement set id phase result completed block) :
    .returned id phase result ∈ block := by
  cases h <;> simp

/-- The settling of a call says so at a step of its own. -/
theorem settled_mem (h : Settlement set id phase result completed block) :
    .settled id phase completed ∈ block := by
  cases h <;> simp

/-- A block settles one call only. -/
theorem eq_of_returned_mem (h : Settlement set id phase result completed block) {i : CommandId}
    {p : Phase} {r : CallResult} (hr : .returned i p r ∈ block) :
    i = id ∧ p = phase ∧ r = result := by
  cases h <;> simpa using hr

/-- The steps that settle a call settle no other. -/
theorem eq_of_settled_mem (h : Settlement set id phase result completed block) {i : CommandId}
    {p : Phase} {c : Bool} (hc : .settled i p c ∈ block) :
    i = id ∧ p = phase ∧ c = completed := by
  cases h <;> simpa using hc

/-- A call that counts as completed returned, with no fault or with one after which the chain goes
on. -/
theorem completes (h : Settlement set id phase result true block) : result.completes = true := by
  cases h with
  | completed => rfl
  | reported f r hf hr => simp [CallResult.completes, hf]

/-- A call that does not count as completed gave up or failed. -/
theorem stopped_or_failed (h : Settlement set id phase result false block) :
    result = .stopped ∨ .failed id ∈ block := by
  cases h with
  | givenUp => exact .inl rfl
  | failed result r hr => simp

end Settlement

/-! ## Terminating faults, calls and their returns -/

namespace Move

variable {set : Setting} {journal block : List Event} {id : CommandId} {phase : Phase}
  {result : CallResult} {completed : Bool}

/-- A terminating fault raises the chain's own token. -/
theorem signaled_of_failed (h : Move set journal block) (hf : .failed id ∈ block) :
    .signaled set.stop ∈ block := by
  cases h with
  | offered position v r offer handover hv hhalt hoffer hover =>
    cases hoffer <;> cases hover <;> simp at hf ⊢
  | settled id phase result completed block honce hcalled hclear hblock =>
    exact hblock.signaled_of_failed hf
  | onceAborted id result block honce hcalled hblock hhalt => exact hblock.signaled_of_failed hf
  | onceEnded id result completed block parameters honce hcalled hblock hgo hclear =>
    rw [List.mem_append] at hf ⊢
    exact .inl (hblock.signaled_of_failed (by simpa using hf))
  | _ => simp at hf ⊢

/-- Only a call that was made returns. -/
theorem called_of_returned (h : Move set journal block) (hr : .returned id phase result ∈ block) :
    ∃ parameters input, .called id phase parameters input ∈ journal := by
  cases h with
  | offered position v r offer handover hv hhalt hoffer hover =>
    cases hoffer <;> cases hover <;> simp at hr
  | settled id phase result completed block honce hcalled hclear hblock =>
    obtain ⟨rfl, rfl, rfl⟩ := hblock.eq_of_returned_mem hr
    exact hcalled
  | onceAborted id result block honce hcalled hblock hhalt =>
    obtain ⟨rfl, rfl, rfl⟩ := hblock.eq_of_returned_mem hr
    exact hcalled
  | onceEnded id result completed block parameters honce hcalled hblock hgo hclear =>
    obtain ⟨rfl, rfl, rfl⟩ := hblock.eq_of_returned_mem (by simpa using hr)
    exact hcalled
  | _ => simp at hr

/-- What is settled has returned in the same move, and was settled by its result. -/
theorem returned_of_settled (h : Move set journal block)
    (hs : .settled id phase completed ∈ block) :
    ∃ result, .returned id phase result ∈ block ∧ (completed = true → result.completes = true)
      ∧ (completed = false → result = .stopped ∨ .failed id ∈ block) := by
  have key {i : CommandId} {p : Phase} {r : CallResult} {c : Bool} {b : List Event}
      (hb : Settlement set i p r c b) (hmem : .settled id phase completed ∈ b) :
      ∃ result, .returned id phase result ∈ b ∧ (completed = true → result.completes = true)
        ∧ (completed = false → result = .stopped ∨ .failed id ∈ b) := by
    obtain ⟨rfl, rfl, rfl⟩ := hb.eq_of_settled_mem hmem
    refine ⟨r, hb.returned_mem, fun hc => ?_, fun hc => ?_⟩
    · subst hc
      exact hb.completes
    · subst hc
      exact hb.stopped_or_failed
  cases h with
  | offered position v r offer handover hv hhalt hoffer hover =>
    cases hoffer <;> cases hover <;> simp at hs
  | settled i p r c b honce hcalled hclear hblock => exact key hblock hs
  | onceAborted i r b honce hcalled hblock hhalt => exact key hblock hs
  | onceEnded i r c b parameters honce hcalled hblock hgo hclear =>
    obtain ⟨result, hr, hok, hno⟩ := key hblock (by simpa using hs)
    exact ⟨result, List.mem_append_left _ hr, hok,
      fun hc => (hno hc).imp_right (List.mem_append_left _)⟩
  | _ => simp at hs

/-- What has returned is settled in the same move. -/
theorem settled_of_returned (h : Move set journal block) (hr : .returned id phase result ∈ block) :
    ∃ completed, .settled id phase completed ∈ block := by
  cases h with
  | offered position v r offer handover hv hhalt hoffer hover =>
    cases hoffer <;> cases hover <;> simp at hr
  | settled i p r c b honce hcalled hclear hblock =>
    obtain ⟨rfl, rfl, rfl⟩ := hblock.eq_of_returned_mem hr
    exact ⟨c, hblock.settled_mem⟩
  | onceAborted i r b honce hcalled hblock hhalt =>
    obtain ⟨rfl, rfl, rfl⟩ := hblock.eq_of_returned_mem hr
    exact ⟨false, hblock.settled_mem⟩
  | onceEnded i r c b parameters honce hcalled hblock hgo hclear =>
    obtain ⟨rfl, rfl, rfl⟩ := hblock.eq_of_returned_mem (by simpa using hr)
    exact ⟨c, List.mem_append_left _ hblock.settled_mem⟩
  | _ => simp at hr

/-- A command of the chain begins after all commands before it have completed that. -/
theorem settled_of_begun {parameters : BoundParameters} {input : Option Value}
    (h : Move set journal block) (hb : .called id .begin parameters input ∈ block) :
    id.number < set.commands.length ∧ ∀ j < id.number, .settled ⟨j⟩ .begin true ∈ journal := by
  cases h with
  | offered position v r offer handover hv hhalt hoffer hover =>
    cases hoffer <;> cases hover <;> simp at hb
  | begun i parameters hlt hhalt hbefore hclear =>
    obtain ⟨rfl, -⟩ : id = i ∧ _ := by simpa using hb
    exact ⟨hlt, hbefore⟩
  | settled i p r c b honce hcalled hclear hblock => cases hblock <;> simp at hb
  | onceAborted i r b honce hcalled hblock hhalt => cases hblock <;> simp at hb
  | onceEnded i r c b parameters honce hcalled hblock hgo hclear =>
    cases hblock <;> simp at hb
  | _ => simp at hb

/-- Apart from the processing of objects, a call of a command returns once. -/
theorem each_returned_once (h : Move set journal block) :
    Journal.Each (fun past e _ => ∀ id phase result, e = .returned id phase result →
      phase ≠ .process → ∀ other, .returned id phase other ∉ past) journal block := by
  have process {i : CommandId} {r : CallResult} {c : Bool} {b : List Event}
      (hb : Settlement set i .process r c b) :
      Journal.Each (fun past e _ => ∀ id phase result, e = .returned id phase result →
        phase ≠ .process → ∀ other, .returned id phase other ∉ past) journal b := by
    rw [Journal.each_iff]
    rintro before e after rfl id phase result rfl hphase
    exact absurd (hb.eq_of_returned_mem (List.mem_append_right before (.head _))).2.1 hphase
  cases h with
  | offered position v r offer handover hv hhalt hoffer hover =>
    cases hoffer <;> cases hover <;> simp [Journal.Each]
  | settled i p r c b honce hcalled hclear hblock =>
    cases hblock <;> simpa [Journal.Each] using hclear
  | onceAborted i r b honce hcalled hblock hhalt => exact process hblock
  | onceEnded i r c b parameters honce hcalled hblock hgo hclear =>
    refine (process hblock).append (fun _ _ _ _ hlaw => hlaw) ?_
    simp [Journal.Each]
  | _ => simp [Journal.Each]

end Move

namespace Legal

variable {set : Setting} {journal : List Event} {id : CommandId} {phase : Phase}

/-- A chain in which a command failed is halting. -/
theorem halted_of_failed (h : Legal set [] journal) (hf : .failed id ∈ journal) :
    set.isHalted journal = true := by
  obtain ⟨past, steps, rest, rfl, hmove, hf⟩ := h.exists_move hf
  have hs : .signaled set.stop ∈ past ++ steps ++ rest :=
    List.mem_append_left _ (List.mem_append_right _ (hmove.signaled_of_failed hf))
  rw [Setting.isHalted, List.any_eq_true.mpr ⟨_, hs, Event.raises_signaled_self _⟩, Bool.or_true]

/-- Only a call that was made returns. -/
theorem called_of_returned (h : Legal set [] journal) {result : CallResult}
    (hr : .returned id phase result ∈ journal) :
    ∃ parameters input, .called id phase parameters input ∈ journal := by
  obtain ⟨past, steps, rest, rfl, hmove, hr⟩ := h.exists_move hr
  obtain ⟨parameters, input, hc⟩ := hmove.called_of_returned hr
  exact ⟨parameters, input, List.mem_append_left _ (List.mem_append_left _ hc)⟩

/-- What is settled has returned, and was settled by its result. -/
theorem returned_of_settled (h : Legal set [] journal) {completed : Bool}
    (hs : .settled id phase completed ∈ journal) :
    ∃ result, .returned id phase result ∈ journal ∧ (completed = true → result.completes = true)
      ∧ (completed = false → result = .stopped ∨ .failed id ∈ journal) := by
  obtain ⟨past, steps, rest, rfl, hmove, hs⟩ := h.exists_move hs
  obtain ⟨result, hr, hok, hno⟩ := hmove.returned_of_settled hs
  exact ⟨result, List.mem_append_left _ (List.mem_append_right _ hr), hok, fun hc =>
    (hno hc).imp_right fun hf => List.mem_append_left _ (List.mem_append_right _ hf)⟩

/-- A command of the chain begins after all commands before it have completed that. -/
theorem settled_of_begun (h : Legal set [] journal) {parameters : BoundParameters}
    {input : Option Value} (hb : .called id .begin parameters input ∈ journal) :
    id.number < set.commands.length ∧ ∀ j < id.number, .settled ⟨j⟩ .begin true ∈ journal := by
  obtain ⟨past, steps, rest, rfl, hmove, hb⟩ := h.exists_move hb
  obtain ⟨hlt, hbefore⟩ := hmove.settled_of_begun hb
  exact ⟨hlt, fun j hj => List.mem_append_left _ (List.mem_append_left _ (hbefore j hj))⟩

/-- A call that returned was settled. -/
theorem settled_of_returned (h : Legal set [] journal) {result : CallResult}
    (hr : .returned id phase result ∈ journal) :
    ∃ completed, .settled id phase completed ∈ journal := by
  obtain ⟨past, steps, rest, rfl, hmove, hr⟩ := h.exists_move hr
  obtain ⟨completed, hs⟩ := hmove.settled_of_returned hr
  exact ⟨completed, List.mem_append_left _ (List.mem_append_right _ hs)⟩

end Legal

/-- Of steps that do not repeat there is one only. -/
theorem Journal.eq_of_once {journal : List Event} {p : Event → Prop} {e e' : Event}
    (honce : ∀ before e after, journal = before ++ e :: after → p e → ∀ e' ∈ before, ¬ p e')
    (he : e ∈ journal) (he' : e' ∈ journal) (hp : p e) (hp' : p e') : e = e' := by
  obtain ⟨before, after, rfl⟩ := List.append_of_mem he
  rcases List.mem_append.mp he' with he' | he'
  · exact absurd hp' (honce before e after rfl hp e' he')
  · rcases List.mem_cons.mp he' with he' | he'
    · exact he'.symm
    · obtain ⟨middle, after, rfl⟩ := List.append_of_mem he'
      exact absurd hp (honce (before ++ e :: middle) e' after (by simp) hp' e (by simp))

/-- Apart from the processing of objects, a call of a command is not settled again. -/
def Event.SettledOnce (past : List Event) (e : Event) (_rest : List Event) : Prop :=
  ∀ id phase completed, e = .settled id phase completed → phase ≠ .process →
    ∀ other, .settled id phase other ∉ past

/-- Within the block of a move, no call but one to process is settled a second time. -/
theorem Move.each_settled_once {set : Setting} {journal block : List Event}
    (h : Move set journal block) (hlegal : Legal set [] journal) :
    Journal.Each Event.SettledOnce journal block := by
  have process {i : CommandId} {r : CallResult} {c : Bool} {b : List Event}
      (hb : Settlement set i .process r c b) : Journal.Each Event.SettledOnce journal b := by
    rw [Journal.each_iff]
    rintro before e after rfl id phase completed rfl hphase
    exact absurd (hb.eq_of_settled_mem (List.mem_append_right before (.head _))).2.1 hphase
  cases h with
  | offered position v r offer handover hv hhalt hoffer hover =>
    cases hoffer <;> cases hover <;> simp [Journal.Each, Event.SettledOnce]
  | settled i p r c b honce hcalled hclear hblock =>
    -- What was settled before had returned before.
    have hnone : p ≠ .process → ∀ other, .settled i p other ∉ journal := fun hp other hs => by
      obtain ⟨result, hreturned, -⟩ := hlegal.returned_of_settled hs
      exact hclear hp result hreturned
    cases hblock <;> simpa [Journal.Each, Event.SettledOnce] using hnone
  | onceAborted i r b honce hcalled hblock hhalt => exact process hblock
  | onceEnded i r c b parameters honce hcalled hblock hgo hclear =>
    refine (process hblock).append (fun _ _ _ _ hlaw => hlaw) ?_
    simp [Journal.Each, Event.SettledOnce]
  | _ => simp [Journal.Each, Event.SettledOnce]

namespace Legal

variable {set : Setting} {journal : List Event} {id : CommandId} {phase : Phase}

/-- Apart from the processing of objects, the calls of a command for a phase return one result. -/
theorem returned_unique (h : Legal set [] journal) (hphase : phase ≠ .process)
    {result other : CallResult} (hr : .returned id phase result ∈ journal)
    (ho : .returned id phase other ∈ journal) : result = other := by
  have heach := Journal.each_iff.mp
    (h.each (fun _ _ _ _ hlaw => hlaw) (fun _ _ hm => hm.each_returned_once))
  have heq := Journal.eq_of_once (p := fun e => ∃ r, e = .returned id phase r)
    (fun before e after hj hp e' he' hp' => by
      obtain ⟨r, rfl⟩ := hp
      obtain ⟨r', rfl⟩ := hp'
      exact heach before _ after hj id phase r rfl hphase r' he') hr ho ⟨_, rfl⟩ ⟨_, rfl⟩
  exact (Event.returned.inj heq).2.2

/-- Apart from the processing of objects, a call of a command for a phase is settled once. -/
theorem settled_unique (h : Legal set [] journal) (hphase : phase ≠ .process)
    {completed other : Bool} (hs : .settled id phase completed ∈ journal)
    (ho : .settled id phase other ∈ journal) : completed = other := by
  have heach : Journal.Each Event.SettledOnce [] journal :=
    h.each_of_legal (fun _ _ _ _ hlaw => hlaw) (fun _ _ hlegal hm => hm.each_settled_once hlegal)
      (.nil _)
  have heq := Journal.eq_of_once (p := fun e => ∃ c, e = .settled id phase c)
    (fun before e after hj hp e' he' hp' => by
      obtain ⟨c, rfl⟩ := hp
      obtain ⟨c', rfl⟩ := hp'
      exact Journal.each_iff.mp heach before _ after hj id phase c rfl hphase c' he')
    hs ho ⟨_, rfl⟩ ⟨_, rfl⟩
  exact (Event.settled.inj heq).2.2

end Legal

end CommandChain
