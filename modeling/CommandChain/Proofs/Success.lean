import CommandChain.Proofs.Conduct.Whole
/-!
# What it takes to succeed

A chain that succeeds has run completely, unless some command gave up a call in a chain that went
on: the status of a chain tells whether it was halted, and not what its commands returned. Where a
command gives up beginning, those behind it never begin, and what is written to them is lost. Where
it gives up its end, that end was not completed.
-/

namespace CommandChain

/-- What becomes of an object that is not lost on its way to the command at a position: with no
command there it reaches the host, and otherwise that command processes it, or an error with the
object as its target is reported. -/
inductive Setting.Arrival (set : Setting) (position : Nat) (v : Value) (r : Record) :
    List Event → Prop
  | host (rest : List Event) (hend : position = set.commands.length) :
    Arrival set position v r (.delivered r :: rest)
  | processed (parameters : BoundParameters) (rest : List Event) :
    Arrival set position v r (.called ⟨position⟩ .process parameters (some v) :: rest)
  | reported (e : Record) (rest : List Event) (he : e.error?.bind ErrorRecord.target = some v) :
    Arrival set position v r (.emitted e :: .delivered e :: rest)

/-- What a chain has done that has run completely. -/
structure Setting.Complete (set : Setting) (journal : List Event) : Prop where
  /-- All commands have begun. -/
  begun : ∀ k < set.commands.length, Journal.HasBegun journal ⟨k⟩
  /-- Those that are not cut off have completed their end. -/
  ended : ∀ k < set.commands.length, Journal.isCut journal k = false →
    ∃ result, .returned ⟨k⟩ .finish result ∈ journal ∧ result.completes = true
  /-- No object is lost. -/
  arrivals : ∀ before r v after, journal = before ++ .emitted r :: after → r.object? = some v →
    ∃ position, before.getLast?.bind Event.receiver? = some position
      ∧ set.Arrival position v r after

/-- Some command gave up beginning, with commands behind it, or some command that is not cut off
gave up its end. -/
def Setting.GivesUp (set : Setting) (journal : List Event) : Prop :=
  (∃ k, k + 1 < set.commands.length ∧ .returned ⟨k⟩ .begin .stopped ∈ journal)
    ∨ ∃ k < set.commands.length, Journal.isCut journal k = false
      ∧ .returned ⟨k⟩ .finish .stopped ∈ journal

variable {set : Setting} {journal block : List Event}

/-! ## Objects -/

/-- An object is not lost, unless a command with others behind it did not complete its begin. -/
def Setting.Transit (set : Setting) (past : List Event) : Event → List Event → Prop
  | .emitted r, rest => ∀ v, r.object? = some v →
    ∃ position, past.getLast?.bind Event.receiver? = some position
      ∧ (set.Arrival position v r rest
        ∨ ∃ j, j + 1 < set.commands.length ∧ .settled ⟨j⟩ .begin false ∈ past)
  | _, _ => True

theorem Setting.Arrival.append {position : Nat} {v : Value} {r : Record} {rest : List Event}
    (h : set.Arrival position v r rest) (more : List Event) :
    set.Arrival position v r (rest ++ more) := by
  cases h with
  | host rest hend => exact .host _ hend
  | processed parameters rest => exact .processed parameters _
  | reported e rest he => exact .reported e _ he

/-- What follows a block loses nothing that the block does not. -/
theorem Setting.Transit.append {past rest : List Event} {e : Event} (h : set.Transit past e rest)
    (more : List Event) : set.Transit past e (rest ++ more) := by
  unfold Setting.Transit at h ⊢
  split
  · intro v hv
    obtain ⟨position, hreceiver, harrival⟩ := h v hv
    exact ⟨position, hreceiver, harrival.imp_left (·.append more)⟩
  · trivial

/-- What is put on its way is handed over or passed over. -/
theorem Handover.arrival {position : Nat} {v : Value} {r : Record}
    (h : Handover set journal position v r block) :
    set.Arrival position v r block
      ∨ ∃ j, j + 1 < set.commands.length ∧ .settled ⟨j⟩ .begin false ∈ journal := by
  cases h with
  | host hend => exact .inl (.host [] hend)
  | skipped j hlt hj hbegin => exact .inr ⟨j, by omega, hbegin⟩
  | rejected e he => exact .inl (.reported e _ he)
  | failed e he => exact .inl (.reported e _ he)
  | called parameters => exact .inl (.processed parameters [])

/-- A handover emits no object. -/
theorem Handover.each_transit {position : Nat} {v : Value} {r : Record} {past : List Event}
    (h : Handover set journal position v r block) : Journal.Each set.Transit past block := by
  have quiet {e : Record} (he : e.error?.bind ErrorRecord.target = some v) : e.object? = none := by
    cases hp : e.payload <;> simp [Record.error?, Record.object?, hp] at he ⊢
  cases h with
  | rejected e he => simp [Journal.Each, Setting.Transit, quiet he]
  | failed e he => simp [Journal.Each, Setting.Transit, quiet he]
  | _ => simp [Journal.Each, Setting.Transit]

/-- An object on its way follows the step that puts it there. -/
theorem Offer.transit {position : Nat} {v : Value} {r : Record} {offer handover : List Event}
    (h : Offer journal position v r offer) (hv : r.object? = some v)
    (hover : Handover set journal position v r handover) :
    Journal.Each set.Transit journal (offer ++ handover) := by
  have hfound (e : Event) :
      set.Arrival position v r handover
        ∨ ∃ j, j + 1 < set.commands.length ∧ .settled ⟨j⟩ .begin false ∈ journal ++ [e] := by
    rcases hover.arrival with harrival | ⟨j, hj, hbegin⟩
    · exact .inl harrival
    · exact .inr ⟨j, hj, List.mem_append_left _ hbegin⟩
  cases h with
  | host v r hcut =>
    refine ⟨trivial, fun w hw => ?_, hover.each_transit⟩
    obtain rfl : v = w := Option.some.inj (hv.symm.trans hw)
    exact ⟨0, by simp [Event.receiver?], hfound _⟩
  | command i v r hcut =>
    refine ⟨trivial, fun w hw => ?_, hover.each_transit⟩
    obtain rfl : v = w := Option.some.inj (hv.symm.trans hw)
    exact ⟨i + 1, by simp [Event.receiver?], hfound _⟩

/-- Settling a call emits no object. -/
theorem Settlement.each_transit {id : CommandId} {phase : Phase} {result : CallResult}
    {completed : Bool} (h : Settlement set id phase result completed block) :
    Journal.Each set.Transit journal block := by
  cases h <;> simp [Journal.Each, Setting.Transit, *]

/-- No move loses an object, but behind a command that did not complete its begin. -/
theorem Move.each_transit (h : Move set journal block) :
    Journal.Each set.Transit journal block := by
  cases h with
  | silenced r hr => simp [Journal.Each, Setting.Transit, hr]
  | reported r hr => simp [Journal.Each, Setting.Transit, hr]
  | message r hr => simp [Journal.Each, Setting.Transit, hr]
  | failed id r hr => simp [Journal.Each, Setting.Transit, hr]
  | offered position v r offer handover hv hhalt hoffer hover => exact hoffer.transit hv hover
  | settled id phase result completed block honce hcalled hclear hblock => exact hblock.each_transit
  | onceAborted id result block honce hcalled hblock hhalt => exact hblock.each_transit
  | onceEnded id result completed block parameters honce hcalled hblock hgo hclear =>
    refine hblock.each_transit.append (fun _ e _ _ hlaw => ?_) ⟨trivial, trivial⟩
    exact Setting.Transit.append hlaw _
  | _ => simp [Journal.Each, Setting.Transit]

/-- In a legal journal no object is lost, unless a command with others behind it did not complete
its begin. -/
theorem Legal.arrival (h : Legal set [] journal)
    (hbegin : ∀ j, j + 1 < set.commands.length → .settled ⟨j⟩ .begin false ∉ journal)
    {before after : List Event} {r : Record} {v : Value}
    (heq : journal = before ++ .emitted r :: after) (hv : r.object? = some v) :
    ∃ position, before.getLast?.bind Event.receiver? = some position
      ∧ set.Arrival position v r after := by
  have heach := h.each (fun _ _ _ _ hlaw => hlaw.append _) fun _ _ hmove => hmove.each_transit
  obtain ⟨position, hreceiver, harrival⟩ := Journal.each_iff.mp heach before _ after heq v hv
  refine ⟨position, hreceiver, harrival.resolve_right ?_⟩
  rintro ⟨j, hj, hmem⟩
  refine hbegin j hj ?_
  rw [heq]
  exact List.mem_append_left _ hmem

/-! ## Commands -/

/-- In a run that nothing kept from its end, a call that did not complete was given up. -/
theorem Setting.Unhindered.stopped_of_settled (h : set.Unhindered journal)
    (hlegal : Legal set [] journal) {id : CommandId} {phase : Phase}
    (hs : .settled id phase false ∈ journal) : .returned id phase .stopped ∈ journal := by
  obtain ⟨result, hreturned, -, hno⟩ := hlegal.returned_of_settled hs
  rcases hno rfl with rfl | hfailed
  · exact hreturned
  · exact absurd hfailed (h.unfailed id)

/-- A call that counts as completed was not given up. -/
theorem Legal.not_stopped_of_returned (h : Legal set [] journal) {id : CommandId} {phase : Phase}
    (hphase : phase ≠ .process) {result : CallResult} (hr : .returned id phase result ∈ journal)
    (hc : result.completes = true) : .returned id phase .stopped ∉ journal := by
  intro hstopped
  obtain rfl := h.returned_unique hphase hr hstopped
  cases hc

/-- All commands begin, unless one with others behind it gives up beginning. -/
theorem Setting.Unhindered.begun_iff (h : set.Unhindered journal) (hlegal : Legal set [] journal) :
    (∀ k < set.commands.length, Journal.HasBegun journal ⟨k⟩)
      ↔ ∀ k, k + 1 < set.commands.length → .returned ⟨k⟩ .begin .stopped ∉ journal := by
  constructor
  · intro hbegun k hk
    obtain ⟨parameters, input, hcalled⟩ := hbegun (k + 1) hk
    have hsettled := (hlegal.settled_of_begun hcalled).2 k (Nat.lt_succ_self k)
    obtain ⟨result, hreturned, hok, -⟩ := hlegal.returned_of_settled hsettled
    exact hlegal.not_stopped_of_returned (by decide) hreturned (hok rfl)
  · intro hno k hk
    by_contra hnot
    obtain ⟨j, hj, hsettled⟩ := h.flowing k hk (Journal.created_of_not_begun hnot)
    exact hno j (by omega) (h.stopped_of_settled hlegal hsettled)

/-- Once all commands have begun, those that are not cut off complete their end, unless they give it
up. -/
theorem Setting.Unhindered.ended_iff (h : set.Unhindered journal) (hlegal : Legal set [] journal)
    {k : Nat} (hbegun : Journal.HasBegun journal ⟨k⟩) (hcut : Journal.isCut journal k = false) :
    (∃ result, .returned ⟨k⟩ .finish result ∈ journal ∧ result.completes = true)
      ↔ .returned ⟨k⟩ .finish .stopped ∉ journal := by
  constructor
  · rintro ⟨result, hreturned, hok⟩
    exact hlegal.not_stopped_of_returned (by decide) hreturned hok
  · intro hno
    obtain ⟨completed, hsettled⟩ := h.ended ⟨k⟩ hbegun hcut
    cases completed with
    | false => exact absurd (h.stopped_of_settled hlegal hsettled) hno
    | true =>
      obtain ⟨result, hreturned, hok, -⟩ := hlegal.returned_of_settled hsettled
      exact ⟨result, hreturned, hok rfl⟩

/-- In a run that nothing kept from its end, the chain has run completely exactly if no command gave
up. -/
theorem Setting.Unhindered.complete_iff (h : set.Unhindered journal)
    (hlegal : Legal set [] journal) : set.Complete journal ↔ ¬ set.GivesUp journal := by
  constructor
  · rintro hcomplete (⟨k, hk, hstopped⟩ | ⟨k, hk, hcut, hstopped⟩)
    · exact (h.begun_iff hlegal).mp hcomplete.begun k hk hstopped
    · exact (h.ended_iff hlegal (hcomplete.begun k hk) hcut).mp (hcomplete.ended k hk hcut) hstopped
  · intro hno
    have hbegins : ∀ k, k + 1 < set.commands.length → .returned ⟨k⟩ .begin .stopped ∉ journal :=
      fun k hk hstopped => hno (.inl ⟨k, hk, hstopped⟩)
    have hbegun := (h.begun_iff hlegal).mpr hbegins
    refine ⟨hbegun, fun k hk hcut => ?_, fun before r v after heq hv => ?_⟩
    · exact (h.ended_iff hlegal (hbegun k hk) hcut).mpr fun hstopped =>
        hno (.inr ⟨k, hk, hcut, hstopped⟩)
    · refine hlegal.arrival (fun j hj hsettled => ?_) heq hv
      exact hbegins j hj (h.stopped_of_settled hlegal hsettled)

/-- **What it takes to succeed.** A chain that succeeds, whatever its commands do and whatever it is
fed, has run completely exactly if no command with others behind it gave up beginning, and none that
is not cut off gave up its end. -/
theorem Pipeline.complete_of_succeeded_iff (settings : ChainSettings) (host : StopToken)
    (flags : StopFlags) (specs : List CommandSpec) (tokens : List StopToken)
    (input : Option (List Value)) {o : Outcome}
    (ho : (((build settings host flags specs).signaled tokens).invoke input).1 = .ok o)
    (hstatus : o.status = .succeeded) :
    ((build settings host flags specs).setting input).Complete
        (((build settings host flags specs).signaled tokens).invoke input).2.chain.journal
      ↔ ¬ ((build settings host flags specs).setting input).GivesUp
        (((build settings host flags specs).signaled tokens).invoke input).2.chain.journal :=
  (unhindered_of_succeeded settings host flags specs tokens input ho hstatus).complete_iff
    (legal_journal settings host flags specs tokens input)

/-- A command without parameters whose end returns this result. -/
def Command.ending (result : CallResult) : Command where
  name := "ending"
  parameters := []
  Memory := Unit
  fresh := ()
  process _ _ := .done .ok
  finish _ _ := .done result

/-- The chain of one such command, without input. -/
def Pipeline.ofEnding (result : CallResult) : Pipeline :=
  (build {} ⟨0, []⟩ ⟨1, []⟩ [{ command := .ending result }]).signaled []

/-- A command that completes its end succeeds, and its chain has run completely. -/
theorem complete_of_succeeded_ending :
    ∃ o, ((Pipeline.ofEnding .ok).invoke none).1 = .ok o ∧ o.status = .succeeded
      ∧ ((Pipeline.ofEnding .ok).setting none).Complete
        ((Pipeline.ofEnding .ok).invoke none).2.chain.journal := by
  refine ⟨_, rfl, rfl, (Pipeline.complete_of_succeeded_iff {} ⟨0, []⟩ ⟨1, []⟩
    [{ command := .ending .ok }] [] none rfl rfl).mpr ?_⟩
  rintro (⟨k, hk, -⟩ | ⟨k, -, -, hstopped⟩)
  · exact absurd hk (Nat.not_lt_of_le (Nat.le_add_left 1 k))
  · have hjournal : ((Pipeline.ofEnding .ok).invoke none).2.chain.journal
        = [.called ⟨0⟩ .begin .empty none, .returned ⟨0⟩ .begin .ok, .settled ⟨0⟩ .begin true,
          .called ⟨0⟩ .process .empty none, .returned ⟨0⟩ .process .ok, .settled ⟨0⟩ .process true,
          .called ⟨0⟩ .finish .empty none, .returned ⟨0⟩ .finish .ok, .settled ⟨0⟩ .finish true,
          .disposing ⟨0⟩] := rfl
    change _ ∈ ((Pipeline.ofEnding .ok).invoke none).2.chain.journal at hstopped
    rw [hjournal] at hstopped
    simp at hstopped

/-- A chain succeeds although its command gives up its end. -/
theorem succeeded_not_complete_ending :
    ∃ o, ((Pipeline.ofEnding .stopped).invoke none).1 = .ok o ∧ o.status = .succeeded
      ∧ ¬ ((Pipeline.ofEnding .stopped).setting none).Complete
        ((Pipeline.ofEnding .stopped).invoke none).2.chain.journal := by
  refine ⟨_, rfl, rfl, fun h => ?_⟩
  obtain ⟨result, hreturned, hok⟩ := h.ended 0 Nat.zero_lt_one rfl
  have hjournal : ((Pipeline.ofEnding .stopped).invoke none).2.chain.journal
      = [.called ⟨0⟩ .begin .empty none, .returned ⟨0⟩ .begin .ok, .settled ⟨0⟩ .begin true,
        .called ⟨0⟩ .process .empty none, .returned ⟨0⟩ .process .ok, .settled ⟨0⟩ .process true,
        .called ⟨0⟩ .finish .empty none, .returned ⟨0⟩ .finish .stopped,
        .settled ⟨0⟩ .finish false, .stopping ⟨0⟩, .disposing ⟨0⟩] := rfl
  rw [hjournal] at hreturned
  obtain rfl : result = .stopped := by simpa using hreturned
  cases hok

end CommandChain
