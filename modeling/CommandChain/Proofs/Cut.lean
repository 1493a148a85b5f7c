import CommandChain.Proofs.Conduct.Whole
/-!
# Commands that are cut off

A command may declare that it needs no further input. The commands before it then no longer produce:
they are not called to end, what they write is refused, the host feeds no more, and those of them
that run are told to stop once. The others end as ever, and the chain succeeds.

There are two exceptions. A command that processes once and is cut off during that call is called to
end right after it. And where telling a command to stop panics, giving the pipeline up tells it to
stop again.
-/

namespace CommandChain

/-- A command is to be told to stop since it is cut off: it began and has neither failed nor
completed its end. -/
structure Journal.OwedStop (journal : List Event) (id : CommandId) : Prop where
  cut : isCut journal id.number = true
  begun : HasBegun journal id
  unfailed : .failed id ∉ journal
  unended : .settled id .finish true ∉ journal

/-- What follows from a cut, for a run with its outcome and its journal. -/
structure Setting.CutLaw (set : Setting) (outcome : Except Panic Outcome) (journal : List Event) :
    Prop where
  /-- No command that is cut off is called to end. -/
  ends : ∀ before id parameters input after,
    journal = before ++ .called id .finish parameters input :: after →
    Journal.isCut before id.number = false
  /-- What a command that is cut off writes is refused, and no record of it is made. -/
  writes : ∀ before id v after, journal = before ++ .writing id v :: after →
    Journal.isCut before id.number = true → ∃ rest, after = .wrote id .stopped :: rest
  /-- The host feeds nothing after a cut. -/
  feeds : ∀ before v after, journal = before ++ .feeding v :: after →
    before.any Event.isCut = false
  /-- Each command that is cut off while it runs is told to stop once. -/
  stops : ∀ id, Journal.OwedStop journal id → (Journal.stops journal).count id = 1
  /-- Where nothing halts the chain, the other commands are called to end, and the chain succeeds. -/
  completes : ∀ o, outcome = .ok o → set.isHalted journal = false → o.status = .succeeded
    ∧ ∀ id, Journal.HasBegun journal id → Journal.isCut journal id.number = false →
      ∃ parameters input, .called id .finish parameters input ∈ journal

/-- Some command that processes once is cut off during that call and goes on to its end: it
completed the call, or the chain is not halting. -/
def Setting.EndsCutOff (set : Setting) (journal : List Event) : Prop :=
  ∃ before id completed after, journal = before ++ .settled id .process completed :: after
    ∧ set.processesOnce id = true ∧ Journal.isCut before id.number = true
    ∧ (completed = true ∨ set.isHalted before = false)

/-- The run was unwound by telling a command to stop that is cut off. -/
def Pipeline.UnwindsCutOff (p : Pipeline) (input : Option (List Value)) (journal : List Event) :
    Prop :=
  ∃ id, Journal.OwedStop journal id ∧ (∃ e, (p.run input).1 = .error e)
    ∧ (Journal.stops (p.run input).2.chain.journal).getLast? = some id

variable {set : Setting} {journal block : List Event}

/-! ## Ends -/

/-- A command that is cut off is called to end. -/
def Journal.CutEnd (past : List Event) : Event → Prop
  | .called id .finish _ _ => isCut past id.number = true
  | _ => False

/-- A command that processes once is cut off during that call and goes on to its end. -/
def Setting.CutCompletion (set : Setting) (past : List Event) : Event → Prop
  | .settled id .process completed => set.processesOnce id = true
    ∧ Journal.isCut past id.number = true ∧ (completed = true ∨ set.isHalted past = false)
  | _ => False

/-- Settling a call cuts nothing off. -/
theorem Settlement.isCut_append {id : CommandId} {phase : Phase} {result : CallResult}
    {completed : Bool} (h : Settlement set id phase result completed block) (position : Nat) :
    Journal.isCut (journal ++ block) position = Journal.isCut journal position := by
  cases h <;> simp [Journal.isCut, Event.cutsOff]

/-- Settling a call calls no command to end, and it lets one that is cut off go on only as its last
step. -/
theorem Settlement.occurs_cutCompletion {id : CommandId} {phase : Phase} {result : CallResult}
    {completed : Bool} (h : Settlement set id phase result completed block) (journal : List Event) :
    ¬ Journal.Occurs Journal.CutEnd journal block
      ∧ (Journal.Occurs set.CutCompletion journal block ↔ phase = .process
        ∧ set.processesOnce id = true ∧ Journal.isCut journal id.number = true
        ∧ (completed = true ∨ set.isHalted (journal ++ block) = false)) := by
  constructor
  · cases h <;> simp [Journal.Occurs, Journal.CutEnd]
  · cases h <;> cases phase <;>
      simp [Journal.Occurs, Setting.CutCompletion, Event.raises, Journal.isCut, Event.cutsOff]

/-- A move calls a command that is cut off to end exactly where it lets one go on to its end. -/
theorem Move.cutEnd_iff (h : Move set journal block) :
    Journal.Occurs Journal.CutEnd journal block
      ↔ Journal.Occurs set.CutCompletion journal block := by
  cases h with
  | offered position v r offer handover hv hhalt hoffer hover =>
    cases hoffer <;> cases hover <;> simp [Journal.Occurs, Journal.CutEnd, Setting.CutCompletion]
  | finish id parameters hhalt hcut hclear =>
    simp [Journal.Occurs, Journal.CutEnd, Setting.CutCompletion, hcut]
  | settled id phase result completed block honce hcalled hclear hblock =>
    obtain ⟨hend, hcompletion⟩ := hblock.occurs_cutCompletion journal
    rw [hcompletion]
    refine iff_of_false hend ?_
    rintro ⟨hphase, honce', -⟩
    rw [honce hphase] at honce'
    cases honce'
  | onceAborted id result block honce hcalled hblock hhalt =>
    obtain ⟨hend, hcompletion⟩ := hblock.occurs_cutCompletion journal
    rw [hcompletion]
    refine iff_of_false hend ?_
    rintro ⟨-, -, -, hgo⟩
    rw [hhalt] at hgo
    exact hgo.elim Bool.false_ne_true Bool.noConfusion
  | onceEnded id result completed block parameters honce hcalled hblock hgo hclear =>
    obtain ⟨hend, hcompletion⟩ := hblock.occurs_cutCompletion journal
    rw [Journal.occurs_append, Journal.occurs_append, hcompletion]
    simp only [hend, false_or, Journal.Occurs, Journal.CutEnd, Setting.CutCompletion, or_false,
      honce, true_and, hgo, and_true, hblock.isCut_append]
  | _ => simp [Journal.Occurs, Journal.CutEnd, Setting.CutCompletion]

/-- No command that is cut off is called to end exactly if none goes on to its end from the call in
which it was cut off. -/
theorem Legal.cutEnds_iff (h : Legal set [] journal) :
    (∀ before id parameters input after,
      journal = before ++ .called id .finish parameters input :: after →
      Journal.isCut before id.number = false) ↔ ¬ set.EndsCutOff journal := by
  have hends : (∀ before id parameters input after,
      journal = before ++ .called id .finish parameters input :: after →
      Journal.isCut before id.number = false) ↔ ¬ Journal.Occurs Journal.CutEnd [] journal := by
    rw [Journal.occurs_iff]
    constructor
    · rintro hall ⟨before, e, after, heq, he⟩
      unfold Journal.CutEnd at he
      split at he
      · rw [List.nil_append, hall before _ _ _ after heq] at he
        cases he
      · exact he
    · intro hno before id parameters input after heq
      rw [← Bool.not_eq_true]
      exact fun hcut => hno ⟨before, _, after, heq, hcut⟩
  have hcompletes : set.EndsCutOff journal ↔ Journal.Occurs set.CutCompletion [] journal := by
    rw [Journal.occurs_iff]
    constructor
    · rintro ⟨before, id, completed, after, heq, hgo⟩
      exact ⟨before, _, after, heq, hgo⟩
    · rintro ⟨before, e, after, heq, he⟩
      unfold Setting.CutCompletion at he
      split at he
      · exact ⟨before, _, _, after, heq, he⟩
      · cases he
  rw [hends, hcompletes, h.occurs_iff fun _ _ hmove => hmove.cutEnd_iff]

/-! ## Writes and feeding -/

/-- What a command that is cut off writes is refused at once, and the host feeds nothing after a
cut. -/
def Journal.Dammed (past : List Event) : Event → List Event → Prop
  | .writing id _, rest => isCut past id.number = true → ∃ more, rest = .wrote id .stopped :: more
  | .feeding _, _ => past.any Event.isCut = false
  | _, _ => True

/-- No move lets an object past a cut. -/
theorem Move.each_dammed (h : Move set journal block) :
    Journal.Each Journal.Dammed journal block := by
  cases h with
  | tooEarly id v hcut => simp [Journal.Each, Journal.Dammed, hcut]
  | offered position v r offer handover hv hhalt hoffer hover =>
    cases hoffer <;> cases hover <;> simp_all [Journal.Each, Journal.Dammed]
  | settled id phase result completed block honce hcalled hclear hblock =>
    cases hblock <;> simp [Journal.Each, Journal.Dammed]
  | onceAborted id result block honce hcalled hblock hhalt =>
    cases hblock <;> simp [Journal.Each, Journal.Dammed]
  | onceEnded id result completed block parameters honce hcalled hblock hgo hclear =>
    cases hblock <;> simp [Journal.Each, Journal.Dammed]
  | _ => simp [Journal.Each, Journal.Dammed]

/-- At every step of a lawful journal, no object gets past a cut. -/
theorem Legal.dammed (h : Legal set [] journal) {before after : List Event} {e : Event}
    (heq : journal = before ++ e :: after) : Journal.Dammed before e after := by
  have hstable : ∀ past e rest more,
      Journal.Dammed past e rest → Journal.Dammed past e (rest ++ more) := by
    intro past e rest more hlaw
    unfold Journal.Dammed at hlaw ⊢
    split
    · intro hcut
      obtain ⟨m, rfl⟩ := hlaw hcut
      exact ⟨m ++ more, rfl⟩
    · exact hlaw
    · trivial
  exact Journal.each_iff.mp (h.each hstable fun _ _ hmove => hmove.each_dammed) before e after heq

/-! ## Stops -/

/-- A running command is told to stop once, unless telling it so unwound the run. -/
theorem Setting.Concludes.count_stops {p : Pipeline} {input : Option (List Value)}
    {stages : List Stage} {chain : Chain} {outcome : Except Panic Unit}
    (h : set.Concludes p input stages chain outcome) (hnodup : (stages.map Stage.id).Nodup)
    (hquiet : Journal.stops chain.journal = []) {id : CommandId} (hid : id ∈ runningIds stages) :
    (Journal.stops (p.invoke input).2.chain.journal).count id = 1
      ↔ ¬ ((∃ e, (p.run input).1 = .error e)
        ∧ (Journal.stops (p.run input).2.chain.journal).getLast? = some id) := by
  have hone : (runningIds stages).count id = 1 := by
    rw [(nodup_runningIds hnodup).count, if_pos hid]
  cases h with
  | panicked e hout hrun hchain hdrop =>
    obtain ⟨block, hgrown, -, -, hstops⟩ := hdrop.grown
    refine iff_of_true ?_ ?_
    · rw [hgrown, Journal.stops_append, hquiet, hstops, List.nil_append, List.count_reverse, hone]
    · rintro ⟨-, hlast⟩
      rw [hchain, hquiet] at hlast
      cases hlast
  | completed o final hout hrun hstatus hfinal hdrop =>
    obtain ⟨block, hgrown, -, -, hstops⟩ := (hfinal.trans hdrop).grown
    refine iff_of_true ?_ ?_
    · rw [hgrown, Journal.stops_append, hquiet, hstops, List.append_nil, List.nil_append, hone]
    · rintro ⟨⟨e, he⟩, -⟩
      rw [hrun] at he
      cases he
  -- The command whose hook panicked is still running when the chain is dropped, and is told again.
  | unwound e before stage after hout hrun hsplit hrunning hstop hdrop =>
    obtain ⟨block, hgrown, -, -, hstops⟩ := hstop.grown
    obtain ⟨block', hgrown', -, -, hstops'⟩ := hdrop.grown
    have hlast : (Journal.stops (p.run input).2.chain.journal).getLast? = some stage.id := by
      rw [hgrown, Journal.stops_append, hquiet, hstops, List.nil_append, List.getLast?_concat]
    have hcount : (Journal.stops (p.invoke input).2.chain.journal).count id
        = (runningIds stages).count id + [stage.id].count id := by
      rw [hgrown', Journal.stops_append, hgrown, Journal.stops_append, hquiet, hstops, hstops',
        hsplit, runningIds_append, List.nil_append, List.count_append, List.count_append,
        List.count_append, List.count_reverse]
      omega
    rw [hcount, hone, hlast]
    constructor
    · rintro hzero ⟨-, hsame⟩
      obtain rfl := Option.some.inj hsame
      simp at hzero
    · intro hother
      have hne : stage.id ≠ id := fun heq => hother ⟨⟨e, hrun⟩, congrArg some heq⟩
      rw [List.count_singleton, beq_eq_false_iff_ne.mpr hne]
      rfl

/-! ## The whole law -/

section

variable (settings : ChainSettings) (host : StopToken) (flags : StopFlags)
  (specs : List CommandSpec) (tokens : List StopToken) (input : Option (List Value))

namespace Pipeline

/-- The steps of a run tell no command to stop. -/
theorem stops_ran :
    Journal.stops (ran settings host flags specs tokens input).chain.journal = [] := by
  obtain ⟨-, -, block, hgrown, hrun, -⟩ := (ran_course settings host flags specs tokens input).grown
  have hsignals : ((build settings host flags specs).signaled tokens).chain.journal
      = tokens.map .signaled := Chain.journal_signalAll _ tokens
  rw [hgrown, hsignals, Journal.stops_append]
  have hblock : Journal.stops block = [] := by
    rw [Journal.stops, List.filterMap_eq_nil_iff]
    intro e he
    have := hrun e he
    cases e <;> first | rfl | cases this
  rw [hblock, List.append_nil]
  simp [Journal.stops, Event.stopped?]

/-- A command that is owed to be told to stop is told so once, unless that unwound the run. -/
theorem count_stops_iff {id : CommandId}
    (h : Journal.OwedStop
      (((build settings host flags specs).signaled tokens).invoke input).2.chain.journal id) :
    (Journal.stops
          (((build settings host flags specs).signaled tokens).invoke input).2.chain.journal).count id
        = 1
      ↔ ¬ ((∃ e, (((build settings host flags specs).signaled tokens).run input).1 = .error e)
        ∧ (Journal.stops (((build settings host flags specs).signaled tokens).run
          input).2.chain.journal).getLast? = some id) := by
  have hcourse := ran_course settings host flags specs tokens input
  have hconcluded := invoke_concluded settings host flags specs tokens input
  obtain ⟨stops, hparts⟩ := hconcluded.parts
  obtain ⟨parameters, input', hbegun⟩ := h.begun
  have hbegun := hparts.mem_of_mem hbegun not_false
  have hrunning := Journal.isRunning_of_begun hbegun
    (fun hf => h.unfailed (hparts.mem_of_mem_start hf))
    (fun hs => h.unended (hparts.mem_of_mem_start hs))
  have hlt := (hcourse.legal.settled_of_begun hbegun).1
  obtain ⟨stage, hmem, hid, hstate⟩ := hcourse.placed.exists_stage (Nat.zero_le id.number) (by
    simpa [setting] using hlt)
  refine hconcluded.count_stops hcourse.placed.nodup_id
    (stops_ran settings host flags specs tokens input) ?_
  rw [show id = stage.id from hid.symm]
  exact mem_runningIds hmem (by rw [hstate]; exact hrunning)

/-- A run that nothing halts succeeds, and all commands that have begun and are not cut off are
called to end. -/
theorem completes_of_running {o : Outcome}
    (ho : (((build settings host flags specs).signaled tokens).invoke input).1 = .ok o)
    (hhalt : ((build settings host flags specs).setting input).isHalted
      (((build settings host flags specs).signaled tokens).invoke input).2.chain.journal = false) :
    o.status = .succeeded ∧ ∀ id, Journal.HasBegun
        (((build settings host flags specs).signaled tokens).invoke input).2.chain.journal id →
      Journal.isCut (((build settings host flags specs).signaled tokens).invoke
        input).2.chain.journal id.number = false →
      ∃ parameters input', .called id .finish parameters input'
        ∈ (((build settings host flags specs).signaled tokens).invoke input).2.chain.journal := by
  have hlegal := legal_journal settings host flags specs tokens input
  have hstatus := succeeded_of_running settings host flags specs tokens input ho hhalt
  refine ⟨hstatus, fun id hbegun hcut => ?_⟩
  have hwent := unhindered_of_succeeded settings host flags specs tokens input ho hstatus
  obtain ⟨completed, hsettled⟩ := hwent.ended id hbegun hcut
  obtain ⟨result, hreturned, -⟩ := hlegal.returned_of_settled hsettled
  exact hlegal.called_of_returned hreturned

/-- **The law of cuts.** Whatever the commands of a chain do, what follows from a cut does follow,
exactly if no command that processes once is cut off during that call and goes on to its end, and
no command that is cut off unwinds the run where it is told to stop. -/
theorem cut_law_iff :
    ((build settings host flags specs).setting input).CutLaw
        (((build settings host flags specs).signaled tokens).invoke input).1
        (((build settings host flags specs).signaled tokens).invoke input).2.chain.journal
      ↔ ¬ ((build settings host flags specs).setting input).EndsCutOff
          (((build settings host flags specs).signaled tokens).invoke input).2.chain.journal
        ∧ ¬ ((build settings host flags specs).signaled tokens).UnwindsCutOff input
          (((build settings host flags specs).signaled tokens).invoke input).2.chain.journal := by
  have hlegal := legal_journal settings host flags specs tokens input
  constructor
  · intro h
    refine ⟨hlegal.cutEnds_iff.mp h.ends, ?_⟩
    rintro ⟨id, howed, herror, hlast⟩
    exact (count_stops_iff settings host flags specs tokens input howed).mp (h.stops id howed)
      ⟨herror, hlast⟩
  · rintro ⟨hends, hunwinds⟩
    refine ⟨hlegal.cutEnds_iff.mpr hends, fun before id v after heq hcut => ?_,
      fun before v after heq => ?_, fun id howed => ?_, fun o ho hhalt => ?_⟩
    · exact hlegal.dammed heq hcut
    · exact hlegal.dammed heq
    · refine (count_stops_iff settings host flags specs tokens input howed).mpr ?_
      rintro ⟨herror, hlast⟩
      exact hunwinds ⟨id, howed, herror, hlast⟩
    · exact completes_of_running settings host flags specs tokens input ho hhalt

end Pipeline

end

/-- A command without parameters that writes an object while it processes. -/
def Command.writing (v : Value) : Command where
  name := "once"
  parameters := []
  Memory := Unit
  fresh := ()
  process _ _ := .write v .done

/-- A command that needs no input after its first object. -/
def Command.sated : Command where
  name := "sated"
  parameters := [{ name := "InputObject", pipeline := .byValue }]
  Memory := Unit
  fresh := ()
  process _ _ := .cutInput (.done .ok)

/-- The command that is called to end at a step. -/
def Event.finishes? : Event → Option CommandId
  | .called id .finish _ _ => some id
  | _ => none

/-- A command is not cut off before a step that calls it to end. -/
theorem Setting.CutLaw.ends_at {set : Setting} {outcome : Except Panic Outcome} {journal : List Event}
    (h : set.CutLaw outcome journal) (k : Nat) (id : CommandId)
    (hcall : journal[k]?.bind Event.finishes? = some id) :
    Journal.isCut (journal.take k) id.number = false := by
  obtain ⟨e, he, hfinishes⟩ := Option.bind_eq_some_iff.mp hcall
  obtain ⟨hlt, hat⟩ := List.getElem?_eq_some_iff.mp he
  unfold Event.finishes? at hfinishes
  split at hfinishes
  · next parameters input =>
    obtain rfl := Option.some.inj hfinishes
    refine h.ends _ _ parameters input (journal.drop (k + 1)) ?_
    rw [← hat, ← List.drop_eq_getElem_cons hlt, List.take_append_drop]
  · cases hfinishes

/-- A command that is cut off while it processes once is called to end all the same. -/
theorem not_cutLaw_writing :
    ¬ ((Pipeline.build {} ⟨0, []⟩ ⟨1, []⟩ [{ command := .writing .null },
        { command := .sated }]).setting (some [])).CutLaw
      (((Pipeline.build {} ⟨0, []⟩ ⟨1, []⟩ [{ command := .writing .null },
        { command := .sated }]).signaled []).invoke (some [])).1
      (((Pipeline.build {} ⟨0, []⟩ ⟨1, []⟩ [{ command := .writing .null },
        { command := .sated }]).signaled []).invoke (some [])).2.chain.journal := by
  intro h
  have hcut := h.ends_at 16 ⟨0⟩ (by decide +kernel)
  exact absurd hcut (by decide +kernel)

end CommandChain
