import CommandChain.Proofs.Accounts.Due
import CommandChain.Proofs.Disposal.Release
/-!
# The errors on the timeline

The errors that reach the host are that of a command which cannot be bound, those that are due during
the calls of the commands, and those of dispose hooks, in this order. They are numbered from zero on
without a gap. Where no command marks an error as terminating by itself, the first that terminates
is the one with which the chain failed.
-/

namespace CommandChain

variable {set : Setting} {journal block : List Event} {id : CommandId}

/-! ## Their numbers -/

/-- The record that a step makes. -/
def Event.made? : Event → Option Record
  | emitted r => some r
  | _ => none

/-- The records that were made on a channel. -/
def Journal.made (kind : RecordKind) (journal : List Event) : List Record :=
  (journal.filterMap Event.made?).filter (·.kind == kind)

theorem Journal.made_append (kind : RecordKind) (journal block : List Event) :
    made kind (journal ++ block) = made kind journal ++ made kind block := by
  simp [made]

/-- The records of a channel are numbered in the order in which they are made. -/
theorem Journal.Numbered.sequences (h : Numbered journal) (kind : RecordKind) :
    (made kind journal).map Record.sequence = List.range (count kind journal) := by
  induction journal using List.reverseRecOn with
  | nil => rfl
  | append_singleton journal e ih =>
    have hnumbered : Numbered journal := fun before r after heq =>
      h before r (after ++ [e]) (by rw [heq, List.append_assoc, List.cons_append])
    rw [made_append, count_append, List.map_append, ih hnumbered]
    cases e with
    | emitted r =>
      have hr := h journal r [] rfl
      by_cases hkind : r.kind = kind
      · subst hkind
        simp [made, count, Event.made?, Event.emits, List.range_succ, hr]
      · simp [made, count, Event.made?, Event.emits, hkind]
    | _ => simp [made, count, Event.made?, Event.emits]

/-- Every error that is made reaches the host at once. -/
theorem Move.made_error (h : Move set journal block) :
    Journal.made .error block = (Journal.deliveries block).filter (·.kind == .error) := by
  have settlement {i : CommandId} {phase : Phase} {result : CallResult} {completed : Bool}
      {b : List Event} (hb : Settlement set i phase result completed b) :
      Journal.made .error b = (Journal.deliveries b).filter (·.kind == .error) := by
    cases hb <;> rfl
  cases h with
  | silenced r hr i m hreport hsilent =>
    obtain ⟨phase, input, -, hpayload⟩ := hreport.payload
    have hkind : r.kind ≠ .error := by
      cases m <;> simp [Record.kind, hpayload, Message.completed, Payload.kind, Message.kind,
        Preferences.delivers] at hsilent ⊢
    show [r].filter (·.kind == .error) = []
    simp [hkind]
  -- An object is numbered among the objects, whether or not it reaches the host.
  | offered position v r offer handover hv hhalt hoffer hover =>
    have hkind := Record.kind_of_object hv
    have hmade : Journal.made .error offer = [] ∧ Journal.deliveries offer = [] := by
      have hother : [r].filter (·.kind == .error) = [] := by simp [hkind]
      cases hoffer <;> exact ⟨hother, rfl⟩
    rw [Journal.made_append, Journal.deliveries_append, hmade.1, hmade.2, List.nil_append,
      List.nil_append]
    cases hover with
    | host =>
      show [] = [r].filter (·.kind == .error)
      simp [hkind]
    | _ => rfl
  | settled i phase result completed block honce hcalled hclear hblock => exact settlement hblock
  | onceAborted i result block honce hcalled hblock => exact settlement hblock
  | onceEnded i result completed block parameters honce hcalled hblock =>
    rw [Journal.made_append, Journal.deliveries_append, settlement hblock, List.filter_append]
    rfl
  | _ => rfl

/-- Every error that is made reaches the host. -/
theorem Legal.made_error (h : Legal set journal block) :
    Journal.made .error block = (Journal.deliveries block).filter (·.kind == .error) := by
  induction h with
  | nil journal => rfl
  | move hmove _ ih =>
    rw [Journal.made_append, Journal.deliveries_append, List.filter_append, hmove.made_error, ih]

/-! ## The first that terminates -/

/-- The error that a command describes at a step. -/
def Event.described? : Event → Option ErrorRecord
  | .reporting _ (.error e) => some e
  | .returned _ _ (.fault f) => some f.error
  | _ => none

/-- No command marks an error as terminating by itself. -/
def Journal.Unmarked (journal : List Event) : Prop :=
  ∀ e ∈ journal.filterMap Event.described?, e.terminating = false

theorem Journal.unmarked_append :
    Unmarked (journal ++ block) ↔ Unmarked journal ∧ Unmarked block := by
  simp only [Unmarked, List.filterMap_append, List.mem_append]
  exact ⟨fun h => ⟨fun e he => h e (.inl he), fun e he => h e (.inr he)⟩,
    fun h e he => he.elim (h.1 e) (h.2 e)⟩

/-- The first error that terminates among those that reach the host. -/
def Journal.firstTerminating (journal : List Event) : Option ErrorRecord :=
  ((errors journal).map Prod.snd).find? ErrorRecord.terminating

theorem Journal.firstTerminating_append :
    firstTerminating (journal ++ block)
      = (firstTerminating journal).or (firstTerminating block) := by
  simp [firstTerminating, errors_append]

namespace CallResult

variable {result : CallResult} {escalated : Option ErrorRecord} {preferences : Preferences}

/-- A call that makes its command fail is reported with an error that terminates. -/
theorem terminating_of_isFatal (h : result.isFatal escalated preferences = true) (phase : Phase)
    (input : Option Value) :
    ∃ e, result.error? escalated preferences phase input = some e ∧ e.terminating = true := by
  cases escalated with
  | some e => exact ⟨_, rfl, rfl⟩
  | none =>
    cases result with
    | fault f => exact ⟨_, rfl, by rw [h, Bool.true_or]⟩
    | _ => cases h

/-- A call that does not is reported with one that does not terminate, unless the command marks its
fault. -/
theorem not_terminating_of_not_isFatal (h : result.isFatal escalated preferences = false)
    (hunmarked : ∀ f, result = .fault f → f.error.terminating = false) {phase : Phase}
    {input : Option Value} {e : ErrorRecord}
    (he : result.error? escalated preferences phase input = some e) : e.terminating = false := by
  cases escalated with
  | some e => cases h
  | none =>
    cases result with
    | fault f =>
      obtain rfl := Option.some.inj he
      show (_ || f.error.terminating) = false
      rw [h, hunmarked f rfl, Bool.or_false]
    | _ => cases he

end CallResult

/-- Settling a call makes its command fail with the error that is reported, where that terminates. -/
theorem Settlement.fault_eq {phase : Phase} {result : CallResult} {completed : Bool}
    (h : Settlement set id phase result completed block)
    (hverdict : set.Verdict journal id phase result block) (hunmarked : Journal.Unmarked block)
    (faults : Option ErrorRecord × Option ErrorRecord) :
    (block.foldl Journal.faultStep faults).2 = faults.2.or (Journal.firstTerminating block) := by
  obtain ⟨input, -, herrors⟩ := hverdict.errors
  have hfailed := hverdict.failed
  cases h with
  | completed => simp [Journal.faultStep, Journal.firstTerminating, Event.error?, Event.delivered?]
  | givenUp => simp [Journal.faultStep, Journal.firstTerminating, Event.error?, Event.delivered?]
  | reported f r hf hr =>
    -- Nothing fails, so the error that is reported does not terminate.
    have hfatal := Bool.eq_false_iff.mpr (mt hfailed.mpr (by simp))
    have hquiet : Journal.firstTerminating [.returned id phase (.fault f), .emitted r, .delivered r,
        .settled id phase true] = none := by
      rw [Journal.firstTerminating, herrors, List.find?_eq_none]
      intro e he
      simp only [List.map_map, List.mem_map, Option.mem_toList, Function.comp_apply] at he
      obtain ⟨e, he, rfl⟩ := he
      rw [CallResult.not_terminating_of_not_isFatal hfatal (fun f' hf' => ?_) he]
      · exact Bool.false_ne_true
      · obtain rfl := CallResult.fault.inj hf'
        exact hunmarked _ (by simp [Event.described?])
    rw [hquiet, Option.or_none]
    rfl
  | failed result r hr =>
    obtain ⟨e, he, hterminating⟩ :=
      CallResult.terminating_of_isFatal (hfailed.mp (by simp)) phase input
    have hfirst : Journal.firstTerminating [.returned id phase result, .emitted r, .delivered r,
        .failed id, .signaled set.stop, .settled id phase false] = some e := by
      rw [Journal.firstTerminating, herrors, he]
      simp [hterminating]
    have hreported : r.error? = some e := by
      rw [he] at herrors
      cases hr' : r.error? <;> simp [Event.error?, Event.delivered?, hr'] at herrors ⊢
      exact herrors.2
    rw [hfirst]
    show faults.2.or r.error? = _
    rw [hreported]

/-- Every move but the cleanup makes a command fail with the error that it reports, where that
terminates. -/
theorem Move.fault_eq (h : Move set journal block) (hrun : journal.any Event.isParting = false)
    (hunmarked : Journal.Unmarked block) (faults : Option ErrorRecord × Option ErrorRecord) :
    (block.foldl Journal.faultStep faults).2 = faults.2.or (Journal.firstTerminating block) := by
  have hobject {r : Record} {v : Value} (hv : r.object? = some v) : r.error? = none := by
    cases hp : r.payload <;> simp [Record.error?, Record.object?, hp] at hv ⊢
  cases h with
  | silenced r hr i m =>
    simp [Journal.faultStep, Journal.firstTerminating, Event.error?, Event.delivered?]
  | reported r hr i m hreport =>
    obtain ⟨phase, input, -, hpayload⟩ := hreport.payload
    cases m with
    | error e =>
      have he : e.terminating = false := hunmarked e (by simp [Event.described?])
      simp [Journal.faultStep, Journal.firstTerminating, Event.error?, Event.delivered?,
        Record.error?, hpayload, Message.completed, he]
    | _ =>
      simp [Journal.faultStep, Journal.firstTerminating, Event.error?, Event.delivered?,
        Record.error?, hpayload, Message.completed]
  | message r hr hparting =>
    rw [hrun] at hparting
    cases hparting
  -- An object is no error. What its handover reports are faults of binding it.
  | offered position v r offer handover hv hhalt hoffer hover =>
    have hquiet : Journal.firstTerminating offer = none ∧ offer.foldl Journal.faultStep faults = faults
        := by
      cases hoffer <;> exact ⟨rfl, rfl⟩
    rw [List.foldl_append, Journal.firstTerminating_append, hquiet.1, hquiet.2, Option.none_or]
    cases hover with
    | host =>
      simp [Journal.faultStep, Journal.firstTerminating, Event.error?, Event.delivered?, hobject hv]
    | rejected e he hreject =>
      obtain ⟨err, -, herr⟩ := hreject.error
      simp [Journal.faultStep, Journal.firstTerminating, Event.error?, Event.delivered?, herr]
    | failed e he hreject =>
      obtain ⟨err, -, herr⟩ := hreject.error
      simp [Journal.faultStep, Journal.firstTerminating, Event.error?, Event.delivered?, herr]
    | _ => simp [Journal.faultStep, Journal.firstTerminating, Event.error?, Event.delivered?]
  | failed i r hr hbind =>
    obtain ⟨err, -, herr⟩ := hbind.error
    simp [Journal.faultStep, Journal.firstTerminating, Event.error?, Event.delivered?, herr]
  | settled i phase result completed block honce hcalled hclear hblock hverdict =>
    exact hblock.fault_eq hverdict hunmarked faults
  | onceAborted i result block honce hcalled hblock hhalt hverdict =>
    exact hblock.fault_eq hverdict hunmarked faults
  | onceEnded i result completed block parameters honce hcalled hblock hgo hclear hverdict =>
    rw [List.foldl_append, Journal.firstTerminating_append]
    exact (hblock.fault_eq hverdict (Journal.unmarked_append.mp hunmarked).1 faults).trans
      (congrArg _ (Option.or_none).symm)
  | _ => simp [Journal.faultStep, Journal.firstTerminating, Event.error?, Event.delivered?]

/-- Up to the end of the last command, the error with which a command failed first is the first that
terminates. -/
theorem Legal.fault_eq (h : Legal set journal block)
    (hrun : (journal ++ block).any Event.isParting = false) (hunmarked : Journal.Unmarked block)
    (faults : Option ErrorRecord × Option ErrorRecord) :
    (block.foldl Journal.faultStep faults).2 = faults.2.or (Journal.firstTerminating block) := by
  induction h generalizing faults with
  | nil journal => exact Option.or_none.symm
  | @move journal block rest hmove _ ih =>
    rw [Journal.unmarked_append] at hunmarked
    rw [← List.append_assoc] at hrun
    have hlater := ih hrun hunmarked.2 (block.foldl Journal.faultStep faults)
    rw [List.any_append, List.any_append, Bool.or_eq_false_iff, Bool.or_eq_false_iff] at hrun
    rw [List.foldl_append, hlater, hmove.fault_eq hrun.1.1 hunmarked.1,
      Journal.firstTerminating_append, Option.or_assoc]

end CommandChain
