import CommandChain.Proofs.Accounts.Timeline
/-!
# The accounts of a run

What reaches the host of a run that no panic unwinds is complete as far as errors go: every error
event of the run is reported, once and in its place, and nothing else is.
-/

namespace CommandChain

variable {set : Setting} {journal block : List Event}

/-! ## Commands that cannot be bound -/

/-- The error of the first command that cannot be bound before any command begins, and its source. -/
def Setting.bindingFailure (set : Setting) : Option (RecordSource × ErrorRecord) :=
  (List.range set.commands.length).findSome? fun k =>
    match set.bind k with
    | some (.error e) =>
      some (set.source ⟨k⟩, { e.toRecord with phase := some .bind, terminating := true })
    | _ => none

/-- Where every command can be bound there is no failure to bind. -/
theorem Setting.bindingFailure_eq_none
    (h : ∀ k < set.commands.length, ∃ stage, set.bind k = some (.ok stage)) :
    set.bindingFailure = none := by
  rw [bindingFailure, List.findSome?_eq_none_iff]
  intro k hk
  obtain ⟨stage, hstage⟩ := h k (List.mem_range.mp hk)
  rw [hstage]

/-- The failure to bind is the error of the first command that cannot be bound. -/
theorem Setting.Unbindable.bindingFailure_eq {k : Nat} {r : Record}
    (h : set.Unbindable journal ⟨k⟩ r) (hk : k < set.commands.length) :
    set.bindingFailure = r.error?.map (r.source, ·) := by
  obtain ⟨e, hbind, herror⟩ := h.error
  obtain ⟨later, hlater⟩ : ∃ later, List.range set.commands.length = List.range k ++ k :: later := by
    obtain ⟨m, hm⟩ := Nat.exists_eq_add_of_lt hk
    refine ⟨(List.range m).map fun i => k + (i + 1), ?_⟩
    rw [hm, Nat.add_assoc, List.range_add, List.range_succ_eq_map, List.map_cons, List.map_map]
    rfl
  rw [herror, h.source, bindingFailure, hlater, List.findSome?_append, List.findSome?_eq_none_iff.mpr,
    Option.none_or, List.findSome?_cons]
  · have hbind : set.bind k = some (.error e) := hbind
    rw [hbind]
    rfl
  · intro j hj
    obtain ⟨stage, hstage⟩ := h.earlier j (List.mem_range.mp hj)
    rw [hstage]

/-! ## The steps of a run -/

/-- Steps that yield nothing on their own yield nothing together. -/
theorem Journal.gather_eq_nil {α : Type} {f : List Event → Event → Option α}
    (h : ∀ e ∈ block, ∀ past, f past e = none) (past : List Event) : gather f past block = [] := by
  induction block generalizing past with
  | nil => rfl
  | cons e block ih =>
    rw [List.forall_mem_cons] at h
    rw [gather, h.1, ih h.2]
    rfl

/-- The steps of a run report the errors that are due. -/
theorem Setting.Course.errors_eq {input : List Value} {n : Nat} {ran : Ran n}
    (h : set.Course input journal ran) (hjournal : Journal.Untouched journal)
    (hrun : ran.chain.journal.any Event.isParting = false)
    (hlength : set.stages.length ≤ set.commands.length) :
    Journal.errors ran.chain.journal
      = set.bindingFailure.toList ++ Journal.gather set.due [] ran.chain.journal := by
  rcases h.bindings with hall | ⟨k, r, hk, hunbindable, hgrown⟩
  · rw [Setting.bindingFailure_eq_none hall]
    refine h.legal.errors_eq (.nil _) hrun fun k e hbind => ?_
    by_cases hk : k < set.commands.length
    · obtain ⟨stage, hstage⟩ := hall k hk
      rw [hstage] at hbind
      cases hbind
    · rw [Setting.bind, List.getElem?_eq_none (by omega)] at hbind
      cases hbind
  · -- Nothing else has happened by then.
    have hnone : Journal.deliveries journal = [] := List.filterMap_eq_nil_iff.mpr fun e he => by
      obtain ⟨token, rfl⟩ := hjournal e he
      rfl
    have hquiet : Journal.errors journal = [] := by rw [Journal.errors, hnone, List.filterMap_nil]
    obtain ⟨e, -, herror⟩ := hunbindable.error
    have hobject : r.object? = none := by
      cases hp : r.payload <;> simp [Record.error?, Record.object?, hp] at herror ⊢
    rw [hunbindable.bindingFailure_eq hk, hgrown, Journal.errors_append, hquiet,
      Journal.gather_eq_nil fun e he past => ?_]
    · simp [Event.error?, Event.delivered?]
    · rcases List.mem_append.mp he with he | he
      · obtain ⟨token, rfl⟩ := hjournal e he
        rfl
      · simp only [List.mem_cons, List.not_mem_nil, or_false] at he
        rcases he with rfl | rfl | rfl | rfl <;> simp [Setting.due, hobject]

/-- Nothing is due while commands are told to stop and disposed of. -/
theorem Legal.gather_due_of_parting (h : Legal set journal block)
    (hall : ∀ e ∈ block, e.Parting) : Journal.gather set.due journal block = [] := by
  induction h with
  | nil journal => rfl
  | move hmove _ ih =>
    rw [List.forall_mem_append] at hall
    rw [Journal.gather_append, ih hall.2, List.append_nil]
    have hall := hall.1
    cases hmove with
    | message r hr => simp [Journal.gather, Setting.due, hr]
    | offered position v r offer handover hv hhalt hoffer =>
      cases hoffer <;> exact absurd (hall _ (.head _)) not_false
    | settled i phase result completed block honce hcalled hclear hblock =>
      exact absurd (hall _ hblock.returned_mem) not_false
    | onceAborted i result block honce hcalled hblock =>
      exact absurd (hall _ hblock.returned_mem) not_false
    | onceEnded i result completed block parameters honce hcalled hblock =>
      exact absurd (hall _ (List.mem_append_left _ hblock.returned_mem)) not_false
    | signaled => rfl
    | stopping => rfl
    | disposing => rfl
    | failed i r hr => exact absurd (hall (.failed i) (by simp)) not_false
    | _ => exact absurd (hall _ (.head _)) not_false

/-! ## The whole timeline -/

/-- The errors on the timeline of a run are those of its error events, in order: that of a command
which cannot be bound, those that are due during its calls, and those of its dispose hooks. They are
numbered without a gap, and where no command marks an error as terminating by itself, the first that
terminates is the one with which the chain failed. -/
structure Setting.Accounts (set : Setting) (journal : List Event) (cleanup : List Disposal)
    (o : Outcome) : Prop where
  disposed : cleanup.map (·.source.id) = Journal.disposals journal
  errors : o.records.filterMap (fun r => r.error?.map (r.source, ·))
    = set.bindingFailure.toList ++ Journal.gather set.due [] journal
      ++ cleanup.filterMap fun d => d.error?.map (d.source, ·)
  numbers : (o.ofKind .error).map Record.sequence = List.range (o.ofKind .error).length
  fault : Journal.Unmarked journal → o.terminalFault = o.errors.find? ErrorRecord.terminating
  status : Journal.Unmarked journal → (o.status = .failed ↔ ∃ e ∈ o.errors, e.terminating = true)

/-- The error that a payload carries. -/
def Payload.error? : Payload → Option ErrorRecord
  | .message (.error e) => some e
  | _ => none

/-- The entries of dispose hooks on the timeline carry their errors. -/
theorem Disposal.errors_of_entries {disposals : List Disposal} {cleanup : List Record}
    (h : cleanup.map (fun r => (r.source, r.payload)) = disposals.filterMap entry?) :
    cleanup.filterMap (fun r => r.error?.map (r.source, ·))
      = disposals.filterMap fun d => d.error?.map (d.source, ·) := by
  let error? : RecordSource × Payload → Option (RecordSource × ErrorRecord) := fun entry =>
    entry.2.error?.map (entry.1, ·)
  have hrecord (r : Record) : r.error?.map (r.source, ·) = error? (r.source, r.payload) := by
    unfold Record.error?
    cases r.payload with
    | object v => rfl
    | message m => cases m <;> rfl
  have hdisposal (d : Disposal) : (d.entry?.bind error?) = d.error?.map (d.source, ·) := by
    unfold entry?
    cases d.error? <;> rfl
  calc cleanup.filterMap (fun r => r.error?.map (r.source, ·))
      = (cleanup.map fun r => (r.source, r.payload)).filterMap error? := by
        rw [List.filterMap_map]
        exact List.filterMap_congr fun r _ => hrecord r
    _ = disposals.filterMap fun d => d.error?.map (d.source, ·) := by
        rw [h, List.filterMap_filterMap]
        exact List.filterMap_congr fun d _ => hdisposal d

/-- A chain has failed exactly if it has a fault. -/
theorem Chain.status_eq_failed_iff (chain : Chain) :
    chain.status = .failed ↔ chain.fault.isSome = true := by
  unfold status
  split
  · next h => simp [h]
  · next h => split <;> simp [h]

/-- The errors that reach the host, without their sources. -/
theorem Journal.errors_snd (journal : List Event) :
    (errors journal).map Prod.snd = (deliveries journal).filterMap Record.error? := by
  rw [errors, List.map_filterMap]
  refine List.filterMap_congr fun r _ => ?_
  cases r.error? <;> rfl

section

variable (settings : ChainSettings) (host : StopToken) (flags : StopFlags)
  (specs : List CommandSpec) (tokens : List StopToken) (input : Option (List Value)) {o : Outcome}

namespace Pipeline

/-- When a run has wound down, the records that reached the host and the error with which it failed
are those of its steps. -/
theorem wind_accounts
    (ho : (((build settings host flags specs).signaled tokens).run input).1 = .ok o) :
    (((build settings host flags specs).signaled tokens).wind input).2.chain.records
        = Journal.deliveries (ran settings host flags specs tokens input).chain.journal
      ∧ (((build settings host flags specs).signaled tokens).wind input).2.chain.fault
        = Journal.fault? (ran settings host flags specs tokens input).chain.journal := by
  obtain ⟨htracks, block, hgrown, hhalting, -⟩ :=
    wind_grown settings host flags specs tokens input ho
  have hquiet : Journal.deliveries block = [] := List.filterMap_eq_nil_iff.mpr fun e he => by
    have := hhalting e he
    cases e <;> first | rfl | exact this.elim
  have hstill (faults : Option ErrorRecord × Option ErrorRecord) :
      block.foldl Journal.faultStep faults = faults := by
    clear hgrown hquiet
    induction block generalizing faults with
    | nil => rfl
    | cons e block ih =>
      rw [List.forall_mem_cons] at hhalting
      have := hhalting.1
      cases e <;> first | exact ih hhalting.2 _ | exact this.elim
  rw [htracks.ledger.records, htracks.ledger.fault, hgrown, Journal.deliveries_append, hquiet,
    List.append_nil, Journal.fault?, List.foldl_append, hstill]
  exact ⟨rfl, rfl⟩

/-- The steps of a run tell no command to stop and dispose of none. -/
theorem ran_not_parting :
    (ran settings host flags specs tokens input).chain.journal.any Event.isParting = false := by
  obtain ⟨-, -, block, hgrown, hrun, -⟩ := (ran_course settings host flags specs tokens input).grown
  rw [hgrown, List.any_append, Bool.or_eq_false_iff, List.any_eq_false, List.any_eq_false]
  refine ⟨fun e he => ?_, fun e he => by rw [hrun e he]; exact Bool.false_ne_true⟩
  obtain ⟨token, rfl⟩ := untouched_signaled settings host flags specs tokens e he
  exact Bool.false_ne_true

/-- The commands that a run disposes of are those whose dispose hooks are accounted for. -/
theorem invoke_disposals
    (ho : (((build settings host flags specs).signaled tokens).run input).1 = .ok o) :
    Journal.disposals
        (((build settings host flags specs).signaled tokens).invoke input).2.chain.journal
      = (disposals (((build settings host flags specs).signaled tokens).wind input).2.chain.flags
        (((build settings host flags specs).signaled tokens).wind input).2.stages).1.map
          (·.source.id) := by
  have hreleases := releases_of_run settings host flags specs tokens input ho
  obtain ⟨block, hgrown, hcalls, -⟩ := hreleases.calls
  have hjournal : (((build settings host flags specs).signaled tokens).invoke input).2.chain.journal
      = (((build settings host flags specs).signaled tokens).run input).2.chain.journal :=
    congrArg (fun p : Pipeline => p.chain.journal) hreleases.dropped
  have hsources := congrArg (List.map RecordSource.id) (disposals_sources
    (((build settings host flags specs).signaled tokens).wind input).2.chain.flags
    (((build settings host flags specs).signaled tokens).wind input).2.stages)
  rw [List.map_reverse, List.map_map, List.map_map] at hsources
  rw [hjournal, hgrown, Journal.disposals_append,
    (wound_of_run settings host flags specs tokens input ho).undisposed, List.nil_append, hcalls]
  exact hsources.symm

/-- The errors on the timeline of a run are those of its error events, in order. -/
theorem errors_of_invoke
    (ho : (((build settings host flags specs).signaled tokens).invoke input).1 = .ok o) :
    o.records.filterMap (fun r => r.error?.map (r.source, ·))
      = ((build settings host flags specs).setting input).bindingFailure.toList
        ++ Journal.gather ((build settings host flags specs).setting input).due []
          (((build settings host flags specs).signaled tokens).invoke input).2.chain.journal
        ++ (disposals (((build settings host flags specs).signaled tokens).wind input).2.chain.flags
          (((build settings host flags specs).signaled tokens).wind input).2.stages).1.filterMap
            fun d => d.error?.map (d.source, ·) := by
  have hreported := (ran_course settings host flags specs tokens input).errors_eq
    (untouched_signaled settings host flags specs tokens)
    (ran_not_parting settings host flags specs tokens input) (by simp [setting])
  have hrecords := (wind_accounts settings host flags specs tokens input ho).1
  obtain ⟨cleanup, hcleanup, hentries⟩ :=
    (releases_of_run settings host flags specs tokens input ho).errors
  obtain ⟨stops, hparts⟩ := (invoke_concluded settings host flags specs tokens input).parts
  obtain ⟨after, hafter, hlegal, hparting, -⟩ := hparts.grown
  rw [hcleanup, List.filterMap_append, Disposal.errors_of_entries hentries, hrecords, hafter,
    Journal.gather_append, List.nil_append, hlegal.gather_due_of_parting hparting, List.append_nil]
  exact congrArg (· ++ _) hreported

/-- **The errors of a run are accounted for.** In every run that no panic unwinds, the errors on the
timeline are one for one the error events of the run, in their order: the failure to bind a command,
every error that a command writes, every call that faults or has to end with an error, every object
that cannot be bound, and every dispose hook that fails. -/
theorem errors_accounted
    (ho : (((build settings host flags specs).signaled tokens).invoke input).1 = .ok o) :
    ((build settings host flags specs).setting input).Accounts
      (((build settings host flags specs).signaled tokens).invoke input).2.chain.journal
      (disposals (((build settings host flags specs).signaled tokens).wind input).2.chain.flags
        (((build settings host flags specs).signaled tokens).wind input).2.stages).1 o := by
  have hcourse := ran_course settings host flags specs tokens input
  have hrun := ran_not_parting settings host flags specs tokens input
  obtain ⟨hrecords, hfault⟩ := wind_accounts settings host flags specs tokens input ho
  have hwound := wound_of_run settings host flags specs tokens input ho
  have hreleases := releases_of_run settings host flags specs tokens input ho
  obtain ⟨cleanup, hcleanup, hentries⟩ := hreleases.errors
  obtain ⟨stops, hparts⟩ := (invoke_concluded settings host flags specs tokens input).parts
  obtain ⟨after, hafter, -⟩ := hparts.grown
  have herrors : o.errors = (Journal.errors
      (ran settings host flags specs tokens input).chain.journal).map Prod.snd
        ++ cleanup.filterMap Record.error? := by
    rw [Outcome.errors, hcleanup, hrecords, List.filterMap_append, Journal.errors_snd]
  have hfirst : Journal.Unmarked
      (((build settings host flags specs).signaled tokens).invoke input).2.chain.journal →
        o.terminalFault = o.errors.find? ErrorRecord.terminating := fun hunmarked => by
    rw [hafter, Journal.unmarked_append] at hunmarked
    have hnone : (cleanup.filterMap Record.error?).find? ErrorRecord.terminating = none := by
      rw [List.find?_eq_none]
      intro e he
      obtain ⟨r, hr, he⟩ := List.mem_filterMap.mp he
      obtain ⟨e', he', -, -, -, hterminating⟩ := Disposal.cleanup_of_entries hentries r hr
      obtain rfl := Option.some.inj (he.symm.trans he')
      rw [hterminating]
      exact Bool.false_ne_true
    rw [hreleases.fault, hfault, herrors, List.find?_append, hnone, Option.or_none]
    exact (hcourse.legal.fault_eq (by simpa using hrun) hunmarked.1 (none, none)).trans
      Option.none_or
  obtain ⟨final, stops, hfinal, ho'⟩ := outcome_of_invoke settings host flags specs tokens input ho
  refine ⟨?_, ?_, ?_, hfirst, fun hunmarked => ?_⟩
  · exact (invoke_disposals settings host flags specs tokens input ho).symm
  · exact errors_of_invoke settings host flags specs tokens input ho
  · obtain ⟨block, hgrown, hlegal, -⟩ := hfinal.grown
    have hmade := (hcourse.legal.append hlegal).made_error
    have hnumbers := hfinal.tracks.ledger.numbered.sequences .error
    rw [hgrown, hmade, ← hgrown, ← hfinal.tracks.ledger.records] at hnumbers
    have hlength := congrArg List.length hnumbers
    rw [List.length_map, List.length_range] at hlength
    rw [ho', Outcome.ofKind, hnumbers, hlength]
  · have hsome : o.status = .failed ↔ o.terminalFault.isSome = true := by
      rw [ho']
      exact final.status_eq_failed_iff
    rw [hsome, hfirst hunmarked, List.find?_isSome]

end Pipeline

end

/-- A command without parameters that writes an error and faults when it processes, and faults again
when it is disposed of. -/
def Command.faulting : Command where
  name := "faulting"
  parameters := []
  Memory := Unit
  fresh := ()
  process _ _ :=
    .report (.error { message := "first" }) fun _ => .done (.nonTerminating { message := "second" })
  finish _ _ := .done (.terminating { message := "third" })
  dispose _ memory := { memory := memory, result := .ok (some ⟨true, { message := "fourth" }⟩) }

/-- The errors of a command come in the order in which it causes them, and the chain fails with the
one that terminates. -/
theorem Pipeline.errors_accounted_faulting :
    ∃ o, (((build {} ⟨0, []⟩ ⟨1, []⟩ [{ command := .faulting }]).signaled []).invoke none).1 = .ok o
      ∧ o.errors.map ErrorRecord.message = ["first", "second", "third", "fourth"]
      ∧ o.terminalFault.map ErrorRecord.message = some "third"
      ∧ Journal.Unmarked (((build {} ⟨0, []⟩ ⟨1, []⟩ [{ command := .faulting }]).signaled []).invoke
        none).2.chain.journal
      ∧ ((build {} ⟨0, []⟩ ⟨1, []⟩ [{ command := .faulting }]).setting none).Accounts
        (((build {} ⟨0, []⟩ ⟨1, []⟩ [{ command := .faulting }]).signaled []).invoke
          none).2.chain.journal
        (disposals (((build {} ⟨0, []⟩ ⟨1, []⟩ [{ command := .faulting }]).signaled []).wind
            none).2.chain.flags
          (((build {} ⟨0, []⟩ ⟨1, []⟩ [{ command := .faulting }]).signaled []).wind
            none).2.stages).1 o :=
  ⟨_, rfl, rfl, rfl, by
      intro e he
      have hall : ((((build {} ⟨0, []⟩ ⟨1, []⟩ [{ command := .faulting }]).signaled []).invoke
        none).2.chain.journal.filterMap Event.described?).all (!·.terminating) = true := rfl
      simpa using List.all_eq_true.mp hall e he,
    errors_accounted {} ⟨0, []⟩ ⟨1, []⟩ [{ command := .faulting }] [] none rfl⟩

end CommandChain
