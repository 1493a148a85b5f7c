import CommandChain.Proofs.Accounts.Timeline
import CommandChain.Proofs.Conduct.Whole
/-!
# Records reach the host in the order of their numbers

Not every record that is made reaches the host: objects between two commands do not, and a preference may
keep a message from it. Those that do reach it at once, before another is made, so that on each channel
their numbers strictly increase.
-/

namespace CommandChain

variable {set : Setting} {journal block : List Event}

/-- The records that a settling hands to the host are those that it makes. -/
theorem Settlement.deliveries_eq {id : CommandId} {phase : Phase} {result : CallResult}
    {completed : Bool} (h : Settlement set id phase result completed block) :
    Journal.deliveries block = block.filterMap Event.made? := by
  cases h <;> rfl

/-- The records that a move hands to the host are among those that it makes, in their order. -/
theorem Move.deliveries_sublist (h : Move set journal block) :
    (Journal.deliveries block).Sublist (block.filterMap Event.made?) := by
  cases h with
  | silenced r hr i m hreport hsilent => exact List.nil_sublist _
  -- The object itself reaches the host where no command is left, and else only an error about it.
  | offered position v r offer handover hv hhalt hoffer hover =>
    have hmade : Journal.deliveries offer = [] ∧ offer.filterMap Event.made? = [r] := by
      cases hoffer <;> exact ⟨rfl, rfl⟩
    rw [Journal.deliveries_append, List.filterMap_append, hmade.1, hmade.2]
    cases hover with
    | host => exact List.Sublist.refl _
    | skipped => exact List.nil_sublist _
    | rejected e he hreject => exact List.sublist_cons_self r [e]
    | failed e he hreject => exact List.sublist_cons_self r [e]
    | called => exact List.nil_sublist _
  | settled i phase result completed block honce hcalled hclear hblock =>
    rw [hblock.deliveries_eq]
  | onceAborted i result block honce hcalled hblock => rw [hblock.deliveries_eq]
  | onceEnded i result completed block parameters honce hcalled hblock =>
    rw [Journal.deliveries_append, List.filterMap_append, hblock.deliveries_eq]
    exact List.Sublist.refl _
  | _ => exact List.Sublist.refl _

/-- The records that reach the host are among those that are made, in their order. -/
theorem Legal.deliveries_sublist (h : Legal set journal block) :
    (Journal.deliveries block).Sublist (block.filterMap Event.made?) := by
  induction h with
  | nil journal => exact List.Sublist.refl _
  | move hmove _ ih =>
    rw [Journal.deliveries_append, List.filterMap_append]
    exact hmove.deliveries_sublist.append ih

/-- The records that reach the host are numbered on each channel in increasing order. -/
theorem Legal.sequences_increase (h : Legal set [] journal) (hnumbered : Journal.Numbered journal)
    (kind : RecordKind) :
    ((Journal.deliveries journal).filter (·.kind == kind)).Pairwise
      fun r r' => r.sequence < r'.sequence := by
  have hsub := (h.deliveries_sublist.filter (·.kind == kind)).map Record.sequence
  rw [← List.pairwise_map]
  refine List.Pairwise.sublist hsub ?_
  change ((Journal.made kind journal).map Record.sequence).Pairwise _
  rw [hnumbered.sequences]
  exact List.pairwise_lt_range

/-- In the outcome of a run the records of each channel are numbered in increasing order. -/
theorem Pipeline.sequences_increase (settings : ChainSettings) (host : StopToken) (flags : StopFlags)
    (specs : List CommandSpec) (tokens : List StopToken) (input : Option (List Value)) {o : Outcome}
    (ho : (((build settings host flags specs).signaled tokens).invoke input).1 = .ok o)
    (kind : RecordKind) :
    (o.ofKind kind).Pairwise fun r r' => r.sequence < r'.sequence := by
  obtain ⟨final, stops, hfinal, rfl⟩ := outcome_of_invoke settings host flags specs tokens input ho
  obtain ⟨block, hgrown, hlegal, -⟩ := hfinal.grown
  have hjournal : Legal ((build settings host flags specs).setting input) [] final.journal := by
    rw [hgrown]
    exact (ran_course settings host flags specs tokens input).legal.append hlegal
  have hrecords : final.records = Journal.deliveries final.journal := hfinal.tracks.ledger.records
  show (final.records.filter _).Pairwise _
  rw [hrecords]
  exact hjournal.sequences_increase hfinal.tracks.ledger.numbered kind

end CommandChain
