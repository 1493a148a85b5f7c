import CommandChain.Proofs.Lifecycle.Refusal
/-!
# Preferences to stop

A message on a channel whose preference is to stop reaches the host, and the call in which it is written
has to end with an error. Until that call returns its command can do no more than write messages: what
it asks to write on is refused, so no other command is called. Then the call is settled with that error,
whatever it returned, and the chain has failed. The error with which a call has to end is kept in one
place for the whole chain, and since no call begins while one is kept there, it is never taken for that
of another call.
-/

namespace CommandChain

/-- What a command does in the rest of a call that has to end with an error: it writes messages, and
objects in vain. Up to signals, nothing else happens. -/
inductive Journal.Fruitless (id : CommandId) : List Event → Prop
  | nil : Fruitless id []
  | signaled (token : StopToken) {rest : List Event} (h : Fruitless id rest) :
    Fruitless id (.signaled token :: rest)
  | cut {rest : List Event} (h : Fruitless id rest) : Fruitless id (.cut id :: rest)
  | silenced (m : Message) (r : Record) {rest : List Event} (hr : r.object? = none)
    (h : Fruitless id rest) : Fruitless id (.reporting id m :: .emitted r :: rest)
  | reported (m : Message) (r : Record) {rest : List Event} (hr : r.object? = none)
    (h : Fruitless id rest) : Fruitless id (.reporting id m :: .emitted r :: .delivered r :: rest)
  | refused (v : Value) (result : CallResult) {rest : List Event} (hresult : result ≠ .ok)
    (h : Fruitless id rest) : Fruitless id (.writing id v :: .wrote id result :: rest)

/-- A call returns, and whatever it returned it is settled as a terminating fault of its command with
the error with which it had to end. -/
inductive Setting.Overruled (set : Setting) (id : CommandId) (phase : Phase) (e : ErrorRecord) :
    List Event → Prop
  | settled (result : CallResult) (f : Record) (rest : List Event)
    (hsource : f.source = set.source id)
    (herror : f.error? = some { e with phase := some phase, terminating := true }) :
    Overruled set id phase e (.returned id phase result :: .emitted f :: .delivered f :: .failed id
      :: .signaled set.stop :: .settled id phase false :: rest)

/-- What comes of a message that a command writes under a preference to stop: it reaches the host, the
rest of the call is fruitless, and the call ends with the error of the first such message that was
written in it, by which the chain has failed. Only a panic keeps the call from its end. -/
def Setting.EndsCall (set : Setting) (outcome : Except Panic Outcome) (past : List Event)
    (id : CommandId) (m : Message) (rest : List Event) : Prop :=
  ∃ phase input r during tail kind, Journal.call? past id = some (phase, input)
    ∧ rest = .emitted r :: .delivered r :: (during ++ tail)
    ∧ r.source = set.source id ∧ r.payload = .message (m.completed phase input)
    ∧ Journal.Fruitless id during
    ∧ set.overstep (past ++ [.reporting id m]) id = some (preferenceStop kind)
    ∧ (set.Overruled id phase (preferenceStop kind) tail
        ∧ (∀ o, outcome = .ok o → r ∈ o.records ∧ o.status = .failed)
      ∨ (∃ p, outcome = .error p) ∧ ∀ e ∈ tail, e.Parting)

/-- A call is settled by what it returned: the error that is reported is that of its own fault. -/
def Setting.SettlesOwn (set : Setting) (past : List Event) (id : CommandId) (phase : Phase)
    (result : CallResult) (rest : List Event) : Prop :=
  ∃ completed steps more input, rest = steps ++ .settled id phase completed :: more
    ∧ Journal.call? past id = some (phase, input)
    ∧ Journal.errors steps = (result.error? none (set.preferences id) phase input).toList.map
      fun e => (set.source id, e)

/-- Messages under a preference to stop end the calls in which they are written, and no others. -/
structure Setting.Escalates (set : Setting) (outcome : Except Panic Outcome) (journal : List Event) :
    Prop where
  ends : ∀ past id m rest, journal = past ++ .reporting id m :: rest →
    (set.preferences id).forKind m.kind = .stop → set.EndsCall outcome past id m rest
  /-- A call in which no such message was written is settled by what it returned. -/
  others : ∀ past id phase result rest, journal = past ++ .returned id phase result :: rest →
    set.overstep past id = none → set.SettlesOwn past id phase result rest
  /-- There is at most one call at a time that has to end with an error. -/
  single : ∀ past rest i j, journal = past ++ rest → (set.overstep past i).isSome = true →
    (set.overstep past j).isSome = true → i = j
  /-- There is none when a call begins. -/
  starts : ∀ past id phase parameters input rest,
    journal = past ++ .called id phase parameters input :: rest → ∀ j, set.overstep past j = none

variable {set : Setting} {journal block past rest : List Event} {id : CommandId} {m : Message}
  {phase : Phase} {e : ErrorRecord}

/-! ## The rest of a call -/

namespace Journal.Fruitless

theorem append (h : Fruitless id block) (hrest : Fruitless id rest) :
    Fruitless id (block ++ rest) := by
  induction h with
  | nil => exact hrest
  | signaled token _ ih => exact .signaled token ih
  | cut _ ih => exact .cut ih
  | silenced m r hr _ ih => exact .silenced m r hr ih
  | reported m r hr _ ih => exact .reported m r hr ih
  | refused v result hresult _ ih => exact .refused v result hresult ih

/-- The error that is pending stays. -/
theorem pending_append (h : Fruitless id block) (hpending : set.pending journal = some (id, e)) :
    set.pending (journal ++ block) = some (id, e) := by
  have hkept (m : Message) : set.pendingStep (some (id, e)) (.reporting id m) = some (id, e) := by
    show (if _ then some (id, e) else some (id, e)) = _
    split <;> rfl
  rw [set.pending_append, hpending]
  induction h with
  | nil => rfl
  | signaled token _ ih => exact ih
  | cut _ ih => exact ih
  | silenced m r hr _ ih =>
    rw [List.foldl_cons, hkept]
    exact ih
  | reported m r hr _ ih =>
    rw [List.foldl_cons, hkept]
    exact ih
  | refused v result hresult _ ih => exact ih

/-- No call begins. -/
theorem call?_append (h : Fruitless id block) (other : CommandId) :
    call? (journal ++ block) other = call? journal other := by
  rw [Journal.call?_append]
  induction h with
  | nil => rfl
  | signaled token _ ih => exact ih
  | cut _ ih => exact ih
  | silenced m r hr _ ih => exact ih
  | reported m r hr _ ih => exact ih
  | refused v result hresult _ ih => exact ih

end Journal.Fruitless

theorem Setting.Overruled.append (h : set.Overruled id phase e block) (more : List Event) :
    set.Overruled id phase e (block ++ more) := by
  obtain ⟨result, f, rest, hsource, herror⟩ := h
  exact .settled result f (rest ++ more) hsource herror

/-- A call that was overruled made its command fail. -/
theorem Setting.Overruled.failed_mem (h : set.Overruled id phase e block) :
    .failed id ∈ block := by
  obtain ⟨result, f, rest, hsource, herror⟩ := h
  simp

/-- A call that has to end with an error is settled with that error. -/
theorem Settlement.overruled {result : CallResult} {completed : Bool}
    (h : Settlement set id phase result completed block)
    (hverdict : set.Verdict journal id phase result block)
    (hpending : set.pending journal = some (id, e)) :
    (∃ input, Journal.call? journal id = some (phase, input)) ∧ set.Overruled id phase e block := by
  have hescalation : set.escalation journal id = some e := by
    rw [Setting.escalation, hpending]
    simp
  obtain ⟨input, hcall, herrors⟩ := hverdict.errors
  have hfailed : .failed id ∈ block := by
    rw [hverdict.failed, hescalation]
    rfl
  rw [hescalation] at herrors
  refine ⟨⟨input, hcall⟩, ?_⟩
  cases h with
  -- The error is the one that is pending, so the call cannot be settled in any other way.
  | failed result r hr =>
    have hone : (r.error?.map (r.source, ·)).toList
        = [(set.source id, { e with phase := some phase, terminating := true })] := by
      simpa [Event.error?, Event.delivered?, CallResult.error?] using herrors
    cases hr' : r.error? with
    | none => simp [hr'] at hone
    | some err =>
      simp only [hr', Option.map_some, Option.toList_some, List.cons.injEq, Prod.mk.injEq,
        and_true] at hone
      exact .settled result r [] hone.1 (hr'.trans (congrArg some hone.2))
  | _ => simp at hfailed

/-- While a call has to end with an error, every move is part of the rest of the call or settles it. -/
theorem Move.fruitless_or_overruled (h : Move set journal block)
    (hpending : set.pending journal = some (id, e))
    (hrun : (journal ++ block).any Event.isParting = false) :
    Journal.Fruitless id block ∨ (∃ phase input, Journal.call? journal id = some (phase, input)
      ∧ set.Overruled id phase e block) := by
  -- Other moves come only where no error is pending.
  have absent {p : Prop} (hnone : set.pending journal = none) : p := by
    rw [hnone] at hpending
    cases hpending
  have settles {i : CommandId} {phase : Phase} {result : CallResult} {completed : Bool}
      {steps : List Event} (hblock : Settlement set i phase result completed steps)
      (hverdict : set.Verdict journal i phase result steps) :
      ∃ phase input, Journal.call? journal id = some (phase, input)
        ∧ set.Overruled id phase e steps := by
    obtain rfl : id = i := hverdict.calm _ hpending
    obtain ⟨⟨input, hcall⟩, hover⟩ := hblock.overruled hverdict hpending
    exact ⟨phase, input, hcall, hover⟩
  rw [List.any_append, Bool.or_eq_false_iff] at hrun
  cases h with
  | signaled token => exact .inl (.signaled token .nil)
  | silenced r hr i m hreport hsilent =>
    obtain rfl : id = i := hreport.calm _ hpending
    exact .inl (.silenced m r hr .nil)
  | reported r hr i m hreport hdelivers =>
    obtain rfl : id = i := hreport.calm _ hpending
    exact .inl (.reported m r hr .nil)
  | message r hr hparting =>
    rw [hrun.1] at hparting
    cases hparting
  | cut i hcalm =>
    obtain rfl : id = i := hcalm _ hpending
    exact .inl (.cut .nil)
  | refused i v hcalm =>
    obtain rfl : id = i := hcalm _ hpending
    exact .inl (.refused v .stopped (by simp) .nil)
  | tooEarly i v hcut hcalm => exact absent hcalm
  | offered position v r offer handover hv hhalt hoffer hover hflowing hcalm hsource =>
    exact absent hcalm
  | wrote i result hresult hcalm => exact absent hcalm
  | failed i r hr hbind =>
    -- Commands are bound before any of them is called.
    refine absent ?_
    have hquiet (past : List Event) (hpast : ∀ e ∈ past, ∃ token, e = .signaled token) :
        set.pending past = none := by
      unfold Setting.pending
      induction past with
      | nil => rfl
      | cons e past ih =>
        obtain ⟨token, rfl⟩ := hpast e (.head _)
        exact ih fun e he => hpast e (.tail _ he)
    exact hquiet journal hbind.first
  | begun i parameters hlt hhalt hbefore hclear hcalm => exact absent hcalm
  | head parameters hhalt hinput hcalling => exact absent hcalling.calm
  | once i parameters hhalt honce hcalling => exact absent hcalling.calm
  | finish i parameters hhalt hcut hclear hcalling => exact absent hcalling.calm
  | settled i phase result completed block honce hcalled hclear hblock hverdict =>
    exact .inr (settles hblock hverdict)
  | onceAborted i result block honce hcalled hblock hhalt hverdict =>
    exact .inr (settles hblock hverdict)
  | onceEnded i result completed block parameters honce hcalled hblock hgo hclear hverdict =>
    obtain ⟨phase, input, hcall, hover⟩ := settles hblock hverdict
    exact .inr ⟨phase, input, hcall, hover.append _⟩
  | stopping i => simp [Event.isParting] at hrun
  | disposing i => simp [Event.isParting] at hrun

/-- While a call has to end with an error, the rest of the call is fruitless up to its settling. Where
it is never settled, the error is pending to the end. -/
theorem Legal.fruitless (h : Legal set journal block) (hpending : set.pending journal = some (id, e))
    (hrun : (journal ++ block).any Event.isParting = false) :
    ∃ during tail, block = during ++ tail ∧ Journal.Fruitless id during
      ∧ ((∃ phase input, Journal.call? journal id = some (phase, input)
          ∧ set.Overruled id phase e tail)
        ∨ tail = [] ∧ set.pending (journal ++ block) = some (id, e)) := by
  induction h with
  | nil journal => exact ⟨[], [], rfl, .nil, .inr ⟨rfl, by rwa [List.append_nil]⟩⟩
  | @move journal steps block hmove _ ih =>
    rw [← List.append_assoc] at hrun
    have hsteps := hrun
    rw [List.any_append, Bool.or_eq_false_iff] at hsteps
    -- Moves are fruitless up to the one that settles the call, after which anything may follow.
    rcases hmove.fruitless_or_overruled hpending hsteps.1 with
      hfruitless | ⟨phase, input, hcall, hover⟩
    · obtain ⟨during, tail, rfl, hduring, hend⟩ := ih (hfruitless.pending_append hpending) hrun
      refine ⟨steps ++ during, tail, (List.append_assoc ..).symm, hfruitless.append hduring, ?_⟩
      rwa [hfruitless.call?_append, List.append_assoc] at hend
    · exact ⟨[], steps ++ block, rfl, .nil, .inl ⟨phase, input, hcall, hover.append block⟩⟩

/-! ## A message under a preference to stop -/

/-- A message is written in a move of its own. -/
theorem Move.reporting_eq {first second : List Event} (h : Move set journal block)
    (hblock : block = first ++ .reporting id m :: second) :
    first = [] ∧ ∃ r, r.object? = none ∧ set.Reports journal id m r
      ∧ ((set.preferences id).delivers m.kind = true → second = [.emitted r, .delivered r]) := by
  have hmem : .reporting id m ∈ block := by
    rw [hblock]
    exact List.mem_append_right _ (.head _)
  have alone {i : CommandId} {m' : Message} {r : Record} {more : List Event} (hr : r.object? = none)
      (hreport : set.Reports journal i m' r)
      (hquiet : ∀ e ∈ more, e = .emitted r ∨ e = .delivered r)
      (heq : .reporting i m' :: more = first ++ .reporting id m :: second) :
      first = [] ∧ i = id ∧ m' = m ∧ more = second := by
    cases first with
    | nil =>
      obtain ⟨hhead, hmore⟩ := List.cons.inj heq
      obtain ⟨hid, hm⟩ := Event.reporting.inj hhead
      exact ⟨rfl, hid, hm, hmore⟩
    | cons e first =>
      obtain ⟨-, hmore⟩ := List.cons.inj heq
      rcases hquiet (.reporting id m) (by rw [hmore]; simp) with h | h <;> cases h
  cases h with
  | silenced r hr i m' hreport hsilent =>
    obtain ⟨rfl, rfl, rfl, rfl⟩ := alone hr hreport (by simp) hblock
    refine ⟨rfl, r, hr, hreport, fun hdelivers => ?_⟩
    rw [hsilent] at hdelivers
    cases hdelivers
  | reported r hr i m' hreport hdelivers =>
    obtain ⟨rfl, rfl, rfl, rfl⟩ := alone hr hreport (by simp) hblock
    exact ⟨rfl, r, hr, hreport, fun _ => rfl⟩
  | offered position v r offer handover hv hhalt hoffer hover =>
    cases hoffer <;> cases hover <;> simp at hmem
  | settled i phase result completed steps honce hcalled hclear hsteps =>
    cases hsteps <;> simp at hmem
  | onceAborted i result steps honce hcalled hsteps => cases hsteps <;> simp at hmem
  | onceEnded i result completed steps parameters honce hcalled hsteps =>
    cases hsteps <;> simp at hmem
  | _ => simp at hmem

/-- A record on a channel whose preference is to stop reaches the host. -/
theorem Preferences.delivers_of_stop {preferences : Preferences} {kind : RecordKind}
    (h : preferences.forKind kind = .stop) : preferences.delivers kind = true := by
  rw [delivers, h]
  cases kind <;> rfl

/-- A message that is written under a preference to stop leaves an error pending, that of the first such
message of its call. -/
theorem Setting.Reports.pending_append {r : Record} {after : List Event}
    (h : set.Reports journal id m r) (hlegal : Legal set [] (journal ++ after))
    (hstop : (set.preferences id).forKind m.kind = .stop) :
    ∃ kind, set.overstep (journal ++ [.reporting id m]) id = some (preferenceStop kind)
      ∧ set.pending (journal ++ [.reporting id m]) = some (id, preferenceStop kind) := by
  have hstep : set.overstep (journal ++ [.reporting id m]) id
      = some ((set.overstep journal id).getD (preferenceStop m.kind)) := by
    rw [overstep, List.foldl_append]
    exact if_pos ⟨rfl, hstop⟩
  obtain ⟨kind, hkind, -⟩ := overstep_eq hstep
  refine ⟨kind, hstep.trans (congrArg some hkind), ?_⟩
  rw [set.pending_append]
  show (if _ then some ((set.pending journal).getD (id, preferenceStop m.kind)) else _) = _
  rw [if_pos hstop, ← hkind, ← hlegal.escalation_eq, escalation]
  cases hpending : set.pending journal with
  | none => rfl
  | some p =>
    obtain ⟨owner, err⟩ := p
    -- Where an error is pending already, it is that of this call.
    obtain rfl : owner = id := h.calm _ hpending
    simp [Option.filter]

/-- What comes of a message under a preference to stop, in the steps of a run. -/
theorem Legal.endsCall (h : Legal set [] journal) (hsplit : journal = past ++ .reporting id m :: rest)
    (hrun : journal.any Event.isParting = false)
    (hstop : (set.preferences id).forKind m.kind = .stop) :
    ∃ phase input r during tail kind, Journal.call? past id = some (phase, input)
      ∧ rest = .emitted r :: .delivered r :: (during ++ tail)
      ∧ r.source = set.source id ∧ r.payload = .message (m.completed phase input)
      ∧ Journal.Fruitless id during
      ∧ set.overstep (past ++ [.reporting id m]) id = some (preferenceStop kind)
      ∧ (set.Overruled id phase (preferenceStop kind) tail
        ∨ tail = [] ∧ (set.pending journal).isSome = true) := by
  obtain ⟨before, first, second, later, rfl, rfl, hmove, hlater⟩ := h.exists_move_at hsplit
  obtain ⟨rfl, r, hr, hreport, hsecond⟩ := hmove.reporting_eq rfl
  obtain rfl := hsecond (Preferences.delivers_of_stop hstop)
  obtain ⟨phase, input, hcall, hpayload⟩ := hreport.payload
  simp only [List.nil_append, List.append_nil] at hsplit hlater hreport hcall ⊢
  have hwhole : Legal set [] (before ++ .reporting id m :: ([.emitted r, .delivered r] ++ later)) :=
    hsplit ▸ h
  obtain ⟨kind, hoverstep, hpending⟩ := hreport.pending_append hwhole hstop
  have hmade : set.pending (before ++ [.reporting id m, .emitted r, .delivered r])
      = some (id, preferenceStop kind) := by
    rw [← hpending, set.pending_append, set.pending_append]
    rfl
  have hcalled : Journal.call? (before ++ [.reporting id m, .emitted r, .delivered r]) id
      = some (phase, input) := by
    rw [Journal.call?_append]
    exact hcall
  have hgrown : journal = before ++ [.reporting id m, .emitted r, .delivered r] ++ later := by
    rw [hsplit, List.append_assoc]
    rfl
  -- From here on the error is pending, until the call that has to end with it is settled.
  obtain ⟨during, tail, rfl, hduring, hend⟩ := hlater.fruitless hmade (hgrown ▸ hrun)
  refine ⟨phase, input, r, during, tail, kind, hcall, rfl, hreport.source, hpayload, hduring,
    hoverstep, ?_⟩
  rcases hend with ⟨phase', input', hcall', hover⟩ | ⟨htail, hleft⟩
  · rw [hcalled] at hcall'
    obtain ⟨rfl, -⟩ := Prod.mk.inj (Option.some.inj hcall')
    exact .inl hover
  · refine .inr ⟨htail, ?_⟩
    rw [hgrown, hleft]
    rfl

/-! ## Other calls -/

/-- A call that does not have to end with an error is settled by what it returned. -/
theorem Settlement.settlesOwn {result : CallResult} {completed : Bool} {more : List Event}
    (h : Settlement set id phase result completed (.returned id phase result :: block))
    (hverdict : set.Verdict journal id phase result (.returned id phase result :: block))
    (hescalation : set.escalation journal id = none) :
    set.SettlesOwn journal id phase result (block ++ more) := by
  obtain ⟨input, hcall, herrors⟩ := hverdict.errors
  rw [hescalation] at herrors
  have hlast : block = block.dropLast ++ [.settled id phase completed] := by
    have hdrop := h.dropLast_append
    cases block with
    | nil => cases h
    | cons e block =>
      rw [List.dropLast_cons_of_ne_nil (List.cons_ne_nil _ _), List.cons_append] at hdrop
      exact (List.cons.inj hdrop).2
  refine ⟨completed, block.dropLast, more, input, ?_, hcall, ?_⟩
  · conv_lhs => rw [hlast]
    simp
  · rw [← herrors, Journal.errors_cons, hlast, Journal.errors_append, List.dropLast_concat]
    simp [Event.error?, Event.delivered?]

/-- A settlement starts with the return of its call. -/
theorem Settlement.head_returned {i : CommandId} {p : Phase} {result r : CallResult}
    {completed : Bool} {first second more : List Event}
    (h : Settlement set id phase result completed block)
    (hblock : block ++ more = first ++ .returned i p r :: second)
    (hmore : .returned i p r ∉ more) :
    first = [] ∧ i = id ∧ p = phase ∧ r = result
      ∧ ∃ middle, block = .returned id phase result :: middle ∧ second = middle ++ more := by
  obtain ⟨middle, hsplit, hsecond⟩ := Journal.split_of_not_mem hblock hmore
  have hsame := h.eq_of_returned_mem (hsplit ▸ List.mem_append_right _ (.head _))
  have hhead : ∃ tail, block = .returned id phase result :: tail
      ∧ ∀ i p r, Event.returned i p r ∉ tail := by
    cases h <;> refine ⟨_, rfl, ?_⟩ <;> simp
  obtain ⟨tail, rfl, hnone⟩ := hhead
  cases first with
  | nil =>
    obtain ⟨rfl, rfl, rfl⟩ := hsame
    exact ⟨rfl, rfl, rfl, rfl, middle, hsplit, hsecond⟩
  | cons e first =>
    obtain ⟨-, htail⟩ := List.cons.inj hsplit
    exact absurd (htail ▸ List.mem_append_right _ (.head _)) (hnone i p r)

/-- A call that did not overstep a preference is settled by what it returned. -/
theorem Legal.settlesOwn (h : Legal set [] journal) {result : CallResult}
    (hsplit : journal = past ++ .returned id phase result :: rest)
    (hoverstep : set.overstep past id = none) : set.SettlesOwn past id phase result rest := by
  have hescalation : set.escalation past id = none := by
    rw [Legal.escalation_eq (hsplit ▸ h), hoverstep]
  obtain ⟨before, first, second, later, rfl, rfl, hmove, -⟩ := h.exists_move_at hsplit
  rw [List.nil_append] at hmove
  -- Only a settlement records a return, and it may be part of a longer move.
  have key {i : CommandId} {p : Phase} {r : CallResult} {completed : Bool} {steps : List Event}
      (more : List Event) (hsteps : Settlement set i p r completed steps)
      (hverdict : set.Verdict before i p r steps)
      (hblock : steps ++ more = first ++ .returned id phase result :: second)
      (hmore : .returned id phase result ∉ more) :
      set.SettlesOwn (before ++ first) id phase result (second ++ later) := by
    obtain ⟨rfl, rfl, rfl, rfl, middle, rfl, rfl⟩ := hsteps.head_returned hblock hmore
    rw [List.append_nil] at hescalation ⊢
    rw [List.append_assoc]
    exact hsteps.settlesOwn hverdict hescalation
  have hmem : .returned id phase result ∈ first ++ .returned id phase result :: second := by simp
  generalize hblock : first ++ Event.returned id phase result :: second = block at hmove hmem
  cases hmove with
  | settled i p r completed steps honce hcalled hclear hsteps hverdict =>
    exact key [] hsteps hverdict (by rw [List.append_nil, hblock]) (by simp)
  | onceAborted i r steps honce hcalled hsteps hhalt hverdict =>
    exact key [] hsteps hverdict (by rw [List.append_nil, hblock]) (by simp)
  | onceEnded i r completed steps parameters honce hcalled hsteps hgo hclear hverdict =>
    exact key _ hsteps hverdict hblock.symm (by simp)
  | offered position v r offer handover hv hhalt hoffer hover =>
    cases hoffer <;> cases hover <;> simp at hmem
  | _ => simp at hmem

/-! ## One at a time -/

/-- There is at most one call at a time that has to end with an error. -/
theorem Legal.overstep_single (h : Legal set [] (past ++ rest)) {i j : CommandId}
    (hi : (set.overstep past i).isSome = true) (hj : (set.overstep past j).isSome = true) : i = j := by
  have howner {k : CommandId} (hk : (set.overstep past k).isSome = true) :
      (set.pending past).any (·.1 == k) = true := by
    rw [← h.escalation_eq, Setting.escalation] at hk
    cases hpending : set.pending past with
    | none => simp [hpending] at hk
    | some p =>
      by_cases hp : (p.1 == k) = true
      · exact hp
      · simp [hpending, Option.filter, hp] at hk
  have hi := howner hi
  have hj := howner hj
  cases hpending : set.pending past with
  | none =>
    rw [hpending] at hi
    cases hi
  | some p =>
    rw [hpending, Option.any_some, beq_iff_eq] at hi hj
    exact hi.symm.trans hj

/-- When a call begins, no call has to end with an error. -/
theorem Legal.overstep_called {parameters : BoundParameters} {input : Option Value}
    (h : Legal set [] (past ++ .called id phase parameters input :: rest)) (j : CommandId) :
    set.overstep past j = none := by
  have heach : Journal.Each set.Attentive [] (past ++ .called id phase parameters input :: rest) :=
    h.each (fun _ e _ _ hlaw => by cases e <;> exact hlaw) fun _ _ hmove => hmove.each_attentive
  have hcalm : set.pending past = none := Journal.each_iff.mp heach past _ rest rfl
  rw [← h.escalation_eq, Setting.escalation, hcalm]
  rfl

section

variable (settings : ChainSettings) (host : StopToken) (flags : StopFlags)
  (specs : List CommandSpec) (tokens : List StopToken) (input : Option (List Value))

namespace Pipeline

/-- A run that no panic unwinds leaves no error pending when its steps come to their end. -/
theorem ran_calm (hout : (ran settings host flags specs tokens input).outcome = .ok ()) :
    ((build settings host flags specs).setting input).pending
      (ran settings host flags specs tokens input).chain.journal = none := by
  have htracks := (ran_course settings host flags specs tokens input).tracks
  rw [← htracks.ledger.pending]
  exact steps_calm input _ (Chain.pendingStop_signalAll _ tokens) hout

/-- **Preferences to stop end calls.** In every run, whatever its commands do, a message on a channel
whose preference is to stop reaches the host, its command emits no object in the rest of the call, and
the call is settled as one terminating fault with the error of the first such message, by which the run
fails. No two calls have to end with such an error at a time, none does when a call begins, and a call
in which no such message was written is settled by what it returned. -/
theorem preferences_escalate :
    ((build settings host flags specs).setting input).Escalates
      (((build settings host flags specs).signaled tokens).invoke input).1
      (((build settings host flags specs).signaled tokens).invoke input).2.chain.journal := by
  have hlegal := legal_journal settings host flags specs tokens input
  have hcourse := ran_course settings host flags specs tokens input
  have hrun := ran_not_parting settings host flags specs tokens input
  refine ⟨?_, ?_, ?_, ?_⟩
  · intro past id m rest hsplit hstop
    obtain ⟨stops, hparts⟩ := (invoke_concluded settings host flags specs tokens input).parts
    obtain ⟨middle, later, hran, rfl, hlater⟩ := hparts.split hsplit not_false
    obtain ⟨phase, object, r, during, tail, kind, hcall, rfl, hsource, hpayload, hduring, hoverstep,
      hend⟩ := hcourse.legal.endsCall hran (by simpa using hrun) hstop
    refine ⟨phase, object, r, during, tail ++ later, kind, hcall, by simp, hsource, hpayload, hduring,
      hoverstep, ?_⟩
    rcases hend with hover | ⟨rfl, hleft⟩
    · refine .inl ⟨hover.append later, fun o ho => ?_⟩
      obtain ⟨final, stops', hfinal, rfl⟩ :=
        outcome_of_invoke settings host flags specs tokens input ho
      have hkept {e : Event}
          (he : e ∈ (ran settings host flags specs tokens input).chain.journal) :
          e ∈ final.journal := hfinal.mem_of_mem_start he
      refine ⟨?_, ?_⟩
      · show r ∈ final.records
        rw [hfinal.tracks.ledger.records, Journal.deliveries, List.mem_filterMap]
        exact ⟨.delivered r, hkept (by rw [hran]; simp), rfl⟩
      · rw [Chain.status_eq_failed_iff, hfinal.tracks.fault, List.any_eq_true]
        exact ⟨.failed id, hkept (by rw [hran]; simp [hover.failed_mem]), rfl⟩
    · refine .inr ⟨?_, by simpa using hlater⟩
      cases invoke_concluded settings host flags specs tokens input with
      | panicked p hout hpanic hchain hdrop => exact ⟨p, hpanic⟩
      | unwound p before stage after hout hpanic hsplit hrunning hstop hdrop => exact ⟨p, hpanic⟩
      | completed o final hout hok ho hfinal hdrop =>
        rw [ran_calm settings host flags specs tokens input hout] at hleft
        cases hleft
  · intro past id phase result rest hsplit hoverstep
    exact hlegal.settlesOwn hsplit hoverstep
  · intro past rest i j hsplit hi hj
    exact Legal.overstep_single (hsplit ▸ hlegal) hi hj
  · intro past id phase parameters object rest hsplit j
    exact Legal.overstep_called (hsplit ▸ hlegal) j

end Pipeline

end

/-- A command without parameters that takes no notice of what its writes return. -/
def Command.careless : Command where
  name := "careless"
  parameters := []
  Memory := Unit
  fresh := ()
  process _ _ := .report (.warning "first") fun _ => .write (.int 1) fun _ =>
    .report (.warning "second") fun _ => .done .ok

/-- A chain of that command, in which warnings are to stop. -/
def carelessChain : Pipeline :=
  .build { preferences := { warning := .stop } } ⟨0, []⟩ ⟨1, []⟩ [{ command := .careless }]

/-- The call that a step returned from as completed. -/
def Event.completed? : Event → Option (CommandId × Phase)
  | .returned id phase .ok => some (id, phase)
  | _ => none

theorem Event.completed?_eq_some {e : Event} {id : CommandId} {phase : Phase} :
    e.completed? = some (id, phase) ↔ e = .returned id phase .ok := by
  constructor
  · intro h
    unfold completed? at h
    split at h
    · cases h
      rfl
    · cases h
  · rintro rfl
    rfl

/-- The first warning ends the call of the command with one error, although the call returns as
completed. The call before it is settled by what it returned. -/
theorem Pipeline.preferences_escalate_careless :
    ((carelessChain.setting none).preferences ⟨0⟩).forKind .warning = .stop
      ∧ (∃ past text rest,
        ((carelessChain.signaled []).invoke none).2.chain.journal
            = past ++ .reporting ⟨0⟩ (.warning text) :: rest
          ∧ (carelessChain.setting none).EndsCall ((carelessChain.signaled []).invoke none).1 past ⟨0⟩
            (.warning text) rest)
      ∧ (∃ past rest, (carelessChain.setting none).SettlesOwn past ⟨0⟩ .begin .ok rest)
      ∧ (((carelessChain.signaled []).invoke none).1.toOption.map fun o =>
          (o.status, o.records.map Record.kind, o.errors.map fun e => (e.errorId, e.terminating)))
        = some (.failed, [.warning, .warning, .error], [("ActionPreferenceStop", true)]) := by
  have hescalates : (carelessChain.setting none).Escalates ((carelessChain.signaled []).invoke none).1
      ((carelessChain.signaled []).invoke none).2.chain.journal :=
    preferences_escalate { preferences := { warning := .stop } } ⟨0, []⟩ ⟨1, []⟩
      [{ command := .careless }] [] none
  have hwritten : ((carelessChain.signaled []).invoke none).2.chain.journal.any (fun
      | .reporting ⟨0⟩ (.warning _) => true
      | _ => false) = true := by decide +kernel
  have hreturned : ((carelessChain.signaled []).invoke none).2.chain.journal[1]?.bind Event.completed?
      = some (⟨0⟩, .begin) := by decide +kernel
  have hstop : ((carelessChain.setting none).preferences ⟨0⟩).forKind .warning = .stop := by decide
  refine ⟨hstop, ?_, ?_, by decide +kernel⟩
  · obtain ⟨e, he, hwrites⟩ := List.any_eq_true.mp hwritten
    split at hwrites
    · next text =>
      obtain ⟨past, rest, hsplit⟩ := List.append_of_mem he
      exact ⟨past, text, rest, hsplit, hescalates.ends past ⟨0⟩ _ rest hsplit hstop⟩
    · cases hwrites
  · obtain ⟨e, he, hcompleted⟩ := Option.bind_eq_some_iff.mp hreturned
    obtain rfl := Event.completed?_eq_some.mp hcompleted
    obtain ⟨hlt, hat⟩ := List.getElem?_eq_some_iff.mp he
    refine ⟨_, _, hescalates.others
      (((carelessChain.signaled []).invoke none).2.chain.journal.take 1) ⟨0⟩ .begin .ok
      (((carelessChain.signaled []).invoke none).2.chain.journal.drop 2) ?_ ?_⟩
    · rw [← hat, ← List.drop_eq_getElem_cons hlt, List.take_append_drop]
    · exact Option.isNone_iff_eq_none.mp (by decide +kernel)

end CommandChain
