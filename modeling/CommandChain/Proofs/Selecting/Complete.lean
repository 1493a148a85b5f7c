import CommandChain.Proofs.Passage
import CommandChain.Proofs.Selecting.Taking
/-!
# Windows are exact and lazy

A command that selects objects alone in a chain writes those in its window. One that selects the first
objects is called to process with those that it skips and those that it writes, wherever it stands, of
the objects that the commands in front would give the host: it cuts its input off, or they end, and
after neither of these it is called to process.
-/

namespace CommandChain

variable {set : Setting} {journal block : List Event} {k : Nat}

/-! ## The last object -/

/-- A step after which the command at a position is not called to process: it cuts its input off, or it
is called to end. -/
def Event.Quits (k : Nat) : Event → Prop
  | cut id => id = ⟨k⟩
  | called id .finish _ _ => id = ⟨k⟩
  | _ => False

/-- The command at a position is called to process only before such a step. -/
def Journal.Lively (k : Nat) (past : List Event) (e : Event) (_ : List Event) : Prop :=
  e.taken? k ≠ none → ∀ q ∈ past, ¬ q.Quits k

/-- The settling of a call holds no call of a command that has quit. -/
theorem Settlement.each_lively {id : CommandId} {phase : Phase} {result : CallResult}
    {completed : Bool} (h : Settlement set id phase result completed block) :
    Journal.Each (Journal.Lively k) journal block := by
  cases h <;> simp [Journal.Each, Journal.Lively, Event.taken?]

/-- A command is handed an object while its input is not cut off and it was not called to end. -/
theorem Offer.each_lively {position : Nat} {v : Value} {r : Record} {offer handover : List Event}
    (h : Offer journal position v r offer) (hover : Handover set journal position v r handover) :
    Journal.Each (Journal.Lively k) journal (offer ++ handover) := by
  have huncut : ∀ e ∈ journal, e ≠ .cut ⟨position⟩ := by
    rintro e he rfl
    cases h with
    | host v r hcut => exact absurd (List.any_eq_false.mp hcut _ he) (by simp [Event.isCut])
    | command i v r hcut => exact absurd (List.any_eq_false.mp hcut _ he) (by simp [Event.cutsOff])
  have hoffer : ∀ e ∈ offer, e.taken? k = none ∧ ¬ e.Quits k := by
    cases h <;> simp [Event.taken?, Event.Quits]
  have hquiet (e : Event) (he : e.taken? k = none) (past rest : List Event) :
      Journal.Lively k past e rest := fun hno => absurd he hno
  refine Journal.Each.append (fun _ _ _ _ hlaw => hlaw) ?_ ?_
  · exact Journal.each_iff.mpr fun before e after heq =>
      hquiet e (hoffer e (heq ▸ by simp)).1 _ _
  · cases hover with
    | called parameters hlt hcalling hbind =>
      refine ⟨fun hprocessed q hq hquits => ?_, trivial⟩
      obtain rfl : position = k := by
        by_contra hne
        exact hprocessed (by simp [Event.taken?, hne])
      rcases List.mem_append.mp hq with hq | hq
      · unfold Event.Quits at hquits
        split at hquits
        · exact huncut _ hq (congrArg Event.cut hquits)
        · have hclear := hcalling.clear _ hq
          simp [Event.isOf, hquits] at hclear
        · exact hquits
      · exact (hoffer q hq).2 hquits
    | _ => simp [Journal.Each, Journal.Lively, Event.taken?]

/-- No step calls the command at a position to process once it has quit. -/
theorem Move.each_lively (h : Move set journal block) (hinput : set.hostInput = true)
    (honce : set.processesOnce ⟨k⟩ = false) : Journal.Each (Journal.Lively k) journal block := by
  cases h with
  | offered position v r offer handover hv hhalt hoffer hover => exact hoffer.each_lively hover
  | head parameters hhalt hhost =>
    rw [hinput] at hhost
    cases hhost
  | once id parameters hhalt honce' =>
    have hne : id ≠ ⟨k⟩ := by
      rintro rfl
      rw [honce] at honce'
      cases honce'
    simp [Journal.Each, Journal.Lively, Event.taken?, hne]
  | settled id phase result completed block honce hcalled hclear hblock => exact hblock.each_lively
  | onceAborted id result block honce hcalled hblock hhalt => exact hblock.each_lively
  | onceEnded id result completed block parameters honce hcalled hblock hgo hclear =>
    refine hblock.each_lively.append (fun _ _ _ _ hlaw => hlaw) ?_
    simp [Journal.Each, Journal.Lively, Event.taken?]
  | _ => simp [Journal.Each, Journal.Lively, Event.taken?]

/-- What a command is called with to process, it is called with before it quits. -/
theorem Legal.processed_of_quits (h : Legal set [] journal) (hinput : set.hostInput = true)
    (honce : set.processesOnce ⟨k⟩ = false) {before after : List Event} {e : Event}
    (heq : journal = before ++ e :: after) (hquits : e.Quits k) :
    Journal.processed journal k = Journal.processed before k := by
  have hlively := Journal.each_iff.mp (h.each (fun _ _ _ _ hlaw => hlaw)
    fun _ _ hmove => hmove.each_lively hinput honce)
  have hnone : ∀ later ∈ e :: after, later.taken? k = none := by
    refine List.forall_mem_cons.mpr ⟨?_, fun later hlater => ?_⟩
    · unfold Event.Quits at hquits
      split at hquits
      · rfl
      · rfl
      · exact hquits.elim
    · obtain ⟨middle, rest, rfl⟩ := List.append_of_mem hlater
      by_contra hprocessed
      exact hlively (before ++ e :: middle) later rest (by rw [heq]; simp) hprocessed e (by simp) hquits
  rw [heq, Journal.processed_append, Journal.processed, Journal.processed,
    List.filterMap_eq_nil_iff.mpr hnone, List.append_nil]

/-- A command that has cut its input off was called to process with the first objects. -/
theorem Legal.processed_of_sated (h : Legal set [] journal) (hinput : set.hostInput = true)
    (honce : set.processesOnce ⟨k⟩ = false) {limit : Nat} {journal' : List Event}
    (hsated : Journal.Sated k limit journal journal') :
    Journal.processed journal k = ((Journal.arrivals journal').take limit).map some := by
  obtain ⟨before, after, taken, heq, htaken, rfl, hprefix⟩ := hsated
  rw [h.processed_of_quits hinput honce heq rfl, htaken, ← List.prefix_iff_eq_take.mp hprefix]

/-- A command that was called to end in need of more was called to process with all objects. -/
theorem Legal.processed_of_exhausted (h : Legal set [] journal) (hinput : set.hostInput = true)
    (honce : set.processesOnce ⟨k⟩ = false) {limit : Nat} {journal' : List Event}
    (hexhausted : Journal.Exhausted k limit journal journal') :
    Journal.processed journal k = ((Journal.arrivals journal').take limit).map some := by
  obtain ⟨before, after, parameters, input, heq, htaken, hlt⟩ := hexhausted
  rw [h.processed_of_quits hinput honce heq rfl, htaken, List.take_of_length_le (Nat.le_of_lt hlt)]

/-! ## What the commands in front supply -/

/-- Without commands the objects of the host come back to it. -/
theorem feedObjects_nil (values : List Value) {chain : Chain} (hhalt : chain.isHalted = false)
    (huncut : chain.inputCut = none) :
    ∃ fed, feedObjects values .nil chain = ⟨.ok (), .nil, fed⟩
      ∧ Journal.arrivals fed.journal = Journal.arrivals chain.journal ++ values := by
  induction values generalizing chain with
  | nil => exact ⟨chain, rfl, (List.append_nil _).symm⟩
  | cons v values ih =>
    obtain ⟨fed, hfed, harrived⟩ := @ih
      (((chain.log (.feeding v)).emit (.object v) .host).2.deliverToHost
        ((chain.log (.feeding v)).emit (.object v) .host).1) hhalt huncut
    have hgo : (chain.isHalted || chain.inputCut.isSome) = false := by
      rw [hhalt, huncut]
      rfl
    refine ⟨fed, ?_, ?_⟩
    · rw [feedObjects, hgo]
      exact hfed
    · rw [harrived, Chain.arrivals_deliverToHost, Chain.journal_emit, Chain.journal_log,
        Journal.arrivals_append, Journal.arrivals_append, List.append_assoc, List.append_assoc,
        List.append_assoc]
      rfl

namespace Pipeline

variable (settings : ChainSettings) (host : StopToken) (flags : StopFlags) (specs : List CommandSpec)
  (input : List Value)

/-- What the commands of a chain give the host for some objects; without commands, these. -/
def supply : List Value :=
  match specs with
  | [] => input
  | specs =>
    ((build settings host flags specs).invoke (some input)).2.chain.records.filterMap Record.object?

/-- The steps of a run are those of a row of its stages. -/
theorem ran_eq_rehearse {n : Nat} {row : Stages n} (hrow : row.toList = stagesFrom settings 0 specs)
    (hspecs : specs ≠ []) :
    (ran settings host flags specs [] (some input)).outcome
        = (rehearse input row (build settings host flags specs).chain).outcome
      ∧ (ran settings host flags specs [] (some input)).chain
        = (rehearse input row (build settings host flags specs).chain).chain := by
  have hn : n ≠ 0 := by
    rw [← row.length_toList, hrow, length_stagesFrom]
    exact fun hzero => hspecs (List.length_eq_zero_iff.mp hzero)
  have hsame : (Stages.ofList (build settings host flags specs).stages).toList = row.toList := by
    rw [Stages.toList_ofList, hrow]
    rfl
  obtain ⟨houtcome, -, hchain⟩ :=
    steps_congr hsame (some input) (build settings host flags specs).chain
  obtain ⟨houtcome', hchain'⟩ :=
    steps_eq_rehearse hn input row (build settings host flags specs).chain
  exact ⟨houtcome.trans houtcome', hchain.trans hchain'⟩

/-- The steps of a run deliver what the commands supply. -/
theorem arrivals_rehearse (hrunning : (build settings host flags specs).chain.isHalted = false)
    {n : Nat} {row : Stages n} (hrow : row.toList = stagesFrom settings 0 specs) :
    Journal.arrivals (rehearse input row (build settings host flags specs).chain).chain.journal
      = supply settings host flags specs input := by
  cases specs with
  | nil =>
    obtain rfl : n = 0 := by
      rw [← row.length_toList, hrow]
      rfl
    cases row
    obtain ⟨fed, hfed, harrived⟩ := feedObjects_nil input hrunning rfl
    have hran : rehearse input .nil (build settings host flags []).chain = ⟨.ok (), .nil, fed⟩ := by
      change proceed input .nil (build settings host flags []).chain = _
      rw [proceed, hfed]
      rfl
    rw [hran, harrived]
    rfl
  | cons spec specs =>
    obtain ⟨-, hchain⟩ := ran_eq_rehearse settings host flags (spec :: specs) input hrow (by simp)
    obtain ⟨stops, hparts⟩ :=
      (invoke_concluded settings host flags (spec :: specs) [] (some input)).parts
    obtain ⟨block, hgrown, hlegal, hparting, -⟩ := hparts.grown
    have hfree := hlegal.objectFree_of_parting hparting
    have hnone : Journal.arrivals block = [] := by
      refine Journal.arrivals_eq_nil ?_
      rintro e he r rfl
      exact hfree _ he
    have hsupply : supply settings host flags (spec :: specs) input
        = Journal.arrivals (ran settings host flags (spec :: specs) [] (some input)).chain.journal := by
      refine (congrArg (List.filterMap Record.object?) hparts.tracks.ledger.records).trans ?_
      rw [hgrown]
      exact (Journal.arrivals_append _ _).trans (by rw [hnone, List.append_nil])
    rw [← hchain, hsupply]

end Pipeline

/-! ## The start -/

section

variable (settings : ChainSettings)

/-- The stages of two lists of commands are those of the first, and behind them those of the second.
-/
theorem Pipeline.stagesFrom_append (position : Nat) (pre post : List CommandSpec) :
    stagesFrom settings position (pre ++ post)
      = stagesFrom settings position pre ++ stagesFrom settings (position + pre.length) post := by
  induction pre generalizing position with
  | nil => rfl
  | cons spec pre ih =>
    rw [List.cons_append, stagesFrom, ih, stagesFrom, List.length_cons, List.cons_append,
      Nat.add_assoc, Nat.add_comm 1]

/-- The stages of the first commands stand in front of the next one. -/
theorem Pipeline.position_lt_of_mem {specs : List CommandSpec} {stage : Stage}
    (h : stage ∈ stagesFrom settings 0 specs) : stage.position < specs.length := by
  obtain ⟨i, hi⟩ := List.getElem?_of_mem h
  have hlt := (List.getElem?_eq_some_iff.mp hi).1
  rw [length_stagesFrom] at hlt
  rwa [(stagesFrom_new settings specs 0 i stage hi).position, Nat.zero_add]

/-- The stages of new commands stand behind the position in front of them. -/
theorem Pipeline.stagesFrom_trails {n : Nat} {row : Stages n} {specs : List CommandSpec}
    (hrow : row.toList = stagesFrom settings (k + 1) specs) : row.Trails k := by
  refine ⟨fun stage hstage => ?_, hrow ▸ stagesFrom_ready settings specs (k + 1)⟩
  rw [hrow] at hstage
  obtain ⟨i, hi⟩ := List.getElem?_of_mem hstage
  rw [(stagesFrom_new settings specs (k + 1) i stage hi).position]
  omega

end

open Builtin (Selection.command Selection.parameters Selection.Window Selection.project
  Selection.limit Selection.pairing Selection.Built Selection.pairing_conducts)

/-- A command selects the first of the objects that come to it through the pipeline. -/
structure CommandSpec.SelectsFirst (spec : CommandSpec) (adapter : Adapter) (first skip : Nat) :
    Prop where
  command : spec.command = Selection.command
  binds : ∃ bound, (Binder.mk Selection.parameters adapter).bindArguments spec.arguments true = .ok bound
    ∧ Selection.Window.Bound ⟨some first, none, skip⟩ bound ∧ bound.contains "InputObject" = false

/-- A chain runs with these objects, no panic unwinds it, and nothing disturbs the command at a
position. -/
structure Pipeline.Undisturbed (p : Pipeline) (input : List Value) (k : Nat) : Prop where
  running : p.chain.isHalted = false
  calm : ¬ Journal.Disturbed k (p.invoke (some input)).2.chain.journal
  returns : ∀ e, (p.invoke (some input)).1 ≠ .error e

namespace Pipeline

section

variable {settings : ChainSettings} (host : StopToken) (flags : StopFlags)
  (pre : List CommandSpec) {spec : CommandSpec} (post : List CommandSpec) (input : List Value)
  {first skip : Nat} (h : spec.SelectsFirst settings.adapter first skip)
include h

/-- A command that selects objects takes them one by one. -/
theorem processesOnce_selecting :
    ((build settings host flags (pre ++ spec :: post)).setting (some input)).processesOnce ⟨pre.length⟩
      = false := by
  have hat : ((build settings host flags (pre ++ spec :: post)).setting
      (some input)).commands[pre.length]? = some Selection.command := by
    change ((stagesFrom settings 0 (pre ++ spec :: post)).map Stage.command)[pre.length]? = _
    rw [stagesFrom_commands, List.map_append, List.getElem?_append_right (by simp)]
    simp [h.command]
  rw [Setting.processesOnce, hat]
  rfl

/-- The run of a chain goes abreast with that of the commands in front of the one that selects the
first objects. -/
theorem selecting_followed (hrunning : (build settings host flags pre).chain.isHalted = false) :
    ∃ (p n : Nat) (row : Stages (0 + p + 1 + n)) (row' : Stages (0 + n)),
      row.toList = stagesFrom settings 0 (pre ++ spec :: post)
        ∧ row'.toList = stagesFrom settings 0 pre
        ∧ (Selection.pairing (build settings host flags pre).chain hrunning pre.length first skip
            p).Followed
          (rehearse input row (build settings host flags pre).chain).outcome
          (rehearse input row' (build settings host flags pre).chain).outcome
          (rehearse input row (build settings host flags pre).chain).chain
          (rehearse input row' (build settings host flags pre).chain).chain
          (Journal.Exhausted pre.length (Selection.limit first skip)
            (rehearse input row (build settings host flags pre).chain).chain.journal
            (rehearse input row' (build settings host flags pre).chain).chain.journal) := by
  obtain ⟨command, arguments, bindingErrors⟩ := spec
  obtain ⟨hcommand, bound, hbinds, hbound⟩ := h
  simp only at hcommand hbinds
  subst hcommand
  obtain ⟨stage, hstage, hfrom⟩ : ∃ stage,
      Selection.Built pre.length first skip settings.adapter stage
      ∧ stagesFrom settings (0 + pre.length) (⟨Selection.command, arguments, bindingErrors⟩ :: post)
        = stage :: stagesFrom settings (pre.length + 1) post := by
    refine ⟨_, .mk arguments .empty settings.preferences (bindingErrors.getD settings.bindingErrors) {}
      ⟨⟨rfl, rfl⟩, rfl⟩ fun named hnamed => ?_, by rw [Nat.zero_add]; rfl⟩
    obtain rfl := Except.ok.inj (hbinds.symm.trans hnamed)
    exact hbound
  have hpost : (Stages.append (.ofList (stagesFrom settings (pre.length + 1) post)) .nil).toList
      = stagesFrom settings (pre.length + 1) post := by
    rw [Stages.toList_append, Stages.toList_ofList, Stages.toList, List.append_nil]
  refine ⟨_, _, .append (.ofList (stagesFrom settings 0 pre)) (.cons stage (.append
    (.ofList (stagesFrom settings (pre.length + 1) post)) .nil)),
    .append (.ofList (stagesFrom settings 0 pre)) .nil, ?_, ?_, ?_⟩
  · rw [Stages.toList_append, Stages.toList_ofList, Stages.toList, hpost, stagesFrom_append, hfrom]
  · rw [Stages.toList_append, Stages.toList_ofList, Stages.toList, List.append_nil]
  · refine (Selection.pairing_conducts hrunning rfl).rehearse_followed input rfl
      ⟨_, _, _, [], [], fun front hfront => ?_, rfl, rfl,
        ⟨rfl, rfl, stage, _, rfl, hstage, stagesFrom_trails settings hpost⟩, ?_⟩
    · rw [Stages.toList_ofList] at hfront
      exact position_lt_of_mem settings hfront
    · exact ⟨⟨rfl, rfl, rfl, rfl, rfl⟩, ⟨rfl, rfl, rfl, rfl, rfl⟩, rfl, rfl, rfl⟩

/-- The command is called to process with the first objects that the commands in front supply. -/
theorem processed_first
    (hcalm : (build settings host flags (pre ++ spec :: post)).Undisturbed input pre.length) {o : Outcome}
    (ho : ((build settings host flags (pre ++ spec :: post)).invoke (some input)).1 = .ok o) :
    Journal.processed
        ((build settings host flags (pre ++ spec :: post)).invoke (some input)).2.chain.journal pre.length
      = ((supply settings host flags pre input).take (Selection.limit first skip)).map some := by
  have hlegal := legal_journal settings host flags (pre ++ spec :: post) [] (some input)
  have honce := processesOnce_selecting host flags pre post input h
  obtain ⟨p, n, row, row', hrow, hrow', hfollowed⟩ :=
    selecting_followed host flags pre post input h hcalm.running
  obtain ⟨houtcome, hchain⟩ :=
    ran_eq_rehearse settings host flags (pre ++ spec :: post) input hrow (by simp)
  have hok := (completed_of_invoke settings host flags (pre ++ spec :: post) [] (some input) ho).1
  obtain ⟨stops, hparts⟩ :=
    (invoke_concluded settings host flags (pre ++ spec :: post) [] (some input)).parts
  obtain ⟨block, hgrown, -⟩ := hparts.grown
  have hlater : (rehearse input row (build settings host flags pre).chain).chain.journal
      <+: ((build settings host flags (pre ++ spec :: post)).invoke (some input)).2.chain.journal :=
    ⟨block, (hgrown.trans (congrArg (·.journal ++ block) hchain)).symm⟩
  rw [← arrivals_rehearse settings host flags pre input hcalm.running hrow']
  cases hfollowed with
  | apart h =>
    rcases h with hdisturbed | hsated
    · exact absurd (hdisturbed.mono hlater) hcalm.calm
    · exact hlegal.processed_of_sated rfl honce (hsated.mono hlater List.prefix_rfl)
  | panicked e h =>
    have hpanic := hok.symm.trans (houtcome.trans h)
    cases hpanic
  | level h hexhausted =>
    exact hlegal.processed_of_exhausted rfl honce (hexhausted.mono hlater)

end

/-- A run that nothing disturbs succeeds. -/
theorem Undisturbed.succeeds {settings : ChainSettings} {host : StopToken} {flags : StopFlags}
    {specs : List CommandSpec} {input : List Value}
    (h : (build settings host flags specs).Undisturbed input k) :
    ∃ o, ((build settings host flags specs).invoke (some input)).1 = .ok o ∧ o.status = .succeeded := by
  cases ho : ((build settings host flags specs).invoke (some input)).1 with
  | error e => exact absurd ho (h.returns e)
  | ok o =>
    refine ⟨o, rfl, succeeded_of_running settings host flags specs [] (some input) ho ?_⟩
    refine Bool.or_eq_false_iff.mpr ⟨h.running, List.any_eq_false.mpr fun e he hraises => ?_⟩
    unfold Event.raises at hraises
    split at hraises
    · exact h.calm ⟨_, he, trivial⟩
    · cases hraises

/-- **Windows are exact and lazy.** Alone in a chain a command that selects objects writes those in its
window, with the selected properties, whatever its counts. At any place in a chain a command that selects
the first objects is called to process with as many of those that the commands in front supply as it
skips and writes, or all where these are fewer, and with none where it writes none, in every run that no
panic unwinds, with no signal and no cut of another command, where all commands in front complete
beginning and no write of the command itself is answered with a stop. Such a run succeeds. -/
theorem windows_exact_lazy (settings : ChainSettings) (host : StopToken) (flags : StopFlags)
    (spec : CommandSpec) (input : List Value) :
    (∀ (stage : Stage) (w : Selection.Window), spec.command = Selection.command →
        Alone settings host flags spec stage → w.Bound stage.bound →
        ∃ o, ((build settings host flags [spec]).invoke (some input)).1 = .ok o
          ∧ o.status = .succeeded
          ∧ o.outputValues = (w.select input).map (Selection.project
            ((stage.closing (build settings host flags [spec]).chain).textList "Property")
            settings.adapter))
      ∧ ∀ (pre post : List CommandSpec) (first skip : Nat),
        spec.SelectsFirst settings.adapter first skip →
        (build settings host flags (pre ++ spec :: post)).Undisturbed input pre.length →
        ∃ o, ((build settings host flags (pre ++ spec :: post)).invoke (some input)).1 = .ok o
          ∧ o.status = .succeeded
          ∧ Journal.processed ((build settings host flags (pre ++ spec :: post)).invoke
              (some input)).2.chain.journal pre.length
            = ((supply settings host flags pre input).take
              (if first = 0 then 0 else skip + first)).map some := by
  refine ⟨fun stage w hcommand halone hbound => halone.invoke_selected hcommand hbound input,
    fun pre post first skip hfirst hcalm => ?_⟩
  obtain ⟨o, ho, hstatus⟩ := hcalm.succeeds
  exact ⟨o, ho, hstatus, processed_first host flags pre post input hfirst hcalm ho⟩

/-- The first object is selected. -/
def onlyFirst : CommandSpec where
  command := Selection.command
  arguments := [.named "First" (some (.int 1))]

/-- That command with its parameters bound. -/
def onlyFirstStage : Stage :=
  ⟨0, Selection.command, ({} : Builtin.Selection.Memory), onlyFirst.arguments, .created,
    ⟨[⟨"First", .int 1, .named⟩]⟩, {}, .terminating, {}⟩

/-- That command between two that hand on what they get. -/
def onlyFirstBetween : Pipeline :=
  build {} ⟨0, []⟩ ⟨1, []⟩ ([{ command := .relaying .any }] ++ onlyFirst :: [{ command := .relaying .any }])

/-- The command that selects the first object does so by its parameters. -/
theorem selectsFirst_onlyFirst : onlyFirst.SelectsFirst (.standard .empty) 1 0 :=
  ⟨rfl, _, rfl, ⟨rfl, rfl, rfl⟩, rfl⟩

/-- Between commands that hand on what they get, nothing disturbs the selection of the first of
three objects. -/
theorem undisturbed_onlyFirstBetween :
    onlyFirstBetween.Undisturbed [.int 1, .int 2, .int 3] 1 where
  running := rfl
  calm := by decide +kernel
  returns e he := by
    have hok : (onlyFirstBetween.invoke (some [.int 1, .int 2, .int 3])).1.isOk = true := by
      decide +kernel
    rw [he] at hok
    cases hok

/-- The first command hands on all three objects. -/
theorem length_supply_relaying :
    (supply {} ⟨0, []⟩ ⟨1, []⟩ [{ command := .relaying .any }] [.int 1, .int 2, .int 3]).length = 3 := by
  decide +kernel

/-- Of three integers the first is selected, alone as between commands that hand on what they get,
and there the selection is called for one object only. -/
theorem windows_exact_lazy_onlyFirst :
    (∃ o, ((build {} ⟨0, []⟩ ⟨1, []⟩ [onlyFirst]).invoke (some [.int 1, .int 2, .int 3])).1 = .ok o
        ∧ o.outputValues = [.int 1])
      ∧ (Journal.processed (onlyFirstBetween.invoke
          (some [.int 1, .int 2, .int 3])).2.chain.journal 1).length = 1 := by
  obtain ⟨hexact, hlazy⟩ := windows_exact_lazy {} ⟨0, []⟩ ⟨1, []⟩ onlyFirst [.int 1, .int 2, .int 3]
  constructor
  · obtain ⟨o, ho, -, hvalues⟩ := hexact onlyFirstStage ⟨some 1, none, 0⟩ rfl ⟨rfl, rfl, rfl⟩
      ⟨rfl, rfl, rfl⟩
    exact ⟨o, ho, hvalues⟩
  · obtain ⟨o, -, -, hprocessed⟩ := hlazy [{ command := .relaying .any }] [{ command := .relaying .any }]
      1 0 selectsFirst_onlyFirst undisturbed_onlyFirstBetween
    refine (congrArg List.length hprocessed).trans ?_
    rw [List.length_map, List.length_take, length_supply_relaying]
    rfl

end Pipeline

/-- Whether a step is a signal, a cut of another command than the one at a position, or a fault. -/
def Event.interferes (k : Nat) : Event → Bool
  | signaled _ | failed _ | returned _ _ (.fault _) => true
  | cut id => id != ⟨k⟩
  | _ => false

/-- Between these commands the first of three objects is selected in a run that succeeds, where no token
is signaled and no other command faults or cuts its input off, and not as many objects are taken as
should be. -/
def Pipeline.TakesAmiss (pre post : List CommandSpec) : Prop :=
  let ran := (build {} ⟨0, []⟩ ⟨1, []⟩ (pre ++ onlyFirst :: post)).invoke
    (some [.int 1, .int 2, .int 3])
  ran.1.toOption.any (·.status == .succeeded) = true
    ∧ ran.2.chain.journal.any (Event.interferes pre.length) = false
    ∧ (Journal.processed ran.2.chain.journal pre.length).length
      ≠ min (supply {} ⟨0, []⟩ ⟨1, []⟩ pre [.int 1, .int 2, .int 3]).length (0 + 1)

/-- A command that gives up every object. -/
def Command.refusing : Command :=
  { Command.relaying .any with process := fun _ _ => .done .stopped }

/-- A command that gives up beginning, and hands on what it gets. -/
def Command.reluctant : Command :=
  { Command.relaying .any with begin := fun _ _ => .done .stopped }

/-- Where the next command gives up the first object, or hands it on to one that does, the write of it is
answered with a stop and the command takes another one, and where one in front gives up beginning, it
takes none. -/
theorem Pipeline.takes_amiss_refusing_reluctant :
    TakesAmiss [{ command := .relaying .any }] [{ command := .refusing }]
      ∧ TakesAmiss [{ command := .relaying .any }]
        [{ command := .relaying .any }, { command := .refusing }]
      ∧ TakesAmiss [{ command := .reluctant }] [] := by
  refine ⟨⟨?_, ?_, ?_⟩, ⟨?_, ?_, ?_⟩, ?_, ?_, ?_⟩ <;> decide +kernel

end CommandChain
