import CommandChain.Proofs.Conduct.Start
import CommandChain.Proofs.Selecting.Abreast
/-!
# Courses that go abreast

The steps of a run keep two runs abreast as deliveries do. What the commands behind those in common do
when they are bound, when they begin and when they end is a matter of these commands, and stands here
as what is assumed of them.
-/

namespace CommandChain

variable {m m' n : Nat} {pair : Pairing m m'} {chain chain' : Chain}

/-- A call that does not complete is settled so, or halts the chain. -/
theorem invoke_settles (push : Push n) (stage : Stage) (rest : Stages n) (chain : Chain)
    (phase : Phase) (bound : Option BoundParameters) (input : Option Value) {result : CallResult}
    (hok : (invoke push stage rest chain phase bound input).outcome = .ok result)
    (hresult : result ≠ .ok) :
    .settled stage.id phase false ∈ (invoke push stage rest chain phase bound input).chain.journal
      ∨ ∃ token, .signaled token ∈ (invoke push stage rest chain phase bound input).chain.journal := by
  unfold invoke at hok ⊢
  cases henter : stage.state.entering phase with
  | error e =>
    refine .inr ⟨chain.stop, ?_⟩
    simp only [stage.journal_fail]
    simp
  | ok state =>
    simp only [henter] at hok ⊢
    generalize serve _ push _ stage.memory rest _ = served at hok ⊢
    obtain ⟨outcome, memory, rest', chain'⟩ := served
    cases outcome with
    | error p => cases hok
    | ok returned =>
      have hsource := (settle_input { stage with state := state, memory := memory }
        (chain'.log (.returned stage.id phase returned)) phase input returned).1
      have hok := Except.ok.inj hok
      dsimp only [Stage.id] at hok hsource ⊢
      generalize settle { stage with state := state, memory := memory }
        (chain'.log (.returned ⟨stage.position⟩ phase returned)) phase input returned = out
        at hok hsource ⊢
      obtain ⟨result', settled, left⟩ := out
      have hid : settled.position = stage.position := congrArg (·.id.number) hsource
      obtain rfl : result' = result := hok
      refine .inl ?_
      rw [Chain.journal_log, hid]
      cases result' with
      | ok => exact absurd rfl hresult
      | _ => simp [CallResult.isOk]

/-! ## Relations before the commands behind are fed -/

/-- The comparison with something else that holds of the stages behind. -/
def Pairing.relating (pair : Pairing m m')
    (relation : List (Option Value) → List Value → Stages m → Stages m' → Prop) : Pairing m m' :=
  { pair with Behind := relation }

variable {relation relation' : List (Option Value) → List Value → Stages m → Stages m' → Prop}

/-- What two runs come to does not depend on what holds of the stages behind. -/
theorem Pairing.Followed.of_relating {α : Type} {outcome outcome' : Except Panic α} {level : Prop}
    (h : (pair.relating relation).Followed outcome outcome' chain chain' level) :
    pair.Followed outcome outcome' chain chain' level := by
  cases h with
  | apart h => exact .apart h
  | panicked p h => exact .panicked p h
  | level h hlevel => exact .level h hlevel

/-- A stage that two runs have in common stands in front of the rows of both. -/
theorem Ran.Followed.cons {ran : Ran (m + n)} {ran' : Ran (m' + n)} (h : ran.Followed pair ran')
    {stage : Stage} (hfront : pair.Front stage.position) :
    Ran.Followed (n := n + 1) pair ⟨ran.outcome, .cons stage ran.stages, ran.chain⟩
      ⟨ran'.outcome, .cons stage ran'.stages, ran'.chain⟩ :=
  h.andThen List.prefix_rfl List.prefix_rfl (fun _ hp => hp)
    fun hsame hlevel => .level hsame (hlevel.cons hfront)

/-! ## Binding and beginning -/

/-- The commands in common are bound alike, or fail to be. -/
theorem bindAll_followed (hostInput : Bool)
    (hbehind : ∀ (back : Stages m) (back' : Stages m') chain chain',
      (pair.relating relation).Level (n := 0) back back' chain chain' →
      pair.Apart (bindAll hostInput back chain).2 (bindAll hostInput back' chain').2
        ∨ (pair.relating relation').Level (n := 0) (bindAll hostInput back chain).1
          (bindAll hostInput back' chain').1 (bindAll hostInput back chain).2
          (bindAll hostInput back' chain').2)
    (n : Nat) {row : Stages (m + n)} {row' : Stages (m' + n)}
    (h : (pair.relating relation).Level row row' chain chain') :
    pair.Apart (bindAll hostInput row chain).2 (bindAll hostInput row' chain').2
      ∨ (pair.relating relation').Level (bindAll hostInput row chain).1 (bindAll hostInput row' chain').1
        (bindAll hostInput row chain).2 (bindAll hostInput row' chain').2 := by
  induction n with
  | zero => exact hbehind row row' chain chain' h
  | succ n ih =>
    obtain ⟨stage, rest, rest', rfl, rfl, hfront, hrest⟩ := h.exists_of_succ
    obtain ⟨taken, passed, habreast⟩ := hrest.abreast
    have hlater := ih hrest
    have hadapter := habreast.adapter_eq
    unfold bindAll
    rw [hadapter]
    cases hbound : stage.bindStatically chain.adapter (stage.position != 0 || hostInput) with
    | error e => exact .inl (Pairing.apart_fail stage _)
    | ok bound =>
      have hposition : pair.Front bound.position := by
        rw [Stage.bindStatically_eq hbound]
        exact hfront
      exact hlater.imp id (·.cons hposition)

/-- What a command did when it began stays in the journal while the others do. -/
theorem beginAll_grown (stage : Stage) (rest : Stages n) (chain : Chain)
    (hhalt : chain.isHalted = false) :
    (invoke (deliver n) stage rest chain .begin none none).chain.journal
      <+: (beginAll (n + 1) (.cons stage rest) chain).chain.journal := by
  simp only [beginAll, hhalt, Bool.false_eq_true, if_false]
  generalize invoke (deliver n) stage rest chain .begin none none = begun
  split
  · exact List.prefix_rfl
  · exact (beginAll_covers n begun.rest begun.chain).grown
  · exact List.prefix_rfl

/-- The commands in common begin alike. One that does not complete that keeps those behind it from
beginning, which disturbs the command behind where it stands in front of that. -/
theorem beginAll_followed
    (hshort : (∀ q, pair.Front q → q < pair.position) ∨ relation = pair.Behind)
    (hbehind : ∀ (back : Stages m) (back' : Stages m') (chain chain' : Chain),
      chain.pendingStop = none → (pair.relating relation).Level (n := 0) back back' chain chain' →
      Ran.Followed (n := 0) pair (beginAll m back chain) (beginAll m' back' chain'))
    (n : Nat) {row : Stages (m + n)} {row' : Stages (m' + n)} (hnone : chain.pendingStop = none)
    (h : (pair.relating relation).Level row row' chain chain') :
    (beginAll (m + n) row chain).Followed pair (beginAll (m' + n) row' chain') := by
  induction n generalizing chain chain' with
  | zero => exact hbehind row row' chain chain' hnone h
  | succ n ih =>
    obtain ⟨stage, rest, rest', rfl, rfl, hfront, hrest⟩ := h.exists_of_succ
    obtain ⟨taken, passed, habreast⟩ := hrest.abreast
    have hbegun := invoke_followed stage hfront (.inl rfl) hnone hrest none none
    have hcalm := fun result (hok : _ = Except.ok result) =>
      invoke_calm (deliver_calm (m + n)) stage rest .begin none none hnone hok
    have hsettles := fun result (hok : _ = Except.ok result) =>
      invoke_settles (deliver (m + n)) stage rest chain .begin none none hok
    change Ran.Followed (n := n + 1) pair (beginAll (m + n + 1) (.cons stage rest) chain)
      (beginAll (m' + n + 1) (.cons stage rest') chain')
    refine hbegun.of_relating.andThen (beginAll_grown stage rest chain habreast.running)
      (beginAll_grown stage rest' chain' habreast.running') (fun p hp => ?_) fun hsame hlevel => ?_
    · simp only [beginAll, habreast.running, Bool.false_eq_true, if_false, hp]
    · obtain ⟨hstage, hplace, hlater⟩ := hlevel
      simp only [beginAll, habreast.running, habreast.running', Bool.false_eq_true, if_false, hsame]
      generalize invoke (deliver (m + n)) stage rest chain .begin none none = begun
        at hstage hplace hlater hcalm hsettles ⊢
      generalize invoke (deliver (m' + n)) stage rest' chain' .begin none none = begun'
        at hstage hlater ⊢
      rw [hstage]
      cases hout : begun.outcome with
      | error p => exact .panicked p rfl
      | ok result =>
        by_cases hresult : result = .ok
        · subst hresult
          exact (ih (hcalm _ hout) hlater).cons hplace
        · have hleft : Ran.Followed (n := n + 1) pair
              ⟨.ok (), .cons begun.stage begun.rest, begun.chain⟩
              ⟨.ok (), .cons begun.stage begun'.rest, begun'.chain⟩ := by
            rcases hshort with hshort | rfl
            · rcases hsettles result hout hresult with hsettled | ⟨token, hsignaled⟩
              · exact .apart (Pairing.apart_of_mem hsettled ⟨hshort _ hfront, rfl⟩)
              · exact .apart (Pairing.apart_of_signaled token hsignaled)
            · exact .level rfl (hlater.cons hplace)
          cases result with
          | ok => exact absurd rfl hresult
          | stopped => exact hleft
          | fault f => exact hleft

/-! ## Feeding -/

/-- What an object came to stays in the journal while the others are fed. -/
theorem feedObjects_grown (v : Value) (values : List Value) (row : Stages n) (chain : Chain)
    (hgo : (chain.isHalted || chain.inputCut.isSome) = false) :
    (deliver n row ((chain.log (.feeding v)).emit (.object v) .host).2
        ((chain.log (.feeding v)).emit (.object v) .host).1).chain.journal
      <+: (feedObjects (v :: values) row chain).chain.journal := by
  unfold feedObjects
  simp only [hgo, Bool.false_eq_true, if_false]
  generalize deliver n row _ _ = pushed
  split
  · exact List.prefix_rfl
  · exact (feedObjects_covers values pushed.stages pushed.chain).grown

/-- The objects of the host are fed alike. -/
theorem feedObjects_followed (hpush : pair.Carries n) (values : List Value) {row : Stages (m + n)}
    {row' : Stages (m' + n)} (hnone : chain.pendingStop = none) (h : pair.Level row row' chain chain') :
    (feedObjects values row chain).Followed pair (feedObjects values row' chain') := by
  induction values generalizing row row' chain chain' with
  | nil => exact .level rfl h
  | cons v values ih =>
    obtain ⟨taken, passed, habreast⟩ := h.abreast
    have hgo : (chain.isHalted || chain.inputCut.isSome) = false := by
      rw [habreast.running, habreast.even.uncut]
      rfl
    have hgo' : (chain'.isHalted || chain'.inputCut.isSome) = false := by
      rw [habreast.running', habreast.even'.uncut]
      rfl
    have hoffered : pair.Level row row' ((chain.log (.feeding v)).emit (.object v) .host).2
        ((chain'.log (.feeding v)).emit (.object v) .host).2 :=
      (h.log (.feeding v) rfl).imp fun _ _ h => h.emit _ _ _ _
    have hpushed := hpush row row' ((chain.log (.feeding v)).emit (.object v) .host).2
      ((chain'.log (.feeding v)).emit (.object v) .host).2
      ((chain.log (.feeding v)).emit (.object v) .host).1
      ((chain'.log (.feeding v)).emit (.object v) .host).1 rfl hnone hoffered
    have hcalm := fun result (hok : _ = Except.ok result) => deliver_calm (m + n) row
      ((chain.log (.feeding v)).emit (.object v) .host).2
      ((chain.log (.feeding v)).emit (.object v) .host).1 result hnone hok
    refine hpushed.andThen (feedObjects_grown v values row chain hgo)
      (feedObjects_grown v values row' chain' hgo') (fun p hp => ?_) fun hsame hlevel => ?_
    · simp only [feedObjects, hgo, Bool.false_eq_true, if_false, hp]
    · simp only [feedObjects, hgo, hgo', Bool.false_eq_true, if_false, hsame]
      generalize deliver (m + n) row _ _ = pushed at hlevel hcalm ⊢
      generalize deliver (m' + n) row' _ _ = pushed' at hlevel ⊢
      cases hout : pushed.outcome with
      | error p => exact .panicked p rfl
      | ok result => exact ih (hcalm result hout) hlevel

/-! ## Ending -/

section

variable {rest : Stages (m + n)} {rest' : Stages (m' + n)}

/-- What a command does in the wave once its pipe is drained. -/
def endDrained (push : Push n) (stage : Stage) (rest : Stages n) (chain : Chain) : Settled n :=
  let once := processOnce push stage rest chain
  match once.outcome with
  | .error _ => once
  | .ok .ok => finishStage push once.stage once.rest once.chain
  | .ok _ =>
    if once.chain.isHalted then once
    else finishStage push once.stage once.rest once.chain

/-- What processing once did stays in the journal. -/
theorem endDrained_grown (stage : Stage) (rest : Stages n) (chain : Chain) :
    (processOnce (deliver n) stage rest chain).chain.journal
      <+: (endDrained (deliver n) stage rest chain).chain.journal := by
  unfold endDrained
  generalize processOnce (deliver n) stage rest chain = once
  have hfinished := (finishStage_covers (deliver_covers n) once.stage once.rest once.chain).grown
  dsimp only
  split
  · exact List.prefix_rfl
  · exact hfinished
  · split
    · exact List.prefix_rfl
    · exact hfinished

/-- What draining the pipe of a command did stays in the journal. -/
theorem completeStage_grown (stage : Stage) (rest : Stages n) (chain : Chain) :
    (drain (deliver n) stage rest chain).chain.journal
      <+: (completeStage (deliver n) stage rest chain).chain.journal := by
  unfold completeStage
  generalize drain (deliver n) stage rest chain = drained
  have hended := (processOnce_covers (deliver_covers n) drained.stage drained.rest
    drained.chain).grown.trans (endDrained_grown drained.stage drained.rest drained.chain)
  dsimp only
  split
  · exact List.prefix_rfl
  · split
    · exact List.prefix_rfl
    · exact hended

/-- Draining a pipe goes on alike once its record was processed. -/
theorem Settled.Followed.drained {settled : Settled (m + n)} {settled' : Settled (m' + n)}
    (h : settled.Followed pair settled') : settled.drained.Followed pair settled'.drained := by
  have hgrown {k : Nat} (s : Settled k) : s.chain.journal <+: s.drained.chain.journal := by
    unfold Settled.drained
    split
    · split <;> exact List.prefix_rfl
    · exact List.prefix_rfl
  refine h.andThen (hgrown settled) (hgrown settled') (fun p hp => ?_) fun hsame hlevel => ?_
  · simp only [Settled.drained, hp]
  · obtain ⟨hstage, hfront, hrest⟩ := hlevel
    obtain ⟨taken, passed, habreast⟩ := hrest.abreast
    unfold Settled.drained
    simp only [hsame, habreast.running, habreast.running', Bool.false_eq_true, if_false]
    split
    · exact .level rfl ⟨by rw [hstage], hfront, hrest⟩
    · exact .level hsame ⟨hstage, hfront, hrest⟩

/-- A call to end has the same effect on the stage in both runs. -/
theorem Settled.Followed.finished {settled : Settled (m + n)} {settled' : Settled (m' + n)}
    (h : settled.Followed pair settled') : settled.finished.Followed pair settled'.finished := by
  have hgrown {k : Nat} (s : Settled k) : s.chain.journal <+: s.finished.chain.journal := by
    unfold Settled.finished
    split <;> exact List.prefix_rfl
  refine h.andThen (hgrown settled) (hgrown settled') (fun p hp => ?_) fun hsame hlevel => ?_
  · simp only [Settled.finished, hp]
  · obtain ⟨hstage, hfront, hrest⟩ := hlevel
    unfold Settled.finished
    simp only [hsame]
    split
    · exact .level rfl ⟨by rw [hstage], hfront, hrest⟩
    · exact .level hsame ⟨hstage, hfront, hrest⟩

variable (stage : Stage) (hfront : pair.Front stage.position) (hpush : pair.Carries n)
  (hnone : chain.pendingStop = none) (h : pair.Level rest rest' chain chain')
include hfront hpush hnone h

theorem drain_followed : (drain (deliver (m + n)) stage rest chain).Followed pair
    (drain (deliver (m' + n)) stage rest' chain') := by
  obtain ⟨taken, passed, habreast⟩ := h.abreast
  unfold drain
  rw [habreast.running, habreast.running']
  generalize stage.input.take false = read
  obtain ⟨read, pipe⟩ := read
  cases read with
  | record r =>
    exact (processRecord_followed { stage with input := pipe } hfront hpush hnone h
      (rfl : r.object? = r.object?)).drained
  | empty => exact .level rfl ⟨rfl, hfront, h⟩
  | endOfInput => exact .level rfl ⟨rfl, hfront, h⟩

theorem processOnce_followed : (processOnce (deliver (m + n)) stage rest chain).Followed pair
    (processOnce (deliver (m' + n)) stage rest' chain') := by
  unfold processOnce
  split
  · exact invoke_followed stage hfront (.inr hpush) hnone h none none
  · exact .level rfl ⟨rfl, hfront, h⟩

theorem finishStage_followed : (finishStage (deliver (m + n)) stage rest chain).Followed pair
    (finishStage (deliver (m' + n)) stage rest' chain') := by
  unfold finishStage
  split
  · exact (invoke_followed stage hfront (.inr hpush) hnone h none none).finished
  · exact .level rfl ⟨rfl, hfront, h⟩

theorem endDrained_followed : (endDrained (deliver (m + n)) stage rest chain).Followed pair
    (endDrained (deliver (m' + n)) stage rest' chain') := by
  have hcalm := fun result (hok : _ = Except.ok result) => processOnce_calm stage rest hnone hok
  refine (processOnce_followed stage hfront hpush hnone h).andThen (endDrained_grown stage rest chain)
    (endDrained_grown stage rest' chain') (fun p hp => ?_) fun hsame hlevel => ?_
  · simp only [endDrained, hp]
  · obtain ⟨hstage, hplace, hrest⟩ := hlevel
    obtain ⟨taken, passed, habreast⟩ := hrest.abreast
    unfold endDrained
    simp only [hsame, hstage, habreast.running, habreast.running', Bool.false_eq_true, if_false]
    generalize processOnce (deliver (m + n)) stage rest chain = once at hcalm hplace hrest ⊢
    generalize processOnce (deliver (m' + n)) stage rest' chain' = once' at hrest ⊢
    cases hout : once.outcome with
    | error p => exact .panicked p hout
    | ok result =>
      have hfinished := finishStage_followed once.stage hplace hpush (hcalm result hout) hrest
      cases result <;> exact hfinished

theorem completeStage_followed : (completeStage (deliver (m + n)) stage rest chain).Followed pair
    (completeStage (deliver (m' + n)) stage rest' chain') := by
  have hcalm := fun result (hok : _ = Except.ok result) => drain_calm stage rest hnone hok
  refine (drain_followed stage hfront hpush hnone h).andThen (completeStage_grown stage rest chain)
    (completeStage_grown stage rest' chain') (fun p hp => ?_) fun hsame hlevel => ?_
  · simp only [completeStage, hp]
  · obtain ⟨hstage, hplace, hrest⟩ := hlevel
    obtain ⟨taken, passed, habreast⟩ := hrest.abreast
    unfold completeStage
    simp only [hsame, hstage, habreast.running, habreast.running', Bool.false_eq_true, if_false]
    generalize drain (deliver (m + n)) stage rest chain = drained
      at hcalm hstage hplace hrest habreast ⊢
    generalize drain (deliver (m' + n)) stage rest' chain' = drained' at hstage hrest habreast ⊢
    cases hout : drained.outcome with
    | error p => exact .panicked p hout
    | ok result =>
      exact endDrained_followed drained.stage hplace hpush (hcalm result hout) hrest

end

/-- What one command did in the wave stays in the journal while the others have their turns. -/
theorem endWave_grown (stage : Stage) (rest : Stages n) (chain : Chain)
    (hhalt : chain.isHalted = false) (hcut : chain.isCut stage.position = false) :
    (completeStage (deliver n) stage rest chain).chain.journal
      <+: (endWave (n + 1) (.cons stage rest) chain).chain.journal := by
  simp only [endWave, hhalt, hcut, Bool.false_eq_true, if_false]
  generalize completeStage (deliver n) stage rest chain = ended
  split
  · exact List.prefix_rfl
  · exact (endWave_covers n ended.rest.closeFirst ended.chain).grown

/-- The commands in common end alike, one after the other, and then it is the turn of those behind. -/
theorem endWave_followed {final : List Event → List Event → Prop} (hpush : pair.Carries 0)
    (hbehind : ∀ (back : Stages m) (back' : Stages m') (chain chain' : Chain),
      chain.pendingStop = none → pair.Level (n := 0) back back' chain chain' →
      pair.Followed (endWave m back.closeFirst chain).outcome
        (endWave m' back'.closeFirst chain').outcome (endWave m back.closeFirst chain).chain
        (endWave m' back'.closeFirst chain').chain
        (final (endWave m back.closeFirst chain).chain.journal
          (endWave m' back'.closeFirst chain').chain.journal))
    (n : Nat) {row : Stages (m + n)} {row' : Stages (m' + n)} (hnone : chain.pendingStop = none)
    (h : pair.Level row row' chain chain') :
    pair.Followed (endWave (m + n) row.closeFirst chain).outcome
      (endWave (m' + n) row'.closeFirst chain').outcome
      (endWave (m + n) row.closeFirst chain).chain (endWave (m' + n) row'.closeFirst chain').chain
      (final (endWave (m + n) row.closeFirst chain).chain.journal
        (endWave (m' + n) row'.closeFirst chain').chain.journal) := by
  induction n generalizing chain chain' with
  | zero => exact hbehind row row' chain chain' hnone h
  | succ n ih =>
    obtain ⟨stage, rest, rest', rfl, rfl, hfront, hrest⟩ := h.exists_of_succ
    obtain ⟨taken, passed, habreast⟩ := hrest.abreast
    -- The pipe of the first stage is closed in both runs, which leaves the rows level.
    change pair.Followed
      (endWave (m + n + 1) (.cons { stage with input := stage.input.close } rest) chain).outcome
      (endWave (m' + n + 1) (.cons { stage with input := stage.input.close } rest') chain').outcome
      (endWave (m + n + 1) (.cons { stage with input := stage.input.close } rest) chain).chain
      (endWave (m' + n + 1) (.cons { stage with input := stage.input.close } rest') chain').chain
      (final
        (endWave (m + n + 1) (.cons { stage with input := stage.input.close } rest) chain).chain.journal
        (endWave (m' + n + 1) (.cons { stage with input := stage.input.close } rest')
          chain').chain.journal)
    generalize hclosed : { stage with input := stage.input.close } = closed
    have hfront : pair.Front closed.position := by rwa [← hclosed]
    have hcalm := fun result (hok : _ = Except.ok result) => completeStage_calm closed rest hnone hok
    refine (completeStage_followed closed hfront (hpush.deliver n) hnone hrest).andThen
      (endWave_grown closed rest chain habreast.running (habreast.even.isCut _))
      (endWave_grown closed rest' chain' habreast.running' (habreast.even'.isCut _)) (fun p hp => ?_)
      fun hsame hlevel => ?_
    · simp only [endWave, habreast.running, habreast.even.isCut, Bool.false_eq_true, if_false, hp]
    · obtain ⟨hstage, hplace, hlater⟩ := hlevel
      simp only [endWave, habreast.running, habreast.running', habreast.even.isCut,
        habreast.even'.isCut, Bool.false_eq_true, if_false, hsame]
      generalize completeStage (deliver (m + n)) closed rest chain = ended at hcalm hlater ⊢
      generalize completeStage (deliver (m' + n)) closed rest' chain' = ended' at hlater ⊢
      cases hout : ended.outcome with
      | error p => exact .panicked p rfl
      | ok result => exact ih (hcalm result hout) hlater

/-! ## Whole courses -/

namespace Pipeline

/-- What a run does once its commands have begun, where its objects are fed even if no command takes
them. -/
def proceed (values : List Value) (stages : Stages n) (chain : Chain) : Ran n :=
  let fed := feedObjects values stages chain
  match fed.outcome with
  | .error _ => fed
  | .ok () => endWave n fed.stages.closeFirst fed.chain

/-- The steps of a run whose objects are fed even if no command takes them. -/
def rehearse (values : List Value) (stages : Stages n) (chain : Chain) : Ran n :=
  let bound := bindAll true stages chain
  let begun := beginAll n bound.1 bound.2
  match begun.outcome with
  | .error _ => begun
  | .ok () => proceed values begun.stages begun.chain

/-- What a run does once its commands have begun adds to what feeding the objects has put into the
journal. -/
theorem proceed_grown (values : List Value) (stages : Stages n) (chain : Chain) :
    (feedObjects values stages chain).chain.journal
      <+: (proceed values stages chain).chain.journal := by
  unfold proceed
  generalize feedObjects values stages chain = fed
  dsimp only
  split
  · exact List.prefix_rfl
  · exact (endWave_covers n fed.stages.closeFirst fed.chain).grown

/-- What a run does adds to what the begin of its commands has put into the journal. -/
theorem rehearse_grown (values : List Value) (stages : Stages n) (chain : Chain) :
    (beginAll n (bindAll true stages chain).1 (bindAll true stages chain).2).chain.journal
      <+: (rehearse values stages chain).chain.journal := by
  unfold rehearse
  dsimp only
  generalize beginAll n (bindAll true stages chain).1 (bindAll true stages chain).2 = begun
  split
  · exact List.prefix_rfl
  · exact (feedObjects_covers values begun.stages begun.chain).grown.trans (proceed_grown ..)

/-- Where there are commands the steps of a run are these. -/
theorem steps_eq_rehearse (hn : n ≠ 0) (values : List Value) (stages : Stages n) (chain : Chain) :
    (steps (some values) stages chain).outcome = (rehearse values stages chain).outcome
      ∧ (steps (some values) stages chain).chain = (rehearse values stages chain).chain := by
  unfold steps rehearse proceed
  simp only [Option.isSome_some]
  generalize beginAll n (bindAll true stages chain).1 (bindAll true stages chain).2 = begun
  cases begun.outcome with
  | error p => exact ⟨rfl, rfl⟩
  | ok _ =>
    obtain ⟨outcome, stages, chain⟩ := begun
    cases stages with
    | nil => exact absurd rfl hn
    | cons stage rest =>
    by_cases hhalt : chain.isHalted = true
    · -- A chain that is halted is not fed, and then its pipes do not matter any more.
      cases values <;> simp [feedHead_some, feedObjects, endWave, Stages.closeFirst, hhalt]
    · simp only [feedHead_some, hhalt, Nat.add_one_ne_zero, beq_iff_eq, Bool.false_or, if_false,
        Ran.closeFirst]
      generalize feedObjects values (.cons stage rest) chain = fed
      obtain ⟨outcome, stages, chain⟩ := fed
      cases outcome <;> exact ⟨rfl, rfl⟩

end Pipeline

/-- What is assumed of the stages behind: that they are bound, begin, take objects and end in a way
that keeps the runs abreast, from one relation to the next. -/
structure Pairing.Conducts (pair : Pairing m m')
    (unbound unbegun : List (Option Value) → List Value → Stages m → Stages m' → Prop)
    (final : List Event → List Event → Prop) : Prop where
  short : ∀ q, pair.Front q → q < pair.position
  binds : ∀ (back : Stages m) (back' : Stages m') chain chain',
    (pair.relating unbound).Level (n := 0) back back' chain chain' →
    pair.Apart (bindAll true back chain).2 (bindAll true back' chain').2
      ∨ (pair.relating unbegun).Level (n := 0) (bindAll true back chain).1
        (bindAll true back' chain').1 (bindAll true back chain).2 (bindAll true back' chain').2
  begins : ∀ (back : Stages m) (back' : Stages m') (chain chain' : Chain),
    chain.pendingStop = none → (pair.relating unbegun).Level (n := 0) back back' chain chain' →
    Ran.Followed (n := 0) pair (beginAll m back chain) (beginAll m' back' chain')
  carries : pair.Carries 0
  ends : ∀ (back : Stages m) (back' : Stages m') (chain chain' : Chain),
    chain.pendingStop = none → pair.Level (n := 0) back back' chain chain' →
    pair.Followed (endWave m back.closeFirst chain).outcome
      (endWave m' back'.closeFirst chain').outcome (endWave m back.closeFirst chain).chain
      (endWave m' back'.closeFirst chain').chain
      (final (endWave m back.closeFirst chain).chain.journal
        (endWave m' back'.closeFirst chain').chain.journal)

namespace Pairing.Conducts

variable {unbound unbegun : List (Option Value) → List Value → Stages m → Stages m' → Prop}
  {final : List Event → List Event → Prop} {row : Stages (m + n)} {row' : Stages (m' + n)}

/-- From the begin of the commands on, two runs that are level come to the same, or what is asked of
the journals at the end holds. -/
theorem proceed_followed (h : pair.Conducts unbound unbegun final) (values : List Value)
    (hnone : chain.pendingStop = none) (hlevel : pair.Level row row' chain chain') :
    pair.Followed (Pipeline.proceed values row chain).outcome
      (Pipeline.proceed values row' chain').outcome (Pipeline.proceed values row chain).chain
      (Pipeline.proceed values row' chain').chain
      (final (Pipeline.proceed values row chain).chain.journal
        (Pipeline.proceed values row' chain').chain.journal) := by
  have hcalm := feedObjects_calm values row chain hnone
  refine (feedObjects_followed (h.carries.deliver n) values hnone hlevel).andThen
    (Pipeline.proceed_grown values row chain) (Pipeline.proceed_grown values row' chain')
    (fun p hp => ?_) fun hsame hfed => ?_
  · simp only [Pipeline.proceed, hp]
  · unfold Pipeline.proceed
    simp only [hsame]
    generalize feedObjects values row chain = fed at hcalm hfed ⊢
    generalize feedObjects values row' chain' = fed' at hfed ⊢
    cases hout : fed.outcome with
    | error p => exact .panicked p hout
    | ok _ => exact endWave_followed h.carries h.ends n (hcalm hout) hfed

/-- From the start to the end of the wave two runs go abreast, unless they come apart. -/
theorem rehearse_followed (h : pair.Conducts unbound unbegun final) (values : List Value)
    (hnone : chain.pendingStop = none) (hlevel : (pair.relating unbound).Level row row' chain chain') :
    pair.Followed (Pipeline.rehearse values row chain).outcome
      (Pipeline.rehearse values row' chain').outcome (Pipeline.rehearse values row chain).chain
      (Pipeline.rehearse values row' chain').chain
      (final (Pipeline.rehearse values row chain).chain.journal
        (Pipeline.rehearse values row' chain').chain.journal) := by
  have hgrown := Pipeline.rehearse_grown values row chain
  have hgrown' := Pipeline.rehearse_grown values row' chain'
  have hquiet := (bindAll_pendingStop true row chain).trans hnone
  rcases bindAll_followed true h.binds n hlevel with hapart | hbound
  · exact .apart (hapart.mono ((beginAll_covers _ _ _).grown.trans hgrown)
      ((beginAll_covers _ _ _).grown.trans hgrown'))
  · have hcalm := beginAll_calm (m + n) (bindAll true row chain).1 (bindAll true row chain).2 hquiet
    refine (beginAll_followed (.inl h.short) h.begins n hquiet hbound).andThen hgrown hgrown'
      (fun p hp => ?_) fun hsame hbegun => ?_
    · simp only [Pipeline.rehearse, hp]
    · unfold Pipeline.rehearse
      simp only [hsame]
      generalize beginAll (m + n) (bindAll true row chain).1 (bindAll true row chain).2 = begun
        at hcalm hbegun ⊢
      generalize beginAll (m' + n) (bindAll true row' chain').1 (bindAll true row' chain').2 = begun'
        at hbegun ⊢
      cases hout : begun.outcome with
      | error p => exact .panicked p hout
      | ok _ => exact h.proceed_followed values (hcalm hout) hbegun

end Pairing.Conducts

end CommandChain
