import CommandChain.Proofs.Pipes.Safe
import CommandChain.Proofs.Selecting.Course
/-!
# The commands behind

The commands behind a position have no part in what the command there is called with. That follows from
comparing a run with itself: from a position on, deliveries and beginnings leave the chain as it was in
all that matters to the commands in front, unless the run is disturbed or unwound.
-/

namespace CommandChain

variable {n k : Nat} {base chain : Chain} {taken : List (Option Value)}

/-! ## Rows -/

namespace Stages

/-- The stages of a row stand behind a position, and their pipes are ready. -/
structure Trails (k : Nat) (row : Stages n) : Prop where
  behind : ∀ stage ∈ row.toList, k < stage.position
  ready : ∀ stage ∈ row.toList, stage.input.Ready

/-- Stages of the same commands stand at the same places. -/
theorem Trails.of_receptive {row row' : Stages n} (h : row.Trails k)
    (h' : row'.Receptive (row.toList.map Stage.source)) : row'.Trails k := by
  have hplaces : row'.toList.map Stage.position = row.toList.map Stage.position := by
    have hsources := congrArg (List.map (·.id.number)) h'.sources
    rwa [List.map_map, List.map_map] at hsources
  refine ⟨fun stage hstage => ?_, h'.pipes⟩
  have hposition : stage.position ∈ row.toList.map Stage.position :=
    hplaces ▸ List.mem_map_of_mem hstage
  obtain ⟨other, hother, hsame⟩ := List.mem_map.mp hposition
  exact hsame ▸ h.behind other hother

/-- The pipes of a row that stands behind a position are ready. -/
theorem Trails.receptive {row : Stages n} (h : row.Trails k) :
    row.Receptive (row.toList.map Stage.source) :=
  ⟨rfl, h.ready⟩

theorem toList_append {m : Nat} (front : Stages n) (back : Stages m) :
    (front.append back).toList = front.toList ++ back.toList := by
  induction front with
  | nil => rfl
  | cons stage rest ih => exact congrArg (stage :: ·) ih

/-- A row is itself with nothing behind it. -/
theorem exists_append_nil (row : Stages (0 + n)) : ∃ front : Stages n, row = front.append nil := by
  induction n with
  | zero =>
    cases row
    exact ⟨nil, rfl⟩
  | succ n ih =>
    obtain _ | ⟨stage, rest⟩ := row
    obtain ⟨front, rfl⟩ := ih rest
    exact ⟨cons stage front, rfl⟩

end Stages

/-! ## A run compared with itself -/

/-- The chain is as another was, and this is what the command at a position was called with. -/
structure Chain.Spares (base : Chain) (k : Nat) (taken : List (Option Value)) (chain : Chain) :
    Prop where
  even : base.Even chain
  calm : chain.pendingStop = none
  processed : Journal.processed chain.journal k = taken

namespace Chain.Spares

/-- A chain that spares a position runs if it did at the start. -/
theorem running (h : base.Spares k taken chain) (hrunning : base.isHalted = false) :
    chain.isHalted = false :=
  h.even.isHalted.trans hrunning

theorem log (h : base.Spares k taken chain) (e : Event) (he : e.taken? k = none) :
    base.Spares k taken (chain.log e) := by
  refine ⟨h.even.log e, h.calm, ?_⟩
  rw [chain.journal_log, Journal.processed_append, h.processed]
  simp [Journal.processed, he]

theorem emit (h : base.Spares k taken chain) (payload : Payload) (source : RecordSource) :
    base.Spares k taken (chain.emit payload source).2 := by
  refine ⟨h.even.emit payload source, h.calm, ?_⟩
  rw [chain.journal_emit, Journal.processed_append, h.processed]
  simp [Journal.processed, Event.taken?]

/-- A call may write. -/
theorem isStopping (h : base.Spares k taken chain) (hrunning : base.isHalted = false) (call : Call) :
    call.isStopping chain = false := by
  rw [Call.isStopping, h.running hrunning, h.even.isCut, Chain.hasPendingStop, h.calm]
  rfl

end Chain.Spares

/-- The comparison of a run with itself, from the stages behind a position on. -/
def Pairing.itself (base : Chain) (hrunning : base.isHalted = false) (k : Nat)
    (taken : List (Option Value)) : Pairing 0 0 where
  base := base
  running := hrunning
  position := k
  Front q := k < q
  front_ne _ hlt := Nat.ne_of_gt hlt
  Enough _ _ := False
  enough_mono h _ _ := h
  Behind called _ _ _ := called = taken

section

variable (hrunning : base.isHalted = false)

/-- Delivered to the host, an object is out of the way of every command. -/
theorem Pairing.itself_carries : (Pairing.itself base hrunning k taken).Carries 0 := by
  rintro row row' chain chain' r r' - - ⟨front, back, back', called, passed, hfront, rfl, rfl, hcalled,
    habreast⟩
  cases front
  cases back
  cases back'
  have hdelivered : Journal.processed (chain.deliverToHost r).journal k = called := by
    rw [chain.journal_deliverToHost, Journal.processed_append]
    exact (List.append_nil _).trans habreast.processed
  exact .level rfl ⟨.nil, .nil, .nil, called, Journal.arrivals (chain'.deliverToHost r').journal, hfront,
    rfl, rfl, hcalled, habreast.even.deliverToHost r, habreast.even'.deliverToHost r', habreast.pending,
    hdelivered, rfl⟩

/-- A row behind the position is level with itself. -/
theorem Chain.Spares.level (h : base.Spares k taken chain) {row : Stages (0 + n)}
    (hrow : row.Trails k) :
    (Pairing.itself base hrunning k taken).Level row row chain chain := by
  obtain ⟨front, rfl⟩ := row.exists_append_nil
  refine ⟨front, .nil, .nil, taken, _, fun stage hstage => hrow.behind stage ?_, rfl, rfl, rfl, h.even,
    h.even, rfl, h.processed, rfl⟩
  rw [Stages.toList_append]
  exact List.mem_append_left _ hstage

/-- What is level in a run compared with itself leaves the chain as it was. -/
theorem Pairing.Level.spares {row row' : Stages (0 + n)} {chain' : Chain}
    (h : (Pairing.itself base hrunning k taken).Level row row' chain chain')
    (hnone : chain.pendingStop = none) : base.Spares k taken chain := by
  obtain ⟨front, back, back', called, passed, -, -, -, rfl, habreast⟩ := h
  exact ⟨habreast.even, hnone, habreast.processed⟩

end

/-! ## What the commands behind do -/

/-- A delivery leaves a row behind the position where it stands, with its pipes ready. -/
theorem Stages.Trails.deliver {row : Stages n} (h : row.Trails k) (chain : Chain) (r : Record) :
    (deliver n row chain r).stages.Trails k :=
  h.of_receptive ((deliver_safe n).receptive _ row chain r h.receptive)

/-- A delivery to a row behind the position tells whether the chain goes on, and no more. -/
theorem deliver_answers {row : Stages n} (hrow : row.Trails k) (hhalt : chain.isHalted = false)
    (r : Record) {result : CallResult} (hok : (deliver n row chain r).outcome = .ok result) :
    result = .ok ∨ result = .stopped := by
  cases row with
  | nil =>
    cases hok
    exact .inl rfl
  | cons stage rest =>
    rw [deliver_of_ready hhalt (hrow.ready stage (.head _))] at hok
    cases result with
    | ok => exact .inl rfl
    | stopped => exact .inr rfl
    | fault f => exact absurd hok (processRecord_ne_fault _ _ _ _ _ f)

section

variable (hrunning : base.isHalted = false) {row : Stages (0 + n)} (hrow : row.Trails k)
include hrunning hrow

/-- A push into a row behind the position leaves the chain as it was, unless the run is disturbed or
unwound. -/
theorem deliver_spares (h : base.Spares k taken chain) (r : Record) :
    Journal.Disturbed k (deliver (0 + n) row chain r).chain.journal
      ∨ (∃ p, (deliver (0 + n) row chain r).outcome = .error p)
      ∨ ((deliver (0 + n) row chain r).outcome = .ok .ok
          ∨ (deliver (0 + n) row chain r).outcome = .ok .stopped)
        ∧ base.Spares k taken (deliver (0 + n) row chain r).chain := by
  have hcalm := fun result => deliver_calm (0 + n) row chain r result h.calm
  rcases (Pairing.itself_carries hrunning).deliver n row row chain chain r r rfl h.calm
    (h.level hrunning hrow) with hapart | ⟨p, hpanic⟩ | ⟨-, hlevel⟩
  · exact .inl (hapart.resolve_right id)
  · exact .inr (.inl ⟨p, hpanic⟩)
  · cases hout : (deliver (0 + n) row chain r).outcome with
    | error p => exact .inr (.inl ⟨p, rfl⟩)
    | ok result =>
      exact .inr (.inr ⟨(deliver_answers hrow (h.running hrunning) r hout).imp (congrArg _) (congrArg _),
        hlevel.spares hrunning (hcalm _ hout)⟩)

/-- A write of the command at the position to the row behind it completes, and leaves the chain as it
was, unless the run is disturbed or unwound. -/
theorem serve_write_spares (h : base.Spares k taken chain) (stage : Stage) {call : Call}
    (hid : call.id = stage.id) (hplace : call.id = ⟨k⟩) (hphase : call.phase ≠ .begin) (v : Value)
    (next : CallResult → Hook stage.command.Memory) (memory : stage.command.Memory) :
    Journal.Disturbed k (serve call (deliver (0 + n)) (.write v next) memory row chain).chain.journal
      ∨ (∃ p, (serve call (deliver (0 + n)) (.write v next) memory row chain).outcome = .error p)
      ∨ ∃ (rest : Stages (0 + n)) (left : Chain), rest.Trails k ∧ base.Spares k taken left
        ∧ serve call (deliver (0 + n)) (.write v next) memory row chain
          = serve call (deliver (0 + n)) (next .ok) memory rest left := by
  have hgrown := serve_write_grown stage hid v next memory row chain
  have hwriting := h.log (.writing call.id v) rfl
  have hwrite : call.writeObject (deliver (0 + n)) v row (chain.log (.writing call.id v))
      = deliver (0 + n) row ((chain.log (.writing call.id v)).emit (.object v) call.source).2
        ((chain.log (.writing call.id v)).emit (.object v) call.source).1 := by
    unfold Call.writeObject
    rw [hwriting.isStopping hrunning, if_neg Bool.false_ne_true, if_neg (by simpa using hphase)]
  have htrails := hrow.deliver ((chain.log (.writing call.id v)).emit (.object v) call.source).2
    ((chain.log (.writing call.id v)).emit (.object v) call.source).1
  have hspares := deliver_spares hrunning hrow (hwriting.emit (.object v) call.source)
    ((chain.log (.writing call.id v)).emit (.object v) call.source).1
  simp only [serve, hwrite] at hgrown ⊢
  generalize deliver (0 + n) row ((chain.log (.writing call.id v)).emit (.object v) call.source).2
    ((chain.log (.writing call.id v)).emit (.object v) call.source).1 = pushed
    at hgrown htrails hspares ⊢
  rcases hspares with hdisturbed | ⟨p, hpanic⟩ | ⟨hok | hstopped, hleft⟩
  · exact .inl (hdisturbed.mono hgrown)
  · simp only [hpanic]
    exact .inr (.inl ⟨p, rfl⟩)
  · simp only [hok]
    exact .inr (.inr ⟨pushed.stages, _, htrails, hleft.log (.wrote call.id .ok) rfl, rfl⟩)
  · -- the answer stands in the journal, whatever the hook does with it
    simp only [hstopped]
    have hlater := (serve_covers stage call hid (deliver_covers (0 + n)) (next .stopped) memory
      pushed.stages (pushed.chain.log (.wrote call.id .stopped))).grown
    exact .inl ⟨.wrote call.id .stopped, hlater.subset (by simp), hplace⟩

/-- The commands behind the position begin without changing the chain, unless the run is disturbed or
unwound. -/
theorem beginAll_spares (h : base.Spares k taken chain) :
    Journal.Disturbed k (beginAll (0 + n) row chain).chain.journal
      ∨ (∃ p, (beginAll (0 + n) row chain).outcome = .error p)
      ∨ (beginAll (0 + n) row chain).stages.Trails k
        ∧ base.Spares k taken (beginAll (0 + n) row chain).chain := by
  have htrails : (beginAll (0 + n) row chain).stages.Trails k :=
    hrow.of_receptive (beginAll_receptive (0 + n) hrow.receptive chain)
  have hcalm := beginAll_calm (0 + n) row chain h.calm
  have hfollowed : Ran.Followed (Pairing.itself base hrunning k taken) (beginAll (0 + n) row chain)
      (beginAll (0 + n) row chain) := by
    refine beginAll_followed (.inr rfl) (fun back back' chain chain' _ hlevel => ?_) n h.calm
      (h.level hrunning hrow)
    cases back
    cases back'
    exact .level rfl hlevel
  rcases hfollowed with hapart | ⟨p, hpanic⟩ | ⟨-, hlevel⟩
  · exact .inl (hapart.resolve_right id)
  · exact .inr (.inl ⟨p, hpanic⟩)
  · cases hout : (beginAll (0 + n) row chain).outcome with
    | error p => exact .inr (.inl ⟨p, rfl⟩)
    | ok _ => exact .inr (.inr ⟨htrails, hlevel.spares hrunning (hcalm hout)⟩)

end

/-- Binding leaves the chain as it was, or halts it. -/
theorem bindAll_spares (hostInput : Bool) (row : Stages n) (chain : Chain) :
    (∃ token, .signaled token ∈ (bindAll hostInput row chain).2.journal)
      ∨ (bindAll hostInput row chain).2 = chain := by
  induction row with
  | nil => exact .inr rfl
  | cons stage rest ih =>
    unfold bindAll
    split
    · exact ih
    · exact .inl ⟨chain.stop, by simp [Stage.journal_fail]⟩

end CommandChain
