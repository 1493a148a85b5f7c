import CommandChain.Proofs.Conduct.Calm
import CommandChain.Proofs.Journal.Law
/-!
# Stages that wait for objects

While objects flow, the stages behind a command wait: their pipes are open and empty, their states
are those that the journal tells, and none of them has come to its end. `Setting.Steady` says this
of a row of stages together with a chain whose journal is legal and has grown only by what happens
in that row.
-/

namespace CommandChain

/-! ## What happens in a row -/

/-- A step that may happen while objects flow through the commands from a position on: no command
before them is concerned, of the lifecycle calls there is only the processing of objects, and the
host feeds nothing. -/
def Event.Within (position : Nat) : Event → Prop
  | called id phase _ _ | returned id phase _ | settled id phase _ =>
    phase = .process ∧ position ≤ id.number
  | failed id => position ≤ id.number
  | feeding _ | stopping _ | disposing _ => False
  | _ => True

theorem Event.Within.mono {p q : Nat} {e : Event} (h : e.Within q) (hle : p ≤ q) : e.Within p := by
  cases e <;> simp only [Within] at h ⊢
  case failed => omega
  all_goals exact ⟨h.1, Nat.le_trans hle h.2⟩

/-- A step that may happen while the commands from a position on are called: no command before them
is concerned, none is told to stop or disposed of, and the host feeds nothing. -/
def Event.From (position : Nat) : Event → Prop
  | called id _ _ _ | returned id _ _ | settled id _ _ | failed id => position ≤ id.number
  | feeding _ | stopping _ | disposing _ => False
  | _ => True

/-- A step that leaves the state of a command and its calls alone. -/
def Event.Spares (id : CommandId) : Event → Prop
  | called i _ _ _ | returned i _ _ | settled i _ _ | failed i => i ≠ id
  | _ => True

theorem Event.From.mono {p q : Nat} {e : Event} (h : e.From q) (hle : p ≤ q) : e.From p := by
  cases e <;> simp only [From] at h ⊢ <;> exact Nat.le_trans hle h

/-- A step that may happen while objects flow may happen while commands are called. -/
theorem Event.Within.from {position : Nat} {e : Event} (h : e.Within position) :
    e.From position := by
  cases e <;> simp only [Within, From] at h ⊢
  case failed => exact h
  all_goals exact h.2

/-- What happens from a position on leaves the commands before it alone. -/
theorem Event.From.spares {position k : Nat} {e : Event} (h : e.From position)
    (hk : k < position) : e.Spares ⟨k⟩ := by
  cases e <;> simp only [From, Spares] at h ⊢ <;> rintro rfl <;>
    exact absurd h (Nat.not_le_of_lt hk)

/-- While objects flow from a position on, the commands before it are left alone. -/
theorem Event.Within.spares {position k : Nat} {e : Event} (h : e.Within position)
    (hk : k < position) : e.Spares ⟨k⟩ :=
  h.from.spares hk

namespace Journal

variable {journal block : List Event} {id : CommandId}

/-- The state of a command that is left alone does not change. -/
theorem state_append_of_spares (h : ∀ e ∈ block, e.Spares id) :
    state (journal ++ block) id = state journal id := by
  rw [state_append]
  induction block generalizing journal with
  | nil => rfl
  | cons e block ih =>
    rw [List.forall_mem_cons] at h
    have he : (state journal id).after id e = state journal id := by
      have hspares := h.1
      unfold CommandState.after
      split
      all_goals first | rw [if_neg hspares] | rfl
    rw [List.foldl_cons, he]
    exact ih h.2

/-- The latest call of a command that is left alone stays. -/
theorem call?_append_of_spares (h : ∀ e ∈ block, e.Spares id) :
    call? (journal ++ block) id = call? journal id := by
  rw [call?_append]
  induction block generalizing journal with
  | nil => rfl
  | cons e block ih =>
    rw [List.forall_mem_cons] at h
    have he : Event.callStep id (call? journal id) e = call? journal id := by
      have hspares := h.1
      cases e <;> first | rfl | exact if_neg hspares
    rw [List.foldl_cons, he]
    exact ih h.2

/-- No call comes to a command that is left alone. -/
theorem Clear.append_of_spares {phase : Phase} (h : Clear journal id phase)
    (hblock : ∀ e ∈ block, e.Spares id) : Clear (journal ++ block) id phase := by
  refine (clear_append ..).mpr ⟨h, fun e he => ?_⟩
  have hspares := hblock e he
  cases e <;> simp only [Event.Spares] at hspares <;> first | rfl | skip
  all_goals
    rw [Event.isOf, beq_eq_false_iff_ne.mpr hspares, Bool.false_and]

/-- While objects flow, no command begins or comes to its end. -/
theorem Clear.append_of_within {k : Nat} {phase : Phase} (h : Clear journal id phase)
    (hphase : phase ≠ .process) (hblock : ∀ e ∈ block, e.Within k) :
    Clear (journal ++ block) id phase := by
  refine (clear_append ..).mpr ⟨h, fun e he => ?_⟩
  have hwithin := hblock e he
  cases e <;> simp only [Event.Within] at hwithin <;> first | rfl | skip
  all_goals
    rw [Event.isOf, hwithin.1, beq_eq_false_iff_ne.mpr hphase.symm, Bool.and_false]

end Journal

/-- The steps that settle a call leave the other commands alone. -/
theorem Settlement.spares {set : Setting} {id other : CommandId} {phase : Phase}
    {result : CallResult} {completed : Bool} {block : List Event}
    (h : Settlement set id phase result completed block) (hne : id ≠ other) :
    ∀ e ∈ block, e.Spares other := by
  cases h <;> simp [Event.Spares, hne]

/-- The settling of a call happens from its command on. -/
theorem Settlement.from_position {set : Setting} {id : CommandId} {phase : Phase}
    {result : CallResult} {completed : Bool} {block : List Event}
    (h : Settlement set id phase result completed block) : ∀ e ∈ block, e.From id.number := by
  cases h <;> simp [Event.From]

/-- A call is settled last. -/
theorem Settlement.dropLast_append {set : Setting} {id : CommandId} {phase : Phase}
    {result : CallResult} {completed : Bool} {block : List Event}
    (h : Settlement set id phase result completed block) :
    block = block.dropLast ++ [.settled id phase completed] := by
  cases h <;> rfl

/-- The settling of a call is of that call only. -/
theorem Settlement.phase_eq {set : Setting} {id other : CommandId} {phase p : Phase}
    {result : CallResult} {completed : Bool} {block : List Event}
    (h : Settlement set id phase result completed block) :
    ∀ e ∈ block, e.isOf other p = true → p = phase ∧ other = id := by
  cases h <;> simp +contextual [Event.isOf]

/-! ## Stages at their places -/

/-- A stage holds the command of its position and is in the state that the journal tells. -/
structure Stage.Placed (set : Setting) (journal : List Event) (k : Nat) (stage : Stage) : Prop where
  position : stage.position = k
  command : set.commands[k]? = some stage.command
  state : stage.state = Journal.state journal ⟨k⟩

/-- The pipe of a stage is empty, its command is bound, and its end has not come. -/
structure Stage.Idle (set : Setting) (journal : List Event) (k : Nat) (stage : Stage) : Prop
    extends Stage.Placed set journal k stage where
  slot : stage.input.slot = none
  clear : Journal.Clear journal ⟨k⟩ .finish
  bound : stage.Bound set k

/-- A stage waits for objects: it is idle, and its pipe is open. -/
structure Stage.Waits (set : Setting) (journal : List Event) (k : Nat) (stage : Stage) : Prop
    extends Stage.Idle set journal k stage where
  opened : stage.input.closed = false

/-- A property of a stage and its position holds all along a row. -/
def Stages.Holds (p : Nat → Stage → Prop) : Nat → {n : Nat} → Stages n → Prop
  | _, _, nil => True
  | position, _, cons stage rest => p position stage ∧ rest.Holds p (position + 1)

/-- A property that implies another at every place of a row may be replaced by it all along the row.
-/
theorem Stages.Holds.mono {p q : Nat → Stage → Prop} {n : Nat} {stages : Stages n} {position : Nat}
    (h : stages.Holds p position)
    (himp : ∀ i stage, position ≤ i → i < position + n → p i stage → q i stage) :
    stages.Holds q position := by
  induction stages generalizing position with
  | nil => trivial
  | cons stage rest ih =>
    refine ⟨himp position stage (Nat.le_refl _) (by omega) h.1, ih h.2 fun i stage hi hlt => ?_⟩
    exact himp i stage (by omega) (by omega)

namespace Stage

variable {set : Setting} {journal block : List Event} {k : Nat} {stage : Stage}

/-- A stage has the identity of its place. -/
theorem Placed.id_eq (h : stage.Placed set journal k) : stage.id = ⟨k⟩ := by
  rw [id, h.position]

/-- A stage has the source of the command at its place. -/
theorem Placed.source_eq (h : stage.Placed set journal k) : stage.source = set.source ⟨k⟩ := by
  rw [source, h.id_eq, Setting.source, h.command]
  rfl

/-- A stage whose command is left alone stays in its place. -/
theorem Placed.append (h : stage.Placed set journal k) (hblock : ∀ e ∈ block, e.Spares ⟨k⟩) :
    stage.Placed set (journal ++ block) k :=
  ⟨h.position, h.command, by rw [h.state, Journal.state_append_of_spares hblock]⟩

/-- A stage stays idle by steps that leave its command alone. -/
theorem Idle.append (h : stage.Idle set journal k) (hblock : ∀ e ∈ block, e.Spares ⟨k⟩) :
    stage.Idle set (journal ++ block) k :=
  ⟨h.toPlaced.append hblock, h.slot, h.clear.append_of_spares hblock, h.bound⟩

/-- A stage whose command is left alone goes on waiting. -/
theorem Waits.append (h : stage.Waits set journal k) (hblock : ∀ e ∈ block, e.Spares ⟨k⟩) :
    stage.Waits set (journal ++ block) k :=
  ⟨h.toIdle.append hblock, h.opened⟩

end Stage

/-- Objects that flow go on flowing. -/
theorem Setting.Flowing.append {set : Setting} {journal : List Event} (h : set.Flowing journal)
    (block : List Event) : set.Flowing (journal ++ block) := by
  intro k hk hcreated
  obtain ⟨j, hj, hmem⟩ := h k hk (Journal.created_of_append hcreated)
  exact ⟨j, hj, List.mem_append_left _ hmem⟩

/-- The stages from a position on wait for objects, and since a moment given by its journal nothing
has happened but in them. -/
structure Setting.Steady (set : Setting) (position : Nat) (journal : List Event) {n : Nat}
    (stages : Stages n) (chain : Chain) : Prop where
  tracks : set.Tracks chain
  legal : Legal set [] chain.journal
  grown : ∃ block, chain.journal = journal ++ block ∧ ∀ e ∈ block, e.Within position
  count : position + n = set.commands.length
  waits : stages.Holds (Stage.Waits set chain.journal) position

namespace Setting.Steady

variable {set : Setting} {position n : Nat} {journal block : List Event} {stages stages' : Stages n}
  {chain chain' : Chain}

/-- A row of stages waits at the moment from which its course is counted. -/
theorem refl (h : set.Steady position journal stages chain) :
    set.Steady position chain.journal stages chain :=
  ⟨h.tracks, h.legal, ⟨[], (List.append_nil _).symm, by simp⟩, h.count, h.waits⟩

/-- Steps that concern no command leave a row of stages waiting. -/
theorem aside (h : set.Steady position journal stages chain)
    (hj : chain'.journal = chain.journal ++ block)
    (hblock : Legal set chain.journal block) (hwithin : ∀ e ∈ block, ∀ p, e.Within p)
    (htracks : set.Tracks chain') : set.Steady position journal stages chain' := by
  refine ⟨htracks, ?_, ?_, h.count, ?_⟩
  · rw [hj]
    exact h.legal.append hblock
  · obtain ⟨earlier, hearlier, hall⟩ := h.grown
    refine ⟨earlier ++ block, by rw [hj, hearlier, List.append_assoc], fun e he => ?_⟩
    exact (List.mem_append.mp he).elim (hall e) fun he => hwithin e he position
  · rw [hj]
    exact h.waits.mono fun i stage _ hi hw => hw.append fun e he => (hwithin e he _).spares hi

/-- An operation that adds no step leaves a row of stages waiting. -/
theorem quiet (h : set.Steady position journal stages chain) (hj : chain'.journal = chain.journal)
    (htracks : set.Tracks chain') : set.Steady position journal stages chain' :=
  have hgrown : chain'.journal = chain.journal ++ [] := by rw [hj, List.append_nil]
  h.aside hgrown (.nil _) (by simp) htracks

/-- What happens in a row has happened in it since an earlier moment. -/
theorem since {earlier : List Event} (h : set.Steady position journal stages chain)
    (hj : journal = earlier ++ block) (hwithin : ∀ e ∈ block, e.Within position) :
    set.Steady position earlier stages chain := by
  obtain ⟨later, hlater, hall⟩ := h.grown
  refine ⟨h.tracks, h.legal, ⟨block ++ later, ?_, fun e he => ?_⟩, h.count, h.waits⟩
  · rw [hlater, hj, List.append_assoc]
  · exact (List.mem_append.mp he).elim (hwithin e) (hall e)

/-- What happens in a row adds up. -/
theorem trans (h : set.Steady position journal stages chain)
    (h' : set.Steady position chain.journal stages' chain') :
    set.Steady position journal stages' chain' := by
  obtain ⟨first, hfirst, hall⟩ := h.grown
  obtain ⟨second, hsecond, hall'⟩ := h'.grown
  refine ⟨h'.tracks, h'.legal, ⟨first ++ second, ?_, fun e he => ?_⟩, h'.count, h'.waits⟩
  · rw [hsecond, hfirst, List.append_assoc]
  · exact (List.mem_append.mp he).elim (hall e) (hall' e)

end Setting.Steady

end CommandChain
