import CommandChain.Proofs.Disposal.Release
import CommandChain.Proofs.Lifecycle.Calls
/-!
# The trace of a command

The calls that a command gets up to the end of the last command are a begin, some calls to process and
an end, as far as it gets. With them the command is asked for one state after another, and each of
these it may enter from the one before. After that a command is told to stop where it is still
running, and it is disposed of.
-/

namespace CommandChain

variable {set : Setting} {journal block : List Event} {id : CommandId} {phase : Phase}

/-! ## Calls -/

/-- The calls of a command up to the end of the last command. -/
def Lived (calls : List Phase) : Prop :=
  calls = [] ∨ ∃ objects ended, ended ≤ 1
    ∧ calls = .begin :: (List.replicate objects .process ++ List.replicate ended .finish)

/-- The calls of a command in a whole run. -/
def Life (calls : List Phase) : Prop :=
  calls = [.dispose] ∨ ∃ objects ended stopped, ended ≤ 1 ∧ stopped ≤ 1
    ∧ calls = .begin :: (List.replicate objects .process ++ List.replicate ended .finish
      ++ List.replicate stopped .stop ++ [.dispose])

namespace Journal

theorem mem_received_of_called {parameters : BoundParameters} {input : Option Value}
    (h : .called id phase parameters input ∈ journal) : phase ∈ received journal id :=
  List.mem_filterMap.mpr ⟨_, h, if_pos rfl⟩

theorem called_of_mem_received (h : phase ∈ received journal id) (hstop : phase ≠ .stop)
    (hdispose : phase ≠ .dispose) :
    ∃ parameters input, .called id phase parameters input ∈ journal := by
  obtain ⟨e, he, hreceived⟩ := List.mem_filterMap.mp h
  cases e with
  | called i p parameters input =>
    obtain ⟨rfl, hp⟩ := Option.ite_none_right_eq_some.mp hreceived
    obtain rfl := Option.some.inj hp
    exact ⟨parameters, input, he⟩
  | stopping i =>
    exact absurd (Option.some.inj (Option.ite_none_right_eq_some.mp hreceived).2).symm hstop
  | disposing i =>
    exact absurd (Option.some.inj (Option.ite_none_right_eq_some.mp hreceived).2).symm hdispose
  | _ => cases hreceived

/-- A command that has not begun was not called, and one that was not called to end has not ended. -/
theorem lived_cases (h : Lived (received journal id)) :
    (¬ HasBegun journal id → received journal id = [])
      ∧ (HasBegun journal id → Clear journal id .finish → ∃ objects,
        received journal id = .begin :: List.replicate objects .process) := by
  refine ⟨fun hnot => ?_, fun hbegun hclear => ?_⟩
  · rcases h with h | ⟨objects, ended, -, h⟩
    · exact h
    · exact absurd (called_of_mem_received (h ▸ .head _) (by decide) (by decide)) hnot
  · rcases h with h | ⟨objects, ended, hended, h⟩
    · obtain ⟨parameters, input, hbegun⟩ := hbegun
      have hmem := mem_received_of_called hbegun
      rw [h] at hmem
      cases hmem
    · cases ended with
      | zero => exact ⟨objects, by rw [h, List.replicate_zero, List.append_nil]⟩
      | succ ended =>
        have hmem : .finish ∈ received journal id := by
          rw [h]
          simp
        obtain ⟨parameters, input, hcalled⟩ := called_of_mem_received hmem (by decide) (by decide)
        exact absurd (hclear _ hcalled) (by simp [Event.isOf])

end Journal

namespace Setting.Orderly

/-- Up to the end of the last command, the calls of a command are a begin, some calls to process and
an end, as far as it gets. -/
theorem lived (h : set.Orderly journal) (hrun : journal.any Event.isParting = false)
    (id : CommandId) : Lived (Journal.received journal id) := by
  induction journal using List.reverseRecOn with
  | nil => exact .inl rfl
  | append_singleton journal e ih =>
    rw [List.any_append, Bool.or_eq_false_iff] at hrun
    have ih := ih h.left hrun.1
    have hallows := h.last
    have hcases := Journal.lived_cases ih
    rw [Journal.received_append]
    cases e with
    | called i phase parameters input =>
      by_cases hid : i = id
      · subst hid
        have hreceived : Journal.received [.called i phase parameters input] i = [phase] := by
          simp [Journal.received, Event.received?]
        rw [hreceived]
        -- What the command may be called with is what its past leaves open.
        cases phase with
        | begin =>
          rw [hcases.1 hallows.2.1]
          exact .inr ⟨0, 0, Nat.zero_le 1, rfl⟩
        | process =>
          obtain ⟨objects, hobjects⟩ :=
            hcases.2 (Journal.begun_of_isRunning hallows.1) hallows.2.1
          rw [hobjects]
          exact .inr ⟨objects + 1, 0, Nat.zero_le 1, by simp [List.replicate_succ']⟩
        | finish =>
          obtain ⟨objects, hobjects⟩ :=
            hcases.2 (Journal.begun_of_isRunning hallows.1) hallows.2.1
          rw [hobjects]
          exact .inr ⟨objects, 1, Nat.le_refl 1, rfl⟩
        | _ => exact hallows.elim
      · have hnone : Journal.received [.called i phase parameters input] id = [] := by
          simp [Journal.received, Event.received?, hid]
        rwa [hnone, List.append_nil]
    | stopping i => simp [Event.isParting] at hrun
    | disposing i => simp [Event.isParting] at hrun
    | _ => exact (List.append_nil _).symm ▸ ih

/-- A command that processes is not just begun any more. -/
theorem ne_began_of_processed (h : set.Orderly journal)
    (hp : .process ∈ Journal.received journal id) : Journal.state journal id ≠ .began := by
  obtain ⟨parameters, input, hc⟩ :=
    Journal.called_of_mem_received hp (by decide) (by decide)
  obtain ⟨before, after, rfl⟩ := List.append_of_mem hc
  have hrunning := (h before _ after rfl).1
  have hprocessing : Journal.state (before ++ [.called id .process parameters input]) id
      = .processing := by
    rw [Journal.state_append, List.foldl_cons, List.foldl_nil, CommandState.after, if_pos rfl]
    generalize Journal.state before id = s at hrunning
    cases s <;> first | rfl | cases hrunning
  rw [List.append_cons]
  intro hbegan
  rcases Journal.began_of_append hbegan with hs | hs <;> rw [hprocessing] at hs <;> cases hs

/-- A command that takes no value from the objects that arrive processes once. -/
theorem processed_once (h : set.Orderly journal) (hignores : set.ignoresInput id = true) :
    (Journal.received journal id).count .process ≤ 1 := by
  induction journal using List.reverseRecOn with
  | nil => exact Nat.zero_le 1
  | append_singleton journal e ih =>
    have hallows := h.last
    rw [Journal.received_append, List.count_append]
    by_cases hp : .process ∈ Journal.received [e] id
    · obtain ⟨parameters, input, hc⟩ :=
        Journal.called_of_mem_received hp (by decide) (by decide)
      obtain rfl := List.mem_singleton.mp hc
      have hfirst : .process ∉ Journal.received journal id := fun hp =>
        h.left.ne_began_of_processed hp (hallows.2.2 hignores)
      rw [List.count_eq_zero.mpr hfirst, Nat.zero_add]
      exact Nat.le_trans List.count_le_length (List.length_filterMap_le _ _)
    · rw [List.count_eq_zero.mpr hp]
      exact ih h.left

end Setting.Orderly

/-! ## States -/

/-- The state that a step asks a command to enter. -/
def Event.request? (id : CommandId) : Event → Option CommandState
  | called i .begin _ _ => if i = id then some .began else none
  | called i .process _ _ => if i = id then some .processing else none
  | settled i .finish true => if i = id then some .ended else none
  | failed i => if i = id then some .error else none
  | stopping i => if i = id then some .stopped else none
  | disposing i => if i = id then some .disposed else none
  | _ => none

/-- The state of a command after the steps of a journal, those included that part with it. It stays
where a request may not be granted. -/
def Journal.life (journal : List Event) (id : CommandId) : CommandState :=
  journal.foldl (fun state e => (e.request? id).elim state state.becomeIfAllowed) .created

namespace Journal

/-- The states that steps ask for are granted one after the other. -/
theorem life_append (journal block : List Event) (id : CommandId) :
    life (journal ++ block) id
      = block.foldl (fun state e => (e.request? id).elim state state.becomeIfAllowed)
        (life journal id) := by
  simp [life]

/-- Until commands are parted with, this is the state that the engine keeps. -/
theorem life_eq_state (hrun : journal.any Event.isParting = false) (id : CommandId) :
    life journal id = state journal id := by
  induction journal using List.reverseRecOn with
  | nil => rfl
  | append_singleton journal e ih =>
    rw [List.any_append, Bool.or_eq_false_iff] at hrun
    rw [life_append, state_append, ih hrun.1, List.foldl_cons, List.foldl_cons, List.foldl_nil,
      List.foldl_nil]
    cases e with
    | called i phase parameters input =>
      cases phase <;> first | rfl | (simp only [CommandState.after, Event.request?]; split <;> rfl)
    | settled i phase completed =>
      cases phase <;> cases completed <;>
        first | rfl | (simp only [CommandState.after, Event.request?]; split <;> rfl)
    | failed i =>
      simp only [CommandState.after, Event.request?]
      split <;> rfl
    | stopping i => simp [Event.isParting] at hrun
    | disposing i => simp [Event.isParting] at hrun
    | _ => rfl

end Journal

/-- A step asks a command for a state that it may enter. The one that asks for another is the failure
of a command whose parameters cannot be bound: it has not begun, and it stays as it was created. -/
def Setting.Asks (set : Setting) (past : List Event) (e : Event) (_rest : List Event) : Prop :=
  ∀ id next, e.request? id = some next →
    (Journal.life past id).canBecome next = true
      ∨ e = .failed id ∧ Journal.life past id = .created
        ∧ ∃ err, set.bind id.number = some (.error err)

/-- Up to the end of the last command, commands are asked for states that they may enter. -/
theorem Setting.Orderly.each_asks (h : set.Orderly journal)
    (hrun : journal.any Event.isParting = false) : Journal.Each set.Asks [] journal := by
  rw [Journal.each_iff]
  rintro before e after rfl id next hrequest
  have hallows := h before e after rfl
  rw [List.any_append, Bool.or_eq_false_iff] at hrun
  rw [List.nil_append, Journal.life_eq_state hrun.1]
  have running {next : CommandState} (hrunning : (Journal.state before id).isRunning = true)
      (hnext : next = .processing ∨ next = .ended ∨ next = .error) :
      (Journal.state before id).canBecome next = true := by
    generalize Journal.state before id = s at hrunning
    rcases hnext with rfl | rfl | rfl <;> cases s <;> first | rfl | cases hrunning
  unfold Event.request? at hrequest
  split at hrequest
  all_goals try cases hrequest
  all_goals
    obtain ⟨rfl, hnext⟩ := Option.ite_none_right_eq_some.mp hrequest
    obtain rfl := Option.some.inj hnext
  · rw [Journal.created_of_not_begun hallows.2.1]
    exact .inl rfl
  · exact .inl (running hallows.1 (.inl rfl))
  · exact .inl (running hallows (.inr (.inl rfl)))
  · exact hallows.imp (fun hrunning => running hrunning (.inr (.inr rfl)))
      fun ⟨hcreated, hbind⟩ => ⟨rfl, hcreated, hbind⟩
  · simp [Event.isParting] at hrun
  · simp [Event.isParting] at hrun

/-! ## Parting -/

/-- A step parts with the command that it names, if any: it calls that command for a phase and asks it
for a state, and it does nothing of the kind to others. -/
structure Event.PartsWith (named : Event → Option CommandId) (phase : Phase) (next : CommandState)
    (e : Event) : Prop where
  received : ∀ id, e.received? id = if named e = some id then some phase else none
  request : ∀ id, e.request? id = if named e = some id then some next else none

/-- Telling commands to stop parts with the ones that are told to. -/
theorem Event.Halting.partsWith {e : Event} (h : e.Halting) :
    e.PartsWith Event.stopped? .stop .stopped := by
  cases e <;> first | exact h.elim |
    exact ⟨fun id => by simp [received?, stopped?], fun id => by simp [request?, stopped?]⟩

/-- Disposing of commands parts with the ones that are disposed of. -/
theorem Event.partsWith_disposed {e : Event}
    (h : e.Clearing ∨ (∃ r, e = .emitted r) ∨ ∃ r, e = .delivered r) :
    e.PartsWith Event.disposed? .dispose .disposed := by
  rcases h with h | ⟨r, rfl⟩ | ⟨r, rfl⟩
  · cases e <;> first | exact h.elim |
      exact ⟨fun id => by simp [received?, disposed?], fun id => by simp [request?, disposed?]⟩
  · exact ⟨fun id => rfl, fun id => rfl⟩
  · exact ⟨fun id => rfl, fun id => rfl⟩

namespace Journal

variable {named : Event → Option CommandId} {next : CommandState}

/-- The calls by which commands are parted with. -/
theorem received_parting (h : ∀ e ∈ block, e.PartsWith named phase next) (id : CommandId) :
    received block id = List.replicate ((block.filterMap named).count id) phase := by
  induction block with
  | nil => rfl
  | cons e block ih =>
    rw [List.forall_mem_cons] at h
    rw [received, List.filterMap_cons, List.filterMap_cons, h.1.received, ← received, ih h.2]
    cases hnamed : named e with
    | none => rfl
    | some i =>
      by_cases hid : i = id
      · subst hid
        simp [List.replicate_succ]
      · simp [hid]

/-- Parting with commands that may be parted with, once each, is allowed, and it changes their states
and no others. -/
theorem asks_parting (h : ∀ e ∈ block, e.PartsWith named phase next)
    (hnodup : (block.filterMap named).Nodup)
    (hallowed : ∀ id ∈ block.filterMap named, (life journal id).canBecome next = true) :
    Each set.Asks journal block
      ∧ ∀ id, life (journal ++ block) id
        = if id ∈ block.filterMap named then next else life journal id := by
  induction block generalizing journal with
  | nil => exact ⟨trivial, fun id => by simp⟩
  | cons e block ih =>
    rw [List.forall_mem_cons] at h
    have hstep (id : CommandId) : life (journal ++ [e]) id
        = if named e = some id then (life journal id).becomeIfAllowed next else life journal id := by
      rw [life_append, List.foldl_cons, List.foldl_nil, h.1.request]
      split <;> rfl
    cases hnamed : named e with
    | none =>
      simp only [hnamed, List.filterMap_cons, reduceCtorEq, if_false] at hnodup hallowed hstep ⊢
      obtain ⟨hasks, hlife⟩ := @ih (journal ++ [e]) h.2 hnodup fun id hid => by
        rw [hstep]
        exact hallowed id hid
      refine ⟨⟨fun id next' hrequest => ?_, hasks⟩, fun id => ?_⟩
      · rw [h.1.request, hnamed] at hrequest
        cases hrequest
      · rw [List.append_cons, hlife, hstep]
    | some i =>
      simp only [hnamed, List.filterMap_cons, Option.some.injEq, List.nodup_cons,
        List.forall_mem_cons] at hnodup hallowed hstep ⊢
      -- The step changes the command it names, and none that is named behind.
      obtain ⟨hasks, hlife⟩ := @ih (journal ++ [e]) h.2 hnodup.2 fun id hid => by
        have hne : i ≠ id := fun he => hnodup.1 (he ▸ hid)
        rw [hstep, if_neg hne]
        exact hallowed.2 id hid
      refine ⟨⟨fun id next' hrequest => ?_, hasks⟩, fun id => ?_⟩
      · rw [h.1.request, hnamed] at hrequest
        obtain ⟨hid, hnext⟩ := Option.ite_none_right_eq_some.mp hrequest
        obtain rfl := Option.some.inj hid
        obtain rfl := Option.some.inj hnext
        exact .inl hallowed.1
      · rw [List.append_cons, hlife, hstep]
        by_cases hid : i = id
        · subst hid
          rw [if_neg hnodup.1, if_pos rfl, if_pos (.head _), CommandState.becomeIfAllowed,
            if_pos hallowed.1]
        · simp [hid, Ne.symm hid]

end Journal

end CommandChain
