import CommandChain.Builtin.Selection
import CommandChain.Proofs.Streaming.Transducer
/-!
# Selecting objects is streaming

The command that passes on a window of the objects streams: it declares that it needs no further
input only when its window is full, and with a full window nothing more is written.
-/

namespace CommandChain

/-- Writing objects in order streams. -/
theorem Hook.streams_writeAll {σ : Type} (flags : StopFlags) (preferences : Preferences)
    (saturated : σ → Prop) (vs : List Value) (memory : σ) :
    (writeAll vs done).Streams flags preferences saturated memory := by
  induction vs with
  | nil => rfl
  | cons v vs ih => exact ⟨ih, .inl rfl⟩

namespace Builtin.Selection

/-- Nothing more is written: the first objects have been, and none are kept for the end. -/
structure Full (m : Memory) : Prop where
  last : m.last = none
  tail : m.tail = []
  first : ∃ first, m.first = some first ∧ first ≤ m.written

/-- Objects are kept for the end only where that was asked for. -/
def Kept (m : Memory) : Prop :=
  m.last = none → m.tail = []

variable {m : Memory} {flags : StopFlags} {preferences : Preferences}

/-- Selecting among the first objects streams, up to where nothing more is written. -/
theorem writeFirst_streams (hkept : Kept m) (first : Nat) (hfirst : m.first = some first)
    (v : Value) (memory : Memory) :
    (writeFirst m first v).Streams flags preferences Full memory := by
  refine ⟨?_, .inl rfl⟩
  simp only
  split
  · next hfull =>
    rw [Bool.and_eq_true, beq_iff_eq, Option.isNone_iff_eq_none] at hfull
    exact ⟨⟨hfull.2, hkept hfull.2, first, hfirst, Nat.le_of_eq hfull.1.symm⟩, rfl⟩
  · rfl

/-- Passing an object on behind the first ones streams. -/
theorem writeRest_streams (v : Value) (memory : Memory) :
    (writeRest m v).Streams flags preferences Full memory := by
  unfold writeRest
  split
  · exact ⟨rfl, .inl rfl⟩
  · rfl

/-- A call for an object streams. -/
theorem process_streams (call : Call) (hkept : Kept m) (memory : Memory) :
    (process call m).Streams flags preferences Full memory := by
  have hkept' : Kept { m with seen := m.seen + 1 } := hkept
  change Hook.Streams _ _ _ (ite _ _ _) _
  split
  · rfl
  · split
    · exact writeRest_streams _ _
    · next first hfirst =>
      split
      · exact writeFirst_streams hkept' first hfirst _ _
      · next hwritten =>
        split
        · next hlast =>
          rw [Option.isNone_iff_eq_none] at hlast
          exact ⟨⟨hlast, hkept hlast, first, hfirst, Nat.le_of_not_lt hwritten⟩, rfl⟩
        · exact writeRest_streams _ _

/-- Writing one of the first objects changes what the command keeps in no other way. -/
theorem writeFirst_memory (first : Nat) (v : Value) (memory : Memory) :
    ((writeFirst m first v).yield flags memory).memory = { m with written := m.written + 1 } := by
  simp only [writeFirst, Hook.yield]
  split <;> rfl

/-- Passing an object on keeps none for the end unless that was asked for. -/
theorem writeRest_kept (hkept : Kept m) (v : Value) :
    Kept ((writeRest m v).yield flags m).memory := by
  unfold writeRest
  split
  · exact hkept
  · next size hlast =>
    intro hnone
    change m.last = none at hnone
    rw [hlast] at hnone
    cases hnone

/-- A call for an object keeps none for the end unless that was asked for. -/
theorem process_kept (call : Call) (hkept : Kept m) (memory : Memory) :
    Kept ((process call m).yield flags memory).memory := by
  have hkept' : Kept { m with seen := m.seen + 1 } := hkept
  change Kept (Hook.yield flags (ite _ _ _) _).memory
  split
  · exact hkept
  · split
    · exact writeRest_kept hkept' _
    · split
      · rw [writeFirst_memory]
        exact hkept
      · split
        · exact hkept
        · exact writeRest_kept hkept' _

/-- With a full window nothing is written. -/
theorem process_full (call : Call) (hfull : Full m) (memory : Memory) :
    ((process call m).yield flags memory).written = []
      ∧ Full ((process call m).yield flags memory).memory := by
  obtain ⟨hlast, htail, first, hfirst, hwritten⟩ := hfull
  have hfull' : Full { m with seen := m.seen + 1 } := ⟨hlast, htail, first, hfirst, hwritten⟩
  change (Hook.yield flags (ite _ _ _) _).written = []
    ∧ Full (Hook.yield flags (ite _ _ _) _).memory
  split
  · exact ⟨rfl, hfull'⟩
  · split
    · next hnone =>
      rw [hfirst] at hnone
      cases hnone
    · next other hother =>
      obtain rfl : first = other := Option.some.inj (hfirst.symm.trans hother)
      rw [if_neg (Nat.not_lt.mpr hwritten), if_pos (by rw [hlast]; rfl)]
      exact ⟨rfl, hfull'⟩

/-- A selection that is full writes nothing at its end. -/
theorem finish_full (hfull : Full m) (memory : Memory) :
    ((finish m).yield flags memory).written = [] := by
  rw [finish, hfull.tail]
  rfl

/-- Reading the window streams, unless a count is refused. -/
theorem begin_streams (call : Call)
    (hbegins : ((begin call {}).refuseWrites.yield flags {}).result.completes = true) :
    (begin call {}).refuseWrites.Streams flags preferences Full {}
      ∧ Kept ((begin call {}).refuseWrites.yield flags {}).memory := by
  have hfresh : Kept {} := fun _ => rfl
  unfold begin at hbegins ⊢
  split at hbegins
  · exact ⟨hbegins, hfresh⟩
  · exact ⟨hbegins, hfresh⟩
  · exact ⟨hbegins, hfresh⟩
  · next first last skip _ _ _ =>
    simp only [Hook.refuseWrites, Hook.Streams, Hook.yield]
    split
    · next hfull =>
      rw [Bool.and_eq_true, beq_iff_eq, Option.isNone_iff_eq_none] at hfull
      exact ⟨⟨⟨hfull.2, rfl, 0, hfull.1, Nat.le_refl 0⟩, rfl⟩, fun _ => rfl⟩
    · exact ⟨rfl, fun _ => rfl⟩

/-- The command that passes on a window of the objects streams where it begins. -/
theorem streams {stage : Stage} {chain : Chain}
    (hcommand : stage.command = Selection.command) (hfresh : stage.memory = stage.command.fresh)
    (hbegins : ((stage.opening chain).yield chain.flags stage.memory).result.completes = true) :
    stage.Streams chain := by
  obtain ⟨position, command, memory, arguments, state, bound, preferences, bindingErrors, input⟩ :=
    stage
  simp only at hcommand hfresh
  subst hcommand hfresh
  obtain ⟨hopening, hkept⟩ := begin_streams _ hbegins
  have hsaturated : ∀ m, Full m → (Stage.transducer (.mk position command command.fresh arguments
      state bound preferences bindingErrors input) chain).Saturated m := fun m hfull =>
    .of_invariant (fun m _ h => (process_full _ h m).2) (fun m _ h => (process_full _ h m).1)
      (fun m h => finish_full h m) hfull
  refine ⟨hopening.mono hsaturated, Transducer.Streams.mono hsaturated ?_⟩
  exact .of_invariant (fun m _ h => process_kept _ h m) (fun m _ h => process_streams _ h m)
    (fun m _ => Hook.streams_writeAll chain.flags preferences Full m.tail _) hkept

end Builtin.Selection

end CommandChain
