import CommandChain.Fault
/-!
# Disposal

Every command is released once, the last first, on every way out of a chain. A release that faults
or panics becomes an error of the cleanup, and the others still follow. The manager remembers which
releases were attempted, so that one that panicked is not tried again.
-/

namespace CommandChain

universe u

/-- How one release went. -/
inductive ReleaseOutcome where
  | released
  | faulted (e : ErrorRecord)
  | panicked (p : Panic)

/-- The text of a panic during a release. -/
def Panic.releaseText : Panic → String
  | .text s => s
  | .other => "release panicked"

/-- A release that failed. -/
structure CleanupFault where
  command : CommandId
  error : ErrorRecord

/-- The error of a release that failed, marked as one of the cleanup. -/
def ReleaseOutcome.error? : ReleaseOutcome → Option ErrorRecord
  | released => none
  | faulted e => some (cleanup e)
  | panicked p => some (cleanup { message := p.releaseText, errorId := "ReleasePanicked" })
where
  /-- The mark of the cleanup. -/
  cleanup (e : ErrorRecord) : ErrorRecord :=
    { e with
      category := .cleanup
      terminating := false
      phase := some .dispose
      duringCleanup := true }

/-- The releases attempted so far, in order. -/
structure DisposalManager where
  attempted : List CommandId
deriving DecidableEq

/-- What can be released: items with an identity, and a release that may change the item and its
surroundings. -/
structure Releasable (α : Type u) (ε : Type) where
  id : α → CommandId
  isReleased : α → Bool
  release : α → ε → ReleaseOutcome × α × ε

/-- What a round of releases leaves: the faults in the order of the releases, the items, their
surroundings and the manager. -/
structure ReleaseRound (α : Type u) (ε : Type) where
  faults : List CleanupFault
  items : List α
  surroundings : ε
  manager : DisposalManager

namespace DisposalManager

/-- No release attempted. -/
def fresh : DisposalManager := ⟨[]⟩

/-- Whether a release is still to be attempted. -/
def isDue {α : Type u} {ε : Type} (m : DisposalManager) (r : Releasable α ε) (item : α) : Bool :=
  !(r.isReleased item || m.attempted.contains (r.id item))

/-- Releases every item that is due, the last first. -/
def releaseAll {α : Type u} {ε : Type} (m : DisposalManager) (r : Releasable α ε) (env : ε) :
    List α → ReleaseRound α ε
  | [] => ⟨[], [], env, m⟩
  | item :: rest =>
    let later := m.releaseAll r env rest
    if later.manager.isDue r item then
      let (outcome, left, env) := r.release item later.surroundings
      let faults := match outcome.error? with
        | some e => later.faults ++ [⟨r.id item, e⟩]
        | none => later.faults
      ⟨faults, left :: later.items, env, ⟨later.manager.attempted ++ [r.id item]⟩⟩
    else { later with items := item :: later.items }

section Round

variable {α : Type u} {ε : Type} (m : DisposalManager) (r : Releasable α ε) (env : ε) {item : α}
  {rest : List α}

/-- A release that is due is attempted after those behind it, and its fault comes after theirs. -/
theorem releaseAll_cons_of_due (h : (m.releaseAll r env rest).manager.isDue r item = true) :
    m.releaseAll r env (item :: rest) =
      let later := m.releaseAll r env rest
      let ended := r.release item later.surroundings
      { faults := later.faults ++ (ended.1.error?.map (CleanupFault.mk (r.id item))).toList
        items := ended.2.1 :: later.items
        surroundings := ended.2.2
        manager := ⟨later.manager.attempted ++ [r.id item]⟩ } := by
  simp only [releaseAll, h, if_true]
  cases (r.release item (m.releaseAll r env rest).surroundings).1.error? with
  | none => simp
  | some e => rfl

/-- A release that is not due is passed over. -/
theorem releaseAll_cons_of_not_due (h : ¬ (m.releaseAll r env rest).manager.isDue r item = true) :
    m.releaseAll r env (item :: rest) =
      let later := m.releaseAll r env rest
      { later with items := item :: later.items } := by
  simp only [releaseAll, h, Bool.false_eq_true, if_false]

end Round

end DisposalManager

end CommandChain
