import Mathlib.Data.List.Forall2
import Mathlib.Data.List.Nodup
import CommandChain.Proofs.Disposal.Round
/-!
# Releases are attempted once

A manager goes by two records: what every item says of itself, and which commands it has attempted.
They may disagree, since a release that panics need not mark its item, and since several items may
bear one name. Which items a round releases is said here of the list of items alone
(`Releasable.due`), and the calls of the release are put on record next to whatever else a release
changes.
-/

namespace CommandChain

/-! ## What a round is to release -/

section

variable {α : Type*} {ε : Type}

namespace Releasable

/-- The items that a round is to release: those that are not released, whose command was not
attempted before, and that have no such item of the same command behind them. -/
def due (r : Releasable α ε) (attempted : List CommandId) : List α → List α
  | [] => []
  | item :: rest =>
    if r.isReleased item = false ∧ r.id item ∉ attempted
        ∧ ∀ other ∈ rest, r.isReleased other = false → r.id other ≠ r.id item then
      item :: r.due attempted rest
    else r.due attempted rest

/-- A release leaves an item with the name that it had. -/
def KeepsNames (r : Releasable α ε) : Prop :=
  ∀ item env, r.id (r.release item env).2.1 = r.id item

variable {r : Releasable α ε} {attempted : List CommandId} {items : List α} {id : CommandId}

/-- A round is to release an item of every command that has one which is not released, unless the
command was attempted before. -/
theorem mem_ids_due : id ∈ (r.due attempted items).map r.id
    ↔ id ∉ attempted ∧ ∃ item ∈ items, r.isReleased item = false ∧ r.id item = id := by
  induction items with
  | nil =>
    rw [due, List.map_nil]
    constructor
    · intro h
      cases h
    · rintro ⟨-, item, h, -⟩
      cases h
  | cons item rest ih =>
    simp only [List.mem_cons, exists_eq_or_imp]
    rw [and_or_left, ← ih, due]
    by_cases hdue : r.isReleased item = false ∧ r.id item ∉ attempted
        ∧ ∀ other ∈ rest, r.isReleased other = false → r.id other ≠ r.id item
    · rw [if_pos hdue, List.map_cons, List.mem_cons]
      refine or_congr_left ⟨?_, ?_⟩
      · rintro rfl
        exact ⟨hdue.2.1, hdue.1, rfl⟩
      · rintro ⟨-, -, rfl⟩
        rfl
    · rw [if_neg hdue, iff_or_self]
      -- Another item of the same command stands behind.
      rintro ⟨hnew, hunreleased, rfl⟩
      refine ih.mpr ⟨hnew, ?_⟩
      by_contra hnone
      exact hdue ⟨hunreleased, hnew, fun other hother hstill hsame =>
        hnone ⟨other, hother, hstill, hsame⟩⟩

/-- A round is to release no command twice. -/
theorem nodup_ids_due : ((r.due attempted items).map r.id).Nodup := by
  induction items with
  | nil => exact List.nodup_nil
  | cons item rest ih =>
    rw [due]
    split
    · next hdue =>
      rw [List.map_cons, List.nodup_cons, mem_ids_due]
      refine ⟨?_, ih⟩
      rintro ⟨-, other, hother, hunreleased, hsame⟩
      exact hdue.2.2 other hother hunreleased hsame
    · exact ih

/-- An item is to be released where its command was not attempted before and is not among those that
are to be released behind it. -/
theorem due_cons (item : α) (rest : List α) :
    r.due attempted (item :: rest) =
      if r.isReleased item = false
          ∧ r.id item ∉ attempted ++ ((r.due attempted rest).map r.id).reverse then
        item :: r.due attempted rest
      else r.due attempted rest := by
  rw [due]
  refine if_congr (and_congr_right fun _ => ?_) rfl rfl
  rw [List.mem_append, List.mem_reverse, not_or, mem_ids_due]
  refine and_congr_right fun hnew => ⟨?_, ?_⟩
  · rintro hnone ⟨-, other, hother, hunreleased, hsame⟩
    exact hnone other hother hunreleased hsame
  · intro hnone other hother hunreleased hsame
    exact hnone ⟨hnew, other, hother, hunreleased, hsame⟩

end Releasable

namespace DisposalManager

variable (m : DisposalManager) {r : Releasable α ε}

/-- A release is due for an item that is not released and whose command was not attempted. -/
theorem isDue_iff (item : α) :
    m.isDue r item = true ↔ r.isReleased item = false ∧ r.id item ∉ m.attempted := by
  simp [isDue]

variable (r)

/-- A round attempts the commands of the items that it is to release, the last first. -/
theorem releaseAll_attempted (env : ε) (items : List α) :
    (m.releaseAll r env items).manager.attempted
      = m.attempted ++ ((r.due m.attempted items).map r.id).reverse := by
  induction items with
  | nil => exact (List.append_nil _).symm
  | cons item rest ih =>
    have hdue : (m.releaseAll r env rest).manager.isDue r item = true
        ↔ r.isReleased item = false
          ∧ r.id item ∉ m.attempted ++ ((r.due m.attempted rest).map r.id).reverse := by
      rw [isDue_iff, ih]
    rw [Releasable.due_cons]
    by_cases h : (m.releaseAll r env rest).manager.isDue r item = true
    · rw [if_pos (hdue.mp h), releaseAll_cons_of_due m r env h, List.map_cons, List.reverse_cons,
        ← List.append_assoc, ← ih]
    · rw [if_neg (fun hcond => h (hdue.mpr hcond)), releaseAll_cons_of_not_due m r env h, ih]

/-- A round is to release an item exactly if it is due when its turn comes. -/
theorem due_cons_eq (env : ε) (item : α) (rest : List α) :
    r.due m.attempted (item :: rest) =
      if (m.releaseAll r env rest).manager.isDue r item = true then
        item :: r.due m.attempted rest
      else r.due m.attempted rest := by
  rw [Releasable.due_cons]
  refine if_congr ?_ rfl rfl
  rw [isDue_iff, releaseAll_attempted m]

end DisposalManager

end

/-! ## One round -/

section

variable {α ε : Type}

/-- A call of a release: the item as it was found, and how the release went. -/
structure ReleaseCall (α : Type) where
  item : α
  outcome : ReleaseOutcome

namespace ReleaseCall

/-- Whether the release faulted or panicked. -/
def failed (c : ReleaseCall α) : Bool :=
  match c.outcome with
  | .released => false
  | _ => true

/-- A fault of the cleanup reports a release that failed. What the release faulted with is kept but
for the marks of the cleanup, and a panic is reported by its text. -/
structure Reported (r : Releasable α ε) (c : ReleaseCall α) (fault : CleanupFault) : Prop where
  command : fault.command = r.id c.item
  category : fault.error.category = .cleanup
  terminating : fault.error.terminating = false
  phase : fault.error.phase = some .dispose
  duringCleanup : fault.error.duringCleanup = true
  kept : match c.outcome with
    | .released => False
    | .faulted e => fault.error.message = e.message ∧ fault.error.errorId = e.errorId
      ∧ fault.error.target = e.target
    | .panicked p => fault.error.message = p.releaseText
      ∧ fault.error.errorId = "ReleasePanicked" ∧ fault.error.target = none

end ReleaseCall

/-- The same releases, with their calls on record. -/
def Releasable.recorded (r : Releasable α ε) : Releasable α (ε × List (ReleaseCall α)) where
  id := r.id
  isReleased := r.isReleased
  release item env :=
    let (outcome, left, after) := r.release item env.1
    (outcome, left, after, env.2 ++ [⟨item, outcome⟩])

namespace DisposalManager

variable (m : DisposalManager) {r : Releasable α ε} (env : ε)

/-- The fault of a release that failed reports it. -/
theorem reported_of_error? {item : α} {outcome : ReleaseOutcome} :
    List.Forall₂ (ReleaseCall.Reported r) ([⟨item, outcome⟩].filter ReleaseCall.failed)
      (outcome.error?.map (CleanupFault.mk (r.id item))).toList := by
  cases outcome with
  | released => exact .nil
  | faulted e => exact .cons ⟨rfl, rfl, rfl, rfl, rfl, rfl, rfl, rfl⟩ .nil
  | panicked p => exact .cons ⟨rfl, rfl, rfl, rfl, rfl, rfl, rfl, rfl⟩ .nil

/-- A round releases what it is to release, the last item first, and attempts just these commands.
Each call that fails leaves one fault. Putting the calls on record changes nothing. -/
structure Releases (m : DisposalManager) (r : Releasable α ε) (env : ε)
    (log : List (ReleaseCall α)) (items : List α) (calls : List (ReleaseCall α)) : Prop where
  recorded : m.releaseAll r.recorded (env, log) items =
    { faults := (m.releaseAll r env items).faults
      items := (m.releaseAll r env items).items
      surroundings := ((m.releaseAll r env items).surroundings, log ++ calls)
      manager := (m.releaseAll r env items).manager }
  order : calls.map ReleaseCall.item = (r.due m.attempted items).reverse
  attempted : (m.releaseAll r env items).manager.attempted
    = m.attempted ++ calls.map fun c => r.id c.item
  faults : List.Forall₂ (ReleaseCall.Reported r) (calls.filter ReleaseCall.failed)
    (m.releaseAll r env items).faults

variable {m} {env} {log calls : List (ReleaseCall α)} {item : α} {rest : List α}

/-- Recorded or not, the same items are due. -/
theorem Releases.isDue_eq (h : m.Releases r env log rest calls) :
    (m.releaseAll r.recorded (env, log) rest).manager.isDue r.recorded item
      = (m.releaseAll r env rest).manager.isDue r item := by
  rw [h.recorded]
  rfl

/-- An item that is due is released behind those that stand behind it. -/
theorem Releases.cons_of_due (h : m.Releases r env log rest calls)
    (hdue : (m.releaseAll r env rest).manager.isDue r item = true) :
    m.Releases r env log (item :: rest)
      (calls ++ [⟨item, (r.release item (m.releaseAll r env rest).surroundings).1⟩]) := by
  have horder := m.due_cons_eq r env item rest
  rw [if_pos hdue] at horder
  have hcons := releaseAll_cons_of_due m r env hdue
  have hconsRecorded := releaseAll_cons_of_due m r.recorded (env, log) (h.isDue_eq.trans hdue)
  rw [h.recorded] at hconsRecorded
  dsimp only at hcons hconsRecorded
  refine ⟨?_, ?_, ?_, ?_⟩
  · rw [hconsRecorded, hcons, ← List.append_assoc]
    rfl
  · rw [horder, List.reverse_cons, ← h.order, List.map_append]
    rfl
  · rw [hcons, h.attempted, List.map_append, List.append_assoc]
    rfl
  · rw [hcons, List.filter_append]
    exact List.rel_append h.faults reported_of_error?

/-- An item that is not due is passed over. -/
theorem Releases.cons_of_not_due (h : m.Releases r env log rest calls)
    (hdue : ¬ (m.releaseAll r env rest).manager.isDue r item = true) :
    m.Releases r env log (item :: rest) calls := by
  have horder := m.due_cons_eq r env item rest
  rw [if_neg hdue] at horder
  have hcons := releaseAll_cons_of_not_due m r env hdue
  have hconsRecorded := releaseAll_cons_of_not_due m r.recorded (env, log) (h.isDue_eq ▸ hdue)
  refine ⟨?_, ?_, ?_, ?_⟩
  · rw [hconsRecorded, h.recorded, hcons]
  · rw [horder, h.order]
  · rw [hcons, h.attempted]
  · rw [hcons]
    exact h.faults

variable (m env log)

/-- Every round releases what it is to release: by induction on the items, the last of which is
released first. -/
theorem releaseAll_releases (items : List α) : ∃ calls, m.Releases r env log items calls := by
  induction items with
  | nil =>
    refine ⟨[], ?_, rfl, (List.append_nil _).symm, .nil⟩
    rw [List.append_nil]
    rfl
  | cons item rest ih =>
    obtain ⟨calls, hlater⟩ := ih
    by_cases hdue : (m.releaseAll r env rest).manager.isDue r item = true
    · exact ⟨_, hlater.cons_of_due hdue⟩
    · exact ⟨calls, hlater.cons_of_not_due hdue⟩

/-- A round leaves no item that is neither released nor attempted, if a release leaves an item its
name. -/
theorem releaseAll_settled (hnames : r.KeepsNames) (items : List α) :
    ∀ item ∈ (m.releaseAll r env items).items,
      r.isReleased item = true ∨ r.id item ∈ (m.releaseAll r env items).manager.attempted := by
  induction items with
  | nil => exact fun item h => absurd h List.not_mem_nil
  | cons item rest ih =>
    by_cases hdue : (m.releaseAll r env rest).manager.isDue r item = true
    · rw [releaseAll_cons_of_due m r env hdue, List.forall_mem_cons]
      refine ⟨.inr ?_, fun other hother => (ih other hother).imp_right ?_⟩
      · rw [hnames item]
        exact List.mem_concat_self
      · exact fun hmem => List.mem_append_left _ hmem
    · rw [releaseAll_cons_of_not_due m r env hdue, List.forall_mem_cons]
      rw [isDue_iff, not_and_not_right, ← Bool.not_eq_true, ← or_iff_not_imp_left] at hdue
      exact ⟨hdue, ih⟩

end DisposalManager

/-! ## Any number of rounds -/

namespace ReleaseRound

variable (round : ReleaseRound α ε) (r : Releasable α ε)

/-- The next round, upon what one left. -/
def next : ReleaseRound α ε :=
  round.manager.releaseAll r round.surroundings round.items

/-- The calls of the next round. -/
def nextCalls : List (ReleaseCall α) :=
  (round.manager.releaseAll r.recorded (round.surroundings, []) round.items).surroundings.2

/-- Every item is released, or the release of its command was attempted. -/
def Settled : Prop :=
  ∀ item ∈ round.items, r.isReleased item = true ∨ r.id item ∈ round.manager.attempted

variable {round} {r}

/-- The next round releases what it is to release, with the calls that are recorded of it. -/
theorem next_releases :
    round.manager.Releases r round.surroundings [] round.items (round.nextCalls r) := by
  obtain ⟨calls, h⟩ :=
    round.manager.releaseAll_releases round.surroundings [] round.items
  have hcalls : round.nextCalls r = calls := by
    rw [nextCalls, h.recorded]
    rfl
  rw [hcalls]
  exact h

/-- Where all is settled, a round does nothing. -/
theorem next_of_settled (h : round.Settled r) : round.next r = { round with faults := [] } := by
  refine DisposalManager.releaseAll_of_not_due _ _ _ fun item hitem => ?_
  rw [← Bool.not_eq_true, DisposalManager.isDue_iff]
  rintro ⟨hunreleased, hnew⟩
  rcases h item hitem with hreleased | hattempted
  · exact absurd (hunreleased.symm.trans hreleased) Bool.false_ne_true
  · exact hnew hattempted

end ReleaseRound

namespace DisposalManager

/-- What a number of rounds leaves, each upon what the one before it left. -/
def rounds (m : DisposalManager) (r : Releasable α ε) (env : ε) (items : List α) :
    Nat → ReleaseRound α ε
  | 0 => ⟨[], items, env, m⟩
  | k + 1 => (m.rounds r env items k).next r

/-- The calls of a number of rounds, in order. -/
def roundCalls (m : DisposalManager) (r : Releasable α ε) (env : ε) (items : List α) :
    Nat → List (ReleaseCall α)
  | 0 => []
  | k + 1 => m.roundCalls r env items k ++ (m.rounds r env items k).nextCalls r

/-- What holds of a number of rounds. Any round releases what it is to release, the last item first,
and reports each release that failed. The manager attempts the commands of these calls and no other, and
no command twice. After the first round there is nothing left to call or to report. -/
structure ReleasesOnce (m : DisposalManager) (r : Releasable α ε) (env : ε) (items : List α)
    (k : Nat) : Prop where
  round : (m.rounds r env items k).manager.Releases r (m.rounds r env items k).surroundings []
    (m.rounds r env items k).items ((m.rounds r env items k).nextCalls r)
  attempted : (m.rounds r env items k).manager.attempted
    = m.attempted ++ (m.roundCalls r env items k).map fun c => r.id c.item
  once : ((m.roundCalls r env items k).map fun c => r.id c.item).Nodup
  new : ∀ c ∈ m.roundCalls r env items k, r.id c.item ∉ m.attempted
  settled : 0 < k → (m.rounds r env items k).Settled r
  quiet : 0 < k → (m.rounds r env items k).nextCalls r = []
    ∧ m.rounds r env items (k + 1) = { m.rounds r env items k with faults := [] }

variable {m : DisposalManager} {r : Releasable α ε} {env : ε} {items : List α}

/-- The commands of the calls of a round are those of the items that it is to release. -/
theorem Releases.ids {log calls : List (ReleaseCall α)} (h : m.Releases r env log items calls) :
    calls.map (fun c => r.id c.item) = ((r.due m.attempted items).map r.id).reverse := by
  rw [← List.map_reverse, ← h.order, List.map_map]
  rfl

/-- A round that finds all settled calls nothing. -/
theorem Releases.calls_eq_nil {log calls : List (ReleaseCall α)}
    (h : m.Releases r env log items calls)
    (hsettled : ∀ item ∈ items, r.isReleased item = true ∨ r.id item ∈ m.attempted) :
    calls = [] := by
  have hids := h.ids
  by_contra hne
  obtain ⟨c, hc⟩ := List.exists_mem_of_ne_nil _ hne
  have hmem : r.id c.item ∈ (r.due m.attempted items).map r.id := by
    rw [← List.mem_reverse, ← hids]
    exact List.mem_map_of_mem hc
  obtain ⟨hnew, item, hitem, hunreleased, hsame⟩ := Releasable.mem_ids_due.mp hmem
  rcases hsettled item hitem with hreleased | hattempted
  · exact absurd (hunreleased.symm.trans hreleased) Bool.false_ne_true
  · exact hnew (hsame ▸ hattempted)

variable (m env items)

/-- One round more is a round upon what the others left. -/
theorem rounds_succ (k : Nat) :
    m.rounds r env items (k + 1) = (m.rounds r env items k).manager.releaseAll r
      (m.rounds r env items k).surroundings (m.rounds r env items k).items :=
  rfl

/-- The manager remembers the commands of the calls of all rounds. -/
theorem rounds_attempted (k : Nat) :
    (m.rounds r env items k).manager.attempted
      = m.attempted ++ (m.roundCalls r env items k).map fun c => r.id c.item := by
  induction k with
  | zero => exact (List.append_nil _).symm
  | succ k ih =>
    rw [rounds_succ, ReleaseRound.next_releases.attempted, ih, roundCalls,
      List.map_append, List.append_assoc]

/-- What a round attempts is new to the manager, and so to all rounds before. -/
theorem not_mem_of_mem_nextCalls {k : Nat} {c : ReleaseCall α}
    (hc : c ∈ (m.rounds r env items k).nextCalls r) :
    r.id c.item ∉ m.attempted
      ∧ r.id c.item ∉ (m.roundCalls r env items k).map fun c => r.id c.item := by
  have hid : r.id c.item
      ∈ ((m.rounds r env items k).nextCalls r).map fun c => r.id c.item :=
    List.mem_map_of_mem hc
  rw [ReleaseRound.next_releases.ids, List.mem_reverse, Releasable.mem_ids_due,
    rounds_attempted m env items, List.mem_append, not_or] at hid
  exact hid.1

/-- Over all rounds no command is called twice, and none that had been attempted before. -/
theorem roundCalls_once (k : Nat) :
    ((m.roundCalls r env items k).map fun c => r.id c.item).Nodup
      ∧ ∀ c ∈ m.roundCalls r env items k, r.id c.item ∉ m.attempted := by
  induction k with
  | zero => exact ⟨List.nodup_nil, fun c h => nomatch h⟩
  | succ k ih =>
    have hround : (((m.rounds r env items k).nextCalls r).map fun c => r.id c.item).Nodup := by
      rw [ReleaseRound.next_releases.ids, List.nodup_reverse]
      exact Releasable.nodup_ids_due
    rw [roundCalls]
    refine ⟨?_, fun c hc => ?_⟩
    · rw [List.map_append, List.nodup_append]
      refine ⟨ih.1, hround, fun id hbefore id' hid hsame => ?_⟩
      obtain ⟨c, hc, rfl⟩ := List.mem_map.mp hid
      exact (not_mem_of_mem_nextCalls m env items hc).2 (hsame ▸ hbefore)
    · rcases List.mem_append.mp hc with hc | hc
      · exact ih.2 c hc
      · exact (not_mem_of_mem_nextCalls m env items hc).1

/-- From the first round on everything is released or was attempted, if releases keep the names of
items. -/
theorem rounds_settled (hnames : r.KeepsNames) {k : Nat} (h : 0 < k) :
    (m.rounds r env items k).Settled r := by
  obtain ⟨before, rfl⟩ := Nat.exists_eq_succ_of_ne_zero (Nat.pos_iff_ne_zero.mp h)
  exact releaseAll_settled _ _ hnames _

/-- **Releases are attempted once.** Whatever the items say of themselves, whatever names they share
and however their releases go, through any number of rounds on one manager. -/
theorem releases_once (hnames : r.KeepsNames) (k : Nat) : m.ReleasesOnce r env items k := by
  obtain ⟨honce, hnew⟩ := roundCalls_once m env items k
  refine ⟨ReleaseRound.next_releases, rounds_attempted m env items k, honce, hnew,
    rounds_settled m env items hnames, fun h => ?_⟩
  have hsettled := rounds_settled m env items hnames h
  exact ⟨ReleaseRound.next_releases.calls_eq_nil hsettled,
    ReleaseRound.next_of_settled hsettled⟩

end DisposalManager

end

/-! ## Resources with an outcome of their own -/

/-- A resource whose release comes out in a fixed way, and then marks it released or does not. -/
structure Resource where
  id : CommandId
  isReleased : Bool
  outcome : ReleaseOutcome
  marks : Bool

/-- The release of such a resource. -/
def Resource.releasable : Releasable Resource Unit where
  id := Resource.id
  isReleased := Resource.isReleased
  release resource env :=
    (resource.outcome, { resource with isReleased := resource.isReleased || resource.marks }, env)

/-- Of two resources of one name the last is released. Its release faults without a mark, another
panics, and a second round leaves them alone. -/
theorem DisposalManager.releases_once_shared_name :
    let resources : List Resource :=
      [⟨⟨0⟩, false, .released, true⟩, ⟨⟨1⟩, false, .panicked .other, false⟩,
        ⟨⟨0⟩, false, .faulted { message := "busy" }, false⟩, ⟨⟨2⟩, true, .released, true⟩]
    Resource.releasable.KeepsNames
      ∧ fresh.ReleasesOnce Resource.releasable () resources 2
      ∧ (fresh.roundCalls Resource.releasable () resources 2).map (fun c => c.item.id)
        = [⟨0⟩, ⟨1⟩] :=
  ⟨fun _ _ => rfl, releases_once fresh () _ (fun _ _ => rfl) 2, rfl⟩

end CommandChain
