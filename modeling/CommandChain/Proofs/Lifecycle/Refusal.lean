import CommandChain.Proofs.Accounts.Complete
/-!
# Errors that only commands describe

While a chain runs, the errors that the engine makes itself are of a few kinds: objects and arguments
that cannot be bound, writes under a preference to stop, and releases that panic. An error of another
kind is on the timeline only where a command describes one. A refused step is of such a kind: a command
that is called where its state does not allow it fails with that error, and the engine never comes to
that.
-/

namespace CommandChain

variable {set : Setting} {journal : List Event} {id : CommandId}

/-- An error is of none of the kinds that the engine makes itself. -/
structure ErrorRecord.IsForeign (e : ErrorRecord) : Prop where
  binding : ∀ err : BindingError, e.errorId ≠ err.errorId
  preference : ∀ kind, e.errorId ≠ (preferenceStop kind).errorId
  release : e.errorId ≠ "ReleasePanicked"

/-- An error is that of a step which a command may not take. -/
def ErrorRecord.IsRefusal (e : ErrorRecord) : Prop :=
  ∃ refused : LifecycleError, e.errorId = refused.fault.error.errorId

theorem ErrorRecord.IsRefusal.isForeign {e : ErrorRecord} (h : e.IsRefusal) : e.IsForeign := by
  obtain ⟨refused, hrefused⟩ := h
  have hid : e.errorId = "IllegalLifecycleTransition" := hrefused
  refine ⟨fun err => ?_, fun kind => ?_, ?_⟩ <;> rw [hid]
  · cases err <;> simp [BindingError.errorId]
  · show "IllegalLifecycleTransition" ≠ "ActionPreferenceStop"
    decide
  · decide

/-- The error with which a call has to end is that of a channel whose preference is to stop. -/
theorem Setting.overstep_eq {e : ErrorRecord} (h : set.overstep journal id = some e) :
    ∃ kind, e = preferenceStop kind ∧ (set.preferences id).forKind kind = .stop := by
  induction journal using List.reverseRecOn with
  | nil => cases h
  | append_singleton journal last ih =>
    rw [overstep, List.foldl_append, ← overstep, List.foldl_cons, List.foldl_nil,
      overstepStep.eq_def] at h
    split at h
    · split at h
      · cases h
      · exact ih h
    · split at h
      · cases h
      · exact ih h
    · split at h
      · next i m hstop =>
        cases hlatest : set.overstep journal id with
        | none =>
          rw [hlatest] at h
          exact ⟨m.kind, (Option.some.inj h).symm, hstop.2⟩
        | some latest =>
          rw [hlatest] at h
          exact ih (hlatest.trans h)
      · exact ih h
    · exact ih h

/-- An error of a foreign kind is due to be reported only where a command describes one. -/
theorem Setting.described_of_due {e : Event} {source : RecordSource} {err : ErrorRecord}
    (h : set.due journal e = some (source, err)) (hforeign : err.IsForeign) :
    ∃ described, e.described? = some described ∧ described.errorId = err.errorId := by
  cases e with
  | reporting id m =>
    cases m with
    | error e =>
      obtain ⟨call, -, hcall⟩ := Option.map_eq_some_iff.mp h
      obtain rfl := (Prod.ext_iff.mp hcall).2
      exact ⟨e, rfl, rfl⟩
    | _ => cases h
  | returned id phase result =>
    obtain ⟨reported, hreported, hpair⟩ := Option.map_eq_some_iff.mp h
    obtain rfl := (Prod.ext_iff.mp hpair).2
    cases hoverstep : set.overstep journal id with
    | some stop =>
      rw [hoverstep] at hreported
      obtain ⟨kind, rfl, -⟩ := overstep_eq hoverstep
      obtain rfl := Option.some.inj hreported
      exact absurd rfl (hforeign.preference kind)
    | none =>
      rw [hoverstep] at hreported
      cases result with
      | fault f =>
        obtain rfl := Option.some.inj hreported
        exact ⟨f.error, rfl, rfl⟩
      | _ => cases hreported
  | emitted r =>
    obtain ⟨v, -, hv⟩ := Option.bind_eq_some_iff.mp h
    obtain ⟨k, -, hrejected⟩ := Option.bind_eq_some_iff.mp hv
    unfold rejection at hrejected
    split at hrejected
    · split at hrejected
      · cases hrejected
      · next binding _ =>
        obtain rfl := (Prod.ext_iff.mp (Option.some.inj hrejected)).2
        exact absurd rfl (hforeign.binding binding)
    · cases hrejected
  | _ => cases h

/-- What the steps of a block yield is yielded by one of them. -/
theorem Journal.exists_of_mem_gather {α : Type} {f : List Event → Event → Option α}
    {past block : List Event} {x : α} (h : x ∈ gather f past block) :
    ∃ before e, e ∈ block ∧ f before e = some x := by
  induction block generalizing past with
  | nil => cases h
  | cons e block ih =>
    rcases List.mem_append.mp h with h | h
    · exact ⟨past, e, .head _, Option.mem_toList.mp h⟩
    · obtain ⟨before, e', he', hx⟩ := ih h
      exact ⟨before, e', .tail _ he', hx⟩

/-- No error of a foreign kind is on the timeline of a run but where a command or its dispose hook
describes one. -/
theorem Outcome.described_of_isForeign {cleanup : List Disposal} {o : Outcome}
    (h : o.records.filterMap (fun r => r.error?.map (r.source, ·))
      = set.bindingFailure.toList ++ Journal.gather set.due [] journal
        ++ cleanup.filterMap fun d => d.error?.map (d.source, ·))
    {e : ErrorRecord} (he : e ∈ o.errors) (hforeign : e.IsForeign) :
    (∃ described ∈ journal.filterMap Event.described?, described.errorId = e.errorId)
      ∨ ∃ d ∈ cleanup, ∃ f, d.result = .ok (some f) ∧ f.error.errorId = e.errorId := by
  obtain ⟨r, hr, hre⟩ := List.mem_filterMap.mp he
  have hmem : (r.source, e) ∈ o.records.filterMap fun r => r.error?.map (r.source, ·) :=
    List.mem_filterMap.mpr ⟨r, hr, by rw [hre]; rfl⟩
  rw [h, List.mem_append, List.mem_append] at hmem
  rcases hmem with (hbinding | hdue) | hdisposed
  · -- A command that cannot be bound is reported with an error of its own kind.
    obtain ⟨k, -, hk⟩ := List.exists_of_findSome?_eq_some (Option.mem_toList.mp hbinding)
    split at hk
    · next binding _ =>
      obtain rfl := (Prod.ext_iff.mp (Option.some.inj hk)).2
      exact absurd rfl (hforeign.binding binding)
    · cases hk
  · obtain ⟨before, step, hstep, hdue⟩ := Journal.exists_of_mem_gather hdue
    obtain ⟨described, hdescribed, hid⟩ := Setting.described_of_due hdue hforeign
    exact .inl ⟨described, List.mem_filterMap.mpr ⟨step, hstep, hdescribed⟩, hid⟩
  · obtain ⟨d, hd, hentry⟩ := List.mem_filterMap.mp hdisposed
    obtain ⟨reported, hreported, hpair⟩ := Option.map_eq_some_iff.mp hentry
    obtain rfl := (Prod.ext_iff.mp hpair).2
    unfold Disposal.error? at hreported
    split at hreported
    · cases hreported
    · next f hresult =>
      obtain rfl := Option.some.inj hreported
      exact .inr ⟨d, hd, f, hresult, rfl⟩
    · obtain rfl := Option.some.inj hreported
      exact absurd rfl hforeign.release

end CommandChain
