import CommandChain.Proofs.Binding.Entries
import CommandChain.Proofs.Conduct.Steady
import CommandChain.Proofs.Streaming.Transducer
/-!
# What is left to come

What an object causes on its way through a row of commands is told by what they will still write:
`Stages.total` is what the host has and what it would get if the row were run over some more
objects, each command over all that the one before it writes. `Conveys` says that objects went into
a row and left the total as it was, whatever was cut off on the way.
-/

namespace CommandChain

/-! ## Binding an object -/

/-- An object is bound to the only parameter that takes objects, if it takes all of them and nothing
else is bound to it. -/
theorem Binder.bindObject_of_only {binder : Binder} {bound : BoundParameters} {p : Parameter}
    (honly : binder.parameters.filter Parameter.acceptsInput = [p]) (hvalue : p.pipeline = .byValue)
    (hany : p.type = .any) (hfree : bound.contains p.name = false)
    (hmissing : binder.missing? bound true = none) (v : Value) :
    binder.bindObject bound v = .ok (bound.insert p.name v .pipelineByValue) := by
  have hmem (q : Parameter) (hq : q ∈ binder.parameters) (haccepts : q.acceptsInput = true) :
      q = p := by
    have : q ∈ binder.parameters.filter Parameter.acceptsInput := List.mem_filter.mpr ⟨hq, haccepts⟩
    rw [honly] at this
    exact List.mem_singleton.mp this
  have hp : p ∈ binder.parameters := by
    have : p ∈ binder.parameters.filter Parameter.acceptsInput := by rw [honly]; exact .head _
    exact (List.mem_filter.mp this).1
  have haccepts : p.acceptsInput = true := by rw [Parameter.acceptsInput, hvalue]; rfl
  have hcandidates (way : PipelineInput) (hway : way ≠ .none) :
      binder.candidates bound way
        = [p].filter fun q => q.pipeline == way && !bound.contains q.name := by
    rw [← honly, List.filter_filter, candidates]
    refine List.filter_congr fun q _ => ?_
    cases hq : q.pipeline == way
    · rfl
    · rw [beq_iff_eq] at hq
      have : q.acceptsInput = true := by rw [Parameter.acceptsInput, hq, bne_iff_ne]; exact hway
      rw [this, Bool.and_true]
  -- The one parameter that accepts input takes the object whole, and none is left for a property.
  have hvalues : binder.candidates bound .byValue = [p] := by
    rw [hcandidates _ (by decide)]
    simp [hvalue, hfree]
  have hproperties : binder.candidates bound .byPropertyName = [] := by
    rw [hcandidates _ (by decide)]
    simp [hvalue]
  have hchosen : binder.byValue? bound v = some (p, v) := by
    rw [byValue?, hvalues]
    simp [hany]
  have hbound : ∀ q ∈ binder.parameters,
      ¬ (q.mandatory && !(bound.insert p.name v .pipelineByValue).contains q.name) = true := by
    intro q hq hmandatory
    rw [Bool.and_eq_true, Bool.not_eq_true'] at hmandatory
    have hneed := List.find?_eq_none.mp hmissing q hq
    by_cases hinput : q.acceptsInput = true
    · rw [hmem q hq hinput, BoundParameters.contains_insert_self hfree] at hmandatory
      cases hmandatory.2
    · have hcontained : bound.contains q.name = true := by
        simpa [hmandatory.1, hinput] using hneed
      rw [BoundParameters.contains_insert hfree _ _ hcontained] at hmandatory
      cases hmandatory.2
  have haccepted : binder.acceptsInput = true := List.any_eq_true.mpr ⟨p, hp, haccepts⟩
  have hlength : ((bound.insert p.name v .pipelineByValue).entries.length == bound.entries.length)
      = false := by
    rw [BoundParameters.entries_insert hfree, beq_eq_false_iff_ne]
    simp
  unfold bindObject
  rw [hchosen, hproperties, haccepted]
  simp only [bindProperties, hlength, Bool.not_true, Bool.false_eq_true, if_false]
  rw [List.find?_eq_none.mpr hbound]

/-! ## The chain -/

namespace Chain

/-- The objects that reached the host. -/
def outputs (chain : Chain) : List Value :=
  chain.records.filterMap Record.object?

/-- A command is not cut off if no cut comes from behind it. -/
theorem isCut_eq_false_iff {chain : Chain} {position : Nat} :
    chain.isCut position = false ↔ ∀ c, chain.inputCut = some c → c ≤ position := by
  simp [isCut, Option.any_eq_false]

/-- A position is cut off exactly if the input has been cut behind it. -/
theorem isCut_eq_true_iff {chain : Chain} {position : Nat} :
    chain.isCut position = true ↔ ∃ c, chain.inputCut = some c ∧ position < c := by
  simp [isCut, Option.any_eq_true]

/-- Nothing has come of a chain but notes, messages and steps of the engine. -/
structure Quiet (chain chain' : Chain) : Prop where
  adapter : chain'.adapter = chain.adapter
  scripts : chain'.scripts = chain.scripts
  stop : chain'.stop = chain.stop
  flags : chain'.flags = chain.flags
  pending : chain'.pendingStop = chain.pendingStop
  fault : chain'.fault = chain.fault
  inputCut : chain'.inputCut = chain.inputCut
  outputs : chain'.outputs = chain.outputs

namespace Quiet

variable {chain chain' chain'' : Chain}

theorem refl (chain : Chain) : Quiet chain chain :=
  ⟨rfl, rfl, rfl, rfl, rfl, rfl, rfl, rfl⟩

theorem trans (h : Quiet chain chain') (h' : Quiet chain' chain'') : Quiet chain chain'' :=
  ⟨h'.adapter.trans h.adapter, h'.scripts.trans h.scripts, h'.stop.trans h.stop,
    h'.flags.trans h.flags, h'.pending.trans h.pending, h'.fault.trans h.fault,
    h'.inputCut.trans h.inputCut, h'.outputs.trans h.outputs⟩

theorem log (chain : Chain) (e : Event) : Quiet chain (chain.log e) :=
  ⟨rfl, rfl, rfl, rfl, rfl, rfl, rfl, rfl⟩

theorem note (chain : Chain) (text : String) : Quiet chain (chain.note text) :=
  ⟨rfl, rfl, rfl, rfl, rfl, rfl, rfl, rfl⟩

theorem noteAll (chain : Chain) (texts : List String) : Quiet chain (chain.noteAll texts) := by
  induction texts generalizing chain with
  | nil => exact refl chain
  | cons text texts ih => exact (note chain text).trans (ih _)

/-- A chain that a command ran, and that signaled no token, leaves no more than notes. -/
theorem absorb (chain : Chain) {report : ChainReport} (h : report.signals = []) :
    Quiet chain (chain.absorb report) := by
  rw [Chain.absorb, h]
  exact noteAll chain report.notes

/-- Making a record is quiet: the record is not delivered yet. -/
theorem emit (chain : Chain) (payload : Payload) (source : RecordSource) :
    Quiet chain (chain.emit payload source).2 :=
  ⟨rfl, rfl, rfl, rfl, rfl, rfl, rfl, rfl⟩

/-- Delivering a record that is no object is quiet. -/
theorem deliverToHost (chain : Chain) {r : Record} (hr : r.object? = none) :
    Quiet chain (chain.deliverToHost r) := by
  refine ⟨rfl, rfl, rfl, rfl, rfl, rfl, rfl, ?_⟩
  rw [Chain.outputs, records_deliverToHost, List.filterMap_append, List.filterMap_cons_none hr,
    List.filterMap_nil, List.append_nil, Chain.outputs]

/-- Reporting an error is quiet. -/
theorem emitError (chain : Chain) (source : RecordSource) (e : ErrorRecord) :
    Quiet chain (chain.emitError source e) :=
  (emit chain _ source).trans (deliverToHost _ rfl)

/-- Another cut upstream of a cut changes nothing. -/
theorem cutInput {position : Nat} (h : chain.isCut position = true) (id : CommandId) :
    Quiet chain (chain.cutInput id position) := by
  obtain ⟨c, hc, hlt⟩ := isCut_eq_true_iff.mp h
  refine ⟨rfl, rfl, rfl, rfl, rfl, rfl, ?_, rfl⟩
  rw [Chain.cutInput, hc]
  exact congrArg some (Nat.max_eq_left (Nat.le_of_lt hlt))

/-- Quiet steps cut nothing off. -/
theorem isCut (h : Quiet chain chain') (position : Nat) :
    chain'.isCut position = chain.isCut position := by
  rw [Chain.isCut, h.inputCut, Chain.isCut]

/-- Quiet steps do not halt a chain. -/
theorem isHalted (h : Quiet chain chain') : chain'.isHalted = chain.isHalted := by
  rw [Chain.isHalted, h.stop, h.flags, Chain.isHalted]

end Quiet

/-- A chain goes on without trouble, in the surroundings of another one. -/
structure Smooth (chain base : Chain) : Prop where
  adapter : chain.adapter = base.adapter
  scripts : chain.scripts = base.scripts
  flags : chain.flags = base.flags
  running : chain.isHalted = false
  pending : chain.pendingStop = none
  fault : chain.fault = none

/-- A smooth chain stays smooth by quiet steps. -/
theorem Smooth.quiet {base chain chain' : Chain} (h : chain.Smooth base)
    (hquiet : chain.Quiet chain') : chain'.Smooth base :=
  ⟨hquiet.adapter.trans h.adapter, hquiet.scripts.trans h.scripts, hquiet.flags.trans h.flags,
    hquiet.isHalted.trans h.running, hquiet.pending.trans h.pending, hquiet.fault.trans h.fault⟩

/-- What a command sees of a call is what it would see at the start. -/
theorem Smooth.call_eq {base chain : Chain} (h : chain.Smooth base) (stage : Stage) (phase : Phase)
    (parameters : BoundParameters) (input : Option Value) :
    stage.call chain phase parameters input = stage.call base phase parameters input := by
  unfold Stage.call
  rw [h.adapter, h.scripts]

/-- A smooth chain stays smooth when the input of a command is cut. -/
theorem Smooth.cutInput {base chain : Chain} (h : chain.Smooth base) (id : CommandId)
    (position : Nat) : (chain.cutInput id position).Smooth base :=
  ⟨h.adapter, h.scripts, h.flags, h.running, h.pending, h.fault⟩

end Chain

/-! ## Rows of commands -/

/-- A command at its place in a row takes objects and streams, as long as it is not cut off. -/
structure Stage.Ready (base : Chain) (cut : Option Nat) (k : Nat) (stage : Stage) : Prop where
  position : stage.position = k
  running : stage.state.isRunning = true
  empty : stage.input.slot = none
  binds : ∀ v, (stage.binder base.adapter).bindObject stage.bound v = .ok (stage.withObject v)
  errors : stage.preferences.errorAction ≠ .stop ∨ stage.command.Faultless
  streams : (∀ c, cut = some c → c ≤ k) → (stage.transducer base).Streams stage.preferences
    (stage.transducer base).Saturated stage.memory
  saturated : cut = some k → (stage.transducer base).Saturated stage.memory

/-- Moreover, objects may still be pushed into its pipe. -/
structure Stage.Open (base : Chain) (cut : Option Nat) (k : Nat) (stage : Stage) : Prop
    extends stage.Ready base cut k where
  opened : stage.input.closed = false

variable {base chain chain' chain'' : Chain} {cut cut' : Option Nat} {k n : Nat}
  {row row' row'' : Stages n}

/-- A command stays as it is where a cut comes from elsewhere. -/
theorem Stage.Open.mono {stage : Stage} (h : stage.Open base cut k)
    (hraised : (∀ c, cut' = some c → c ≤ k) → ∀ c, cut = some c → c ≤ k)
    (helsewhere : cut' = some k → cut = some k) : stage.Open base cut' k :=
  ⟨⟨h.position, h.running, h.empty, h.binds, h.errors, fun hfree => h.streams (hraised hfree),
    fun hcut => h.saturated (helsewhere hcut)⟩, h.opened⟩

namespace Stages

/-- What a row still writes for a list of objects. A command that is cut off writes nothing more. -/
def remaining (base : Chain) (cut : Option Nat) : {n : Nat} → Stages n → List Value → List Value
  | _, nil, vs => vs
  | _, cons stage rest, vs =>
    rest.remaining base cut (if cut.any (stage.position < ·) then [] else stage.outputs base vs)

/-- What the host has, and would get if the row were run over a list of objects. -/
def total (base : Chain) (row : Stages n) (chain : Chain) (vs : List Value) : List Value :=
  chain.outputs ++ row.remaining base chain.inputCut vs

/-- A command that is cut off writes nothing more. -/
theorem total_cons_of_cut {stage : Stage} {rest : Stages n} (hposition : stage.position = k)
    (hcut : chain.isCut k = true) (vs : List Value) :
    (cons stage rest).total base chain vs = rest.total base chain [] := by
  rw [Chain.isCut, ← hposition] at hcut
  rw [total, remaining, if_pos hcut]
  rfl

/-- What a command that is not cut off writes goes into the row behind it. -/
theorem total_cons_of_not_cut {stage : Stage} {rest : Stages n} (hposition : stage.position = k)
    (hcut : chain.isCut k = false) (vs : List Value) :
    (cons stage rest).total base chain vs = rest.total base chain (stage.outputs base vs) := by
  rw [Chain.isCut, ← hposition, ← Bool.not_eq_true] at hcut
  rw [total, remaining, if_neg hcut]
  rfl

/-- In front of a cut it does not matter what comes. -/
theorem remaining_of_cut {c : Nat} (h : row.Holds (Stage.Open base (some c)) k) (hk : k ≤ c)
    (hc : c < k + n) (vs : List Value) :
    row.remaining base (some c) vs = row.remaining base (some c) [] := by
  cases row with
  | nil => omega
  | cons stage rest =>
    rw [remaining, remaining]
    by_cases hcut : k < c
    · simp [h.1.position, hcut]
    · have hsame : c = k := by omega
      have hsaturated := h.1.saturated (congrArg some hsame)
      have hnone : (some c).any (stage.position < ·) = false := by simp [h.1.position, hcut]
      simp only [hnone, Bool.false_eq_true, if_false, Stage.outputs, hsaturated vs, hsaturated []]

/-- A cut leaves what a row writes as it is, since the command that declares it is saturated. -/
theorem remaining_eq (h : row.Holds (Stage.Open base cut) k) (hcut : ∀ c, cut = some c → c < k + n)
    (vs : List Value) : row.remaining base cut vs = row.remaining base none vs := by
  induction row generalizing k vs with
  | nil => rfl
  | cons stage rest ih =>
    have hrest := ih h.2 (fun c hc => by have := hcut c hc; omega)
    rw [remaining, remaining, ← hrest]
    by_cases hstage : cut.any (stage.position < ·) = true
    · obtain ⟨c, hc, hlt⟩ := (Option.any_eq_true ..).mp hstage
      subst hc
      have hbound := hcut c rfl
      rw [if_pos hstage]
      refine (remaining_of_cut h.2 ?_ (by omega) _).symm
      rw [decide_eq_true_eq, h.1.position] at hlt
      exact hlt
    · rw [if_neg hstage]
      rfl

end Stages

/-- Objects went into a row, and with what they caused the total is as it was. The row goes on
streaming, behind the same cut or one further down. -/
structure Conveys (base : Chain) (k : Nat) (vs : List Value) {n : Nat} (row : Stages n)
    (chain : Chain) (row' : Stages n) (chain' : Chain) : Prop where
  smooth : chain.Smooth base → chain'.Smooth base
  raised : ∀ i, chain.isCut i = true → chain'.isCut i = true
  bounded : ∀ c, chain'.inputCut = some c → c < k + n
  holds : row'.Holds (Stage.Open base chain'.inputCut) k
  total : ∀ ws, row'.total base chain' ws = row.total base chain (vs ++ ws)

namespace Conveys

variable {vs ws : List Value}

/-- What conveys some values and then others conveys them one after the other. -/
theorem trans (h : Conveys base k vs row chain row' chain')
    (h' : Conveys base k ws row' chain' row'' chain'') :
    Conveys base k (vs ++ ws) row chain row'' chain'' := by
  refine ⟨fun hsmooth => h'.smooth (h.smooth hsmooth), fun i hi => h'.raised i (h.raised i hi),
    h'.bounded, h'.holds, fun us => ?_⟩
  rw [h'.total, h.total, List.append_assoc]

/-- Nothing went into a row. -/
theorem of_quiet (hquiet : chain.Quiet chain') (hbounded : ∀ c, chain.inputCut = some c → c < k + n)
    (h : row.Holds (Stage.Open base chain.inputCut) k) :
    Conveys base k [] row chain row chain' := by
  refine ⟨fun hsmooth => hsmooth.quiet hquiet, fun i hi => ?_, ?_, ?_, fun us => ?_⟩
  · rw [hquiet.isCut, hi]
  · rwa [hquiet.inputCut]
  · rwa [hquiet.inputCut]
  · rw [Stages.total, Stages.total, hquiet.inputCut, hquiet.outputs, List.nil_append]

/-- Quiet steps at the end do not change what was conveyed. -/
theorem quiet (h : Conveys base k vs row chain row' chain') (hquiet : chain'.Quiet chain'') :
    Conveys base k vs row chain row' chain'' := by
  have := h.trans (of_quiet hquiet h.bounded h.holds)
  rwa [List.append_nil] at this

/-- In front of a cut nothing goes into a row, and it makes no difference. -/
theorem of_cut (hquiet : chain.Quiet chain') (hbounded : ∀ c, chain.inputCut = some c → c < k + n)
    (h : row.Holds (Stage.Open base chain.inputCut) k) {c : Nat} (hc : chain.inputCut = some c)
    (hk : k ≤ c) (vs : List Value) : Conveys base k vs row chain row chain' := by
  have hnothing := of_quiet hquiet hbounded h
  refine ⟨hnothing.smooth, hnothing.raised, hnothing.bounded, hnothing.holds, fun us => ?_⟩
  rw [hnothing.total, List.nil_append, Stages.total, Stages.total, hc]
  rw [hc] at h
  rw [Stages.remaining_of_cut h hk (hbounded c hc) us,
    Stages.remaining_of_cut h hk (hbounded c hc) (vs ++ us)]

end Conveys

end CommandChain
