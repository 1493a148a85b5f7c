import CommandChain.Proofs.Conduct.Delivery
import CommandChain.Proofs.Streaming.Row
/-!
# Pushing objects into a row

An object that is pushed into a row of streaming commands is conveyed. By the recursion of the
engine, what holds of pushes into the row behind a command holds of its writes, then of the hook
that makes them, of the call that serves the hook, and of a push into the row with the command.
-/

namespace CommandChain

variable {base chain : Chain} {k n : Nat} {σ : Type} {saturated : σ → Prop}

/-- Pushes into a row at a position, behind all cuts, convey the object. A push that stops says that
the command that wrote the object is cut off. -/
structure Conducts (base : Chain) (k : Nat) {n : Nat} (row : Stages n) (chain : Chain) (v : Value)
    (pushed : Pushed n) : Prop where
  conveys : Conveys base k [v] row chain pushed.stages pushed.chain
  outcome : pushed.outcome = .ok .ok
    ∨ pushed.outcome = .ok .stopped ∧ ∃ c, pushed.chain.inputCut = some c ∧ k ≤ c
  cut : ∀ c, pushed.chain.inputCut = some c → c < k → chain.inputCut = some c

/-- A way to push objects that conveys them. -/
def Push.Conducting (base : Chain) (k : Nat) {n : Nat} (push : Push n) : Prop :=
  ∀ row chain r v, chain.Smooth base → r.object? = some v → (∀ c, chain.inputCut = some c → c < k) →
    row.Holds (Stage.Open base chain.inputCut) k → Conducts base k row chain v (push row chain r)

/-- Where a command is not cut off, all cuts lie in front of the end of the row behind it. -/
theorem Chain.lt_of_not_cut (hcut : chain.isCut k = false) (c : Nat) (hc : chain.inputCut = some c) :
    c < k + 1 + n := by
  have := Chain.isCut_eq_false_iff.mp hcut c hc
  omega

namespace Conducts

variable {rest : Stages n} {chain' : Chain} {v : Value} {pushed : Pushed n}

/-- A push does what it would have done had the quiet steps before it not been taken. -/
theorem of_quiet (h : Conducts base (k + 1) rest chain' v pushed) (hquiet : chain.Quiet chain')
    (hcut : chain.isCut k = false) (hrest : rest.Holds (Stage.Open base chain.inputCut) (k + 1)) :
    Conducts base (k + 1) rest chain v pushed :=
  ⟨(Conveys.of_quiet hquiet (Chain.lt_of_not_cut hcut) hrest).trans h.conveys, h.outcome,
    fun c hc hlt => hquiet.inputCut.symm.trans (h.cut c hc hlt)⟩

/-- Quiet steps after a push change nothing of what it did. -/
theorem quiet (h : Conducts base k rest chain v pushed) (hquiet : pushed.chain.Quiet chain') :
    Conducts base k rest chain v ⟨pushed.outcome, pushed.stages, chain'⟩ := by
  refine ⟨h.conveys.quiet hquiet, ?_, fun c hc hlt => h.cut c (hquiet.inputCut.symm.trans hc) hlt⟩
  rw [hquiet.inputCut]
  exact h.outcome

end Conducts

/-! ## Calls -/

namespace Call

variable {call : Call}

/-- In a smooth chain a call is not told to stop unless its input is cut. -/
theorem isStopping_of_smooth (h : chain.Smooth base) (hcut : chain.isCut call.position = false) :
    call.isStopping chain = false := by
  rw [isStopping, h.running, hcut, Chain.hasPendingStop, h.pending]
  rfl

/-- A call whose input is cut is told to stop. -/
theorem isStopping_of_cut (hcut : chain.isCut call.position = true) :
    call.isStopping chain = true := by
  rw [isStopping, hcut, Bool.or_true, Bool.true_or]

/-- A message is accepted where its preference is not to stop. -/
theorem report_quiet {m : Message} (h : call.preferences.forKind m.kind ≠ .stop) (chain : Chain) :
    (call.report m chain).1 = .ok ∧ chain.Quiet (call.report m chain).2 := by
  have hpreference : (call.preferences.forKind (call.complete m).kind == .stop) = false := by
    rw [call.kind_complete, beq_eq_false_iff_ne]
    exact h
  have hemit := Chain.Quiet.emit chain (.message (call.complete m)) call.source
  rw [report, hpreference]
  simp only [Bool.false_eq_true, if_false, true_and]
  split
  · exact hemit.trans (.deliverToHost _ rfl)
  · exact hemit

end Call

/-- What a call that streams returns: it stopped or completes, without a fault if its hook returns
none. -/
structure CallResult.Mild (faultless : Prop) (result : CallResult) : Prop where
  goesOn : result = .stopped ∨ result.completes = true
  faultless : faultless → result = .ok ∨ result = .stopped

/-- A result that is mild under one condition is mild under any that implies it. -/
theorem CallResult.Mild.mono {faultless faultless' : Prop} {result : CallResult}
    (h : result.Mild faultless) (himp : faultless' → faultless) : result.Mild faultless' :=
  ⟨h.goesOn, fun h' => h.faultless (himp h')⟩

/-- What serving a hook of a command that is cut off comes to: nothing. -/
structure Served.Vain (faultless : Prop) (rest : Stages n) (chain : Chain) (served : Served σ n) :
    Prop where
  outcome : ∃ result, served.outcome = .ok result ∧ result.Mild faultless
  rest : served.rest = rest
  quiet : chain.Quiet served.chain

section

variable {faultless faultless' : Prop} {rest : Stages n} {chain' : Chain} {served : Served σ n}

/-- A call made in vain stays so with quiet steps before it. -/
theorem Served.Vain.of_quiet (h : served.Vain faultless rest chain') (hquiet : chain.Quiet chain') :
    served.Vain faultless rest chain :=
  ⟨h.outcome, h.rest, hquiet.trans h.quiet⟩

/-- A call made in vain under one condition is so under any that implies it. -/
theorem Served.Vain.mono (h : served.Vain faultless rest chain) (himp : faultless' → faultless) :
    served.Vain faultless' rest chain :=
  ⟨h.outcome.imp fun _ hresult => ⟨hresult.1, hresult.2.mono himp⟩, h.rest, h.quiet⟩

end

/-- A command that is cut off writes nothing: its hook subsides. -/
theorem serve_of_cut {call : Call} (push : Push n) (rest : Stages n) (hook : Hook σ) (memory : σ)
    (chain : Chain) (hcut : chain.isCut call.position = true)
    (h : hook.Subsides chain.flags call.preferences) :
    (serve call push hook memory rest chain).Vain hook.Faultless rest chain := by
  induction hook generalizing memory chain with
  | done result => exact ⟨⟨result, rfl, h, id⟩, rfl, .refl chain⟩
  | store memory' next ih => exact ih memory' chain hcut h
  | note text next ih => exact (ih memory (chain.note text) hcut h).of_quiet (.note chain text)
  | write v next ih =>
    -- The write is refused, and what the hook does after a refusal subsides too.
    have hstop : call.isStopping (chain.log (.writing call.id v)) = true :=
      Call.isStopping_of_cut hcut
    have hvain := ih .stopped memory
      ((chain.log (.writing call.id v)).log (.wrote call.id .stopped)) hcut h
    unfold serve
    simp only [Call.writeObject, hstop, if_true]
    exact ((hvain.of_quiet (.log _ _)).of_quiet (.log _ _)).mono And.right
  | report m next ih =>
    obtain ⟨hok, hreport⟩ := Call.report_quiet h.1 (chain.log (.reporting call.id m))
    have hquiet := (Chain.Quiet.log chain (.reporting call.id m)).trans hreport
    have hvain := ih .ok memory _ (by rw [hquiet.isCut, hcut])
      (by rw [hquiet.flags]; exact h.2)
    unfold serve
    simp only [hok]
    exact hvain.of_quiet hquiet
  | cutInput next ih =>
    have hquiet := Chain.Quiet.cutInput hcut call.id
    have hvain := ih memory (chain.cutInput call.id call.position) (by rw [hquiet.isCut, hcut]) h
    exact hvain.of_quiet hquiet
  | askStopping next ih =>
    unfold serve
    rw [Call.isStopping_of_cut hcut]
    exact (ih true memory chain hcut h).mono fun hfaultless => hfaultless true
  | askSignaled token next ih => exact (ih _ memory chain hcut h).mono fun hfaultless => hfaultless _
  | runChain run next ih =>
    obtain ⟨hsignals, outcome, hout, hnext⟩ := h
    have hquiet := Chain.Quiet.absorb chain hsignals
    unfold serve
    simp only [hout]
    have hvain := ih outcome memory _ (by rw [hquiet.isCut, hcut]) (by rwa [hquiet.flags])
    exact (hvain.of_quiet hquiet).mono fun hfaultless => hfaultless outcome
  | _ => exact h.elim

/-- What serving a hook of a streaming command comes to. As long as the command is not cut off, the
hook does what it yields; what it yields is conveyed in any case. -/
structure Served.Streamed (base : Chain) (k : Nat) (saturated : σ → Prop) (faultless : Prop)
    (y : Yield σ) (rest : Stages n) (chain : Chain) (served : Served σ n) : Prop where
  conveys : Conveys base (k + 1) y.written rest chain served.rest served.chain
  outcome : ∃ result, served.outcome = .ok result ∧ result.Mild faultless
  kept : served.chain.isCut k = false → served.outcome = .ok y.result ∧ served.memory = y.memory
  cut : ∀ c, served.chain.inputCut = some c → c ≤ k →
    chain.inputCut = some c ∨ c = k ∧ saturated served.memory

namespace Served

variable {faultless faultless' : Prop} {y : Yield σ} {rest rest' : Stages n} {chain' : Chain}
  {served : Served σ n}

/-- Objects that were conveyed before the rest of a hook was served count with what it yields. -/
theorem Streamed.after {vs : List Value}
    (h : served.Streamed base k saturated faultless y rest' chain')
    (hbefore : Conveys base (k + 1) vs rest chain rest' chain')
    (hsame : ∀ c, chain'.inputCut = some c → c ≤ k → chain.inputCut = some c) :
    served.Streamed base k saturated faultless ⟨y.memory, vs ++ y.written, y.result⟩ rest chain :=
  ⟨hbefore.trans h.conveys, h.outcome, h.kept,
    fun c hc hle => (h.cut c hc hle).imp_left fun hc => hsame c hc hle⟩

/-- A call that streamed under one condition did so under any that implies it. -/
theorem Streamed.mono (h : served.Streamed base k saturated faultless y rest chain)
    (himp : faultless' → faultless) :
    served.Streamed base k saturated faultless' y rest chain :=
  ⟨h.conveys, h.outcome.imp fun _ hresult => ⟨hresult.1, hresult.2.mono himp⟩, h.kept, h.cut⟩

/-- A call that streamed has done so from before the quiet steps that went ahead of it. -/
theorem Streamed.of_quiet (h : served.Streamed base k saturated faultless y rest chain')
    (hquiet : chain.Quiet chain') (hcut : chain.isCut k = false)
    (hrest : rest.Holds (Stage.Open base chain.inputCut) (k + 1)) :
    served.Streamed base k saturated faultless y rest chain :=
  h.after (.of_quiet hquiet (Chain.lt_of_not_cut hcut) hrest)
    fun _ hc _ => hquiet.inputCut.symm.trans hc

/-- Where the command is cut off, what its hook still does counts as what it yields. -/
theorem Vain.streamed (h : served.Vain faultless rest chain) {c : Nat} (hc : chain.inputCut = some c)
    (hk : k < c) (hbounded : c < k + 1 + n)
    (hrest : rest.Holds (Stage.Open base chain.inputCut) (k + 1)) (y : Yield σ) :
    served.Streamed base k saturated faultless y rest chain := by
  obtain ⟨hout, hsame, hquiet⟩ := h
  have hbound : ∀ d, chain.inputCut = some d → d < k + 1 + n := by
    intro d hd
    rw [hc] at hd
    cases hd
    exact hbounded
  have hcut : served.chain.inputCut = some c := hquiet.inputCut.trans hc
  refine ⟨?_, hout, fun hfree => ?_, fun d hd hle => ?_⟩
  · rw [hsame]
    exact .of_cut hquiet hbound hrest hc hk y.written
  · rw [Chain.isCut_eq_false_iff] at hfree
    have := hfree c hcut
    omega
  · rw [hcut] at hd
    cases hd
    omega

end Served

/-- Where a command that is not cut off declares a cut, it is the one furthest down. -/
theorem Chain.inputCut_cutInput (id : CommandId) (hcut : chain.isCut k = false) :
    (chain.cutInput id k).inputCut = some k := by
  rw [Chain.isCut_eq_false_iff] at hcut
  unfold Chain.cutInput
  cases hc : chain.inputCut with
  | none => rfl
  | some c => exact congrArg some (Nat.max_eq_right (hcut c hc))

/-- A cut leaves the total of the row behind the command as it is. -/
theorem Conveys.cutInput {rest : Stages n} (id : CommandId) (hcut : chain.isCut k = false)
    (hrest : rest.Holds (Stage.Open base chain.inputCut) (k + 1)) :
    Conveys base (k + 1) [] rest chain rest (chain.cutInput id k) := by
  have hat := Chain.inputCut_cutInput id hcut
  rw [Chain.isCut_eq_false_iff] at hcut
  have hrest' : rest.Holds (Stage.Open base (some k)) (k + 1) :=
    hrest.mono fun i stage hi _ hopen => hopen.mono
      (fun _ c hc => by have := hcut c hc; omega) (fun heq => by cases heq; omega)
  refine ⟨fun hsmooth => hsmooth.cutInput id k, fun i hi => ?_, fun c hc => ?_, ?_, fun ws => ?_⟩
  · obtain ⟨c, hc, hlt⟩ := Chain.isCut_eq_true_iff.mp hi
    have := hcut c hc
    exact Chain.isCut_eq_true_iff.mpr ⟨k, hat, by omega⟩
  · rw [hat] at hc
    cases hc
    omega
  · rwa [hat]
  · have hleft := Stages.remaining_eq hrest' (fun c hc => by cases hc; omega) ws
    have hright := Stages.remaining_eq hrest (fun c hc => by have := hcut c hc; omega) ws
    rw [Stages.total, Stages.total, hat, hleft, List.nil_append, hright]
    rfl

/-- A write of a command that is not cut off conveys the object. -/
theorem Call.writeObject_conducts {call : Call} {push : Push n} (hpush : push.Conducting base (k + 1))
    (hposition : call.position = k) (hphase : call.phase ≠ .begin) (v : Value) {rest : Stages n}
    (hsmooth : chain.Smooth base) (hcut : chain.isCut k = false)
    (hrest : rest.Holds (Stage.Open base chain.inputCut) (k + 1)) :
    Conducts base (k + 1) rest chain v (call.writeObject push v rest chain) := by
  have hstop : call.isStopping chain = false := isStopping_of_smooth hsmooth (by rwa [hposition])
  have hbegin : (call.phase == .begin) = false := beq_eq_false_iff_ne.mpr hphase
  have hemit := Chain.Quiet.emit chain (.object v) call.source
  have hpushed := hpush rest (chain.emit (.object v) call.source).2
    (chain.emit (.object v) call.source).1 v (hsmooth.quiet hemit) rfl
    (fun c hc => Nat.lt_succ_of_le (Chain.isCut_eq_false_iff.mp hcut c (hemit.inputCut.symm.trans hc)))
    (by rwa [hemit.inputCut])
  unfold writeObject
  simp only [hstop, hbegin, Bool.false_eq_true, if_false]
  exact hpushed.of_quiet hemit hcut hrest

/-- What a hook does after it wrote an object. Where the command is cut off by then, the rest of the
hook subsides. -/
theorem Conducts.streamed {call : Call} {push : Push n} {v : Value} {rest rest' : Stages n}
    {chain' : Chain} {next : CallResult → Hook σ} {memory : σ} {result : CallResult}
    (h : Conducts base (k + 1) rest chain v ⟨.ok result, rest', chain'⟩)
    (hposition : call.position = k) (hsmooth : chain.Smooth base)
    (hstreams : (Hook.write v next).Streams base.flags call.preferences saturated memory)
    (hnext : chain'.isCut k = false → (serve call push (next .ok) memory rest' chain').Streamed base k
      saturated (next .ok).Faultless ((next .ok).yield base.flags memory) rest' chain') :
    (serve call push (next result) memory rest' chain').Streamed base k saturated
      (Hook.write v next).Faultless ((Hook.write v next).yield base.flags memory) rest chain := by
  obtain ⟨hconveys, hout, hcuts⟩ := h
  have hsame (c : Nat) (hc : chain'.inputCut = some c) (hle : c ≤ k) : chain.inputCut = some c :=
    hcuts c hc (Nat.lt_succ_of_le hle)
  have hflags : chain'.flags = base.flags := (hconveys.smooth hsmooth).flags
  have hvain {c : Nat} (hc : chain'.inputCut = some c) (hk : k < c) (result : CallResult)
      (hsubsides : (next result).Subsides base.flags call.preferences) :
      (serve call push (next result) memory rest' chain').Streamed base k saturated
        (next result).Faultless ((next .ok).yield base.flags memory) rest' chain' := by
    have hcut : chain'.isCut call.position = true := by
      rw [hposition]
      exact Chain.isCut_eq_true_iff.mpr ⟨c, hc, hk⟩
    have hserved := serve_of_cut push rest' (next result) memory chain' hcut (by rwa [hflags])
    exact hserved.streamed hc hk (hconveys.bounded c hc) hconveys.holds _
  -- A write that was stopped tells of a cut. After one that was not, a cut may still have come.
  rcases hout with hok | ⟨hstopped, c, hc, hle⟩
  · obtain rfl : result = .ok := Except.ok.inj hok
    cases hcut : chain'.isCut k with
    | false => exact ((hnext hcut).after hconveys hsame).mono And.left
    | true =>
      obtain ⟨c, hc, hk⟩ := Chain.isCut_eq_true_iff.mp hcut
      exact ((hvain hc hk .ok hstreams.1.subsides).after hconveys hsame).mono And.left
  · obtain rfl : result = .stopped := Except.ok.inj hstopped
    exact ((hvain hc hle .stopped hstreams.2).after hconveys hsame).mono And.right

/-- A hook of a streaming command that is not cut off is served. -/
theorem serve_streamed (call : Call) {push : Push n} (hpush : push.Conducting base (k + 1))
    (hposition : call.position = k) (hphase : call.phase ≠ .begin) (hook : Hook σ) (memory : σ)
    (rest : Stages n) (chain : Chain) (hsmooth : chain.Smooth base) (hcut : chain.isCut k = false)
    (hrest : rest.Holds (Stage.Open base chain.inputCut) (k + 1))
    (h : hook.Streams base.flags call.preferences saturated memory) :
    (serve call push hook memory rest chain).Streamed base k saturated hook.Faultless
      (hook.yield base.flags memory) rest chain := by
  induction hook generalizing memory rest chain with
  | done result =>
    exact ⟨.of_quiet (.refl chain) (Chain.lt_of_not_cut hcut) hrest, ⟨result, rfl, .inr h, id⟩,
      fun _ => ⟨rfl, rfl⟩, fun c hc _ => .inl hc⟩
  | store memory' next ih => exact ih memory' rest chain hsmooth hcut hrest h
  | note text next ih =>
    have hquiet := Chain.Quiet.note chain text
    exact (ih memory rest (chain.note text) (hsmooth.quiet hquiet) hcut hrest h).of_quiet hquiet hcut
      hrest
  | report m next ih =>
    obtain ⟨hok, hreport⟩ := Call.report_quiet h.1 (chain.log (.reporting call.id m))
    have hquiet := (Chain.Quiet.log chain (.reporting call.id m)).trans hreport
    have hnext := ih .ok memory rest _ (hsmooth.quiet hquiet)
      (by rw [hquiet.isCut, hcut]) (by rwa [hquiet.inputCut]) h.2
    unfold serve
    simp only [hok]
    exact hnext.of_quiet hquiet hcut hrest
  | askStopping next ih =>
    unfold serve
    rw [Call.isStopping_of_smooth hsmooth (by rwa [hposition])]
    exact (ih false memory rest chain hsmooth hcut hrest h.1).mono fun hfaultless => hfaultless false
  | askSignaled token next ih =>
    have hnext := ih (base.flags.isSignaled token) memory rest chain hsmooth hcut hrest h
    unfold serve
    rw [hsmooth.flags]
    exact hnext.mono fun hfaultless => hfaultless _
  | runChain run next ih =>
    obtain ⟨hsignals, outcome, hout, hnext⟩ := h
    have hquiet := Chain.Quiet.absorb chain hsignals
    have hserved := ih outcome memory rest (chain.absorb (run base.flags)) (hsmooth.quiet hquiet)
      (by rw [hquiet.isCut, hcut]) (by rwa [hquiet.inputCut]) hnext
    rw [Hook.yield_runChain hout]
    unfold serve
    simp only [hsmooth.flags, hout]
    exact (hserved.of_quiet hquiet hcut hrest).mono fun hfaultless => hfaultless outcome
  | cutInput next ih =>
    have hbefore := Conveys.cutInput call.id hcut hrest
    have hat := Chain.inputCut_cutInput call.id hcut
    have hcut' : (chain.cutInput call.id k).isCut k = false := by
      simp [Chain.isCut, hat]
    have hnext := ih memory rest (chain.cutInput call.id k) (hsmooth.cutInput call.id k) hcut'
      hbefore.holds h.2
    unfold serve
    rw [hposition]
    refine ⟨hbefore.trans hnext.conveys, hnext.outcome, hnext.kept, fun c hc hle => .inr ?_⟩
    -- If the cut is still this one, the hook left the saturated memory that it declared it for.
    rcases hnext.cut c hc hle with hc' | hsaturated
    · rw [hat] at hc'
      cases hc'
      have hfree :
          (serve call push next memory rest (chain.cutInput call.id k)).chain.isCut k = false := by
        simp [Chain.isCut, hc]
      rw [(hnext.kept hfree).2]
      exact ⟨rfl, h.1⟩
    · exact hsaturated
  | write v next ih =>
    have hlog := Chain.Quiet.log chain (.writing call.id v)
    have hwrote := (Call.writeObject_conducts hpush hposition hphase v (hsmooth.quiet hlog)
      (by rwa [hlog.isCut]) (by rwa [hlog.inputCut])).of_quiet hlog hcut hrest
    unfold serve
    generalize call.writeObject push v rest (chain.log (.writing call.id v)) = pushed at hwrote ⊢
    obtain ⟨outcome, rest', chain'⟩ := pushed
    have hokay : ∃ result, outcome = .ok result := by
      rcases hwrote.outcome with hok | ⟨hstopped, -⟩
      · exact ⟨.ok, hok⟩
      · exact ⟨.stopped, hstopped⟩
    obtain ⟨result, rfl⟩ := hokay
    have hwrote' := hwrote.quiet (.log chain' (.wrote call.id result))
    refine hwrote'.streamed hposition hsmooth h fun hcut' => ?_
    exact ih .ok memory rest' _ (hwrote'.conveys.smooth hsmooth) hcut' hwrote'.conveys.holds h.1
  | _ => exact h.elim

/-- Where nothing is pending, and errors do not stop the chain or there are none, a call that did not
fail is settled with no more than a message. -/
theorem settle_quiet (stage : Stage) (chain : Chain) (hpending : chain.pendingStop = none)
    {faultless : Prop} (herrors : stage.preferences.errorAction ≠ .stop ∨ faultless) (phase : Phase)
    (input : Option Value) {result : CallResult} (h : result.Mild faultless) :
    (settle stage chain phase input result).1 = (if result.completes then .ok else .stopped)
      ∧ (settle stage chain phase input result).2.1 = stage
      ∧ chain.Quiet (settle stage chain phase input result).2.2 := by
  cases result with
  | ok =>
    rw [settle_ok stage hpending]
    exact ⟨rfl, rfl, .refl chain⟩
  | stopped =>
    rw [settle_stopped stage hpending]
    exact ⟨rfl, rfl, .refl chain⟩
  | fault f =>
    have hgoes : f.terminating = false := by simpa [CallResult.completes] using h.goesOn
    have herror : stage.preferences.errorAction ≠ .stop :=
      herrors.resolve_right fun hfaultless => by simpa using h.faultless hfaultless
    rw [settle_fault stage hpending phase input hgoes herror]
    exact ⟨by simp [CallResult.completes, hgoes], rfl, .emitError chain _ _⟩

/-- Where nothing is pending, and errors do not stop the chain or there are none, a call whose hook did
not fail leaves what the hook left, and no more than messages and steps. -/
theorem invoke_of_served {push : Push n} {stage : Stage} {rest : Stages n} {phase : Phase}
    {state : CommandState} (bound : Option BoundParameters) (input : Option Value)
    {served : Served stage.command.Memory n} {result : CallResult} {faultless : Prop}
    (henter : stage.state.entering phase = .ok state)
    (herrors : stage.preferences.errorAction ≠ .stop ∨ faultless) (hsmooth : chain.Smooth base)
    (hserved : serve (stage.call base phase (bound.getD stage.bound) input) push
      (stage.command.hook (stage.call base phase (bound.getD stage.bound) input) stage.memory)
      stage.memory rest (chain.log (.called stage.id phase (bound.getD stage.bound) input))
        = served)
    (hout : served.outcome = .ok result) (hpending : served.chain.pendingStop = none)
    (hresult : result.Mild faultless) :
    ∃ chain', served.chain.Quiet chain' ∧ invoke push stage rest chain phase bound input
      = ⟨.ok (if result.completes then .ok else .stopped),
        { stage with state := state, memory := served.memory }, served.rest, chain'⟩ := by
  have hcall :
      ({ stage with state := state } : Stage).call chain phase (bound.getD stage.bound) input
        = stage.call base phase (bound.getD stage.bound) input :=
    hsmooth.call_eq { stage with state := state } phase _ input
  obtain ⟨outcome, memory, rest', chain'⟩ := served
  simp only at hout hpending ⊢
  subst hout
  -- Whatever a settled result looks like, it adds no more than messages and steps to the chain.
  have hclose : ∀ settled : CallResult × Stage × Chain,
      settled.1 = (if result.completes then .ok else .stopped) →
      settled.2.1 = { stage with state := state, memory := memory } →
      chain'.Quiet settled.2.2 → ∀ e, ∃ chain'', chain'.Quiet chain''
        ∧ (⟨.ok settled.1, settled.2.1, rest', settled.2.2.log e⟩ : Settled n)
          = ⟨.ok (if result.completes then .ok else .stopped),
            { stage with state := state, memory := memory }, rest', chain''⟩ := by
    rintro ⟨result', stage', chain''⟩ rfl rfl hquiet e
    exact ⟨chain''.log e, hquiet.trans (.log chain'' e), rfl⟩
  obtain ⟨hsettled, hsame, hquiet⟩ := settle_quiet { stage with state := state, memory := memory }
    (chain'.log (.returned stage.id phase result)) hpending herrors phase input hresult
  unfold invoke
  rw [henter]
  simp only
  generalize bound.getD stage.bound = parameters at hcall hserved ⊢
  rw [hcall, show ({ stage with state := state } : Stage).id = stage.id from rfl, hserved]
  exact hclose _ hsettled hsame ((Chain.Quiet.log chain' _).trans hquiet) _

/-- What a call of a streaming command comes to. -/
structure Settled.Streamed (base : Chain) (k : Nat) (stage : Stage)
    (saturated : stage.command.Memory → Prop) (y : Yield stage.command.Memory) (rest : Stages n)
    (chain : Chain) (settled : Settled n) : Prop where
  conveys : Conveys base (k + 1) y.written rest chain settled.rest settled.chain
  outcome : settled.outcome = .ok .ok
    ∨ settled.outcome = .ok .stopped ∧ settled.chain.isCut k = true
  stage : ∃ memory, settled.stage = { stage with memory := memory }
    ∧ (settled.chain.isCut k = false → memory = y.memory)
    ∧ ∀ c, settled.chain.inputCut = some c → c ≤ k →
      chain.inputCut = some c ∨ c = k ∧ saturated memory

/-- A call of a command that streams comes to what its hook yields: the chain is in good order, the
command is not cut off, and errors do not stop the chain unless it returns none. -/
theorem invoke_streamed {push : Push n} (hpush : push.Conducting base (k + 1)) (stage : Stage)
    {rest : Stages n} (phase : Phase) {state : CommandState} (bound : Option BoundParameters)
    (input : Option Value) {saturated : stage.command.Memory → Prop} (hphase : phase ≠ .begin)
    (henter : stage.state.entering phase = .ok state) (hposition : stage.position = k)
    (herrors : stage.preferences.errorAction ≠ .stop ∨ stage.command.Faultless)
    (hsmooth : chain.Smooth base) (hcut : chain.isCut k = false)
    (hrest : rest.Holds (Stage.Open base chain.inputCut) (k + 1))
    (h : (stage.command.hook (stage.call base phase (bound.getD stage.bound) input)
      stage.memory).Streams base.flags stage.preferences saturated stage.memory) :
    (invoke push stage rest chain phase bound input).Streamed base k { stage with state := state }
      saturated ((stage.command.hook (stage.call base phase (bound.getD stage.bound) input)
        stage.memory).yield base.flags stage.memory) rest chain := by
  have hlog := Chain.Quiet.log chain (.called stage.id phase (bound.getD stage.bound) input)
  have hserved := (serve_streamed (stage.call base phase (bound.getD stage.bound) input) hpush
    hposition hphase _ stage.memory rest _ (hsmooth.quiet hlog) (by rw [hlog.isCut, hcut])
    (by rwa [hlog.inputCut]) h).of_quiet hlog hcut hrest
  have hcompletes := h.completes
  -- Only a hook of the first call could return faults that the others do not.
  have hfaultless : stage.preferences.errorAction ≠ .stop ∨ (stage.command.hook
      (stage.call base phase (bound.getD stage.bound) input) stage.memory).Faultless :=
    herrors.imp_right fun h => h.hook hphase
  generalize hserve : serve (stage.call base phase (bound.getD stage.bound) input) push
    (stage.command.hook (stage.call base phase (bound.getD stage.bound) input) stage.memory)
    stage.memory rest (chain.log (.called stage.id phase (bound.getD stage.bound) input)) = served
    at hserved
  generalize (stage.command.hook (stage.call base phase (bound.getD stage.bound) input)
    stage.memory).yield base.flags stage.memory = y at hserved hcompletes ⊢
  obtain ⟨hconveys, ⟨result, hout, hresult⟩, hkept, hcuts⟩ := hserved
  obtain ⟨chain', hquiet, hinvoke⟩ := invoke_of_served bound input henter hfaultless hsmooth hserve
    hout (hconveys.smooth hsmooth).pending hresult
  rw [hinvoke]
  refine ⟨hconveys.quiet hquiet, ?_, served.memory, rfl, fun hfree => ?_, fun c hc hle => ?_⟩
  · cases hcase : result.completes with
    | true => exact .inl rfl
    | false =>
      -- The hook itself completes, so the call was cut off in one of its writes.
      refine .inr ⟨rfl, ?_⟩
      rw [hquiet.isCut, ← Bool.not_eq_false]
      intro hfree
      obtain rfl : result = y.result := Except.ok.inj (hout.symm.trans (hkept hfree).1)
      rw [hcompletes] at hcase
      cases hcase
  · rw [hquiet.isCut] at hfree
    exact (hkept hfree).2
  · exact hcuts c (hquiet.inputCut.symm.trans hc) hle

/-! ## Pushes -/

/-- Objects that a command writes are conveyed into the row behind it, so they leave the total of
the row with the command as it was. -/
theorem Conveys.total_cons {stage stage' : Stage} {rest rest' : Stages n} {chain' : Chain}
    {written left us us' : List Value} (h : Conveys base (k + 1) written rest chain rest' chain')
    (hposition : stage.position = k) (hposition' : stage'.position = k)
    (hcut : chain.isCut k = false) (hbefore : stage.outputs base us = written ++ left)
    (hafter : chain'.isCut k = false → stage'.outputs base us' = left) :
    (Stages.cons stage' rest').total base chain' us' = (Stages.cons stage rest).total base chain
    us := by
  rw [Stages.total_cons_of_not_cut hposition hcut, hbefore, ← h.total]
  cases hcut' : chain'.isCut k with
  | false => rw [Stages.total_cons_of_not_cut hposition' hcut', hafter hcut']
  | true =>
    obtain ⟨c, hc, hk⟩ := Chain.isCut_eq_true_iff.mp hcut'
    have hholds := h.holds
    rw [hc] at hholds
    rw [Stages.total_cons_of_cut hposition' hcut', Stages.total, Stages.total, hc,
      Stages.remaining_of_cut hholds hk (h.bounded c hc) left]

/-- An object that can be bound is processed. -/
theorem processRecord_of_bound {push : Push n} {stage : Stage} {rest : Stages n} {r : Record}
    {v : Value} {bound : BoundParameters} (hv : r.object? = some v)
    (hrunning : stage.state.isRunning = true)
    (hbind : (stage.binder chain.adapter).bindObject stage.bound v = .ok bound) :
    processRecord push stage rest chain r
      = invoke push stage rest chain .process (some bound) (some v) := by
  unfold processRecord
  rw [hv]
  simp only [hrunning, hbind, Bool.not_true, Bool.false_eq_true, if_false]

/-- What processing an object does to a row. -/
theorem processRecord_conducts {push : Push n} (hpush : push.Conducting base (k + 1))
    {stage : Stage} {rest : Stages n} {r : Record} {v : Value} (hsmooth : chain.Smooth base)
    (hv : r.object? = some v) (hfree : ∀ c, chain.inputCut = some c → c < k)
    (hopen : stage.Open base chain.inputCut k)
    (hrest : rest.Holds (Stage.Open base chain.inputCut) (k + 1)) :
    Conducts base k (.cons stage rest) chain v ⟨(processRecord push stage rest chain r).outcome,
      .cons (processRecord push stage rest chain r).stage
        (processRecord push stage rest chain r).rest,
      (processRecord push stage rest chain r).chain⟩ := by
  have hcut : chain.isCut k = false :=
    Chain.isCut_eq_false_iff.mpr fun c hc => Nat.le_of_lt (hfree c hc)
  have hstreams := hopen.streams fun c hc => Nat.le_of_lt (hfree c hc)
  rw [processRecord_of_bound hv hopen.running (hsmooth.adapter ▸ hopen.binds v)]
  have hinvoked := invoke_streamed hpush stage .process (some (stage.withObject v)) (some v)
    (by decide) (CommandState.entering_process hopen.running) hopen.position hopen.errors hsmooth
    hcut hrest (hstreams.process v)
  generalize invoke push stage rest chain .process (some (stage.withObject v)) (some v) = settled
    at hinvoked ⊢
  obtain ⟨outcome, stage', rest', chain'⟩ := settled
  obtain ⟨hconveys, hout, memory, hsame, hkept, hcuts⟩ := hinvoked
  simp only at hconveys hout hsame hkept hcuts ⊢
  subst hsame
  have helsewhere (c : Nat) (hc : chain'.inputCut = some c) (hle : c ≤ k) :
      chain.inputCut = some c ∨ c = k ∧ (stage.transducer base).Saturated memory := hcuts c hc hle
  refine ⟨⟨hconveys.smooth, hconveys.raised, fun c hc => ?_, ⟨?_, hconveys.holds⟩, fun ws => ?_⟩,
    ?_, fun c hc hlt => ?_⟩
  · have := hconveys.bounded c hc
    omega
  · refine ⟨⟨hopen.position, rfl, hopen.empty, hopen.binds, hopen.errors, fun hdown => ?_,
      fun hat => ?_⟩, hopen.opened⟩
    · rw [hkept (Chain.isCut_eq_false_iff.mpr hdown)]
      exact hstreams.step v
    · rcases helsewhere k hat (Nat.le_refl k) with hbefore | ⟨-, hsaturated⟩
      · exact absurd (hfree k hbefore) (Nat.lt_irrefl k)
      · exact hsaturated
  · refine hconveys.total_cons hopen.position hopen.position hcut rfl fun hdown => ?_
    rw [hkept hdown]
    rfl
  · rcases hout with hok | ⟨hstopped, hdown⟩
    · exact .inl hok
    · obtain ⟨c, hc, hk⟩ := Chain.isCut_eq_true_iff.mp hdown
      exact .inr ⟨hstopped, c, hc, Nat.le_of_lt hk⟩
  · exact (helsewhere c hc (Nat.le_of_lt hlt)).resolve_right fun hsame => by omega

/-- Pushes of the engine convey. -/
theorem deliver_conducting (base : Chain) (n k : Nat) : Push.Conducting base k (deliver n) := by
  induction n generalizing k with
  | zero =>
    intro row chain r v hsmooth hv hfree hrow
    cases row with
    | nil =>
      have hout : (chain.deliverToHost r).outputs = chain.outputs ++ [v] := by
        rw [Chain.outputs, Chain.records_deliverToHost, List.filterMap_append,
          List.filterMap_cons_some hv, List.filterMap_nil, Chain.outputs]
      have hsmooth' : (chain.deliverToHost r).Smooth base :=
        ⟨hsmooth.adapter, hsmooth.scripts, hsmooth.flags, hsmooth.running, hsmooth.pending,
          hsmooth.fault⟩
      refine ⟨⟨fun _ => hsmooth', fun _ => id, hfree, trivial, fun ws => ?_⟩, .inl rfl,
        fun c hc _ => hc⟩
      change (chain.deliverToHost r).outputs ++ ws = chain.outputs ++ ([v] ++ ws)
      rw [hout, List.append_assoc]
  | succ n ih =>
    intro row chain r v hsmooth hv hfree hrow
    cases row with
    | cons stage rest =>
      obtain ⟨hopen, hrest⟩ := hrow
      have hwrite : stage.input.write false r
          = .ok { stage.input with slot := some r, written := stage.input.written + 1 } := by
        simp [Pipe.write, hopen.opened, hopen.empty]
      simp only [deliver, hsmooth.running, hwrite, Pipe.take, Bool.false_eq_true, if_false]
      have hopen' : Stage.Open base chain.inputCut k { stage with
          input := ⟨none, stage.input.closed, stage.input.written + 1, stage.input.read + 1⟩ } :=
        ⟨⟨hopen.position, hopen.running, rfl, hopen.binds, hopen.errors, hopen.streams,
          hopen.saturated⟩, hopen.opened⟩
      obtain ⟨hconveys, hout, hcuts⟩ := processRecord_conducts (ih (k + 1)) hsmooth hv hfree hopen'
        hrest
      -- The pipe makes no difference to what the row still writes.
      exact ⟨⟨hconveys.smooth, hconveys.raised, hconveys.bounded, hconveys.holds, hconveys.total⟩,
        hout, hcuts⟩

end CommandChain
