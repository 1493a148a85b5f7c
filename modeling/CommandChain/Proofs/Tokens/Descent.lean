import CommandChain.StopToken
/-!
# Signals flow down the tree of tokens

A handle is made by `new`, `child` or `clone`, and the steps that made the handles say which of them
are on one token and which tokens were derived from which: `SameToken` and `Descends` read that off
the steps alone, without a flag. The flags of the tokens agree with them. So a token reads as
signaled exactly if a handle on it, or on one that it was derived from, has been signaled.
-/

namespace CommandChain

/-- What may be done with stop tokens. Handles are numbered in the order in which they are made. -/
inductive TokenStep where
  /-- Makes a token of its own. -/
  | new
  /-- Derives a token from that of a handle. -/
  | child (parent : Nat)
  /-- Makes another handle on the token of a handle. -/
  | clone (handle : Nat)
  | signal (handle : Nat)
deriving DecidableEq

/-- The handles that were made, and the flags of their tokens. -/
structure TokenPool where
  flags : StopFlags
  handles : List StopToken
deriving DecidableEq

namespace TokenPool

/-- No handle yet. -/
def start : TokenPool := ⟨.none, []⟩

/-- One more handle. -/
def grow (pool : TokenPool) (made : StopToken × StopFlags) : TokenPool :=
  ⟨made.2, pool.handles ++ [made.1]⟩

/-- Takes a step. It needs the handle that it is about. -/
def step? (pool : TokenPool) : TokenStep → Option TokenPool
  | .new => some (pool.grow pool.flags.newToken)
  | .child parent => (pool.handles[parent]?).map fun token => pool.grow (pool.flags.childOf token)
  | .clone handle => (pool.handles[handle]?).map fun token => pool.grow (token, pool.flags)
  | .signal handle =>
    (pool.handles[handle]?).map fun token => { pool with flags := pool.flags.signal token }

/-- Takes steps in order. -/
def run? (pool : TokenPool) (steps : List TokenStep) : Option TokenPool :=
  steps.foldlM step? pool

/-- Whether the token of a handle reads as signaled. -/
def isSignaled (pool : TokenPool) (handle : Nat) : Bool :=
  (pool.handles[handle]?).any pool.flags.isSignaled

/-- Whether two handles share one flag. -/
def sameAs (pool : TokenPool) (a b : Nat) : Bool :=
  (pool.handles[a]?).any fun token => (pool.handles[b]?).any token.sameAs

end TokenPool

namespace TokenStep

/-- Whether a step makes a handle. -/
def isMaking : TokenStep → Bool
  | signal _ => false
  | _ => true

/-- The steps that made the handles, in the order of the handles. -/
def makers (steps : List TokenStep) : List TokenStep :=
  steps.filter isMaking

@[simp] theorem makers_append (steps more : List TokenStep) :
    makers (steps ++ more) = makers steps ++ makers more :=
  List.filter_append ..

theorem makers_signal (before after : List TokenStep) (handle : Nat) :
    makers (before ++ signal handle :: after) = makers (before ++ after) := by
  simp [makers, isMaking]

end TokenStep

/-! ## Which tokens were derived from which -/

/-- A handle was copied, directly or from a copy, from the one that a step made for a new token. -/
inductive Origin (makers : List TokenStep) : Nat → Nat → Prop
  | new {k : Nat} (h : makers[k]? = some .new) : Origin makers k k
  | child {k p : Nat} (h : makers[k]? = some (.child p)) : Origin makers k k
  | clone {k i o : Nat} (h : makers[k]? = some (.clone i)) (hi : Origin makers i o) :
    Origin makers k o

/-- Two handles come from one step that made a token. -/
def SameToken (makers : List TokenStep) (j k : Nat) : Prop :=
  ∃ o, Origin makers j o ∧ Origin makers k o

/-- The token of a handle is that of another handle, or was derived from it. -/
inductive Descends (makers : List TokenStep) : Nat → Nat → Prop
  | same {k i : Nat} (h : SameToken makers k i) : Descends makers k i
  | child {k o p i : Nat} (hk : Origin makers k o) (ho : makers[o]? = some (.child p))
    (hp : Descends makers p i) : Descends makers k i

section

variable {makers more : List TokenStep} {j k i o : Nat}

theorem getElem?_append_of_eq_some {s : TokenStep} (h : makers[k]? = some s) :
    (makers ++ more)[k]? = some s := by
  rw [List.getElem?_append_left (List.getElem?_eq_some_iff.mp h).1, h]

theorem Origin.append (h : Origin makers k o) : Origin (makers ++ more) k o := by
  induction h with
  | new h => exact .new (getElem?_append_of_eq_some h)
  | child h => exact .child (getElem?_append_of_eq_some h)
  | clone h _ ih => exact .clone (getElem?_append_of_eq_some h) ih

/-- What a handle was copied from was made for a token of its own or for a derived one. -/
theorem Origin.made (h : Origin makers k o) :
    makers[o]? = some .new ∨ ∃ p, makers[o]? = some (.child p) := by
  induction h with
  | new h => exact .inl h
  | child h => exact .inr ⟨_, h⟩
  | clone _ _ ih => exact ih

/-- What is made later changes no descent. -/
theorem Descends.append (h : Descends makers k i) : Descends (makers ++ more) k i := by
  induction h with
  | same h =>
    obtain ⟨o, hk, hi⟩ := h
    exact .same ⟨o, hk.append, hi.append⟩
  | child hk ho _ ih => exact .child hk.append (getElem?_append_of_eq_some ho) ih

end

/-! ## The handles that steps make -/

/-- How a step makes the token of a handle, given the handles before it. A token of its own has a
flag that none of them has. -/
inductive Makes (handles : List StopToken) : TokenStep → StopToken → Prop
  | new {token : StopToken} (hroot : token.ancestors = [])
    (hfresh : ∀ other ∈ handles, other.flag ≠ token.flag) : Makes handles .new token
  | child {p : Nat} {parent token : StopToken} (hparent : handles[p]? = some parent)
    (hbelow : token.ancestors = parent.lineage)
    (hfresh : ∀ other ∈ handles, other.flag ≠ token.flag) : Makes handles (.child p) token
  | clone {i : Nat} {token : StopToken} (hsame : handles[i]? = some token) :
    Makes handles (.clone i) token

namespace TokenPool

variable {steps more : List TokenStep} {pool later : TokenPool} {s : TokenStep} {j k i o : Nat}
  {a b token : StopToken}

/-- The handles of a pool are those that some steps made, and the flags that are raised in it are
those of the handles that they signaled. -/
structure Tracks (steps : List TokenStep) (pool : TokenPool) : Prop where
  length : pool.handles.length = (TokenStep.makers steps).length
  makes : ∀ {k : Nat} {s : TokenStep} {token : StopToken}, (TokenStep.makers steps)[k]? = some s →
    pool.handles[k]? = some token → Makes (pool.handles.take k) s token
  counted : ∀ token ∈ pool.handles, token.flag < pool.flags.count
  held : ∀ i, .signal i ∈ steps → i < pool.handles.length
  raised : ∀ flag, flag ∈ pool.flags.raised
    ↔ ∃ i token, .signal i ∈ steps ∧ pool.handles[i]? = some token ∧ token.flag = flag

/-- At the start there are no handles, and nothing is signaled. -/
theorem tracks_start : Tracks [] start where
  length := rfl
  makes h := by cases h
  counted token h := by cases h
  held i h := by cases h
  raised flag := by simp [start, StopFlags.none]

/-- A step that makes a handle adds one that it made. -/
theorem Tracks.grow (h : Tracks steps pool) (hs : s.isMaking = true) {made : StopToken × StopFlags}
    (hmakes : Makes pool.handles s made.1) (hflag : made.1.flag < made.2.count)
    (hcount : pool.flags.count ≤ made.2.count) (hraised : made.2.raised = pool.flags.raised) :
    Tracks (steps ++ [s]) (pool.grow made) := by
  have hmakers : TokenStep.makers (steps ++ [s]) = TokenStep.makers steps ++ [s] := by
    simp [TokenStep.makers, hs]
  refine ⟨?_, ?_, ?_, ?_, ?_⟩
  · rw [hmakers, TokenPool.grow, List.length_append, List.length_append, h.length]
    rfl
  · intro k other token hother htoken
    rw [hmakers] at hother
    have htoken : (pool.handles ++ [made.1])[k]? = some token := htoken
    rcases Nat.lt_trichotomy k pool.handles.length with hlt | rfl | hgt
    · rw [List.getElem?_append_left (h.length ▸ hlt)] at hother
      rw [List.getElem?_append_left hlt] at htoken
      have htake : (pool.handles ++ [made.1]).take k = pool.handles.take k :=
        List.take_append_of_le_length (Nat.le_of_lt hlt)
      rw [TokenPool.grow, htake]
      exact h.makes hother htoken
    · rw [h.length, List.getElem?_concat_length] at hother
      rw [List.getElem?_concat_length] at htoken
      obtain rfl := Option.some.inj hother
      obtain rfl := Option.some.inj htoken
      rw [TokenPool.grow, List.take_left']
      · exact hmakes
      · rfl
    · rw [List.getElem?_eq_none (by rw [List.length_append]; exact hgt)] at htoken
      cases htoken
  · intro token htoken
    rcases List.mem_append.mp htoken with htoken | htoken
    · exact Nat.lt_of_lt_of_le (h.counted token htoken) hcount
    · rw [List.mem_singleton.mp htoken]
      exact hflag
  · intro i hi
    have hi : .signal i ∈ steps := by
      refine (List.mem_append.mp hi).resolve_right fun hi => ?_
      rw [← List.mem_singleton.mp hi] at hs
      cases hs
    rw [TokenPool.grow, List.length_append]
    exact Nat.lt_of_lt_of_le (h.held i hi) (Nat.le_add_right _ _)
  · intro flag
    have hsignal : ∀ i, .signal i ∈ steps ++ [s] ↔ .signal i ∈ steps := by
      intro i
      rw [List.mem_append, or_iff_left]
      intro hi
      rw [← List.mem_singleton.mp hi] at hs
      cases hs
    show flag ∈ made.2.raised ↔ _
    rw [hraised, h.raised]
    refine exists_congr fun i => exists_congr fun token => ?_
    rw [hsignal]
    refine and_congr_right fun hi => ?_
    rw [TokenPool.grow, List.getElem?_append_left (h.held i hi)]

/-- A signal raises the flag of its handle. -/
theorem Tracks.signal (h : Tracks steps pool) (htoken : pool.handles[i]? = some token) :
    Tracks (steps ++ [.signal i]) { pool with flags := pool.flags.signal token } := by
  have hmakers : TokenStep.makers (steps ++ [.signal i]) = TokenStep.makers steps := by
    simp [TokenStep.makers, TokenStep.isMaking]
  refine ⟨hmakers ▸ h.length, hmakers ▸ h.makes, h.counted, ?_, ?_⟩
  · intro j hj
    rcases List.mem_append.mp hj with hj | hj
    · exact h.held j hj
    · cases List.mem_singleton.mp hj
      exact (List.getElem?_eq_some_iff.mp htoken).1
  · intro flag
    show flag ∈ token.flag :: pool.flags.raised ↔ _
    rw [List.mem_cons, h.raised]
    constructor
    · rintro (rfl | ⟨j, other, hj, hother, hflag⟩)
      · exact ⟨i, token, by simp, htoken, rfl⟩
      · exact ⟨j, other, List.mem_append_left _ hj, hother, hflag⟩
    · rintro ⟨j, other, hj, hother, hflag⟩
      rcases List.mem_append.mp hj with hj | hj
      · exact .inr ⟨j, other, hj, hother, hflag⟩
      · cases List.mem_singleton.mp hj
        rw [htoken] at hother
        cases hother
        exact .inl hflag.symm

/-- A step keeps track of the handles. -/
theorem Tracks.step (h : Tracks steps pool) (hstep : pool.step? s = some later) :
    Tracks (steps ++ [s]) later := by
  have hfresh : ∀ other ∈ pool.handles, other.flag ≠ pool.flags.count :=
    fun other hother => Nat.ne_of_lt (h.counted other hother)
  cases s with
  | new =>
    cases hstep
    exact h.grow rfl (.new rfl hfresh) (Nat.lt_succ_self _) (Nat.le_succ _) rfl
  | child parent =>
    obtain ⟨token, htoken, rfl⟩ := Option.map_eq_some_iff.mp hstep
    exact h.grow rfl (.child htoken rfl hfresh) (Nat.lt_succ_self _) (Nat.le_succ _) rfl
  | clone handle =>
    obtain ⟨token, htoken, rfl⟩ := Option.map_eq_some_iff.mp hstep
    exact h.grow rfl (.clone htoken) (h.counted token (List.mem_of_getElem? htoken)) (Nat.le_refl _)
      rfl
  | signal handle =>
    obtain ⟨token, htoken, rfl⟩ := Option.map_eq_some_iff.mp hstep
    exact h.signal htoken

/-- A run keeps track of the handles. -/
theorem Tracks.run (h : Tracks steps pool) (hrun : pool.run? more = some later) :
    Tracks (steps ++ more) later := by
  induction more generalizing steps pool with
  | nil =>
    cases hrun
    rwa [List.append_nil]
  | cons s more ih =>
    rw [run?, List.foldlM_cons] at hrun
    obtain ⟨next, hnext, hrest⟩ := Option.bind_eq_some_iff.mp hrun
    have htracks := ih (h.step hnext) hrest
    rwa [List.append_assoc] at htracks

/-! ## The flags agree with the steps -/

/-- The token of a handle is there, and it was made by the step for that handle. -/
theorem Tracks.exists_token (h : Tracks steps pool) (hk : (TokenStep.makers steps)[k]? = some s) :
    ∃ token, pool.handles[k]? = some token ∧ Makes (pool.handles.take k) s token := by
  have hlt := (List.getElem?_eq_some_iff.mp hk).1
  rw [← h.length] at hlt
  exact ⟨pool.handles[k], List.getElem?_eq_getElem hlt, h.makes hk (List.getElem?_eq_getElem hlt)⟩

/-- A handle that is found among those before a place is found there among all of them. -/
theorem getElem?_of_take {handles : List StopToken} (h : (handles.take k)[i]? = some token) :
    i < k ∧ handles[i]? = some token := by
  rw [List.getElem?_take] at h
  split at h
  · next hlt => exact ⟨hlt, h⟩
  · cases h

/-- A handle that was copied is on the token of the one that it was copied from. -/
theorem Tracks.getElem?_eq (h : Tracks steps pool) (ho : Origin (TokenStep.makers steps) k o) :
    pool.handles[k]? = pool.handles[o]? := by
  induction ho with
  | new => rfl
  | child => rfl
  | clone hk _ ih =>
    obtain ⟨token, htoken, hmakes⟩ := h.exists_token hk
    cases hmakes with
    | clone hsame => rw [htoken, ← ih, (getElem?_of_take hsame).2]

/-- Every handle was copied from one that was made for a new token. -/
theorem Tracks.exists_origin (h : Tracks steps pool) (k : Nat) (hk : k < pool.handles.length) :
    ∃ o ≤ k, Origin (TokenStep.makers steps) k o := by
  induction k using Nat.strongRecOn with
  | ind k ih =>
    obtain ⟨s, hs⟩ : ∃ s, (TokenStep.makers steps)[k]? = some s :=
      ⟨_, List.getElem?_eq_getElem (h.length ▸ hk)⟩
    obtain ⟨token, htoken, hmakes⟩ := h.exists_token hs
    cases hmakes with
    | new => exact ⟨k, Nat.le_refl k, .new hs⟩
    | child => exact ⟨k, Nat.le_refl k, .child hs⟩
    | clone hsame =>
      obtain ⟨hlt, -⟩ := getElem?_of_take hsame
      obtain ⟨o, ho, horigin⟩ := ih _ hlt (Nat.lt_trans hlt hk)
      exact ⟨o, Nat.le_trans ho (Nat.le_of_lt hlt), .clone hs horigin⟩

/-- A token that a step made has a flag that no token before it has. -/
theorem Tracks.flag_ne (h : Tracks steps pool) (ho : Origin (TokenStep.makers steps) k o)
    (ha : pool.handles[o]? = some a) (hb : pool.handles[j]? = some b) (hlt : j < o) :
    b.flag ≠ a.flag := by
  have hbefore : b ∈ pool.handles.take o :=
    List.mem_of_getElem? (i := j) (by rw [List.getElem?_take, if_pos hlt, hb])
  rcases ho.made with hmade | ⟨p, hmade⟩
  · obtain ⟨token, htoken, hmakes⟩ := h.exists_token hmade
    cases ha.symm.trans htoken
    cases hmakes with
    | new _ hfresh => exact hfresh b hbefore
  · obtain ⟨token, htoken, hmakes⟩ := h.exists_token hmade
    cases ha.symm.trans htoken
    cases hmakes with
    | child _ _ hfresh => exact hfresh b hbefore

/-- Two handles share a flag exactly if they come from one step that made a token. -/
theorem Tracks.flag_eq_iff (h : Tracks steps pool) (ha : pool.handles[j]? = some a)
    (hb : pool.handles[k]? = some b) :
    a.flag = b.flag ↔ SameToken (TokenStep.makers steps) j k := by
  constructor
  · intro hflag
    obtain ⟨o, -, ho⟩ := h.exists_origin j (List.getElem?_eq_some_iff.mp ha).1
    obtain ⟨o', -, ho'⟩ := h.exists_origin k (List.getElem?_eq_some_iff.mp hb).1
    rw [h.getElem?_eq ho] at ha
    rw [h.getElem?_eq ho'] at hb
    rcases Nat.lt_trichotomy o o' with hlt | rfl | hlt
    · exact absurd hflag (h.flag_ne ho' hb ha hlt)
    · exact ⟨o, ho, ho'⟩
    · exact absurd hflag.symm (h.flag_ne ho ha hb hlt)
  · rintro ⟨o, ho, ho'⟩
    rw [h.getElem?_eq ho] at ha
    rw [h.getElem?_eq ho', ha] at hb
    rw [Option.some.inj hb]

/-- A token listens to the flag of another exactly if it descends from it. -/
theorem Tracks.mem_lineage_iff (h : Tracks steps pool) (ha : pool.handles[k]? = some a)
    (hb : pool.handles[i]? = some b) :
    b.flag ∈ a.lineage ↔ Descends (TokenStep.makers steps) k i := by
  constructor
  · intro hmem
    induction k using Nat.strongRecOn generalizing a with
    | ind k ih =>
      rcases List.mem_cons.mp hmem with hflag | hmem
      · exact .same ((h.flag_eq_iff ha hb).mp hflag.symm)
      · obtain ⟨o, hle, ho⟩ := h.exists_origin k (List.getElem?_eq_some_iff.mp ha).1
        rw [h.getElem?_eq ho] at ha
        -- A token that listens to another one's flag was derived from its parent.
        rcases ho.made with hmade | ⟨p, hmade⟩
        · obtain ⟨token, htoken, hmakes⟩ := h.exists_token hmade
          cases ha.symm.trans htoken
          cases hmakes with
          | new hroot _ =>
            rw [hroot] at hmem
            cases hmem
        · obtain ⟨token, htoken, hmakes⟩ := h.exists_token hmade
          cases ha.symm.trans htoken
          cases hmakes with
          | child hparent hbelow _ =>
            obtain ⟨hlt, hparent⟩ := getElem?_of_take hparent
            rw [hbelow] at hmem
            exact .child ho hmade (ih p (Nat.lt_of_lt_of_le hlt hle) hparent hmem)
  · intro hdescends
    induction hdescends generalizing a with
    | same hsame =>
      rw [← (h.flag_eq_iff ha hb).mpr hsame]
      exact List.mem_cons_self
    | child hk ho _ ih =>
      rw [h.getElem?_eq hk] at ha
      obtain ⟨token, htoken, hmakes⟩ := h.exists_token ho
      cases ha.symm.trans htoken
      cases hmakes with
      | child hparent hbelow _ =>
        refine List.mem_cons_of_mem _ ?_
        rw [hbelow]
        exact ih (getElem?_of_take hparent).2 hb

/-- What was copied from a handle is a handle. -/
theorem Tracks.lt_of_origin (h : Tracks steps pool) (ho : Origin (TokenStep.makers steps) k o) :
    k < pool.handles.length := by
  rw [h.length]
  cases ho with
  | new hk => exact (List.getElem?_eq_some_iff.mp hk).1
  | child hk => exact (List.getElem?_eq_some_iff.mp hk).1
  | clone hk _ => exact (List.getElem?_eq_some_iff.mp hk).1

/-- A handle that descends from another is one that was made. -/
theorem Tracks.lt_of_descends (h : Tracks steps pool)
    (hdescends : Descends (TokenStep.makers steps) k i) : k < pool.handles.length := by
  cases hdescends with
  | same hsame =>
    obtain ⟨o, ho, -⟩ := hsame
    exact h.lt_of_origin ho
  | child hk _ _ => exact h.lt_of_origin hk

/-- A token reads as signaled exactly if one that it descends from was signaled. -/
theorem Tracks.isSignaled_iff (h : Tracks steps pool) (k : Nat) :
    pool.isSignaled k = true
      ↔ ∃ i, .signal i ∈ steps ∧ Descends (TokenStep.makers steps) k i := by
  rw [isSignaled, Option.any_eq_true]
  constructor
  · rintro ⟨token, htoken, hreads⟩
    obtain ⟨flag, hflag, hraised⟩ := List.any_eq_true.mp hreads
    obtain ⟨i, other, hi, hother, rfl⟩ := (h.raised flag).mp (List.contains_iff_mem.mp hraised)
    exact ⟨i, hi, (h.mem_lineage_iff htoken hother).mp hflag⟩
  · rintro ⟨i, hi, hdescends⟩
    have htoken := List.getElem?_eq_getElem (h.lt_of_descends hdescends)
    have hother := List.getElem?_eq_getElem (h.held i hi)
    refine ⟨_, htoken, List.any_eq_true.mpr
      ⟨_, (h.mem_lineage_iff htoken hother).mpr hdescends, ?_⟩⟩
    exact List.contains_iff_mem.mpr ((h.raised _).mpr ⟨i, _, hi, hother, rfl⟩)

/-- Two handles read as the same exactly if they come from one step that made a token. -/
theorem Tracks.sameAs_iff (h : Tracks steps pool) (j k : Nat) :
    pool.sameAs j k = true ↔ SameToken (TokenStep.makers steps) j k := by
  simp only [sameAs, Option.any_eq_true, StopToken.sameAs, beq_iff_eq]
  constructor
  · rintro ⟨a, ha, b, hb, hflag⟩
    exact (h.flag_eq_iff ha hb).mp hflag
  · intro hsame
    obtain ⟨o, hj, hk⟩ := hsame
    have ha := List.getElem?_eq_getElem (h.lt_of_origin hj)
    have hb := List.getElem?_eq_getElem (h.lt_of_origin hk)
    exact ⟨_, ha, _, hb, (h.flag_eq_iff ha hb).mpr ⟨o, hj, hk⟩⟩

/-! ## Steps that are left out -/

/-- Whether a step can be taken depends on nothing but how many handles there are. -/
theorem exists_step (hstep : pool.step? s = some later) (other : TokenPool)
    (hlength : other.handles.length = pool.handles.length) :
    ∃ next, other.step? s = some next ∧ next.handles.length = later.handles.length := by
  have hfound {i : Nat} {token : StopToken} (htoken : pool.handles[i]? = some token) :
      ∃ found, other.handles[i]? = some found :=
    ⟨_, List.getElem?_eq_getElem (hlength ▸ (List.getElem?_eq_some_iff.mp htoken).1)⟩
  cases s with
  | new =>
    cases hstep
    exact ⟨_, rfl, by simp [grow, hlength]⟩
  | child parent =>
    obtain ⟨token, htoken, rfl⟩ := Option.map_eq_some_iff.mp hstep
    obtain ⟨found, hfound⟩ := hfound htoken
    exact ⟨_, Option.map_eq_some_iff.mpr ⟨found, hfound, rfl⟩, by simp [grow, hlength]⟩
  | clone handle =>
    obtain ⟨token, htoken, rfl⟩ := Option.map_eq_some_iff.mp hstep
    obtain ⟨found, hfound⟩ := hfound htoken
    exact ⟨_, Option.map_eq_some_iff.mpr ⟨found, hfound, rfl⟩, by simp [grow, hlength]⟩
  | signal handle =>
    obtain ⟨token, htoken, rfl⟩ := Option.map_eq_some_iff.mp hstep
    obtain ⟨found, hfound⟩ := hfound htoken
    exact ⟨_, Option.map_eq_some_iff.mpr ⟨found, hfound, rfl⟩, hlength⟩

/-- Steps can be taken with any pool that has as many handles. -/
theorem exists_run (hrun : pool.run? steps = some later) (other : TokenPool)
    (hlength : other.handles.length = pool.handles.length) :
    ∃ last, other.run? steps = some last := by
  induction steps generalizing pool other with
  | nil => exact ⟨other, rfl⟩
  | cons s steps ih =>
    rw [run?, List.foldlM_cons] at hrun
    obtain ⟨next, hnext, hrest⟩ := Option.bind_eq_some_iff.mp hrun
    obtain ⟨next', hnext', hlength'⟩ := exists_step hnext other hlength
    obtain ⟨last, hlast⟩ := ih hrest next' hlength'
    refine ⟨last, ?_⟩
    rw [run?, List.foldlM_cons]
    exact Option.bind_eq_some_iff.mpr ⟨next', hnext', hlast⟩

/-- Steps can be taken without a signal among them. -/
theorem exists_run_without {before after : List TokenStep}
    (hrun : pool.run? (before ++ .signal i :: after) = some later) :
    ∃ spared, pool.run? (before ++ after) = some spared := by
  rw [run?, List.foldlM_append] at hrun
  obtain ⟨middle, hmiddle, hrest⟩ := Option.bind_eq_some_iff.mp hrun
  rw [List.foldlM_cons] at hrest
  obtain ⟨signaled, hsignaled, hrest⟩ := Option.bind_eq_some_iff.mp hrest
  obtain ⟨token, -, rfl⟩ := Option.map_eq_some_iff.mp hsignaled
  obtain ⟨spared, hspared⟩ := exists_run hrest middle rfl
  refine ⟨spared, ?_⟩
  rw [run?, List.foldlM_append]
  exact Option.bind_eq_some_iff.mpr ⟨middle, hmiddle, hspared⟩

/-! ## The whole law -/

/-- What holds of the readings after some steps. -/
structure FlowsDown (steps : List TokenStep) (pool : TokenPool) : Prop where
  /-- A token reads as signaled exactly if a handle on it, or on one that it was derived from, was
  signaled. -/
  signaled : ∀ k, pool.isSignaled k = true
    ↔ ∃ i, .signal i ∈ steps ∧ Descends (TokenStep.makers steps) k i
  /-- A token that was signaled stays so. -/
  stays : ∀ more later, pool.run? more = some later → ∀ k, pool.isSignaled k = true →
    later.isSignaled k = true
  /-- A signal changes the reading of no token but of those that descend from the signaled one,
  whenever they were made: the others read as they would without it. -/
  spares : ∀ before i after, steps = before ++ .signal i :: after →
    ∃ spared, start.run? (before ++ after) = some spared
      ∧ ∀ k, ¬ Descends (TokenStep.makers steps) k i → spared.isSignaled k = pool.isSignaled k
  /-- Two handles share a flag exactly if they come from one step that made a token. -/
  same : ∀ j k, pool.sameAs j k = true ↔ SameToken (TokenStep.makers steps) j k

/-- **Signals flow down the tree of tokens and nowhere else.** Whatever is done with stop tokens, a
token reads as signaled exactly if it descends from one that was signaled before, it stays so, no
other token is touched, and handles are the same exactly if they were copied from one. -/
theorem signals_flow_down (hrun : start.run? steps = some pool) : FlowsDown steps pool := by
  have htracks : Tracks steps pool := tracks_start.run hrun
  refine ⟨htracks.isSignaled_iff, ?_, ?_, htracks.sameAs_iff⟩
  · intro more later hmore k hsignaled
    obtain ⟨i, hi, hdescends⟩ := (htracks.isSignaled_iff k).mp hsignaled
    rw [(htracks.run hmore).isSignaled_iff]
    refine ⟨i, List.mem_append_left _ hi, ?_⟩
    rw [TokenStep.makers_append]
    exact hdescends.append
  · rintro before i after rfl
    obtain ⟨spared, hspared⟩ := exists_run_without hrun
    have hsparedTracks : Tracks (before ++ after) spared := tracks_start.run hspared
    refine ⟨spared, hspared, fun k hother => ?_⟩
    rw [Bool.eq_iff_iff, htracks.isSignaled_iff, hsparedTracks.isSignaled_iff,
      TokenStep.makers_signal]
    rw [TokenStep.makers_signal] at hother
    refine exists_congr fun j => and_congr_left fun hdescends => ?_
    -- The signal that was left out was not given to an ancestor of the token.
    have hne : j ≠ i := fun heq => hother (heq ▸ hdescends)
    simp [hne]

/-- A host's token with two children, one of which is signaled through a copy before it has a child
of its own. -/
def siblings : List TokenStep :=
  [.new, .child 0, .child 0, .clone 1, .signal 3, .child 1]

/-- Of two children of a token one is signaled through a copy: it reads so, with its copy and the
child that it has later, and the others do not. -/
theorem signals_flow_down_siblings :
    ∃ pool, start.run? siblings = some pool
      ∧ (List.range 5).map pool.isSignaled = [false, true, false, true, true]
      ∧ pool.sameAs 1 3 = true ∧ pool.sameAs 1 2 = false ∧ FlowsDown siblings pool :=
  ⟨_, rfl, rfl, rfl, rfl, signals_flow_down rfl⟩

end TokenPool

end CommandChain
