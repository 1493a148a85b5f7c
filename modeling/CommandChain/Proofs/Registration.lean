import CommandChain.Proofs.Values.Bags
import CommandChain.Registry
import Mathlib.Data.List.Induction
/-!
# The last registration of a name counts

Whatever is registered, and in whatever order, the registry is a map from names up to ASCII case: the
built-in commands own their names, and under every other name stands the command that was registered
last. Both ways of folding case agree, the comparison of names and the lowered names under which the
commands of the host are kept.
-/

namespace CommandChain

/-! ## Names of built-in commands -/

namespace Builtin

variable {b b' : Builtin} {name : String}

/-- A text is the name or a short name of a built-in command, up to ASCII case. -/
def Owns (b : Builtin) (name : String) : Prop :=
  ∃ own ∈ b.name :: b.aliases, Text.sameName own name = true

/-- A text is the name or a short name of some built-in command, up to ASCII case. -/
def IsReserved (name : String) : Prop :=
  ∃ b : Builtin, b.Owns name

/-- The test of a name finds the built-in command that owns it. -/
theorem isNamed_iff : b.isNamed name = true ↔ b.Owns name := by
  simp [isNamed, Owns]

theorem mem_all (b : Builtin) : b ∈ all := by
  cases b <;> decide

/-- No name belongs to two built-in commands. -/
theorem Owns.unique (h : b.Owns name) (h' : b'.Owns name) : b = b' := by
  have hapart : ∀ b ∈ all, ∀ b' ∈ all, ∀ own ∈ b.name :: b.aliases, ∀ own' ∈ b'.name :: b'.aliases,
      Text.foldCase own = Text.foldCase own' → b = b' := by decide +kernel
  obtain ⟨own, hown, hsame⟩ := h
  obtain ⟨own', hown', hsame'⟩ := h'
  exact hapart b (mem_all b) b' (mem_all b') own hown own' hown'
    ((Text.sameName_iff.mp hsame).trans (Text.sameName_iff.mp hsame').symm)

/-- A name that a built-in command owns is found to be its name. -/
theorem ofName?_eq_some (h : b.Owns name) : ofName? name = some b := by
  cases hfound : ofName? name with
  | none => exact absurd (isNamed_iff.mpr h) (List.find?_eq_none.mp hfound b (mem_all b))
  | some other =>
    have hnamed : other.isNamed name = true := by
      simpa using List.find?_some hfound
    rw [(isNamed_iff.mp hnamed).unique h]

/-- A name that is not reserved belongs to no built-in command. -/
theorem ofName?_eq_none (h : ¬ IsReserved name) : ofName? name = none :=
  List.find?_eq_none.mpr fun b _ hnamed => h ⟨b, isNamed_iff.mp hnamed⟩

end Builtin

open Builtin (IsReserved)

theorem Text.lowerAscii_inj {s t : String} : lowerAscii s = lowerAscii t ↔ sameName s t = true := by
  rw [lowerAscii, lowerAscii, String.ofList_inj, sameName_iff]

namespace CommandRegistry

variable {registry : CommandRegistry} {calls : List (String × Command)} {call : String × Command}
  {name : String}

/-! ## Registering -/

/-- The registry after a command was to be registered under a name. A call that fails leaves it as it
was. -/
def attempt (registry : CommandRegistry) (call : String × Command) : CommandRegistry :=
  match registry.register call.1 call.2 with
  | .ok changed => changed
  | .error _ => registry

/-- A new registry after some calls. -/
def after (calls : List (String × Command)) : CommandRegistry :=
  calls.foldl attempt new

/-- The last of some calls that registers a name, up to ASCII case. -/
def LastOf (calls : List (String × Command)) (name : String) (call : String × Command) : Prop :=
  ∃ earlier later, calls = earlier ++ call :: later
    ∧ ¬ IsReserved call.1 ∧ Text.sameName call.1 name = true
    ∧ ∀ other ∈ later, ¬ IsReserved other.1 → Text.sameName other.1 name = false

/-- What a registry is after some calls. -/
structure Keeps (calls : List (String × Command)) (registry : CommandRegistry) : Prop where
  /-- Exactly the names of built-in commands are refused. -/
  refuses : ∀ name command, (∃ e, registry.register name command = .error e) ↔ IsReserved name
  /-- A call that is refused changes nothing. -/
  unchanged : ∀ name command, IsReserved name → registry.attempt (name, command) = registry
  /-- Exactly the names that the registry contains can be created. -/
  creates : ∀ name, (∃ command, registry.create name = .ok command) ↔ registry.contains name = true
  /-- A name of a built-in command gives that command. -/
  builtin : ∀ b name, Builtin.Owns b name → registry.create name = .ok b.command
  /-- Every other name gives the command that was registered last. -/
  last : ∀ name, ¬ IsReserved name → ∀ command,
    registry.create name = .ok command ↔ ∃ casing, LastOf calls name (casing, command)
  /-- The names are those of the built-in commands and then the registered ones as they were written
  last, in the order of the bytes of their lower case, in which none comes twice. -/
  names : ∃ registered, registry.names = Builtin.all.map Builtin.name ++ registered
    ∧ Text.Increasing (registered.map Text.lowerAscii)
    ∧ ∀ name, name ∈ registered ↔ ∃ command, LastOf calls name (name, command)

/-- A call for a reserved name leaves the registry as it was. -/
theorem attempt_of_reserved (h : IsReserved call.1) : registry.attempt call = registry := by
  obtain ⟨b, hb⟩ := h
  rw [attempt, register, Builtin.ofName?_eq_some hb]

/-- A call for another name puts the command under the lowered name. -/
theorem attempt_of_free (h : ¬ IsReserved call.1) : registry.attempt call
    = ⟨Value.insertProperty (Text.lowerAscii call.1) call registry.plugins⟩ := by
  rw [attempt, register, Builtin.ofName?_eq_none h]

/-- What is found in a registry is what was registered last. -/
theorem lookup_attempt (h : ¬ IsReserved call.1) (name : String) :
    (registry.attempt call).plugins.lookup (Text.lowerAscii name)
      = if Text.sameName call.1 name = true then some call
        else registry.plugins.lookup (Text.lowerAscii name) := by
  rw [attempt_of_free h, Value.lookup_insertProperty]
  simp only [eq_comm (a := Text.lowerAscii name), Text.lowerAscii_inj]

/-- A call is the last for a name that it registers. -/
theorem lastOf_append_self (h : ¬ IsReserved call.1) (hsame : Text.sameName call.1 name = true)
    {other : String × Command} : LastOf (calls ++ [call]) name other ↔ call = other := by
  constructor
  · rintro ⟨earlier, later, hcalls, -, -, hlast⟩
    rcases List.eq_nil_or_concat later with rfl | ⟨between, final, rfl⟩
    · exact List.singleton_inj.mp (List.append_inj_right' hcalls rfl)
    · have hfinal : call = final := by
        rw [List.concat_eq_append, ← List.cons_append, ← List.append_assoc] at hcalls
        exact List.singleton_inj.mp (List.append_inj_right' hcalls rfl)
      have hfalse := hlast call (by rw [hfinal, List.concat_eq_append]; exact List.mem_concat_self) h
      rw [hsame] at hfalse
      cases hfalse
  · rintro rfl
    exact ⟨calls, [], rfl, h, hsame, List.forall_mem_nil _⟩

/-- A call that does not register a name leaves the last call for it. -/
theorem lastOf_append_other (h : ¬ IsReserved call.1 → Text.sameName call.1 name = false)
    {other : String × Command} : LastOf (calls ++ [call]) name other ↔ LastOf calls name other := by
  constructor
  · rintro ⟨earlier, later, hcalls, hfree, hsame, hlast⟩
    rcases List.eq_nil_or_concat later with rfl | ⟨between, final, rfl⟩
    · obtain rfl : call = other := List.singleton_inj.mp (List.append_inj_right' hcalls rfl)
      rw [h hfree] at hsame
      cases hsame
    · rw [List.concat_eq_append, ← List.cons_append, ← List.append_assoc] at hcalls
      refine ⟨earlier, between, List.append_inj_left' hcalls rfl, hfree, hsame, fun call hcall => ?_⟩
      exact hlast call (by rw [List.concat_eq_append]; exact List.mem_append_left _ hcall)
  · rintro ⟨earlier, later, rfl, hfree, hsame, hlast⟩
    refine ⟨earlier, later ++ [call], by rw [List.append_assoc, List.cons_append], hfree, hsame, ?_⟩
    rw [List.forall_mem_append, List.forall_mem_singleton]
    exact ⟨hlast, h⟩

/-! ## The commands of the host -/

theorem after_append (calls : List (String × Command)) (call : String × Command) :
    after (calls ++ [call]) = (after calls).attempt call := by
  rw [after, List.foldl_append]
  rfl

/-- Under the lowered name stands the last of the calls that registered it. -/
theorem lookup_after {calls : List (String × Command)} {call : String × Command} :
    (after calls).plugins.lookup (Text.lowerAscii name) = some call ↔ LastOf calls name call := by
  induction calls using List.reverseRecOn with
  | nil =>
    refine iff_of_false nofun ?_
    rintro ⟨earlier, later, hcalls, -⟩
    exact List.append_ne_nil_of_right_ne_nil earlier (List.cons_ne_nil call later) hcalls.symm
  | append_singleton calls next ih =>
    rw [after_append]
    by_cases hfree : IsReserved next.1
    · rw [attempt_of_reserved hfree, lastOf_append_other (absurd hfree), ih]
    · rw [lookup_attempt hfree]
      cases hsame : Text.sameName next.1 name with
      | true => rw [if_pos rfl, lastOf_append_self hfree hsame, Option.some_inj]
      | false => rw [if_neg (by decide), lastOf_append_other fun _ => hsame, ih]

/-- The commands of the host are kept in the order of their lowered names. -/
structure Indexed (registry : CommandRegistry) : Prop where
  increasing : Text.Increasing (registry.plugins.map Prod.fst)
  lowered : ∀ entry ∈ registry.plugins, entry.1 = Text.lowerAscii entry.2.1

/-- A call keeps the registry indexed. -/
theorem Indexed.attempt (h : registry.Indexed) (call : String × Command) :
    (registry.attempt call).Indexed := by
  by_cases hfree : IsReserved call.1
  · rwa [attempt_of_reserved hfree]
  · rw [attempt_of_free hfree]
    refine ⟨Value.increasing_insertProperty h.increasing _ _, fun entry hentry => ?_⟩
    rcases Value.mem_insertProperty hentry with rfl | hold
    · rfl
    · exact h.lowered entry hold

theorem indexed_after (calls : List (String × Command)) : (after calls).Indexed := by
  induction calls using List.reverseRecOn with
  | nil => exact ⟨List.Pairwise.nil, List.forall_mem_nil _⟩
  | append_singleton calls call ih =>
    rw [after_append]
    exact ih.attempt call

/-- The names as they were written. -/
theorem Indexed.map_lowerAscii (h : registry.Indexed) :
    (registry.plugins.map fun entry => entry.2.1).map Text.lowerAscii
      = registry.plugins.map Prod.fst := by
  rw [List.map_map]
  exact List.map_congr_left fun entry hentry => (h.lowered entry hentry).symm

/-- The names that are registered are those of the last calls for them. -/
theorem mem_registered_iff {calls : List (String × Command)} :
    (name ∈ (after calls).plugins.map fun entry => entry.2.1)
      ↔ ∃ command, LastOf calls name (name, command) := by
  have hindexed := indexed_after calls
  rw [List.mem_map]
  constructor
  · rintro ⟨⟨key, casing, command⟩, hentry, rfl⟩
    obtain rfl : key = Text.lowerAscii casing := hindexed.lowered _ hentry
    exact ⟨command, lookup_after.mp
      ((Value.mem_iff_lookup hindexed.increasing.nodup).mp hentry)⟩
  · rintro ⟨command, hlast⟩
    exact ⟨(Text.lowerAscii name, name, command),
      (Value.mem_iff_lookup hindexed.increasing.nodup).mpr (lookup_after.mpr hlast), rfl⟩

/-! ## Every registry -/

/-- For a name that is not reserved, a command is created exactly if it is registered under the
lowered name. -/
theorem create_eq_ok_iff (h : ¬ IsReserved name) {command : Command} :
    registry.create name = .ok command
      ↔ ∃ casing, registry.plugins.lookup (Text.lowerAscii name) = some (casing, command) := by
  rw [create, Builtin.ofName?_eq_none h, plugin?]
  cases registry.plugins.lookup (Text.lowerAscii name) with
  | none => simp
  | some entry => simp [Prod.ext_iff]

/-- **The last registration counts.** After any calls a registry refuses exactly the names of built-in
commands; under these stand the built-in commands, and under any other name the command that was
registered last, up to ASCII case; and it lists the names as they were written last. -/
theorem last_registration_counts (calls : List (String × Command)) : Keeps calls (after calls) where
  refuses name command := by
    by_cases hfree : IsReserved name
    · obtain ⟨b, hb⟩ := hfree
      rw [register, Builtin.ofName?_eq_some hb]
      exact iff_of_true ⟨_, rfl⟩ ⟨b, hb⟩
    · rw [register, Builtin.ofName?_eq_none hfree]
      exact iff_of_false nofun hfree
  unchanged name command hreserved := attempt_of_reserved hreserved
  creates name := by
    rw [create, contains]
    cases Builtin.ofName? name with
    | some b => exact iff_of_true ⟨_, rfl⟩ rfl
    | none =>
      cases (after calls).plugin? name with
      | some command => exact iff_of_true ⟨_, rfl⟩ rfl
      | none => exact iff_of_false nofun nofun
  builtin b name hb := by rw [create, Builtin.ofName?_eq_some hb]
  last name hfree command := by
    rw [create_eq_ok_iff hfree]
    exact exists_congr fun casing => lookup_after
  names :=
    ⟨_, rfl, (indexed_after calls).map_lowerAscii ▸ (indexed_after calls).increasing,
      fun _ => mem_registered_iff⟩

end CommandRegistry

end CommandChain
