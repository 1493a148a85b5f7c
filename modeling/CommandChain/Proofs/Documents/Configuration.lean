import CommandChain.Config.Document
import CommandChain.Proofs.Documents.Range
import CommandChain.Proofs.Documents.Toml
/-!
# Saved configurations are read back

The document of a configuration consists of four groups of simple entries, so its text is read back as
that document, and each part of the document stands for the part of the configuration it was made
from. A configuration that was read has no limit that could not be written.
-/

namespace CommandChain

open Toml (Gives Ranged Simple Bare IsGroup ofGroups)
open Decimal (InRange)

/-! ## Documents of configurations -/

/-- A preference is read back from its document. -/
theorem ActionPreference.ofToml?_toToml (p : ActionPreference) : ofToml? p.toToml = some p := by
  cases p <;> decide

/-- A choice is found by its name. -/
theorem BindingErrorAction.ofName?_name (action : BindingErrorAction) :
    ofName? action.name = some action := by
  cases action <;> decide

/-- Preferences are read back from their document. -/
theorem Preferences.ofToml?_toToml (prefs : Preferences) : ofToml? prefs.toToml = some prefs := by
  simp [ofToml?, toToml, Toml.fields?, Toml.part, List.lookup, ActionPreference.ofToml?_toToml]

/-- A natural number is read back from its document. -/
theorem Toml.nat?_natCast (n : Nat) : (Toml.int n).nat? = some n := rfl

/-- Limits are read back from their document. -/
theorem Script.Limits.ofToml?_toToml (limits : Limits) : ofToml? limits.toToml = some limits := by
  simp [ofToml?, toToml, Toml.fields?, Toml.part, List.lookup, Toml.nat?_natCast]

/-- A logging configuration is read back from its document. -/
theorem LoggingConfig.ofToml?_toToml (logging : LoggingConfig) :
    ofToml? logging.toToml = some logging := by
  obtain ⟨filter, directory⟩ := logging
  cases directory <;>
    simp [ofToml?, toToml, Toml.fields?, Toml.part, List.lookup, Toml.string?]

/-- The document of a configuration stands for the configuration. -/
theorem EngineConfig.ofToml?_toToml (config : EngineConfig) :
    ofToml? config.toToml = some config := by
  have hbinding : bindingOfToml? (.table [("pipeline_errors", .string config.bindingErrors.name)])
      = some config.bindingErrors := by
    simp [bindingOfToml?, Toml.fields?, Toml.part, List.lookup, BindingErrorAction.ofToml?,
      Toml.choice?, BindingErrorAction.ofName?_name]
  simp [ofToml?, toToml, Toml.fields?, Toml.part, List.lookup, hbinding,
    Preferences.ofToml?_toToml, Script.Limits.ofToml?_toToml, LoggingConfig.ofToml?_toToml]

/-! ## Limits -/

/-- The parts that fields are read from are in range if the items are. -/
theorem Toml.spread_ranged (names : List String) {items : List Toml} (h : ∀ v ∈ items, v.Ranged) :
    ∀ part ∈ Toml.fields?.spread names items, Gives Ranged part := by
  induction names generalizing items with
  | nil => exact nofun
  | cons name names ih =>
    cases items with
    | nil => exact List.forall_mem_cons.mpr ⟨.none, ih nofun⟩
    | cons v items =>
      rw [List.forall_mem_cons] at h
      exact List.forall_mem_cons.mpr ⟨.some h.1, ih h.2⟩

/-- The parts of a value are in the range where the value is. -/
theorem Toml.fields?_ranged {v : Toml} (h : v.Ranged) (names : List String) :
    Gives (fun parts => ∀ part ∈ parts, Gives Ranged part) (v.fields? names) := by
  cases h with
  | @table entries hentries =>
    refine .some fun part hpart => ?_
    obtain ⟨name, -, rfl⟩ := List.mem_map.mp hpart
    intro v hv
    obtain ⟨before, after, rfl, -⟩ := List.lookup_eq_some_iff.mp hv
    exact hentries (name, v) (List.mem_append_right before (.head after))
  | array hitems => exact .some (Toml.spread_ranged names hitems)
  | _ => exact .none

/-- A natural number that was read is in range. -/
theorem Toml.nat?_ranged {v : Toml} (h : v.Ranged) : Gives (fun n : Nat => InRange n) v.nat? := by
  cases h with
  | @int i h =>
    cases i with
    | ofNat n => exact .some h
    | negSucc n => exact .none
  | _ => exact .none

/-- What a part stands for has a property that the default and all that is read has. -/
theorem Toml.part_gives {α : Type} {p : α → Prop} {default : α} {read? : Toml → Option α}
    {part : Option Toml} (hpart : Gives Ranged part) (hdefault : p default)
    (hread : ∀ v : Toml, v.Ranged → Gives p (read? v)) : Gives p (Toml.part default read? part) := by
  cases part with
  | none => exact .some hdefault
  | some v => exact hread v (hpart v rfl)

/-- Limits in range can be written. -/
theorem Script.Limits.isWritable_of_inRange {limits : Limits} (hoperations : InRange limits.operations)
    (hcallLevels : InRange limits.callLevels) (hdepth : InRange limits.expressionDepth)
    (hsize : InRange limits.textSize) : limits.isWritable := by
  simp [isWritable, Decimal.int64?_of_inRange, *]

/-- Limits that were read can be written. -/
theorem Script.Limits.ofToml?_writable {v : Toml} (h : v.Ranged) :
    Gives (fun limits : Limits => limits.isWritable) (ofToml? v) := by
  have hpart {default : Nat} {part : Option Toml} (hdefault : InRange default)
      (hpart : Gives Ranged part) :
      Gives (fun n : Nat => InRange n) (Toml.part default Toml.nat? part) :=
    Toml.part_gives hpart hdefault fun v hv => Toml.nat?_ranged hv
  refine (Toml.fields?_ranged h _).bind fun parts hparts => ?_
  split
  · next operations callLevels expressionDepth textSize =>
    simp only [List.forall_mem_cons] at hparts
    obtain ⟨hoperations, hcallLevels, hdepth, hsize, -⟩ := hparts
    refine (hpart (by decide) hoperations).bind fun _ hoperations => ?_
    refine (hpart (by decide) hcallLevels).bind fun _ hcallLevels => ?_
    refine (hpart (by decide) hdepth).bind fun _ hdepth => ?_
    refine (hpart (by decide) hsize).bind fun _ hsize => ?_
    exact .some (isWritable_of_inRange hoperations hcallLevels hdepth hsize)
  · exact .none

/-- The limits of a configuration that was read can be written. -/
theorem EngineConfig.ofToml?_writable {v : Toml} (h : v.Ranged) :
    Gives (fun config : EngineConfig => config.scripts.isWritable) (ofToml? v) := by
  refine (Toml.fields?_ranged h _).bind fun parts hparts => ?_
  split
  · next preferences binding scripts logging =>
    simp only [List.forall_mem_cons] at hparts
    obtain ⟨-, -, hscripts, -⟩ := hparts
    have hlimits : Gives (fun limits : Script.Limits => limits.isWritable)
        (Toml.part {} Script.Limits.ofToml? scripts) :=
      Toml.part_gives hscripts (by decide) fun v hv => Script.Limits.ofToml?_writable hv
    exact .after fun _ => .after fun _ => hlimits.bind fun _ hlimits => .after fun _ => .some hlimits
  · exact .none

/-! ## Texts of configurations -/

/-- The document of preferences is a group of simple entries. -/
theorem Preferences.toToml_group (prefs : Preferences) :
    ∃ entries, prefs.toToml = .table entries ∧ IsGroup entries := by
  refine ⟨_, rfl, List.cons_ne_nil _ _, by simp, ?_⟩
  simp only [List.forall_mem_cons]
  exact ⟨⟨by decide, .string _⟩, ⟨by decide, .string _⟩, ⟨by decide, .string _⟩,
    ⟨by decide, .string _⟩, ⟨by decide, .string _⟩, ⟨by decide, .string _⟩, nofun⟩

/-- The document of limits that can be written is a group of simple entries. -/
theorem Script.Limits.toToml_group {limits : Limits} (h : limits.isWritable) :
    ∃ entries, limits.toToml = .table entries ∧ IsGroup entries := by
  have hrange {n : Nat} (hn : (Decimal.int64? n).isSome) : Simple (.int n) := by
    by_contra hsimple
    rw [Decimal.int64?_of_not_inRange fun hrange => hsimple (.nat hrange)] at hn
    cases hn
  simp only [isWritable, List.all_cons, List.all_nil, Bool.and_true, Bool.and_eq_true] at h
  obtain ⟨hoperations, hcallLevels, hdepth, hsize⟩ := h
  refine ⟨_, rfl, List.cons_ne_nil _ _, by simp, ?_⟩
  simp only [List.forall_mem_cons]
  exact ⟨⟨by decide, hrange hoperations⟩, ⟨by decide, hrange hcallLevels⟩,
    ⟨by decide, hrange hdepth⟩, ⟨by decide, hrange hsize⟩, nofun⟩

/-- The document of a logging configuration is a group of simple entries. -/
theorem LoggingConfig.toToml_group (logging : LoggingConfig) :
    ∃ entries, logging.toToml = .table entries ∧ IsGroup entries := by
  obtain ⟨filter, directory⟩ := logging
  cases directory with
  | none =>
    refine ⟨[("filter", .string filter)], rfl, List.cons_ne_nil _ _, by simp, ?_⟩
    simp only [List.forall_mem_cons]
    exact ⟨⟨by decide, .string _⟩, nofun⟩
  | some directory =>
    refine ⟨[("filter", .string filter), ("directory", .string directory)], rfl,
      List.cons_ne_nil _ _, by simp, ?_⟩
    simp only [List.forall_mem_cons]
    exact ⟨⟨by decide, .string _⟩, ⟨by decide, .string _⟩, nofun⟩

namespace EngineConfig

/-- The document of a configuration consists of groups. -/
theorem toToml_groups {config : EngineConfig} (h : config.scripts.isWritable) :
    ∃ groups, config.toToml = ofGroups groups ∧ (groups.map Prod.fst).Nodup
      ∧ ∀ g ∈ groups, Bare g.1 ∧ IsGroup g.2 := by
  obtain ⟨preferences, hpreferences, hpreferencesGroup⟩ := config.preferences.toToml_group
  obtain ⟨scripts, hscripts, hscriptsGroup⟩ := Script.Limits.toToml_group h
  obtain ⟨logging, hlogging, hloggingGroup⟩ := config.logging.toToml_group
  have hbinding : IsGroup [("pipeline_errors", .string config.bindingErrors.name)] := by
    refine ⟨List.cons_ne_nil _ _, by simp, ?_⟩
    simp only [List.forall_mem_cons]
    exact ⟨⟨by decide, .string _⟩, nofun⟩
  refine ⟨[("preferences", preferences),
    ("binding", [("pipeline_errors", .string config.bindingErrors.name)]),
    ("scripting", scripts), ("logging", logging)], ?_, by simp, ?_⟩
  · rw [toToml, hpreferences, hscripts, hlogging]
    rfl
  · simp only [List.forall_mem_cons]
    exact ⟨⟨by decide, hpreferencesGroup⟩, ⟨by decide, hbinding⟩, ⟨by decide, hscriptsGroup⟩,
      ⟨by decide, hloggingGroup⟩, nofun⟩

/-- The text of a configuration is read back as the configuration. -/
theorem parse_text {config : EngineConfig} (h : config.scripts.isWritable) :
    parse config.text = .ok config := by
  obtain ⟨groups, hdocument, hnames, hgroups⟩ := toToml_groups h
  have hread : Toml.read? config.text = some config.toToml := by
    rw [text, hdocument]
    exact Toml.read?_text_ofGroups hnames hgroups
  rw [parse, hread, Option.bind_some, ofToml?_toToml]

/-- The configurations that are read from some text are those with limits in the range of 64 bits. -/
theorem exists_parse_iff (config : EngineConfig) :
    (∃ s, parse s = .ok config) ↔ config.scripts.isWritable := by
  refine ⟨fun ⟨s, h⟩ => ?_, fun h => ⟨config.text, parse_text h⟩⟩
  have hread : Gives (fun config : EngineConfig => config.scripts.isWritable)
      ((Toml.read? s).bind ofToml?) :=
    (Toml.read?_ranged s).bind fun v hv => ofToml?_writable hv
  refine hread config ?_
  unfold parse at h
  split at h
  · next hfound => rw [hfound, Except.ok.inj h]
  · cases h

/-- A configuration that was read can be saved, and what is saved is read as the same
configuration. -/
theorem parse_saved {s : String} {config : EngineConfig} (h : parse s = .ok config) :
    ∃ saved, config.saved = .ok saved ∧ parse saved = .ok config := by
  have hwritable := (exists_parse_iff config).mp ⟨s, h⟩
  exact ⟨config.text, if_pos hwritable, parse_text hwritable⟩

/-- A file with marks, escapes and a line break in its texts, and with the greatest limit. -/
def specimenText : String :=
  "[logging]\nfilter = 'warn,\"cmd\\pipe\"'\ndirectory = \"\\u0001\\n'''\u00fc\"\n\n"
    ++ "[scripting]\nmax_operations = 9_223_372_036_854_775_807\n"

/-- What the file sets. -/
def specimen : EngineConfig :=
  { scripts := { operations := 9223372036854775807 }
    logging := { filter := "warn,\"cmd\\pipe\"", directory := some "\x01\n'''\u00fc" } }

/-- A file with escapes, a line break and the greatest limit is read, saved, and read back to the
same. -/
theorem parse_saved_specimen : parse specimenText = .ok specimen
    ∧ ∃ saved, specimen.saved = .ok saved ∧ parse saved = .ok specimen := by
  have hread : (Toml.read? specimenText).bind ofToml? = some specimen := by decide +kernel
  have hparse : parse specimenText = .ok specimen := by rw [parse, hread]
  exact ⟨hparse, parse_saved hparse⟩

end EngineConfig

end CommandChain
