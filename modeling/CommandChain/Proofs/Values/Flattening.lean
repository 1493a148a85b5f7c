import CommandChain.Proofs.Values.Bags
import CommandChain.Script.Datum
/-!
# Values that go through a script

A value that enters a script and comes out again is what it was, but for rows and native objects: these
become bags of the properties that the adapter lists for them, however deep they lie. What came out once
is flat, and stays as it is from then on.

The properties of an object lie less deep than the object itself, whatever adapter of the library reads
them. So the fuel of the conversion, the depth of the value, never runs out.
-/

namespace CommandChain

/-! ## Adapters of the library -/

/-- The adapters for bags, for rows of any schemas and for native objects, and whatever is composed of
them. -/
inductive Adapter.BuiltIn : Adapter → Prop
  | bags : BuiltIn .bags
  | rows (registry : SchemaRegistry) : BuiltIn (.rows registry)
  | natives : BuiltIn .natives
  | composite {parts : List Adapter} (h : ∀ part ∈ parts, part.BuiltIn) : BuiltIn (.composite parts)

namespace Value

variable {v w : Value} {name : String}

/-- A value among others is at most as deep as they are. -/
theorem depth_le_depthItems {items : List Value} (h : v ∈ items) : v.depth ≤ depthItems items := by
  induction items with
  | nil => cases h
  | cons first items ih =>
    rw [depthItems]
    rcases List.mem_cons.mp h with rfl | hmem
    · exact Nat.le_max_left _ _
    · exact Nat.le_trans (ih hmem) (Nat.le_max_right _ _)

/-- What stands at an index is at most as deep as the list, and null where there is nothing. -/
theorem depth_getD_le (items : List Value) (index : Nat) :
    (items.getD index .null).depth ≤ depthItems items := by
  rw [List.getD_eq_getElem?_getD]
  cases hfield : items[index]? with
  | none => exact Nat.zero_le _
  | some v => exact depth_le_depthItems (List.mem_of_getElem? hfield)

/-- A property is at most as deep as its bag. -/
theorem depth_le_depthProperties {properties : List (String × Value)} {p : String × Value}
    (h : p ∈ properties) : p.2.depth ≤ depthProperties properties := by
  induction properties with
  | nil => cases h
  | cons first properties ih =>
    rw [depthProperties]
    rcases List.mem_cons.mp h with rfl | hmem
    · exact Nat.le_max_left _ _
    · exact Nat.le_trans (ih hmem) (Nat.le_max_right _ _)

/-- A value that is looked up is at most as deep as its bag. -/
theorem depth_le_of_lookup {properties : List (String × Value)} (h : properties.lookup name = some w) :
    w.depth ≤ depthProperties properties := by
  obtain ⟨before, after, rfl, -⟩ := List.lookup_eq_some_iff.mp h
  exact depth_le_depthProperties (p := (name, w)) (List.mem_append_right _ List.mem_cons_self)

end Value

namespace Adapter

variable {adapter : Adapter} {v w : Value} {name : String}

/-- A property of a bag, found up to case, is at most as deep as the bag. -/
theorem depth_le_of_bagProperty? {properties : List (String × Value)}
    (h : bagProperty? properties name = some w) : w.depth ≤ Value.depthProperties properties := by
  unfold bagProperty? at h
  split at h
  · next hexact => exact Option.some.inj h ▸ Value.depth_le_of_lookup hexact
  · obtain ⟨p, hp, rfl⟩ := Option.map_eq_some_iff.mp h
    exact Value.depth_le_depthProperties (List.mem_of_find?_eq_some hp)

/-- A property of a native object is at most as deep as the object. -/
theorem depth_le_of_nativeProperty? {properties : List (String × Value)} {hidden : List String}
    (h : nativeProperty? properties hidden name = some w) :
    w.depth ≤ Value.depthProperties properties := by
  unfold nativeProperty? at h
  split at h
  · next hexact => exact Option.some.inj h ▸ Value.depth_le_of_lookup hexact
  · obtain ⟨listed, -, hlisted⟩ := Option.bind_eq_some_iff.mp h
    exact Value.depth_le_of_lookup hlisted

/-- What is read from an object lies less deep than the object. -/
theorem BuiltIn.depth_lt (h : adapter.BuiltIn) (hread : adapter.property? v name = some w) :
    w.depth < v.depth := by
  induction h with
  | bags =>
    cases v with
    | object properties => exact Nat.lt_succ_of_le (depth_le_of_bagProperty? hread)
    | _ => cases hread
  | rows registry =>
    cases v with
    | typed typeName fields =>
      obtain ⟨schema, -, hindex⟩ := Option.bind_eq_some_iff.mp hread
      obtain ⟨index, -, hfield⟩ := Option.bind_eq_some_iff.mp hindex
      exact Nat.lt_succ_of_le (Option.some.inj hfield ▸ Value.depth_getD_le fields index)
    | _ => cases hread
  | natives =>
    cases v with
    | native id typeName properties hidden =>
      exact Nat.lt_succ_of_le (depth_le_of_nativeProperty? hread)
    | _ => cases hread
  | composite h ih =>
    obtain ⟨part, hpart, hread⟩ := List.exists_of_findSome?_eq_some hread
    exact ih part hpart hread

/-! ## One layer at a time -/

/-- The bag of the properties that an adapter lists for an object, with what `f` makes of their values.
A property without a value is null, and the bag is empty where the adapter does not understand the
object. -/
def listing (adapter : Adapter) (f : Value → Value) (v : Value) : Value :=
  .ofProperties (((adapter.propertyNames? v).getD []).map fun name =>
    (name, ((adapter.property? v name).map f).getD .null))

/-- What becomes of a value where `f` says what becomes of the values in it: rows and native objects are
replaced by the bags of their properties, and nothing else changes. -/
def layer (adapter : Adapter) (f : Value → Value) : Value → Value
  | .array items => .array (items.map f)
  | .object properties => .object (properties.map (Prod.map id f))
  | .typed typeName fields => adapter.listing f (.typed typeName fields)
  | .native id typeName properties hidden =>
    adapter.listing f (.native id typeName properties hidden)
  | scalar => scalar

variable {f g : Value → Value}

/-- What an adapter lists for an object depends only on what becomes of values less deep than it. -/
theorem BuiltIn.listing_congr (h : adapter.BuiltIn) (hfg : ∀ w, w.depth < v.depth → f w = g w) :
    adapter.listing f v = adapter.listing g v := by
  rw [listing, listing]
  congr 1
  refine List.map_congr_left fun name _ => ?_
  cases hread : adapter.property? v name with
  | none => rfl
  | some w => rw [Option.map_some, Option.map_some, hfg w (h.depth_lt hread)]

/-- A layer is made of what lies less deep. -/
theorem BuiltIn.layer_congr (h : adapter.BuiltIn) (hfg : ∀ w, w.depth < v.depth → f w = g w) :
    adapter.layer f v = adapter.layer g v := by
  cases v with
  | array items =>
    refine congrArg Value.array (List.map_congr_left fun w hw => hfg w ?_)
    exact Nat.lt_succ_of_le (Value.depth_le_depthItems hw)
  | object properties =>
    refine congrArg Value.object (List.map_congr_left fun p hp => ?_)
    rw [Prod.map_apply, Prod.map_apply, hfg p.2 (Nat.lt_succ_of_le (Value.depth_le_depthProperties hp))]
  | typed typeName fields => exact h.listing_congr hfg
  | native id typeName properties hidden => exact h.listing_congr hfg
  | _ => rfl

/-- There is one function at most that works layer by layer. -/
theorem BuiltIn.layer_unique (h : adapter.BuiltIn) (hf : ∀ v, f v = adapter.layer f v)
    (hg : ∀ v, g v = adapter.layer g v) : f = g := by
  have hbelow (n : Nat) : ∀ v : Value, v.depth < n → f v = g v := by
    induction n with
    | zero => exact fun v hv => absurd hv (Nat.not_lt_zero _)
    | succ n ih =>
      intro v hv
      rw [hf v, hg v]
      exact h.layer_congr fun w hw => ih w (by omega)
  funext v
  exact hbelow (v.depth + 1) v (Nat.lt_succ_self _)

end Adapter

/-! ## Through a script and back -/

namespace Script.Datum

/-- The values of several data are those of each. -/
theorem toValues_eq_map (items : List Datum) : toValues items = items.map toValue := by
  induction items with
  | nil => rfl
  | cons d items ih => rw [toValues, ih, List.map_cons]

/-- The named values of entries are those of each. -/
theorem toProperties_eq_map (entries : List (String × Datum)) :
    toProperties entries = entries.map (Prod.map id toValue) := by
  induction entries with
  | nil => rfl
  | cons entry entries ih =>
    obtain ⟨name, d⟩ := entry
    rw [toProperties, ih, List.map_cons, Prod.map_apply, id]

/-- Entries that are put together for some names give the bag of what they stand for. -/
theorem toProperties_foldl (datum : String → Datum) (names : List String)
    (entries : List (String × Datum)) :
    toProperties (names.foldl (fun entries name => Value.insertProperty name (datum name) entries)
        entries)
      = (names.map fun name => (name, (datum name).toValue)).foldl
          (fun bag (name, v) => Value.insertProperty name v bag) (toProperties entries) := by
  induction names generalizing entries with
  | nil => rfl
  | cons name names ih =>
    rw [List.foldl_cons, ih, List.map_cons, List.foldl_cons, toProperties_eq_map,
      Value.map_insertProperty, ← toProperties_eq_map]

/-- The bag of an object in a script is the bag of its properties. -/
theorem toValue_listing (adapter : Adapter) (f : Value → Datum) (v : Value) :
    (Datum.map (((adapter.propertyNames? v).getD []).foldl (fun entries name =>
        let datum := match adapter.property? v name with
          | some w => f w
          | none => .unit
        Value.insertProperty name datum entries) [])).toValue
      = adapter.listing (fun w => (f w).toValue) v := by
  refine congrArg Value.object ((toProperties_foldl _ _ _).trans ?_)
  refine congrArg (List.foldl _ []) (List.map_congr_left fun name _ => ?_)
  cases adapter.property? v name with
  | none => rfl
  | some w => rfl

/-- With fuel for one more layer the way through a script takes one more layer. -/
theorem toValue_ofValueWithin_succ (adapter : Adapter) (fuel : Nat) (v : Value) :
    (ofValueWithin adapter (fuel + 1) v).toValue
      = adapter.layer (fun w => (ofValueWithin adapter fuel w).toValue) v := by
  cases v with
  | array items =>
    rw [ofValueWithin, toValue, toValues_eq_map, List.map_map]
    rfl
  | object properties =>
    rw [ofValueWithin, toValue, toProperties_eq_map, List.map_map]
    rfl
  | typed typeName fields => exact toValue_listing adapter (ofValueWithin adapter fuel) _
  | native id typeName properties hidden =>
    exact toValue_listing adapter (ofValueWithin adapter fuel) _
  | _ => rfl

end Script.Datum

namespace Value

open Script (Datum)

variable {adapter : Adapter} {v : Value}

/-- What a value is that enters a script and comes out again. -/
def throughScript (adapter : Adapter) (v : Value) : Value :=
  (Datum.ofValue adapter v).toValue

/-- Fuel that goes deeper than the value makes no difference. -/
theorem toValue_ofValueWithin (h : adapter.BuiltIn) {fuel : Nat} (hfuel : v.depth < fuel) :
    (Datum.ofValueWithin adapter fuel v).toValue = v.throughScript adapter := by
  have hsame (fuel : Nat) : ∀ (fuel' : Nat) (v : Value), v.depth < fuel → v.depth < fuel' →
      (Datum.ofValueWithin adapter fuel v).toValue
        = (Datum.ofValueWithin adapter fuel' v).toValue := by
    induction fuel with
    | zero => exact fun _ _ hfuel => absurd hfuel (Nat.not_lt_zero _)
    | succ fuel ih =>
      intro fuel' v hfuel hfuel'
      obtain ⟨fuel', rfl⟩ := Nat.exists_eq_succ_of_ne_zero (Nat.ne_zero_of_lt hfuel')
      rw [Datum.toValue_ofValueWithin_succ, Datum.toValue_ofValueWithin_succ]
      exact h.layer_congr fun w hw => ih fuel' w (by omega) (by omega)
  exact hsame fuel (v.depth + 1) v hfuel (Nat.lt_succ_self _)

/-- The way through a script works layer by layer. -/
theorem throughScript_eq_layer (h : adapter.BuiltIn) (v : Value) :
    v.throughScript adapter = adapter.layer (throughScript adapter) v := by
  rw [throughScript, Datum.ofValue, Datum.toValue_ofValueWithin_succ]
  exact h.layer_congr fun w hw => toValue_ofValueWithin h hw

/-! ## Flat values -/

/-- A value without rows and native objects at any depth. -/
inductive Flat : Value → Prop
  | null : Flat .null
  | bool (b : Bool) : Flat (.bool b)
  | int (i : Int64) : Flat (.int i)
  | float (x : Float) : Flat (.float x)
  | string (s : String) : Flat (.string s)
  | array {items : List Value} (hitems : ∀ v ∈ items, Flat v) : Flat (.array items)
  | object {properties : List (String × Value)} (hvalues : ∀ p ∈ properties, Flat p.2) :
    Flat (.object properties)

mutual
/-- Whatever comes out of a script is flat. -/
theorem flat_toValue : ∀ d : Datum, d.toValue.Flat
  | .unit => .null
  | .bool b => .bool b
  | .int i => .int i
  | .float x => .float x
  | .text s => .string s
  | .array items => .array (flat_toValues items)
  | .map entries => .object (flat_toProperties entries)

/-- The values of data hold no rows and no native objects. -/
theorem flat_toValues : ∀ items : List Datum, ∀ v ∈ Datum.toValues items, v.Flat
  | [] => List.forall_mem_nil _
  | d :: items => List.forall_mem_cons.mpr ⟨flat_toValue d, flat_toValues items⟩

/-- The named values of entries hold no rows and no native objects. -/
theorem flat_toProperties : ∀ entries : List (String × Datum),
    ∀ p ∈ Datum.toProperties entries, p.2.Flat
  | [] => List.forall_mem_nil _
  | (_, d) :: entries => List.forall_mem_cons.mpr ⟨flat_toValue d, flat_toProperties entries⟩
end

/-- A flat value goes through a script unchanged. -/
theorem Flat.throughScript_eq (hflat : v.Flat) (h : adapter.BuiltIn) : v.throughScript adapter = v := by
  induction hflat with
  | @array items hitems ih =>
    rw [throughScript_eq_layer h]
    refine congrArg Value.array ?_
    exact (List.map_congr_left ih).trans (List.map_id items)
  | @object properties hvalues ih =>
    rw [throughScript_eq_layer h]
    refine congrArg Value.object ?_
    refine (List.map_congr_left fun p hp => ?_).trans (List.map_id properties)
    rw [Prod.map_apply, ih p hp]
    rfl
  | _ => rfl

/-- **Flattening once and for all.** The way through a script is the only function that replaces rows
and native objects, at any depth, by the bags of their properties and changes nothing else. What comes
out is flat, flat values come back unchanged, and going that way again changes nothing. -/
theorem flattens_once (h : adapter.BuiltIn) :
    (∀ f : Value → Value, (∀ v, f v = adapter.layer f v) ↔ f = throughScript adapter)
      ∧ (∀ v : Value, (v.throughScript adapter).Flat)
      ∧ (∀ v : Value, v.Flat → v.throughScript adapter = v)
      ∧ ∀ v : Value, (v.throughScript adapter).throughScript adapter = v.throughScript adapter := by
  have hflat (v : Value) : (v.throughScript adapter).Flat := flat_toValue _
  refine ⟨fun f => ⟨fun hf => ?_, ?_⟩, hflat, fun v hv => hv.throughScript_eq h,
    fun v => (hflat v).throughScript_eq h⟩
  · exact h.layer_unique hf (throughScript_eq_layer h)
  · rintro rfl
    exact throughScript_eq_layer h

/-- A row that holds a native object, and a row without a schema. Two names of the schema differ in
their case only, and the native object lists a name without a value. -/
def nested : Value :=
  .array [.typed "point" [.int 1, .native 0 "Service" [("Status", .string "up")] ["Uptime"]],
    .typed "Other" [.int 2]]

/-- The bags that these objects turn into. -/
def nestedBags : Value :=
  .array [.object [("X", .int 1), ("Y", .object [("Status", .string "up"), ("Uptime", .null)]),
    ("x", .int 1)], .object []]

/-- A row that holds a native object and a row without a schema become bags, which stay as they are.
-/
theorem flattens_once_nested :
    (Adapter.standard ⟨[⟨"Point", ["X", "Y", "x"]⟩]⟩).BuiltIn
      ∧ nested.throughScript (.standard ⟨[⟨"Point", ["X", "Y", "x"]⟩]⟩) = nestedBags
      ∧ nestedBags.throughScript (.standard ⟨[⟨"Point", ["X", "Y", "x"]⟩]⟩) = nestedBags := by
  have hbuiltIn : (Adapter.standard ⟨[⟨"Point", ["X", "Y", "x"]⟩]⟩).BuiltIn := by
    refine .composite ?_
    simp only [List.forall_mem_cons]
    exact ⟨.bags, .rows _, .natives, List.forall_mem_nil _⟩
  have hbags : nested.throughScript (.standard ⟨[⟨"Point", ["X", "Y", "x"]⟩]⟩) = nestedBags := rfl
  obtain ⟨-, -, -, hagain⟩ := flattens_once hbuiltIn
  exact ⟨hbuiltIn, hbags, hbags ▸ hagain nested⟩

end Value

end CommandChain
