import CommandChain.Value.Document
import CommandChain.Proofs.Documents.Json
/-!
# Values survive their documents

A value without doubles, rows and native objects is read back from its compact text, whatever integers,
texts and names it holds, up to the nesting that the reader allows. The reader tries the kinds of values
by the form of the document only, and builds a property bag anew: its order is the one it had.
-/

namespace CommandChain

/-! ## Property bags -/

namespace Text

/-- Exchanging two lists of characters exchanges their order. -/
theorem swap_compareChars (cs ds : List Char) : (compareChars cs ds).swap = compareChars ds cs := by
  induction cs generalizing ds with
  | nil => cases ds <;> rfl
  | cons c cs ih =>
    cases ds with
    | nil => rfl
    | cons d ds =>
      rw [compareChars, compareChars, Ordering.swap_then, ih, compareChar, compareChar,
        Nat.compare_swap]

/-- Exchanging two texts exchanges their order. -/
theorem swap_compareText (s t : String) : (compareText s t).swap = compareText t s :=
  swap_compareChars s.toList t.toList

end Text

namespace Value

/-- The names increase, so that none of them comes twice. -/
def Ordered {α : Type} (entries : List (String × α)) : Prop :=
  entries.Pairwise fun p q => Text.compareText p.1 q.1 = .lt

instance {α : Type} (entries : List (String × α)) : Decidable (Ordered entries) :=
  inferInstanceAs (Decidable (entries.Pairwise fun p q => Text.compareText p.1 q.1 = .lt))

/-- What comes last in the order is put at the end. -/
theorem insertProperty_of_last {α : Type} {name : String} {entries : List (String × α)}
    (h : ∀ p ∈ entries, Text.compareText p.1 name = .lt) (v : α) :
    insertProperty name v entries = entries ++ [(name, v)] := by
  induction entries with
  | nil => rfl
  | cons p entries ih =>
    obtain ⟨key, old⟩ := p
    rw [List.forall_mem_cons] at h
    have hafter : Text.compareText name key = .gt := by
      rw [← Text.swap_compareText, h.1]
      rfl
    rw [insertProperty, hafter, ih h.2]
    rfl

/-- A bag in order is put together as it was. -/
theorem bag_of_ordered {α : Type} {entries : List (String × α)} (h : Ordered entries) :
    bag entries = entries := by
  have hgrown (first rest : List (String × α)) (h : Ordered (first ++ rest)) :
      rest.foldl (fun bag p => insertProperty p.1 p.2 bag) first = first ++ rest := by
    induction rest generalizing first with
    | nil => exact (List.append_nil first).symm
    | cons p rest ih =>
      have hlast : ∀ q ∈ first, Text.compareText q.1 p.1 = .lt := fun q hq =>
        (List.pairwise_append.mp h).2.2 q hq p List.mem_cons_self
      rw [List.foldl_cons, insertProperty_of_last hlast, ih, List.append_assoc]
      · rfl
      · rwa [List.append_assoc]
  exact hgrown [] entries h

/-! ## Values -/

/-- A value of scalars, texts, arrays and property bags, without doubles. -/
inductive Plain : Value → Prop
  | null : Plain .null
  | bool (b : Bool) : Plain (.bool b)
  | int (i : Int64) : Plain (.int i)
  | string (s : String) : Plain (.string s)
  | array {items : List Value} (hitems : ∀ v ∈ items, Plain v) : Plain (.array items)
  | object {properties : List (String × Value)} (hordered : Ordered properties)
    (hvalues : ∀ p ∈ properties, Plain p.2) : Plain (.object properties)

/-- A 64-bit integer is one that a machine word holds. -/
theorem isWord_toInt (i : Int64) : Json.IsWord i.toInt :=
  ⟨i.minValue_le_toInt, Int.lt_trans i.toInt_lt (by decide)⟩

mutual
/-- The document of a plain value is written without loss. -/
theorem exact_toJson : ∀ v : Value, v.Plain → v.toJson.Exact
  | .null, _ => .null
  | .bool b, _ => .bool b
  | .int i, _ => .int (isWord_toInt i)
  | .string s, _ => .string s
  | .array items, h => by
    cases h with
    | array hitems => exact .array (exact_itemsToJson items hitems)
  | .object properties, h => by
    cases h with
    | object _ hvalues => exact .object (exact_propertiesToJson properties hvalues)

/-- The documents of plain items are written without loss. -/
theorem exact_itemsToJson : ∀ items : List Value, (∀ v ∈ items, v.Plain) →
    ∀ j ∈ itemsToJson items, j.Exact
  | [], _ => nofun
  | v :: items, h => by
    rw [List.forall_mem_cons] at h
    exact List.forall_mem_cons.mpr ⟨exact_toJson v h.1, exact_itemsToJson items h.2⟩

/-- The documents of plain properties are written without loss. -/
theorem exact_propertiesToJson : ∀ properties : List (String × Value),
    (∀ p ∈ properties, p.2.Plain) → ∀ m ∈ propertiesToJson properties, m.2.Exact
  | [], _ => nofun
  | (name, v) :: properties, h => by
    rw [List.forall_mem_cons] at h
    exact List.forall_mem_cons.mpr ⟨exact_toJson v h.1, exact_propertiesToJson properties h.2⟩
end

mutual
/-- The document of a value stands for the value, if it does not nest too deep to be read. -/
theorem ofJson?_toJson : ∀ (v : Value), v.Plain → ∀ limit,
    ofJson? limit v.toJson = if v.depth ≤ limit then some v else none
  | .null, _, _ => rfl
  | .bool b, _, _ => rfl
  | .int i, _, _ => by
    rw [toJson, ofJson?, Decimal.int64?_toInt]
    rfl
  | .string s, _, _ => rfl
  | .array items, h, limit => by
    cases h with
    | array hitems =>
      cases limit with
      | zero => rfl
      | succ limit =>
        have hpositive : (limit + 1 == 0) = false := rfl
        rw [toJson, ofJson?, depth, hpositive]
        simp only [Bool.false_eq_true, if_false, Nat.add_sub_cancel,
          itemsOfJson?_itemsToJson items hitems limit, Nat.add_le_add_iff_right]
        split <;> rfl
  | .object properties, h, limit => by
    cases h with
    | object hordered hvalues =>
      cases limit with
      | zero => rfl
      | succ limit =>
        have hpositive : (limit + 1 == 0) = false := rfl
        rw [toJson, ofJson?, depth, hpositive]
        simp only [Bool.false_eq_true, if_false, Nat.add_sub_cancel,
          membersOfJson?_propertiesToJson properties hvalues limit, Nat.add_le_add_iff_right]
        split
        · exact congrArg (fun bag => some (Value.object bag)) (bag_of_ordered hordered)
        · rfl

/-- Plain items are read back exactly if none is deeper than the limit. -/
theorem itemsOfJson?_itemsToJson : ∀ (items : List Value), (∀ v ∈ items, v.Plain) → ∀ limit,
    itemsOfJson? limit (itemsToJson items) = if depthItems items ≤ limit then some items else none
  | [], _, _ => rfl
  | v :: items, h, limit => by
    rw [List.forall_mem_cons] at h
    rw [itemsToJson, itemsOfJson?, ofJson?_toJson v h.1 limit,
      itemsOfJson?_itemsToJson items h.2 limit, depthItems]
    simp only [Nat.max_le]
    by_cases hv : v.depth ≤ limit <;> by_cases hitems : depthItems items ≤ limit <;>
      simp [hv, hitems]

/-- Plain properties are read back exactly if none is deeper than the limit. -/
theorem membersOfJson?_propertiesToJson : ∀ (properties : List (String × Value)),
    (∀ p ∈ properties, p.2.Plain) → ∀ limit,
      membersOfJson? limit (propertiesToJson properties)
        = if depthProperties properties ≤ limit then some properties else none
  | [], _, _ => rfl
  | (name, v) :: properties, h, limit => by
    rw [List.forall_mem_cons] at h
    rw [propertiesToJson, membersOfJson?, ofJson?_toJson v h.1 limit,
      membersOfJson?_propertiesToJson properties h.2 limit, depthProperties]
    simp only [Nat.max_le]
    by_cases hv : v.depth ≤ limit <;>
      by_cases hproperties : depthProperties properties ≤ limit <;> simp [hv, hproperties]
end

/-- **Values survive a round trip through JSON.** A value without doubles, rows and native objects is
read back from its compact text exactly if its arrays and objects nest at most 127 deep, and deeper
ones are refused. -/
theorem plain_survives_json {v : Value} (h : v.Plain) :
    readJson? v.jsonText = if v.depth ≤ 127 then some v else none := by
  rw [readJson?, jsonText, Json.read?_text (exact_toJson v h), Option.bind_some]
  exact ofJson?_toJson v h nestingLimit

/-- A bag with the least integer, a text and a name of characters that are escaped or not ASCII. -/
def specimen : Value :=
  .object [("", .array [.int (-9223372036854775808), .bool true, .array []]),
    ("\"\\\n\x01é", .string "😀\x7f\t/"), ("a", .null)]

/-- A bag with the least integer and with names and texts that need escapes survives. -/
theorem plain_survives_json_specimen :
    specimen.Plain ∧ specimen.depth ≤ 127 ∧ readJson? specimen.jsonText = some specimen := by
  have hplain : specimen.Plain := by
    refine .object (by decide) ?_
    simp only [List.forall_mem_cons]
    refine ⟨.array ?_, .string _, .null, List.forall_mem_nil _⟩
    simp only [List.forall_mem_cons]
    exact ⟨.int _, .bool _, .array (List.forall_mem_nil _), List.forall_mem_nil _⟩
  have hdepth : specimen.depth ≤ 127 := by decide
  exact ⟨hplain, hdepth, (plain_survives_json hplain).trans (if_pos hdepth)⟩

end Value

end CommandChain
