import CommandChain.Proofs.Values.Digits
import CommandChain.Toml.Reader
/-!
# Integers of a TOML document have 64 bits

The reader gives no integer out of that range: every one that it meets is checked where it stands, and
building tables only moves finished values about.
-/

namespace CommandChain.Toml

open CommandChain.Decimal (InRange)

/-- All integers in a value are in the range of 64 bits. -/
inductive Ranged : Toml → Prop
  | string (s : String) : Ranged (.string s)
  | int {i : Int} (h : InRange i) : Ranged (.int i)
  | float (x : Float) : Ranged (.float x)
  | bool (b : Bool) : Ranged (.bool b)
  | array {items : List Toml} (h : ∀ v ∈ items, Ranged v) : Ranged (.array items)
  | table {entries : List (String × Toml)} (h : ∀ e ∈ entries, Ranged e.2) : Ranged (.table entries)

/-- Every reading that succeeds has a property. -/
def Gives {α : Type} (p : α → Prop) (found : Option α) : Prop :=
  ∀ a, found = some a → p a

section Gives

variable {α β : Type} {p : α → Prop} {q : β → Prop} {found : Option α} {next : α → Option β}

theorem Gives.none : Gives p none :=
  nofun

theorem Gives.some {a : α} (h : p a) : Gives p (some a) := by
  intro b hb
  exact Option.some.inj hb ▸ h

/-- Two readings in turn have a property if the second does after whatever the first gives. -/
theorem Gives.bind (h : Gives p found) (hnext : ∀ a, p a → Gives q (next a)) :
    Gives q (found.bind next) := by
  intro b hb
  obtain ⟨a, ha, hb⟩ := Option.bind_eq_some_iff.mp hb
  exact hnext a (h a ha) b hb

/-- Where a reading goes on, it does not matter what came before. -/
theorem Gives.after (hnext : ∀ a, Gives q (next a)) : Gives q (found.bind next) :=
  Gives.bind (p := fun _ => True) (fun _ _ => trivial) fun a _ => hnext a

/-- What a reading is mapped to has a property if every image has. -/
theorem Gives.map {f : α → β} (h : Gives p found) (hf : ∀ a, p a → q (f a)) :
    Gives q (found.map f) := by
  intro b hb
  obtain ⟨a, ha, rfl⟩ := Option.map_eq_some_iff.mp hb
  exact hf a (h a ha)

end Gives

/-! ## Numbers, dates and times -/

/-- An integer that is checked for its range is in it. -/
theorem ranged?_ranged (i : Int) : Gives Ranged (ranged? i) := by
  intro v hv
  obtain ⟨j, -, rfl⟩ := Option.map_eq_some_iff.mp hv
  exact .int ⟨j.minValue_le_toInt, Int.le_of_lt_add_one j.toInt_lt⟩

theorem double?_ranged (numeral : List Char) : Gives Ranged (double? numeral) := by
  unfold double?
  split
  · split
    · exact .none
    · exact .some (.float _)
  · exact .none

/-- An integer in another base is in range. -/
theorem inBase?_ranged (base : Nat) (isOne : Char → Bool) (cs : List Char) :
    Gives (fun found => Ranged found.1) (inBase? base isOne cs) :=
  .after fun _ => (ranged?_ranged _).bind fun _ hv => .some hv

/-- An integer in decimals is in range. -/
theorem decimal?_ranged (cs : List Char) : Gives (fun found => Ranged found.1) (decimal? cs) := by
  have hdouble (numeral rest : List Char) :
      Gives (fun found => Ranged found.1) ((double? numeral).bind fun v => some (v, rest)) :=
    (double?_ranged numeral).bind fun _ hv => .some hv
  unfold decimal?
  split
  split
  · exact .some (.float _)
  · exact .some (.float _)
  · refine .after fun ⟨whole, rest⟩ => ?_
    dsimp only
    split
    · exact .after fun _ => hdouble _ _
    · split
      · refine .after fun ⟨fraction, rest⟩ => ?_
        dsimp only
        split
        · exact .after fun _ => hdouble _ _
        · exact hdouble _ _
      · exact .after fun _ => (ranged?_ranged _).bind fun _ hv => .some hv

/-- A number is in range, or no integer. -/
theorem number?_ranged (cs : List Char) : Gives (fun found => Ranged found.1) (number? cs) := by
  unfold number?
  split
  · exact inBase?_ranged _ _ _
  · exact inBase?_ranged _ _ _
  · exact inBase?_ranged _ _ _
  · exact decimal?_ranged cs

theorem ofDateTime_ranged (s : String) : Ranged (ofDateTime s) := by
  refine .table fun e he => ?_
  rw [List.mem_singleton.mp he]
  exact .string s

/-- A date or time holds no integers. -/
theorem dateTime?_ranged (cs : List Char) :
    Gives (fun found => Ranged found.1) (dateTime? cs) := by
  unfold dateTime?
  split
  · refine .after fun ⟨date, rest⟩ => ?_
    dsimp only
    split
    · split
      · exact .after fun _ => .after fun _ => .some (ofDateTime_ranged _)
      · exact .some (ofDateTime_ranged _)
    · exact .some (ofDateTime_ranged _)
  · exact .after fun _ => .some (ofDateTime_ranged _)

/-- A value without marks around it is in range. -/
theorem plain?_ranged (cs : List Char) : Gives (fun found => Ranged found.1) (plain? cs) := by
  unfold plain?
  split
  · exact .some (.bool true)
  · exact .some (.bool false)
  · split
    · exact dateTime?_ranged cs
    · exact number?_ranged cs

/-! ## Tables -/

namespace Node

/-- All integers below a table under construction are in the range of 64 bits. -/
inductive Ranged : Node → Prop
  | value {v : Toml} (h : v.Ranged) : Ranged (.value v)
  | table (origin : Origin) {entries : List (String × Node)} (h : ∀ e ∈ entries, Ranged e.2) :
    Ranged (.table origin entries)
  | rows {tables : List Node} (h : ∀ node ∈ tables, Ranged node) : Ranged (.rows tables)

variable {name : String} {node : Node} {entries : List (String × Node)}

theorem empty_ranged : empty.Ranged :=
  .table .header nofun

/-- An entry that is looked up is in range if all are. -/
theorem lookup_ranged (h : ∀ e ∈ entries, e.2.Ranged) : Gives Ranged (entries.lookup name) := by
  intro node hnode
  obtain ⟨before, after, rfl, -⟩ := List.lookup_eq_some_iff.mp hnode
  exact h (name, node) (List.mem_append_right before (.head after))

/-- Entries stay in range when one is put among them. -/
theorem put_ranged (hnode : node.Ranged) (h : ∀ e ∈ entries, e.2.Ranged) :
    ∀ e ∈ put name node entries, e.2.Ranged := by
  induction entries with
  | nil => exact List.forall_mem_singleton.mpr hnode
  | cons e entries ih =>
    obtain ⟨other, old⟩ := e
    rw [List.forall_mem_cons] at h
    unfold put
    split
    · exact List.forall_mem_cons.mpr ⟨hnode, h.2⟩
    · exact List.forall_mem_cons.mpr ⟨h.1, ih h.2⟩

/-- A change that keeps to the range does so wherever a path leads it. -/
theorem changeAt_ranged (way : Origin) {change : Node → Option Node}
    (hchange : ∀ node, node.Ranged → Gives Ranged (change node)) (path : List String)
    (h : node.Ranged) : Gives Ranged (changeAt way change path node) := by
  induction path generalizing node with
  | nil => exact hchange node h
  | cons name path ih =>
    cases h with
    | value h => exact .none
    | rows h => exact .none
    | @table origin entries h =>
      have hnext : ((entries.lookup name).getD (.table way [])).Ranged := by
        cases hlookup : entries.lookup name with
        | none => exact .table way nofun
        | some next => exact lookup_ranged h next hlookup
      rw [changeAt]
      have hput (changed : Node) (hchanged : changed.Ranged) :
          Gives Ranged (some (Node.table origin (put name changed entries))) :=
        .some (.table origin (put_ranged hchanged h))
      revert hnext
      cases (entries.lookup name).getD (.table way []) with
      | value v => exact fun _ => .none
      | rows tables =>
        cases tables with
        | nil => exact fun _ => .none
        | cons newest older =>
          rintro (_ | _ | ⟨hrows⟩)
          rw [List.forall_mem_cons] at hrows
          have hchanged : Gives Ranged ((changeAt way change path newest).map fun newest =>
              Node.rows (newest :: older)) :=
            (ih hrows.1).map fun newest hnewest =>
              .rows (List.forall_mem_cons.mpr ⟨hnewest, hrows.2⟩)
          exact hchanged.bind hput
      | table nextOrigin nextEntries =>
        intro hnext
        dsimp only
        split
        · exact .none
        · exact (ih hnext).bind hput

/-- A document stays in range when a value in range is inserted. -/
theorem insert_ranged (path : List String) (name : String) {v : Toml} (hv : v.Ranged)
    (h : node.Ranged) : Gives Ranged (insert path name v node) := by
  refine changeAt_ranged .dotted (fun node hnode => ?_) path h
  cases hnode with
  | @table origin entries hentries =>
    dsimp only
    split
    · exact .none
    · refine .some (.table origin fun e he => ?_)
      rcases List.mem_append.mp he with he | he
      · exact hentries e he
      · rw [List.mem_singleton.mp he]
        exact .value hv
  | _ => exact .none

/-- A document stays in range when a value in range is inserted below a header. -/
theorem insertBelow_ranged (header path : List String) (name : String) {v : Toml} (hv : v.Ranged)
    (h : node.Ranged) : Gives Ranged (insertBelow header path name v node) :=
  changeAt_ranged .passage (fun _ hnode => insert_ranged path name hv hnode) header h

/-- Opening a table inserts no integers. -/
theorem openTable_ranged (path : List String) (name : String) (h : node.Ranged) :
    Gives Ranged (openTable path name node) := by
  refine changeAt_ranged .passage (fun node hnode => ?_) path h
  cases hnode with
  | @table origin entries hentries =>
    dsimp only
    split
    · exact .some (.table origin (put_ranged (.table .header nofun) hentries))
    · next inner hlookup =>
      have hinner := lookup_ranged hentries _ hlookup
      cases hinner with
      | table _ hinner => exact .some (.table origin (put_ranged (.table .header hinner) hentries))
    · exact .none
  | _ => exact .none

/-- Opening a row of a table inserts no integers. -/
theorem openRow_ranged (path : List String) (name : String) (h : node.Ranged) :
    Gives Ranged (openRow path name node) := by
  refine changeAt_ranged .passage (fun node hnode => ?_) path h
  cases hnode with
  | @table origin entries hentries =>
    dsimp only
    split
    · refine .some (.table origin (put_ranged (.rows ?_) hentries))
      exact List.forall_mem_singleton.mpr empty_ranged
    · next older hlookup =>
      have holder := lookup_ranged hentries _ hlookup
      cases holder with
      | rows holder =>
        refine .some (.table origin (put_ranged (.rows ?_) hentries))
        exact List.forall_mem_cons.mpr ⟨empty_ranged, holder⟩
    · exact .none
  | _ => exact .none

mutual
/-- A finished document is in range if it was under construction. -/
theorem toToml_ranged : ∀ node : Node, node.Ranged → node.toToml.Ranged
  | .value _, .value h => h
  | .table _ entries, .table _ h => .table (entriesToToml_ranged entries h)
  | .rows tables, .rows h => .array (rowsToToml_ranged tables h)

/-- Finished entries are in range if they were under construction. -/
theorem entriesToToml_ranged : ∀ entries : List (String × Node), (∀ e ∈ entries, e.2.Ranged) →
    ∀ e ∈ entriesToToml entries, e.2.Ranged
  | [], _ => nofun
  | (_, node) :: rest, h => by
    rw [List.forall_mem_cons] at h
    rw [entriesToToml, List.forall_mem_cons]
    exact ⟨toToml_ranged node h.1, entriesToToml_ranged rest h.2⟩

/-- Finished rows are in range if they were under construction. -/
theorem rowsToToml_ranged : ∀ tables : List Node, (∀ node ∈ tables, node.Ranged) →
    ∀ v ∈ rowsToToml tables, v.Ranged
  | [], _ => nofun
  | node :: rest, h => by
    rw [List.forall_mem_cons] at h
    rw [rowsToToml, List.forall_mem_append, List.forall_mem_singleton]
    exact ⟨rowsToToml_ranged rest h.2, toToml_ranged node h.1⟩
end

end Node

/-! ## Documents -/

/-- What the readers of values, of the elements of an array and of the entries of a table give. -/
theorem values_ranged (fuel : Nat) :
    (∀ depth cs, Gives (fun found => Ranged found.1) (value? fuel depth cs))
    ∧ (∀ depth cs, Gives (fun found => ∀ v ∈ found.1, v.Ranged) (items? fuel depth cs))
    ∧ ∀ depth cs (node : Node), node.Ranged →
      Gives (fun found => found.1.Ranged) (entries? fuel depth node cs) := by
  induction fuel with
  | zero => exact ⟨fun _ _ => .none, fun _ _ => .none, fun _ _ _ _ => .none⟩
  | succ fuel ih =>
    obtain ⟨hvalue, hitems, hentries⟩ := ih
    refine ⟨fun depth cs => ?_, fun depth cs => ?_, fun depth cs node hnode => ?_⟩
    · unfold value?
      split
      · exact .map (p := fun _ => True) (fun _ _ => trivial) fun _ _ => .string _
      · exact .map (p := fun _ => True) (fun _ _ => trivial) fun _ _ => .string _
      · split
        · exact .none
        · exact (hitems _ _).map fun _ h => .array h
      · split
        · exact .none
        · exact .some (.table nofun)
        · exact (hentries _ _ _ Node.empty_ranged).map fun found h => found.1.toToml_ranged h
      · exact plain?_ranged cs
    · unfold items?
      split
      · exact .some nofun
      · refine (hvalue _ _).bind fun ⟨first, rest⟩ hfirst => ?_
        dsimp only
        split
        · exact .some (List.forall_mem_singleton.mpr hfirst)
        · exact (hitems _ _).bind fun _ h => .some (List.forall_mem_cons.mpr ⟨hfirst, h⟩)
        · exact .none
    · unfold entries?
      refine .after fun ⟨⟨path, name⟩, rest⟩ => .after fun rest => ?_
      refine (hvalue _ _).bind fun ⟨v, rest⟩ hv => ?_
      refine (Node.insert_ranged path name hv hnode).bind fun node hnode => ?_
      split
      · exact .some hnode
      · exact hentries _ _ _ hnode
      · exact .none

/-- All integers that stand in a line are in the range of 64 bits. -/
def Line.Ranged : Line → Prop
  | .entry _ _ v => v.Ranged
  | _ => True

/-- A header holds no integers. -/
theorem header?_ranged (cs : List Char) : Gives (fun found => found.1.Ranged) (header? cs) := by
  unfold header?
  split
  · exact .after fun _ => .after fun _ => .after fun _ => .after fun _ => .some trivial
  · exact .after fun _ => .after fun _ => .after fun _ => .some trivial

/-- The line of an entry holds integers in range only. -/
theorem entry?_ranged (cs : List Char) : Gives (fun found => found.1.Ranged) <| entry? cs :=
  .after fun _ => .after fun _ => ((values_ranged _).1 _ _).bind fun _ hv => .after fun _ => .some hv

/-- The lines of a text hold integers in range only. -/
theorem lines?_ranged (fuel : Nat) (cs : List Char) :
    Gives (fun lines => ∀ line ∈ lines, line.Ranged) (lines? fuel cs) := by
  induction fuel generalizing cs with
  | zero => exact .none
  | succ fuel ih =>
    unfold lines?
    split
    · exact .some nofun
    · exact (header?_ranged _).bind fun _ hline => (ih _).bind fun _ h =>
        .some (List.forall_mem_cons.mpr ⟨hline, h⟩)
    · split
      · exact ih _
      · exact (entry?_ranged _).bind fun _ hline => (ih _).bind fun _ h =>
          .some (List.forall_mem_cons.mpr ⟨hline, h⟩)

/-- A document that is built of lines in range is in range. -/
theorem build?_ranged (lines : List Line) (hlines : ∀ line ∈ lines, line.Ranged)
    (header : List String) (node : Node) (hnode : node.Ranged) :
    Gives Node.Ranged (build? lines header node) := by
  induction lines generalizing header node with
  | nil => exact .some hnode
  | cons line lines ih =>
    rw [List.forall_mem_cons] at hlines
    have hlater := ih hlines.2
    cases line with
    | table path name => exact (Node.openTable_ranged path name hnode).bind (hlater _)
    | row path name => exact (Node.openRow_ranged path name hnode).bind (hlater _)
    | entry path name v =>
      exact (Node.insertBelow_ranged header path name hlines.1 hnode).bind (hlater _)

/-- All integers of a document that was read have 64 bits. -/
theorem read?_ranged (s : String) : Gives Ranged (read? s) := by
  refine (lines?_ranged _ _).bind fun lines hlines => ?_
  exact (build?_ranged lines hlines [] .empty Node.empty_ranged).map fun node =>
    node.toToml_ranged

end CommandChain.Toml
