import EntityScript.Proofs.Registration
/-!
# Fields of pivot interfaces

The interface of a registered table shows the columns that were listed, or what the table shows by itself while
none was, whatever the order of the calls.
-/

namespace EntityScript

/-! ## What interfaces show -/

section Shown

variable {s : Schema} {calls : List PivotCall} {table : String} {t : TableSchema}

theorem included_interfaceAfter (ht : s.table? table = some t) :
    (interfaceAfter (some s) calls table).included =
      if (listedColumns calls table).isEmpty then t.shownNames else listedColumns calls table := by
  simp [interfaceAfter, ht]

/-- What is shown was selected by a call. -/
theorem selected_of_included (ht : s.table? table = some t) (htable : table ∈ calls.map (·.pivot.table)) {n : String}
    (hn : n ∈ (interfaceAfter (some s) calls table).included) :
    ∃ c ∈ calls, c.pivot.table = table ∧ n ∈ c.pivot.selectedNames t := by
  rw [included_interfaceAfter ht] at hn
  by_cases hl : listedColumns calls table = []
  · obtain ⟨c, hc, rfl⟩ := List.mem_map.1 htable
    refine ⟨c, hc, rfl, ?_⟩
    have hnone : c.pivot.columns = [] := by
      rw [List.eq_nil_iff_forall_not_mem]
      intro m hm
      exact List.not_mem_nil (hl ▸ mem_listedColumns.2 ⟨c, hc, rfl, hm⟩)
    simpa [PivotSource.selectedNames, hnone, hl] using hn
  · simp only [List.isEmpty_iff, hl, if_false] at hn
    obtain ⟨c, hc, htab, hm⟩ := mem_listedColumns.1 hn
    refine ⟨c, hc, htab, ?_⟩
    have hsome : c.pivot.columns ≠ [] := List.ne_nil_of_mem hm
    simpa [PivotSource.selectedNames, hsome] using hm

/-- What a call that succeeds selects are columns of its table that have types. -/
theorem column_of_selected {c : PivotCall} (hc : PivotRegistry.accepts (some s) c = true)
    (ht : s.table? c.pivot.table = some t) {n : String} (hn : n ∈ c.pivot.selectedNames t) :
    ∃ col ∈ t.columns, col.name = n ∧ (Column.type? col.type).isSome := by
  obtain ⟨sel, hsel⟩ := PivotRegistry.accepts_iff (r := { schema := some s }).1 hc
  obtain ⟨t', ht', hs⟩ := PivotRegistry.select_spec hsel
  obtain rfl : t' = t := Option.some.inj (ht'.symm.trans ht)
  rw [← hs.names] at hn
  obtain ⟨col, hcol, rfl⟩ := List.mem_map.1 hn
  exact ⟨col, hs.mem col hcol, rfl, hs.typed col hcol⟩

theorem table?_of_accepts {c : PivotCall} (hc : PivotRegistry.accepts (some s) c = true) :
    ∃ t, s.table? c.pivot.table = some t := by
  obtain ⟨sel, hsel⟩ := PivotRegistry.accepts_iff (r := { schema := some s }).1 hc
  obtain ⟨t, ht, -⟩ := PivotRegistry.select_spec hsel
  exact ⟨t, ht⟩

theorem column_of_included (hcalls : AllAccepted (some s) calls) (ht : s.table? table = some t)
    (htable : table ∈ calls.map (·.pivot.table)) {n : String}
    (hn : n ∈ (interfaceAfter (some s) calls table).included) :
    ∃ col ∈ t.columns, col.name = n ∧ (Column.type? col.type).isSome := by
  obtain ⟨c, hc, rfl, hm⟩ := selected_of_included ht htable hn
  exact column_of_selected (hcalls c hc) ht hm

namespace PivotInterface

/-- The names of the fields. -/
def fieldNames (i : PivotInterface) : List String :=
  i.fields.map (·.1)

theorem fieldNames_eq (i : PivotInterface) :
    i.fieldNames = (i.columns.filter fun c => i.included.contains c.name).map (·.name) := by
  simp [fieldNames, fields, Function.comp_def]

/-- Fields stand in the order of the table. -/
theorem fieldNames_sublist (i : PivotInterface) : i.fieldNames.Sublist (i.columns.map (·.name)) := by
  rw [fieldNames_eq]
  exact List.filter_sublist.map _

theorem mem_fieldNames {i : PivotInterface} {n : String} :
    n ∈ i.fieldNames ↔ n ∈ i.columns.map (·.name) ∧ n ∈ i.included := by
  simp only [fieldNames_eq, List.mem_map, List.mem_filter, List.contains_iff_mem]
  constructor
  · rintro ⟨c, ⟨hc, hi⟩, rfl⟩
    exact ⟨⟨c, hc, rfl⟩, hi⟩
  · rintro ⟨⟨c, hc, rfl⟩, hi⟩
    exact ⟨c, ⟨hc, hi⟩, rfl⟩

end PivotInterface

/-- The fields of a registered table are just the columns that it includes. -/
theorem mem_fieldNames_interfaceAfter (hcalls : AllAccepted (some s) calls) (ht : s.table? table = some t)
    (htable : table ∈ calls.map (·.pivot.table)) {n : String} :
    n ∈ (interfaceAfter (some s) calls table).fieldNames ↔ n ∈ (interfaceAfter (some s) calls table).included := by
  rw [PivotInterface.mem_fieldNames, and_iff_right_iff_imp]
  intro hn
  obtain ⟨col, hcol, rfl, -⟩ := column_of_included hcalls ht htable hn
  simpa [interfaceAfter, ht] using ⟨col, hcol, rfl⟩

/-- Each field has the type of its column, which is known. -/
theorem type_of_mem_fields (hn : (t.columns.map (·.name)).Nodup) (hcalls : AllAccepted (some s) calls)
    (ht : s.table? table = some t) (htable : table ∈ calls.map (·.pivot.table)) {f : String × String}
    (hf : f ∈ (interfaceAfter (some s) calls table).fields) :
    ∃ col, t.column? f.1 = some col ∧ Column.type? col.type = some f.2 := by
  simp only [PivotInterface.fields, List.mem_map, List.mem_filter, List.contains_iff_mem] at hf
  obtain ⟨col, ⟨hcol, hi⟩, rfl⟩ := hf
  have hcol : col ∈ t.columns := by simpa [interfaceAfter, ht] using hcol
  obtain ⟨col', hcol', hname, htype⟩ := column_of_included hcalls ht htable hi
  obtain rfl := List.inj_on_of_nodup_map hn hcol' hcol hname
  refine ⟨col', TableSchema.column?_of_mem hn hcol', ?_⟩
  obtain ⟨type, htype⟩ := Option.isSome_iff_exists.1 htype
  simp [htype]

/-- A registered table shows the columns that were listed, or if none were, those that are no keys or time
stamps, in its own order and with their types. -/
theorem shows_interfaceAfter {file src : String} (hs : Schema.parse file src = .ok s)
    (hcalls : AllAccepted (some s) calls) (ht : s.table? table = some t) (htable : table ∈ calls.map (·.pivot.table)) :
    (interfaceAfter (some s) calls table).fieldNames.Sublist (t.columns.map (·.name)) ∧
    (∀ n, n ∈ (interfaceAfter (some s) calls table).fieldNames ↔ n ∈ listedColumns calls table ∨
      (∀ m, m ∉ listedColumns calls table) ∧ n ∈ t.columns.map (·.name) ∧ ¬ IsKeyOrStamp n) ∧
    ∀ f ∈ (interfaceAfter (some s) calls table).fields,
      ∃ col, t.column? f.1 = some col ∧ Column.type? col.type = some f.2 := by
  refine ⟨?_, fun n => ?_, fun f hf => ?_⟩
  · simpa [interfaceAfter, ht] using (interfaceAfter (some s) calls table).fieldNames_sublist
  · rw [mem_fieldNames_interfaceAfter hcalls ht htable, included_interfaceAfter ht, ← List.eq_nil_iff_forall_not_mem]
    by_cases hl : listedColumns calls table = []
    · simp [hl, TableSchema.mem_shownNames]
    · simp [hl]
  · exact type_of_mem_fields (Schema.nodup_columns hs ht) hcalls ht htable hf

end Shown

/-! ## Calls in any order -/

section Reordered

variable {schema : Option Schema} {calls calls' : List PivotCall} {table : String}

/-- Interfaces that show the same columns of one table. -/
structure PivotInterface.Alike (i i' : PivotInterface) : Prop where
  table : i.table = i'.table
  columns : i.columns = i'.columns
  included : ∀ n, n ∈ i.included ↔ n ∈ i'.included

theorem PivotInterface.Alike.contains_eq {i i' : PivotInterface} (h : i.Alike i') (n : String) :
    i.included.contains n = i'.included.contains n := by
  rw [Bool.eq_iff_iff, List.contains_iff_mem, List.contains_iff_mem, h.included]

theorem PivotInterface.Alike.fields_eq {i i' : PivotInterface} (h : i.Alike i') : i.fields = i'.fields := by
  simp only [fields, h.columns, h.contains_eq]

theorem mem_listedColumns_perm (h : calls'.Perm calls) (n : String) :
    n ∈ listedColumns calls' table ↔ n ∈ listedColumns calls table := by
  simp only [mem_listedColumns, h.mem_iff]

/-- The order of calls does not change what an interface shows. -/
theorem interfaceAfter_perm (h : calls'.Perm calls) :
    (interfaceAfter schema calls' table).Alike (interfaceAfter schema calls table) where
  table := rfl
  columns := rfl
  included n := by
    have hempty : (listedColumns calls' table).isEmpty = (listedColumns calls table).isEmpty := by
      rw [Bool.eq_iff_iff, List.isEmpty_iff, List.isEmpty_iff]
      simp only [List.eq_nil_iff_forall_not_mem, mem_listedColumns_perm h]
    simp only [interfaceAfter, hempty]
    split
    · exact Iff.rfl
    · exact mem_listedColumns_perm h n

end Reordered

namespace PivotRegistry

/-- A call ends as it would alone, whatever was called before, and changes nothing if it fails. -/
theorem attempt_attemptAll (schema : Option Schema) (before : List PivotCall) (c : PivotCall) :
    ((attemptAll { schema } before).attempt c).2 = (({ schema } : PivotRegistry).attempt c).2 ∧
    ∀ e, (({ schema } : PivotRegistry).attempt c).2 = .error e →
      ((attemptAll { schema } before).attempt c).1 = attemptAll { schema } before := by
  have hschema : (attemptAll { schema } before).schema = schema := by rw [attemptAll_eq]; rfl
  refine ⟨by rw [attempt_outcome, hschema], fun e he => attempt_of_not_accepts ?_⟩
  rw [hschema, ← Bool.not_eq_true]
  intro hc
  cases he.symm.trans (accepts_iff_attempt (r := { schema }).1 hc)

/-- The order of calls does not change the fields of a table, whether they fail or not. -/
theorem fields_attemptAll_perm (schema : Option Schema) {calls calls' : List PivotCall} (h : calls'.Perm calls)
    (table : String) : ((attemptAll { schema } calls').get? table).map (·.fields) =
      ((attemptAll { schema } calls).get? table).map (·.fields) := by
  have hperm := h.filter (accepts schema)
  rw [attemptAll_eq, attemptAll_eq, get?_registryAfter, get?_registryAfter]
  simp only [(hperm.map (·.pivot.table)).mem_iff]
  split
  · exact congrArg some (interfaceAfter_perm hperm).fields_eq
  · rfl

/-- What calls leave in a registry, in any order and whether they fail or not. A call ends as it would alone,
and one that fails changes nothing. The interface of a table that a call succeeded with shows, in the order of
the table, the columns that calls listed, and if none did, those that are no keys or time stamps; each has a
type that is known. So the fields do not depend on the order. -/
theorem attemptAll_confluent {file src : String} {s : Schema} (hs : Schema.parse file src = .ok s)
    (calls : List PivotCall) :
    let start : PivotRegistry := { schema := some s }
    let listed (table column : String) : Prop :=
      ∃ c ∈ calls, (start.attempt c).2 = .ok () ∧ c.pivot.table = table ∧ column ∈ c.pivot.columns
    (∀ before c, ((start.attemptAll before).attempt c).2 = (start.attempt c).2 ∧
      ∀ e, (start.attempt c).2 = .error e → ((start.attemptAll before).attempt c).1 = start.attemptAll before) ∧
    (∀ table, (∃ c ∈ calls, (start.attempt c).2 = .ok () ∧ c.pivot.table = table) →
      ∃ t i, s.table? table = some t ∧ (start.attemptAll calls).get? table = some i ∧
        i.fieldNames.Sublist (t.columns.map (·.name)) ∧
        (∀ n, n ∈ i.fieldNames ↔
          listed table n ∨ (∀ m, ¬ listed table m) ∧ n ∈ t.columns.map (·.name) ∧ ¬ IsKeyOrStamp n) ∧
        ∀ f ∈ i.fields, ∃ col, t.column? f.1 = some col ∧ Column.type? col.type = some f.2) ∧
    ∀ calls', calls'.Perm calls → ∀ table,
      ((start.attemptAll calls').get? table).map (·.fields) = ((start.attemptAll calls).get? table).map (·.fields) := by
  intro start listed
  refine ⟨attempt_attemptAll (some s), fun table => ?_, fun calls' h => fields_attemptAll_perm (some s) h⟩
  rintro ⟨c, hc, hok, rfl⟩
  have hmem : ∀ c, c ∈ calls.filter (accepts (some s)) ↔ c ∈ calls ∧ (start.attempt c).2 = .ok () := by
    intro c
    exact List.mem_filter.trans (and_congr_right fun _ => accepts_iff_attempt (r := start))
  have hlisted : ∀ n, n ∈ listedColumns (calls.filter (accepts (some s))) c.pivot.table ↔ listed c.pivot.table n := by
    intro n
    simp only [mem_listedColumns, hmem, and_assoc, listed]
  have hdone : AllAccepted (some s) (calls.filter (accepts (some s))) := fun c hc => (List.mem_filter.1 hc).2
  have htable : c.pivot.table ∈ (calls.filter (accepts (some s))).map (·.pivot.table) :=
    List.mem_map_of_mem ((hmem c).2 ⟨hc, hok⟩)
  obtain ⟨t, ht⟩ := table?_of_accepts (accepts_iff_attempt (r := start).2 hok)
  obtain ⟨hsub, hfields, htypes⟩ := shows_interfaceAfter hs hdone ht htable
  refine ⟨t, _, ht, by rw [attemptAll_eq, get?_registryAfter, if_pos htable], hsub, ?_, htypes⟩
  simpa only [hlisted] using hfields

def teamUserText : String :=
  "[[tables.team_user.columns]]\nname=\"user_id\"\ntype=\"bigint\"\n" ++
    "[[tables.team_user.columns]]\nname=\"priority\"\ntype=\"integer\"\n" ++
    "[[tables.team_user.columns]]\nname=\"role\"\ntype=\"string\"\n"

/-- A join table with a key and two more columns. -/
def teamUser : Schema :=
  { tables := [("team_user", { columns := [⟨"user_id", "bigint", false⟩, ⟨"priority", "integer", false⟩,
      ⟨"role", "string", false⟩] })] }

/-- Calls of which the first lists nothing, the second an unknown column, the third a column that there is and
the last an unknown table. -/
def teamUserCalls : List PivotCall :=
  [⟨"members", ⟨"team_user", "pivot", []⟩⟩, ⟨"teams", ⟨"team_user", "pivot", ["level"]⟩⟩,
    ⟨"teams", ⟨"team_user", "pivot", ["priority"]⟩⟩, ⟨"tags", ⟨"tag_user", "pivot", []⟩⟩]

/-- The column that one call lists is the only field, in whatever order the calls come. -/
theorem teamUser_confluent :
    Schema.parse "schema.toml" teamUserText = .ok teamUser ∧
    (∃ c ∈ teamUserCalls, (({ schema := some teamUser } : PivotRegistry).attempt c).2 = .ok () ∧
      c.pivot.table = "team_user") ∧
    (∃ t i, teamUser.table? "team_user" = some t ∧
      (({ schema := some teamUser } : PivotRegistry).attemptAll teamUserCalls).get? "team_user" = some i ∧
      "priority" ∈ i.fieldNames ∧ "role" ∉ i.fieldNames) ∧
    ((({ schema := some teamUser } : PivotRegistry).attemptAll teamUserCalls.reverse).get? "team_user").map
      (·.fields) = some [("priority", "number")] := by
  have hs : Schema.parse "schema.toml" teamUserText = .ok teamUser :=
    toOption_eq_some.1 (by decide +kernel)
  obtain ⟨-, hfields, horder⟩ := attemptAll_confluent hs teamUserCalls
  have hsome : ∃ c ∈ teamUserCalls, (({ schema := some teamUser } : PivotRegistry).attempt c).2 = .ok () ∧
      c.pivot.table = "team_user" :=
    ⟨⟨"members", ⟨"team_user", "pivot", []⟩⟩, by decide, by rfl, rfl⟩
  have hlisted : ∃ c ∈ teamUserCalls, (({ schema := some teamUser } : PivotRegistry).attempt c).2 = .ok () ∧
      c.pivot.table = "team_user" ∧ "priority" ∈ c.pivot.columns :=
    ⟨⟨"teams", ⟨"team_user", "pivot", ["priority"]⟩⟩, by decide, by rfl, rfl, by decide⟩
  obtain ⟨t, i, ht, hi, -, hmem, -⟩ := hfields "team_user" hsome
  refine ⟨hs, hsome, ⟨t, i, ht, hi, (hmem _).2 (.inl hlisted), fun hrole => ?_⟩, ?_⟩
  · rcases (hmem _).1 hrole with ⟨c, hc, -, -, hrole⟩ | ⟨hnone, -⟩
    · revert c
      decide
    · exact hnone _ hlisted
  · rw [horder _ (List.reverse_perm _)]
    rfl

end PivotRegistry

end EntityScript
