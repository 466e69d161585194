import EntityScript.Build.Enumeration
import EntityScript.Build.Model
import EntityScript.Proofs.Outcome
/-!
# Built entities

What an entity keeps while members and imports come in, and the steps that a build is made of.
-/

namespace EntityScript

namespace Entity

/-- What no member changes, members in turn do not change. -/
theorem insertMembers_keeps {α : Type} (f : Entity → α) (h : ∀ e m, f (e.insertMember m) = f e) (e : Entity)
    (ms : List Member) : f (e.insertMembers ms) = f e := by
  induction ms generalizing e with
  | nil => rfl
  | cons m ms ih => exact (ih (e.insertMember m)).trans (h e m)

@[simp] theorem insertMembers_name (e : Entity) (ms : List Member) : (e.insertMembers ms).name = e.name :=
  insertMembers_keeps (·.name) (fun _ _ => rfl) e ms

@[simp] theorem insertMembers_kind (e : Entity) (ms : List Member) : (e.insertMembers ms).kind = e.kind :=
  insertMembers_keeps (·.kind) (fun _ _ => rfl) e ms

@[simp] theorem insertMembers_imports (e : Entity) (ms : List Member) :
    (e.insertMembers ms).imports = e.imports :=
  insertMembers_keeps (·.imports) (fun _ _ => rfl) e ms

@[simp] theorem withServices_name (e : Entity) (services : List ServiceMethod) :
    (e.withServices services).name = e.name := by
  unfold withServices
  split <;> rfl

@[simp] theorem withServices_members (e : Entity) (services : List ServiceMethod) :
    (e.withServices services).members = e.members := by
  unfold withServices
  split <;> rfl

/-- An enum takes services on. -/
theorem withServices_kind {e : Entity} (h : e.isEnumeration = true) (services : List ServiceMethod) :
    (e.withServices services).kind = .enumeration services := by
  unfold isEnumeration at h
  unfold withServices
  split
  · simp_all
  · rfl

theorem mem_insertMembers {e : Entity} {ms : List Member} {x : Member} (h : x ∈ (e.insertMembers ms).members) :
    x ∈ e.members ∨ x ∈ ms := by
  induction ms generalizing e with
  | nil => exact .inl h
  | cons m ms ih =>
    rcases ih (e := e.insertMember m) h with h | h
    · rcases Member.mem_of_mem_insert h with rfl | h
      · exact .inr (by simp)
      · exact .inl h
    · exact .inr (by simp [h])

/-- Of the members that come in under a name the last one stays. -/
theorem member?_insertMembers (e : Entity) (ms : List Member) (name : String) :
    (e.insertMembers ms).member? name = (ms.reverse.find? (·.name == name)).or (e.member? name) := by
  induction ms generalizing e with
  | nil => rfl
  | cons m ms ih =>
    refine (ih (e.insertMember m)).trans ?_
    rw [List.reverse_cons, List.find?_append, Option.or_assoc, List.find?_singleton]
    congr 1
    by_cases hname : name = m.name
    · rw [hname, member?_insertMember_self, beq_self_eq_true, if_pos rfl, Option.some_or]
    · rw [member?_insertMember_of_ne e hname, beq_false_of_ne (Ne.symm hname)]
      rfl

@[simp] theorem addImport_name (e : Entity) (i : EntityImport) : (e.addImport i).name = e.name := by
  unfold addImport
  split <;> rfl

@[simp] theorem addImport_kind (e : Entity) (i : EntityImport) : (e.addImport i).kind = e.kind := by
  unfold addImport
  split <;> rfl

@[simp] theorem addImport_members (e : Entity) (i : EntityImport) : (e.addImport i).members = e.members := by
  unfold addImport
  split <;> rfl

/-- What no import changes, imports in turn do not change. -/
theorem addImports_keeps {α : Type} (f : Entity → α) (h : ∀ e i, f (e.addImport i) = f e) (e : Entity)
    (is : List EntityImport) : f (e.addImports is) = f e := by
  induction is generalizing e with
  | nil => rfl
  | cons i is ih => exact (ih (e.addImport i)).trans (h e i)

@[simp] theorem addImports_name (e : Entity) (is : List EntityImport) : (e.addImports is).name = e.name :=
  addImports_keeps (·.name) addImport_name e is

@[simp] theorem addImports_kind (e : Entity) (is : List EntityImport) : (e.addImports is).kind = e.kind :=
  addImports_keeps (·.kind) addImport_kind e is

@[simp] theorem addImports_members (e : Entity) (is : List EntityImport) :
    (e.addImports is).members = e.members :=
  addImports_keeps (·.members) addImport_members e is

theorem imports_addImport (e : Entity) (i : EntityImport) :
    (e.addImport i).imports = e.imports ∨ (e.addImport i).imports = e.imports ++ [i] := by
  unfold addImport
  split
  · exact .inl rfl
  · exact .inr rfl

theorem mem_addImport {e : Entity} {i j : EntityImport} (h : i ∈ (e.addImport j).imports) : i ∈ e.imports ∨ i = j := by
  rcases e.imports_addImport j with heq | heq <;> rw [heq] at h
  · exact .inl h
  · simpa using h

theorem mem_addImports {e : Entity} {is : List EntityImport} {i : EntityImport} (h : i ∈ (e.addImports is).imports) :
    i ∈ e.imports ∨ i ∈ is := by
  induction is generalizing e with
  | nil => exact .inl h
  | cons j is ih =>
    rcases ih (e := e.addImport j) h with h | h
    · rcases mem_addImport h with h | rfl
      · exact .inl h
      · exact .inr (by simp)
    · exact .inr (by simp [h])

theorem imports_subset_addImport (e : Entity) (i : EntityImport) : e.imports ⊆ (e.addImport i).imports := by
  rcases e.imports_addImport i with heq | heq <;> simp [heq]

theorem imports_subset_addImports (e : Entity) (is : List EntityImport) : e.imports ⊆ (e.addImports is).imports := by
  induction is generalizing e with
  | nil => exact fun _ h => h
  | cons i is ih => exact List.Subset.trans (e.imports_subset_addImport i) (ih (e.addImport i))

theorem symbol_mem_addImport (e : Entity) (i : EntityImport) : i.symbol ∈ (e.addImport i).importNames := by
  unfold addImport importNames
  split
  · rename_i h
    simpa using h
  · simp

theorem symbol_mem_addImports (e : Entity) {is : List EntityImport} {i : EntityImport} (h : i ∈ is) :
    i.symbol ∈ (e.addImports is).importNames := by
  induction is generalizing e with
  | nil => cases h
  | cons j is ih =>
    rcases List.mem_cons.1 h with rfl | h
    · exact List.map_subset _ (imports_subset_addImports _ is) (e.symbol_mem_addImport i)
    · exact ih (e.addImport j) h

end Entity

namespace ModelSource

@[simp] theorem withUtility_name (o : Options) (e : Entity) : (withUtility o e).name = e.name := by
  unfold withUtility
  split <;> simp

@[simp] theorem withUtility_kind (o : Options) (e : Entity) : (withUtility o e).kind = e.kind := by
  unfold withUtility
  split <;> simp

@[simp] theorem withUtility_members (o : Options) (e : Entity) : (withUtility o e).members = e.members := by
  unfold withUtility
  split <;> simp

theorem imports_subset_withUtility (o : Options) (e : Entity) : e.imports ⊆ (withUtility o e).imports := by
  unfold withUtility
  split
  · exact e.imports_subset_addImport _
  · exact fun _ h => h

/-- The entity of a model before its members are known. -/
def start (m : ModelSource) (o : Options) (relations : List (RelationSource × Option (PivotSource × PivotUse))) :
    Entity :=
  (Entity.bare m.space m.name (.model (m.extended? o))).addImports (m.baseImports o relations)

theorem mem_of_mem_members {m : ModelSource} {o : Options}
    {relations : List (RelationSource × Option (PivotSource × PivotUse))} {ms : List Member} {x : Member}
    (h : x ∈ (withUtility o ((m.start o relations).insertMembers ms)).members) : x ∈ ms := by
  rw [withUtility_members] at h
  rcases Entity.mem_insertMembers h with h | h
  · simp [start, Entity.bare] at h
  · exact h

/-- Where the members of a model come from, in seven cases. -/
theorem mem_contributions {m : ModelSource} {o : Options} {known : List String} {columns : List Member}
    {relations : List (RelationSource × Option (PivotSource × PivotUse))} {x : Member}
    (h : x ∈ m.contributions o known columns relations) :
    (∃ c ∈ m.constants, x = Constant.member c.1 c.2) ∨ (∃ d ∈ m.members, x = declaredMember o known d) ∨
    x ∈ columns ∨ (∃ r ∈ m.relations, x = relationMember r) ∨
    (∃ r pivot used, (r, some (pivot, used)) ∈ relations ∧ x = pivotMember pivot used) ∨
    (∃ p ∈ m.documented, x = documentedMember known p) ∨ x = m.qualifiedNameMember := by
  simp only [contributions, List.mem_append, List.mem_map, List.mem_filterMap, List.mem_singleton] at h
  rcases h with (((((⟨c, hc, rfl⟩ | ⟨d, hd, rfl⟩) | hx) | ⟨r, hr, rfl⟩) | ⟨⟨pivot, used⟩, ⟨⟨r, _⟩, hr, rfl⟩, rfl⟩) |
    ⟨p, hp, rfl⟩) | rfl
  · exact .inl ⟨c, hc, rfl⟩
  · exact .inr (.inl ⟨d, hd, rfl⟩)
  · exact .inr (.inr (.inl hx))
  · exact .inr (.inr (.inr (.inl ⟨r, hr, rfl⟩)))
  · exact .inr (.inr (.inr (.inr (.inl ⟨r, pivot, used, hr, rfl⟩))))
  · exact .inr (.inr (.inr (.inr (.inr (.inl ⟨p, hp, rfl⟩)))))
  · exact .inr (.inr (.inr (.inr (.inr (.inr rfl)))))

/-- The columns of the table of a model. -/
def tableColumns (m : ModelSource) (schema : Option Schema) : List ColumnSchema :=
  (m.table.bind fun table => schema.bind (·.table? table)).elim [] (·.columns)

/-- The members of the columns of a table, column by column. -/
theorem columnMembers_forall₂ {m : ModelSource} {schema : Option Schema} {columns : List Member}
    (h : m.columnMembers schema = .ok columns) :
    List.Forall₂ (fun c x => ∃ table, m.table = some table ∧ columnMember table c = .ok x) (m.tableColumns schema)
      columns := by
  unfold columnMembers at h
  unfold tableColumns
  split at h
  · rename_i hm
    cases h
    simp [hm]
  · rename_i table hm
    split at h
    · rename_i t ht
      simp only [hm, Option.bind_some, ht, Option.elim_some]
      exact (mapM_eq_ok.1 h).imp fun c x hx => ⟨table, rfl, hx⟩
    · cases h

theorem columnMember_of_mem {m : ModelSource} {schema : Option Schema} {columns : List Member}
    (h : m.columnMembers schema = .ok columns) {x : Member} (hx : x ∈ columns) :
    ∃ table c, columnMember table c = .ok x := by
  obtain ⟨c, -, table, -, hc⟩ := exists_of_mem_forall₂ (columnMembers_forall₂ h) hx
  exact ⟨table, c, hc⟩

/-- A model can be built if its pivots are registered and its columns have types. -/
theorem build_eq_ok {m : ModelSource} {o : Options} {schema : Option Schema} {pivots : PivotRegistry} {e : Entity} :
    (m.build o schema pivots).outcome = .ok e ↔ ∃ relations columns, m.pivotUses pivots = .ok relations ∧
      m.columnMembers schema = .ok columns ∧
      e = withUtility o ((m.start o relations).insertMembers
        (m.contributions o (m.knownNames (m.start o relations)) columns relations)) := by
  simp only [build, Logged.outcome_bind, Logged.outcome_tell, Logged.outcome_tellAll, Logged.outcome_ofExcept,
    Logged.outcome_pure, bind_eq_ok, Except.ok.injEq]
  simp [start, eq_comm]

/-- The member of a built model under a name is the last contribution of that name. -/
theorem exists_contributions_of_build {m : ModelSource} {o : Options} {schema : Option Schema} {pivots : PivotRegistry}
    {e : Entity} (h : (m.build o schema pivots).outcome = .ok e) :
    ∃ relations columns, m.pivotUses pivots = .ok relations ∧ m.columnMembers schema = .ok columns ∧
      ∀ name, e.member? name =
        (m.contributions o (m.knownNames (m.start o relations)) columns relations).reverse.find? (·.name == name) := by
  obtain ⟨relations, columns, hrelations, hcolumns, rfl⟩ := build_eq_ok.1 h
  refine ⟨relations, columns, hrelations, hcolumns, fun name => ?_⟩
  have hstart : (m.start o relations).member? name = none := by simp [start, Entity.member?, Entity.bare]
  rw [Entity.member?, withUtility_members, ← Entity.member?, Entity.member?_insertMembers, hstart, Option.or_none]

theorem build_name {m : ModelSource} {o : Options} {schema : Option Schema} {pivots : PivotRegistry} {e : Entity}
    (h : (m.build o schema pivots).outcome = .ok e) : e.name = m.name := by
  obtain ⟨relations, columns, -, -, rfl⟩ := build_eq_ok.1 h
  simp [start, Entity.bare]

theorem build_kind {m : ModelSource} {o : Options} {schema : Option Schema} {pivots : PivotRegistry} {e : Entity}
    (h : (m.build o schema pivots).outcome = .ok e) : e.kind = .model (m.extended? o) := by
  obtain ⟨relations, columns, -, -, rfl⟩ := build_eq_ok.1 h
  simp [start, Entity.bare]

end ModelSource

namespace EnumSource

/-- An enum can be built if its services can be evaluated. -/
theorem build_eq_ok {s : EnumSource} {o : Options} {e : Entity} :
    (s.build o).outcome = .ok e ↔ ∃ services, s.services = .ok services ∧ e = s.entity o services := by
  simp only [build, Logged.outcome_bind, Logged.outcome_tell, Logged.outcome_ofExcept, Logged.outcome_pure,
    bind_eq_ok, Except.ok.injEq]
  simp [eq_comm]

theorem build_name {s : EnumSource} {o : Options} {e : Entity} (h : (s.build o).outcome = .ok e) :
    e.name = s.name := by
  obtain ⟨services, -, rfl⟩ := build_eq_ok.1 h
  simp [entity, Entity.bare]

theorem entity_kind (s : EnumSource) (o : Options) (services : List ServiceMethod) :
    (s.entity o services).kind = .enumeration services :=
  Entity.withServices_kind (by simp [Entity.bare, Entity.isEnumeration]) services

theorem build_isEnumeration {s : EnumSource} {o : Options} {e : Entity} (h : (s.build o).outcome = .ok e) :
    e.isEnumeration = true := by
  obtain ⟨services, -, rfl⟩ := build_eq_ok.1 h
  rw [Entity.isEnumeration, entity_kind]

end EnumSource

end EntityScript
