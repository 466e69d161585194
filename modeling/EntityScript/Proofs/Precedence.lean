import EntityScript.Proofs.Accessors
/-!
# Precedence of members

Eight kinds of things contribute members to a model, under names that are made in different ways. All go into one
entity, in a fixed order, and what comes last under a name stays.
-/

namespace EntityScript

open Text

/-! ## What contributes -/

/-- What contributes a member to a model. -/
inductive Contribution
  | constant (name : String) (value : Toml.Value)
  | declared (d : MemberSource)
  | column (c : ColumnSchema)
  | relation (r : RelationSource)
  /-- The pivot of a relation. -/
  | pivot (r : RelationSource) (p : PivotSource)
  | documented (p : Doc.Property)
  | qualifiedName

/-- The name under which a member is contributed. -/
def Contribution.name : Contribution → String
  | constant name _ => name
  | declared d => ModelSource.declaredName d
  | column c => c.name
  | relation r => Name.snake r.name
  | pivot _ p => p.accessor
  | documented p => p.name
  | qualifiedName => "qualifiedClassName"

namespace ModelSource

/-- The member that something contributes to a model, in which some names are known. -/
def contributed? (m : ModelSource) (o : Options) (pivots : PivotRegistry) (known : List String) :
    Contribution → Option Member
  | .constant name value => some (Constant.member name value)
  | .declared d => some (declaredMember o known d)
  | .column c => m.table.bind fun table => (columnMember table c).toOption
  | .relation r => some (relationMember r)
  | .pivot r p => (pivots.reference r.name p).toOption.map (pivotMember p)
  | .documented p => some (documentedMember known p)
  | .qualifiedName => some m.qualifiedNameMember

/-- All that contributes to a model. Of the documented properties those that are only written are left out, and the
overriding ones follow the others. -/
def sources (m : ModelSource) (schema : Option Schema) : List Contribution :=
  m.constants.map (fun (name, value) => .constant name value) ++ m.members.map .declared ++
    (m.tableColumns schema).map .column ++ m.relations.map .relation ++
    m.relations.filterMap (fun r => r.pivot.map (.pivot r)) ++
    ((Doc.properties m.doc).filter fun p => p.tag = .readWrite ∨ p.tag = .read).map .documented ++
    ((Doc.properties m.doc).filter (·.tag = .override)).map .documented ++ [.qualifiedName]

/-- What the name of an accessor is normalised to: `getFullNameAttribute` is `fullName`, and any other name is put into
camel case. -/
inductive AccessorName : String → String → Prop
  | getter {inner : String} (h : inner ≠ "") : AccessorName ("get" ++ inner ++ "Attribute") (Name.camel inner)
  | plain {name : String} (h : ∀ inner, inner ≠ "" → name ≠ "get" ++ inner ++ "Attribute") :
      AccessorName name (Name.camel name)

theorem accessorName_property (name : String) : AccessorName name (accessorProperty name) := by
  have hinner (rest : List Char) : ((after? "get".toList name.toList).bind fun rest =>
      (after? "Attribute".toList.reverse rest.reverse).map List.reverse) = some rest ↔
        name.toList = "get".toList ++ rest ++ "Attribute".toList := by
    simp only [Option.bind_eq_some_iff, Option.map_eq_some_iff, after?_eq_some]
    constructor
    · rintro ⟨front, hfront, back, hback, rfl⟩
      rw [hfront, ← List.reverse_reverse front, hback, List.reverse_append, List.reverse_reverse, List.append_assoc]
    · intro h
      exact ⟨rest ++ "Attribute".toList, by rw [h, List.append_assoc], rest.reverse, List.reverse_append,
        List.reverse_reverse _⟩
  unfold accessorProperty
  dsimp only
  split
  · rename_i c cs h
    have hname : name = "get" ++ String.ofList (c :: cs) ++ "Attribute" := by
      rw [← String.toList_inj, String.toList_append, String.toList_append, (hinner _).1 h]
      simp
    rw [hname]
    exact .getter (by simp [← String.toList_inj])
  · rename_i hnone
    refine .plain ?_
    rintro inner hne rfl
    have h := (hinner inner.toList).2 (by simp only [String.toList_append])
    cases hchars : inner.toList with
    | nil => exact hne (by rw [← String.toList_inj, hchars]; rfl)
    | cons c cs => exact hnone c cs (by rw [h, hchars])

variable {m : ModelSource} {o : Options} {schema : Option Schema} {pivots : PivotRegistry} {known : List String}

theorem contributed?_name {c : Contribution} {x : Member} (h : m.contributed? o pivots known c = some x) :
    x.name = c.name := by
  cases c with
  | constant name value => cases h; rfl
  | declared d => cases h; exact declaredMember_name o known d
  | column c =>
    obtain ⟨table, -, hx⟩ := Option.bind_eq_some_iff.1 h
    exact (columnMember_spec (toOption_eq_some.1 hx)).1
  | relation r => cases h; rfl
  | pivot r p =>
    obtain ⟨used, -, rfl⟩ := Option.map_eq_some_iff.1 h
    rfl
  | documented p => cases h; rfl
  | qualifiedName => cases h; rfl

theorem declared_name (d : MemberSource) :
    if d.accessor = true ∧ d.literal = none then AccessorName d.name (Contribution.declared d).name
    else (Contribution.declared d).name = d.name := by
  have hname : (Contribution.declared d).name =
      if d.accessor = true ∧ d.literal = none then accessorProperty d.name else d.name := by
    simp [Contribution.name, declaredName, and_comm]
  rw [hname]
  split
  · exact accessorName_property d.name
  · rfl

theorem documented_eq (m : ModelSource) : m.documented =
    ((Doc.properties m.doc).filter fun p => p.tag = .readWrite ∨ p.tag = .read) ++
      (Doc.properties m.doc).filter (·.tag = .override) := by
  unfold documented
  simp only [List.filter_filter]
  congr 1 <;> refine List.filter_congr fun p _ => ?_ <;> cases p.tag <;> rfl

theorem contributed?_columns {columns : List Member} (h : m.columnMembers schema = .ok columns) :
    ((m.tableColumns schema).map .column).map (m.contributed? o pivots known) = columns.map some := by
  rw [List.map_map, ← List.forall₂_eq_eq_eq, List.forall₂_map_left_iff, List.forall₂_map_right_iff]
  refine (columnMembers_forall₂ h).imp fun c x ⟨table, hm, hx⟩ => ?_
  simp [contributed?, hm, hx, Except.toOption]

theorem contributed?_pivots {relations : List (RelationSource × Option (PivotSource × PivotUse))}
    (h : m.pivotUses pivots = .ok relations) :
    (m.relations.filterMap fun r => r.pivot.map (.pivot r)).map (m.contributed? o pivots known) =
      ((relations.filterMap (·.2)).map fun (pivot, used) => pivotMember pivot used).map some := by
  rw [pivotMembers_eq h, List.map_filterMap, List.map_filterMap]
  refine List.filterMap_congr fun r hr => ?_
  cases hp : r.pivot with
  | none => simp [pivotMember?, hp]
  | some p =>
    obtain ⟨used, hused, hmember⟩ := pivotMember?_of_mem h hr hp
    simp [hmember, contributed?, hused, Except.toOption]

/-- The contributions of a model that is built are the members of its sources, in their order. -/
theorem map_contributed? {relations : List (RelationSource × Option (PivotSource × PivotUse))} {columns : List Member}
    (hrelations : m.pivotUses pivots = .ok relations) (hcolumns : m.columnMembers schema = .ok columns) :
    (m.sources schema).map (m.contributed? o pivots known) =
      (m.contributions o known columns relations).map some := by
  simp only [sources, contributions, documented_eq, List.map_append, List.append_assoc,
    contributed?_pivots hrelations, contributed?_columns hcolumns]
  simp only [List.map_map]
  rfl

/-! ## The last one stays -/

theorem find?_contributed? {cs : List Contribution} {xs : List Member}
    (h : cs.map (m.contributed? o pivots known) = xs.map some) (name : String) :
    xs.find? (·.name == name) = (cs.find? (·.name == name)).bind (m.contributed? o pivots known) := by
  induction cs generalizing xs with
  | nil =>
    rw [List.map_nil, eq_comm, List.map_eq_nil_iff] at h
    rw [h]
    rfl
  | cons c cs ih =>
    cases xs with
    | nil => cases h
    | cons x xs =>
      obtain ⟨hx, h⟩ := List.cons.inj h
      rw [List.find?_cons, List.find?_cons, contributed?_name hx]
      split
      · exact hx.symm
      · exact ih h

/-- What was last of its name to come in is the member under that name. -/
theorem member?_of_build {e : Entity} (h : (m.build o schema pivots).outcome = .ok e) :
    ∃ relations, m.pivotUses pivots = .ok relations ∧ ∀ name, e.member? name =
      ((m.sources schema).reverse.find? (·.name == name)).bind
        (m.contributed? o pivots (m.knownNames (m.start o relations))) := by
  obtain ⟨relations, columns, hrelations, hcolumns, hmember⟩ := exists_contributions_of_build h
  refine ⟨relations, hrelations, fun name => (hmember name).trans ?_⟩
  exact find?_contributed? (by rw [List.map_reverse, List.map_reverse, map_contributed? hrelations hcolumns]) name

/-- Everything that contributes to a model that is built gives a member. -/
theorem exists_contributed? {e : Entity} (h : (m.build o schema pivots).outcome = .ok e) {c : Contribution}
    (hc : c ∈ m.sources schema) (known : List String) : ∃ x, m.contributed? o pivots known c = some x := by
  obtain ⟨relations, columns, hrelations, hcolumns, -⟩ := build_eq_ok.1 h
  have hx := List.mem_map_of_mem (f := m.contributed? o pivots known) hc
  rw [map_contributed? hrelations hcolumns, List.mem_map] at hx
  obtain ⟨x, -, hx⟩ := hx
  exact ⟨x, hx.symm⟩

/-- The last of a name among all that contributes. -/
theorem find?_reverse_eq_some {cs : List Contribution} {c : Contribution} {name : String} :
    cs.reverse.find? (·.name == name) = some c ↔
      c.name = name ∧ ∃ front back, cs = front ++ c :: back ∧ ∀ c' ∈ back, c'.name ≠ name := by
  rw [List.find?_eq_some_iff_append, beq_iff_eq]
  refine and_congr_right fun _ => ?_
  constructor
  · rintro ⟨back, front, hcs, hback⟩
    refine ⟨front.reverse, back.reverse, ?_, fun c' hc' => by simpa using hback c' (List.mem_reverse.1 hc')⟩
    rw [← List.reverse_reverse cs, hcs]
    simp
  · rintro ⟨front, back, rfl, hback⟩
    exact ⟨back.reverse, front.reverse, by simp, fun c' hc' => by simpa using hback c' (List.mem_reverse.1 hc')⟩

/-- The members of a built model stand in order of their names, one for each name under which something contributes,
and each is that of the last to contribute under its name. Accessors contribute under their normalised names, but for
those with a literal, and what is documented as written only contributes nothing. -/
theorem last_contribution_stays {e : Entity} (h : (m.build o schema pivots).outcome = .ok e) :
    ∃ relations, m.pivotUses pivots = .ok relations ∧
      e.members.Pairwise (·.name < ·.name) ∧
      (∀ name, name ∈ e.members.map (·.name) ↔ name ∈ (m.sources schema).map (·.name)) ∧
      (∀ x ∈ e.members, ∃ front c back, m.sources schema = front ++ c :: back ∧
        (∀ c' ∈ back, c'.name ≠ c.name) ∧ x.name = c.name ∧
        m.contributed? o pivots (m.knownNames (m.start o relations)) c = some x) ∧
      (∀ d ∈ m.members, if d.accessor = true ∧ d.literal = none then AccessorName d.name (Contribution.declared d).name
        else (Contribution.declared d).name = d.name) ∧
      ∀ p : Doc.Property, p.tag = .write → .documented p ∉ m.sources schema := by
  obtain ⟨relations, hrelations, hmember⟩ := member?_of_build h
  have hlast : ∀ x ∈ e.members, ∃ c, (m.sources schema).reverse.find? (·.name == x.name) = some c ∧
      m.contributed? o pivots (m.knownNames (m.start o relations)) c = some x := by
    intro x hx
    rw [← Option.bind_eq_some_iff, ← hmember]
    exact Entity.member?_eq_some.2 ⟨hx, rfl⟩
  refine ⟨relations, hrelations, e.sorted, fun name => ?_, fun x hx => ?_,
    fun d _ => declared_name d, fun p hp => ?_⟩
  · rw [List.mem_map, List.mem_map]
    constructor
    · rintro ⟨x, hx, rfl⟩
      obtain ⟨c, hc, -⟩ := hlast x hx
      exact ⟨c, List.mem_reverse.1 (List.mem_of_find?_eq_some hc), by simpa using List.find?_some hc⟩
    · rintro ⟨c, hc, rfl⟩
      obtain ⟨c', hc'⟩ : ∃ c', (m.sources schema).reverse.find? (·.name == c.name) = some c' := by
        rw [← Option.isSome_iff_exists, List.find?_isSome]
        exact ⟨c, List.mem_reverse.2 hc, by simp⟩
      obtain ⟨x, hx⟩ := exists_contributed? h (List.mem_reverse.1 (List.mem_of_find?_eq_some hc'))
        (m.knownNames (m.start o relations))
      have hfound := hmember c.name
      rw [hc', Option.bind_some, hx] at hfound
      exact ⟨x, Entity.member?_eq_some.1 hfound⟩
  · obtain ⟨c, hc, hcx⟩ := hlast x hx
    obtain ⟨hname, front, back, hsources, hback⟩ := find?_reverse_eq_some.1 hc
    exact ⟨front, c, back, hsources, fun c' hc' => hname ▸ hback c' hc', hname.symm, hcx⟩
  · simp [sources, hp]

/-- A model in which everything contributes under the names `groups` and `size`. -/
def contested : ModelSource :=
  { space := "App", name := "User", table := some "users", base := none
    doc := "@tswink-property string $size\n@property int $size\n@property-write int $secret\n@property bool $groups"
    constants := [("groups", .integer 1), ("size", .integer 2)]
    members := [⟨"getGroupsAttribute", some "int", true, none⟩, ⟨"groups", none, false, some "x"⟩]
    relations := [⟨"groups", .belongsToMany, "Group", some ⟨"user_group", "size", []⟩⟩] }

/-- The table of that model. -/
def contestedTable : Option Schema :=
  some ⟨[("users", ⟨[⟨"size", "integer", false⟩]⟩)]⟩

/-- The pivot that it registers, of a table that its own schema does not have. -/
def contestedPivots : PivotRegistry :=
  (PivotRegistry.registerModel { schema := some ⟨[("user_group", ⟨[]⟩)]⟩ } contested).1

theorem contested_built : (contested.build {} contestedTable contestedPivots).outcome.toOption.map
    (fun e => e.members.map fun x => (x.name, x.typeText (.regular {}))) =
      some [("groups", "boolean"), ("qualifiedClassName", "string"), ("size", "string")] := by
  decide +kernel

/-- The documentation wins, and the overriding property over the one that follows it. -/
theorem contested_stays : ∃ e, (contested.build {} contestedTable contestedPivots).outcome = .ok e ∧
    e.members.map (fun x => (x.name, x.typeText (.regular {}))) =
      [("groups", "boolean"), ("qualifiedClassName", "string"), ("size", "string")] ∧
    ∀ x ∈ e.members, ∃ front c back, contested.sources contestedTable = front ++ c :: back ∧
      (∀ c' ∈ back, c'.name ≠ c.name) ∧ x.name = c.name := by
  obtain ⟨e, he, hmembers⟩ := Option.map_eq_some_iff.1 contested_built
  rw [toOption_eq_some] at he
  obtain ⟨relations, -, -, -, hlast, -, -⟩ := last_contribution_stays he
  refine ⟨e, he, hmembers, fun x hx => ?_⟩
  obtain ⟨front, c, back, hsources, hback, hname, -⟩ := hlast x hx
  exact ⟨front, c, back, hsources, hback, hname⟩

/-! ## Accessors with a literal -/

/-- A model with an accessor that has a literal. -/
def literalAccessor : ModelSource :=
  { space := "", name := "T", table := none, base := none, doc := "", constants := []
    members := [⟨"getFullNameAttribute", none, true, some "x"⟩], relations := [] }

/-- An accessor that has a literal stays under its own name, and there is no member under the normalised one. -/
theorem literal_keeps_name : literalAccessor.check "" = .ok () ∧
    ∃ e, (literalAccessor.build {} none { schema := none }).outcome = .ok e ∧
      ∃ d ∈ literalAccessor.members, d.accessor = true ∧ accessorProperty d.name ∉ e.members.map (·.name) ∧
        d.name ∈ e.members.map (·.name) := by
  have hnames : (literalAccessor.build {} none { schema := none }).outcome.toOption.map (·.members.map (·.name)) =
      some ["getFullNameAttribute", "qualifiedClassName"] := by decide +kernel
  obtain ⟨e, he, hmembers⟩ := Option.map_eq_some_iff.1 hnames
  refine ⟨by rfl, e, toOption_eq_some.1 he, _, List.mem_singleton_self _, rfl, ?_, ?_⟩ <;> rw [hmembers] <;>
    decide +kernel

end ModelSource

end EntityScript
