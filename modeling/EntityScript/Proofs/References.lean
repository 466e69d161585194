import EntityScript.Proofs.Building
import EntityScript.Proofs.Resolution
import EntityScript.Render
/-!
# References of files

What the types, the constructor and the base of a file refer to, and what the types of built members are
made of.
-/

namespace EntityScript

/-! ## What a file refers to -/

namespace Descriptor

/-- Whether the type is wrapped in `SetRequired` in a context. -/
def wraps (d : Descriptor) (ctx : Context) : Bool :=
  !ctx.newModel && d.isWrapped

/-- The identifiers in the type as it is written; the keys that are required are literals. -/
def identifiers (d : Descriptor) (ctx : Context) : List String :=
  (if d.wraps ctx then ["SetRequired"] else []) ++ EntityScript.identifiers (d.nameText ctx)

/-- The class whose constructor is called for a value of this type. -/
def constructed? (d : Descriptor) (ctx : Context) : Option String :=
  if d.isDate && !d.forcedPrimitive then some "Date"
  else if d.isConstructible then some (ctx.rename d.name)
  else none

/-- A type that is not wrapped is written with its own identifiers. -/
theorem identifiers_text {d : Descriptor} {ctx : Context} (h : d.wraps ctx = false) :
    EntityScript.identifiers (d.text ctx) = d.identifiers ctx := by
  have helement : d.elementText ctx = d.nameText ctx := by
    unfold elementText
    cases hn : ctx.newModel <;> cases hk : d.requiredKeys? <;> simp_all [wraps, isWrapped]
  rw [identifiers, h, text, helement]
  cases d.collection
  · simp
  · simp [identifiers_append (show Separates "[]".toList by decide), show EntityScript.identifiers "[]" = [] from rfl]

end Descriptor

namespace Member

/-- The identifiers in the type of a member. -/
def identifiers (m : Member) (ctx : Context) : List String :=
  match m.writtenTypes with
  | [] => ["any"]
  | types => types.flatMap (·.identifiers ctx)

/-- The class whose constructor is called for a member. -/
def constructed? (m : Member) (ctx : Context) : Option String :=
  if m.isConstant || m.verbatim then none else m.soleType?.bind (·.constructed? ctx)

end Member

namespace Entity

/-- The constructor calls `new` for just the classes that are constructed. -/
theorem initializer?_eq (field : String) (d : Descriptor) (ctx : Context) :
    initializer? field d ctx =
      match d.constructed? ctx with
      | some name =>
        some ("init?." ++ field ++ if d.collection then
          " ? " ++ ("init." ++ field) ++ ".map(v => new " ++ name ++ "(v)) : []"
        else " ? new " ++ name ++ "(" ++ ("init." ++ field) ++ ") : undefined")
      | none => if d.collection then some ("init?." ++ field ++ " ?? []") else none := by
  unfold initializer? Descriptor.constructed?
  cases d.collection <;> cases d.isDate && !d.forcedPrimitive <;> cases d.isConstructible <;>
    simp [String.append_assoc]

/-- What the members, the constructor and the base of a model refer to. -/
def references (e : Entity) (ctx : Context) : List String :=
  (e.bodyMembers ctx).flatMap (·.identifiers ctx) ++
    (if ctx.interface then []
      else (e.members.filterMap (·.constructed? ctx)).flatMap EntityScript.identifiers) ++
    e.base?.toList.flatMap EntityScript.identifiers

end Entity

/-! ## The types of built members -/

theorem Column.type?_mem {native type : String} (h : Column.type? native = some type) : type ∈ builtins := by
  unfold Column.type? at h
  simp only at h
  split at h
  · rename_i type' natives hf
    cases h
    have hall : ∀ t ∈ Column.nativeTypes, t.1 ∈ builtins := by decide
    exact hall _ (List.mem_of_find?_eq_some hf)
  · split at h
    · cases h
      decide
    · cases h

namespace Member

theorem writtenTypes_subset {name : String} {types : List Descriptor} :
    (typed name types).writtenTypes ⊆ types := by
  simp [writtenTypes, typed, withTypes, property]

end Member

namespace ModelSource

open Signal (IsTyped)

variable {m : ModelSource} {o : Options} {schema : Option Schema} {pivots : PivotRegistry} {e : Entity}
  {relations : List (RelationSource × Option (PivotSource × PivotUse))}

theorem isTyped_constant (known : List String) (v : Toml.Value) : IsTyped known (Constant.type v) := by
  have hscalar (v : Toml.Value) {type : String} (h : Constant.scalarType? v = some type) : type ∈ builtins := by
    cases v <;> simp only [Constant.scalarType?, Option.some.injEq, reduceCtorEq] at h <;> subst h <;> decide
  have helement (items : List Toml.Value) : Constant.elementType items ∈ builtins := by
    unfold Constant.elementType
    split
    · decide
    · split
      · rename_i type h
        split
        · exact hscalar _ h
        · decide
      · decide
  unfold Constant.type
  split
  · rename_i type h
    exact Signal.isTyped_builtin (hscalar _ h)
  · rename_i items h
    exact Signal.isTyped_text (t := .array (.name (Constant.elementType items)))
      (Signal.isMade_builtin (helement items)).array
  · exact Signal.isTyped_builtin (by decide)

theorem isTyped_column {table : String} {c : ColumnSchema} {x : Member} (known : List String)
    (h : columnMember table c = .ok x) : ∀ d ∈ x.writtenTypes, IsTyped known d := by
  unfold columnMember at h
  split at h
  · rename_i type ht
    cases h
    have hbuiltin := Column.type?_mem ht
    intro d hd
    have hd := Member.writtenTypes_subset hd
    cases hn : c.nullable <;>
      simp only [hn, if_true, if_false, Bool.false_eq_true, List.mem_cons, List.not_mem_nil, or_false] at hd
    · subst hd
      exact Signal.isTyped_builtin hbuiltin
    · rcases hd with rfl | rfl
      · exact Signal.isTyped_builtin hbuiltin
      · exact Signal.isTyped_undefined
  · cases h

theorem isTyped_columns {columns : List Member} (known : List String) (h : m.columnMembers schema = .ok columns) :
    ∀ x ∈ columns, ∀ d ∈ x.writtenTypes, IsTyped known d := by
  intro x hx
  obtain ⟨table, c, hc⟩ := columnMember_of_mem h hx
  exact isTyped_column known hc

theorem isTyped_declared (known : List String) (d : MemberSource) :
    ∀ x ∈ (declaredMember o known d).writtenTypes, IsTyped known x := by
  unfold declaredMember
  split
  · simp [Member.writtenTypes, Member.property]
  · simp only
    split
    · exact fun x hx => Signal.isTyped_resolveText known _ x (Member.writtenTypes_subset hx)
    · simp [Member.writtenTypes, Member.property]

theorem isTyped_documented (known : List String) (p : Doc.Property) :
    ∀ d ∈ (documentedMember known p).writtenTypes, IsTyped known d := by
  intro d hd
  obtain ⟨d', hd', rfl⟩ := List.mem_map.1 (Member.writtenTypes_subset hd)
  exact Signal.isTyped_resolveText known p.type d' hd'

theorem mem_knownNames_of_import {i : EntityImport} (h : i ∈ m.baseImports o relations) :
    i.symbol ∈ m.knownNames (m.start o relations) :=
  List.mem_append_left _ (Entity.symbol_mem_addImports _ h)

/-- A relation with a pivot is paired with its use, any other with nothing. -/
theorem exists_used_of_mem (hp : m.pivotUses pivots = .ok relations) {r : RelationSource} (hr : r ∈ m.relations) :
    ∃ used, (r, used) ∈ relations := by
  obtain ⟨⟨r', used⟩, hmem, hu⟩ := exists_mem_mapM hp hr
  have hr' : r' = r := by
    split at hu
    · obtain ⟨_, -, h⟩ := map_eq_ok.1 hu
      exact (Prod.mk.inj h).1.symm
    · exact (Prod.mk.inj (Except.ok.inj hu)).1.symm
  exact ⟨used, hr' ▸ hmem⟩

/-- A relation refers to a name that is known: it is the model itself or is imported. -/
theorem isTyped_relation (hp : m.pivotUses pivots = .ok relations) {r : RelationSource} (hr : r ∈ m.relations) :
    ∀ d ∈ (relationMember r).writtenTypes, IsTyped (m.knownNames (m.start o relations)) d := by
  have hknown : Name.base r.target ∈ m.knownNames (m.start o relations) := by
    by_cases hself : Name.base r.target = m.name
    · simp [knownNames, hself]
    · obtain ⟨used, hmem⟩ := exists_used_of_mem hp hr
      refine mem_knownNames_of_import (i := .sibling (Name.base r.target) .entity) ?_
      refine List.mem_append_right _ (List.mem_flatMap.2 ⟨_, hmem, ?_⟩)
      simp [relationImports, hself]
  intro d hd
  have hd := Member.writtenTypes_subset hd
  rw [List.mem_singleton] at hd
  refine ⟨.name (Name.base r.target), ?_, Signal.isMade_one (.inr (.inr hknown))⟩
  subst hd
  cases r.kind.isToMany <;> cases r.pivot <;> rfl

/-- The member of a pivot refers to its interface, which is imported. -/
theorem isTyped_pivot {r : RelationSource} {pivot : PivotSource} {used : PivotUse}
    (h : (r, some (pivot, used)) ∈ relations) :
    ∀ d ∈ (pivotMember pivot used).writtenTypes, IsTyped (m.knownNames (m.start o relations)) d := by
  have hknown : used.interfaceName ∈ m.knownNames (m.start o relations) := by
    refine mem_knownNames_of_import (i := .sibling used.interfaceName .pivot) ?_
    refine List.mem_append_right _ (List.mem_flatMap.2 ⟨_, h, ?_⟩)
    simp [relationImports]
  intro d hd
  have hd := Member.writtenTypes_subset hd
  rw [List.mem_singleton] at hd
  exact ⟨.name used.interfaceName, by subst hd; rfl, Signal.isMade_one (.inr (.inr hknown))⟩

/-- Whatever a member of a model comes from, its type is made of allowed names. -/
theorem isTyped_contributions {columns : List Member} (hp : m.pivotUses pivots = .ok relations)
    (hc : m.columnMembers schema = .ok columns) :
    ∀ x ∈ m.contributions o (m.knownNames (m.start o relations)) columns relations, ∀ d ∈ x.writtenTypes,
      IsTyped (m.knownNames (m.start o relations)) d := by
  intro x hx
  rcases mem_contributions hx with ⟨⟨name, v⟩, -, rfl⟩ | ⟨d, -, rfl⟩ | hx | ⟨r, hr, rfl⟩ | ⟨r, pivot, used, hr, rfl⟩ |
    ⟨p, -, rfl⟩ | rfl
  · intro d hd
    obtain rfl : d = Constant.type v := by
      simpa [Constant.member, Member.writtenTypes, Member.withTypes] using (List.mem_filter.1 hd).1
    exact isTyped_constant _ v
  · exact isTyped_declared _ d
  · exact isTyped_columns _ hc x hx
  · exact isTyped_relation hp hr
  · exact isTyped_pivot hr
  · exact isTyped_documented _ p
  · intro d hd
    obtain rfl : d = .named "string" := by
      simpa [qualifiedNameMember, Member.writtenTypes, Member.withTypes] using (List.mem_filter.1 hd).1
    exact Signal.isTyped_builtin (by decide)

end ModelSource

end EntityScript
