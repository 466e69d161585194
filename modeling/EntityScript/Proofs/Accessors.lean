import Mathlib.Data.List.Nodup
import Mathlib.Data.Option.Basic
import EntityScript.Proofs.Outputs
import EntityScript.Proofs.PivotUses
/-!
# Required accessors

A relation with a join table requires of its target the property of the pivot. That property comes from the
description of the target alone: no relation of another model adds it.
-/

namespace EntityScript

/-! ## The properties that an entity shows -/

/-- Whether a member is written as a property. -/
def Member.isShown (m : Member) : Bool :=
  !m.isConstant && !m.verbatim

namespace Entity

/-- Whether an entity has a written property of a name. -/
def Shows (e : Entity) (name : String) : Prop :=
  ∃ m, e.member? name = some m ∧ m.isShown = true

theorem member?_eq_some {e : Entity} {name : String} {m : Member} :
    e.member? name = some m ↔ m ∈ e.members ∧ m.name = name := by
  unfold member?
  constructor
  · intro h
    exact ⟨List.mem_of_find?_eq_some h, by simpa using List.find?_some h⟩
  · rintro ⟨hm, rfl⟩
    obtain ⟨n, hn⟩ : ∃ n, e.members.find? (·.name == m.name) = some n := by
      rw [← Option.isSome_iff_exists, List.find?_isSome]
      exact ⟨m, hm, by simp⟩
    have hname : n.name = m.name := by simpa using List.find?_some hn
    have hnodup : (e.members.map (·.name)).Nodup := List.pairwise_map.2 (e.sorted.imp String.ne_of_lt)
    rw [hn, List.inj_on_of_nodup_map hnodup (List.mem_of_find?_eq_some hn) hm hname]

theorem shows_iff_mem_bodyMembers {e : Entity} {name : String} (ctx : Context) :
    e.Shows name ↔ ∃ m ∈ e.bodyMembers ctx, m.isConstant = false ∧ m.name = name := by
  simp only [Shows, member?_eq_some, bodyMembers, List.mem_filter, Member.isShown]
  constructor
  · rintro ⟨m, ⟨hm, hname⟩, hshown⟩
    simp only [Bool.and_eq_true, Bool.not_eq_true'] at hshown
    exact ⟨m, ⟨hm, by simp [hshown]⟩, hshown.1, hname⟩
  · rintro ⟨m, ⟨hm, hbody⟩, hconstant, hname⟩
    refine ⟨m, ⟨hm, hname⟩, ?_⟩
    simp only [Bool.and_eq_true, Bool.not_eq_true'] at hbody
    simp [hconstant, hbody]

theorem shows_insertMember {e : Entity} {m : Member} {name : String} :
    (e.insertMember m).Shows name ↔ if name = m.name then m.isShown = true else e.Shows name := by
  unfold Shows
  split
  · rename_i h
    simp [h, member?_insertMember_self]
  · rename_i h
    rw [member?_insertMember_of_ne e h]

/-- Properties in turn are shown, and those before them stay. -/
theorem shows_insertMembers {e : Entity} {ms : List Member} {name : String} (h : ∀ m ∈ ms, m.isShown = true) :
    (e.insertMembers ms).Shows name ↔ name ∈ ms.map (·.name) ∨ e.Shows name := by
  induction ms generalizing e with
  | nil => simp [insertMembers]
  | cons m ms ih =>
    rw [List.forall_mem_cons] at h
    refine (ih (e := e.insertMember m) h.2).trans ?_
    rw [shows_insertMember]
    by_cases hname : name = m.name <;> simp [hname, h.1]

/-- The last of the members that come in decides. -/
theorem shows_insertMembers_last {e : Entity} {ms : List Member} {name : String} : (e.insertMembers ms).Shows name ↔
    match ms.reverse.find? (·.name == name) with
    | some m => m.isShown = true
    | none => e.Shows name := by
  rw [Shows, member?_insertMembers]
  cases ms.reverse.find? (·.name == name) with
  | some m => simp
  | none => rfl

end Entity

/-! ## The properties of a model -/

namespace ModelSource

/-- The name of a declared member. -/
def declaredName (d : MemberSource) : String :=
  if d.literal.isNone && d.accessor then accessorProperty d.name else d.name

/-- Whether the description of a model, with the columns of its table, gives it a property of a name. What follows
a declared member hides it, and so does a later one; a literal is carried along but not written. -/
def Offers (m : ModelSource) (schema : Option Schema) (name : String) : Prop :=
  name ≠ "qualifiedClassName" ∧
    (name ∈ m.documented.map (·.name) ∨
      (∃ r ∈ m.relations, name = Name.snake r.name ∨ ∃ pivot, r.pivot = some pivot ∧ pivot.accessor = name) ∨
      name ∈ (m.tableColumns schema).map (·.name) ∨
      ∃ d, m.members.reverse.find? (declaredName · == name) = some d ∧ d.literal = none)

theorem declaredMember_name (o : Options) (known : List String) (d : MemberSource) :
    (declaredMember o known d).name = declaredName d := by
  unfold declaredMember declaredName
  cases d.literal with
  | some literal => rfl
  | none => cases d.type <;> simp [Member.typed, Member.withTypes, Member.property]

theorem isShown_declaredMember (o : Options) (known : List String) (d : MemberSource) :
    (declaredMember o known d).isShown = d.literal.isNone := by
  unfold declaredMember
  cases d.literal with
  | some literal => rfl
  | none => cases d.type <;> rfl

theorem columnMember_spec {table : String} {c : ColumnSchema} {x : Member} (h : columnMember table c = .ok x) :
    x.name = c.name ∧ x.isShown = true := by
  unfold columnMember at h
  split at h
  · cases h
    exact ⟨rfl, rfl⟩
  · cases h

theorem columnMembers_spec {m : ModelSource} {schema : Option Schema} {columns : List Member}
    (h : m.columnMembers schema = .ok columns) :
    columns.map (·.name) = (m.tableColumns schema).map (·.name) ∧ ∀ x ∈ columns, x.isShown = true := by
  have hcolumns := columnMembers_forall₂ h
  constructor
  · rw [← List.forall₂_eq_eq_eq, List.forall₂_map_left_iff, List.forall₂_map_right_iff]
    exact hcolumns.flip.imp fun _ _ ⟨_, _, hx⟩ => (columnMember_spec hx).1
  · intro x hx
    obtain ⟨table, c, hc⟩ := columnMember_of_mem h hx
    exact (columnMember_spec hc).2

/-- The member that the pivot of a relation writes. -/
def pivotMember? (pivots : PivotRegistry) (r : RelationSource) : Option Member :=
  r.pivot.bind fun pivot => (pivots.reference r.name pivot).toOption.map (pivotMember pivot)

/-- Every pivot of a model that is built is found. -/
theorem pivotMember?_of_mem {m : ModelSource} {pivots : PivotRegistry}
    {relations : List (RelationSource × Option (PivotSource × PivotUse))}
    (h : m.pivotUses pivots = .ok relations) {r : RelationSource} (hr : r ∈ m.relations) {pivot : PivotSource}
    (hp : r.pivot = some pivot) :
    ∃ used, pivots.reference r.name pivot = .ok used ∧ pivotMember? pivots r = some (pivotMember pivot used) := by
  obtain ⟨q, -, hq⟩ := exists_mem_mapM h hr
  simp only [hp] at hq
  obtain ⟨used, hused, -⟩ := map_eq_ok.1 hq
  exact ⟨used, hused, by simp [pivotMember?, hp, hused, Except.toOption]⟩

/-- The members of pivots, each from its relation. -/
theorem pivotMembers_eq {m : ModelSource} {pivots : PivotRegistry}
    {relations : List (RelationSource × Option (PivotSource × PivotUse))} (h : m.pivotUses pivots = .ok relations) :
    (relations.filterMap (·.2)).map (fun (pivot, used) => pivotMember pivot used) =
      m.relations.filterMap (pivotMember? pivots) := by
  have hmap : relations.map (fun u => u.2.map fun (pivot, used) => pivotMember pivot used) =
      m.relations.map (pivotMember? pivots) := by
    refine map_of_mapM h fun r hr q hq => ?_
    cases hp : r.pivot with
    | none =>
      simp only [hp] at hq
      cases hq
      simp [pivotMember?, hp]
    | some pivot =>
      simp only [hp] at hq
      obtain ⟨used, hused, rfl⟩ := map_eq_ok.1 hq
      simp [pivotMember?, hp, hused, Except.toOption]
  have hsome := congrArg (List.filterMap id) hmap
  rw [List.filterMap_map, List.filterMap_map] at hsome
  rw [List.map_filterMap]
  exact hsome

theorem isShown_pivotMember {m : ModelSource} {pivots : PivotRegistry} {x : Member}
    (h : x ∈ m.relations.filterMap (pivotMember? pivots)) : x.isShown = true := by
  obtain ⟨r, -, hx⟩ := List.mem_filterMap.1 h
  obtain ⟨pivot, -, hx⟩ := Option.bind_eq_some_iff.1 hx
  obtain ⟨used, -, rfl⟩ := Option.map_eq_some_iff.1 hx
  rfl

/-- The members of pivots stand under the accessors that the relations show. -/
theorem mem_pivotMembers_iff {m : ModelSource} {pivots : PivotRegistry}
    {relations : List (RelationSource × Option (PivotSource × PivotUse))} (h : m.pivotUses pivots = .ok relations)
    {name : String} : name ∈ (m.relations.filterMap (pivotMember? pivots)).map (·.name) ↔
      ∃ r ∈ m.relations, ∃ pivot, r.pivot = some pivot ∧ pivot.accessor = name := by
  constructor
  · intro hname
    obtain ⟨x, hx, rfl⟩ := List.mem_map.1 hname
    obtain ⟨r, hr, hx⟩ := List.mem_filterMap.1 hx
    obtain ⟨pivot, hp, hx⟩ := Option.bind_eq_some_iff.1 hx
    obtain ⟨used, -, rfl⟩ := Option.map_eq_some_iff.1 hx
    exact ⟨r, hr, pivot, hp, rfl⟩
  · rintro ⟨r, hr, pivot, hp, rfl⟩
    obtain ⟨used, -, hmember⟩ := pivotMember?_of_mem h hr hp
    exact List.mem_map.2 ⟨_, List.mem_filterMap.2 ⟨r, hr, hmember⟩, rfl⟩

theorem shows_start (m : ModelSource) (o : Options)
    (relations : List (RelationSource × Option (PivotSource × PivotUse))) (name : String) :
    ¬ (m.start o relations).Shows name := by
  simp [Entity.Shows, Entity.member?, start, Entity.bare]

/-- Constants are not properties, and of the declared members of one name the last decides. -/
theorem shows_declared {m : ModelSource} {o : Options} {known : List String}
    {relations : List (RelationSource × Option (PivotSource × PivotUse))} {name : String} :
    ((m.start o relations).insertMembers (m.constants.map (fun (name, v) => Constant.member name v) ++
      m.members.map (declaredMember o known))).Shows name ↔
      ∃ d, m.members.reverse.find? (declaredName · == name) = some d ∧ d.literal = none := by
  have hfind : (m.members.map (declaredMember o known)).reverse.find? (·.name == name) =
      (m.members.reverse.find? (declaredName · == name)).map (declaredMember o known) := by
    have hname : (fun x : Member => x.name == name) ∘ declaredMember o known = (declaredName · == name) :=
      funext fun d => by rw [Function.comp_apply, declaredMember_name]
    rw [← List.map_reverse, List.find?_map, hname]
  rw [Entity.shows_insertMembers_last, List.reverse_append, List.find?_append, hfind]
  cases m.members.reverse.find? (declaredName · == name) with
  | some d => simp [isShown_declaredMember]
  | none =>
    simp only [Option.map_none, Option.none_or, reduceCtorEq, false_and, exists_false, iff_false]
    cases hc : (m.constants.map fun (name, v) => Constant.member name v).reverse.find? (·.name == name) with
    | none => exact m.shows_start o relations name
    | some x =>
      obtain ⟨c, -, rfl⟩ := List.mem_map.1 (List.mem_reverse.1 (List.mem_of_find?_eq_some hc))
      simp [Member.isShown, Constant.member, Member.constant, Member.withTypes, Member.isConstant]

@[simp] theorem qualifiedNameMember_name (m : ModelSource) : m.qualifiedNameMember.name = "qualifiedClassName" := rfl

@[simp] theorem isShown_qualifiedNameMember (m : ModelSource) : m.qualifiedNameMember.isShown = false := rfl

/-- A built model shows just the properties that its description offers. -/
theorem shows_iff_offers {m : ModelSource} {o : Options} {schema : Option Schema} {pivots : PivotRegistry} {e : Entity}
    (h : (m.build o schema pivots).outcome = .ok e) (name : String) : e.Shows name ↔ m.Offers schema name := by
  obtain ⟨relations, columns, hrelations, hcolumns, rfl⟩ := build_eq_ok.1 h
  obtain ⟨hnames, hcolumn⟩ := columnMembers_spec hcolumns
  generalize m.knownNames (m.start o relations) = known
  have hshown : ∀ x ∈ columns ++ (m.relations.map relationMember ++
      (m.relations.filterMap (pivotMember? pivots) ++ m.documented.map (documentedMember known))),
      x.isShown = true := by
    simp only [List.forall_mem_append, List.forall_mem_map]
    exact ⟨hcolumn, fun _ _ => rfl, fun _ => isShown_pivotMember, fun _ _ => rfl⟩
  have hutility (e : Entity) : (withUtility o e).Shows name ↔ e.Shows name := by
    simp only [Entity.Shows, Entity.member?, withUtility_members]
  rw [hutility, contributions, pivotMembers_eq hrelations, Entity.insertMembers, List.foldl_append, List.foldl_cons,
    List.foldl_nil, Entity.shows_insertMember, qualifiedNameMember_name, isShown_qualifiedNameMember]
  simp only [List.append_assoc]
  rw [← List.append_assoc, List.foldl_append, ← Entity.insertMembers, ← Entity.insertMembers,
    Entity.shows_insertMembers hshown, shows_declared]
  unfold Offers
  by_cases hq : name = "qualifiedClassName"
  · simp [hq]
  · have hrelated : name ∈ (m.relations.map relationMember).map (·.name) ↔
        ∃ r ∈ m.relations, name = Name.snake r.name := by
      simp only [List.map_map, List.mem_map, eq_comm (a := name)]
      rfl
    have hdocumented : name ∈ (m.documented.map (documentedMember known)).map (·.name) ↔
        name ∈ m.documented.map (·.name) := by
      rw [List.map_map]
      rfl
    rw [if_neg hq, List.map_append, List.map_append, List.map_append, List.mem_append, List.mem_append,
      List.mem_append, hnames, mem_pivotMembers_iff hrelations, hrelated, hdocumented]
    simp only [and_or_left, exists_or, ne_eq, hq, not_false_eq_true, true_and]
    exact iff_of_eq (by ac_rfl)

/-- A relation with a pivot is written as its target with the accessor required. -/
theorem typeText_relationMember {r : RelationSource} {pivot : PivotSource} (hp : r.pivot = some pivot)
    (htarget : Name.base r.target ≠ "undefined") (o : Options) :
    (relationMember r).typeText (.regular o) = "SetRequired<" ++
      (Descriptor.named (Name.base r.target)).nameText (.regular o) ++ ", " ++ o.stringQuotes.quote pivot.accessor ++
      ">" ++ if r.kind.isToMany then "[]" else "" := by
  have hwritten : (relationMember r).writtenTypes =
      [((if r.kind.isToMany then (Descriptor.named (Name.base r.target)).asCollection
        else Descriptor.named (Name.base r.target)).withAccessor pivot.accessor)] := by
    simp only [Member.writtenTypes, relationMember, Member.typed, Member.withTypes, hp, Option.getD_some]
    rw [List.filter_eq_self.2]
    cases r.kind.isToMany <;> simpa [Descriptor.isUndefined, Descriptor.withAccessor, Descriptor.asCollection,
      Descriptor.named] using htarget
  rw [Member.typeText, hwritten]
  cases r.kind.isToMany <;> simp [Text.distinct, Text.join, Descriptor.text, Descriptor.elementText, Context.regular,
    Descriptor.requiredKeys?, Descriptor.withAccessor, Descriptor.asCollection, Descriptor.named, Descriptor.nameText,
    Descriptor.isDate]

end ModelSource

/-! ## Wrappers in a project -/

namespace Project

variable {p : Project} {d : Disk}

theorem build_of_preview {files : List OutputFile} (h : (p.preview d).outcome = .ok files) :
    ∃ pivots, p.pivots = .ok pivots ∧ ∀ m ∈ p.models, ∃ e, (m.build p.config.options p.schema pivots).outcome = .ok e := by
  obtain ⟨os, ho, -⟩ := preview_eq_ok.1 h
  simp only [outputs, bind_eq_ok] at ho
  obtain ⟨pivots, hp, oss, hs, -⟩ := ho
  refine ⟨pivots, hp, fun m hm => ?_⟩
  obtain ⟨s, hsource, hm⟩ := List.mem_filterMap.1 hm
  obtain ⟨out, -, hout⟩ := exists_mem_mapM hs hsource
  unfold sourceOutputs at hout
  split at hout
  · rename_i source hsource
    rw [hsource] at hm
    cases hm
  · rename_i source hsource
    rw [hsource] at hm
    cases hm
    obtain ⟨e, he, -⟩ := map_eq_ok.1 hout
    exact ⟨e, mapError_eq_ok.1 he⟩

/-- The first relation of the first model of a project that can be rendered, if it is shown: its type, its target
with the properties that this shows, and its accessor. -/
def firstWrapper (d : Disk) (config : String) : Option (String × String × List String × String) := do
  let p ← (openAt d config).toOption
  let _ ← (p.preview d).outcome.toOption
  let pivots ← p.pivots.toOption
  let m ← p.models.head?
  let e ← (m.build p.config.options p.schema pivots).outcome.toOption
  let r ← m.relations.head?
  let pivot ← r.pivot
  let m' ← p.models.find? (·.name == Name.base r.target)
  let e' ← (m'.build p.config.options p.schema pivots).outcome.toOption
  guard (ModelSource.relationMember r ∈ e.bodyMembers (.regular p.config.options))
  let shown := (e'.bodyMembers (.regular p.config.options)).filter (!·.isConstant)
  return ((ModelSource.relationMember r).typeText (.regular p.config.options), m'.name, shown.map (·.name),
    pivot.accessor)

theorem firstWrapper_eq_some {config text target accessor : String} {names : List String}
    (h : firstWrapper d config = some (text, target, names, accessor)) :
    ∃ p files pivots m e r pivot m' e', openAt d config = .ok p ∧ (p.preview d).outcome = .ok files ∧
      p.pivots = .ok pivots ∧ m ∈ p.models ∧ (m.build p.config.options p.schema pivots).outcome = .ok e ∧
      r ∈ m.relations ∧ r.pivot = some pivot ∧ ModelSource.relationMember r ∈ e.bodyMembers (.regular p.config.options) ∧
      (ModelSource.relationMember r).typeText (.regular p.config.options) = text ∧ m' ∈ p.models ∧
      m'.name = target ∧ Name.base r.target = target ∧ (m'.build p.config.options p.schema pivots).outcome = .ok e' ∧
      pivot.accessor = accessor ∧
      ∀ name, (∃ x ∈ e'.bodyMembers (.regular p.config.options), x.isConstant = false ∧ x.name = name) ↔ name ∈ names := by
  simp only [firstWrapper, Option.bind_eq_bind, Option.bind_eq_some_iff, Option.pure_def, Option.some.injEq,
    Prod.mk.injEq, toOption_eq_some, Option.guard_eq_some'] at h
  obtain ⟨p, hp, files, hf, pivots, hr, m, hm, e, he, r, hrel, pivot, hpivot, m', hm', e', he', _, hx, rfl, rfl, rfl,
    rfl⟩ := h
  have hname : m'.name = Name.base r.target := by simpa using List.find?_some hm'
  refine ⟨p, files, pivots, m, e, r, pivot, m', e', hp, hf, hr, List.mem_of_head? hm, he, List.mem_of_head? hrel,
    hpivot, hx, rfl, List.mem_of_find?_eq_some hm', rfl, hname.symm, he', rfl, fun name => ?_⟩
  simp [and_assoc]

/-- A model that relates to `User` through `team_user`, and a model that relates to nothing. -/
def usersDisk (name other : String) : Disk :=
  { entries := [
      (["t"], .text "[output]\nclasses=\"o\"\nenums=\"o\"\n[sources]\nentities=[\"a\",\"b\"]\nschema=\"s\"\n"),
      (["s"], .text "tables.team_user.columns=[\x7bname=\"level\",type=\"integer\"\x7d]\n"),
      (["a"], .text ("name=\"" ++ name ++ "\"\n[[relations]]\nname=\"users\"\nkind=\"belongs_to_many\"\n" ++
        "target=\"User\"\npivot.table=\"team_user\"\n")),
      (["b"], .text ("name=\"" ++ other ++ "\"\n"))] }

end Project

end EntityScript
