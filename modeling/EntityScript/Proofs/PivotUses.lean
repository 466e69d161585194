import EntityScript.Proofs.Building
import EntityScript.Proofs.PivotFields
import EntityScript.Proofs.Resolution
/-!
# Pivots that models use

Models whose pivots are registered refer to interfaces that are there, and the keys that a model requires of an
interface are fields of it, whatever other models list.
-/

namespace EntityScript

/-! ## References -/

namespace PivotSource

/-- The selected columns that are never null. -/
def neverNull (pivot : PivotSource) (t : TableSchema) : List String :=
  (pivot.selectedNames t).filter fun n => (t.column? n).any (!·.nullable)

end PivotSource

namespace PivotRegistry

/-- A call that succeeded can be referred to: the required columns are those that it selects, that are never
null and that the interface shows. -/
theorem reference_registryAfter {s : Schema} {calls : List PivotCall} (hcalls : AllAccepted (some s) calls)
    {c : PivotCall} (hc : c ∈ calls) {t : TableSchema} (ht : s.table? c.pivot.table = some t)
    (hn : (t.columns.map (·.name)).Nodup) :
    (registryAfter (some s) calls).reference c.relation c.pivot = .ok
      { interfaceName := (interfaceAfter (some s) calls c.pivot.table).name
        required := Text.distinct ((c.pivot.neverNull t).filter
          (interfaceAfter (some s) calls c.pivot.table).fieldNames.contains) } := by
  have htable : c.pivot.table ∈ calls.map (·.pivot.table) := List.mem_map_of_mem hc
  obtain ⟨sel, hsel⟩ := accepts_iff (r := registryAfter (some s) calls).1 (hcalls c hc)
  obtain ⟨t', ht', hs⟩ := select_spec hsel
  obtain rfl : t' = t := Option.some.inj (ht'.symm.trans ht)
  have hget : (registryAfter (some s) calls).get? c.pivot.table =
      some (interfaceAfter (some s) calls c.pivot.table) := by
    rw [get?_registryAfter, if_pos htable]
  have hrequired : (sel.selected.filter fun col =>
      !col.nullable && (interfaceAfter (some s) calls c.pivot.table).included.contains col.name).map (·.name) =
      (c.pivot.neverNull t').filter (interfaceAfter (some s) calls c.pivot.table).fieldNames.contains := by
    rw [PivotSource.neverNull, ← hs.names, List.filter_filter, List.filter_map]
    congr 1
    refine List.filter_congr fun col hcol => ?_
    have hcontains : (interfaceAfter (some s) calls c.pivot.table).fieldNames.contains col.name =
        (interfaceAfter (some s) calls c.pivot.table).included.contains col.name := by
      rw [Bool.eq_iff_iff, List.contains_iff_mem, List.contains_iff_mem,
        mem_fieldNames_interfaceAfter hcalls ht htable]
    rw [Function.comp_apply, hcontains, TableSchema.column?_of_mem hn (hs.mem col hcol), Option.any_some,
      Bool.and_comm]
  unfold reference
  rw [hsel, ← hrequired]
  simp only [hget]
  rfl

end PivotRegistry

/-! ## Types that require keys -/

namespace Signal

theorem requires_resolveText (known : List String) (input : String) :
    ∀ d ∈ resolveText known input, d.requiredColumns = none :=
  forall_resolveText (fun _ => rfl) (fun _ h => h) known input

end Signal

namespace ModelSource

variable {m : ModelSource} {o : Options} {schema : Option Schema} {pivots : PivotRegistry}
  {relations : List (RelationSource × Option (PivotSource × PivotUse))}

/-- The uses of a model are those that its relations refer to. -/
theorem reference_of_mem_pivotUses (h : m.pivotUses pivots = .ok relations) {r : RelationSource} {pivot : PivotSource}
    {used : PivotUse} (hr : (r, some (pivot, used)) ∈ relations) :
    r ∈ m.relations ∧ r.pivot = some pivot ∧ pivots.reference r.name pivot = .ok used := by
  obtain ⟨r', hr', hu⟩ := exists_of_mem_mapM h hr
  split at hu
  · rename_i pivot' hp
    obtain ⟨used', hused, heq⟩ := map_eq_ok.1 hu
    cases heq
    exact ⟨hr', hp, hused⟩
  · cases hu

theorem requires_constant (name : String) (v : Toml.Value) :
    ∀ d ∈ (Constant.member name v).types.getD [], d.requiredColumns = none := by
  intro d hd
  obtain rfl : d = Constant.type v := by simpa [Constant.member, Member.withTypes] using hd
  unfold Constant.type
  split <;> rfl

theorem requires_declared (known : List String) (source : MemberSource) :
    ∀ d ∈ (declaredMember o known source).types.getD [], d.requiredColumns = none := by
  unfold declaredMember
  split
  · simp [Member.property]
  · simp only
    split
    · simpa [Member.typed, Member.withTypes] using Signal.requires_resolveText known _
    · simp [Member.property]

theorem requires_column {table : String} {c : ColumnSchema} {x : Member} (h : columnMember table c = .ok x) :
    ∀ d ∈ x.types.getD [], d.requiredColumns = none := by
  unfold columnMember at h
  split at h
  · cases h
    cases hn : c.nullable <;> simp [Member.typed, Member.withTypes, Descriptor.named, Descriptor.undefined]
  · cases h

theorem requires_relation (r : RelationSource) :
    ∀ d ∈ (relationMember r).types.getD [], d.requiredColumns = none := by
  intro d hd
  simp only [relationMember, Member.typed, Member.withTypes, Option.getD_some, List.mem_singleton] at hd
  subst hd
  cases r.kind.isToMany <;> cases r.pivot <;> rfl

theorem requires_documented (known : List String) (p : Doc.Property) :
    ∀ d ∈ (documentedMember known p).types.getD [], d.requiredColumns = none := by
  intro d hd
  obtain ⟨d', hd', rfl⟩ : ∃ d' ∈ Signal.resolveText known p.type, d'.asPrimitive = d := by
    simpa [documentedMember, Member.typed, Member.withTypes] using hd
  exact Signal.requires_resolveText known p.type d' hd'

/-- Of all that a model contributes, just the members of pivots require columns. -/
theorem requires_contributions {known : List String} {columns : List Member}
    (hc : m.columnMembers schema = .ok columns) {x : Member} (hx : x ∈ m.contributions o known columns relations) :
    (∀ d ∈ x.types.getD [], d.requiredColumns = none) ∨
      ∃ r pivot used, (r, some (pivot, used)) ∈ relations ∧ x = pivotMember pivot used := by
  rcases mem_contributions hx with ⟨⟨name, v⟩, -, rfl⟩ | ⟨source, -, rfl⟩ | hx | ⟨r, -, rfl⟩ | hpivot | ⟨p, -, rfl⟩ | rfl
  · exact .inl (requires_constant name v)
  · exact .inl (requires_declared known source)
  · obtain ⟨table, c, hcol⟩ := columnMember_of_mem hc hx
    exact .inl (requires_column hcol)
  · exact .inl (requires_relation r)
  · exact .inr hpivot
  · exact .inl (requires_documented known p)
  · exact .inl (by simp [qualifiedNameMember, Member.withTypes, Descriptor.named])

/-- Just the members of pivots require columns, each of its interface. -/
theorem requires_of_build {e : Entity} (h : (m.build o schema pivots).outcome = .ok e) {x : Member} (hx : x ∈ e.members)
    {d : Descriptor} (hd : d ∈ x.types.getD []) {keys : List String} (hk : d.requiredColumns = some keys) :
    ∃ r ∈ m.relations, ∃ pivot used, r.pivot = some pivot ∧ pivots.reference r.name pivot = .ok used ∧
      d.name = used.interfaceName ∧ keys = Text.distinct used.required := by
  obtain ⟨relations, columns, hp, hc, rfl⟩ := build_eq_ok.1 h
  rcases requires_contributions hc (mem_of_mem_members hx) with hnone | ⟨r, pivot, used, hr, rfl⟩
  · cases (hnone d hd).symm.trans hk
  · obtain ⟨hmem, hpivot, hused⟩ := reference_of_mem_pivotUses hp hr
    obtain rfl : d = ((Descriptor.named used.interfaceName).requiring used.required).asPrimitive := by
      simpa [pivotMember, Member.typed, Member.withTypes] using hd
    exact ⟨r, hmem, pivot, used, hpivot, hused, rfl, (Option.some.inj hk).symm⟩

/-! ## Builds that fail -/

theorem build_eq_error {e : BuildError} (h : (m.build o schema pivots).outcome = .error e) :
    m.pivotUses pivots = .error e ∨ m.columnMembers schema = .error e := by
  cases hp : m.pivotUses pivots with
  | error e' =>
    simp only [build, Logged.outcome_bind, Logged.outcome_tell, Logged.outcome_ofExcept, hp] at h
    exact .inl (congrArg _ (Except.error.inj h))
  | ok relations =>
    cases hc : m.columnMembers schema with
    | error e' =>
      simp only [build, Logged.outcome_bind, Logged.outcome_tell, Logged.outcome_tellAll, Logged.outcome_ofExcept, hp,
        hc] at h
      exact .inr (congrArg _ (Except.error.inj h))
    | ok columns => cases h.symm.trans (build_eq_ok.2 ⟨relations, columns, hp, hc, rfl⟩)

theorem columnMembers_error {schema : Option Schema} {e : BuildError} (h : m.columnMembers schema = .error e) :
    (∃ table, e = .tableNotFound m.name table) ∨ ∃ table column type, e = .unknownColumnType table column type := by
  unfold columnMembers at h
  split at h
  · cases h
  · split at h
    · obtain ⟨c, -, hc⟩ := exists_of_mapM_error h
      unfold columnMember at hc
      split at hc
      · cases hc
      · cases hc
        exact .inr ⟨_, _, _, rfl⟩
    · cases h
      exact .inl ⟨_, rfl⟩

end ModelSource

/-! ## Registered models -/

namespace PivotRegistry

variable {s : Schema} {ms : List ModelSource} {r : PivotRegistry} {m : ModelSource}

/-- A relation of a registered model refers to the interface of its table. -/
theorem reference_of_registerModels {file src : String} (hs : Schema.parse file src = .ok s)
    (hr : registerModels { schema := some s } ms = (r, .ok ())) (hm : m ∈ ms) {rel : RelationSource}
    (hrel : rel ∈ m.relations) {pivot : PivotSource} (hp : rel.pivot = some pivot) :
    ∃ t i, s.table? pivot.table = some t ∧ r.get? pivot.table = some i ∧ r.reference rel.name pivot = .ok
      { interfaceName := i.name, required := Text.distinct ((pivot.neverNull t).filter i.fieldNames.contains) } := by
  obtain ⟨hcalls, rfl⟩ := registerModels_eq_ok.1 hr
  have hc : { relation := rel.name, pivot } ∈ ms.flatMap (·.pivotCalls) := by
    refine List.mem_flatMap.2 ⟨m, hm, List.mem_filterMap.2 ⟨rel, hrel, ?_⟩⟩
    simp [RelationSource.call?, hp]
  have htable : pivot.table ∈ (ms.flatMap (·.pivotCalls)).map (·.pivot.table) :=
    List.mem_map.2 ⟨_, hc, rfl⟩
  obtain ⟨t, ht⟩ := table?_of_accepts (hcalls _ hc)
  refine ⟨t, interfaceAfter (some s) (ms.flatMap (·.pivotCalls)) pivot.table, ht, ?_, ?_⟩
  · rw [get?_registryAfter, if_pos htable]
  · exact reference_registryAfter hcalls hc ht (Schema.nodup_columns hs ht)

/-- The pivots of a registered model are found when it is built. -/
theorem pivotUses_of_registerModels {file src : String} (hs : Schema.parse file src = .ok s)
    (hr : registerModels { schema := some s } ms = (r, .ok ())) (hm : m ∈ ms) (e : BuildError) :
    m.pivotUses r ≠ .error e := by
  intro he
  obtain ⟨rel, hrel, hone⟩ := exists_of_mapM_error he
  split at hone
  · rename_i pivot hp
    obtain ⟨t, i, -, -, href⟩ := reference_of_registerModels hs hr hm hrel hp
    rw [href] at hone
    cases hone
  · cases hone

/-- Models that were registered, in whatever order, find their pivots. Each relation refers to the interface of
its table; of the columns that it selects it requires those that are never null and that the interface shows in
the end, in the order of the selection and each once. Whatever schema their own tables are looked up in, no build
fails for want of a pivot, and the columns that a built type requires are fields of the interface that it names. -/
theorem keys_of_registered {file src : String} (hs : Schema.parse file src = .ok s)
    (hr : registerModels { schema := some s } ms = (r, .ok ())) (hm : m ∈ ms) :
    (∀ rel ∈ m.relations, ∀ pivot, rel.pivot = some pivot → ∃ t i used, s.table? pivot.table = some t ∧
      r.get? pivot.table = some i ∧ r.reference rel.name pivot = .ok used ∧ used.interfaceName = i.name ∧
      used.required = Text.distinct ((pivot.neverNull t).filter i.fieldNames.contains) ∧ used.required.Nodup ∧
      ∀ k ∈ used.required, k ∈ i.fieldNames) ∧
    (∀ o schema e, (m.build o schema r).outcome = .error e →
      (∀ relation table, e ≠ .pivotNotRegistered relation table) ∧
      (∀ relation table, e ≠ .pivotTableNotFound relation table) ∧
      ∀ relation table column, e ≠ .pivotColumnNotFound relation table column) ∧
    ∀ o schema e, (m.build o schema r).outcome = .ok e → ∀ x ∈ e.members, ∀ d ∈ x.types.getD [], ∀ keys,
      d.requiredColumns = some keys → ∃ rel ∈ m.relations, ∃ pivot i, rel.pivot = some pivot ∧
        r.get? pivot.table = some i ∧ d.name = i.name ∧ ∀ k ∈ keys, k ∈ i.fieldNames := by
  refine ⟨fun rel hrel pivot hp => ?_, fun o schema e he => ?_, fun o schema e he x hx d hd keys hk => ?_⟩
  · obtain ⟨t, i, ht, hi, href⟩ := reference_of_registerModels hs hr hm hrel hp
    refine ⟨t, i, _, ht, hi, href, rfl, rfl, Text.nodup_distinct _, fun k hk => ?_⟩
    simpa using (List.mem_filter.1 (Text.mem_distinct.1 hk)).2
  · rcases ModelSource.build_eq_error he with h | h
    · exact absurd h (pivotUses_of_registerModels hs hr hm e)
    · rcases ModelSource.columnMembers_error h with ⟨table, rfl⟩ | ⟨table, column, type, rfl⟩ <;> simp
  · obtain ⟨rel, hrel, pivot, used, hp, hused, hname, rfl⟩ := ModelSource.requires_of_build he hx hd hk
    obtain ⟨t, i, -, hi, href⟩ := reference_of_registerModels hs hr hm hrel hp
    obtain rfl := Except.ok.inj (href.symm.trans hused)
    refine ⟨rel, hrel, pivot, i, hp, hi, hname, fun k hk => ?_⟩
    have hk := Text.mem_distinct.1 (Text.mem_distinct.1 hk)
    simpa using (List.mem_filter.1 hk).2

/-- Models that relate through `team_user`; the first lists no columns, the second one. -/
def teamUserModels : List ModelSource :=
  [{ space := "", name := "Team", table := none, base := none, doc := "", constants := [], members := []
     relations := [⟨"members", .belongsToMany, "User", some ⟨"team_user", "membership", []⟩⟩] },
   { space := "", name := "User", table := none, base := none, doc := "", constants := [], members := []
     relations := [⟨"teams", .belongsToMany, "Team", some ⟨"team_user", "membership", ["priority"]⟩⟩] }]

/-- A relation that lists nothing does not require a column that another one's list leaves out. -/
theorem teamUser_keys :
    Schema.parse "schema.toml" teamUserText = .ok teamUser ∧
    ∃ r i used, registerModels { schema := some teamUser } teamUserModels = (r, .ok ()) ∧
      r.get? "team_user" = some i ∧ r.reference "members" ⟨"team_user", "membership", []⟩ = .ok used ∧
      used.required = ["priority"] ∧ ∀ k ∈ used.required, k ∈ i.fieldNames := by
  have hs : Schema.parse "schema.toml" teamUserText = .ok teamUser := toOption_eq_some.1 (by decide +kernel)
  have hr : registerModels { schema := some teamUser } teamUserModels =
      (registryAfter (some teamUser) (teamUserModels.flatMap (·.pivotCalls)), .ok ()) :=
    registerModels_eq_ok.2 ⟨by unfold AllAccepted; decide +kernel, rfl⟩
  obtain ⟨hrefs, -⟩ := keys_of_registered hs hr List.mem_cons_self
  obtain ⟨t, i, used, -, hi, href, -, -, -, hkeys⟩ := hrefs _ List.mem_cons_self _ rfl
  refine ⟨hs, _, i, used, hr, hi, href, ?_, hkeys⟩
  have hpriority : (registryAfter (some teamUser) (teamUserModels.flatMap (·.pivotCalls))).reference "members"
      ⟨"team_user", "membership", []⟩ = .ok ⟨"TeamUserPivot", ["priority"]⟩ := toOption_eq_some.1 (by decide +kernel)
  rw [← Except.ok.inj (hpriority.symm.trans href)]

end PivotRegistry

end EntityScript
