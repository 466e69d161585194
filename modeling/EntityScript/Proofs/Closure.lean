import EntityScript.Proofs.References
/-!
# Files that know what they refer to

A file refers to the names in its types and in its base. In a regular file they are built in, imported or
its own, but for `undefined` and for the parts of names that are no identifiers.
-/

namespace EntityScript

/-! ## Where references come from -/

namespace Entity

variable {e : Entity} {ctx : Context} {n : String}

theorem identifiers_constructed {m : Member} {name : String} (h : m.constructed? ctx = some name) :
    name = "Date" ∨ m.isConstant = false ∧ m.verbatim = false ∧ ∃ d ∈ m.writtenTypes, name = d.nameText ctx := by
  unfold Member.constructed? at h
  split at h
  · cases h
  · rename_i hm
    simp only [Bool.or_eq_true, not_or, Bool.not_eq_true] at hm
    obtain ⟨d, hd, hc⟩ := Option.bind_eq_some_iff.1 h
    have hmem : d ∈ m.writtenTypes := by
      unfold Member.soleType? at hd
      split at hd
      · rename_i d' hw
        simp_all
      · cases hd
    unfold Descriptor.constructed? at hc
    split at hc
    · exact .inl (Option.some.inj hc).symm
    · split at hc
      · rename_i hcons
        refine .inr ⟨hm.1, hm.2, d, hmem, ?_⟩
        have hdate : d.isDate = false := by
          simp only [Descriptor.isConstructible, Bool.and_eq_true, Bool.not_eq_true'] at hcons
          exact hcons.1.2
        rw [Descriptor.nameText, hdate, ← Option.some.inj hc]
        simp
      · cases hc

/-- A member refers to the names in its written types and to what wraps them; without a type it refers to `any`. -/
theorem mem_identifiers_member {m : Member} (h : n ∈ m.identifiers ctx) :
    n ∈ builtins ∨ ∃ d ∈ m.writtenTypes, d.wraps ctx = true ∧ n = "SetRequired" ∨ n ∈ identifiers (d.nameText ctx) := by
  unfold Member.identifiers at h
  split at h
  · obtain rfl := List.mem_singleton.1 h
    exact .inl (by decide)
  · obtain ⟨d, hd, hn⟩ := List.mem_flatMap.1 h
    refine .inr ⟨d, hd, ?_⟩
    rcases List.mem_append.1 hn with hn | hn
    · split at hn
      · rename_i hw
        exact .inl ⟨hw, List.mem_singleton.1 hn⟩
      · cases hn
    · exact .inr hn

/-- The constructor refers to `Date`, or to a name that is the type of a member that it assigns. -/
theorem mem_identifiers_constructed {m : Member} (hm : m ∈ e.members) {name : String}
    (hc : m.constructed? ctx = some name) (hn : n ∈ identifiers name) :
    n ∈ builtins ∨ ∃ m ∈ e.bodyMembers ctx, ∃ d ∈ m.writtenTypes, n ∈ identifiers (d.nameText ctx) := by
  rcases identifiers_constructed hc with rfl | ⟨hconst, hverb, d, hd, rfl⟩
  · have hdate : "Date" ∈ builtins := by decide
    rw [identifiers_of_builtin hdate, List.mem_singleton] at hn
    exact .inl (hn ▸ hdate)
  · refine .inr ⟨m, List.mem_filter.2 ⟨hm, ?_⟩, d, hd, hn⟩
    simp [hconst, hverb]

/-- What a file refers to, in three cases. -/
theorem references_cases (h : n ∈ e.references ctx) :
    n ∈ builtins ∨
    (∃ m ∈ e.bodyMembers ctx, ∃ d ∈ m.writtenTypes,
      d.wraps ctx = true ∧ n = "SetRequired" ∨ n ∈ identifiers (d.nameText ctx)) ∨
    ∃ base, e.base? = some base ∧ n ∈ identifiers base := by
  simp only [references, List.mem_append] at h
  rcases h with (h | h) | h
  · obtain ⟨m, hm, hn⟩ := List.mem_flatMap.1 h
    rcases mem_identifiers_member hn with hb | hd
    · exact .inl hb
    · exact .inr (.inl ⟨m, hm, hd⟩)
  · split at h
    · cases h
    · obtain ⟨name, hname, hn⟩ := List.mem_flatMap.1 h
      obtain ⟨m, hm, hc⟩ := List.mem_filterMap.1 hname
      rcases mem_identifiers_constructed hm hc hn with hb | ⟨x, hx, d, hd, hn⟩
      · exact .inl hb
      · exact .inr (.inl ⟨x, hx, d, hd, .inr hn⟩)
  · obtain ⟨base, hb, hn⟩ := List.mem_flatMap.1 h
    exact .inr (.inr ⟨base, by simpa using hb, hn⟩)

/-- A file refers to the names in its types as they are written. -/
theorem mem_references_of_type {m : Member} (hm : m ∈ e.bodyMembers ctx) {d : Descriptor} (hd : d ∈ m.writtenTypes)
    (hn : n ∈ identifiers (d.nameText ctx)) : n ∈ e.references ctx := by
  refine List.mem_append_left _ (List.mem_append_left _ (List.mem_flatMap.2 ⟨m, hm, ?_⟩))
  unfold Member.identifiers
  split
  · simp_all
  · exact List.mem_flatMap.2 ⟨d, hd, List.mem_append_right _ hn⟩

end Entity

namespace ModelSource

variable {m : ModelSource} {o : Options} {schema : Option Schema} {pivots : PivotRegistry} {e : Entity}

theorem isUtility_of_mem_relationImports {relation : RelationSource × Option (PivotSource × PivotUse)} {i : EntityImport}
    (h : i ∈ m.relationImports relation) : i.isUtility = false := by
  obtain ⟨r, used⟩ := relation
  rcases List.mem_append.1 h with h | h
  · split at h
    · cases h
    · obtain rfl := List.mem_singleton.1 h
      rfl
  · split at h
    · obtain rfl := List.mem_singleton.1 h
      rfl
    · cases h

theorem isUtility_of_mem_start {relations : List (RelationSource × Option (PivotSource × PivotUse))} {i : EntityImport}
    (h : i ∈ (m.start o relations).imports) : i.isUtility = false := by
  rcases Entity.mem_addImports h with h | h
  · cases h
  · rcases List.mem_append.1 h with h | h
    · split at h
      · obtain rfl := List.mem_singleton.1 h
        rfl
      · cases h
    · obtain ⟨_, -, h⟩ := List.mem_flatMap.1 h
      exact isUtility_of_mem_relationImports h

/-- What is read from the types of a built entity is built in, `undefined` or read from its name or from
the symbol of an import that is no utility. -/
theorem identifiers_of_build (h : (m.build o schema pivots).outcome = .ok e) {x : Member} (hx : x ∈ e.members)
    {d : Descriptor} (hd : d ∈ x.writtenTypes) {n : String} (hn : n ∈ identifiers d.name) :
    n ∈ builtins ∨ n = "undefined" ∨ n ∈ identifiers e.name ∨
      ∃ i ∈ e.imports, i.isUtility = false ∧ n ∈ identifiers i.symbol := by
  have hname := build_name h
  obtain ⟨relations, columns, hp, hc, rfl⟩ := build_eq_ok.1 h
  rcases (isTyped_contributions hp hc x (mem_of_mem_members hx) d hd).identifiers n hn with hb | hu | ⟨k, hk, hn⟩
  · exact .inl hb
  · exact .inr (.inl hu)
  · rcases List.mem_append.1 hk with hk | hk
    · obtain ⟨i, hi, rfl⟩ := List.mem_map.1 hk
      exact .inr (.inr (.inr ⟨i, imports_subset_withUtility o _ (by simpa using hi), isUtility_of_mem_start hi, hn⟩))
    · rw [List.mem_singleton] at hk
      exact .inr (.inr (.inl (by rw [hname, ← hk]; exact hn)))

theorem base_of_build (h : (m.build o schema pivots).outcome = .ok e) {base : String} (hb : e.base? = some base) :
    .sibling base .base ∈ e.imports := by
  have hext : m.extended? o = some base := by
    rw [Entity.base?, build_kind h] at hb
    exact hb
  obtain ⟨relations, columns, -, -, rfl⟩ := build_eq_ok.1 h
  refine imports_subset_withUtility o _ ?_
  simp only [Entity.insertMembers_imports, start, baseImports, hext]
  -- The base is the first import, so no other symbol can be in its place.
  exact Entity.imports_subset_addImports (Entity.addImport _ _) _ (by simp [Entity.addImport, Entity.bare])

theorem setRequired_of_build (h : (m.build o schema pivots).outcome = .ok e) {x : Member} (hx : x ∈ e.members)
    {d : Descriptor} (hd : d ∈ x.writtenTypes) (hw : d.isWrapped = true) : "SetRequired" ∈ e.importNames := by
  obtain ⟨relations, columns, hp, hc, rfl⟩ := build_eq_ok.1 h
  rw [withUtility_members] at hx
  unfold withUtility
  rw [if_pos (List.any_eq_true.2 ⟨x, hx, List.any_eq_true.2 ⟨d, hd, hw⟩⟩)]
  exact Entity.symbol_mem_addImport _ (.utility o.requiredSubsetModule)

end ModelSource

/-! ## Regular files -/

/-- Whether a name is built in, the name of the entity or imported. -/
def Entity.Knows (e : Entity) (n : String) : Prop :=
  n ∈ builtins ∨ n = e.name ∨ n ∈ e.importNames

namespace ModelSource

variable {m : ModelSource} {o : Options} {schema : Option Schema} {pivots : PivotRegistry} {e : Entity}

theorem references_of_build (h : (m.build o schema pivots).outcome = .ok e) {n : String}
    (hn : n ∈ e.references (.regular o)) :
    e.Knows n ∨ n = "undefined" ∨ ∃ s ∈ e.name :: e.importNames, n ∈ identifiers s := by
  rcases Entity.references_cases hn with hb | ⟨x, hx, d, hd, ⟨hw, rfl⟩ | hn⟩ | ⟨base, hb, hn⟩
  · exact .inl (.inl hb)
  · have hw : d.isWrapped = true := by simpa [Descriptor.wraps, Context.regular] using hw
    exact .inl (.inr (.inr (setRequired_of_build h (List.mem_filter.1 hx).1 hd hw)))
  · unfold Descriptor.nameText at hn
    split at hn
    · have hstring : "string" ∈ builtins := by decide
      rw [identifiers_of_builtin hstring, List.mem_singleton] at hn
      exact .inl (.inl (hn ▸ hstring))
    · rcases identifiers_of_build h (List.mem_filter.1 hx).1 hd hn with hb | hu | hs | ⟨i, hi, -, hs⟩
      · exact .inl (.inl hb)
      · exact .inr (.inl hu)
      · exact .inr (.inr ⟨e.name, by simp, hs⟩)
      · exact .inr (.inr ⟨i.symbol, List.mem_cons_of_mem _ (List.mem_map_of_mem hi), hs⟩)
  · exact .inr (.inr ⟨base, List.mem_cons_of_mem _ (List.mem_map_of_mem (base_of_build h hb)), hn⟩)

/-- A regular file that wraps a type imports `SetRequired`, and it knows all that it refers to if and only
if it knows `undefined`, where it refers to that, and the parts of names that are no identifiers. -/
theorem regular_closure_iff (h : (m.build o schema pivots).outcome = .ok e) :
    (∀ x ∈ e.bodyMembers (.regular o), ∀ d ∈ x.writtenTypes, d.wraps (.regular o) = true →
      "SetRequired" ∈ e.importNames) ∧
    ((∀ n ∈ e.references (.regular o), e.Knows n) ↔
      ∀ n ∈ e.references (.regular o),
        n = "undefined" ∨ (∃ s ∈ e.name :: e.importNames, n ∈ identifiers s ∧ n ≠ s) → e.Knows n) := by
  refine ⟨fun x hx d hd hw => ?_, fun hall n hn _ => hall n hn, fun hall n hn => ?_⟩
  · have hw : d.isWrapped = true := by simpa [Descriptor.wraps, Context.regular] using hw
    exact setRequired_of_build h (List.mem_filter.1 hx).1 hd hw
  · rcases references_of_build h hn with hk | hu | ⟨s, hs, hmem⟩
    · exact hk
    · exact hall n hn (.inl hu)
    · by_cases heq : n = s
      · subst heq
        exact .inr (List.mem_cons.1 hs)
      · exact hall n hn (.inr ⟨s, hs, hmem, heq⟩)

/-- What the regular file of a model refers to and the names that it knows. -/
def regularNames (m : ModelSource) (o : Options) : Option (List String × List String) :=
  (m.build o none { schema := none }).outcome.toOption.map fun e =>
    (e.references (.regular o), e.name :: e.importNames)

theorem regularNames_eq_some {refs known : List String} (h : m.regularNames o = some (refs, known)) :
    ∃ e, (m.build o none { schema := none }).outcome = .ok e ∧ e.references (.regular o) = refs ∧
      e.name :: e.importNames = known := by
  obtain ⟨e, he, hnames⟩ := Option.map_eq_some_iff.1 h
  simp only [Prod.mk.injEq] at hnames
  exact ⟨e, toOption_eq_some.1 he, hnames.1, hnames.2⟩

/-- A model with one documented property. -/
def documentedModel (type : String) : ModelSource :=
  { space := "A", name := "Tag", table := none, base := none, doc := "@property " ++ type ++ " $x",
    constants := [], members := [], relations := [] }

theorem regular_closure_list : ∃ e, ((documentedModel "Tag[]|null").build {} none { schema := none }).outcome = .ok e ∧
    "Tag" ∈ e.references (.regular {}) ∧ ∀ n ∈ e.references (.regular {}), e.Knows n := by
  have hnames : (documentedModel "Tag[]|null").regularNames {} = some (["string", "Array", "Tag"], ["Tag"]) := by
    decide +kernel
  obtain ⟨e, he, hrefs, hknown⟩ := regularNames_eq_some hnames
  refine ⟨e, he, by rw [hrefs]; decide, (regular_closure_iff he).2.2 ?_⟩
  rw [hrefs, hknown]
  have hclean : ∀ n ∈ ["string", "Array", "Tag"],
      ¬ (n = "undefined" ∨ ∃ s ∈ ["Tag"], n ∈ identifiers s ∧ n ≠ s) := by
    decide +kernel
  exact fun n hn h => absurd h (hclean n hn)

/-- `null` with arguments inside a type is written `undefined`. -/
theorem regular_closure_undefined :
    ∃ e, ((documentedModel "array<null<int>>").build {} none { schema := none }).outcome = .ok e ∧
      "undefined" ∈ e.references (.regular {}) ∧ ¬ e.Knows "undefined" := by
  have hnames : (documentedModel "array<null<int>>").regularNames {} =
      some (["string", "Array", "undefined"], ["Tag"]) := by
    decide +kernel
  obtain ⟨e, he, hrefs, hknown⟩ := regularNames_eq_some hnames
  refine ⟨e, he, by rw [hrefs]; decide, ?_⟩
  rw [Entity.Knows, ← List.mem_cons, hknown]
  decide

end ModelSource

end EntityScript
