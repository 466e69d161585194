import EntityScript.Proofs.Closure
import EntityScript.Proofs.Outputs
/-!
# New files that bind what they refer to

In a `New` file models go by their new names, but inside another type a model keeps its own. The file is
closed if and only if it binds each model by the name that is written.
-/

namespace EntityScript

/-! ## Bound names -/

/-- The names that an import line binds. -/
def ModuleImport.names (i : ModuleImport) : List String :=
  i.default?.toList ++ i.named

namespace Entity

/-- The names that the file of a model declares and imports. -/
def boundNames (e : Entity) (ctx : Context) : List String :=
  ctx.rename e.name :: (e.orderedImports ctx).flatMap fun i => (i.inContext ctx).names

/-- Whether a name needs no import, is declared or is bound by an import line. -/
def Binds (e : Entity) (ctx : Context) (n : String) : Prop :=
  n ∈ "undefined" :: builtins ∨ n ∈ e.boundNames ctx

end Entity

/-- A word reads as itself. -/
theorem IsWord.identifiers {name : String} (h : IsWord name) : identifiers name = [name] :=
  identifiers_of_name h.1 h.isNameChar

/-! ## Types in New files -/

namespace Project

variable {p : Project} {d : Disk} {config : String}

theorem isWord_of_mem_models (hp : openAt d config = .ok p) {name : String} (h : name ∈ p.models.map (·.name)) :
    IsWord name := by
  obtain ⟨m, hm, rfl⟩ := List.mem_map.1 h
  obtain ⟨s, hs, hsm⟩ := List.mem_filterMap.1 hm
  have hword := isWord_of_openAt hp s hs
  cases hentity : s.entity with
  | model m' =>
    rw [hentity] at hsm hword
    obtain rfl := Option.some.inj hsm
    exact hword
  | enumeration e =>
    rw [hentity] at hsm
    cases hsm

/-- An import that is no utility binds its symbol in a `New` file, unless that is a model. -/
theorem mem_boundNames_of_import {e : Entity} {i : EntityImport} (hi : i ∈ e.imports) (hu : i.isUtility = false)
    (hn : i.origin = .entity → i.symbol ∉ p.models.map (·.name)) : i.symbol ∈ e.boundNames p.newContext := by
  refine List.mem_cons_of_mem _ (List.mem_flatMap.2 ⟨i, ?_, ?_⟩)
  · exact List.mem_append_right _ (List.mem_filter.2 ⟨hi, by simp [hu]⟩)
  · unfold ModuleImport.names EntityImport.inContext
    cases ho : i.origin with
    | utility => simp [EntityImport.isUtility, ho] at hu
    | entity => simp [newContext, Context.rename_forNewModels, hn ho]
    | base => simp
    | pivot => simp

variable {t : Descriptor} {n : String}

/-- A model that is a type is written by one word, its new name or that of dates. -/
theorem identifiers_nameText_of_model (hp : openAt d config = .ok p) (h : t.name ∈ p.models.map (·.name)) :
    identifiers (t.nameText p.newContext) = [t.nameText p.newContext] := by
  refine IsWord.identifiers ?_
  unfold Descriptor.nameText
  split
  · decide
  · rw [newContext, Context.rename_forNewModels, if_pos h]
    exact IsWord.append (by decide) (isWord_of_mem_models hp h)

/-- Of the names in a type that is no model, all stay as they are. -/
theorem identifiers_nameText_of_not_model (h : t.name ∉ p.models.map (·.name)) :
    n ∈ identifiers (t.nameText p.newContext) → n = "string" ∨ n ∈ identifiers t.name := by
  intro hn
  unfold Descriptor.nameText at hn
  split at hn
  · rw [identifiers_of_builtin (by decide), List.mem_singleton] at hn
    exact .inl hn
  · rw [newContext, Context.rename_forNewModels, if_neg h] at hn
    exact .inr hn

/-- A model in a type is written by its new name, if it is the type, and else by its own. -/
theorem mem_identifiers_nameText (hp : openAt d config = .ok p) (hn : n ∈ identifiers t.name)
    (hmodel : n ∈ p.models.map (·.name)) :
    (if t.name = n then t.nameText p.newContext else n) ∈ identifiers (t.nameText p.newContext) := by
  split
  · rename_i heq
    subst heq
    rw [identifiers_nameText_of_model hp hmodel]
    simp
  · rename_i hne
    have hname : t.name ∉ p.models.map (·.name) := by
      intro hmem
      rw [(isWord_of_mem_models hp hmem).identifiers, List.mem_singleton] at hn
      exact hne hn.symm
    have hdate : t.isDate = false := by
      cases hd : t.isDate with
      | false => rfl
      | true =>
        have ht : t.name = "Date" := by simpa [Descriptor.isDate] using hd
        rw [ht, identifiers_of_builtin (by decide), List.mem_singleton] at hn
        exact absurd (ht.trans hn.symm) hne
    rw [Descriptor.nameText, hdate, newContext, Context.rename_forNewModels, if_neg hname]
    exact hn

theorem binds_or_part {e : Entity} {ctx : Context} {i : EntityImport} (hi : i ∈ e.imports)
    (hn : n ∈ identifiers i.symbol) (hb : n = i.symbol → i.symbol ∈ e.boundNames ctx) :
    e.Binds ctx n ∨ ∃ i ∈ e.imports, n ∈ identifiers i.symbol ∧ n ≠ i.symbol := by
  by_cases heq : n = i.symbol
  · refine .inl (.inr ?_)
    rw [heq]
    exact hb heq
  · exact .inr ⟨i, hi, hn, heq⟩

/-- A name in a type of a `New` file that is no model is bound or a part of a symbol. -/
theorem binds_of_not_model (hp : openAt d config = .ok p) {m : ModelSource} (hm : m ∈ p.models)
    {pivots : PivotRegistry} {e : Entity} (h : (m.build p.config.options p.schema pivots).outcome = .ok e) {x : Member}
    (hx : x ∈ e.members) (ht : t ∈ x.writtenTypes) (hn : n ∈ identifiers t.name)
    (hmodel : n ∉ p.models.map (·.name)) :
    e.Binds p.newContext n ∨ ∃ i ∈ e.imports, n ∈ identifiers i.symbol ∧ n ≠ i.symbol := by
  rcases ModelSource.identifiers_of_build h hx ht hn with hb | rfl | hs | ⟨i, hi, hu, hs⟩
  · exact .inl (.inl (List.mem_cons_of_mem _ hb))
  · exact .inl (.inl List.mem_cons_self)
  · have hself : e.name ∈ p.models.map (·.name) := by
      rw [ModelSource.build_name h]
      exact List.mem_map_of_mem hm
    rw [(isWord_of_mem_models hp hself).identifiers, List.mem_singleton] at hs
    exact absurd (hs ▸ hself) hmodel
  · refine binds_or_part hi hs fun heq => mem_boundNames_of_import hi hu fun _ => ?_
    rw [← heq]
    exact hmodel

/-- What a `New` file refers to, in four cases. -/
theorem references_of_new (hp : openAt d config = .ok p) {m : ModelSource} (hm : m ∈ p.models)
    {pivots : PivotRegistry} {e : Entity} (h : (m.build p.config.options p.schema pivots).outcome = .ok e)
    (hn : n ∈ e.references p.newContext) :
    e.Binds p.newContext n ∨
    (∃ x ∈ e.bodyMembers p.newContext, ∃ t ∈ x.writtenTypes, t.name ∈ p.models.map (·.name) ∧
      n = t.nameText p.newContext) ∨
    (∃ x ∈ e.bodyMembers p.newContext, ∃ t ∈ x.writtenTypes, n ∈ identifiers t.name ∧ t.name ≠ n ∧
      n ∈ p.models.map (·.name)) ∨
    ∃ i ∈ e.imports, n ∈ identifiers i.symbol ∧ n ≠ i.symbol := by
  rcases Entity.references_cases hn with hb | ⟨x, hx, t, ht, ⟨hw, -⟩ | hmem⟩ | ⟨base, hb, hmem⟩
  · exact .inl (.inl (List.mem_cons_of_mem _ hb))
  · simp [Descriptor.wraps, newContext] at hw
  · by_cases hname : t.name ∈ p.models.map (·.name)
    · rw [identifiers_nameText_of_model hp hname, List.mem_singleton] at hmem
      exact .inr (.inl ⟨x, hx, t, ht, hname, hmem⟩)
    · rcases identifiers_nameText_of_not_model hname hmem with rfl | hmem
      · exact .inl (.inl (by decide))
      · by_cases hmodel : n ∈ p.models.map (·.name)
        · exact .inr (.inr (.inl ⟨x, hx, t, ht, hmem, fun heq => hname (heq ▸ hmodel), hmodel⟩))
        · rcases binds_of_not_model hp hm h (List.mem_filter.1 hx).1 ht hmem hmodel with hb | hpart
          · exact .inl hb
          · exact .inr (.inr (.inr hpart))
  · have hi := ModelSource.base_of_build h hb
    have hbound : base ∈ e.boundNames p.newContext :=
      mem_boundNames_of_import hi rfl (by simp [EntityImport.sibling])
    rcases binds_or_part hi hmem fun _ => hbound with hb | hpart
    · exact .inl hb
    · exact .inr (.inr (.inr hpart))

/-- A `New` file binds all that it refers to if and only if it binds each model that a type is by its new
name and each model inside a type by its own, and the parts of symbols that are no identifiers. -/
theorem new_closure_iff (hp : openAt d config = .ok p) {m : ModelSource} (hm : m ∈ p.models)
    {pivots : PivotRegistry} {e : Entity} (h : (m.build p.config.options p.schema pivots).outcome = .ok e) :
    (∀ n ∈ e.references p.newContext, e.Binds p.newContext n) ↔
      (∀ x ∈ e.bodyMembers p.newContext, ∀ t ∈ x.writtenTypes, ∀ n ∈ identifiers t.name,
        n ∈ p.models.map (·.name) → e.Binds p.newContext (if t.name = n then t.nameText p.newContext else n)) ∧
      ∀ n ∈ e.references p.newContext, (∃ i ∈ e.imports, n ∈ identifiers i.symbol ∧ n ≠ i.symbol) →
        e.Binds p.newContext n := by
  constructor
  · intro hall
    refine ⟨fun x hx t ht n hn hmodel => ?_, fun n hn _ => hall n hn⟩
    exact hall _ (Entity.mem_references_of_type hx ht (mem_identifiers_nameText hp hn hmodel))
  · rintro ⟨htypes, hparts⟩ n hn
    rcases references_of_new hp hm h hn with hb | ⟨x, hx, t, ht, hname, rfl⟩ | ⟨x, hx, t, ht, hmem, hne, hmodel⟩ | hi
    · exact hb
    · have hself : t.name ∈ identifiers t.name := by simp [(isWord_of_mem_models hp hname).identifiers]
      simpa using htypes x hx t ht t.name hself hname
    · simpa [hne] using htypes x hx t ht n hmem hmodel
    · exact hparts n hn hi

/-- What the `New` file of the first model of a project refers to and the names that it binds. -/
def newNames (d : Disk) (config : String) : Option (List String × List String) := do
  let p ← (openAt d config).toOption
  let m ← p.models.head?
  let pivots ← p.pivots.toOption
  let e ← (m.build p.config.options p.schema pivots).outcome.toOption
  return (e.references p.newContext, e.boundNames p.newContext)

theorem newNames_eq_some {refs bound : List String} (h : newNames d config = some (refs, bound)) :
    ∃ p m pivots e, openAt d config = .ok p ∧ m ∈ p.models ∧ p.pivots = .ok pivots ∧
      (m.build p.config.options p.schema pivots).outcome = .ok e ∧ e.references p.newContext = refs ∧
      e.boundNames p.newContext = bound := by
  simp only [newNames, Option.bind_eq_bind, Option.bind_eq_some_iff, Option.pure_def, Option.some.injEq,
    Prod.mk.injEq, toOption_eq_some] at h
  obtain ⟨p, hp, m, hm, pivots, hr, e, he, hrefs, hbound⟩ := h
  exact ⟨p, m, pivots, e, hp, List.mem_of_head? hm, hr, he, hrefs, hbound⟩

/-- A project of one model with one documented property, with `New` files. -/
def oneModel (type : String) : Disk :=
  { entries := [
      (["t.toml"], .text ("[output]\nclasses=\"o\"\nenums=\"o\"\n[sources]\nentities=[\"m.toml\"]\n" ++
        "[options]\nseparate_new_models=true\n")),
      (["m.toml"], .text ("namespace=\"A\"\nname=\"Tag\"\ndoc=\"@property " ++ type ++ " $x\"\n"))] }

theorem new_closure_self : ∃ p m pivots e, openAt (oneModel "Tag") "t.toml" = .ok p ∧ m ∈ p.models ∧
    p.pivots = .ok pivots ∧ (m.build p.config.options p.schema pivots).outcome = .ok e ∧
    "NewTag" ∈ e.references p.newContext ∧
    ∀ x ∈ e.bodyMembers p.newContext, ∀ t ∈ x.writtenTypes, ∀ n ∈ identifiers t.name,
      n ∈ p.models.map (·.name) → e.Binds p.newContext (if t.name = n then t.nameText p.newContext else n) := by
  have hnames : newNames (oneModel "Tag") "t.toml" = some (["string", "NewTag"], ["NewTag"]) := by decide +kernel
  obtain ⟨p, m, pivots, e, hp, hm, hr, he, hrefs, hbound⟩ := newNames_eq_some hnames
  refine ⟨p, m, pivots, e, hp, hm, hr, he, by rw [hrefs]; decide, ((new_closure_iff hp hm he).1 ?_).1⟩
  unfold Entity.Binds
  rw [hrefs, hbound]
  decide

/-- A model inside a type keeps its name, which its own `New` file does not bind. -/
theorem new_closure_list : ∃ p m pivots e, openAt (oneModel "Tag[]") "t.toml" = .ok p ∧ m ∈ p.models ∧
    p.pivots = .ok pivots ∧ (m.build p.config.options p.schema pivots).outcome = .ok e ∧
    "Tag" ∈ e.references p.newContext ∧ ¬ e.Binds p.newContext "Tag" := by
  have hnames : newNames (oneModel "Tag[]") "t.toml" = some (["string", "Array", "Tag"], ["NewTag"]) := by
    decide +kernel
  obtain ⟨p, m, pivots, e, hp, hm, hr, he, hrefs, hbound⟩ := newNames_eq_some hnames
  refine ⟨p, m, pivots, e, hp, hm, hr, he, by rw [hrefs]; decide, ?_⟩
  unfold Entity.Binds
  rw [hbound]
  decide

end Project

end EntityScript
