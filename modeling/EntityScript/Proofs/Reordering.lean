import EntityScript.Proofs.Outputs
import EntityScript.Proofs.PivotUses
/-!
# Sources in another order

The sources of a project are registered, renamed and rendered in turn. What one of them becomes does not
depend on its turn, so another order of the sources is another order of the same files.
-/

namespace EntityScript

/-! ## Contexts that write alike -/

/-- Contexts that differ at most in how they list the new names. -/
structure Context.Alike (ctx ctx' : Context) : Prop where
  options : ctx.options = ctx'.options
  newModel : ctx.newModel = ctx'.newModel
  forceOptional : ctx.forceOptional = ctx'.forceOptional
  rename (n : String) : ctx.rename n = ctx'.rename n

section Alike

variable {ctx ctx' : Context} (h : ctx.Alike ctx')
include h

theorem Context.Alike.interface : ctx.interface = ctx'.interface :=
  congrArg Options.interface h.options

theorem Context.Alike.terminator : ctx.terminator = ctx'.terminator :=
  congrArg Options.terminator h.options

theorem Descriptor.text_alike (d : Descriptor) : d.text ctx = d.text ctx' := by
  simp only [text, elementText, nameText, h.options, h.newModel, h.interface, h.rename]

theorem EntityImport.inContext_alike (i : EntityImport) : i.inContext ctx = i.inContext ctx' := by
  simp only [inContext, h.interface, h.rename]

theorem ServiceMethod.object_alike (name : String) (methods : List ServiceMethod) :
    object name methods ctx = object name methods ctx' := by
  simp only [object, body, h.terminator]

namespace Member

variable (m : Member)

theorem typeText_alike : m.typeText ctx = m.typeText ctx' := by
  simp only [typeText, Descriptor.text_alike h]

theorem isMarked_alike : m.isMarked ctx = m.isMarked ctx' := by
  rw [isMarked, isMarked, h.forceOptional, h.interface]

theorem initialText?_alike : m.initialText? ctx = m.initialText? ctx' := by
  rw [initialText?, initialText?, h.options]

theorem modifiers_alike : m.modifiers ctx = m.modifiers ctx' := by
  rw [modifiers, modifiers, h.interface]

theorem assignment_alike : m.assignment ctx = m.assignment ctx' := by
  rw [assignment, assignment, h.interface, m.initialText?_alike h]

theorem text_alike : m.text ctx = m.text ctx' := by
  rw [text, text, m.modifiers_alike h, m.isMarked_alike h, m.typeText_alike h, m.assignment_alike h]

end Member

namespace Entity

variable (e : Entity)

theorem orderedImports_alike : e.orderedImports ctx = e.orderedImports ctx' := by
  rw [orderedImports, orderedImports, h.newModel]

theorem assignment?_alike : assignment? ctx = assignment? ctx' := by
  funext m
  simp only [assignment?, initializer?, h.terminator, h.rename]

theorem constructor_alike (name : String) : e.constructor name ctx = e.constructor name ctx' := by
  rw [constructor, constructor, h.terminator, assignment?_alike h]

theorem bodyMembers_alike : e.bodyMembers ctx = e.bodyMembers ctx' := by
  rw [bodyMembers, bodyMembers, h.interface]

theorem constants_alike (name : String) : e.constants name ctx = e.constants name ctx' := by
  simp only [constants, Member.initialText?_alike h]

theorem importFragments_alike : e.importFragments ctx = e.importFragments ctx' := by
  rw [importFragments, importFragments, e.orderedImports_alike h, h.options]
  simp only [EntityImport.inContext_alike h]

theorem header_alike (name : String) : e.header name ctx = e.header name ctx' := by
  unfold header
  rw [h.interface]

theorem bodyFragments_alike (name : String) : e.bodyFragments name ctx = e.bodyFragments name ctx' := by
  rw [bodyFragments, bodyFragments, e.bodyMembers_alike h, e.constructor_alike h, h.interface, h.terminator, h.options]
  simp only [Member.text_alike h]

theorem endFragments_alike (name : String) : e.endFragments name ctx = e.endFragments name ctx' := by
  rw [endFragments, endFragments, e.constants_alike h, h.interface]

theorem modelFragments_alike : e.modelFragments ctx = e.modelFragments ctx' := by
  rw [modelFragments, modelFragments, h.rename, e.importFragments_alike h, e.header_alike h, e.bodyFragments_alike h,
    e.endFragments_alike h]

theorem enumFragments_alike : e.enumFragments ctx = e.enumFragments ctx' := by
  rw [enumFragments, enumFragments, ServiceMethod.object_alike h]

/-- An entity is written alike in contexts that are. -/
theorem render_alike : e.render ctx = e.render ctx' := by
  rw [render, render, fragments, fragments, e.enumFragments_alike h, e.modelFragments_alike h, h.options]

end Entity

theorem Project.renderFile_alike (d : Disk) (e : Entity) (dir : String) :
    renderFile d e dir ctx = renderFile d e dir ctx' := by
  simp only [renderFile, h.rename, Entity.render_alike h]

end Alike

/-- The order of the models is not in their new names. -/
theorem Context.forNewModels_alike (o : Options) {names names' : List String} (h : names'.Perm names) :
    (forNewModels o names').Alike (forNewModels o names) where
  options := by simp
  newModel := by simp
  forceOptional := by
    obtain ⟨renames, hr⟩ := foldl_withRename_eq names (newModels o)
    obtain ⟨renames', hr'⟩ := foldl_withRename_eq names' (newModels o)
    rw [forNewModels, forNewModels, hr, hr']
  rename n := by simp only [rename_forNewModels, h.mem_iff]

/-! ## Registries that show alike -/

/-- Registries that show the same columns of the same tables. -/
structure PivotRegistry.Alike (r r' : PivotRegistry) : Prop where
  schema : r.schema = r'.schema
  get? (table : String) : Option.Rel PivotInterface.Alike (r.get? table) (r'.get? table)

/-- The order of calls does not change what a registry shows. -/
theorem registryAfter_alike (schema : Option Schema) {calls calls' : List PivotCall} (h : calls'.Perm calls) :
    (registryAfter schema calls').Alike (registryAfter schema calls) where
  schema := rfl
  get? table := by
    simp only [PivotRegistry.get?_registryAfter, (h.map (·.pivot.table)).mem_iff]
    split
    · exact .some (interfaceAfter_perm h)
    · exact .none

theorem PivotInterface.Alike.render_eq {i i' : PivotInterface} (h : i.Alike i') (o : Options) :
    i.render o = i'.render o := by
  simp only [render, fragments, name, h.table, h.fields_eq]

section Build

variable {r r' : PivotRegistry} (h : r.Alike r')
include h

theorem PivotRegistry.reference_alike (relation : String) (pivot : PivotSource) :
    r.reference relation pivot = r'.reference relation pivot := by
  have hselect : r.select relation pivot = r'.select relation pivot := by simp only [select, h.schema]
  have hget := h.get? pivot.table
  unfold reference
  rw [hselect]
  generalize r.get? pivot.table = i at hget ⊢
  generalize r'.get? pivot.table = i' at hget ⊢
  cases hget with
  | none => rfl
  | some hi => simp only [PivotInterface.name, hi.table, hi.contains_eq]

/-- A model is built alike with registries that show alike. -/
theorem ModelSource.build_alike (m : ModelSource) (o : Options) (schema : Option Schema) :
    m.build o schema r = m.build o schema r' := by
  simp only [build, pivotUses, PivotRegistry.reference_alike h]

end Build

/-! ## Projects -/

namespace Project

variable {p : Project} {d : Disk} {files : List OutputFile}

theorem allSourceFiles_eq_ok_flatten {pivots : PivotRegistry} {sources : List SourceFile} :
    (p.allSourceFiles d pivots sources).outcome = .ok files ↔
      ∃ fss, (sources.mapM fun s => (p.sourceFiles d pivots s).outcome) = .ok fss ∧ fss.flatten = files := by
  induction sources generalizing files with
  | nil =>
    refine ⟨fun h => ⟨[], rfl, Except.ok.inj h⟩, ?_⟩
    rintro ⟨_, h, rfl⟩
    cases h
    rfl
  | cons s sources ih =>
    simp only [allSourceFiles, Logged.outcome_bind, Logged.outcome_pure, bind_eq_ok, List.mapM_cons, ih]
    constructor
    · rintro ⟨fs, hs, gs, ⟨fss, hfss, rfl⟩, h⟩
      cases h
      exact ⟨fs :: fss, ⟨fs, hs, fss, hfss, rfl⟩, rfl⟩
    · rintro ⟨_, ⟨fs, hs, fss, hfss, h⟩, rfl⟩
      cases h
      exact ⟨fs, hs, _, ⟨fss, hfss, rfl⟩, rfl⟩

/-- The interfaces are written alike after the same calls in another order. -/
theorem pivotFiles_perm (p : Project) (schema : Option Schema) {calls calls' : List PivotCall}
    (h : calls'.Perm calls) : ((registryAfter schema calls').interfaces.map p.pivotFile).Perm
      ((registryAfter schema calls).interfaces.map p.pivotFile) := by
  have hfile (table : String) : p.pivotFile (interfaceAfter schema calls' table) =
      p.pivotFile (interfaceAfter schema calls table) := by
    have halike : (interfaceAfter schema calls' table).Alike (interfaceAfter schema calls table) :=
      interfaceAfter_perm h
    rw [pivotFile, pivotFile, halike.render_eq, PivotInterface.name, PivotInterface.name, halike.table]
  simp only [registryAfter, List.map_map, Function.comp_def, hfile]
  exact (Text.distinct_perm (h.map (·.pivot.table))).map _

/-- A description becomes the same files, whatever the order in which the models are registered and renamed. -/
theorem sourceFiles_alike {sources : List SourceFile} (h : sources.Perm p.sources) {r r' : PivotRegistry}
    (hr : r'.Alike r) (s : SourceFile) : { p with sources }.sourceFiles d r' s = p.sourceFiles d r s := by
  have hctx : Context.Alike { p with sources }.newContext p.newContext :=
    Context.forNewModels_alike _ ((h.filterMap _).map _)
  unfold sourceFiles
  simp only [ModelSource.build_alike hr, renderFile_alike hctx]
  rfl

/-- A project that can be rendered gives the same files in another order of its sources. -/
theorem preview_of_perm {sources : List SourceFile} (h : sources.Perm p.sources)
    (hf : (p.preview d).outcome = .ok files) :
    ∃ files', ({ p with sources }.preview d).outcome = .ok files' ∧ files'.Perm files := by
  have hcalls : { p with sources }.pivotCalls.Perm p.pivotCalls := (h.filterMap _).flatMap_right _
  simp only [preview, Logged.outcome_bind, Logged.outcome_pure, Logged.outcome_ofExcept, Logged.outcome_tellAll,
    bind_eq_ok, pivots_eq_ok, allSourceFiles_eq_ok_flatten] at hf ⊢
  obtain ⟨r, ⟨hall, rfl⟩, _, ⟨fss, hfss, rfl⟩, _, -, hok⟩ := hf
  cases hok
  obtain ⟨fss', hfss', hperm⟩ := mapM_perm h hfss
  refine ⟨_, ⟨_, ⟨fun c hc => hall c (hcalls.mem_iff.1 hc), rfl⟩, _, ⟨fss', ?_, rfl⟩, (), trivial, rfl⟩, ?_⟩
  · simp only [sourceFiles_alike h (registryAfter_alike p.schema hcalls), hfss']
  · exact hperm.flatten.append (pivotFiles_perm p p.schema hcalls)

/-- The order of the sources does not matter: a project is rendered or not whatever their order, and another
order gives the same files in another order. -/
theorem preview_perm (p : Project) {sources : List SourceFile} (h : sources.Perm p.sources) (d : Disk) :
    ((∃ files, ({ p with sources }.preview d).outcome = .ok files) ↔ ∃ files, (p.preview d).outcome = .ok files) ∧
    ∀ files files', (p.preview d).outcome = .ok files → ({ p with sources }.preview d).outcome = .ok files' →
      files'.Perm files := by
  refine ⟨⟨fun ⟨files, hf⟩ => ?_, fun ⟨files, hf⟩ => ?_⟩, fun files files' hf hf' => ?_⟩
  · obtain ⟨files', hf', -⟩ := preview_of_perm h.symm hf
    exact ⟨files', hf'⟩
  · obtain ⟨files', hf', -⟩ := preview_of_perm h hf
    exact ⟨files', hf'⟩
  · obtain ⟨files'', hf'', hperm⟩ := preview_of_perm h hf
    rwa [Except.ok.inj (hf'.symm.trans hf'')]

/-- A project of models that relate through `team_user`, with `New` files. -/
def teamUserProject : Project :=
  { root := ""
    config := { classes := "o", enums := "o", entities := [], schema := none,
                options := { separateNewModels := true } }
    sources := PivotRegistry.teamUserModels.map fun m => { path := m.name ++ ".toml", entity := .model m }
    schema := some PivotRegistry.teamUser }

/-- The last source may come first. -/
theorem teamUser_perm : ∃ files files', (teamUserProject.preview {}).outcome = .ok files ∧
    ({ teamUserProject with sources := teamUserProject.sources.reverse }.preview {}).outcome = .ok files' ∧
    files.map (·.path) = ["o/Team.ts", "o/NewTeam.ts", "o/User.ts", "o/NewUser.ts", "o/TeamUserPivot.ts"] ∧
    files' ≠ files ∧ files'.Perm files := by
  have hpaths : (teamUserProject.preview {}).outcome.toOption.map (·.map (·.path)) =
      some ["o/Team.ts", "o/NewTeam.ts", "o/User.ts", "o/NewUser.ts", "o/TeamUserPivot.ts"] := by
    decide +kernel
  obtain ⟨files, hf, hpaths⟩ := Option.map_eq_some_iff.1 hpaths
  obtain ⟨hiff, hperm⟩ := preview_perm teamUserProject (List.reverse_perm _) {}
  obtain ⟨files', hf'⟩ := hiff.2 ⟨files, toOption_eq_some.1 hf⟩
  refine ⟨files, files', toOption_eq_some.1 hf, hf', hpaths, ?_, hperm _ _ (toOption_eq_some.1 hf) hf'⟩
  rintro rfl
  have hne : ({ teamUserProject with sources := teamUserProject.sources.reverse }.preview {}).outcome.toOption ≠
      (teamUserProject.preview {}).outcome.toOption := by
    decide +kernel
  exact hne ((toOption_eq_some.2 hf').trans hf.symm)

end Project

end EntityScript
