import EntityScript.Proofs.Outputs
import EntityScript.Proofs.Registration
/-!
# Names of files

The files of a project are named before anything is built: by its descriptions, the new names of its models and
the tables that its relations go through.
-/

namespace EntityScript.Project

/-- Where the files of an entity go. -/
def entityDir (p : Project) : EntitySource → String
  | .model _ => p.classesDir
  | .enumeration _ => p.enumsDir

/-- What the files of an entity are called. -/
def entityNames (p : Project) : EntitySource → List String
  | .model m => m.name :: if p.config.options.separateNewModels then ["New" ++ m.name] else []
  | .enumeration source => [source.name]

/-- The tables whose interfaces a project writes. -/
def pivotTables (p : Project) : List String :=
  Text.distinct (p.pivotCalls.map (·.pivot.table))

/-- What the interface of a table is called. -/
def pivotName (table : String) : String :=
  PivotInterface.name { table, columns := [] }

/-- The directory and name of each file of a project. -/
def fileNames (p : Project) : List (String × String) :=
  p.sources.flatMap (fun s => (p.entityNames s.entity).map (p.entityDir s.entity, ·)) ++
    p.pivotTables.map fun table => (p.classesDir, pivotName table)

/-- The paths of the files of entities, in order. -/
def entityPaths (p : Project) : List String :=
  p.sources.flatMap fun s => (p.entityNames s.entity).map (outputPath (p.entityDir s.entity))

/-- The path of an output. -/
def pathOf (p : Project) : Output → String
  | .entity e dir ctx => outputPath dir (ctx.rename e.name)
  | .pivot i => outputPath p.classesDir i.name

variable {p : Project} {d : Disk}

theorem path_of_write {o : Output} {f : OutputFile} (h : p.write d o = .ok f) : f.path = p.pathOf o := by
  cases o with
  | entity e dir ctx =>
    simp only [write, renderFile, Logged.outcome_bind, Logged.outcome_pure, bind_eq_ok] at h
    obtain ⟨kept, -, h⟩ := h
    rw [← Except.ok.inj h, pathOf]
  | pivot i =>
    rw [← Except.ok.inj h, pathOf, pivotFile]

/-- The outputs of a description go where it says, under the names that it says. -/
theorem paths_of_sourceOutputs {pivots : PivotRegistry} {s : SourceFile} (hs : s ∈ p.sources) {os : List Output}
    (h : p.sourceOutputs pivots s = .ok os) :
    os.map p.pathOf = (p.entityNames s.entity).map (outputPath (p.entityDir s.entity)) := by
  unfold sourceOutputs at h
  split at h
  · rename_i source he
    obtain ⟨e, hb, rfl⟩ := map_eq_ok.1 h
    simp [pathOf, he, entityNames, entityDir, EnumSource.build_name (mapError_eq_ok.1 hb)]
  · rename_i m he
    obtain ⟨e, hb, rfl⟩ := map_eq_ok.1 h
    have hm : m.name ∈ p.models.map (·.name) :=
      List.mem_map_of_mem (List.mem_filterMap.2 ⟨s, hs, by simp [he, EntitySource.model?]⟩)
    have hnew : p.newContext.rename m.name = "New" ++ m.name := by
      rw [newContext, Context.rename_forNewModels, if_pos hm]
    cases hn : p.config.options.separateNewModels <;>
      simp [pathOf, he, entityNames, entityDir, hn, hnew, ModelSource.build_name (mapError_eq_ok.1 hb)]

/-- The files of entities go where their descriptions say. -/
theorem paths_of_entities {pivots : PivotRegistry} {oss : List (List Output)}
    (h : p.sources.mapM (p.sourceOutputs pivots) = .ok oss) : oss.flatten.map p.pathOf = p.entityPaths := by
  rw [List.map_flatten, map_of_mapM h fun s hs os => paths_of_sourceOutputs hs, entityPaths, List.flatMap]

/-- The interfaces of a project go where its tables say. -/
theorem paths_of_interfaces (p : Project) :
    (registryAfter p.schema p.pivotCalls).interfaces.map (fun i => outputPath p.classesDir i.name) =
      p.pivotTables.map fun table => outputPath p.classesDir (pivotName table) := by
  simp [registryAfter, pivotTables, Function.comp_def, interfaceAfter, PivotInterface.name, pivotName]

/-- The paths of the files of a project do not depend on what the files hold. -/
theorem paths_of_preview {files : List OutputFile} (h : (p.preview d).outcome = .ok files) :
    files.map (·.path) = p.fileNames.map fun f => outputPath f.1 f.2 := by
  obtain ⟨os, ho, hw⟩ := preview_eq_ok.1 h
  simp only [outputs, bind_eq_ok, pivots_eq_ok] at ho
  obtain ⟨pivots, ⟨-, rfl⟩, oss, hs, ho⟩ := ho
  cases ho
  rw [map_of_mapM hw fun o _ f => path_of_write, List.map_append, paths_of_entities hs, List.map_map, Function.comp_def]
  simp only [pathOf, paths_of_interfaces]
  simp [fileNames, entityPaths, List.map_flatMap, Function.comp_def]

end EntityScript.Project
