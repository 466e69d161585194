import EntityScript.Proofs.Idempotence
import EntityScript.Proofs.Overwriting
import EntityScript.Proofs.Reordering
/-!
# What a file takes from the disk

The files of a project are rendered one after another, and each reads the disk before. All that it takes from
there are the hand-written regions at its own path, so what other files hold does not come into it.
-/

namespace EntityScript.Project

/-- What stands at the paths of the files of entities, if anything, can be read. -/
def Readable (p : Project) (d : Disk) : Prop :=
  ∀ path ∈ p.entityPaths, ∃ existing, OutputFile.readExisting d path = .ok existing

variable {p : Project} {d d' : Disk}

theorem keptAt_of_readExisting {path : String} {existing : Option String}
    (h : OutputFile.readExisting d path = .ok existing) : (keptAt d path).outcome = .ok (d.keptOn path) := by
  cases hk : (keptAt d path).outcome with
  | ok kept => rw [keptAt_eq_ok hk]
  | error e =>
    rw [keptAt, h] at hk
    cases existing with
    | none => cases hk
    | some content =>
      simp only at hk
      split at hk <;> cases hk

theorem write_of_readable {o : Output} (h : ∃ existing, OutputFile.readExisting d (p.pathOf o) = .ok existing) :
    p.write d o = .ok (p.fileOn d o) := by
  obtain ⟨existing, hread⟩ := h
  cases o with
  | entity e dir ctx =>
    have hkept := keptAt_of_readExisting hread
    rw [pathOf] at hkept
    simp only [write, renderFile, Logged.outcome_bind, Logged.outcome_pure, hkept]
    rfl
  | pivot i => rfl

/-- A description becomes files without a fault of the disk, if it becomes files at all. -/
theorem sourceFiles_of_readable (h : p.Readable d) {s : SourceFile} (hs : s ∈ p.sources) (pivots : PivotRegistry) :
    (p.sourceFiles d pivots s).outcome = (p.sourceOutputs pivots s).map (·.map (p.fileOn d)) := by
  rw [outcome_sourceFiles]
  cases ho : p.sourceOutputs pivots s with
  | error e => rfl
  | ok os =>
    refine mapM_eq_ok.2 ?_
    rw [List.forall₂_map_right_iff, List.forall₂_same]
    intro o hmem
    refine write_of_readable (h (p.pathOf o) (List.mem_flatMap.2 ⟨s, hs, ?_⟩))
    rw [← paths_of_sourceOutputs hs ho]
    exact List.mem_map_of_mem hmem

theorem allSourceFiles_of_readable (h : p.Readable d) (pivots : PivotRegistry) {sources : List SourceFile}
    (hs : ∀ s ∈ sources, s ∈ p.sources) : (p.allSourceFiles d pivots sources).outcome =
      (sources.mapM (p.sourceOutputs pivots)).map fun os => os.flatten.map (p.fileOn d) := by
  induction sources with
  | nil => rfl
  | cons s sources ih =>
    rw [List.forall_mem_cons] at hs
    simp only [allSourceFiles, Logged.outcome_bind, Logged.outcome_pure, sourceFiles_of_readable h hs.1, ih hs.2,
      List.mapM_cons]
    cases p.sourceOutputs pivots s with
    | error e => rfl
    | ok os =>
      cases sources.mapM (p.sourceOutputs pivots) with
      | error e => rfl
      | ok more => simp [Except.map, Bind.bind, Except.bind, Pure.pure, Except.pure]

/-- Where the files of entities can be read, a project is rendered as its outputs with what the disk holds, and
what keeps it from being rendered is not the disk. -/
theorem preview_of_readable (h : p.Readable d) :
    (p.preview d).outcome = p.outputs.map (·.map (p.fileOn d)) := by
  simp only [preview, outputs, Logged.outcome_bind, Logged.outcome_pure, Logged.outcome_ofExcept,
    Logged.outcome_tellAll, allSourceFiles_of_readable h _ fun _ hs => hs]
  cases p.pivots with
  | error e => rfl
  | ok pivots =>
    simp only [Bind.bind, Except.bind]
    cases p.sources.mapM (p.sourceOutputs pivots) with
    | error e => rfl
    | ok os => simp [Except.map, Pure.pure, Except.pure, fileOn]

/-- The files of the pivot interfaces of a project, which need no disk. -/
def interfaceFiles (p : Project) : List OutputFile :=
  (registryAfter p.schema p.pivotCalls).interfaces.map p.pivotFile

theorem paths_of_interfaceFiles (p : Project) : p.interfaceFiles.map (·.path) =
    p.pivotTables.map fun table => outputPath p.classesDir (pivotName table) := by
  simp only [← p.paths_of_interfaces, interfaceFiles, List.map_map, Function.comp_def, pivotFile]

/-- The outputs of a project are those of its descriptions and then its interfaces. -/
theorem entities_of_outputs {os : List Output} (h : p.outputs = .ok os) :
    p.pivots = .ok (registryAfter p.schema p.pivotCalls) ∧
    ∃ oss, p.sources.mapM (p.sourceOutputs (registryAfter p.schema p.pivotCalls)) = .ok oss ∧
      os = oss.flatten ++ (registryAfter p.schema p.pivotCalls).interfaces.map .pivot := by
  simp only [outputs, bind_eq_ok] at h
  obtain ⟨pivots, hp, oss, hs, h⟩ := h
  obtain rfl := (pivots_eq_ok.1 hp).2
  exact ⟨hp, oss, hs, (Except.ok.inj h).symm⟩

theorem fileOn_outputs (p : Project) (d : Disk) (os : List Output) :
    (os ++ (registryAfter p.schema p.pivotCalls).interfaces.map Output.pivot).map (p.fileOn d) =
      os.map (p.fileOn d) ++ p.interfaceFiles := by
  rw [List.map_append, List.map_map, interfaceFiles]
  exact congrArg _ (List.map_congr_left fun _ _ => rfl)

theorem path_of_fileOn (p : Project) (d : Disk) (o : Output) : (p.fileOn d o).path = p.pathOf o := by
  cases o with
  | entity e dir ctx => rw [fileOn, pathOf]
  | pivot i => rw [fileOn, pathOf, pivotFile]

theorem fileOn_congr {o : Output} (h : d.keptOn (p.fileOn d o).path = d'.keptOn (p.fileOn d o).path) :
    (p.fileOn d o).content = (p.fileOn d' o).content := by
  cases o with
  | entity e dir ctx =>
    simp only [fileOn] at h ⊢
    rw [h]
  | pivot i => rfl

/-! ## Two disks -/

/-- The two files of a model that has a `New` file, each with the regions of the file that it replaces. -/
structure ShowsModel (p : Project) (d : Disk) (m : ModelSource) (e : Entity) (files : List OutputFile) : Prop where
  regular :
    { path := outputPath p.classesDir m.name
      content := (e.withKept (d.keptOn (outputPath p.classesDir m.name))).render (.regular p.config.options) } ∈ files
  new :
    { path := outputPath p.classesDir ("New" ++ m.name)
      content := (e.withKept (d.keptOn (outputPath p.classesDir ("New" ++ m.name)))).render p.newContext } ∈ files

theorem ShowsModel.mono {m : ModelSource} {e : Entity} {files more : List OutputFile} (h : p.ShowsModel d m e files)
    (hsub : files ⊆ more) : p.ShowsModel d m e more :=
  ⟨hsub h.regular, hsub h.new⟩

/-- The outputs of a description of a model, with its `New` file. -/
theorem showsModel_of_sourceOutputs {pivots : PivotRegistry} {s : SourceFile} {m : ModelSource}
    (hm : m ∈ p.models) (he : s.entity = .model m) (hnew : p.config.options.separateNewModels = true)
    {os : List Output} (h : p.sourceOutputs pivots s = .ok os) :
    ∃ e, (m.build p.config.options p.schema pivots).outcome = .ok e ∧
      ∀ d, p.ShowsModel d m e (os.map (p.fileOn d)) := by
  simp only [sourceOutputs, he, hnew, if_true] at h
  obtain ⟨e, hb, rfl⟩ := map_eq_ok.1 h
  have hbuilt := mapError_eq_ok.1 hb
  have hname : e.name = m.name := ModelSource.build_name hbuilt
  have hrename : p.newContext.rename m.name = "New" ++ m.name := by
    rw [newContext, Context.rename_forNewModels, if_pos (List.mem_map_of_mem hm)]
  refine ⟨e, hbuilt, fun d => ⟨?_, ?_⟩⟩
  · simp [fileOn, hname]
  · simp [fileOn, hname, hrename]

/-- A file and the `New` file of one model stand in different places. -/
theorem placeOf_ne_new {dir name : String} (h : IsWord name) :
    Disk.placeOf (outputPath dir name) ≠ Disk.placeOf (outputPath dir ("New" ++ name)) := by
  rw [placeOf_outputPath_of_isWord h, placeOf_outputPath_of_isWord (IsWord.append (by decide) h)]
  intro heq
  simp only [List.append_cancel_left_eq, List.cons.injEq, and_true, String.append_left_inj] at heq
  exact new_ne name heq

/-- Two disks on which the files of entities can be read lead to the same failure or to the same files, but for
what is hand-written: a file of an entity is the same if the regions at its own path are, and a pivot interface
always is. Of the two files of a model, each holds the regions of its own path. -/
theorem preview_takes_own_regions (p : Project) {d d' : Disk} (h : p.Readable d) (h' : p.Readable d') :
    (∃ error, (p.preview d).outcome = .error error ∧ (p.preview d').outcome = .error error) ∨
    ∃ files files' interfaces, (p.preview d).outcome = .ok (files ++ interfaces) ∧
      (p.preview d').outcome = .ok (files' ++ interfaces) ∧
      files.map (·.path) = p.entityPaths ∧
      interfaces.map (·.path) = p.pivotTables.map (fun table => outputPath p.classesDir (pivotName table)) ∧
      List.Forall₂ (fun f f' => f.path = f'.path ∧
        (d.keptOn f.path = d'.keptOn f.path → f.content = f'.content)) files files' ∧
      (p.config.options.separateNewModels = true → ∀ m ∈ p.models,
        (∃ pivots e, p.pivots = .ok pivots ∧ (m.build p.config.options p.schema pivots).outcome = .ok e ∧
          p.ShowsModel d m e files ∧ p.ShowsModel d' m e files') ∧
        (IsWord m.name → Disk.placeOf (outputPath p.classesDir m.name) ≠
          Disk.placeOf (outputPath p.classesDir ("New" ++ m.name)))) := by
  rw [preview_of_readable h, preview_of_readable h']
  cases ho : p.outputs with
  | error e => exact .inl ⟨e, rfl, rfl⟩
  | ok os =>
    obtain ⟨hp, oss, hs, rfl⟩ := entities_of_outputs ho
    refine .inr ⟨oss.flatten.map (p.fileOn d), oss.flatten.map (p.fileOn d'), p.interfaceFiles, ?_, ?_, ?_,
      p.paths_of_interfaceFiles, ?_, fun hnew m hm => ⟨?_, placeOf_ne_new⟩⟩
    · rw [Except.map, fileOn_outputs]
    · rw [Except.map, fileOn_outputs]
    · rw [← paths_of_entities hs, List.map_map]
      exact List.map_congr_left fun o _ => p.path_of_fileOn d o
    · rw [List.forall₂_map_left_iff, List.forall₂_map_right_iff, List.forall₂_same]
      exact fun o _ => ⟨p.fileOn_path d d' o, fileOn_congr⟩
    · obtain ⟨s, hmem, hmodel⟩ := List.mem_filterMap.1 hm
      have he : s.entity = .model m := by
        cases he : s.entity <;> simp_all [EntitySource.model?]
      obtain ⟨os, hos, ho⟩ := exists_mem_mapM hs hmem
      obtain ⟨e, hb, hshows⟩ := showsModel_of_sourceOutputs hm he hnew ho
      have hsub (d : Disk) : os.map (p.fileOn d) ⊆ oss.flatten.map (p.fileOn d) :=
        List.map_subset _ (fun o ho => List.mem_flatten_of_mem hos ho)
      exact ⟨_, e, hp, hb, (hshows d).mono (hsub d), (hshows d').mono (hsub d')⟩

/-- A project of the model `Team`, which relates through `team_user`, with its `New` file. -/
def teamProject : Project :=
  { teamUserProject with sources := teamUserProject.sources.take 1 }

/-- A disk with hand-written code in the file of `Team` and in its `New` file. -/
def teamFiles (code newCode : String) : Disk :=
  { entries := [
      (["o"], .directory),
      (["o", "Team.ts"], .text ("// <non-auto-generated-code>" ++ code ++ "// </non-auto-generated-code>")),
      (["o", "NewTeam.ts"], .text ("// <non-auto-generated-code>" ++ newCode ++ "// </non-auto-generated-code>"))] }

theorem readable_teamFiles {code newCode : String} (h : ∀ path ∈ teamProject.entityPaths,
    (OutputFile.readExisting (teamFiles code newCode) path).toOption.isSome) :
    teamProject.Readable (teamFiles code newCode) := by
  intro path hpath
  obtain ⟨existing, hread⟩ := Option.isSome_iff_exists.1 (h path hpath)
  exact ⟨existing, toOption_eq_some.1 hread⟩

/-- Other code in the file of a model changes that file and not its `New` file. -/
theorem team_own_regions : teamProject.Readable (teamFiles "\nf()\n" "\ng()\n") ∧
    teamProject.Readable (teamFiles "\nh()\n" "\ng()\n") ∧
    ∃ files files' new, (teamProject.preview (teamFiles "\nf()\n" "\ng()\n")).outcome = .ok files ∧
      (teamProject.preview (teamFiles "\nh()\n" "\ng()\n")).outcome = .ok files' ∧
      files ≠ files' ∧ new.path = "o/NewTeam.ts" ∧ new ∈ files ∧ new ∈ files' := by
  have h : teamProject.Readable (teamFiles "\nf()\n" "\ng()\n") := readable_teamFiles (by decide +kernel)
  have h' : teamProject.Readable (teamFiles "\nh()\n" "\ng()\n") := readable_teamFiles (by decide +kernel)
  have hrun : (teamProject.preview (teamFiles "\nf()\n" "\ng()\n")).outcome.toOption.isSome ∧
      (teamProject.preview (teamFiles "\nf()\n" "\ng()\n")).outcome.toOption ≠
        (teamProject.preview (teamFiles "\nh()\n" "\ng()\n")).outcome.toOption := by
    decide +kernel
  obtain ⟨hsome, hne⟩ := hrun
  refine ⟨h, h', ?_⟩
  rcases preview_takes_own_regions teamProject h h' with
    ⟨error, he, -⟩ | ⟨files, files', interfaces, hf, hf', -, -, -, hmodels⟩
  · rw [he] at hsome
    cases hsome
  · obtain ⟨m, hm, hname⟩ : ∃ m ∈ teamProject.models, m.name = "Team" := ⟨_, List.mem_cons_self, rfl⟩
    obtain ⟨⟨pivots, e, -, -, hshows, hshows'⟩, -⟩ := hmodels rfl m hm
    have hpath : outputPath teamProject.classesDir ("New" ++ "Team") = "o/NewTeam.ts" := by decide +kernel
    have hkept : (teamFiles "\nf()\n" "\ng()\n").keptOn "o/NewTeam.ts" =
        (teamFiles "\nh()\n" "\ng()\n").keptOn "o/NewTeam.ts" := by
      decide +kernel
    have hnew := hshows.new
    have hnew' := hshows'.new
    rw [hname, hpath] at hnew hnew'
    rw [← hkept] at hnew'
    refine ⟨_, _, _, hf, hf', ?_, rfl, List.mem_append_left _ hnew, List.mem_append_left _ hnew'⟩
    rintro heq
    rw [hf, hf', heq] at hne
    exact hne rfl

end EntityScript.Project
