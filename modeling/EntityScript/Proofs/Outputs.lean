import EntityScript.Proofs.Building
import EntityScript.Proofs.Layout
import EntityScript.Proofs.Paths
import EntityScript.Proofs.Saving
import EntityScript.Proofs.Sources
/-!
# The files of a project

What a project writes is fixed before the disk is read; what is there gives the files only their
hand-written regions. Files of one kind have one place only if they have one path.
-/

namespace EntityScript

/-! ## Contexts -/

namespace Context

theorem foldl_withRename_eq (names : List String) (ctx : Context) :
    ∃ renames, names.foldl (fun ctx name => ctx.withRename name ("New" ++ name)) ctx = { ctx with renames } := by
  induction names generalizing ctx with
  | nil => exact ⟨ctx.renames, rfl⟩
  | cons n names ih => exact ih (ctx.withRename n ("New" ++ n))

@[simp] theorem options_forNewModels (o : Options) (names : List String) : (forNewModels o names).options = o := by
  obtain ⟨renames, h⟩ := foldl_withRename_eq names (newModels o)
  rw [forNewModels, h]
  rfl

@[simp] theorem newModel_forNewModels (o : Options) (names : List String) :
    (forNewModels o names).newModel = true := by
  obtain ⟨renames, h⟩ := foldl_withRename_eq names (newModels o)
  rw [forNewModels, h]
  rfl

theorem rename_withRename (ctx : Context) (name renamed n : String) :
    (ctx.withRename name renamed).rename n = if n = name then renamed else ctx.rename n := by
  unfold rename withRename
  by_cases h : n = name
  · simp [h]
  · simp [List.lookup_cons, beq_eq_false_iff_ne.2 h, h]

theorem rename_foldl_withRename (names : List String) (ctx : Context) (n : String) :
    (names.foldl (fun ctx name => ctx.withRename name ("New" ++ name)) ctx).rename n =
      if n ∈ names then "New" ++ n else ctx.rename n := by
  induction names generalizing ctx with
  | nil => simp
  | cons m names ih =>
    rw [List.foldl_cons, ih, rename_withRename]
    by_cases hn : n = m <;> simp [hn]

/-- In `New` files just the models have new names. -/
theorem rename_forNewModels (o : Options) (names : List String) (n : String) :
    (forNewModels o names).rename n = if n ∈ names then "New" ++ n else n :=
  rename_foldl_withRename names (newModels o) n

@[simp] theorem rename_regular (o : Options) (n : String) : (regular o).rename n = n := rfl

end Context

/-! ## Files before the disk is read -/

/-- A file that a project writes. -/
inductive Output
  | entity (e : Entity) (dir : String) (ctx : Context)
  | pivot (i : PivotInterface)

namespace Project

/-- The file of an output, with the regions of the file that it replaces. -/
def write (p : Project) (d : Disk) : Output → Except RunError OutputFile
  | .entity e dir ctx => (renderFile d e dir ctx).outcome
  | .pivot i => .ok (p.pivotFile i)

/-- The outputs of a description. -/
def sourceOutputs (p : Project) (pivots : PivotRegistry) (s : SourceFile) : Except RunError (List Output) :=
  let o := p.config.options
  match s.entity with
  | .enumeration source =>
    ((source.build o).outcome.mapError (.build source.name s.path)).map fun e =>
      [.entity e p.enumsDir (.regular o)]
  | .model source =>
    ((source.build o p.schema pivots).outcome.mapError (.build source.name s.path)).map fun e =>
      .entity e p.classesDir (.regular o) ::
        if o.separateNewModels then [.entity e p.classesDir p.newContext] else []

/-- The outputs of a project. -/
def outputs (p : Project) : Except RunError (List Output) := do
  let pivots ← p.pivots
  let os ← p.sources.mapM (p.sourceOutputs pivots)
  return os.flatten ++ pivots.interfaces.map .pivot

variable {p : Project} {d : Disk}

/-- The outputs of a description are fixed first, then each of them is written. -/
theorem outcome_sourceFiles (pivots : PivotRegistry) (s : SourceFile) :
    (p.sourceFiles d pivots s).outcome = p.sourceOutputs pivots s >>= List.mapM (p.write d) := by
  unfold sourceFiles sourceOutputs
  cases s.entity with
  | enumeration source =>
    simp only [Logged.outcome_bind, Logged.outcome_mapError, Logged.outcome_pure]
    cases (source.build p.config.options).outcome with
    | error e => rfl
    | ok e => simp [Except.map]; rfl
  | model source =>
    simp only [Logged.outcome_bind, Logged.outcome_mapError]
    cases (source.build p.config.options p.schema pivots).outcome with
    | error e => rfl
    | ok e =>
      cases p.config.options.separateNewModels <;> simp [Except.map] <;> rfl

theorem allSourceFiles_eq_ok {pivots : PivotRegistry} {sources : List SourceFile} {files : List OutputFile} :
    (p.allSourceFiles d pivots sources).outcome = .ok files ↔
      ∃ os, sources.mapM (p.sourceOutputs pivots) = .ok os ∧ os.flatten.mapM (p.write d) = .ok files := by
  induction sources generalizing files with
  | nil =>
    refine ⟨fun h => ⟨[], rfl, h⟩, ?_⟩
    rintro ⟨os, ho, h⟩
    cases ho
    exact h
  | cons s sources ih =>
    simp only [allSourceFiles, Logged.outcome_bind, Logged.outcome_pure, outcome_sourceFiles, bind_eq_ok,
      List.mapM_cons, ih]
    constructor
    · rintro ⟨fs, ⟨os, hs, hf⟩, gs, ⟨more, hm, hg⟩, h⟩
      refine ⟨os :: more, ⟨os, hs, more, hm, rfl⟩, ?_⟩
      rw [List.flatten_cons, List.mapM_append, hf, hg]
      exact h
    · rintro ⟨_, ⟨os, hs, more, hm, h⟩, hf⟩
      cases h
      rw [List.flatten_cons, List.mapM_append] at hf
      obtain ⟨fs, hfs, hf⟩ := bind_eq_ok.1 hf
      obtain ⟨gs, hgs, hf⟩ := bind_eq_ok.1 hf
      exact ⟨fs, ⟨os, hs, hfs⟩, gs, ⟨more, hm, hgs⟩, hf⟩

/-- A project is rendered by writing its outputs in turn. -/
theorem preview_eq_ok {files : List OutputFile} : (p.preview d).outcome = .ok files ↔
    ∃ os, p.outputs = .ok os ∧ os.mapM (p.write d) = .ok files := by
  have hpivots (is : List PivotInterface) :
      (is.map Output.pivot).mapM (p.write d) = .ok (is.map p.pivotFile) := by
    rw [mapM_eq_ok]
    simp [List.forall₂_map_left_iff, List.forall₂_map_right_iff, write, List.forall₂_same]
  simp only [preview, outputs, Logged.outcome_bind, Logged.outcome_pure, Logged.outcome_ofExcept,
    Logged.outcome_tellAll, bind_eq_ok, allSourceFiles_eq_ok]
  constructor
  · rintro ⟨pivots, hp, files, ⟨os, hs, hf⟩, _, -, h⟩
    refine ⟨_, ⟨pivots, hp, os, hs, rfl⟩, ?_⟩
    rw [List.mapM_append, hf, hpivots]
    exact h
  · rintro ⟨_, ⟨pivots, hp, os, hs, ho⟩, hf⟩
    cases ho
    rw [List.mapM_append, hpivots] at hf
    obtain ⟨fs, hfs, hf⟩ := bind_eq_ok.1 hf
    exact ⟨pivots, hp, fs, ⟨os, hs, hfs⟩, (), trivial, hf⟩

/-! ## Where files go -/

/-- What a project says about the file of an entity. -/
structure Places (p : Project) (e : Entity) (dir : String) (ctx : Context) : Prop where
  isWord : IsWord (ctx.rename e.name)
  dir_eq : dir = if e.isEnumeration then p.enumsDir else p.classesDir
  options : ctx.options = p.config.options

theorem places_enumeration {source : EnumSource} {e : Entity} (hname : IsWord source.name)
    (h : (source.build p.config.options).outcome = .ok e) : p.Places e p.enumsDir (.regular p.config.options) where
  isWord := by
    rw [Context.rename_regular, EnumSource.build_name h]
    exact hname
  dir_eq := by simp [EnumSource.build_isEnumeration h]
  options := rfl

theorem places_model {source : ModelSource} {pivots : PivotRegistry} {e : Entity} (hname : IsWord source.name)
    (h : (source.build p.config.options p.schema pivots).outcome = .ok e) :
    p.Places e p.classesDir (.regular p.config.options) ∧ p.Places e p.classesDir p.newContext := by
  have hkind : e.isEnumeration = false := by simp [Entity.isEnumeration, ModelSource.build_kind h]
  rw [← ModelSource.build_name h] at hname
  refine ⟨⟨hname, by simp [hkind], rfl⟩, ?_, by simp [hkind], by simp [newContext]⟩
  rw [newContext, Context.rename_forNewModels]
  split
  · exact IsWord.append (by decide) hname
  · exact hname

theorem places_of_openAt {d₀ : Disk} {config : String} {os : List Output} (hp : openAt d₀ config = .ok p)
    (ho : p.outputs = .ok os) {e : Entity} {dir : String} {ctx : Context} (h : .entity e dir ctx ∈ os) :
    p.Places e dir ctx := by
  simp only [outputs, bind_eq_ok] at ho
  obtain ⟨pivots, -, oss, hs, hos⟩ := ho
  cases hos
  have hmem : .entity e dir ctx ∈ oss.flatten := by simpa using h
  obtain ⟨os, hos, hmem⟩ := List.mem_flatten.1 hmem
  obtain ⟨s, hsource, hout⟩ := exists_of_mem_mapM hs hos
  have hword := isWord_of_openAt hp s hsource
  unfold sourceOutputs at hout
  split at hout
  · rename_i source he
    obtain ⟨e', hb, rfl⟩ := map_eq_ok.1 hout
    simp only [List.mem_singleton, Output.entity.injEq] at hmem
    obtain ⟨rfl, rfl, rfl⟩ := hmem
    rw [he] at hword
    exact places_enumeration hword (mapError_eq_ok.1 hb)
  · rename_i source he
    obtain ⟨e', hb, rfl⟩ := map_eq_ok.1 hout
    rw [he] at hword
    obtain ⟨hregular, hnew⟩ := places_model hword (mapError_eq_ok.1 hb)
    rcases List.mem_cons.1 hmem with hmem | hmem
    · cases hmem
      exact hregular
    · split at hmem
      · cases List.mem_singleton.1 hmem
        exact hnew
      · cases hmem

/-- What a file is called is a piece of its path, as it has an extension. -/
theorem isPiece_extension {name : String} (h : '/' ∉ name.toList) : Path.IsPiece (name ++ "." ++ fileExtension) := by
  have hlen : 3 ≤ (name ++ "." ++ fileExtension).toList.length := by simp [fileExtension]
  refine ⟨by simpa [fileExtension] using h, ⟨?_, ?_⟩, ?_⟩
  all_goals
    intro he
    rw [he] at hlen
    simp at hlen

/-- A file is one step from its folder. -/
theorem components_outputPath (dir name : String) : Path.components (outputPath dir name) =
    Path.components (Path.join dir (Path.folder name)) ++ [.child (Path.fileName name ++ "." ++ fileExtension)] := by
  have hsplit : name ++ "." ++ fileExtension =
      Path.folder name ++ (Path.fileName name ++ "." ++ fileExtension) := by
    rw [← String.append_assoc, ← String.append_assoc, Path.folder_append_fileName]
  have hpiece := isPiece_extension (Path.slash_not_mem_fileName name)
  have habs : Path.isAbsolute (Path.folder name ++ (Path.fileName name ++ "." ++ fileExtension)) =
      Path.isAbsolute (Path.folder name) := by
    by_cases hf : Path.folder name = ""
    · rw [hf, String.empty_append, Path.isAbsolute_of_isPiece hpiece]
      rfl
    · exact Path.isAbsolute_append _ hf
  rw [outputPath, hsplit, Path.join_append habs,
    Path.components_append (Path.leads_join dir (Path.leads_folder name)) hpiece]

theorem placeOf_outputPath (dir name : String) : Disk.placeOf (outputPath dir name) =
    Disk.placeOf (Path.join dir (Path.folder name)) ++ [Path.fileName name ++ "." ++ fileExtension] := by
  rw [Disk.placeOf_eq_foldl, components_outputPath, List.foldl_append, ← Disk.placeOf_eq_foldl]
  rfl

theorem placeOf_outputPath_of_isWord {dir name : String} (h : IsWord name) :
    Disk.placeOf (outputPath dir name) = Disk.placeOf dir ++ [name ++ "." ++ fileExtension] := by
  obtain ⟨hfolder, hname⟩ := Path.folder_of_slashless h.slashless
  rw [placeOf_outputPath, hfolder, hname, Disk.placeOf_eq_foldl, Path.components_join_empty, ← Disk.placeOf_eq_foldl]

/-- Files of one kind that have one place have one path. -/
theorem Places.path_eq {e e' : Entity} {dir dir' : String} {ctx ctx' : Context} (h : p.Places e dir ctx)
    (h' : p.Places e' dir' ctx') (hkind : e.isEnumeration = e'.isEnumeration)
    (hplace : Disk.placeOf (outputPath dir (ctx.rename e.name)) =
      Disk.placeOf (outputPath dir' (ctx'.rename e'.name))) :
    outputPath dir (ctx.rename e.name) = outputPath dir' (ctx'.rename e'.name) := by
  rw [placeOf_outputPath_of_isWord h.isWord, placeOf_outputPath_of_isWord h'.isWord, h.dir_eq, h'.dir_eq, hkind] at hplace
  rw [h.dir_eq, h'.dir_eq, hkind]
  simp only [List.append_cancel_left_eq, List.cons.injEq, and_true] at hplace
  rw [outputPath, outputPath, hplace]

end Project

end EntityScript
