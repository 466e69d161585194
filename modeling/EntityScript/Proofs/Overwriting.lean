import Mathlib.Data.List.Pairwise
import EntityScript.Proofs.FileNames
/-!
# Files that overwrite each other

The names of entities differ, as a project opens only then. New names and the names of pivot interfaces are not
compared with them or with each other, so two files may have one path. What keeps the paths of a project apart is
said in terms of its names, whether paths are compared by their components or by their places on the disk.
-/

namespace EntityScript.Project

/-! ## Destinations -/

/-- Where a file goes: the folder, as `read` tells it, and the name there. -/
def destination {α : Type} (read : String → α) (f : String × String) : α × String :=
  (read (Path.join f.1 (Path.folder f.2)), Path.fileName f.2)

/-- Paths are compared as those of files in folders. -/
structure ReadsFiles {α : Type} (read : String → α) : Prop where
  folder (dir : String) : read (Path.join dir "") = read dir
  file (f g : String × String) :
    read (outputPath f.1 f.2) = read (outputPath g.1 g.2) ↔ destination read f = destination read g

theorem readsFiles_components : ReadsFiles Path.components where
  folder := Path.components_join_empty
  file f g := by
    simp [components_outputPath, destination]

theorem readsFiles_placeOf : ReadsFiles Disk.placeOf where
  folder dir := by rw [Disk.placeOf_eq_foldl, Path.components_join_empty, ← Disk.placeOf_eq_foldl]
  file f g := by
    simp [placeOf_outputPath, destination]

theorem destination_of_slashless {α : Type} {read : String → α} (hr : ReadsFiles read) {dir name : String}
    (h : '/' ∉ name.toList) : destination read (dir, name) = (read dir, name) := by
  obtain ⟨hfolder, hname⟩ := Path.folder_of_slashless h
  rw [destination, hfolder, hname, hr.folder]

/-! ## Names that stay apart -/

/-- No two files of a project go to one folder under one name, beyond what is sure as it opens. -/
structure NamesApart {α : Type} (read : String → α) (p : Project) : Prop where
  /-- No entity has the new name of a model, in the directory of models. -/
  newNames : p.config.options.separateNewModels = true → ∀ m ∈ p.models, ∀ s ∈ p.sources,
    read (p.entityDir s.entity) = read p.classesDir → s.entity.name ≠ "New" ++ m.name
  /-- No interface has the name of a file of an entity, in its directory. -/
  entities : ∀ table ∈ p.pivotTables, ∀ s ∈ p.sources, ∀ name ∈ p.entityNames s.entity,
    destination read (p.classesDir, pivotName table) ≠ (read (p.entityDir s.entity), name)
  /-- No two interfaces have one name. -/
  interfaces : p.pivotTables.Pairwise fun table table' =>
    destination read (p.classesDir, pivotName table) ≠ destination read (p.classesDir, pivotName table')

variable {p : Project} {α : Type} {read : String → α}

theorem mem_entityNames {e : EntitySource} {name : String} : name ∈ p.entityNames e ↔
    name = e.name ∨ p.config.options.separateNewModels = true ∧ ∃ m, e = .model m ∧ name = "New" ++ m.name := by
  cases e with
  | model m => cases hn : p.config.options.separateNewModels <;> simp [entityNames, EntitySource.name, hn]
  | enumeration source => simp [entityNames, EntitySource.name]

theorem isWord_of_mem_entityNames {d : Disk} {config : String} (hp : openAt d config = .ok p) {s : SourceFile}
    (hs : s ∈ p.sources) {name : String} (h : name ∈ p.entityNames s.entity) : IsWord name := by
  have hword := isWord_of_openAt hp s hs
  rcases mem_entityNames.1 h with rfl | ⟨-, m, he, rfl⟩
  · exact hword
  · rw [he] at hword
    exact IsWord.append (by decide) hword

theorem new_ne (name : String) : name ≠ "New" ++ name := by
  intro h
  have hlen := congrArg String.length h
  simp [String.length_append] at hlen

/-- The names of the files of one entity differ. -/
theorem nodup_entityNames (e : EntitySource) : (p.entityNames e).Nodup := by
  cases e with
  | model m =>
    have hne := new_ne m.name
    cases hn : p.config.options.separateNewModels <;> simp [entityNames, hn, hne]
  | enumeration source => simp [entityNames]

/-- Where the files of an entity go. -/
def entityDestinations (p : Project) (read : String → α) (s : SourceFile) : List (α × String) :=
  (p.entityNames s.entity).map (read (p.entityDir s.entity), ·)

/-- The files of entities go apart if and only if no entity has the new name of a model beside it. -/
theorem nodup_entityDestinations_iff {d : Disk} {config : String} (hp : openAt d config = .ok p) :
    (p.sources.flatMap (p.entityDestinations read)).Nodup ↔
      (p.config.options.separateNewModels = true → ∀ m ∈ p.models, ∀ s ∈ p.sources,
        read (p.entityDir s.entity) = read p.classesDir → s.entity.name ≠ "New" ++ m.name) := by
  have hmem (s : SourceFile) (x : α × String) : x ∈ p.entityDestinations read s ↔
      ∃ name ∈ p.entityNames s.entity, (read (p.entityDir s.entity), name) = x := List.mem_map
  rw [List.Nodup, List.pairwise_flatMap]
  constructor
  · rintro ⟨-, hapart⟩ hnew m hm s hs hdir hname
    obtain ⟨s', hs', hmodel⟩ := List.mem_filterMap.1 hm
    have he : s'.entity = .model m := by
      cases hs' : s'.entity <;> simp_all [EntitySource.model?]
    by_cases hss : s = s'
    · rw [hss, he] at hname
      exact new_ne m.name hname
    · have hsymm : Std.Symm fun s s' : SourceFile =>
          ∀ x ∈ p.entityDestinations read s, ∀ y ∈ p.entityDestinations read s', x ≠ y :=
        ⟨fun s s' h y hy x hx => (h x hx y hy).symm⟩
      refine hapart.forall hs hs' hss _ ((hmem _ _).2 ⟨_, mem_entityNames.2 (.inl rfl), rfl⟩)
        _ ((hmem _ _).2 ⟨_, mem_entityNames.2 (.inr ⟨hnew, m, he, rfl⟩), rfl⟩) ?_
      rw [hdir, he, hname, entityDir]
  · intro hnew
    refine ⟨fun s _ => (nodup_entityNames s.entity).map fun _ _ h => (Prod.mk.inj h).2, ?_⟩
    refine (names_of_openAt hp).imp_of_mem fun {s s'} hs hs' hne x hx y hy hxy => ?_
    obtain ⟨name, hname, rfl⟩ := (hmem _ _).1 hx
    obtain ⟨name', hname', rfl⟩ := (hmem _ _).1 hy
    obtain ⟨hdir, rfl⟩ := Prod.mk.inj hxy
    have hmodel {s : SourceFile} {m : ModelSource} (hs : s ∈ p.sources) (he : s.entity = .model m) : m ∈ p.models :=
      List.mem_filterMap.2 ⟨s, hs, by rw [he]; rfl⟩
    rcases mem_entityNames.1 hname with hold | ⟨hsep, m, he, hn⟩ <;>
      rcases mem_entityNames.1 hname' with hold' | ⟨hsep', m', he', hn'⟩
    · exact hne (hold.symm.trans hold')
    · rw [he', entityDir] at hdir
      exact hnew hsep' m' (hmodel hs' he') s hs hdir (hold.symm.trans hn')
    · rw [he, entityDir] at hdir
      exact hnew hsep m (hmodel hs he) s' hs' hdir.symm (hold'.symm.trans hn)
    · rw [he, he'] at hne
      exact hne ((String.append_right_inj _).1 (hn.symm.trans hn'))

/-- The files of a project go apart if and only if its names are apart. -/
theorem nodup_destinations_iff {d : Disk} {config : String} (hr : ReadsFiles read) (hp : openAt d config = .ok p) :
    (p.fileNames.map (destination read)).Nodup ↔ p.NamesApart read := by
  have hentities : (p.sources.flatMap fun s => (p.entityNames s.entity).map (p.entityDir s.entity, ·)).map
      (destination read) = p.sources.flatMap (p.entityDestinations read) := by
    rw [List.map_flatMap]
    refine List.flatMap_congr fun s hs => ?_
    rw [List.map_map, entityDestinations]
    refine List.map_congr_left fun name hname => ?_
    exact destination_of_slashless hr (isWord_of_mem_entityNames hp hs hname).slashless
  rw [fileNames, List.map_append, hentities, List.map_map, List.nodup_append, nodup_entityDestinations_iff hp]
  constructor
  · rintro ⟨hnew, hinterfaces, hapart⟩
    refine ⟨hnew, fun table ht s hs name hname => ?_, List.pairwise_map.1 hinterfaces⟩
    have hentity : (read (p.entityDir s.entity), name) ∈ p.sources.flatMap (p.entityDestinations read) :=
      List.mem_flatMap.2 ⟨s, hs, List.mem_map_of_mem hname⟩
    exact (hapart _ hentity _ (List.mem_map_of_mem ht)).symm
  · rintro ⟨hnew, hentity, hinterfaces⟩
    refine ⟨hnew, List.pairwise_map.2 hinterfaces, fun x hx y hy => ?_⟩
    obtain ⟨s, hs, hx⟩ := List.mem_flatMap.1 hx
    obtain ⟨name, hname, rfl⟩ := List.mem_map.1 hx
    obtain ⟨table, ht, rfl⟩ := List.mem_map.1 hy
    exact (hentity table ht s hs name hname).symm

/-! ## Paths of files -/

theorem pairwise_path {R : String → String → Prop} {files : List OutputFile} :
    (files.Pairwise fun f g => R f.path g.path) ↔ (files.map (·.path)).Pairwise R := by
  rw [List.pairwise_map]

theorem pairwise_paths_iff {d₀ d : Disk} {config : String} {files : List OutputFile} (hr : ReadsFiles read)
    (hp : openAt d₀ config = .ok p) (hf : (p.preview d).outcome = .ok files) :
    (files.Pairwise fun f g => read f.path ≠ read g.path) ↔ p.NamesApart read := by
  rw [← nodup_destinations_iff hr hp, List.Nodup, List.pairwise_map,
    pairwise_path (R := fun a b => read a ≠ read b), paths_of_preview hf, List.pairwise_map]
  simp only [ne_eq, hr.file]

/-- A project that opens and renders gives files with paths that differ if and only if its names are apart, and
they have places on the disk that differ, so that none overwrites another, if and only if its names are apart with
directories told by their places. -/
theorem paths_apart_iff {d₀ d : Disk} {config : String} {p : Project} {files : List OutputFile}
    (hp : openAt d₀ config = .ok p) (hf : (p.preview d).outcome = .ok files) :
    ((files.Pairwise fun f g => Path.same f.path g.path = false) ↔ p.NamesApart Path.components) ∧
    ((files.Pairwise fun f g => Disk.placeOf f.path ≠ Disk.placeOf g.path) ↔ p.NamesApart Disk.placeOf) := by
  refine ⟨?_, pairwise_paths_iff readsFiles_placeOf hp hf⟩
  rw [← pairwise_paths_iff readsFiles_components hp hf]
  simp only [Path.same, beq_eq_false_iff_ne]

/-- The files of a project, if it opens and renders. -/
def filesAt (d : Disk) (config : String) : Option (List OutputFile) := do
  let p ← (openAt d config).toOption
  (p.preview d).outcome.toOption

theorem filesAt_eq_some {d : Disk} {config : String} {files : List OutputFile} (h : filesAt d config = some files) :
    ∃ p, openAt d config = .ok p ∧ (p.preview d).outcome = .ok files := by
  simp only [filesAt, Option.bind_eq_bind, Option.bind_eq_some_iff, toOption_eq_some] at h
  exact h

/-- A project of the model `Tag` and another one, with `New` files. -/
def tagAnd (name : String) : Disk :=
  { entries := [
      (["t.toml"], .text ("[output]\nclasses=\"o\"\nenums=\"o\"\n[sources]\nentities=[\"a.toml\",\"b.toml\"]\n" ++
        "[options]\nseparate_new_models=true\n")),
      (["a.toml"], .text "namespace=\"A\"\nname=\"Tag\"\n"),
      (["b.toml"], .text ("namespace=\"A\"\nname=\"" ++ name ++ "\"\n"))] }

theorem tagAnd_apart : ∃ p files, openAt (tagAnd "Team") "t.toml" = .ok p ∧
    (p.preview (tagAnd "Team")).outcome = .ok files ∧
    files.map (·.path) = ["o/Tag.ts", "o/NewTag.ts", "o/Team.ts", "o/NewTeam.ts"] ∧
    p.NamesApart Path.components ∧ p.NamesApart Disk.placeOf := by
  have hrun : (filesAt (tagAnd "Team") "t.toml").map (·.map (·.path)) =
      some ["o/Tag.ts", "o/NewTag.ts", "o/Team.ts", "o/NewTeam.ts"] := by
    decide +kernel
  obtain ⟨files, hfiles, hpaths⟩ := Option.map_eq_some_iff.1 hrun
  obtain ⟨p, hp, hf⟩ := filesAt_eq_some hfiles
  obtain ⟨hsame, hplaces⟩ := paths_apart_iff hp hf
  refine ⟨p, files, hp, hf, hpaths, hsame.1 ?_, hplaces.1 ?_⟩
  · rw [pairwise_path (R := fun a b => Path.same a b = false), hpaths]
    decide +kernel
  · rw [pairwise_path (R := fun a b => Disk.placeOf a ≠ Disk.placeOf b), hpaths]
    decide +kernel

/-- A model that has the new name of another one goes to the same path as the `New` file of that one, with
another content, so one of the two is lost. -/
theorem tagAnd_overwritten : ∃ p files, openAt (tagAnd "NewTag") "t.toml" = .ok p ∧
    (p.preview (tagAnd "NewTag")).outcome = .ok files ∧
    files.map (·.path) = ["o/Tag.ts", "o/NewTag.ts", "o/NewTag.ts", "o/NewNewTag.ts"] ∧
    (¬ files.Pairwise fun f g => Path.same f.path g.path = false) ∧
    ∃ f ∈ files, ∃ g ∈ files, f.path = g.path ∧ f.content ≠ g.content := by
  have hrun : (filesAt (tagAnd "NewTag") "t.toml").map (fun files => (files.map (·.path),
      decide (∃ f ∈ files, ∃ g ∈ files, f.path = g.path ∧ f.content ≠ g.content))) =
      some (["o/Tag.ts", "o/NewTag.ts", "o/NewTag.ts", "o/NewNewTag.ts"], true) := by
    decide +kernel
  obtain ⟨files, hfiles, heq⟩ := Option.map_eq_some_iff.1 hrun
  obtain ⟨hpaths, hlost⟩ := Prod.mk.inj heq
  obtain ⟨p, hp, hf⟩ := filesAt_eq_some hfiles
  refine ⟨p, files, hp, hf, hpaths, ?_, of_decide_eq_true hlost⟩
  rw [pairwise_path (R := fun a b => Path.same a b = false), hpaths]
  decide +kernel

end EntityScript.Project
