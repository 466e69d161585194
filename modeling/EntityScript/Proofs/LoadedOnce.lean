import Mathlib.Data.List.Nodup
import EntityScript.Proofs.Discovery
import EntityScript.Proofs.Sources
/-!
# Each description is loaded once

Two spellings are taken for one file if they have the same components, although paths with different components may
lead to one place. So each of the files that entries reach is loaded once, where it occurs first, if and only if no
file is spelled in two ways; else its second spelling makes an entity a duplicate of itself.
-/

namespace EntityScript

/-! ## First occurrences -/

namespace Text

variable {α β : Type} [BEq α] [LawfulBEq α] [BEq β] [LawfulBEq β]

/-- First occurrences are those of the images if and only if no two elements have one image. -/
theorem distinct_map_iff {f : α → β} {xs : List α} :
    (distinct xs).map f = distinct (xs.map f) ↔ ∀ x ∈ xs, ∀ y ∈ xs, f x = f y → x = y := by
  constructor
  · intro h x hx y hy he
    have hnodup : ((distinct xs).map f).Nodup := h ▸ nodup_distinct _
    exact List.inj_on_of_nodup_map hnodup (mem_distinct.2 hx) (mem_distinct.2 hy) he
  · intro h
    induction xs with
    | nil => rfl
    | cons x xs ih =>
      have hxs := ih fun y hy z hz => h y (List.mem_cons_of_mem _ hy) z (List.mem_cons_of_mem _ hz)
      rw [distinct, List.map_cons, List.map_cons, distinct, ← hxs, List.filter_map]
      congr 2
      refine List.filter_congr fun y hy => ?_
      have hy' := List.mem_cons_of_mem x (mem_distinct.1 hy)
      have hiff : f y = f x ↔ y = x := ⟨h y hy' x List.mem_cons_self, fun he => he ▸ rfl⟩
      by_cases he : y = x
      · simp [he]
      · simp [he, hiff]

end Text

namespace Project

open Disk (placeOf)

variable {d : Disk} {root : String}

theorem components_distinctPaths (paths : List String) :
    (distinctPaths paths).map Path.components = Text.distinct (paths.map Path.components) := by
  induction paths with
  | nil => rfl
  | cons path paths ih =>
    rw [distinctPaths, List.map_cons, List.map_cons, Text.distinct, ← ih, List.filter_map]
    rfl

theorem distinctPaths_sublist (paths : List String) : (distinctPaths paths).Sublist paths := by
  induction paths with
  | nil => exact .slnil
  | cons path paths ih => exact (List.filter_sublist.trans ih).cons_cons path

/-- A list of paths that has one spelling for each place, as far as components tell. -/
def SpelledOnce (paths : List String) : Prop :=
  ∀ a ∈ paths, ∀ b ∈ paths, placeOf a = placeOf b → Path.same a b

theorem placeOf_of_components {a b : String} (h : Path.components a = Path.components b) : placeOf a = placeOf b := by
  rw [Disk.placeOf_eq_foldl, h, ← Disk.placeOf_eq_foldl]

theorem placeOf_distinctPaths_iff {paths : List String} :
    (distinctPaths paths).map placeOf = Text.distinct (paths.map placeOf) ↔ SpelledOnce paths := by
  have hplaces (ps : List String) :
      ps.map placeOf = (ps.map Path.components).map fun ss => ss.foldl Disk.stepFrom [] := by
    simp [Disk.placeOf_eq_foldl]
  rw [hplaces, hplaces, components_distinctPaths, Text.distinct_map_iff]
  simp only [List.forall_mem_map, ← Disk.placeOf_eq_foldl, SpelledOnce, Path.same, beq_iff_eq]

theorem mem_distinctPaths {paths : List String} {path : String} (h : path ∈ paths) :
    ∃ first ∈ distinctPaths paths, Path.components first = Path.components path := by
  have hmem : Path.components path ∈ (distinctPaths paths).map Path.components := by
    rw [components_distinctPaths, Text.mem_distinct]
    exact List.mem_map_of_mem h
  exact List.mem_map.1 hmem

/-! ## Reading a description -/

theorem decode_of_parse {file src : String} {s : EntitySource} (h : EntitySource.parse file src = .ok s) :
    (Toml.read? src).bind EntitySource.decode? = some s := by
  unfold EntitySource.parse at h
  split at h
  · cases h
  · rename_i hs
    split at h
    · cases h
      exact hs
    · cases h

/-- What a file describes does not depend on the path that leads to it. -/
theorem load_of_place {a b : String} {s s' : EntitySource} (hplace : placeOf a = placeOf b)
    (ha : load EntitySource.parse d a = .ok s) (hb : load EntitySource.parse d b = .ok s') : s = s' := by
  obtain ⟨src, hsrc, hs⟩ := load_eq_ok.1 ha
  obtain ⟨src', hsrc', hs'⟩ := load_eq_ok.1 hb
  obtain rfl := Disk.readText_of_place hplace hsrc hsrc'
  exact Option.some.inj ((decode_of_parse hs).symm.trans (decode_of_parse hs'))

/-- Errors that blame two files. -/
def IsRepeated : InputError → Prop
  | .repeatedEntity .. => True
  | _ => False

theorem identifier_not_isRepeated {src role name : String} {e : InputError}
    (h : Identifier.check src role name = .error e) : ¬IsRepeated e := by
  unfold Identifier.check at h
  split at h <;> cases h
  exact id

theorem checkCases_not_isRepeated {src : String} {seen : List String} {cases : List CaseSource} {e : InputError}
    (h : EnumSource.checkCases src seen cases = .error e) : ¬IsRepeated e := by
  induction cases generalizing seen with
  | nil => cases h
  | cons c cs ih =>
    simp only [EnumSource.checkCases, bind_eq_error] at h
    obtain h | ⟨_, -, h⟩ := h
    · exact identifier_not_isRepeated h
    · split at h
      · cases h
        exact id
      · exact ih h

theorem checkExports_not_isRepeated {seen names : List String} {e : InputError}
    (h : EnumSource.checkExports seen names = .error e) : ¬IsRepeated e := by
  induction names generalizing seen with
  | nil => cases h
  | cons name names ih =>
    unfold EnumSource.checkExports at h
    split at h
    · cases h
      exact id
    · exact ih h

/-- A description that contradicts itself blames no other one. -/
theorem check_not_isRepeated {src : String} {s : EntitySource} {e : InputError} (h : s.check src = .error e) :
    ¬IsRepeated e := by
  cases s with
  | model m =>
    simp only [EntitySource.check, ModelSource.check, bind_eq_error] at h
    obtain h | ⟨_, -, h⟩ := h
    · exact identifier_not_isRepeated h
    · split at h
      · cases h
        exact id
      · split at h <;> cases h
        exact id
  | enumeration s =>
    simp only [EntitySource.check, EnumSource.check, bind_eq_error] at h
    obtain h | ⟨_, -, h | ⟨_, -, h⟩⟩ := h
    · exact identifier_not_isRepeated h
    · exact checkCases_not_isRepeated h
    · exact checkExports_not_isRepeated h

theorem load_not_isRepeated {path : String} {e : InputError} (h : load EntitySource.parse d path = .error e) :
    ¬IsRepeated e := by
  unfold load at h
  split at h
  · unfold EntitySource.parse at h
    split at h
    · cases h
      exact id
    · split at h
      · cases h
      · rename_i hc
        cases h
        exact check_not_isRepeated hc
  · cases h
    exact id

/-! ## Loading -/

/-- Whether the file of a path describes an entity of a name. -/
def Describes (d : Disk) (path name : String) : Prop :=
  ∃ entity, load EntitySource.parse d path = .ok entity ∧ entity.name = name

instance (d : Disk) (path name : String) : Decidable (Describes d path name) :=
  decidable_of_iff ((load EntitySource.parse d path).toOption.map EntitySource.name = some name)
    (by simp [Describes, toOption_eq_some])

theorem Describes.unique {path name name' : String} (h : Describes d path name) (h' : Describes d path name') :
    name = name' := by
  obtain ⟨entity, he, rfl⟩ := h
  obtain ⟨entity', he', rfl⟩ := h'
  rw [he] at he'
  cases he'
  rfl

/-- Descriptions that were loaded are those of the paths, in their order. -/
theorem loadSources_eq_ok {seen files : List SourceFile} {paths : List String}
    (h : loadSources d seen paths = .ok files) :
    files.map (·.path) = paths ∧ ∀ s ∈ files, load EntitySource.parse d s.path = .ok s.entity := by
  induction paths generalizing seen files with
  | nil =>
    cases h
    simp
  | cons path paths ih =>
    simp only [loadSources, bind_eq_ok] at h
    obtain ⟨entity, he, h⟩ := h
    split at h
    · cases h
    · obtain ⟨rest, hr, h⟩ := bind_eq_ok.1 h
      cases h
      obtain ⟨hpaths, hread⟩ := ih hr
      exact ⟨by rw [List.map_cons, hpaths], List.forall_mem_cons.2 ⟨he, hread⟩⟩

/-- Loading fails at a path that cannot be loaded, or at one whose entity has the name of one before. -/
theorem loadSources_eq_error {seen : List SourceFile} {paths : List String} {e : InputError}
    (hseen : ∀ s ∈ seen, load EntitySource.parse d s.path = .ok s.entity)
    (h : loadSources d seen paths = .error e) :
    (∃ path ∈ paths, load EntitySource.parse d path = .error e) ∨
      ∃ name first second, e = .repeatedEntity name first second ∧ Describes d first name ∧ Describes d second name ∧
        [first, second].Sublist ((seen.map (·.path)).reverse ++ paths) := by
  -- The descriptions before stand with the latest in front, so their paths are in order backwards.
  induction paths generalizing seen with
  | nil => cases h
  | cons path paths ih =>
    simp only [loadSources, bind_eq_error] at h
    obtain h | ⟨entity, he, h⟩ := h
    · exact .inl ⟨path, List.mem_cons_self, h⟩
    · split at h
      · rename_i first hfirst
        cases h
        have hmem := List.mem_of_find?_eq_some hfirst
        have hname := List.find?_some hfirst
        refine .inr ⟨_, _, _, rfl, ⟨_, hseen first hmem, beq_iff_eq.1 hname⟩, ⟨_, he, rfl⟩, ?_⟩
        have hbefore : [first.path].Sublist (seen.map (·.path)).reverse :=
          List.singleton_sublist.2 (List.mem_reverse.2 (List.mem_map_of_mem hmem))
        have hat : [path].Sublist (path :: paths) := List.singleton_sublist.2 List.mem_cons_self
        exact hbefore.append hat
      · rw [bind_eq_error] at h
        obtain h | ⟨files, -, h⟩ := h
        · rcases ih (List.forall_mem_cons.2 ⟨he, hseen⟩) h with ⟨path', hpath', he'⟩ | hrepeated
          · exact .inl ⟨path', List.mem_cons_of_mem _ hpath', he'⟩
          · exact .inr (by simpa using hrepeated)
        · cases h

/-! ## Spellings -/

variable {files : List String}

/-- Files that could be loaded are spelled once, as no two of their entities have one name. -/
theorem spelledOnce_of_loadSources {sources : List SourceFile}
    (h : loadSources d [] (distinctPaths files) = .ok sources) : SpelledOnce files := by
  obtain ⟨hpaths, hread⟩ := loadSources_eq_ok h
  intro a ha b hb hplace
  obtain ⟨first, hfirst, hfirst'⟩ := mem_distinctPaths ha
  obtain ⟨second, hsecond, hsecond'⟩ := mem_distinctPaths hb
  rw [← hpaths] at hfirst hsecond
  obtain ⟨s, hs, rfl⟩ := List.mem_map.1 hfirst
  obtain ⟨s', hs', rfl⟩ := List.mem_map.1 hsecond
  have hplaces := (placeOf_of_components hfirst').trans (hplace.trans (placeOf_of_components hsecond').symm)
  have hentity := load_of_place hplaces (hread s hs) (hread s' hs')
  have hnames : (sources.map (·.entity.name)).Nodup := List.pairwise_map.2 (names_of_loadSources h).2
  have heq : s = s' := List.inj_on_of_nodup_map hnames hs hs' (congrArg EntitySource.name hentity)
  rw [heq, hsecond'] at hfirst'
  exact beq_iff_eq.2 hfirst'.symm

/-- Two files of a list, in its order, that describe one entity and whose paths are not the same. -/
structure Rivals (d : Disk) (files : List String) (name first second : String) : Prop where
  order : [first, second].Sublist files
  first_describes : Describes d first name
  second_describes : Describes d second name
  not_same : ¬Path.same first second

namespace Rivals

variable {name first second : String}

theorem first_mem (h : Rivals d files name first second) : first ∈ files :=
  h.order.subset List.mem_cons_self

theorem second_mem (h : Rivals d files name first second) : second ∈ files :=
  h.order.subset (List.mem_cons_of_mem _ (List.mem_singleton_self _))

theorem place_ne (h : Rivals d files name first second) (hspelled : SpelledOnce files) :
    placeOf first ≠ placeOf second := fun hplace =>
  h.not_same (hspelled first h.first_mem second h.second_mem hplace)

end Rivals

/-- If loading blames two files, then they are rivals. -/
theorem rivals_of_loadSources {name first second : String}
    (h : loadSources d [] (distinctPaths files) = .error (.repeatedEntity name first second)) :
    Rivals d files name first second := by
  rcases loadSources_eq_error (by simp) h with ⟨path, -, he⟩ | ⟨_, _, _, he, hfirst, hsecond, hsub⟩
  · exact absurd trivial (load_not_isRepeated he)
  · cases he
    rw [List.map_nil, List.reverse_nil, List.nil_append] at hsub
    refine ⟨hsub.trans (distinctPaths_sublist files), hfirst, hsecond, fun hsame => ?_⟩
    have hnodup : ((distinctPaths files).map Path.components).Nodup := by
      rw [components_distinctPaths]
      exact Text.nodup_distinct _
    have hpair := hnodup.sublist (hsub.map Path.components)
    simp [beq_iff_eq.1 hsame] at hpair

/-- Descriptions of files, each file once and where it occurs first. -/
structure LoadsOnce (d : Disk) (files : List String) (sources : List SourceFile) : Prop where
  places : sources.map (fun s => placeOf s.path) = Text.distinct (files.map placeOf)
  paths : (sources.map (·.path)).Sublist files
  read : ∀ s ∈ sources, load EntitySource.parse d s.path = .ok s.entity

theorem loadsOnce_of_loadSources {sources : List SourceFile}
    (h : loadSources d [] (distinctPaths files) = .ok sources) : LoadsOnce d files sources := by
  obtain ⟨hpaths, hread⟩ := loadSources_eq_ok h
  refine ⟨?_, hpaths ▸ distinctPaths_sublist files, hread⟩
  rw [← placeOf_distinctPaths_iff.2 (spelledOnce_of_loadSources h), ← hpaths, List.map_map]
  rfl

/-- Entries that only go down spell no file in two ways. -/
theorem spelledOnce_of_goesDown (hd : d.WellNamed) {entries : List String}
    (h : ∀ entry ∈ entries, Path.GoesDown root entry) : SpelledOnce (listedFiles d root entries) := by
  have hadds : ∀ file ∈ listedFiles d root entries, ∃ names, Path.Adds root names file := by
    intro file hfile
    obtain ⟨entry, hentry, hfile⟩ := List.mem_flatMap.1 hfile
    obtain ⟨names, hnames⟩ := (h entry hentry).adds
    obtain ⟨more, hmore⟩ := adds_of_mem_namedFiles hd hfile
    exact ⟨names ++ more, by rw [Path.Adds, hmore, hnames, List.append_assoc, List.map_append]⟩
  intro a ha b hb hplace
  obtain ⟨names, hnames⟩ := hadds a ha
  obtain ⟨names', hnames'⟩ := hadds b hb
  rw [Disk.placeOf_of_adds hnames, Disk.placeOf_of_adds hnames', List.append_cancel_left_eq] at hplace
  rw [Path.same, beq_iff_eq, hnames, hnames', hplace]

/-! ## Opening a project -/

/-- If its schema and its entries are there, a project is its listed files. -/
theorem ofConfig_eq {config : Config} {schema : Option Schema}
    (hschema : config.schema.mapM (fun path => load Schema.parse d (Path.join root path)) = .ok schema)
    (hentries : ∀ entry ∈ config.entities, (d.at? (Path.join root entry)).isSome) :
    ofConfig d root config = (loadSources d [] (distinctPaths (listedFiles d root config.entities))).map
      fun sources => { root, config, sources, schema } := by
  simp only [ofConfig, hschema, discover_eq hentries]
  rfl

/-- If all files describe entities, each name at one place only, then they can be loaded if and only if they are
spelled once, and else it is two spellings of one file that are blamed. -/
theorem loadSources_of_describes {files : List String} (hfiles : ∀ file ∈ files, ∃ name, Describes d file name)
    (hnames : ∀ a ∈ files, ∀ b ∈ files, ∀ name, Describes d a name → Describes d b name → placeOf a = placeOf b) :
    SpelledOnce files ∧ (∃ sources, loadSources d [] (distinctPaths files) = .ok sources) ∨
      ¬SpelledOnce files ∧ ∃ name first second, placeOf first = placeOf second ∧
        loadSources d [] (distinctPaths files) = .error (.repeatedEntity name first second) := by
  cases h : loadSources d [] (distinctPaths files) with
  | ok sources => exact .inl ⟨spelledOnce_of_loadSources h, sources, rfl⟩
  | error e =>
    rcases loadSources_eq_error (by simp) h with ⟨path, hpath, he⟩ | ⟨name, first, second, rfl, -⟩
    · obtain ⟨_, entity, hentity, -⟩ := hfiles path ((distinctPaths_sublist files).subset hpath)
      rw [hentity] at he
      cases he
    · have hr := rivals_of_loadSources h
      have hplace := hnames first hr.first_mem second hr.second_mem name hr.first_describes hr.second_describes
      exact .inr ⟨fun hspelled => hr.place_ne hspelled hplace, name, first, second, hplace, rfl⟩

/-- With a schema that can be loaded and entries that exist, the listed files are those that the entries reach. A
project that opens has loaded each of them once, where it occurs first. A repeated entity is blamed on two listed files
that describe it, and these are two different ones unless a file is spelled in two ways. If all listed files describe
entities, each name at one place, then the project opens if and only if no file is spelled in two ways, and else a file
is blamed for repeating itself. Entries that only go down spell no file in two ways. -/
theorem opens_iff_spelledOnce (d : Disk) (hd : d.WellNamed) (root : String) (config : Config) {schema : Option Schema}
    (hschema : config.schema.mapM (fun path => load Schema.parse d (Path.join root path)) = .ok schema)
    (hentries : ∀ entry ∈ config.entities, (d.at? (Path.join root entry)).isSome) :
    (∀ place, place ∈ (listedFiles d root config.entities).map placeOf ↔
      ∃ entry ∈ config.entities, d.Reaches (Path.join root entry) place) ∧
    (∀ p, ofConfig d root config = .ok p →
      SpelledOnce (listedFiles d root config.entities) ∧
        LoadsOnce d (listedFiles d root config.entities) p.sources) ∧
    (∀ name first second, ofConfig d root config = .error (.repeatedEntity name first second) →
      Rivals d (listedFiles d root config.entities) name first second ∧
        (SpelledOnce (listedFiles d root config.entities) → placeOf first ≠ placeOf second)) ∧
    ((∀ file ∈ listedFiles d root config.entities, ∃ name, Describes d file name) →
      (∀ a ∈ listedFiles d root config.entities, ∀ b ∈ listedFiles d root config.entities,
        ∀ name, Describes d a name → Describes d b name → placeOf a = placeOf b) →
      ((∃ p, ofConfig d root config = .ok p) ↔ SpelledOnce (listedFiles d root config.entities)) ∧
      ((∃ name first second, placeOf first = placeOf second ∧
        ofConfig d root config = .error (.repeatedEntity name first second)) ↔
          ¬SpelledOnce (listedFiles d root config.entities))) ∧
    ((∀ entry ∈ config.entities, Path.GoesDown root entry) → SpelledOnce (listedFiles d root config.entities)) := by
  have heq := ofConfig_eq hschema hentries
  have hok {p : Project} (h : ofConfig d root config = .ok p) :
      loadSources d [] (distinctPaths (listedFiles d root config.entities)) = .ok p.sources := by
    rw [heq, map_eq_ok] at h
    obtain ⟨sources, hs, rfl⟩ := h
    exact hs
  have herror {e : InputError} : ofConfig d root config = .error e ↔
      loadSources d [] (distinctPaths (listedFiles d root config.entities)) = .error e := by
    rw [heq]
    cases loadSources d [] (distinctPaths (listedFiles d root config.entities)) <;> simp [Except.map]
  refine ⟨fun place => mem_listedFiles hd hentries, ?_, ?_, ?_, spelledOnce_of_goesDown hd⟩
  · intro p hp
    exact ⟨spelledOnce_of_loadSources (hok hp), loadsOnce_of_loadSources (hok hp)⟩
  · intro name first second h
    have hr := rivals_of_loadSources (herror.1 h)
    exact ⟨hr, hr.place_ne⟩
  · intro hfiles hnames
    rcases loadSources_of_describes hfiles hnames with ⟨hspelled, sources, hs⟩ | ⟨hspelled, name, a, b, hplace, he⟩
    · have hopens : ∃ p, ofConfig d root config = .ok p := ⟨_, by rw [heq, hs]; rfl⟩
      refine ⟨iff_of_true hopens hspelled, iff_of_false ?_ (not_not_intro hspelled)⟩
      rintro ⟨_, _, _, -, he⟩
      rw [herror, hs] at he
      cases he
    · refine ⟨iff_of_false ?_ hspelled, iff_of_true ⟨name, a, b, hplace, herror.2 he⟩ hspelled⟩
      rintro ⟨p, hp⟩
      rw [hok hp] at he
      cases he

/-- Two descriptions, one of them in a directory of its own. -/
def nested : Disk where
  entries := [(["models"], .directory), (["models", "Tag.toml"], .text "name=\"Tag\"\n"),
    (["models", "b"], .directory), (["models", "b", "User.toml"], .text "name=\"User\"\n")]

/-- A configuration of entries alone. -/
def listing (entities : List String) : Config :=
  { classes := "o", enums := "o", entities, schema := none, options := {} }

theorem wellNamed_nested : nested.WellNamed := by
  have hnames : ∀ e ∈ nested.entries, e.1 ≠ [] ∧ Path.IsPiece (e.1.getLastD "") := by decide +kernel
  intro e he
  obtain ⟨hne, hpiece⟩ := hnames e he
  refine ⟨e.1.dropLast, e.1.getLastD "", ?_, hpiece⟩
  rw [List.getLastD_eq_getLast?, List.getLast?_eq_some_getLast hne]
  exact (List.dropLast_append_getLast hne).symm

theorem listedFiles_nested : listedFiles nested "" ["models", "models//Tag.toml"] =
    ["models/Tag.toml", "models/b/User.toml", "models//Tag.toml"] := by
  have hlocate : nested.locate "models" = .ok ["models"] := by decide +kernel
  have hnames : nested.names ["models"] = ["Tag.toml", "b"] := List.mergeSort_of_pairwise (by decide +kernel)
  have hfiles : nested.files "models" = ["models/Tag.toml", "models/b/User.toml"] := by
    simp only [Disk.files, hlocate, Disk.filesBelow, hnames]
    decide +kernel
  have hjoin (entry : String) : Path.join "" entry = entry := by simp [Path.join]
  simp only [listedFiles, namedFiles, List.flatMap_cons, List.flatMap_nil, hjoin, hfiles]
  decide +kernel

/-- A directory and a file in it, spelled with one slash more, list that file twice; it is loaded once. -/
theorem nested_loaded_once : nested.WellNamed ∧
    (∀ entry ∈ ["models", "models//Tag.toml"], (nested.at? (Path.join "" entry)).isSome) ∧
    ∃ p, ofConfig nested "" (listing ["models", "models//Tag.toml"]) = .ok p ∧
      p.sources.map (fun s => placeOf s.path) = [["models", "Tag.toml"], ["models", "b", "User.toml"]] := by
  have hentries : ∀ entry ∈ ["models", "models//Tag.toml"], (nested.at? (Path.join "" entry)).isSome := by
    decide +kernel
  obtain ⟨-, hok, -, hopens, hdown⟩ :=
    opens_iff_spelledOnce nested wellNamed_nested "" (listing ["models", "models//Tag.toml"]) rfl hentries
  rw [show (listing ["models", "models//Tag.toml"]).entities = ["models", "models//Tag.toml"] from rfl,
    listedFiles_nested] at hok hopens hdown
  have hspelled := hdown fun entry hentry => by
    rcases List.mem_pair.1 hentry with rfl | rfl <;> exact ⟨by decide, by decide, by decide⟩
  let nameOf (file : String) : String := if file = "models/b/User.toml" then "User" else "Tag"
  have hnamed : ∀ file ∈ ["models/Tag.toml", "models/b/User.toml", "models//Tag.toml"],
      Describes nested file (nameOf file) := by decide +kernel
  have hplaces : ∀ a ∈ ["models/Tag.toml", "models/b/User.toml", "models//Tag.toml"],
      ∀ b ∈ ["models/Tag.toml", "models/b/User.toml", "models//Tag.toml"],
        nameOf a = nameOf b → placeOf a = placeOf b := by decide +kernel
  obtain ⟨p, hp⟩ := (hopens (fun file hfile => ⟨_, hnamed file hfile⟩) fun a ha b hb name h h' =>
    hplaces a ha b hb (((hnamed a ha).unique h).trans (h'.unique (hnamed b hb)))).1.2 hspelled
  refine ⟨wellNamed_nested, hentries, p, hp, ?_⟩
  rw [(hok p hp).2.places]
  decide +kernel

def oneTag : Disk where
  entries := [(["a.toml"], .text "name=\"Tag\"\n")]

/-- A dot in front is a component, so the file of the second entry is loaded again. -/
theorem tag_repeats_itself :
    (∀ entry ∈ ["a.toml", "./a.toml"], (oneTag.at? (Path.join "" entry)).isSome) ∧
      placeOf "a.toml" = placeOf "./a.toml" ∧
      ofConfig oneTag "" (listing ["a.toml", "./a.toml"]) = .error (.repeatedEntity "Tag" "a.toml" "./a.toml") := by
  have hentries : ∀ entry ∈ ["a.toml", "./a.toml"], (oneTag.at? (Path.join "" entry)).isSome := by decide +kernel
  have hpaths : distinctPaths (listedFiles oneTag "" (listing ["a.toml", "./a.toml"]).entities) =
      ["a.toml", "./a.toml"] := by decide +kernel
  have hloads : (loadSources oneTag [] ["a.toml", "./a.toml"]).map (fun _ => ()) =
      .error (.repeatedEntity "Tag" "a.toml" "./a.toml") := by decide +kernel
  refine ⟨hentries, by decide +kernel, ?_⟩
  rw [ofConfig_eq rfl hentries, hpaths]
  cases h : loadSources oneTag [] ["a.toml", "./a.toml"] with
  | ok sources => rw [h] at hloads; cases hloads
  | error e => rw [h] at hloads; cases hloads; rfl

end Project

end EntityScript
