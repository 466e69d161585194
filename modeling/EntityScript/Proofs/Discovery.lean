import Mathlib.Data.Set.List
import EntityScript.Proofs.Paths
import EntityScript.Run.Project
/-!
# What the entries of a configuration reach

A file that an entry names is reached, and of a directory that it names all descriptions below it: the walk finds
a description at each of the places that steps down through directories lead to, and at no other.
-/

namespace EntityScript

namespace Path

instance (name : String) : Decidable (IsPiece name) :=
  decidable_of_iff ('/' ∉ name.toList ∧ (name ≠ "" ∧ name ≠ ".") ∧ name ≠ "..")
    ⟨fun ⟨slash, idle, up⟩ => ⟨slash, idle, up⟩, fun h => ⟨h.slash, h.idle, h.up⟩⟩

theorem join_relative {path : String} (base : String) (h : isAbsolute path = false) :
    join base path = join base "" ++ path := by
  have habs : isAbsolute ("" ++ path) = isAbsolute "" := by
    rw [String.empty_append, h]
    rfl
  have hjoin : join base ("" ++ path) = join base "" ++ path := join_append habs
  rwa [String.empty_append] at hjoin

/-- A name below a path is its last component. -/
theorem components_join {name : String} (base : String) (h : IsPiece name) :
    components (join base name) = components base ++ [.child name] := by
  rw [join_relative base (isAbsolute_of_isPiece h), components_append (leads_join base (.inl rfl)) h,
    components_join_empty]

/-- A path that adds names to another one. -/
def Adds (base : String) (names : List String) (path : String) : Prop :=
  components path = components base ++ names.map .child

/-- An entry that only goes down from the root: relative, without `..`, and without a dot at the start of the path. -/
structure GoesDown (root entry : String) : Prop where
  relative : isAbsolute entry = false
  stays : Step.up ∉ steps entry
  noDot : root = "" → (pieces entry).head? ≠ some ['.']

theorem components_join_relative {root entry : String} (hrel : isAbsolute entry = false)
    (hdot : root = "" → (pieces entry).head? ≠ some ['.']) :
    components (join root entry) = components root ++ ((pieces entry).map pieceStep).filter (· != .here) := by
  by_cases hroot : root = ""
  · have hempty : components "" = [] := rfl
    have hjoin : join "" entry = entry := by simp [join]
    rw [hroot, hjoin, hempty, components, hrel, if_neg Bool.false_ne_true, if_neg (hdot hroot)]
  · have hne : join root "" ≠ "" := by
      unfold join
      split <;> simp [isAbsolute, hroot]
    rw [join_relative root hrel, components_below entry (leads_join root (.inl rfl)) hne, components_join_empty]

theorem GoesDown.adds {root entry : String} (h : GoesDown root entry) : ∃ names, Adds root names (join root entry) := by
  have hnames : ∀ s ∈ ((pieces entry).map pieceStep).filter (· != .here), s ∈ Set.range Step.child := by
    intro s hs
    obtain ⟨hmem, hhere⟩ := List.mem_filter.1 hs
    cases s with
    | root =>
      obtain ⟨piece, -, hpiece⟩ := List.mem_map.1 hmem
      unfold pieceStep at hpiece
      split at hpiece
      · cases hpiece
      · split at hpiece <;> cases hpiece
    | here => simp at hhere
    | up => exact absurd (List.mem_append_right _ hmem) h.stays
    | child name => exact ⟨name, rfl⟩
  have hrange : ((pieces entry).map pieceStep).filter (· != .here) ∈ Set.range (List.map Step.child) := by
    rw [Set.range_list_map]
    exact hnames
  obtain ⟨names, heq⟩ := hrange
  exact ⟨names, by rw [Adds, components_join_relative h.relative h.noDot, heq]⟩

end Path

namespace Disk

variable {d : Disk} {path : String} {top place : Place}

/-- Names lead down one by one. -/
theorem placeOf_of_adds {base : String} {names : List String} (h : Path.Adds base names path) :
    placeOf path = placeOf base ++ names := by
  have hnames (names : List String) (place : Place) :
      (names.map Path.Step.child).foldl stepFrom place = place ++ names := by
    induction names generalizing place with
    | nil => simp
    | cons name names ih => simp [stepFrom, ih]
  rw [placeOf_eq_foldl, h, List.foldl_append, ← placeOf_eq_foldl, hnames]

theorem placeOf_join {name : String} (base : String) (h : Path.IsPiece name) :
    placeOf (Path.join base name) = placeOf base ++ [name] := by
  have hadds : Path.Adds base [name] (Path.join base name) := Path.components_join base h
  exact placeOf_of_adds hadds

/-! ## Names in a directory -/

/-- A disk whose files and directories all have names. -/
def WellNamed (d : Disk) : Prop :=
  ∀ e ∈ d.entries, ∃ dir name, e.1 = dir ++ [name] ∧ Path.IsPiece name

theorem mem_names {name : String} : name ∈ d.names top ↔ ∃ e, (top ++ [name], e) ∈ d.entries := by
  simp only [names, List.mem_mergeSort, List.mem_filterMap, Prod.exists]
  constructor
  · rintro ⟨p, e, he, h⟩
    split at h
    · rename_i hp
      obtain ⟨dir, rfl⟩ := List.getLast?_eq_some_iff.1 h
      rw [List.dropLast_concat] at hp
      exact ⟨e, hp.1 ▸ he⟩
    · cases h
  · rintro ⟨e, he⟩
    exact ⟨_, e, he, by simp⟩

theorem WellNamed.isPiece (hd : d.WellNamed) {name : String} (h : name ∈ d.names top) : Path.IsPiece name := by
  obtain ⟨e, he⟩ := mem_names.1 h
  obtain ⟨dir, name', heq, hname⟩ := hd _ he
  obtain ⟨-, rfl⟩ := List.append_singleton_inj.1 heq
  exact hname

/-- What is below a directory under a name stands among the entries, as it is no directory of its own. -/
theorem mem_entries_of_get? {name : String} {e : DiskEntry} (hname : Path.IsPiece name)
    (h : d.get? (top ++ [name]) = some e) : (top ++ [name], e) ∈ d.entries := by
  have hroot : top ++ [name] ≠ ["/"] := by
    intro heq
    obtain ⟨-, rfl⟩ := List.append_singleton_inj.1 (heq.trans (List.nil_append _).symm)
    exact hname.slash (by simp)
  have hanchor : isAnchor (top ++ [name]) = false := by
    simp [isAnchor, beq_eq_false_iff_ne.2 hroot, hname.up]
  rw [get?, if_neg (by simp [hanchor])] at h
  obtain ⟨before, after, hentries, -⟩ := List.lookup_eq_some_iff.1 h
  rw [hentries]
  exact List.mem_append_right _ List.mem_cons_self

theorem length_le_depth {e : DiskEntry} (h : (place, e) ∈ d.entries) : place.length ≤ d.depth := by
  have hfold (es : List (Place × DiskEntry)) (n : Nat) :
      n ≤ es.foldl (fun n x => max n x.1.length) n ∧
        ∀ x ∈ es, x.1.length ≤ es.foldl (fun n x => max n x.1.length) n := by
    induction es generalizing n with
    | nil => simp
    | cons x es ih =>
      obtain ⟨hn, hes⟩ := ih (max n x.1.length)
      exact ⟨by simp only [List.foldl_cons]; omega, List.forall_mem_cons.2 ⟨by simp only [List.foldl_cons]; omega, hes⟩⟩
  exact (hfold d.entries 0).2 _ h

/-! ## The walk -/

/-- A place with a file, some steps down from a place through directories. -/
inductive Below (d : Disk) : Place → Place → Prop
  | file {top : Place} {name : String} {e : DiskEntry} (isPiece : Path.IsPiece name)
      (there : d.get? (top ++ [name]) = some e) (isFile : e ≠ .directory) : Below d top (top ++ [name])
  | deeper {top place : Place} {name : String} (isPiece : Path.IsPiece name)
      (there : d.get? (top ++ [name]) = some .directory) (below : Below d (top ++ [name]) place) : Below d top place

/-- Each path of the walk spells a file below by the names that lead down to it. -/
theorem below_of_mem_filesBelow (hd : d.WellNamed) {fuel : Nat} {file : String}
    (h : file ∈ d.filesBelow fuel (placeOf path) path) :
    d.Below (placeOf path) (placeOf file) ∧ ∃ dir name, Path.Adds path (dir ++ [name]) file := by
  induction fuel generalizing path with
  | zero => cases h
  | succ fuel ih =>
    simp only [filesBelow, List.mem_flatMap] at h
    obtain ⟨name, hmem, h⟩ := h
    have hname := hd.isPiece hmem
    rw [← placeOf_join path hname] at h
    split at h
    · rename_i hdir
      obtain ⟨hbelow, dir, last, hadds⟩ := ih h
      rw [placeOf_join path hname] at hdir hbelow
      refine ⟨.deeper hname hdir hbelow, name :: dir, last, ?_⟩
      rw [Path.Adds, hadds, Path.components_join path hname, List.append_assoc]
      rfl
    · rename_i e hfile hthere
      rw [List.mem_singleton] at h
      subst h
      rw [placeOf_join path hname] at hthere ⊢
      refine ⟨.file hname hthere ?_, [], name, Path.components_join path hname⟩
      rintro rfl
      exact hfile rfl
    · cases h

/-- The walk misses no file below: as many steps as the longest place has names lead to each. -/
theorem mem_filesBelow_of_below {fuel : Nat} (h : d.Below (placeOf path) place)
    (hfuel : d.depth < fuel + (placeOf path).length) :
    ∃ file ∈ d.filesBelow fuel (placeOf path) path, placeOf file = place := by
  generalize htop : placeOf path = top at h hfuel
  induction h generalizing path fuel with
  | @file top name e hname hthere hfile =>
    subst htop
    have hentry := mem_entries_of_get? hname hthere
    have hlen := length_le_depth hentry
    -- Without steps left, the place would be longer than the longest one.
    cases fuel with
    | zero =>
      rw [List.length_append, List.length_singleton] at hlen
      omega
    | succ fuel =>
      refine ⟨Path.join path name, ?_, placeOf_join path hname⟩
      rw [filesBelow, List.mem_flatMap]
      refine ⟨name, mem_names.2 ⟨e, hentry⟩, ?_⟩
      rw [hthere]
      cases e with
      | directory => exact absurd rfl hfile
      | text | binary => exact List.mem_singleton_self _
  | @deeper top place name hname hthere hbelow ih =>
    subst htop
    have hentry := mem_entries_of_get? hname hthere
    have hlen := length_le_depth hentry
    rw [List.length_append, List.length_singleton] at hlen
    cases fuel with
    | zero => omega
    | succ fuel =>
      have hless : d.depth < fuel + (placeOf path ++ [name]).length := by
        rw [List.length_append, List.length_singleton]
        omega
      obtain ⟨file, hfile, hplace⟩ := ih (placeOf_join path hname) hless
      refine ⟨file, ?_, hplace⟩
      rw [filesBelow, List.mem_flatMap]
      refine ⟨name, mem_names.2 ⟨_, hentry⟩, ?_⟩
      rwa [hthere]

theorem at?_eq_some {e : DiskEntry} (h : d.at? path = some e) :
    d.locate path = .ok (placeOf path) ∧ d.get? (placeOf path) = some e := by
  unfold at? at h
  split at h
  · rename_i p hp
    obtain rfl := locate_eq hp
    exact ⟨hp, h⟩
  · cases h

/-- A place whose last name says that a description is there. -/
def IsDescribed (place : Place) : Prop :=
  ∃ dir name, place = dir ++ [name] ∧ Path.extension? name = some "toml"

/-- The places that a path names: that of its file, or those of the descriptions below its directory. -/
inductive Reaches (d : Disk) (path : String) : Place → Prop
  | file (isFile : d.isFile path) : Reaches d path (placeOf path)
  | below {place : Place} (isDirectory : d.isDirectory path) (below : d.Below (placeOf path) place)
      (isDescribed : IsDescribed place) : Reaches d path place

end Disk

namespace Project

open Disk (placeOf)

variable {d : Disk} {root path : String}

theorem isDescription_iff {base file : String} {dir : List String} {name : String}
    (h : Path.Adds base (dir ++ [name]) file) : isDescription file ↔ Disk.IsDescribed (placeOf file) := by
  rw [Disk.placeOf_of_adds h, isDescription, h, List.map_append, ← List.append_assoc, ← List.append_assoc,
    List.map_singleton, List.getLast?_concat]
  constructor
  · intro he
    exact ⟨_, name, rfl, beq_iff_eq.1 he⟩
  · rintro ⟨dir', name', heq, he⟩
    obtain ⟨-, rfl⟩ := List.append_singleton_inj.1 heq
    exact beq_iff_eq.2 he

/-- The files at a path: itself, or the descriptions below it. -/
def namedFiles (d : Disk) (path : String) : List String :=
  if d.isFile path then [path] else (d.files path).filter isDescription

theorem entryFiles_eq {entry : String} (h : (d.at? (Path.join root entry)).isSome) :
    entryFiles d root entry = .ok (namedFiles d (Path.join root entry)) := by
  unfold entryFiles namedFiles
  simp only
  split
  · rfl
  · rename_i hfile
    obtain ⟨e, he⟩ := Option.isSome_iff_exists.1 h
    cases e with
    | directory => rw [if_pos (by simp [Disk.isDirectory, he])]
    | text | binary => simp [Disk.isFile, he] at hfile

theorem mem_namedFiles (hd : d.WellNamed) (h : (d.at? path).isSome) {place : Place} :
    place ∈ (namedFiles d path).map placeOf ↔ d.Reaches path place := by
  obtain ⟨e, he⟩ := Option.isSome_iff_exists.1 h
  unfold namedFiles
  split
  · rename_i hfile
    rw [List.map_singleton, List.mem_singleton]
    constructor
    · rintro rfl
      exact .file hfile
    · intro hr
      cases hr with
      | file => rfl
      | below hdir =>
        rw [Disk.isDirectory, beq_iff_eq] at hdir
        simp [Disk.isFile, hdir] at hfile
  · rename_i hfile
    obtain ⟨hlocate, hget⟩ := Disk.at?_eq_some he
    have hdir : d.isDirectory path := by
      cases e with
      | directory => simp [Disk.isDirectory, he]
      | text | binary => simp [Disk.isFile, he] at hfile
    simp only [Disk.files, hlocate, List.mem_map, List.mem_filter]
    constructor
    · rintro ⟨file, ⟨hmem, hdescription⟩, rfl⟩
      obtain ⟨hbelow, dir, name, hadds⟩ := Disk.below_of_mem_filesBelow hd hmem
      exact .below hdir hbelow ((isDescription_iff hadds).1 hdescription)
    · intro hr
      cases hr with
      | file hfile' => exact absurd hfile' hfile
      | below _ hbelow hdescribed =>
        have hfuel : d.depth < d.depth + 1 + (placeOf path).length := by omega
        obtain ⟨file, hmem, rfl⟩ := Disk.mem_filesBelow_of_below hbelow hfuel
        obtain ⟨-, dir, name, hadds⟩ := Disk.below_of_mem_filesBelow hd hmem
        exact ⟨file, ⟨hmem, (isDescription_iff hadds).2 hdescribed⟩, rfl⟩

/-- A file is spelled as the path that it was found at, with names after it. -/
theorem adds_of_mem_namedFiles (hd : d.WellNamed) {file : String} (h : file ∈ namedFiles d path) :
    ∃ names, Path.Adds path names file := by
  unfold namedFiles at h
  split at h
  · rw [List.mem_singleton] at h
    exact ⟨[], by simp [Path.Adds, h]⟩
  · have hfile := (List.mem_filter.1 h).1
    unfold Disk.files at hfile
    split at hfile
    · rename_i place hlocate
      obtain rfl := Disk.locate_eq hlocate
      obtain ⟨-, dir, name, hadds⟩ := Disk.below_of_mem_filesBelow hd hfile
      exact ⟨_, hadds⟩
    · cases hfile

/-- The files that entries list, as often as they list them. -/
def listedFiles (d : Disk) (root : String) (entries : List String) : List String :=
  entries.flatMap fun entry => namedFiles d (Path.join root entry)

/-- Entries that exist list the files that they reach. -/
theorem mem_listedFiles (hd : d.WellNamed) {entries : List String}
    (h : ∀ entry ∈ entries, (d.at? (Path.join root entry)).isSome) {place : Place} :
    place ∈ (listedFiles d root entries).map placeOf ↔
      ∃ entry ∈ entries, d.Reaches (Path.join root entry) place := by
  rw [listedFiles, List.map_flatMap, List.mem_flatMap]
  exact exists_congr fun entry => and_congr_right fun hmem => mem_namedFiles hd (h entry hmem)

theorem discover_eq {entries : List String} (h : ∀ entry ∈ entries, (d.at? (Path.join root entry)).isSome) :
    discover d root entries = .ok (distinctPaths (listedFiles d root entries)) := by
  have hfiles : entries.mapM (entryFiles d root) =
      .ok (entries.map fun entry => namedFiles d (Path.join root entry)) := by
    rw [mapM_eq_ok, List.forall₂_map_right_iff, List.forall₂_same]
    exact fun entry hmem => entryFiles_eq (h entry hmem)
  rw [discover, hfiles, listedFiles, List.flatMap_def]
  rfl

end Project

end EntityScript
