import Mathlib.Data.List.Nodup
import EntityScript.Build.Pivot
import EntityScript.Proofs.Outcome
/-!
# Selections from join tables

The columns that a relation selects from its join table: those that it lists, or if it lists none, those that
are no keys or time stamps. All of them are columns of the table and have types.
-/

namespace EntityScript

/-! ## Columns -/

namespace Schema

theorem nodup_of_firstRepeated? {seen xs : List String} (h : firstRepeated? seen xs = none) :
    xs.Nodup ∧ ∀ x ∈ xs, x ∉ seen := by
  induction xs generalizing seen with
  | nil => simp
  | cons x xs ih =>
    unfold firstRepeated? at h
    split at h
    · cases h
    · rename_i hx
      obtain ⟨hn, hs⟩ := ih h
      refine ⟨List.nodup_cons.2 ⟨fun hm => hs x hm List.mem_cons_self, hn⟩, ?_⟩
      intro y hy
      rcases List.mem_cons.1 hy with rfl | hy
      · simpa using hx
      · exact fun hm => hs y hy (List.mem_cons_of_mem _ hm)

/-- The columns of a table have names of their own. -/
theorem nodup_columns {file src : String} {s : Schema} (h : parse file src = .ok s) {name : String}
    {t : TableSchema} (ht : s.table? name = some t) : (t.columns.map (·.name)).Nodup := by
  unfold parse at h
  split at h
  · cases h
  · split at h
    · rename_i hc
      cases h
      obtain ⟨front, back, htables, -⟩ := List.lookup_eq_some_iff.1 ht
      have hmem : (name, t) ∈ s.tables := by simp [htables]
      have hcheck := forM_eq_ok.1 hc (name, t) hmem
      simp only at hcheck
      split at hcheck
      · cases hcheck
      · rename_i hr
        exact (nodup_of_firstRepeated? hr).1
    · cases h

end Schema

namespace TableSchema

theorem column?_spec {t : TableSchema} {name : String} {c : ColumnSchema} (h : t.column? name = some c) :
    c ∈ t.columns ∧ c.name = name :=
  ⟨List.mem_of_find?_eq_some h, by simpa using List.find?_some h⟩

/-- Where columns have names of their own, each is found by its name. -/
theorem column?_of_mem {t : TableSchema} (hn : (t.columns.map (·.name)).Nodup) {c : ColumnSchema}
    (hc : c ∈ t.columns) : t.column? c.name = some c := by
  cases h : t.column? c.name with
  | none =>
    have := List.find?_eq_none.1 h c hc
    simp at this
  | some c' =>
    obtain ⟨hc', hname⟩ := column?_spec h
    rw [List.inj_on_of_nodup_map hn hc' hc hname]

/-- The columns that are shown when none are listed. -/
def shownNames (t : TableSchema) : List String :=
  (t.columns.filter PivotRegistry.isShown).map (·.name)

end TableSchema

/-- Whether a column is a key or a time stamp. -/
def IsKeyOrStamp (column : String) : Prop :=
  column = "id" ∨ column = "created_at" ∨ column = "updated_at" ∨ "_id".toList <:+ column.toList

theorem PivotRegistry.isShown_iff (c : ColumnSchema) : isShown c = true ↔ ¬ IsKeyOrStamp c.name := by
  simp [isShown, IsKeyOrStamp, and_assoc, ← List.isSuffixOf_iff_suffix]

theorem TableSchema.mem_shownNames {t : TableSchema} {name : String} :
    name ∈ t.shownNames ↔ name ∈ t.columns.map (·.name) ∧ ¬ IsKeyOrStamp name := by
  simp only [shownNames, List.mem_map, List.mem_filter, PivotRegistry.isShown_iff]
  constructor
  · rintro ⟨c, ⟨hc, hs⟩, rfl⟩
    exact ⟨⟨c, hc, rfl⟩, hs⟩
  · rintro ⟨⟨c, hc, rfl⟩, hs⟩
    exact ⟨c, ⟨hc, hs⟩, rfl⟩

/-- The columns that a relation selects from its join table. -/
def PivotSource.selectedNames (pivot : PivotSource) (t : TableSchema) : List String :=
  if pivot.columns.isEmpty then t.shownNames else pivot.columns

/-! ## Selections -/

/-- What a selection is, if the table of the pivot is `t`. -/
structure PivotSelection.Selects (s : PivotSelection) (pivot : PivotSource) (t : TableSchema) : Prop where
  columns : s.columns = t.columns
  isExplicit : s.isExplicit = !pivot.columns.isEmpty
  names : s.selected.map (·.name) = pivot.selectedNames t
  mem : ∀ c ∈ s.selected, c ∈ t.columns
  typed : ∀ c ∈ s.selected, (Column.type? c.type).isSome

namespace PivotRegistry

theorem listed_spec {relation : String} {pivot : PivotSource} {t : TableSchema} {cs : List ColumnSchema}
    (h : listed relation pivot t = .ok cs) : cs.map (·.name) = pivot.columns ∧ ∀ c ∈ cs, c ∈ t.columns := by
  unfold listed at h
  rw [mapM_eq_ok] at h
  generalize pivot.columns = names at h ⊢
  induction h with
  | nil => simp
  | @cons name c names cs hc _ ih =>
    split at hc
    · rename_i c' hfound
      cases hc
      obtain ⟨hmem, hname⟩ := TableSchema.column?_spec hfound
      refine ⟨by rw [List.map_cons, hname, ih.1], ?_⟩
      exact List.forall_mem_cons.2 ⟨hmem, ih.2⟩
    · cases hc

theorem checkTypes_eq_ok {table : String} {cs : List ColumnSchema} :
    checkTypes table cs = .ok () ↔ ∀ c ∈ cs, (Column.type? c.type).isSome := by
  unfold checkTypes
  rw [forM_eq_ok]
  refine forall_congr' fun c => forall_congr' fun _ => ?_
  split <;> simp_all

/-- What succeeds is a selection from the table that the schema has. -/
theorem select_spec {r : PivotRegistry} {relation : String} {pivot : PivotSource} {s : PivotSelection}
    (h : r.select relation pivot = .ok s) :
    ∃ t, r.schema.bind (·.table? pivot.table) = some t ∧ s.Selects pivot t := by
  unfold select at h
  split at h
  · cases h
  · rename_i t ht
    refine ⟨t, ht, ?_⟩
    simp only at h
    split at h <;> rename_i hl <;> simp only [bind_eq_ok] at h <;> obtain ⟨selected, hs, ⟨⟩, hc, h⟩ := h <;> cases h
    · obtain ⟨hnames, hmem⟩ := listed_spec hs
      refine ⟨rfl, rfl, ?_, hmem, checkTypes_eq_ok.1 hc⟩
      simp_all [PivotSource.selectedNames]
    · cases hs
      refine ⟨rfl, rfl, ?_, fun c hm => List.mem_of_mem_filter hm, checkTypes_eq_ok.1 hc⟩
      simp_all [PivotSource.selectedNames, TableSchema.shownNames]

end PivotRegistry

end EntityScript
