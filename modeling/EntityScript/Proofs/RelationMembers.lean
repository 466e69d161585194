import EntityScript.Proofs.Accessors
import EntityScript.Proofs.Registration
/-!
# Members of relations

Relations write their members under names in snake case, and pivots theirs under accessors. A member stays unless
another is written under its name later on: pivots come after all relations, and `qualifiedClassName` comes last.
-/

namespace EntityScript

open Text

/-! ## Members of relations and pivots -/

namespace Entity

/-- The one descriptor of the member of a name. -/
def soleDescriptor? (e : Entity) (name : String) : Option Descriptor :=
  match (e.member? name).bind (·.types) with
  | some [d] => some d
  | _ => none

/-- Whether the member under the name of a relation leads to its target, to several if the relation does. -/
def HasRelation (e : Entity) (r : RelationSource) : Prop :=
  ∃ d ∈ e.soleDescriptor? (Name.snake r.name), d.name = Name.base r.target ∧ d.collection = r.kind.isToMany

/-- Whether the member under the accessor of a pivot requires of its interface what the relation requires. -/
def HasPivot (e : Entity) (pivots : PivotRegistry) (r : RelationSource) (pivot : PivotSource) : Prop :=
  ∃ used ∈ (pivots.reference r.name pivot).toOption, ∃ d ∈ e.soleDescriptor? pivot.accessor,
    d.name = Name.pascal pivot.table ++ "Pivot" ∧ d.requiredColumns = some used.required

instance (e : Entity) (r : RelationSource) : Decidable (e.HasRelation r) :=
  inferInstanceAs (Decidable (∃ d ∈ e.soleDescriptor? (Name.snake r.name), _))

instance (e : Entity) (pivots : PivotRegistry) (r : RelationSource) (pivot : PivotSource) :
    Decidable (e.HasPivot pivots r pivot) :=
  inferInstanceAs (Decidable (∃ used ∈ (pivots.reference r.name pivot).toOption, _))

end Entity

/-! ## Names in snake case -/

namespace Text

theorem isUpper_of_lt {c : Char} (h : 90 < c.toNat) : c.isUpper = false := by
  have hle : ¬ c.toNat ≤ 'Z'.toNat := by simpa using h
  unfold Char.isUpper
  simp [UInt32.le_iff_toNat_le] at *
  omega

theorem isUpper_ofNat {n : Nat} (h : 90 < n) : (Char.ofNat n).isUpper = false := by
  rcases ofNat_cases n with hn | hn
  · exact isUpper_of_lt (by rwa [hn])
  · rw [hn]
    rfl

/-- No character has a capital of ASCII as its lower case. -/
theorem isUpper_lower {c d : Char} (h : d ∈ lower c) : d.isUpper = false := by
  have hexpansions : ∀ p ∈ lowerExpansions, ∀ n ∈ p.2, (Char.ofNat n).isUpper = false := by decide
  have hruns : ∀ r ∈ lowerRuns, 90 < r.target := by decide +kernel
  by_cases hlt : c.toNat < 128
  · rw [lower_of_ascii hlt] at h
    rw [List.mem_singleton.1 h]
    exact forall_ascii (P := fun c => c.toLower.isUpper = false) (by decide +kernel) hlt
  · rw [lower, if_neg hlt] at h
    rcases mapCase_cases lowerExpansions lowerRuns c with ⟨codes, hcodes, heq⟩ | ⟨r, hr, -, heq⟩ | heq
    · rw [heq] at h
      obtain ⟨n, hn, rfl⟩ := List.mem_map.1 h
      exact hexpansions _ hcodes n hn
    · rw [heq] at h
      have htarget := hruns r hr
      rw [List.mem_singleton.1 h]
      exact isUpper_ofNat (by omega)
    · rw [heq] at h
      rw [List.mem_singleton.1 h]
      exact isUpper_of_lt (by omega)

end Text

/-- A name in snake case has no capitals of ASCII. -/
theorem Name.isUpper_snake {s : String} {c : Char} (h : c ∈ (Name.snake s).toList) : c.isUpper = false := by
  have hdash : ∀ d : Char, d.isUpper = false → (if d = '-' then '_' else d).isUpper = false := by
    intro d hd
    split
    · rfl
    · exact hd
  rw [Name.snake, String.toList_ofList] at h
  cases hs : s.toList with
  | nil =>
    rw [hs] at h
    cases h
  | cons a cs =>
    rw [hs, snakeChars] at h
    obtain ⟨d, hd, rfl⟩ := List.mem_map.1 h
    refine hdash d ?_
    rcases List.mem_append.1 hd with hd | hd
    · exact isUpper_lower hd
    · obtain ⟨b, -, hd⟩ := List.mem_flatMap.1 hd
      unfold snakeChar at hd
      split at hd
      · rcases List.mem_cons.1 hd with rfl | hd
        · rfl
        · exact isUpper_lower hd
      · exact isUpper_lower hd

theorem Name.snake_ne_qualified (s : String) : Name.snake s ≠ "qualifiedClassName" := by
  intro h
  have hcapital : 'C' ∈ (Name.snake s).toList := by
    rw [h]
    decide
  exact absurd (Name.isUpper_snake hcapital) (by decide)

namespace ModelSource

variable (m : ModelSource) (pivots : PivotRegistry)

/-- The last relation that writes under a name. -/
def lastRelation? (name : String) : Option RelationSource :=
  m.relations.reverse.find? (Name.snake ·.name == name)

/-- The last relation whose pivot writes under a name. -/
def lastAccess? (name : String) : Option RelationSource :=
  m.relations.reverse.find? (·.pivot.any (·.accessor == name))

/-- Whether the last to write under the name of a relation says the same of it. -/
def RelationStays (r : RelationSource) : Prop :=
  match m.lastAccess? (Name.snake r.name) with
  | some r' => r.kind.isToMany = false ∧ ∃ pivot ∈ r'.pivot, Name.pascal pivot.table ++ "Pivot" = Name.base r.target
  | none => ∃ r' ∈ m.lastRelation? (Name.snake r.name),
      Name.base r'.target = Name.base r.target ∧ r'.kind.isToMany = r.kind.isToMany

/-- Whether the last pivot to write under an accessor is referred to in the same way, and nothing else is written
there. -/
def PivotStays (r : RelationSource) (pivot : PivotSource) : Prop :=
  pivot.accessor ≠ "qualifiedClassName" ∧ ∃ r' ∈ m.lastAccess? pivot.accessor, ∃ pivot' ∈ r'.pivot,
    pivots.reference r'.name pivot' = pivots.reference r.name pivot

variable {m pivots}

/-! ## References to pivots -/

theorem reference_spec {relation : String} {pivot : PivotSource} {used : PivotUse}
    (h : pivots.reference relation pivot = .ok used) :
    used.interfaceName = Name.pascal pivot.table ++ "Pivot" ∧ Text.distinct used.required = used.required := by
  unfold PivotRegistry.reference at h
  obtain ⟨sel, -, h⟩ := bind_eq_ok.1 h
  split at h
  · cases h
  · rename_i i hi
    cases h
    have htable : i.table = pivot.table := by simpa using List.find?_some hi
    exact ⟨by rw [← htable]; rfl, distinct_of_nodup (nodup_distinct _)⟩

/-- What a model without documentation shows under a name: the qualified name, the last pivot, the last relation,
or what was there before. -/
theorem member?_build {o : Options} {schema : Option Schema} {e : Entity} (hdoc : m.doc = "")
    (h : (m.build o schema pivots).outcome = .ok e) (name : String) : ∃ rest, e.member? name =
      (if name = "qualifiedClassName" then some m.qualifiedNameMember else none).or
        (((m.lastAccess? name).bind (pivotMember? pivots)).or
          (((m.lastRelation? name).map relationMember).or rest)) := by
  obtain ⟨relations, columns, hrelations, -, hmember⟩ := exists_contributions_of_build h
  have hdocumented : m.documented = [] := by
    rw [documented, hdoc]
    rfl
  have hpivot : (m.relations.filterMap (pivotMember? pivots)).reverse.find? (·.name == name) =
      (m.lastAccess? name).bind (pivotMember? pivots) := by
    have hname : ∀ r ∈ m.relations.reverse,
        (pivotMember? pivots r).any (·.name == name) = r.pivot.any (·.accessor == name) := by
      intro r hr
      cases hp : r.pivot with
      | none => simp [pivotMember?, hp]
      | some pivot =>
        obtain ⟨used, -, hmember⟩ := pivotMember?_of_mem hrelations (List.mem_reverse.1 hr) hp
        rw [hmember]
        rfl
    rw [← List.filterMap_reverse, List.find?_filterMap, lastAccess?, ← List.head?_filter, ← List.head?_filter,
      List.filter_congr hname]
  have hrelation : (m.relations.map relationMember).reverse.find? (·.name == name) =
      (m.lastRelation? name).map relationMember := by
    rw [← List.map_reverse, List.find?_map]
    rfl
  have hqualified : [m.qualifiedNameMember].find? (·.name == name) =
      if name = "qualifiedClassName" then some m.qualifiedNameMember else none := by
    by_cases hname : name = "qualifiedClassName"
    · simp [hname]
    · simp [hname, Ne.symm hname]
  rw [hmember, contributions, hdocumented, pivotMembers_eq hrelations]
  simp only [List.map_nil, List.append_nil, List.reverse_append, List.reverse_singleton, List.find?_append,
    hqualified, hpivot, hrelation]
  exact ⟨_, rfl⟩

theorem soleDescriptor?_relation {e : Entity} {name : String} {r : RelationSource}
    (h : e.member? name = some (relationMember r)) :
    ∃ d, e.soleDescriptor? name = some d ∧ d.name = Name.base r.target ∧ d.collection = r.kind.isToMany := by
  rw [Entity.soleDescriptor?, h]
  refine ⟨_, rfl, ?_, ?_⟩ <;> cases r.pivot <;> cases r.kind.isToMany <;> rfl

theorem soleDescriptor?_pivot {e : Entity} {name : String} {r : RelationSource} {pivot : PivotSource}
    {used : PivotUse} (hused : pivots.reference r.name pivot = .ok used)
    (h : e.member? name = some (pivotMember pivot used)) :
    ∃ d, e.soleDescriptor? name = some d ∧ d.name = Name.pascal pivot.table ++ "Pivot" ∧ d.collection = false ∧
      d.requiredColumns = some used.required := by
  obtain ⟨hname, hrequired⟩ := reference_spec hused
  rw [Entity.soleDescriptor?, h]
  exact ⟨_, rfl, hname, rfl, congrArg some hrequired⟩

theorem lastAccess?_eq_some {name : String} {r : RelationSource} (h : m.lastAccess? name = some r) :
    r ∈ m.relations ∧ ∃ pivot, r.pivot = some pivot ∧ pivot.accessor = name := by
  have hfound := List.find?_some h
  refine ⟨List.mem_reverse.1 (List.mem_of_find?_eq_some h), ?_⟩
  simpa [Option.any_eq_true] using hfound

section Build

variable {o : Options} {schema : Option Schema} {e : Entity} (hdoc : m.doc = "")
  (h : (m.build o schema pivots).outcome = .ok e)
include hdoc h

/-- Where a pivot writes, the last one stays. -/
theorem member?_of_lastAccess {name : String} (hname : name ≠ "qualifiedClassName") {r : RelationSource}
    (hr : m.lastAccess? name = some r) : ∃ pivot used, r.pivot = some pivot ∧
      pivots.reference r.name pivot = .ok used ∧ e.member? name = some (pivotMember pivot used) := by
  obtain ⟨relations, -, hrelations, -, -⟩ := build_eq_ok.1 h
  obtain ⟨hmem, pivot, hp, -⟩ := lastAccess?_eq_some hr
  obtain ⟨used, hused, hmember⟩ := pivotMember?_of_mem hrelations hmem hp
  obtain ⟨rest, hrest⟩ := member?_build hdoc h name
  rw [if_neg hname, hr, Option.none_or, Option.bind_some, hmember, Option.some_or] at hrest
  exact ⟨pivot, used, hp, hused, hrest⟩

/-- Where relations write and no pivot does, the last one stays. -/
theorem member?_of_lastRelation {name : String} (hname : name ≠ "qualifiedClassName")
    (hnone : m.lastAccess? name = none) {r : RelationSource} (hr : m.lastRelation? name = some r) :
    e.member? name = some (relationMember r) := by
  obtain ⟨rest, hrest⟩ := member?_build hdoc h name
  rwa [if_neg hname, hnone, hr, Option.none_or, Option.bind_none, Option.none_or, Option.map_some,
    Option.some_or] at hrest

theorem hasRelation_iff {r : RelationSource} (hr : r ∈ m.relations) : e.HasRelation r ↔ m.RelationStays r := by
  have hname := Name.snake_ne_qualified r.name
  unfold Entity.HasRelation RelationStays
  cases hlast : m.lastAccess? (Name.snake r.name) with
  | some r' =>
    obtain ⟨pivot, used, hp, hused, hmember⟩ := member?_of_lastAccess hdoc h hname hlast
    obtain ⟨d, hd, hdname, hcollection, -⟩ := soleDescriptor?_pivot hused hmember
    constructor
    · rintro ⟨d', hd', hbase, hmany⟩
      obtain rfl := Option.some.inj (hd.symm.trans hd')
      exact ⟨hmany.symm.trans hcollection, pivot, hp, hdname.symm.trans hbase⟩
    · rintro ⟨hmany, pivot', hp', hbase⟩
      obtain rfl := Option.some.inj (hp.symm.trans hp')
      exact ⟨d, hd, hdname.trans hbase, hcollection.trans hmany.symm⟩
  | none =>
    obtain ⟨r', hr'⟩ : ∃ r', m.lastRelation? (Name.snake r.name) = some r' := by
      rw [← Option.isSome_iff_exists, lastRelation?, List.find?_isSome]
      exact ⟨r, List.mem_reverse.2 hr, by simp⟩
    obtain ⟨d, hd, hdname, hcollection⟩ := soleDescriptor?_relation (member?_of_lastRelation hdoc h hname hlast hr')
    simp [hd, hr', hdname, hcollection]

theorem hasPivot_iff {r : RelationSource} (hr : r ∈ m.relations) {pivot : PivotSource} (hp : r.pivot = some pivot) :
    e.HasPivot pivots r pivot ↔ m.PivotStays pivots r pivot := by
  obtain ⟨relations, -, hrelations, -, -⟩ := build_eq_ok.1 h
  obtain ⟨used, hused, -⟩ := pivotMember?_of_mem hrelations hr hp
  unfold Entity.HasPivot PivotStays
  by_cases hname : pivot.accessor = "qualifiedClassName"
  · obtain ⟨rest, hrest⟩ := member?_build hdoc h pivot.accessor
    rw [if_pos hname, Option.some_or] at hrest
    have hsole : e.soleDescriptor? pivot.accessor = some (.named "string") := by
      rw [Entity.soleDescriptor?, hrest]
      rfl
    constructor
    · rintro ⟨_, -, d, hd, -, hrequired⟩
      rw [hsole] at hd
      cases hd
      cases hrequired
    · exact fun hstays => absurd hname hstays.1
  · obtain ⟨r', hr'⟩ : ∃ r', m.lastAccess? pivot.accessor = some r' := by
      rw [← Option.isSome_iff_exists, lastAccess?, List.find?_isSome]
      exact ⟨r, List.mem_reverse.2 hr, by simp [hp]⟩
    obtain ⟨pivot', used', hp', hused', hmember⟩ := member?_of_lastAccess hdoc h hname hr'
    obtain ⟨d, hd, hdname, -, hrequired⟩ := soleDescriptor?_pivot hused' hmember
    constructor
    · rintro ⟨_, hused₂, d₂, hd₂, hdname₂, hrequired₂⟩
      obtain rfl := Except.ok.inj (hused.symm.trans (toOption_eq_some.1 hused₂))
      obtain rfl := Option.some.inj (hd.symm.trans hd₂)
      have hinterface : used'.interfaceName = used.interfaceName := by
        rw [(reference_spec hused').1, (reference_spec hused).1, ← hdname, hdname₂]
      have hsame : used' = used :=
        congrArg₂ PivotUse.mk hinterface (Option.some.inj (hrequired.symm.trans hrequired₂))
      exact ⟨hname, r', hr', pivot', hp', by rw [hused', hsame, hused]⟩
    · rintro ⟨-, _, hr₂, _, hp₂, heq⟩
      obtain rfl := Option.some.inj (hr'.symm.trans hr₂)
      obtain rfl := Option.some.inj (hp'.symm.trans hp₂)
      obtain rfl := Except.ok.inj (hused'.symm.trans (heq.trans hused))
      refine ⟨used', toOption_eq_some.2 hused, d, hd, hdname.trans ?_, hrequired⟩
      exact (reference_spec hused').1.symm.trans (reference_spec hused).1

end Build

/-- Of all that writes under a name the last stays. So the member of a relation is found if and only if the last to
write under the name says the same of it; and that of a pivot if and only if the last pivot of its accessor is
referred to in the same way, and the accessor is not the name of the qualified name. -/
theorem relations_stay_iff {o : Options} {schema : Option Schema} {e : Entity} (hdoc : m.doc = "")
    (h : (m.build o schema pivots).outcome = .ok e) :
    (∀ r ∈ m.relations, e.HasRelation r ↔ m.RelationStays r) ∧
    ∀ r ∈ m.relations, ∀ pivot, r.pivot = some pivot → (e.HasPivot pivots r pivot ↔ m.PivotStays pivots r pivot) :=
  ⟨fun _ hr => hasRelation_iff hdoc h hr, fun _ hr _ hp => hasPivot_iff hdoc h hr hp⟩

/-! ## Members that are lost -/

/-- Two relations of one name in snake case, one of the name of an accessor, two pivots of one accessor, and a pivot
under the name of the qualified name. -/
def crowdedText : String :=
  "name=\"T\"\nrelations=[" ++
  "\x7bname=\"isA\",kind=\"has_one\",target=\"A\",pivot=\x7btable=\"p\",accessor=\"qualifiedClassName\"\x7d\x7d," ++
  "\x7bname=\"is_a\",kind=\"has_one\",target=\"B\",pivot=\x7btable=\"q\"\x7d\x7d," ++
  "\x7bname=\"pivot\",kind=\"has_one\",target=\"C\",pivot=\x7btable=\"p\"\x7d\x7d]\n"

def crowdedSchema : String :=
  "tables.p.columns=[]\ntables.q.columns=[]\n"

/-- The model of that text, the pivots that it registers and its entity. -/
def crowded? : Option (ModelSource × PivotRegistry × Entity) := do
  let s ← (Schema.parse "schema.toml" crowdedSchema).toOption
  let .model m ← (EntitySource.parse "team.toml" crowdedText).toOption | none
  let (pivots, .ok ()) := PivotRegistry.registerModels { schema := some s } [m] | none
  let e ← (m.build {} (some s) pivots).outcome.toOption
  return (m, pivots, e)

theorem crowded?_eq_some {m : ModelSource} {pivots : PivotRegistry} {e : Entity}
    (h : crowded? = some (m, pivots, e)) : EntitySource.parse "team.toml" crowdedText = .ok (.model m) ∧
      ∃ s, Schema.parse "schema.toml" crowdedSchema = .ok s ∧
        PivotRegistry.registerModels { schema := some s } [m] = (pivots, .ok ()) ∧
        (m.build {} (some s) pivots).outcome = .ok e := by
  simp only [crowded?, Option.bind_eq_bind, Option.bind_eq_some_iff, toOption_eq_some] at h
  obtain ⟨s, hs, source, hm, h⟩ := h
  cases source with
  | enumeration _ => cases h
  | model m' =>
    dsimp only at h
    split at h
    · rename_i pivots' hr
      obtain ⟨e', he, h⟩ := Option.bind_eq_some_iff.1 h
      cases h
      exact ⟨hm, s, hs, hr, toOption_eq_some.1 he⟩
    · cases h

/-- Of each relation its name, and whether its member and that of its pivot are found. -/
theorem crowded?_found : crowded?.map (fun (m, pivots, e) => (m.doc, m.relations.map fun r =>
    (r.name, decide (e.HasRelation r), r.pivot.map fun pivot => decide (e.HasPivot pivots r pivot)))) =
      some ("", [("isA", false, some false), ("is_a", true, some false), ("pivot", false, some true)]) := by
  decide +kernel

theorem crowded_built : ∃ m s pivots e, EntitySource.parse "team.toml" crowdedText = .ok (.model m) ∧ m.doc = "" ∧
    Schema.parse "schema.toml" crowdedSchema = .ok s ∧
    PivotRegistry.registerModels { schema := some s } [m] = (pivots, .ok ()) ∧
    (m.build {} (some s) pivots).outcome = .ok e ∧
    ∀ x ∈ [("isA", false, false), ("is_a", true, false), ("pivot", false, true)], ∃ r ∈ m.relations, ∃ pivot,
      r.name = x.1 ∧ r.pivot = some pivot ∧ decide (e.HasRelation r) = x.2.1 ∧
        decide (e.HasPivot pivots r pivot) = x.2.2 := by
  obtain ⟨⟨m, pivots, e⟩, hcrowded, hfound⟩ := Option.map_eq_some_iff.1 crowded?_found
  obtain ⟨hparse, s, hs, hr, hbuild⟩ := crowded?_eq_some hcrowded
  obtain ⟨hdoc, hfound⟩ := Prod.mk.inj hfound
  refine ⟨m, s, pivots, e, hparse, hdoc, hs, hr, hbuild, fun x hx => ?_⟩
  have hmem : (x.1, x.2.1, some x.2.2) ∈
      [("isA", false, some false), ("is_a", true, some false), ("pivot", false, some true)] := by
    revert x
    decide
  rw [← hfound] at hmem
  obtain ⟨r, hrel, hx⟩ := List.mem_map.1 hmem
  simp only [Prod.mk.injEq, Option.map_eq_some_iff] at hx
  obtain ⟨hname, hhas, pivot, hp, hpivot⟩ := hx
  exact ⟨r, hrel, pivot, hname, hp, hhas, hpivot⟩

/-- The later of two relations of one name and the later of two pivots of one accessor stay. -/
theorem crowded_stays : ∃ m s pivots e, EntitySource.parse "team.toml" crowdedText = .ok (.model m) ∧
    m.doc = "" ∧ (m.build {} (some s) pivots).outcome = .ok e ∧
    (∃ r ∈ m.relations, r.name = "is_a" ∧ e.HasRelation r ∧ m.RelationStays r) ∧
    ∃ r ∈ m.relations, r.name = "pivot" ∧ ∃ pivot, r.pivot = some pivot ∧ e.HasPivot pivots r pivot ∧
      m.PivotStays pivots r pivot := by
  obtain ⟨m, s, pivots, e, hparse, hdoc, -, -, hbuild, hfound⟩ := crowded_built
  obtain ⟨hrelation, hpivot⟩ := relations_stay_iff hdoc hbuild
  obtain ⟨r, hr, -, hname, -, hhas, -⟩ := hfound ("is_a", true, false) (by decide)
  obtain ⟨r', hr', pivot, hname', hp, -, hhas'⟩ := hfound ("pivot", false, true) (by decide)
  rw [decide_eq_true_eq] at hhas hhas'
  exact ⟨m, s, pivots, e, hparse, hdoc, hbuild, ⟨r, hr, hname, hhas, (hrelation r hr).1 hhas⟩,
    ⟨r', hr', hname', pivot, hp, hhas', (hpivot r' hr' pivot hp).1 hhas'⟩⟩

/-- A relation is lost to another and one to an accessor, a pivot to the qualified name and one to another pivot. -/
theorem crowded_lost : ∃ m s pivots e, EntitySource.parse "team.toml" crowdedText = .ok (.model m) ∧ m.doc = "" ∧
    Schema.parse "schema.toml" crowdedSchema = .ok s ∧
    PivotRegistry.registerModels { schema := some s } [m] = (pivots, .ok ()) ∧
    (m.build {} (some s) pivots).outcome = .ok e ∧
    (∃ r ∈ m.relations, ∃ pivot, r.name = "isA" ∧ r.pivot = some pivot ∧ ¬ e.HasRelation r ∧
      ¬ e.HasPivot pivots r pivot) ∧
    (∃ r ∈ m.relations, ∃ pivot, r.name = "is_a" ∧ r.pivot = some pivot ∧ ¬ e.HasPivot pivots r pivot) ∧
    ∃ r ∈ m.relations, r.name = "pivot" ∧ ¬ e.HasRelation r := by
  obtain ⟨m, s, pivots, e, hparse, hdoc, hs, hr, hbuild, hfound⟩ := crowded_built
  refine ⟨m, s, pivots, e, hparse, hdoc, hs, hr, hbuild, ?_, ?_, ?_⟩
  · obtain ⟨r, hr, pivot, hname, hp, hhas, hpivot⟩ := hfound ("isA", false, false) (by decide)
    exact ⟨r, hr, pivot, hname, hp, of_decide_eq_false hhas, of_decide_eq_false hpivot⟩
  · obtain ⟨r, hr, pivot, hname, hp, -, hpivot⟩ := hfound ("is_a", true, false) (by decide)
    exact ⟨r, hr, pivot, hname, hp, of_decide_eq_false hpivot⟩
  · obtain ⟨r, hr, -, hname, -, hhas, -⟩ := hfound ("pivot", false, true) (by decide)
    exact ⟨r, hr, hname, of_decide_eq_false hhas⟩

end ModelSource

end EntityScript
