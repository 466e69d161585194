import EntityScript.Proofs.Constructors
import EntityScript.Proofs.FileNames
import EntityScript.Proofs.Precedence
import EntityScript.Proofs.References
/-!
# Constructed classes

A constructor builds values of the names that relations, columns and declared members ask for. Whether such a name is
a class is judged by its spelling alone, so what has no constructor, an enum or the interface of a pivot, is built
just if one of them asks for it.
-/

namespace EntityScript

/-! ## What an assignment builds -/

/-- Whether an expression makes values of a class of what is given for a field: of the one, or of each of several. -/
def Builds (field cls value : String) : Prop :=
  value = "init?." ++ field ++ " ? new " ++ cls ++ "(init." ++ field ++ ") : undefined" ∨
    value = "init?." ++ field ++ " ? init." ++ field ++ ".map(v => new " ++ cls ++ "(v)) : []"

/-- An expression makes values of one class. -/
theorem Builds.unique {field cls cls' value : String} (h : Builds field cls value) (h' : Builds field cls' value) :
    cls = cls' := by
  rw [← String.toList_inj]
  rcases h with rfl | rfl <;> rcases h' with h' | h' <;> simp [← String.toList_inj] at h'
  · exact h'
  · exact h'

/-- An assignment that falls back to what is given makes nothing. -/
theorem not_builds_given {field cls : String} : ¬ Builds field cls ("init?." ++ field ++ " ?? []") := by
  rintro (h | h) <;> simp [← String.toList_inj] at h

/-- Whether a name is that of a class, as far as its spelling goes. -/
def NamesClass (name : String) : Prop :=
  name = "Date" ∨ name ∉ Descriptor.primitives ∧ ∀ c ∈ name.toList, Text.isWordChar c = true

instance (name : String) : Decidable (NamesClass name) :=
  decidable_of_iff (name = "Date" ∨ name ∉ Descriptor.primitives ∧ name.toList.all Text.isWordChar = true)
    (by simp [NamesClass])

/-- What the class of a name is called in a context; dates keep their name. -/
def Context.classOf (ctx : Context) (name : String) : String :=
  if name = "Date" then name else ctx.rename name

theorem Context.classOf_regular (o : Options) (name : String) : (regular o).classOf name = name := by
  unfold classOf
  split <;> rfl

theorem Descriptor.constructed?_eq_some {d : Descriptor} {ctx : Context} {cls : String} :
    d.constructed? ctx = some cls ↔ d.forcedPrimitive = false ∧ NamesClass d.name ∧ ctx.classOf d.name = cls := by
  unfold constructed? isConstructible isPrimitive isDate NamesClass Context.classOf
  cases d.forcedPrimitive <;> by_cases hdate : d.name = "Date" <;> simp [hdate, and_assoc]

namespace Entity

/-- Whether the constructor of an entity makes values of a class. -/
def Constructs (e : Entity) (ctx : Context) (cls : String) : Prop :=
  ∃ a ∈ e.assigned ctx, Builds a.1.name cls a.2

theorem builds_iff_constructed? {field value cls : String} {d : Descriptor} {ctx : Context}
    (h : initializer? field d ctx = some value) : Builds field cls value ↔ d.constructed? ctx = some cls := by
  rw [initializer?_eq] at h
  cases hd : d.constructed? ctx with
  | some name =>
    rw [hd] at h
    have hbuilds : Builds field name value := by
      rw [← Option.some.inj h]
      cases d.collection
      · exact .inl (by simp [← String.toList_inj])
      · exact .inr (by simp [← String.toList_inj])
    constructor
    · intro hcls
      rw [hcls.unique hbuilds]
    · intro hcls
      rwa [← Option.some.inj hcls]
  | none =>
    simp only [hd, Option.ite_none_right_eq_some, Option.some.injEq] at h
    rw [← h.2]
    exact iff_of_false not_builds_given (by simp)

theorem constructs_iff {e : Entity} {ctx : Context} {cls : String} :
    e.Constructs ctx cls ↔ ∃ x ∈ e.members, x.constructed? ctx = some cls := by
  constructor
  · rintro ⟨⟨x, value⟩, ha, hbuilds⟩
    obtain ⟨hx, ha⟩ := mem_assigned.1 ha
    obtain ⟨-, hconstant, hverbatim, d, hd, hvalue⟩ := assigned?_eq_some.1 ha
    refine ⟨x, hx, ?_⟩
    simp [Member.constructed?, hconstant, hverbatim, hd, (builds_iff_constructed? hvalue).1 hbuilds]
  · rintro ⟨x, hx, h⟩
    unfold Member.constructed? at h
    split at h
    · cases h
    · rename_i hshown
      rw [Bool.or_eq_true, not_or, Bool.not_eq_true, Bool.not_eq_true] at hshown
      obtain ⟨d, hd, hcls⟩ := Option.bind_eq_some_iff.1 h
      have hvalue : ∃ value, initializer? x.name d ctx = some value := by
        rw [initializer?_eq, hcls]
        exact ⟨_, rfl⟩
      obtain ⟨value, hvalue⟩ := hvalue
      exact ⟨(x, value), mem_assigned.2 ⟨hx, assigned?_eq_some.2 ⟨rfl, hshown.1, hshown.2, d, hd, hvalue⟩⟩,
        (builds_iff_constructed? hvalue).2 hcls⟩

end Entity

/-! ## What asks for a class -/

/-- The one alternative that is written, if there is no other. -/
def soleName? (types : List Descriptor) : Option String :=
  match types.filter (!·.isUndefined) with
  | [d] => some d.name
  | _ => none

/-- The name that a contribution asks a constructor for. What is documented or read through a pivot stays as it is,
and constants and literals are not assigned. -/
def Contribution.asked? (known : List String) : Contribution → Option String
  | .declared d => if d.literal.isSome then none else d.type.bind fun type => soleName? (Signal.resolveText known type)
  | .column c => Column.type? c.type
  | .relation r => some (Name.base r.target)
  | .constant _ _ | .pivot _ _ | .documented _ | .qualifiedName => none

namespace ModelSource

variable {m : ModelSource} {o : Options} {schema : Option Schema} {pivots : PivotRegistry} {known : List String}
  {ctx : Context}

/-- The classes that a model asks its constructor for: those that the last contributions under their names ask for. -/
def asked (m : ModelSource) (schema : Option Schema) (known : List String) : List String :=
  ((m.sources schema).map (·.name)).filterMap fun name =>
    (((m.sources schema).reverse.find? (·.name == name)).bind (·.asked? known)).filter (NamesClass ·)

theorem soleType?_typed (name : String) (types : List Descriptor) :
    (Member.typed name types).soleType? = match types.filter (!·.isUndefined) with
      | [d] => some d
      | _ => none := rfl

/-- What is constructed for a member of a type is the class that its one written alternative names. -/
theorem constructed?_typed {name cls : String} {types : List Descriptor}
    (hfree : ∀ d ∈ types, d.forcedPrimitive = false) : (Member.typed name types).constructed? ctx = some cls ↔
      ∃ n, soleName? types = some n ∧ NamesClass n ∧ ctx.classOf n = cls := by
  have hshown : ((Member.typed name types).isConstant || (Member.typed name types).verbatim) = false := rfl
  rw [Member.constructed?, hshown, if_neg Bool.false_ne_true, soleType?_typed, soleName?]
  split
  · rename_i d hd
    have hmem : d ∈ types := (List.mem_filter.1 (hd ▸ List.mem_singleton_self d)).1
    simp [Descriptor.constructed?_eq_some, hfree d hmem]
  · simp

theorem constructed?_typed_forced {name : String} {types : List Descriptor}
    (hforced : ∀ d ∈ types, d.forcedPrimitive = true) : (Member.typed name types).constructed? ctx = none := by
  have hshown : ((Member.typed name types).isConstant || (Member.typed name types).verbatim) = false := rfl
  rw [Member.constructed?, hshown, if_neg Bool.false_ne_true, soleType?_typed]
  split
  · rename_i d hd
    have hmem : d ∈ types := (List.mem_filter.1 (hd ▸ List.mem_singleton_self d)).1
    rw [Option.bind_some, Option.eq_none_iff_forall_ne_some]
    intro cls hcls
    rw [Descriptor.constructed?_eq_some, hforced d hmem] at hcls
    cases hcls.1
  · rfl

/-- What a contribution asks for is what is constructed for its member. -/
theorem constructed?_contributed {c : Contribution} {x : Member} {cls : String}
    (h : m.contributed? o pivots known c = some x) :
    x.constructed? ctx = some cls ↔ ∃ n, c.asked? known = some n ∧ NamesClass n ∧ ctx.classOf n = cls := by
  cases c with
  | constant name value =>
    cases h
    exact iff_of_false (fun h => by cases h) (by simp [Contribution.asked?])
  | declared d =>
    cases h
    obtain ⟨name, type, accessor, literal⟩ := d
    cases literal with
    | some literal => exact iff_of_false (fun h => by cases h) (by simp [Contribution.asked?])
    | none =>
      cases type with
      | none => exact iff_of_false (fun h => by cases h) (by simp [Contribution.asked?])
      | some type => exact constructed?_typed (Signal.forall_resolveText (fun _ => rfl) (fun _ h => h) known type)
  | column c =>
    obtain ⟨table, -, hx⟩ := Option.bind_eq_some_iff.1 h
    have hx := toOption_eq_some.1 hx
    unfold columnMember at hx
    split at hx
    · rename_i type htype
      cases hx
      have hundefined : type ≠ "undefined" := by
        rintro rfl
        exact absurd (Column.type?_mem htype) (by decide)
      have hsole : soleName? (.named type :: if c.nullable then [.undefined] else []) = some type := by
        cases c.nullable <;>
          simp [soleName?, Descriptor.isUndefined, Descriptor.named, Descriptor.undefined, hundefined]
      rw [constructed?_typed (by cases c.nullable <;> simp [Descriptor.named, Descriptor.undefined]), hsole,
        Contribution.asked?, htype]
    · cases hx
  | relation r =>
    cases h
    have htarget : ∃ d, relationMember r = .typed (Name.snake r.name) [d] ∧ d.name = Name.base r.target ∧
        d.forcedPrimitive = false := by
      cases hmany : r.kind.isToMany <;> cases hpivot : r.pivot <;>
        exact ⟨_, by simp only [relationMember, hmany, hpivot]; rfl, rfl, rfl⟩
    obtain ⟨d, hmember, hname, hfree⟩ := htarget
    rw [hmember, constructed?_typed (List.forall_mem_singleton.2 hfree), Contribution.asked?, soleName?]
    by_cases hundefined : d.name = "undefined"
    · have hclass : ¬ NamesClass "undefined" := by decide
      rw [← hname, hundefined]
      simp [Descriptor.isUndefined, hundefined, hclass]
    · have hfilter : [d].filter (!·.isUndefined) = [d] := by simp [Descriptor.isUndefined, hundefined]
      simp only [hfilter, hname]
  | pivot r p =>
    obtain ⟨used, -, rfl⟩ := Option.map_eq_some_iff.1 h
    rw [pivotMember, constructed?_typed_forced (by simp [Descriptor.asPrimitive])]
    exact iff_of_false (fun h => by cases h) (by simp [Contribution.asked?])
  | documented p =>
    cases h
    rw [documentedMember, constructed?_typed_forced (by simp [Descriptor.asPrimitive])]
    exact iff_of_false (fun h => by cases h) (by simp [Contribution.asked?])
  | qualifiedName =>
    cases h
    exact iff_of_false (fun h => by cases h) (by simp [Contribution.asked?])

theorem mem_asked {schema : Option Schema} {n : String} : n ∈ m.asked schema known ↔
    ∃ c ∈ m.sources schema, ∃ last, (m.sources schema).reverse.find? (·.name == c.name) = some last ∧
      last.asked? known = some n ∧ NamesClass n := by
  simp only [asked, List.mem_filterMap, List.mem_map, Option.filter_eq_some_iff, Option.bind_eq_some_iff,
    decide_eq_true_eq]
  constructor
  · rintro ⟨name, ⟨c, hc, rfl⟩, ⟨last, hlast, hn⟩, hclass⟩
    exact ⟨c, hc, last, hlast, hn, hclass⟩
  · rintro ⟨c, hc, last, hlast, hn, hclass⟩
    exact ⟨c.name, ⟨c, hc, rfl⟩, ⟨last, hlast, hn⟩, hclass⟩

/-- The constructor of a built model makes values of just the classes that the model asks for. -/
theorem constructs_iff_asked {e : Entity} (h : (m.build o schema pivots).outcome = .ok e) :
    ∃ relations, m.pivotUses pivots = .ok relations ∧ ∀ ctx cls, e.Constructs ctx cls ↔
      ∃ n ∈ m.asked schema (m.knownNames (m.start o relations)), Context.classOf ctx n = cls := by
  obtain ⟨relations, hrelations, hmember⟩ := member?_of_build h
  refine ⟨relations, hrelations, fun ctx cls => Entity.constructs_iff.trans ?_⟩
  constructor
  · rintro ⟨x, hx, hcls⟩
    have hfound := hmember x.name
    rw [Entity.member?_eq_some.2 ⟨hx, rfl⟩, eq_comm, Option.bind_eq_some_iff] at hfound
    obtain ⟨last, hlast, hlastx⟩ := hfound
    obtain ⟨n, hn, hclass, hcls⟩ := (constructed?_contributed hlastx).1 hcls
    have hname : last.name = x.name := by simpa using List.find?_some hlast
    rw [← hname] at hlast
    exact ⟨n, mem_asked.2 ⟨last, List.mem_reverse.1 (List.mem_of_find?_eq_some hlast), last, hlast, hn, hclass⟩, hcls⟩
  · rintro ⟨n, hn, hcls⟩
    obtain ⟨c, -, last, hlast, hn, hclass⟩ := mem_asked.1 hn
    obtain ⟨x, hx⟩ := exists_contributed? h (List.mem_reverse.1 (List.mem_of_find?_eq_some hlast))
      (m.knownNames (m.start o relations))
    have hfound := hmember c.name
    rw [hlast, Option.bind_some, hx] at hfound
    exact ⟨x, (Entity.member?_eq_some.1 hfound).1, (constructed?_contributed hx).2 ⟨n, hn, hclass, hcls⟩⟩

end ModelSource

/-! ## Classes of a project -/

namespace Project

variable {p : Project} {d : Disk} {files : List OutputFile}

/-- The names of the enums of a project. -/
def enumNames (p : Project) : List String :=
  p.sources.flatMap fun s =>
    match s.entity with
    | .model _ => []
    | .enumeration source => [source.name]

/-- The names of the classes of a project: its models and their `New` variants. -/
def classNames (p : Project) : List String :=
  p.models.flatMap fun m => p.entityNames (.model m)

/-- The names of the pivot interfaces of a project. -/
def interfaceNames (p : Project) : List String :=
  p.pivotTables.map pivotName

/-- The contexts in which the models of a project are written. -/
def contexts (p : Project) : List Context :=
  .regular p.config.options :: if p.config.options.separateNewModels then [p.newContext] else []

/-- Every file of a project is called after a class, an enum or an interface. -/
theorem mem_fileNames {name : String} : name ∈ p.fileNames.map (·.2) ↔
    name ∈ p.classNames ∨ name ∈ p.enumNames ∨ name ∈ p.interfaceNames := by
  simp only [fileNames, List.map_append, List.mem_append, List.map_flatMap, List.map_map, Function.comp_def,
    List.map_id', interfaceNames, ← or_assoc]
  refine or_congr_left ?_
  simp only [classNames, enumNames, List.mem_flatMap, models, List.mem_filterMap]
  constructor
  · rintro ⟨s, hs, hname⟩
    cases he : s.entity with
    | model m => exact .inl ⟨m, ⟨s, hs, by rw [he]; rfl⟩, by rwa [he] at hname⟩
    | enumeration source => exact .inr ⟨s, hs, by rw [he]; rwa [he] at hname⟩
  · rintro (⟨m, ⟨s, hs, hm⟩, hname⟩ | ⟨s, hs, hname⟩)
    · refine ⟨s, hs, ?_⟩
      cases he : s.entity with
      | model m' =>
        rw [he] at hm
        cases hm
        exact hname
      | enumeration source =>
        rw [he] at hm
        cases hm
    · refine ⟨s, hs, ?_⟩
      cases he : s.entity with
      | model m =>
        rw [he] at hname
        cases hname
      | enumeration source =>
        rw [he] at hname
        exact hname

theorem mem_outputs_of_model {os : List Output} (ho : p.outputs = .ok os) {pivots : PivotRegistry}
    (hp : p.pivots = .ok pivots) {m : ModelSource} (hm : m ∈ p.models) {e : Entity}
    (he : (m.build p.config.options p.schema pivots).outcome = .ok e) {ctx : Context} (hctx : ctx ∈ p.contexts) :
    Output.entity e p.classesDir ctx ∈ os := by
  simp only [outputs, bind_eq_ok] at ho
  obtain ⟨pivots', hp', oss, hs, ho⟩ := ho
  cases hp.symm.trans hp'
  cases ho
  obtain ⟨s, hsource, hsm⟩ := List.mem_filterMap.1 hm
  have hentity : s.entity = .model m := by
    cases hs : s.entity with
    | model m' =>
      rw [hs] at hsm
      cases hsm
      rfl
    | enumeration source =>
      rw [hs] at hsm
      cases hsm
  obtain ⟨out, hout, hsome⟩ := exists_mem_mapM hs hsource
  simp only [sourceOutputs, hentity, he, Except.mapError, Except.map, Except.ok.injEq] at hsome
  refine List.mem_append_left _ (List.mem_flatten.2 ⟨out, hout, ?_⟩)
  rw [← hsome]
  unfold contexts at hctx
  rcases List.mem_cons.1 hctx with rfl | hctx
  · exact List.mem_cons_self
  · split at hctx
    · rename_i hnew
      rw [List.mem_singleton.1 hctx, if_pos hnew]
      exact List.mem_cons_of_mem _ List.mem_cons_self
    · cases hctx

theorem options_of_mem_contexts {ctx : Context} (h : ctx ∈ p.contexts) : ctx.options = p.config.options := by
  unfold contexts at h
  rcases List.mem_cons.1 h with rfl | h
  · rfl
  · split at h
    · rw [List.mem_singleton.1 h, newContext, Context.options_forNewModels]
    · cases h

/-- A model is written once in each context, with the constructor that assigns its members. -/
theorem exists_file_of_model (h : (p.preview d).outcome = .ok files) (hclass : p.config.options.interface = false)
    {pivots : PivotRegistry} (hp : p.pivots = .ok pivots) {m : ModelSource} (hm : m ∈ p.models) {e : Entity}
    (he : (m.build p.config.options p.schema pivots).outcome = .ok e) {ctx : Context} (hctx : ctx ∈ p.contexts) :
    ∃ f ∈ files, f.path = outputPath p.classesDir (ctx.rename m.name) ∧ ∃ front back, f.content =
      front ++ linesText p.config.options.indent.unit (e.constructorLines ctx (e.assigned ctx)) ++ back := by
  obtain ⟨os, ho, hw⟩ := preview_eq_ok.1 h
  obtain ⟨f, hf, hwrite⟩ := exists_mem_mapM hw (mem_outputs_of_model ho hp hm he hctx)
  simp only [write, renderFile, Logged.outcome_bind, Logged.outcome_pure, bind_eq_ok, Except.ok.injEq] at hwrite
  obtain ⟨kept, -, rfl⟩ := hwrite
  have hmodel : ({ e with kept } : Entity).isEnumeration = false := by
    rw [Entity.isEnumeration, ModelSource.build_kind he]
  have hinterface : ctx.interface = false := by rw [Context.interface, options_of_mem_contexts hctx, hclass]
  obtain ⟨front, back, hrender⟩ := Entity.render_class hmodel hinterface
  refine ⟨_, hf, by rw [ModelSource.build_name he], front ++ linesText p.config.options.indent.unit
    (e.declarationLines ctx ++ [(0, "")]), back, hrender.trans ?_⟩
  rw [options_of_mem_contexts hctx, List.append_cons, linesText_append, String.append_assoc, String.append_assoc]
  simp only [String.append_assoc]
  rfl

/-- In a project of classes that can be rendered, a model is built and written in its contexts, and its constructors
make values of the classes that it asks for, dates under their own name and models under their names in the file. No
constructor makes values of an enum or of the interface of a pivot, and of a class only if it is written by the project
or not at all, just if no name that the model asks for is that of an enum or of such an interface. -/
theorem constructs_classes_iff (h : (p.preview d).outcome = .ok files) (hclass : p.config.options.interface = false) :
    ∃ pivots, p.pivots = .ok pivots ∧ ∀ m ∈ p.models, ∃ e relations,
      (m.build p.config.options p.schema pivots).outcome = .ok e ∧ m.pivotUses pivots = .ok relations ∧
      ∀ ctx ∈ p.contexts,
        (∃ f ∈ files, f.path = outputPath p.classesDir (ctx.rename m.name) ∧ ∃ front back, f.content =
          front ++ linesText p.config.options.indent.unit (e.constructorLines ctx (e.assigned ctx)) ++ back) ∧
        (∀ cls, e.Constructs ctx cls ↔ ∃ n ∈ m.asked p.schema (m.knownNames (m.start p.config.options relations)),
          ctx.classOf n = cls) ∧
        ((∀ cls, e.Constructs ctx cls → cls ∉ p.enumNames ∧ cls ∉ p.interfaceNames ∧
            (cls = "Date" ∨ cls ∈ p.classNames ∨ cls ∉ p.fileNames.map (·.2))) ↔
          ∀ n ∈ m.asked p.schema (m.knownNames (m.start p.config.options relations)),
            ctx.classOf n ∉ p.enumNames ∧ ctx.classOf n ∉ p.interfaceNames) := by
  obtain ⟨pivots, hp, hbuild⟩ := build_of_preview h
  refine ⟨pivots, hp, fun m hm => ?_⟩
  obtain ⟨e, he⟩ := hbuild m hm
  obtain ⟨relations, hrelations, hasked⟩ := ModelSource.constructs_iff_asked he
  refine ⟨e, relations, he, hrelations, fun ctx hctx =>
    ⟨exists_file_of_model h hclass hp hm he hctx, hasked ctx, ?_⟩⟩
  constructor
  · intro hall n hn
    obtain ⟨henum, hinterface, -⟩ := hall _ ((hasked ctx _).2 ⟨n, hn, rfl⟩)
    exact ⟨henum, hinterface⟩
  · intro hall cls hcls
    obtain ⟨n, hn, rfl⟩ := (hasked ctx cls).1 hcls
    obtain ⟨henum, hinterface⟩ := hall n hn
    refine ⟨henum, hinterface, .inr ?_⟩
    rw [mem_fileNames]
    tauto

/-- What the first model of a project of classes that can be rendered asks for, and the names of the enums and the
interfaces of the project. -/
def firstAsked (d : Disk) (config : String) : Option (List String × List String × List String) := do
  let p ← (openAt d config).toOption
  let _ ← (p.preview d).outcome.toOption
  let pivots ← p.pivots.toOption
  let m ← p.models.head?
  let relations ← (m.pivotUses pivots).toOption
  guard (p.config.options.interface = false)
  return (m.asked p.schema (m.knownNames (m.start p.config.options relations)), p.enumNames, p.interfaceNames)

theorem firstAsked_eq_some {config : String} {asked enums interfaces : List String}
    (h : firstAsked d config = some (asked, enums, interfaces)) :
    ∃ p files pivots m relations, openAt d config = .ok p ∧ (p.preview d).outcome = .ok files ∧
      p.config.options.interface = false ∧ p.pivots = .ok pivots ∧ m ∈ p.models ∧
      m.pivotUses pivots = .ok relations ∧
      m.asked p.schema (m.knownNames (m.start p.config.options relations)) = asked ∧
      p.enumNames = enums ∧ p.interfaceNames = interfaces := by
  simp only [firstAsked, Option.bind_eq_bind, Option.bind_eq_some_iff, Option.pure_def, Option.some.injEq,
    Prod.mk.injEq, toOption_eq_some, Option.guard_eq_some'] at h
  obtain ⟨p, hp, files, hf, pivots, hr, m, hm, relations, hrelations, _, hclass, hasked, henums, hinterfaces⟩ := h
  exact ⟨p, files, pivots, m, relations, hp, hf, hclass, hr, List.mem_of_head? hm, hrelations, hasked, henums,
    hinterfaces⟩

/-- A team with a role, which is found through a table, and with a member, and the roles that there are. -/
def membership (type role : String) : Disk :=
  { entries := [
      (["t"], .text "[output]\nclasses=\"o\"\nenums=\"o\"\n[sources]\nentities=[\"a\",\"b\"]\nschema=\"s\"\n"),
      (["s"], .text "tables.team_role.columns=[]\n"),
      (["a"], .text ("name=\"Team\"\nmembers=[\x7bname=\"seat\",type=\"" ++ type ++ "\"\x7d]\n" ++
        "[[relations]]\nname=\"role\"\nkind=\"has_one\"\ntarget=\"" ++ role ++ "\"\npivot.table=\"team_role\"\n")),
      (["b"], .text "kind=\"enum\"\nname=\"Role\"\n")] }

/-- A team that asks for classes is written with a constructor that makes values of nothing else. -/
theorem membership_of_classes : ∃ p files pivots m e, openAt (membership "?Team" "User") "t" = .ok p ∧
    (p.preview (membership "?Team" "User")).outcome = .ok files ∧ p.config.options.interface = false ∧
    p.pivots = .ok pivots ∧ m ∈ p.models ∧ (m.build p.config.options p.schema pivots).outcome = .ok e ∧
    p.enumNames = ["Role"] ∧ p.interfaceNames = ["TeamRolePivot"] ∧
    e.Constructs (.regular p.config.options) "Team" ∧
    ∀ cls, e.Constructs (.regular p.config.options) cls → cls ∉ p.enumNames ∧ cls ∉ p.interfaceNames ∧
      (cls = "Date" ∨ cls ∈ p.classNames ∨ cls ∉ p.fileNames.map (·.2)) := by
  have hfirst : firstAsked (membership "?Team" "User") "t" =
      some (["Team", "User"], ["Role"], ["TeamRolePivot"]) := by decide +kernel
  obtain ⟨p, files, pivots, m, relations, hp, hf, hclass, hr, hm, hrelations, hasked, henums, hinterfaces⟩ :=
    firstAsked_eq_some hfirst
  obtain ⟨pivots', hr', hall⟩ := constructs_classes_iff hf hclass
  obtain rfl := Except.ok.inj (hr.symm.trans hr')
  obtain ⟨e, relations', he, hrelations', hctx⟩ := hall m hm
  obtain rfl := Except.ok.inj (hrelations.symm.trans hrelations')
  obtain ⟨-, hconstructs, hiff⟩ := hctx (.regular p.config.options) List.mem_cons_self
  rw [hasked] at hconstructs hiff
  refine ⟨p, files, pivots, m, e, hp, hf, hclass, hr, hm, he, henums, hinterfaces,
    (hconstructs "Team").2 ⟨"Team", by decide, rfl⟩, hiff.2 ?_⟩
  rw [henums, hinterfaces]
  simp only [Context.classOf_regular]
  decide

/-- A member of the type of a pivot and a relation to an enum are built with `new`, although neither has a
constructor. -/
theorem membership_of_others : ∃ p files pivots m e, openAt (membership "TeamRolePivot" "Role") "t" = .ok p ∧
    (p.preview (membership "TeamRolePivot" "Role")).outcome = .ok files ∧ p.config.options.interface = false ∧
    p.pivots = .ok pivots ∧ m ∈ p.models ∧ (m.build p.config.options p.schema pivots).outcome = .ok e ∧
    p.enumNames = ["Role"] ∧ p.interfaceNames = ["TeamRolePivot"] ∧
    e.Constructs (.regular p.config.options) "TeamRolePivot" ∧ e.Constructs (.regular p.config.options) "Role" := by
  have hfirst : firstAsked (membership "TeamRolePivot" "Role") "t" =
      some (["TeamRolePivot", "Role"], ["Role"], ["TeamRolePivot"]) := by decide +kernel
  obtain ⟨p, files, pivots, m, relations, hp, hf, hclass, hr, hm, hrelations, hasked, henums, hinterfaces⟩ :=
    firstAsked_eq_some hfirst
  obtain ⟨pivots', hr', hbuild⟩ := build_of_preview hf
  obtain rfl := Except.ok.inj (hr.symm.trans hr')
  obtain ⟨e, he⟩ := hbuild m hm
  obtain ⟨relations', hrelations', hconstructs⟩ := ModelSource.constructs_iff_asked he
  obtain rfl := Except.ok.inj (hrelations.symm.trans hrelations')
  refine ⟨p, files, pivots, m, e, hp, hf, hclass, hr, hm, he, henums, hinterfaces, ?_, ?_⟩ <;>
    rw [hconstructs, hasked]
  · exact ⟨"TeamRolePivot", by decide, rfl⟩
  · exact ⟨"Role", by decide, rfl⟩

end Project

end EntityScript
