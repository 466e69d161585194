import EntityScript.Proofs.Outputs
/-!
# Files under new names

The `New` file of a model is the plain file of another entity: the model under its new name, with the new names of
models in its imports and types, and with no keys required. Each part of the one file is that part of the other.
-/

namespace EntityScript

/-! ## Names -/

/-- The name that a name goes by among the new names of models. -/
def newName (models : List String) (name : String) : String :=
  if name ∈ models then "New" ++ name else name

/-- The names that tell how a value is built: the types without a constructor, and dates. -/
def Descriptor.reserved : List String :=
  primitives ++ ["Date"]

theorem newName_eq_reserved {models : List String} (hm : ∀ b ∈ Descriptor.reserved, b ∉ models) {b : String}
    (hb : b ∈ Descriptor.reserved) (name : String) : newName models name = b ↔ name = b := by
  have hnew : ∀ b ∈ Descriptor.reserved, b.toList.head? ≠ some 'N' := by decide
  unfold newName
  split
  · rename_i hname
    constructor
    · rintro rfl
      exact absurd (by simp) (hnew _ hb)
    · rintro rfl
      exact absurd hname (hm _ hb)
  · rfl

/-- A new name has the characters of a word if the name has. -/
theorem all_newName (models : List String) (name : String) :
    (newName models name).toList.all Text.isWordChar = name.toList.all Text.isWordChar := by
  unfold newName
  split
  · have hnew : "New".toList.all Text.isWordChar = true := by decide
    rw [String.toList_append, List.all_append, hnew, Bool.true_and]
  · rfl

namespace Context

variable (o : Options) (models : List String)

/-- Models as they are, with every property optional. -/
def allOptional : Context :=
  .regular { o with forceOptional := true }

theorem rename_eq_newName (name : String) : (forNewModels o models).rename name = newName models name :=
  rename_forNewModels o models name

@[simp] theorem interface_forNewModels : (forNewModels o models).interface = (allOptional o).interface := by
  rw [interface, options_forNewModels]
  rfl

@[simp] theorem terminator_forNewModels : (forNewModels o models).terminator = (allOptional o).terminator := by
  rw [terminator, options_forNewModels]
  rfl

@[simp] theorem forceOptional_forNewModels :
    (forNewModels o models).forceOptional = (allOptional o).forceOptional := by
  obtain ⟨renames, h⟩ := foldl_withRename_eq models (newModels o)
  rw [forNewModels, h]
  rfl

@[simp] theorem rename_allOptional (name : String) : (allOptional o).rename name = name := rfl

end Context

/-! ## Types -/

variable {models : List String} (hm : ∀ b ∈ Descriptor.reserved, b ∉ models) (o : Options)

namespace Descriptor

/-- The type under its new name, with no keys required. -/
def renewed (models : List String) (d : Descriptor) : Descriptor :=
  { d with name := newName models d.name, requiredColumns := none, accessor := none }

section

include hm

theorem beq_renewed {b : String} (hb : b ∈ reserved) (d : Descriptor) :
    ((d.renewed models).name == b) = (d.name == b) :=
  beq_eq_beq.2 (newName_eq_reserved hm hb d.name)

theorem isUndefined_renewed (d : Descriptor) : (d.renewed models).isUndefined = d.isUndefined :=
  beq_renewed hm (by decide) d

theorem isDate_renewed (d : Descriptor) : (d.renewed models).isDate = d.isDate :=
  beq_renewed hm (by decide) d

theorem isPrimitive_renewed (d : Descriptor) : (d.renewed models).isPrimitive = d.isPrimitive := by
  have hreserved {b : String} (hb : b ∈ primitives) : b ∈ reserved := List.mem_append_left _ hb
  rw [Bool.eq_iff_iff, isPrimitive, isPrimitive, List.contains_iff_mem, List.contains_iff_mem]
  constructor
  · intro h
    rwa [← (newName_eq_reserved hm (hreserved h) d.name).1 rfl] at h
  · intro h
    rwa [renewed, (newName_eq_reserved hm (hreserved h) d.name).2 rfl]

theorem isConstructible_renewed (d : Descriptor) : (d.renewed models).isConstructible = d.isConstructible := by
  rw [isConstructible, isConstructible, isPrimitive_renewed hm, isDate_renewed hm]
  exact congrArg _ (all_newName models d.name)

theorem text_renewed (d : Descriptor) :
    d.text (.forNewModels o models) = (d.renewed models).text (.allOptional o) := by
  have hname : d.nameText (.forNewModels o models) = (d.renewed models).nameText (.allOptional o) := by
    rw [nameText, nameText, isDate_renewed hm, Context.interface_forNewModels, Context.rename_eq_newName]
    rfl
  rw [text, text, elementText, elementText, Context.newModel_forNewModels, hname]
  rfl

end

end Descriptor

/-! ## Members -/

namespace Member

/-- The member with its types renewed. -/
def renewed (models : List String) (m : Member) : Member :=
  { m with types := m.types.map (·.map (·.renewed models)) }

variable (m : Member)

theorem initialText?_renewed :
    m.initialText? (.forNewModels o models) = (m.renewed models).initialText? (.allOptional o) := by
  rw [initialText?, initialText?, Context.options_forNewModels]
  rfl

section

include hm

theorem writtenTypes_renewed : (m.renewed models).writtenTypes = m.writtenTypes.map (·.renewed models) := by
  have hkept : (fun d : Descriptor => !(d.renewed models).isUndefined) = fun d => !d.isUndefined := by
    funext d
    rw [Descriptor.isUndefined_renewed hm]
  unfold writtenTypes renewed
  cases m.types with
  | none => rfl
  | some types => simp only [Option.map_some, Option.getD_some, List.filter_map, Function.comp_def, hkept]

theorem soleType?_renewed : (m.renewed models).soleType? = m.soleType?.map (·.renewed models) := by
  unfold soleType?
  rw [writtenTypes_renewed hm]
  match m.writtenTypes with
  | [] | [_] | _ :: _ :: _ => rfl

theorem isMarked_renewed : m.isMarked (.forNewModels o models) = (m.renewed models).isMarked (.allOptional o) := by
  have hsole : (m.renewed models).isSoleCollection = m.isSoleCollection := by
    rw [isSoleCollection, soleType?_renewed hm, Option.any_map]
    rfl
  rw [isMarked, isMarked, hsole, Context.forceOptional_forNewModels, Context.interface_forNewModels]
  rfl

theorem typeText_renewed : m.typeText (.forNewModels o models) = (m.renewed models).typeText (.allOptional o) := by
  simp only [typeText, writtenTypes_renewed hm, List.map_map, Function.comp_def, Descriptor.text_renewed hm]

theorem text_renewed : m.text (.forNewModels o models) = (m.renewed models).text (.allOptional o) := by
  have hmodifiers : m.modifiers (.forNewModels o models) = (m.renewed models).modifiers (.allOptional o) := by
    rw [modifiers, modifiers, Context.interface_forNewModels]
    rfl
  have hassignment : m.assignment (.forNewModels o models) = (m.renewed models).assignment (.allOptional o) := by
    rw [assignment, assignment, Context.interface_forNewModels, initialText?_renewed]
  rw [text, text, hmodifiers, isMarked_renewed hm, typeText_renewed hm, hassignment]
  rfl

end

end Member

/-! ## Imports -/

namespace EntityImport

/-- The import with another entity under its new name. Bases and pivot interfaces have none. -/
def renewed (models : List String) (i : EntityImport) : EntityImport :=
  if i.origin = .entity then .sibling (newName models i.symbol) .entity else i

theorem origin_renewed (i : EntityImport) : (i.renewed models).origin = i.origin := by
  unfold renewed
  split <;> simp_all [sibling]

theorem inContext_renewed (i : EntityImport) :
    i.inContext (.forNewModels o models) = (i.renewed models).inContext (.allOptional o) := by
  unfold inContext
  rw [origin_renewed]
  cases ho : i.origin <;>
    simp [renewed, ho, sibling, Context.rename_eq_newName]

end EntityImport

/-! ## Files -/

namespace Entity

/-- The imports of an entity under new names, without that of `SetRequired`. -/
def renewedImports (models : List String) (e : Entity) : List EntityImport :=
  (e.imports.filter (!·.isUtility)).map (·.renewed models)

/-- The entity under new names, with nothing wrapped. -/
def renewed (models : List String) (e : Entity)
    (distinct : (e.renewedImports models).Pairwise (·.symbol ≠ ·.symbol)) : Entity where
  space := e.space
  name := newName models e.name
  kind := e.kind
  kept := e.kept
  members := e.members.map (·.renewed models)
  sorted := List.pairwise_map.2 e.sorted
  imports := e.renewedImports models
  distinct := distinct

variable (e : Entity) (hd : (e.renewedImports models).Pairwise (·.symbol ≠ ·.symbol))

/-- The utility is not imported in either file, and the other imports keep their order. -/
theorem orderedImports_renewed : (e.renewed models hd).orderedImports (.allOptional o) =
    (e.orderedImports (.forNewModels o models)).map (·.renewed models) := by
  have hutility : ∀ i ∈ e.renewedImports models, i.isUtility = false := by
    intro i hi
    obtain ⟨j, hj, rfl⟩ := List.mem_map.1 hi
    have hj := (List.mem_filter.1 hj).2
    rw [Bool.not_eq_true', EntityImport.isUtility] at hj
    rw [EntityImport.isUtility, EntityImport.origin_renewed]
    exact hj
  have hnone : (e.renewedImports models).filter (·.isUtility) = [] := by
    rw [List.filter_eq_nil_iff]
    intro i hi
    rw [hutility i hi]
    exact Bool.false_ne_true
  have hall : (e.renewedImports models).filter (!·.isUtility) = e.renewedImports models := by
    rw [List.filter_eq_self]
    intro i hi
    rw [hutility i hi]
    rfl
  rw [orderedImports, orderedImports, Context.newModel_forNewModels, renewed, hnone, hall]
  rfl

theorem importFragments_renewed :
    e.importFragments (.forNewModels o models) = (e.renewed models hd).importFragments (.allOptional o) := by
  have hlines : (fun i : EntityImport => Fragment.line ((i.inContext (.forNewModels o models)).text o.importQuotes)) =
      fun i => .line (((i.renewed models).inContext (.allOptional o)).text o.importQuotes) := by
    funext i
    rw [EntityImport.inContext_renewed]
  rw [importFragments, importFragments, orderedImports_renewed, Context.options_forNewModels, hlines, List.map_map,
    List.isEmpty_map]
  rfl

theorem header_renewed (name : String) :
    e.header name (.forNewModels o models) = (e.renewed models hd).header name (.allOptional o) := by
  unfold header
  rw [Context.interface_forNewModels]
  rfl

theorem bodyMembers_renewed : (e.renewed models hd).bodyMembers (.allOptional o) =
    (e.bodyMembers (.forNewModels o models)).map (·.renewed models) := by
  rw [bodyMembers, bodyMembers, Context.interface_forNewModels, renewed, List.filter_map]
  rfl

theorem constants_renewed (name : String) :
    e.constants name (.forNewModels o models) = (e.renewed models hd).constants name (.allOptional o) := by
  have hvalue (m : Member) : (m.initialText? (.forNewModels o models)).getD "" =
      ((m.renewed models).initialText? (.allOptional o)).getD "" := by
    rw [Member.initialText?_renewed]
  simp only [constants, renewed, List.filter_map, List.map_map, Function.comp_def, hvalue]
  rfl

theorem endFragments_renewed (name : String) :
    e.endFragments name (.forNewModels o models) = (e.renewed models hd).endFragments name (.allOptional o) := by
  rw [endFragments, endFragments, constants_renewed, Context.interface_forNewModels]
  rfl

section

include hm

theorem initializer?_renewed (field : String) (d : Descriptor) :
    initializer? field d (.forNewModels o models) = initializer? field (d.renewed models) (.allOptional o) := by
  unfold initializer?
  rw [Descriptor.isDate_renewed hm, Descriptor.isConstructible_renewed hm, Context.rename_eq_newName]
  rfl

theorem assignment?_renewed (m : Member) :
    assignment? (.forNewModels o models) m = assignment? (.allOptional o) (m.renewed models) := by
  have hvalue : (fun d => (initializer? m.name d (.forNewModels o models)).map fun value =>
        Fragment.line ("this." ++ m.name ++ " = " ++ value ++ (Context.forNewModels o models).terminator)) =
      fun d => (initializer? m.name (d.renewed models) (.allOptional o)).map fun value =>
        .line ("this." ++ m.name ++ " = " ++ value ++ (Context.allOptional o).terminator) := by
    funext d
    rw [initializer?_renewed hm, Context.terminator_forNewModels]
  rw [assignment?, assignment?, Member.soleType?_renewed hm, hvalue, Option.bind_map]
  rfl

theorem constructor_renewed (name : String) :
    e.constructor name (.forNewModels o models) = (e.renewed models hd).constructor name (.allOptional o) := by
  have hassigned : assignment? (.forNewModels o models) = assignment? (.allOptional o) ∘ (·.renewed models) := by
    funext m
    exact assignment?_renewed hm o m
  rw [constructor, constructor, hassigned, Context.terminator_forNewModels, renewed, List.filterMap_map]
  rfl

theorem bodyFragments_renewed (name : String) :
    e.bodyFragments name (.forNewModels o models) = (e.renewed models hd).bodyFragments name (.allOptional o) := by
  have hlines : (fun m : Member =>
      Fragment.line (m.text (.forNewModels o models) ++ (Context.forNewModels o models).terminator)) =
      fun m => .line ((m.renewed models).text (.allOptional o) ++ (Context.allOptional o).terminator) := by
    funext m
    rw [Member.text_renewed hm, Context.terminator_forNewModels]
  rw [bodyFragments, bodyFragments, bodyMembers_renewed, hlines, constructor_renewed hm o e hd,
    Context.interface_forNewModels, Context.options_forNewModels, List.map_map, List.isEmpty_map]
  rfl

/-- A model in a `New` file is written as the renewed model in a plain file with every property optional. -/
theorem render_renewed (he : e.isEnumeration = false) :
    e.render (.forNewModels o models) = (e.renewed models hd).render (.regular { o with forceOptional := true }) := by
  have hrenewed : (e.renewed models hd).isEnumeration = false := he
  have hname : (Context.forNewModels o models).rename e.name = (e.renewed models hd).name :=
    Context.rename_eq_newName o models e.name
  have hfragments : e.fragments (.forNewModels o models) = (e.renewed models hd).fragments (.allOptional o) := by
    rw [fragments, fragments, he, hrenewed, modelFragments, modelFragments, hname,
      importFragments_renewed o e hd, header_renewed o e hd, bodyFragments_renewed hm o e hd,
      endFragments_renewed o e hd]
    rfl
  rw [render, hfragments, Context.options_forNewModels]
  rfl

end

/-- A team that extends a base, with a date, a constant, and users whose pivot is required. -/
def team : Entity :=
  ((bare "A" "Team" (.model (some "Base"))).insertMembers
    [.typed "users" [((Descriptor.named "User").asCollection).withAccessor "pivot"],
      .typed "founded" [.named "Date", .undefined], .constant "MAX" "3"]).addImports
    [.sibling "Base" .base, .sibling "User" .entity, .utility "type-fest"]

theorem team_renewed : ∃ hd : (team.renewedImports ["Team", "User"]).Pairwise (·.symbol ≠ ·.symbol),
    (∀ b ∈ Descriptor.reserved, b ∉ ["Team", "User"]) ∧ team.isEnumeration = false ∧
    (team.renewed ["Team", "User"] hd).name = "NewTeam" ∧
    team.render (.forNewModels {} ["Team", "User"]) =
      (team.renewed ["Team", "User"] hd).render (.regular { forceOptional := true }) := by
  have hm : ∀ b ∈ Descriptor.reserved, b ∉ ["Team", "User"] := by decide
  have hd : (team.renewedImports ["Team", "User"]).Pairwise (·.symbol ≠ ·.symbol) := by decide
  exact ⟨hd, hm, rfl, rfl, render_renewed hm {} team hd rfl⟩

end Entity

end EntityScript
