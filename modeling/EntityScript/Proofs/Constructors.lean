import Mathlib.Data.List.Nodup
import EntityScript.Proofs.Layout
/-!
# Constructors of classes

A class declares its members one by one, and its constructor then assigns those that need a value of their own. A
member without a `?` may never be missing: the constructor assigns it once, and where nothing is given it falls back
to the empty array. What may fall back to `undefined` has a `?`.
-/

namespace EntityScript

/-! ## Marks and fallbacks -/

/-- Whether the declaration of a member has a `?` behind the name. -/
def Member.HasMark (m : Member) (ctx : Context) : Prop :=
  (m.modifiers ctx ++ m.name ++ "?").toList <+: (m.text ctx).toList

theorem Member.hasMark_iff {m : Member} {ctx : Context} : m.HasMark ctx ↔ m.isMarked ctx = true := by
  have htext : (m.text ctx).toList = (m.modifiers ctx ++ m.name).toList ++
      ((if m.isMarked ctx then "?" else "") ++ ": " ++ m.typeText ctx ++ m.assignment ctx).toList := by
    rw [← String.toList_append, text]
    simp only [String.append_assoc]
  rw [HasMark, htext, String.toList_append, List.prefix_append_right_inj]
  cases m.isMarked ctx <;> simp

/-- Whether an expression gives `fallback` where nothing is given for a field: `init?.f ?? fallback`, or the same with
`? … :` around what is made of the field. -/
def FallsBack (field fallback value : String) : Prop :=
  value = "init?." ++ field ++ " ?? " ++ fallback ∨
    ∃ made, value = "init?." ++ field ++ " ? " ++ made ++ " : " ++ fallback

/-- An expression has one fallback. -/
theorem FallsBack.not_undefined {field value : String} (h : FallsBack field "[]" value) :
    ¬ FallsBack field "undefined" value := by
  have hlast {fallback : String} (h : FallsBack field fallback value) (hne : fallback.toList ≠ []) :
      value.toList.getLast? = fallback.toList.getLast? := by
    rcases h with rfl | ⟨made, rfl⟩ <;> rw [String.toList_append, List.getLast?_append_of_ne_nil _ hne]
  intro hundefined
  have heq := (hlast h (by decide)).symm.trans (hlast hundefined (by decide))
  exact absurd heq (by decide)

namespace Entity

/-- A collection is assigned with the empty array for a fallback. -/
theorem initializer?_collection (field : String) {d : Descriptor} (hd : d.collection = true) (ctx : Context) :
    ∃ value, initializer? field d ctx = some value ∧ FallsBack field "[]" value := by
  unfold initializer?
  rw [if_pos hd]
  split
  · exact ⟨_, rfl, .inr ⟨"init." ++ field ++ ".map(v => new Date(v))", by simp [String.append_assoc]⟩⟩
  · split
    · exact ⟨_, rfl, .inr ⟨"init." ++ field ++ ".map(v => new " ++ ctx.rename d.name ++ "(v))",
        by simp [String.append_assoc]⟩⟩
    · exact ⟨_, rfl, .inl (by simp [String.append_assoc])⟩

/-- What is assigned to anything else falls back to `undefined`. -/
theorem fallsBack_single {field value : String} {d : Descriptor} (hd : d.collection = false) {ctx : Context}
    (h : initializer? field d ctx = some value) : FallsBack field "undefined" value := by
  unfold initializer? at h
  rw [if_neg (by rw [hd]; exact Bool.false_ne_true)] at h
  split at h
  · cases h
    exact .inr ⟨"new Date(init." ++ field ++ ")", by rw [← String.toList_inj]; simp⟩
  · split at h
    · cases h
      exact .inr ⟨"new " ++ ctx.rename d.name ++ "(init." ++ field ++ ")", by rw [← String.toList_inj]; simp⟩
    · cases h

/-! ## What a constructor assigns -/

/-- The expression that a member is assigned, if it needs a value of its own. -/
def assigned? (ctx : Context) (m : Member) : Option (Member × String) :=
  if m.isConstant || m.verbatim then none
  else m.soleType?.bind fun d => (initializer? m.name d ctx).map (m, ·)

/-- The members that a constructor assigns, with their expressions. -/
def assigned (e : Entity) (ctx : Context) : List (Member × String) :=
  e.members.filterMap (assigned? ctx)

theorem assigned?_eq_some {ctx : Context} {m m' : Member} {value : String} :
    assigned? ctx m = some (m', value) ↔ m' = m ∧ m.isConstant = false ∧ m.verbatim = false ∧
      ∃ d, m.soleType? = some d ∧ initializer? m.name d ctx = some value := by
  unfold assigned?
  split
  · rename_i h
    simp only [reduceCtorEq, false_iff]
    rintro ⟨-, hconstant, hverbatim, -⟩
    simp [hconstant, hverbatim] at h
  · rename_i h
    rw [Bool.or_eq_true, not_or, Bool.not_eq_true, Bool.not_eq_true] at h
    simp only [Option.bind_eq_some_iff, Option.map_eq_some_iff, Prod.mk.injEq, h, true_and]
    constructor
    · rintro ⟨d, hd, v, hv, rfl, rfl⟩
      exact ⟨rfl, d, hd, hv⟩
    · rintro ⟨rfl, d, hd, hv⟩
      exact ⟨d, hd, value, hv, rfl, rfl⟩

theorem mem_assigned {e : Entity} {ctx : Context} {m : Member} {value : String} :
    (m, value) ∈ e.assigned ctx ↔ m ∈ e.members ∧ assigned? ctx m = some (m, value) := by
  unfold assigned
  rw [List.mem_filterMap]
  constructor
  · rintro ⟨m', hm', h⟩
    obtain rfl := (assigned?_eq_some.1 h).1
    exact ⟨hm', h⟩
  · rintro ⟨hm, h⟩
    exact ⟨m, hm, h⟩

/-- Members are assigned in the order in which they are declared. -/
theorem map_assigned (e : Entity) (ctx : Context) :
    (e.assigned ctx).map (·.1) = e.members.filter fun m => (assigned? ctx m).isSome := by
  unfold assigned
  induction e.members with
  | nil => rfl
  | cons m ms ih =>
    cases h : assigned? ctx m with
    | none => simp [h, ih]
    | some a =>
      obtain ⟨m', value⟩ := a
      obtain rfl := (assigned?_eq_some.1 h).1
      simp [h, ih]

theorem assigned_sublist (e : Entity) {ctx : Context} (hclass : ctx.interface = false) :
    ((e.assigned ctx).map (·.1)).Sublist (e.bodyMembers ctx) := by
  rw [map_assigned, bodyMembers]
  refine List.monotone_filter_right _ fun m hm => ?_
  obtain ⟨⟨m', value⟩, ha⟩ := Option.isSome_iff_exists.1 hm
  obtain ⟨-, -, hverbatim, -⟩ := assigned?_eq_some.1 ha
  simp [hverbatim, hclass]

theorem nodup_assigned (e : Entity) (ctx : Context) : ((e.assigned ctx).map (·.1.name)).Nodup := by
  have hnames : (e.members.map (·.name)).Nodup := List.pairwise_map.2 (e.sorted.imp String.ne_of_lt)
  have hsublist := (List.filter_sublist (l := e.members) (p := fun m => (assigned? ctx m).isSome)).map (·.name)
  rw [← map_assigned, List.map_map] at hsublist
  exact hnames.sublist hsublist

/-! ## Classes as lines -/

/-- The declarations in the body of a class. -/
def declarationLines (e : Entity) (ctx : Context) : List (Nat × String) :=
  (e.bodyMembers ctx).map fun m => (1, m.text ctx ++ ctx.terminator)

/-- The constructor of a class that assigns some members: after the base class and what is given come the assignments,
one a line. -/
def constructorLines (e : Entity) (ctx : Context) (assigned : List (Member × String)) : List (Nat × String) :=
  (1, "constructor(init?: Partial<" ++ ctx.rename e.name ++ ">) \x7b") ::
    (if e.base?.isSome then [(2, "super(init)" ++ ctx.terminator)] else []) ++
    [(2, "Object.assign(this, init)" ++ ctx.terminator)] ++
    assigned.map (fun (m, value) => (2, "this." ++ m.name ++ " = " ++ value ++ ctx.terminator)) ++ [(1, "\x7d")]

theorem text_constructor (e : Entity) (unit : String) (ctx : Context) :
    (e.constructor (ctx.rename e.name) ctx).text unit 1 = linesText unit (e.constructorLines ctx (e.assigned ctx)) := by
  have hassignments : e.members.filterMap (assignment? ctx) =
      (e.assigned ctx).map fun (m, value) => .line ("this." ++ m.name ++ " = " ++ value ++ ctx.terminator) := by
    rw [assigned, List.map_filterMap]
    refine List.filterMap_congr fun m _ => ?_
    unfold assignment? assigned?
    split
    · rfl
    · cases m.soleType? with
      | none => rfl
      | some d => simp [Function.comp_def]
  have hbase : Fragment.texts unit 2 (if e.base?.isSome then [.line ("super(init)" ++ ctx.terminator)] else []) =
      linesText unit (if e.base?.isSome then [(2, "super(init)" ++ ctx.terminator)] else []) := by
    split <;> simp [Fragment.texts, Fragment.text]
  simp only [constructor, Fragment.text, Fragment.texts_append, hassignments, Fragment.texts_map_line, hbase,
    Fragment.texts, constructorLines, linesText_append, linesText_cons, linesText_nil, List.cons_append,
    String.append_empty, String.append_assoc]

/-- The text of a region at a level. -/
def regionText (e : Entity) (ctx : Context) (r : Region) (level : Nat) : String :=
  Text.copies ctx.options.indent.unit level ++ r.opening ++ e.kept.slot ctx r ++ r.closing ++ "\n"

/-- The file of a class or interface with these lines between its header and its region, and these at the end. -/
def fileAround (e : Entity) (ctx : Context) (body last : List (Nat × String)) : String :=
  let unit := ctx.options.indent.unit
  Fragment.texts unit 0 (e.importFragments ctx) ++ linesText unit ((0, e.header (ctx.rename e.name) ctx) :: body) ++
    e.regionText ctx .members 1 ++ linesText unit [(0, "\x7d"), (0, "")] ++ e.regionText ctx .code 0 ++
    linesText unit last

theorem lineText_blank (unit : String) : Fragment.lineText unit 0 "" = "\n" := by
  simp [Fragment.lineText, Text.copies]

/-- The file of a model, given its body and its end as lines. -/
theorem render_around {e : Entity} (he : e.isEnumeration = false) {ctx : Context} {body last : List (Nat × String)}
    (hbody : Fragment.texts ctx.options.indent.unit 1 (e.bodyFragments (ctx.rename e.name) ctx) =
      linesText ctx.options.indent.unit body ++ e.regionText ctx .members 1)
    (hlast : Fragment.texts ctx.options.indent.unit 0 (e.endFragments (ctx.rename e.name) ctx) =
      "\n" ++ e.regionText ctx .code 0 ++ linesText ctx.options.indent.unit last) :
    e.render ctx = e.fileAround ctx body last := by
  rw [render_eq, fragments, if_neg (by rw [he]; exact Bool.false_ne_true), modelFragments]
  simp only [Fragment.texts_append, Fragment.texts, Fragment.text, hbody, hlast, fileAround, linesText_cons,
    linesText_nil, lineText_blank, String.append_empty, String.append_assoc]

theorem texts_membersRegion (e : Entity) (ctx : Context) :
    Fragment.texts ctx.options.indent.unit 1 (e.region .members ctx.options.indent.unit) = e.regionText ctx .members 1 :=
  e.texts_region .members ctx 1

theorem texts_codeRegion (e : Entity) (ctx : Context) :
    Fragment.texts ctx.options.indent.unit 0 (e.region .code "") = e.regionText ctx .code 0 :=
  e.texts_region .code ctx 0

/-- A class has its declarations in its body, a blank line, its constructor and another blank line. -/
theorem render_class_lines {e : Entity} (he : e.isEnumeration = false) {ctx : Context} (hclass : ctx.interface = false) :
    e.render ctx = e.fileAround ctx
      (e.declarationLines ctx ++ (0, "") :: e.constructorLines ctx (e.assigned ctx) ++ [(0, "")]) [] := by
  refine render_around he ?_ ?_
  · simp only [bodyFragments, hclass, Bool.false_eq_true, if_false, Bool.and_false, Fragment.texts_append,
      Fragment.texts, Fragment.text, Fragment.texts_map_line, e.text_constructor, e.texts_membersRegion, linesText_append,
      linesText_cons, linesText_nil, lineText_blank, declarationLines, String.append_empty, String.append_assoc]
  · simp only [endFragments, hclass, Bool.false_and, Bool.false_eq_true, if_false, Fragment.texts_append, Fragment.texts,
      Fragment.text, e.texts_codeRegion, linesText_nil, String.append_empty]

/-- The file of a class has its declarations, a blank line and its constructor. -/
theorem render_class {e : Entity} (he : e.isEnumeration = false) {ctx : Context} (hclass : ctx.interface = false) :
    ∃ front back, e.render ctx = front ++ linesText ctx.options.indent.unit
      (e.declarationLines ctx ++ (0, "") :: e.constructorLines ctx (e.assigned ctx)) ++ back := by
  refine ⟨Fragment.texts ctx.options.indent.unit 0 (e.importFragments ctx) ++
      Fragment.lineText ctx.options.indent.unit 0 (e.header (ctx.rename e.name) ctx),
    "\n" ++ e.regionText ctx .members 1 ++ Fragment.lineText ctx.options.indent.unit 0 "\x7d" ++ "\n" ++
      e.regionText ctx .code 0, ?_⟩
  rw [render_class_lines he hclass]
  simp only [fileAround, linesText_append, linesText_cons, linesText_nil, lineText_blank, String.append_empty,
    String.append_assoc]

/-- A class declares all that its constructor assigns. A property whose declaration has no `?` is assigned just once, and
falls back to the empty array; only a property with a `?` falls back to `undefined`. Nothing is assigned twice, and no
constant and no literal is assigned. -/
theorem definitely_assigned {e : Entity} (he : e.isEnumeration = false) {ctx : Context}
    (hclass : ctx.interface = false) : ∃ (assigned : List (Member × String)) (front back : String),
    e.render ctx = front ++ linesText ctx.options.indent.unit
      (e.declarationLines ctx ++ (0, "") :: e.constructorLines ctx assigned) ++ back ∧
    (assigned.map (·.1)).Sublist (e.bodyMembers ctx) ∧ (assigned.map (·.1.name)).Nodup ∧
    (∀ a ∈ assigned, a.1.isConstant = false ∧ a.1.verbatim = false ∧
      (FallsBack a.1.name "[]" a.2 ∨ FallsBack a.1.name "undefined" a.2) ∧
      (FallsBack a.1.name "undefined" a.2 → a.1.HasMark ctx)) ∧
    ∀ m ∈ e.bodyMembers ctx, m.isConstant = false → ¬ m.HasMark ctx →
      (assigned.map (·.1.name)).count m.name = 1 ∧ ∃ value, (m, value) ∈ assigned ∧ FallsBack m.name "[]" value := by
  obtain ⟨front, back, hrender⟩ := render_class he hclass
  have hnodup := e.nodup_assigned ctx
  refine ⟨e.assigned ctx, front, back, hrender, e.assigned_sublist hclass, hnodup, ?_, ?_⟩
  · rintro ⟨m, value⟩ ha
    obtain ⟨-, hconstant, hverbatim, d, hd, hvalue⟩ := assigned?_eq_some.1 (mem_assigned.1 ha).2
    refine ⟨hconstant, hverbatim, ?_⟩
    cases hcollection : d.collection with
    | true =>
      obtain ⟨value', hvalue', hempty⟩ := initializer?_collection m.name hcollection ctx
      obtain rfl := Option.some.inj (hvalue.symm.trans hvalue')
      exact ⟨.inl hempty, fun hundefined => absurd hundefined hempty.not_undefined⟩
    | false =>
      refine ⟨.inr (fallsBack_single hcollection hvalue), fun _ => Member.hasMark_iff.2 ?_⟩
      simp [Member.isMarked, hconstant, Member.isSoleCollection, hd, hcollection]
  · intro m hm hconstant hmark
    obtain ⟨hmem, hbody⟩ := List.mem_filter.1 hm
    have hverbatim : m.verbatim = false := by simpa [hclass] using hbody
    have hsole : m.isSoleCollection = true := by
      rw [Member.hasMark_iff] at hmark
      simp only [Member.isMarked, hconstant, hclass] at hmark
      simp_all
    obtain ⟨d, hd, hcollection⟩ := (Option.any_eq_true _ _).1 hsole
    obtain ⟨value, hvalue, hempty⟩ := initializer?_collection m.name hcollection ctx
    have ha : (m, value) ∈ e.assigned ctx :=
      mem_assigned.2 ⟨hmem, assigned?_eq_some.2 ⟨rfl, hconstant, hverbatim, d, hd, hvalue⟩⟩
    exact ⟨List.count_eq_one_of_mem hnodup (List.mem_map.2 ⟨_, ha, rfl⟩), value, ha, hempty⟩

/-- Classes in which a property is only optional if it has to be. -/
def sparing : Context :=
  .regular { forceOptional := false }

/-- A team with users, a founder and a name. -/
def staffed : Entity :=
  (bare "" "Team" (.model (some "Base"))).insertMembers [
    .typed "users" [(Descriptor.named "User").asCollection], .typed "founder" [.named "User"],
    .typed "name" [.named "string", .undefined], .constant "size" "3"]

/-- The users of a team have no `?` where they need none, and are assigned. -/
theorem staffed_assigned : staffed.isEnumeration = false ∧ sparing.interface = false ∧
    ∃ users ∈ staffed.bodyMembers sparing, users.text sparing = "public users: User[]" ∧
      users.isConstant = false ∧ ¬ users.HasMark sparing ∧
      ∃ (assigned : List (Member × String)) (front back : String),
        staffed.render sparing = front ++ linesText "    " (staffed.declarationLines sparing ++
          (0, "") :: staffed.constructorLines sparing assigned) ++ back ∧
        (assigned.map (·.1.name)).count "users" = 1 ∧
        ∃ value, (users, value) ∈ assigned ∧ FallsBack "users" "[]" value := by
  have hclass : sparing.interface = false := rfl
  obtain ⟨assigned, front, back, hrender, -, -, -, hall⟩ := definitely_assigned (e := staffed) rfl hclass
  have hmark : ¬ (Member.typed "users" [(Descriptor.named "User").asCollection]).HasMark sparing := by
    rw [Member.hasMark_iff]
    decide +kernel
  refine ⟨rfl, rfl, .typed "users" [(Descriptor.named "User").asCollection], by decide +kernel, by decide +kernel, rfl,
    hmark, assigned, front, back, hrender, ?_⟩
  exact hall _ (by decide +kernel) rfl hmark

end Entity

end EntityScript
