import Mathlib.Data.List.Basic
import EntityScript.Proofs.Bytes
import EntityScript.Proofs.Constructors
/-!
# Members in classes and interfaces

A class declares properties and constants alike. An interface declares its properties only, and the constants stand in
an object behind it. Either way every member is written once, in the order of the names, and a constant has the same
value.
-/

namespace EntityScript

/-- The context with interfaces or with classes. -/
def Context.inMode (ctx : Context) (interface : Bool) : Context :=
  { ctx with options := { ctx.options with interface } }

@[simp] theorem Context.inMode_interface (ctx : Context) (interface : Bool) :
    (ctx.inMode interface).interface = interface := rfl

/-- A constant of a class is declared with its initial value. -/
theorem Member.text_constant {m : Member} (hm : m.isConstant = true) {ctx : Context} (hclass : ctx.interface = false) :
    m.text ctx = "public static readonly " ++ m.name ++ ": " ++ m.typeText ctx ++
      (m.initialText? ctx).elim "" (" = " ++ ·) := by
  have hassignment : m.assignment ctx = (m.initialText? ctx).elim "" (" = " ++ ·) := by
    rw [assignment, hclass]
    cases m.initialText? ctx <;> rfl
  rw [text, modifiers, isMarked, hm, hclass, hassignment]
  simp

namespace Entity

/-! ## Written members -/

/-- The members that are written: all but the hand-written ones. -/
def written (e : Entity) : List Member :=
  e.members.filter (!·.verbatim)

def writtenProperties (e : Entity) : List Member :=
  e.written.filter (!·.isConstant)

def writtenConstants (e : Entity) : List Member :=
  e.written.filter (·.isConstant)

theorem bodyMembers_class (e : Entity) (ctx : Context) : e.bodyMembers (ctx.inMode false) = e.written := by
  simp [bodyMembers, written]

theorem bodyMembers_interface (e : Entity) (ctx : Context) :
    e.bodyMembers (ctx.inMode true) = e.writtenProperties := by
  rw [bodyMembers, writtenProperties, written, List.filter_filter]
  refine List.filter_congr fun m _ => ?_
  rw [Context.inMode_interface, Bool.true_and, Bool.and_comm]

theorem constants_eq (e : Entity) (name : String) (ctx : Context) : e.constants name ctx =
    { name := name ++ "Constants"
      properties := e.writtenConstants.map fun m => (m.name, .expression ((m.initialText? ctx).getD "")) } := by
  rw [constants, writtenConstants, written, List.filter_filter]

theorem perm_written (e : Entity) : (e.writtenProperties ++ e.writtenConstants).Perm e.written := by
  have h := List.filter_append_perm (!·.isConstant) e.written
  simp only [Bool.not_not] at h
  exact h

/-- Members in strictly increasing order of the bytes of their names. -/
def Increasing (members : List Member) : Prop :=
  (members.map fun m => Text.bytes m.name).Pairwise (· < ·)

theorem increasing_of_sublist {e : Entity} {members : List Member} (h : members.Sublist e.members) :
    Increasing members := by
  rw [Increasing, List.pairwise_map]
  exact (e.sorted.imp Text.bytes_lt_iff.2).sublist h

/-! ## Interfaces as lines -/

/-- The object of constants behind an interface, one a line, if there are any. -/
def constantLines (e : Entity) (ctx : Context) : List (Nat × String) :=
  if e.writtenConstants = [] then []
  else (0, "") :: (0, "export const " ++ ctx.rename e.name ++ "Constants = \x7b") ::
    e.writtenConstants.map (fun m => (1, m.name ++ ": " ++ (m.initialText? ctx).getD "" ++ ",")) ++ [(0, "\x7d")]

theorem texts_constants (e : Entity) (ctx : Context) :
    Fragment.texts ctx.options.indent.unit 0
      (if !(e.constants (ctx.rename e.name) ctx).properties.isEmpty then
        [.blank, (e.constants (ctx.rename e.name) ctx).fragment] else []) =
      linesText ctx.options.indent.unit (e.constantLines ctx) := by
  rw [constants_eq, constantLines, List.isEmpty_map]
  by_cases hempty : e.writtenConstants = []
  · rw [hempty]
    rfl
  · have hproperties : (e.writtenConstants.map fun m =>
        (m.name, ObjectValue.expression ((m.initialText? ctx).getD ""))).map ExportedObject.property =
          e.writtenConstants.map fun m => .line (m.name ++ ": " ++ (m.initialText? ctx).getD "" ++ ",") := by
      rw [List.map_map]
      rfl
    have hheader : "Constants" ++ " = \x7b" = "Constants = \x7b" := rfl
    rw [if_neg hempty, List.isEmpty_eq_false_iff.2 hempty, Bool.not_false, if_pos rfl]
    simp only [Fragment.texts, Fragment.text, ExportedObject.fragment, hproperties, hheader, Fragment.texts_map_line,
      linesText_append, linesText_cons, linesText_nil, lineText_blank, List.cons_append, String.append_empty,
      String.append_assoc]

/-- An interface has its declarations in its body, and a blank line if there are any. -/
theorem render_interface_lines {e : Entity} (he : e.isEnumeration = false) {ctx : Context}
    (hinterface : ctx.interface = true) : e.render ctx = e.fileAround ctx
      (e.declarationLines ctx ++ if (e.bodyMembers ctx).isEmpty then [] else [(0, "")]) (e.constantLines ctx) := by
  refine render_around he ?_ ?_
  · have hblank : Fragment.texts ctx.options.indent.unit 1 (if (e.bodyMembers ctx).isEmpty then [] else [.blank]) =
        linesText ctx.options.indent.unit (if (e.bodyMembers ctx).isEmpty then [] else [(0, "")]) := by
      split
      · rfl
      · rw [linesText_cons, lineText_blank]
        rfl
    simp only [bodyFragments, hinterface, if_true, Bool.and_true, Fragment.texts_append, hblank, Fragment.texts_map_line,
      Fragment.texts, e.texts_membersRegion, linesText_append, declarationLines, String.append_empty,
      String.append_assoc]
  · simp only [endFragments, hinterface, Bool.true_and, Fragment.texts_append, e.texts_constants, Fragment.texts,
      Fragment.text, e.texts_codeRegion, String.append_empty, String.append_assoc]

/-! ## Either mode -/

/-- The members of an entity in either mode. -/
structure WrittenInEitherMode (e : Entity) (ctx : Context) : Prop where
  /-- The body of a class has a line for each written member, and then the constructor. -/
  class_file : e.render (ctx.inMode false) = e.fileAround (ctx.inMode false)
    (e.written.map (fun m => (1, m.text (ctx.inMode false) ++ ctx.terminator)) ++
      (0, "") :: e.constructorLines (ctx.inMode false) (e.assigned (ctx.inMode false)) ++ [(0, "")]) []
  /-- The body of an interface has a line for each written property, and nothing else. The constants stand behind. -/
  interface_file : e.render (ctx.inMode true) = e.fileAround (ctx.inMode true)
    (e.writtenProperties.map (fun m => (1, m.text (ctx.inMode true) ++ ctx.terminator)) ++
      if e.writtenProperties.isEmpty then [] else [(0, "")]) (e.constantLines (ctx.inMode true))
  /-- No member is lost, and none is written twice. -/
  perm : (e.writtenProperties ++ e.writtenConstants).Perm e.written
  increasing : Increasing e.written
  increasing_properties : Increasing e.writtenProperties
  increasing_constants : Increasing e.writtenConstants
  /-- The value of a constant, if it has one, is the same text in a class as in the object. -/
  value : ∀ m ∈ e.writtenConstants, ∃ value : Option String,
    m.text (ctx.inMode false) = "public static readonly " ++ m.name ++ ": " ++ m.typeText (ctx.inMode false) ++
      value.elim "" (" = " ++ ·) ∧
    m.initialText? (ctx.inMode true) = value

/-- Every member is written once in either mode, in the order of the names, and a constant keeps its value. -/
theorem written_in_either_mode {e : Entity} (he : e.isEnumeration = false) (ctx : Context) :
    e.WrittenInEitherMode ctx where
  class_file := by
    have h := render_class_lines he (ctx.inMode_interface false)
    rw [declarationLines, bodyMembers_class] at h
    exact h
  interface_file := by
    have h := render_interface_lines he (ctx.inMode_interface true)
    rw [declarationLines, bodyMembers_interface] at h
    exact h
  perm := e.perm_written
  increasing := increasing_of_sublist List.filter_sublist
  increasing_properties := increasing_of_sublist (List.filter_sublist.trans List.filter_sublist)
  increasing_constants := increasing_of_sublist (List.filter_sublist.trans List.filter_sublist)
  value := by
    intro m hm
    have hconstant : m.isConstant = true := (List.mem_filter.1 hm).2
    exact ⟨m.initialText? (ctx.inMode false), Member.text_constant hconstant (ctx.inMode_interface false), rfl⟩

/-- A label with properties, constants and a hand-written member. -/
def labelled : Entity :=
  (bare "" "Label" (.model none)).insertMembers [
    .typed "über" [.named "string"], .typed "zone" [.named "string"],
    { Member.constant "note" "as it stands" with verbatim := true },
    (Member.constant "TITLE" "\"it's\"").withTypes [.named "string"], .constant "LIMIT" "3"]

/-- The constants of a label stand before its properties in a class, and behind them in an interface. -/
theorem labelled_in_either_mode : labelled.isEnumeration = false ∧
    labelled.written.map (·.text ((Context.regular {}).inMode false)) =
      ["public static readonly LIMIT: any = 3", "public static readonly TITLE: string = 'it\\'s'",
        "public zone?: string", "public über?: string"] ∧
    labelled.writtenProperties.map (·.text ((Context.regular {}).inMode true)) = ["zone?: string", "über?: string"] ∧
    labelled.constantLines ((Context.regular {}).inMode true) =
      [(0, ""), (0, "export const LabelConstants = \x7b"), (1, "LIMIT: 3,"), (1, "TITLE: 'it\\'s',"), (0, "\x7d")] ∧
    labelled.WrittenInEitherMode (.regular {}) :=
  ⟨rfl, by decide +kernel, by decide +kernel, by decide +kernel, written_in_either_mode rfl (.regular {})⟩

end Entity

end EntityScript
