import EntityScript.Render
/-!
# The layout of files

What a writer adds is the text of its fragments, so a file is a text with a slot for each of its
regions: what is hand-written fills the slots and changes nothing around them.
-/

namespace EntityScript

/-! ## The text of fragments -/

theorem Fragment.texts_append (unit : String) (level : Nat) (fs gs : List Fragment) :
    texts unit level (fs ++ gs) = texts unit level fs ++ texts unit level gs := by
  induction fs with
  | nil => simp [texts]
  | cons f fs ih => simp [texts, ih, String.append_assoc]

mutual

/-- A fragment is written as its text at the level of the writer, which stays. -/
theorem Writer.emit_eq (w : Writer) : (f : Fragment) → w.emit f = w.raw (f.text w.unit w.level)
  | .line s => by simp [emit, line, indentedRaw, Fragment.text, Fragment.lineText, String.append_assoc]
  | .blank => rfl
  | .raw _ => rfl
  | .indentedRaw _ => rfl
  | .block header body close => by
    have h := Writer.emitAll_eq (w.line header).indent body
    cases close <;> simp only [emit, h] <;>
      simp [line, indentedRaw, raw, indent, dedent, Fragment.text, Fragment.lineText, String.append_assoc]

/-- Fragments are written as their text at the level of the writer, which stays. -/
theorem Writer.emitAll_eq (w : Writer) :
    (fs : List Fragment) → w.emitAll fs = w.raw (Fragment.texts w.unit w.level fs)
  | [] => by simp [emitAll, raw, Fragment.texts]
  | f :: fs => by
    rw [emitAll, Writer.emitAll_eq, Writer.emit_eq]
    simp [raw, Fragment.texts, String.append_assoc]

end

theorem Entity.render_eq (e : Entity) (ctx : Context) :
    e.render ctx = Fragment.texts ctx.options.indent.unit 0 (e.fragments ctx) := by
  simp [render, Writer.emitAll_eq, Writer.raw]

/-! ## Lines -/

/-- Lines as a text, each at its level. -/
def linesText (unit : String) (lines : List (Nat × String)) : String :=
  Text.join "" (lines.map fun (level, s) => Fragment.lineText unit level s)

@[simp] theorem linesText_nil (unit : String) : linesText unit [] = "" := rfl

@[simp] theorem linesText_cons (unit : String) (level : Nat) (s : String) (lines : List (Nat × String)) :
    linesText unit ((level, s) :: lines) = Fragment.lineText unit level s ++ linesText unit lines :=
  Text.join_empty_cons _ _

@[simp] theorem linesText_append (unit : String) (lines more : List (Nat × String)) :
    linesText unit (lines ++ more) = linesText unit lines ++ linesText unit more := by
  rw [linesText, List.map_append, Text.join_empty_append]
  rfl

theorem Fragment.texts_map_line {α : Type} (unit : String) (level : Nat) (f : α → String) (xs : List α) :
    texts unit level (xs.map fun x => .line (f x)) = linesText unit (xs.map fun x => (level, f x)) := by
  induction xs with
  | nil => rfl
  | cons x xs ih => rw [List.map_cons, texts, ih, List.map_cons, linesText_cons, text]

/-! ## Slots -/

namespace Region

/-- What stands before the closing comment of an empty region. -/
def closeIndent (r : Region) (ctx : Context) : String :=
  match r with
  | members => ctx.options.indent.unit
  | imports | code => ""

/-- What an empty region holds. -/
def blank (r : Region) (ctx : Context) : String :=
  "\n\n" ++ r.closeIndent ctx

end Region

/-- What a region holds in a file with these hand-written texts. -/
def KeptRegions.slot (k : KeptRegions) (ctx : Context) (r : Region) : String :=
  (k.get? r).getD (r.blank ctx)

/-- A text with slots: what stands before them, and each slot with what stands after it. -/
structure Layout where
  head : List Char
  slots : List (Region × List Char)

namespace Layout

/-- The regions that have slots, in order. -/
def regions (l : Layout) : List Region :=
  l.slots.map (·.1)

/-- Slots between their comments, with what stands after each. -/
def fillSlots (fill : Region → List Char) : List (Region × List Char) → List Char
  | [] => []
  | (r, after) :: slots =>
    r.opening.toList ++ (fill r ++ (r.closing.toList ++ (after ++ fillSlots fill slots)))

/-- The text with its slots filled. -/
def text (l : Layout) (fill : Region → List Char) : List Char :=
  l.head ++ fillSlots fill l.slots

theorem fillSlots_congr {fill fill' : Region → List Char} {slots : List (Region × List Char)}
    (h : ∀ r ∈ slots.map (·.1), fill r = fill' r) : fillSlots fill slots = fillSlots fill' slots := by
  induction slots with
  | nil => rfl
  | cons s slots ih =>
    obtain ⟨r, after⟩ := s
    simp only [List.map_cons, List.mem_cons, forall_eq_or_imp] at h
    rw [fillSlots, fillSlots, h.1, ih h.2]

end Layout

namespace Entity

/-- The regions of the file of an entity. -/
def regions (e : Entity) : List Region :=
  if e.isEnumeration then [.code] else Region.all

/-- The entity with these hand-written texts. -/
def withKept (e : Entity) (kept : KeptRegions) : Entity :=
  { e with kept }

theorem texts_region (e : Entity) (r : Region) (ctx : Context) (level : Nat) :
    Fragment.texts ctx.options.indent.unit level (e.region r (r.closeIndent ctx)) =
      Text.copies ctx.options.indent.unit level ++ r.opening ++ e.kept.slot ctx r ++ r.closing ++ "\n" := by
  simp [region, Region.fragments, Fragment.texts, Fragment.text, KeptRegions.slot, Region.blank,
    String.append_assoc]

/-- The layout of an enum file. -/
def enumLayout (e : Entity) (ctx : Context) : Layout :=
  let cases := (e.members.filter (!·.verbatim)).map fun m =>
    Fragment.line (m.name ++ " = " ++ m.initial.getD "" ++ ",")
  let services := if e.services.isEmpty then []
    else [(ServiceMethod.object e.name e.services ctx).fragment, .blank]
  { head := (Fragment.texts ctx.options.indent.unit 0
        [.block ("export enum " ++ e.name ++ " \x7b") cases (some "\x7d"), .blank] ++
      Fragment.texts ctx.options.indent.unit 0 services).toList
    slots := [(.code, ['\n'])] }

/-- The layout of a model file. -/
def modelLayout (e : Entity) (ctx : Context) : Layout :=
  let unit := ctx.options.indent.unit
  let name := ctx.rename e.name
  let imports := e.orderedImports ctx
  let members := e.bodyMembers ctx
  let constants := e.constants name ctx
  let importLines := imports.map (fun i => .line ((i.inContext ctx).text ctx.options.importQuotes)) ++
    (if imports.isEmpty then [] else [.blank])
  let body := members.map (fun m => .line (m.text ctx ++ ctx.terminator)) ++
    (if ctx.interface then [] else [.blank, e.constructor name ctx]) ++
    (if members.isEmpty && ctx.interface then [] else [.blank])
  let last := if ctx.interface && !constants.properties.isEmpty then [.blank, constants.fragment] else []
  { head := (Fragment.texts unit 0 importLines).toList
    slots :=
      [(.imports, ("\n" ++ "\n" ++ Fragment.lineText unit 0 (e.header name ctx) ++ Fragment.texts unit 1 body ++
          Text.copies unit 1).toList),
        (.members, ("\n" ++ Fragment.lineText unit 0 "\x7d" ++ "\n").toList),
        (.code, ("\n" ++ Fragment.texts unit 0 last).toList)] }

/-- The layout of the file of an entity. -/
def layout (e : Entity) (ctx : Context) : Layout :=
  if e.isEnumeration then e.enumLayout ctx else e.modelLayout ctx

theorem layout_regions (e : Entity) (ctx : Context) : (e.layout ctx).regions = e.regions := by
  unfold layout regions
  split <;> rfl

theorem layout_withKept (e : Entity) (ctx : Context) (kept : KeptRegions) :
    (e.withKept kept).layout ctx = e.layout ctx := rfl

theorem toList_enumFragments (e : Entity) (ctx : Context) :
    (Fragment.texts ctx.options.indent.unit 0 (e.enumFragments ctx)).toList =
      (e.enumLayout ctx).text fun r => (e.kept.slot ctx r).toList := by
  have h := e.texts_region .code ctx 0
  simp only [Region.closeIndent] at h
  simp only [enumFragments, Fragment.texts_append, h]
  simp [enumLayout, Layout.text, Layout.fillSlots, Text.copies]

theorem toList_modelFragments (e : Entity) (ctx : Context) :
    (Fragment.texts ctx.options.indent.unit 0 (e.modelFragments ctx)).toList =
      (e.modelLayout ctx).text fun r => (e.kept.slot ctx r).toList := by
  have hi := e.texts_region .imports ctx 0
  have hm := e.texts_region .members ctx 1
  have hc := e.texts_region .code ctx 0
  simp only [Region.closeIndent] at hi hm hc
  simp only [modelFragments, importFragments, endFragments, bodyFragments, Fragment.texts_append, Fragment.texts,
    Fragment.text, hi, hm, hc]
  simp [modelLayout, Layout.text, Layout.fillSlots, Text.copies, Fragment.texts_append]

/-- A file is its layout with what is hand-written in the slots. -/
theorem toList_render (e : Entity) (ctx : Context) :
    (e.render ctx).toList = (e.layout ctx).text fun r => (e.kept.slot ctx r).toList := by
  rw [render_eq, fragments, layout]
  split
  · exact toList_enumFragments e ctx
  · exact toList_modelFragments e ctx

end Entity

end EntityScript
