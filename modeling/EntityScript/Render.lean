import EntityScript.Entity
/-!
# Files of entities

A model as a class or an interface, an enum with its services. Hand-written regions are carried
over.
-/

namespace EntityScript.Entity

/-- The imports of a file, external ones first; a `New` file wraps nothing and drops the utility. -/
def orderedImports (e : Entity) (ctx : Context) : List EntityImport :=
  (if ctx.newModel then [] else e.imports.filter (·.isUtility)) ++ e.imports.filter (!·.isUtility)

/-- What the constructor assigns to a property, if it needs a value of its own. -/
def initializer? (field : String) (d : Descriptor) (ctx : Context) : Option String :=
  let given := "init?." ++ field
  let value := "init." ++ field
  if d.collection then
    if d.isDate && !d.forcedPrimitive then
      some (given ++ " ? " ++ value ++ ".map(v => new Date(v)) : []")
    else if d.isConstructible then
      some (given ++ " ? " ++ value ++ ".map(v => new " ++ ctx.rename d.name ++ "(v)) : []")
    else some (given ++ " ?? []")
  else if d.isDate && !d.forcedPrimitive then
    some (given ++ " ? new Date(" ++ value ++ ") : undefined")
  else if d.isConstructible then
    some (given ++ " ? new " ++ ctx.rename d.name ++ "(" ++ value ++ ") : undefined")
  else none

/-- The assignment of a member in the constructor, if it has one. -/
def assignment? (ctx : Context) (m : Member) : Option Fragment :=
  if m.isConstant || m.verbatim then none
  else
    m.soleType?.bind fun d =>
      (initializer? m.name d ctx).map fun value =>
        .line ("this." ++ m.name ++ " = " ++ value ++ ctx.terminator)

/-- The constructor of a class named `name`. -/
def constructor (e : Entity) (name : String) (ctx : Context) : Fragment :=
  let start := if e.base?.isSome then [Fragment.line ("super(init)" ++ ctx.terminator)] else []
  .block ("constructor(init?: Partial<" ++ name ++ ">) \x7b")
    (start ++ [.line ("Object.assign(this, init)" ++ ctx.terminator)] ++
      e.members.filterMap (assignment? ctx))
    (some "\x7d")

/-- The members in the body of the class or interface. -/
def bodyMembers (e : Entity) (ctx : Context) : List Member :=
  e.members.filter fun m => !m.verbatim && !(ctx.interface && m.isConstant)

/-- The constants beside an interface. -/
def constants (e : Entity) (name : String) (ctx : Context) : ExportedObject :=
  { name := name ++ "Constants"
    properties := (e.members.filter fun m => m.isConstant && !m.verbatim).map fun m =>
      (m.name, .expression ((m.initialText? ctx).getD "")) }

def region (e : Entity) (r : Region) (closeIndent : String) : List Fragment :=
  r.fragments (e.kept.get? r) closeIndent

/-- The import lines and the region for hand-written ones. -/
def importFragments (e : Entity) (ctx : Context) : List Fragment :=
  let imports := e.orderedImports ctx
  imports.map (fun i => .line ((i.inContext ctx).text ctx.options.importQuotes)) ++
    (if imports.isEmpty then [] else [.blank]) ++ e.region .imports "" ++ [.blank]

/-- The line that opens the class or interface. -/
def header (e : Entity) (name : String) (ctx : Context) : String :=
  "export default " ++ (if ctx.interface then "interface " else "class ") ++ name ++
    (match e.base? with
      | some base => " extends " ++ base
      | none => "") ++ " \x7b"

/-- The body of the class or interface. -/
def bodyFragments (e : Entity) (name : String) (ctx : Context) : List Fragment :=
  let members := e.bodyMembers ctx
  members.map (fun m => .line (m.text ctx ++ ctx.terminator)) ++
    (if ctx.interface then [] else [.blank, e.constructor name ctx]) ++
    (if members.isEmpty && ctx.interface then [] else [.blank]) ++
    e.region .members ctx.options.indent.unit

/-- What stands after the class or interface. -/
def endFragments (e : Entity) (name : String) (ctx : Context) : List Fragment :=
  let constants := e.constants name ctx
  [.blank] ++ e.region .code "" ++
    (if ctx.interface && !constants.properties.isEmpty then [.blank, constants.fragment] else [])

/-- The file of a model. -/
def modelFragments (e : Entity) (ctx : Context) : List Fragment :=
  let name := ctx.rename e.name
  e.importFragments ctx ++ [.block (e.header name ctx) (e.bodyFragments name ctx) (some "\x7d")] ++
    e.endFragments name ctx

/-- The file of an enum. -/
def enumFragments (e : Entity) (ctx : Context) : List Fragment :=
  let cases := (e.members.filter (!·.verbatim)).map fun m =>
    Fragment.line (m.name ++ " = " ++ m.initial.getD "" ++ ",")
  [.block ("export enum " ++ e.name ++ " \x7b") cases (some "\x7d"), .blank] ++
    (if e.services.isEmpty then []
      else [(ServiceMethod.object e.name e.services ctx).fragment, .blank]) ++
    e.region .code ""

def fragments (e : Entity) (ctx : Context) : List Fragment :=
  if e.isEnumeration then e.enumFragments ctx else e.modelFragments ctx

/-- The file of an entity. -/
def render (e : Entity) (ctx : Context) : String :=
  (Writer.emitAll { unit := ctx.options.indent.unit } (e.fragments ctx)).text

end EntityScript.Entity
