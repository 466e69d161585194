import EntityScript.Quote
import EntityScript.Text.Cut
/-!
# Options

What a run may choose about the form of the generated code.
-/

namespace EntityScript

/-- One level of indentation. -/
inductive Indent
  | spaces (width : Nat)
  | tab
  deriving Repr, DecidableEq

/-- The text of one level. -/
def Indent.unit : Indent → String
  | .spaces width => Text.copies " " width
  | .tab => "\t"

structure Options where
  indent : Indent := .spaces 4
  /-- The quotes of module names. -/
  importQuotes : QuoteStyle := .double
  /-- The quotes of literals. -/
  stringQuotes : QuoteStyle := .single
  /-- Interfaces instead of classes. -/
  interface : Bool := false
  semicolons : Bool := true
  /-- Mark every property optional. -/
  forceOptional : Bool := true
  /-- Write a `New` variant of every model too. -/
  separateNewModels : Bool := false
  /-- The base of models that name none. -/
  baseClass : Option String := none
  /-- The module that exports `SetRequired`. -/
  requiredSubsetModule : String := "type-fest"
  deriving Repr, DecidableEq

/-- What ends a statement. -/
def Options.terminator (o : Options) : String :=
  if o.semicolons then ";" else ""

/-- How one file is written: a model as it is, or its `New` variant, in which every property is
optional, nothing is wrapped in `SetRequired` and models go by their new names. -/
structure Context where
  options : Options
  newModel : Bool
  forceOptional : Bool
  /-- New names by old name; the first entry of a name counts. -/
  renames : List (String × String)
  deriving Repr

namespace Context

/-- Models as they are. -/
def regular (o : Options) : Context :=
  { options := o, newModel := false, forceOptional := o.forceOptional, renames := [] }

/-- The `New` variants, before any renaming. -/
def newModels (o : Options) : Context :=
  { options := o, newModel := true, forceOptional := true, renames := [] }

/-- The context in which `name` goes by `renamed`. -/
def withRename (ctx : Context) (name renamed : String) : Context :=
  { ctx with renames := (name, renamed) :: ctx.renames }

/-- The context of `New` files, in which each of these models goes by its new name. -/
def forNewModels (o : Options) (names : List String) : Context :=
  names.foldl (fun ctx name => ctx.withRename name ("New" ++ name)) (newModels o)

/-- The name that `name` goes by. -/
def rename (ctx : Context) (name : String) : String :=
  (ctx.renames.lookup name).getD name

def interface (ctx : Context) : Bool :=
  ctx.options.interface

def terminator (ctx : Context) : String :=
  ctx.options.terminator

end Context

end EntityScript
