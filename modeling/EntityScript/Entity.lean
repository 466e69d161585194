import EntityScript.Code.Import
import EntityScript.Code.Member
import EntityScript.Code.Region
import EntityScript.Code.Service
/-!
# Entities

A model or enum with all that its file shows: members by name, imports in the order they were asked
for, and the hand-written regions.
-/

namespace EntityScript

/-- Where an imported symbol comes from. -/
inductive ImportOrigin
  /-- An external module of type utilities. -/
  | utility
  /-- The base of a model. -/
  | base
  /-- Another entity, which `New` files import by its new name. -/
  | entity
  /-- A pivot interface. -/
  | pivot
  deriving Repr, DecidableEq

structure EntityImport where
  symbol : String
  module : String
  origin : ImportOrigin
  deriving Repr, DecidableEq

namespace EntityImport

/-- `SetRequired` from the module that exports it. -/
def utility (module : String) : EntityImport :=
  ⟨"SetRequired", module, .utility⟩

/-- A symbol from the file of its name. -/
def sibling (symbol : String) (origin : ImportOrigin) : EntityImport :=
  ⟨symbol, "./" ++ symbol, origin⟩

def isUtility (i : EntityImport) : Bool :=
  i.origin == .utility

/-- The import line in a context. -/
def inContext (i : EntityImport) (ctx : Context) : ModuleImport :=
  match i.origin with
  | .utility => { module := i.module, named := [i.symbol], typeOnly := true }
  | .entity =>
    { module := "./" ++ ctx.rename i.symbol, default? := some (ctx.rename i.symbol),
      typeOnly := ctx.interface }
  | .base | .pivot => { module := i.module, default? := some i.symbol, typeOnly := ctx.interface }

end EntityImport

namespace Member

/-- Members in order of their names, with `m` in place of one of its name. -/
def insert (m : Member) : List Member → List Member
  | [] => [m]
  | n :: ns =>
    if m.name < n.name then m :: n :: ns
    else if m.name = n.name then m :: ns
    else n :: insert m ns

theorem mem_of_mem_insert {m x : Member} {ns : List Member} (h : x ∈ insert m ns) : x = m ∨ x ∈ ns := by
  induction ns with
  | nil => simpa [insert] using h
  | cons n ns ih =>
    simp only [insert] at h
    split at h
    · simpa using h
    · split at h <;> grind

/-- Insertion keeps the order. -/
theorem pairwise_insert (m : Member) {ns : List Member} (h : ns.Pairwise (·.name < ·.name)) :
    (insert m ns).Pairwise (·.name < ·.name) := by
  induction ns with
  | nil => simp [insert]
  | cons n ns ih =>
    obtain ⟨hn, hs⟩ := List.pairwise_cons.1 h
    simp only [insert]
    split
    · exact List.pairwise_cons.2 ⟨by grind, h⟩
    · split
      · exact List.pairwise_cons.2 ⟨by grind, hs⟩
      · refine List.pairwise_cons.2 ⟨fun x hx => ?_, ih hs⟩
        rcases mem_of_mem_insert hx with rfl | hx
        · grind
        · exact hn x hx

theorem find?_insert_self (m : Member) (ns : List Member) :
    (insert m ns).find? (·.name == m.name) = some m := by
  induction ns with
  | nil => simp [insert]
  | cons n ns ih =>
    simp only [insert]
    split
    · simp
    · split
      · simp
      · rename_i hne
        simpa [Ne.symm hne] using ih

theorem find?_insert_of_ne {m : Member} {name : String} (ns : List Member) (h : name ≠ m.name) :
    (insert m ns).find? (·.name == name) = ns.find? (·.name == name) := by
  induction ns with
  | nil => simp [insert, Ne.symm h]
  | cons n ns ih =>
    simp only [insert]
    split
    · simp [Ne.symm h]
    · split
      · rename_i he
        simp [← he, Ne.symm h]
      · simp only [List.find?_cons, ih]

end Member

inductive EntityKind
  | model (base : Option String)
  | enumeration (services : List ServiceMethod)
  deriving Repr, DecidableEq

structure Entity where
  space : String
  name : String
  kind : EntityKind
  kept : KeptRegions
  members : List Member
  /-- Members stand in order of their names, one for each. -/
  sorted : members.Pairwise (·.name < ·.name)
  imports : List EntityImport
  /-- There is one import for each symbol. -/
  distinct : imports.Pairwise (·.symbol ≠ ·.symbol)
  deriving Repr

namespace Entity

/-- An entity that shows nothing but its name. -/
def bare (space name : String) (kind : EntityKind) : Entity :=
  { space, name, kind, kept := .empty, members := [], sorted := .nil, imports := [], distinct := .nil }

def isEnumeration (e : Entity) : Bool :=
  match e.kind with
  | .model _ => false
  | .enumeration _ => true

/-- The base that a model extends. -/
def base? (e : Entity) : Option String :=
  match e.kind with
  | .model base => base
  | .enumeration _ => none

def services (e : Entity) : List ServiceMethod :=
  match e.kind with
  | .model _ => []
  | .enumeration services => services

/-- Only enums have services. -/
def withServices (e : Entity) (services : List ServiceMethod) : Entity :=
  match e.kind with
  | .model _ => e
  | .enumeration _ => { e with kind := .enumeration services }

/-- A member takes the place of an earlier one of its name. -/
def insertMember (e : Entity) (m : Member) : Entity :=
  { e with members := m.insert e.members, sorted := m.pairwise_insert e.sorted }

def insertMembers (e : Entity) (ms : List Member) : Entity :=
  ms.foldl insertMember e

def member? (e : Entity) (name : String) : Option Member :=
  e.members.find? (·.name == name)

/-- The first import of a symbol stays. -/
def addImport (e : Entity) (i : EntityImport) : Entity :=
  if h : e.imports.any (·.symbol == i.symbol) then e
  else
    { e with
      imports := e.imports ++ [i]
      distinct := List.pairwise_append.2 ⟨e.distinct, by simp, by simpa using h⟩ }

def addImports (e : Entity) (is : List EntityImport) : Entity :=
  is.foldl addImport e

def importNames (e : Entity) : List String :=
  e.imports.map (·.symbol)

theorem member?_insertMember_self (e : Entity) (m : Member) :
    (e.insertMember m).member? m.name = some m :=
  m.find?_insert_self e.members

theorem member?_insertMember_of_ne (e : Entity) {m : Member} {name : String} (h : name ≠ m.name) :
    (e.insertMember m).member? name = e.member? name :=
  Member.find?_insert_of_ne e.members h

end Entity

end EntityScript
