import Mathlib.Data.List.Basic
import EntityScript.Signal.Parser
import EntityScript.Type.Expression
/-!
# Names in the texts of types

What a reader takes from the text of a type: its names, but not the keys of objects. The names in the
text of an expression are those that the expression is made of.
-/

namespace EntityScript

open Signal (isNameChar)

/-! ## Reading names -/

/-- Whether a colon follows, perhaps behind a question mark. -/
def isAtColon (cs : List Char) : Bool :=
  cs.head? == some ':' || cs.take 2 == ['?', ':']

/-- The name that ends here, unless it is a key. -/
def closeName (name rest : List Char) : List String :=
  if name.isEmpty || isAtColon rest then [] else [String.ofList name]

/-- The names in a text, where `name` has been read so far. -/
def scanNames (name : List Char) : List Char → List String
  | [] => closeName name []
  | c :: cs =>
    if isNameChar c then scanNames (name ++ [c]) cs else closeName name (c :: cs) ++ scanNames [] cs

/-- The names in the text of a type that are no keys. -/
def identifiers (text : String) : List String :=
  scanNames [] text.toList

/-- Whether a text that starts like this ends a name and is no part of a key before it. -/
def Separates : List Char → Prop
  | [] => True
  | c :: _ => isNameChar c = false ∧ c ≠ ':' ∧ c ≠ '?'

instance : (cs : List Char) → Decidable (Separates cs)
  | [] => .isTrue trivial
  | c :: _ => inferInstanceAs (Decidable (isNameChar c = false ∧ c ≠ ':' ∧ c ≠ '?'))

theorem scanNames_append {b : List Char} (hb : Separates b) (name a : List Char) :
    scanNames name (a ++ b) = scanNames name a ++ scanNames [] b := by
  have hcolon (rest : List Char) : isAtColon (rest ++ b) = isAtColon rest := by
    cases b with
    | nil => simp
    | cons d b =>
      obtain ⟨-, hd, hd'⟩ := hb
      match rest with
      | [] => simp [isAtColon, hd, hd']
      | [c] => simp [isAtColon, hd]
      | c :: c' :: rest => simp [isAtColon]
  induction a generalizing name with
  | nil =>
    cases b with
    | nil => simp [scanNames, closeName]
    | cons d b =>
      have h := hcolon []
      simp only [List.nil_append] at h
      simp [scanNames, hb.1, closeName, h]
  | cons c a ih =>
    have h := hcolon (c :: a)
    simp only [List.cons_append] at h
    simp only [List.cons_append, scanNames, closeName, h, ih]
    split <;> simp

theorem scanNames_name {key : List Char} (hk : ∀ c ∈ key, isNameChar c) (name rest : List Char) :
    scanNames name (key ++ rest) = scanNames (name ++ key) rest := by
  induction key generalizing name with
  | nil => simp
  | cons c key ih =>
    rw [List.forall_mem_cons] at hk
    simp [scanNames, hk.1, ih hk.2]

/-- A name reads as itself. -/
theorem identifiers_of_name {name : String} (hn : name ≠ "") (h : ∀ c ∈ name.toList, isNameChar c) :
    identifiers name = [name] := by
  have hscan := scanNames_name h [] []
  rw [List.append_nil, List.nil_append] at hscan
  rw [identifiers, hscan]
  simp [scanNames, closeName, isAtColon, hn]

theorem identifiers_append {a b : String} (hb : Separates b.toList) :
    identifiers (a ++ b) = identifiers a ++ identifiers b := by
  rw [identifiers, String.toList_append, scanNames_append hb]
  rfl

theorem identifiers_array (element : String) :
    identifiers ("Array<" ++ element ++ ">") = "Array" :: identifiers element := by
  have h : identifiers ("Array<" ++ (element ++ ">")) = "Array" :: identifiers (element ++ ">") := by
    simp only [identifiers, String.toList_append]
    rfl
  rw [String.append_assoc, h, identifiers_append (by decide)]
  simp [show identifiers ">" = [] from rfl]

theorem identifiers_index (key value : String) :
    identifiers ("\x7b [key: " ++ key ++ "]: " ++ value ++ " \x7d") = identifiers key ++ identifiers value := by
  have hopen (cs : String) : identifiers ("\x7b [key: " ++ cs) = identifiers cs := by
    simp only [identifiers, String.toList_append]
    rfl
  have hclose (cs : String) : identifiers ("]: " ++ cs) = identifiers cs := by
    simp only [identifiers, String.toList_append]
    rfl
  have hparts (cs : String) : Separates ("]: " ++ cs).toList := by
    simp only [String.toList_append]
    exact ⟨rfl, by decide, by decide⟩
  have hend : identifiers (value ++ " \x7d") = identifiers value := by
    rw [identifiers_append (by decide)]
    simp [show identifiers " \x7d" = [] from rfl]
  simp only [String.append_assoc]
  rw [hopen, identifiers_append (hparts _), hclose, hend]

theorem identifiers_braces (fields : String) : identifiers ("\x7b " ++ fields ++ " \x7d") = identifiers fields := by
  have hopen (cs : String) : identifiers ("\x7b " ++ cs) = identifiers cs := by
    simp only [identifiers, String.toList_append]
    rfl
  rw [String.append_assoc, hopen, identifiers_append (by decide)]
  simp [show identifiers " \x7d" = [] from rfl]

theorem identifiers_field {key : String} (hk : ∀ c ∈ key.toList, isNameChar c) (optional : Bool) (type : String) :
    identifiers (key ++ (if optional then "?" else "") ++ ": " ++ type) = identifiers type := by
  simp only [identifiers, String.toList_append, List.append_assoc]
  rw [scanNames_name hk, List.nil_append]
  cases optional
  · simp [scanNames, closeName, isAtColon, show isNameChar ':' = false from rfl, show isNameChar ' ' = false from rfl]
  · simp [scanNames, closeName, isAtColon, show isNameChar ':' = false from rfl, show isNameChar ' ' = false from rfl,
      show isNameChar '?' = false from rfl]

/-- The names in texts with a separator that has none. -/
theorem identifiers_join_cons (sep : String) (hp : ∀ cs, Separates (sep.toList ++ cs))
    (hs : ∀ cs, scanNames [] (sep.toList ++ cs) = scanNames [] cs) (text : String) (texts : List String) :
    identifiers (Text.join sep (text :: texts)) = identifiers text ++ identifiers (Text.join sep texts) := by
  cases texts with
  | nil => simp [Text.join, identifiers, scanNames, closeName]
  | cons t ts =>
    have h : identifiers (text ++ (sep ++ Text.join sep (t :: ts))) = identifiers text ++
        identifiers (sep ++ Text.join sep (t :: ts)) :=
      identifiers_append (by rw [String.toList_append]; exact hp _)
    rw [Text.join, String.append_assoc, h]
    · simp only [identifiers, String.toList_append, hs]
    · simp

/-! ## Names of expressions -/

namespace TypeExpr

mutual

/-- The names that a type is made of. -/
def names : TypeExpr → List String
  | name n => [n]
  | array element => "Array" :: element.names
  | index key value => key.names ++ value.names
  | object fields => fieldNames fields
  | union items => allNames items

/-- The names that types are made of. -/
def allNames : List TypeExpr → List String
  | [] => []
  | item :: items => item.names ++ allNames items

/-- The names that the types of fields are made of. -/
def fieldNames : List (String × Bool × TypeExpr) → List String
  | [] => []
  | (_, _, type) :: fields => type.names ++ fieldNames fields

end

mutual

/-- The keys of objects in a type. -/
def keys : TypeExpr → List String
  | name _ => []
  | array element => element.keys
  | index key value => key.keys ++ value.keys
  | object fields => fieldKeys fields
  | union items => allKeys items

/-- The keys of objects in types. -/
def allKeys : List TypeExpr → List String
  | [] => []
  | item :: items => item.keys ++ allKeys items

/-- The keys of fields and of objects in their types. -/
def fieldKeys : List (String × Bool × TypeExpr) → List String
  | [] => []
  | (key, _, type) :: fields => key :: (type.keys ++ fieldKeys fields)

end

mutual

/-- The text of a type has the names that the type is made of, if its keys are names. -/
theorem identifiers_text : (t : TypeExpr) → (∀ k ∈ t.keys, ∀ c ∈ k.toList, isNameChar c) →
    identifiers t.text = t.names.flatMap identifiers
  | name n, _ => by simp [text, names]
  | array element, hk => by
    rw [keys] at hk
    rw [text, names, identifiers_array, identifiers_text element hk]
    rfl
  | index key value, hk => by
    rw [keys, List.forall_mem_append] at hk
    rw [text, names, identifiers_index, identifiers_text key hk.1, identifiers_text value hk.2, List.flatMap_append]
  | object [], _ => rfl
  | object (field :: fields), hk => by
    rw [keys] at hk
    rw [text, names, identifiers_braces, identifiers_fieldTexts (field :: fields) hk]
  | union items, hk => by
    rw [keys] at hk
    rw [text, names, identifiers_texts items hk]

theorem identifiers_texts : (ts : List TypeExpr) → (∀ k ∈ allKeys ts, ∀ c ∈ k.toList, isNameChar c) →
    identifiers (Text.join " | " (texts ts)) = (allNames ts).flatMap identifiers
  | [], _ => rfl
  | t :: ts, hk => by
    rw [allKeys, List.forall_mem_append] at hk
    rw [texts, allNames, identifiers_join_cons " | " (fun _ => ⟨rfl, by decide, by decide⟩) (fun _ => rfl),
      identifiers_text t hk.1, identifiers_texts ts hk.2, List.flatMap_append]

theorem identifiers_fieldTexts : (fields : List (String × Bool × TypeExpr)) →
    (∀ k ∈ fieldKeys fields, ∀ c ∈ k.toList, isNameChar c) →
    identifiers (Text.join ", " (fieldTexts fields)) = (fieldNames fields).flatMap identifiers
  | [], _ => rfl
  | (key, optional, type) :: fields, hk => by
    rw [fieldKeys, List.forall_mem_cons, List.forall_mem_append] at hk
    rw [fieldTexts, fieldNames, identifiers_join_cons ", " (fun _ => ⟨rfl, by decide, by decide⟩) (fun _ => rfl),
      identifiers_field hk.1, identifiers_text type hk.2.1, identifiers_fieldTexts fields hk.2.2, List.flatMap_append]

end

end TypeExpr

end EntityScript
