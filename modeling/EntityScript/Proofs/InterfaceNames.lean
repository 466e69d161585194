import EntityScript.Proofs.FileNames
import EntityScript.Proofs.Layout
/-!
# Names of pivot interfaces

An interface is named after its table in Pascal case, which drops underscores and hyphens and keeps all other
characters. So its name is an identifier just if the words of the table have nothing else in them.
-/

namespace EntityScript

/-! ## Capitals -/

namespace Text

theorem isWordChar_of_ge {c : Char} (h : 128 ≤ c.toNat) : isWordChar c = false :=
  Bool.eq_false_iff.2 fun hword => absurd (toNat_lt_of_isWordChar hword) (by omega)

theorem isWordChar_ofNat {n : Nat} (h : 128 ≤ n) : isWordChar (Char.ofNat n) = false := by
  rcases ofNat_cases n with hn | hn
  · exact isWordChar_of_ge (by rwa [hn])
  · rw [hn]
    decide

theorem isWordChar_of_isDigit {c : Char} (h : c.isDigit = true) : isWordChar c = true := by
  simp [isWordChar, Char.isAlphanum, h]

/-- What may start a word is what may stand in it, other than a digit. -/
theorem isAlpha_or_underscore (c : Char) : (c.isAlpha || c == '_') = (isWordChar c && !c.isDigit) := by
  cases hdigit : c.isDigit with
  | false => simp [isWordChar, Char.isAlphanum, hdigit]
  | true =>
    have hlt := toNat_lt_of_isWordChar (isWordChar_of_isDigit hdigit)
    have hno := forall_ascii (P := fun c => c.isDigit = true → (c.isAlpha || c == '_') = false) (by decide +kernel) hlt
    rw [hno hdigit, Bool.not_true, Bool.and_false]

/-- The characters beyond ASCII that have letters of ASCII as their capitals. -/
def plainCapitals : List Char :=
  ['ß', 'ı', 'ſ', 'ﬀ', 'ﬁ', 'ﬂ', 'ﬃ', 'ﬄ', 'ﬅ', 'ﬆ']

/-- The upper case of a character is a word just if the character is one or has plain capitals. -/
theorem isWordChar_upper {c : Char} :
    (∀ d ∈ upper c, isWordChar d = true) ↔ isWordChar c = true ∨ c ∈ plainCapitals := by
  have hplain : ∀ d ∈ plainCapitals, 128 ≤ d.toNat ∧ ∀ e ∈ upper d, isWordChar e = true := by
    have hall : (plainCapitals.all fun d => 128 ≤ d.toNat && (upper d).all isWordChar) = true := by decide +kernel
    simpa only [List.all_eq_true, Bool.and_eq_true, decide_eq_true_eq] using hall
  have hexpansions : ∀ p ∈ upperExpansions, (∀ n ∈ p.2, isWordChar (Char.ofNat n) = true) →
      Char.ofNat p.1 ∈ plainCapitals := by decide +kernel
  have hruns : ∀ r ∈ upperRuns, 128 ≤ r.target ∨
      r.source.first = r.source.last ∧ Char.ofNat r.source.first ∈ plainCapitals := by decide +kernel
  by_cases hlt : c.toNat < 128
  · have hnot : c ∉ plainCapitals := fun hc => absurd (hplain c hc).1 (by omega)
    have hupper : isWordChar c.toUpper = isWordChar c :=
      forall_ascii (P := fun c => isWordChar c.toUpper = isWordChar c) (by decide +kernel) hlt
    simp [upper_of_ascii hlt, hupper, hnot]
  · rw [isWordChar_of_ge (by omega)]
    refine ⟨fun hall => .inr ?_, fun hc => (hplain c (hc.resolve_left (by simp))).2⟩
    have hmap : upper c = mapCase upperExpansions upperRuns c := if_neg hlt
    rcases mapCase_cases upperExpansions upperRuns c with ⟨codes, hcodes, heq⟩ | ⟨r, hr, hcontains, heq⟩ | heq
    · rw [← Char.ofNat_toNat c]
      refine hexpansions _ hcodes fun n hn => hall _ ?_
      rw [hmap, heq]
      exact List.mem_map_of_mem hn
    · have hword := hall _ (by rw [hmap, heq]; exact List.mem_singleton_self _)
      rcases hruns r hr with hge | ⟨hone, hfirst⟩
      · rw [isWordChar_ofNat (by omega)] at hword
        cases hword
      · simp only [CodeRun.contains, Bool.and_eq_true, decide_eq_true_eq] at hcontains
        have hc : c.toNat = r.source.first := by omega
        rwa [← hc, Char.ofNat_toNat] at hfirst
    · have hword := hall c (by rw [hmap, heq]; exact List.mem_singleton_self _)
      rw [isWordChar_of_ge (by omega)] at hword
      cases hword

/-- The upper case of a character starts with a digit only if the character is one. -/
theorem isDigit_head?_upper (c : Char) : (upper c).head?.map (·.isDigit) = some c.isDigit := by
  have hexpansions : ∀ p ∈ upperExpansions, (p.2.map Char.ofNat).head?.map (·.isDigit) = some false := by
    decide +kernel
  have hruns : ∀ r ∈ upperRuns, 128 ≤ r.target ∨
      r.source.first = r.source.last ∧ (Char.ofNat r.target).isDigit = false := by decide +kernel
  have hbeyond : ∀ d : Char, isWordChar d = false → d.isDigit = false := fun d hd =>
    Bool.eq_false_iff.2 fun hdigit => by simp [isWordChar_of_isDigit hdigit] at hd
  by_cases hlt : c.toNat < 128
  · have hupper : c.toUpper.isDigit = c.isDigit :=
      forall_ascii (P := fun c => c.toUpper.isDigit = c.isDigit) (by decide +kernel) hlt
    rw [upper_of_ascii hlt, List.head?_cons, Option.map_some, hupper]
  · rw [upper, if_neg hlt, hbeyond c (isWordChar_of_ge (by omega))]
    rcases mapCase_cases upperExpansions upperRuns c with ⟨codes, hcodes, heq⟩ | ⟨r, hr, hcontains, heq⟩ | heq
    · rw [heq]
      exact hexpansions _ hcodes
    · rw [heq, List.head?_cons, Option.map_some]
      rcases hruns r hr with hge | ⟨hone, htarget⟩
      · rw [hbeyond _ (isWordChar_ofNat (by omega))]
      · simp only [CodeRun.contains, Bool.and_eq_true, decide_eq_true_eq] at hcontains
        have hsame : c.toNat - r.source.first + r.target = r.target := by omega
        rw [hsame, htarget]
    · rw [heq, List.head?_cons, Option.map_some, hbeyond c (isWordChar_of_ge (by omega))]

end Text

/-! ## Names in Pascal case -/

namespace Name

open Text

/-- The pieces of a name between underscores and hyphens. -/
def words (name : String) : List (List Char) :=
  splitWhere isSeparator name.toList

/-- Whether the words of a name make an identifier in Pascal case, or nothing. -/
structure Spells (name : String) : Prop where
  initial : ∀ word ∈ words name, ∀ c ∈ word.head?, isWordChar c = true ∨ c ∈ plainCapitals
  rest : ∀ word ∈ words name, ∀ c ∈ word.tail, isWordChar c = true
  start : ∀ c ∈ (name.toList.dropWhile isSeparator).head?, c.isDigit = false

instance (name : String) : Decidable (Spells name) :=
  decidable_of_iff ((∀ word ∈ words name, word.head?.all (fun c => isWordChar c || plainCapitals.contains c) = true) ∧
      (∀ word ∈ words name, word.tail.all isWordChar = true) ∧
      (name.toList.dropWhile isSeparator).head?.all (!·.isDigit) = true) <| by
    simp only [Option.all_eq_true, List.all_eq_true, Bool.or_eq_true, List.contains_iff_mem, Bool.not_eq_true']
    exact ⟨fun ⟨hinitial, hrest, hstart⟩ => ⟨hinitial, hrest, hstart⟩, fun h => ⟨h.initial, h.rest, h.start⟩⟩

theorem isWordChar_capitalize {word : List Char} : (∀ d ∈ capitalize word, isWordChar d = true) ↔
    (∀ c ∈ word.head?, isWordChar c = true ∨ c ∈ plainCapitals) ∧ ∀ c ∈ word.tail, isWordChar c = true := by
  cases word with
  | nil => simp [capitalize]
  | cons c cs =>
    rw [capitalize, List.forall_mem_append, isWordChar_upper]
    simp

theorem isWordChar_pascal {name : String} : (∀ d ∈ (pascal name).toList, isWordChar d = true) ↔
    ∀ word ∈ words name, (∀ c ∈ word.head?, isWordChar c = true ∨ c ∈ plainCapitals) ∧
      ∀ c ∈ word.tail, isWordChar c = true := by
  simp only [← isWordChar_capitalize, pascal, pascalChars, words, String.toList_ofList, List.mem_flatMap]
  constructor
  · intro h word hword d hd
    exact h d ⟨word, hword, hd⟩
  · rintro h d ⟨word, hword, hd⟩
    exact h word hword d hd

/-- A name in Pascal case starts with a digit just if the first character that is no separator is one. -/
theorem isDigit_head?_pascalChars (cs : List Char) :
    (pascalChars cs).head?.map (·.isDigit) = (cs.dropWhile isSeparator).head?.map (·.isDigit) := by
  induction cs with
  | nil => rfl
  | cons c cs ih =>
    by_cases hc : isSeparator c = true
    · have hskip : pascalChars (c :: cs) = pascalChars cs := by simp [pascalChars, splitWhere, hc, capitalize]
      rw [hskip, List.dropWhile_cons_of_pos hc, ih]
    · obtain ⟨word, words, hword⟩ := List.exists_cons_of_ne_nil (splitWhere_ne_nil isSeparator cs)
      have hfirst : pascalChars (c :: cs) = upper c ++ (word ++ words.flatMap capitalize) := by
        simp [pascalChars, splitWhere, hc, hword, capitalize]
      obtain ⟨d, hd, hdigit⟩ := Option.map_eq_some_iff.1 (isDigit_head?_upper c)
      rw [hfirst, List.dropWhile_cons_of_neg hc, List.head?_append, hd]
      exact congrArg some hdigit

end Name

/-! ## Identifiers -/

theorem Identifier.fault?_eq_none {name : String} : fault? name = none ↔
    (∃ c ∈ name.toList.head?, c.isDigit = false) ∧ (∀ c ∈ name.toList, Text.isWordChar c = true) ∧
      name ∉ reservedWords := by
  unfold fault?
  cases name.toList with
  | nil => simp
  | cons c cs =>
    rw [← List.all_eq_true, ← List.contains_iff_mem]
    simp only [Text.isAlpha_or_underscore, List.head?_cons, Option.mem_some_iff, exists_eq_left', List.all_cons]
    cases Text.isWordChar c <;> cases c.isDigit <;> cases cs.all Text.isWordChar <;>
      cases reservedWords.contains name <;> simp

/-- What a pivot interface is called is an identifier just if its table spells one: no interface has a reserved
name. -/
theorem Identifier.fault?_pivotName {table : String} :
    fault? (Project.pivotName table) = none ↔ Name.Spells table := by
  have hchars : (Project.pivotName table).toList = (Name.pascal table).toList ++ "Pivot".toList :=
    String.toList_append
  have hreserved : Project.pivotName table ∉ reservedWords := by
    intro hmem
    have hsuffix : ∀ word ∈ reservedWords, ¬ "Pivot".toList <:+ word.toList := by decide +kernel
    exact hsuffix _ hmem ⟨_, hchars.symm⟩
  have hpivot : "Pivot".toList.all Text.isWordChar = true := by decide
  have hhead : (∃ c ∈ (Project.pivotName table).toList.head?, c.isDigit = false) ↔
      ∀ c ∈ (table.toList.dropWhile Name.isSeparator).head?, c.isDigit = false := by
    have hpascal := Name.isDigit_head?_pascalChars table.toList
    rw [hchars, Name.pascal, String.toList_ofList]
    cases h : (table.toList.dropWhile Name.isSeparator).head? with
    | none =>
      rw [h, Option.map_none, Option.map_eq_none_iff, List.head?_eq_none_iff] at hpascal
      simp [hpascal]
    | some c =>
      rw [h, Option.map_some] at hpascal
      obtain ⟨d, hd, hdigit⟩ := Option.map_eq_some_iff.1 hpascal
      simp [List.head?_append, hd, hdigit]
  rw [fault?_eq_none, hhead, hchars, List.forall_mem_append, Name.isWordChar_pascal]
  constructor
  · rintro ⟨hstart, ⟨hwords, -⟩, -⟩
    exact ⟨fun word hword => (hwords word hword).1, fun word hword => (hwords word hword).2, hstart⟩
  · intro h
    exact ⟨h.start, ⟨fun word hword => ⟨h.initial word hword, h.rest word hword⟩, List.all_eq_true.1 hpivot⟩, hreserved⟩

/-! ## Interfaces of a project -/

namespace Project

variable {p : Project} {d : Disk} {files : List OutputFile}

/-- The file of an interface starts with its declaration, under a line that names the table. -/
theorem content_pivotFile (p : Project) (i : PivotInterface) : ∃ rest, (p.pivotFile i).content =
    linesText p.config.options.indent.unit [(0, "// Auto-generated pivot interface for table: " ++ i.table),
      (0, "export default interface " ++ i.name ++ " \x7b")] ++ rest := by
  simp only [pivotFile, PivotInterface.render, PivotInterface.fragments, Writer.emitAll_eq, Writer.raw, Fragment.texts,
    Fragment.text, linesText_cons, linesText_nil, String.empty_append, String.append_empty, String.append_assoc]
  exact ⟨_, rfl⟩

/-- A file with an identifier as its name is a direct child of its directory. -/
theorem components_outputPath_of_fault? (dir : String) {name : String} (h : Identifier.fault? name = none) :
    Path.components (outputPath dir name) = Path.components dir ++ [.child (name ++ ".ts")] := by
  have hslash : '/' ∉ name.toList := fun hmem =>
    absurd ((Identifier.fault?_eq_none.1 h).2.1 _ hmem) (by decide)
  obtain ⟨hfolder, hfile⟩ := Path.folder_of_slashless hslash
  have hextension : "." ++ fileExtension = ".ts" := rfl
  rw [components_outputPath, hfolder, hfile, Path.components_join_empty, String.append_assoc, hextension]

/-- The interfaces of a project are those of its tables, each in a file that declares its name. That name is an
identifier just if the words of the table are of ASCII letters and digits and the first of them starts with no
digit; a character with such a capital may start a word. The file is then a direct child of the classes directory. -/
theorem interface_names_iff (h : (p.preview d).outcome = .ok files) :
    ∃ pivots, p.pivots = .ok pivots ∧ pivots.interfaces.map (·.table) = p.pivotTables ∧
      ∀ i ∈ pivots.interfaces, p.pivotFile i ∈ files ∧
        (∃ rest, (p.pivotFile i).content = linesText p.config.options.indent.unit
          [(0, "// Auto-generated pivot interface for table: " ++ i.table),
            (0, "export default interface " ++ i.name ++ " \x7b")] ++ rest) ∧
        (Identifier.fault? i.name = none ↔ Name.Spells i.table) ∧
        (Name.Spells i.table → Path.components (p.pivotFile i).path =
          Path.components p.classesDir ++ [.child (i.name ++ ".ts")]) := by
  obtain ⟨os, ho, hw⟩ := preview_eq_ok.1 h
  simp only [outputs, bind_eq_ok] at ho
  obtain ⟨pivots, hp, oss, -, ho⟩ := ho
  cases ho
  have htables : pivots.interfaces.map (·.table) = p.pivotTables := by
    rw [← (pivots_eq_ok.1 hp).2]
    simp [registryAfter, pivotTables, Function.comp_def, interfaceAfter]
  refine ⟨pivots, hp, htables, fun i hi => ⟨?_, content_pivotFile p i, Identifier.fault?_pivotName, fun hspells => ?_⟩⟩
  · have hout : Output.pivot i ∈ oss.flatten ++ pivots.interfaces.map .pivot :=
      List.mem_append_right _ (List.mem_map_of_mem hi)
    obtain ⟨f, hf, hwrite⟩ := exists_mem_mapM hw hout
    have hfile : p.pivotFile i = f := Except.ok.inj hwrite
    rwa [hfile]
  · have hname : Identifier.fault? i.name = none := Identifier.fault?_pivotName.2 hspells
    rw [pivotFile, components_outputPath_of_fault? p.classesDir hname]

/-- The first interface of a project that opens and renders, with what its name is made of. -/
def firstInterface (d : Disk) (config : String) : Option (String × List Path.Step × List Path.Step) := do
  let p ← (openAt d config).toOption
  let _ ← (p.preview d).outcome.toOption
  let pivots ← p.pivots.toOption
  let i ← pivots.interfaces.head?
  return (i.table, Path.components p.classesDir, Path.components (p.pivotFile i).path)

theorem firstInterface_eq_some {config table : String} {dir path : List Path.Step}
    (h : firstInterface d config = some (table, dir, path)) :
    ∃ p files pivots i, openAt d config = .ok p ∧ (p.preview d).outcome = .ok files ∧ p.pivots = .ok pivots ∧
      i ∈ pivots.interfaces ∧ i.table = table ∧ Path.components p.classesDir = dir ∧
      Path.components (p.pivotFile i).path = path := by
  simp only [firstInterface, Option.bind_eq_bind, Option.bind_eq_some_iff, Option.pure_def, Option.some.injEq,
    Prod.mk.injEq, toOption_eq_some] at h
  obtain ⟨p, hp, files, hf, pivots, hr, i, hi, rfl, rfl, rfl⟩ := h
  exact ⟨p, files, pivots, i, hp, hf, hr, List.mem_of_head? hi, rfl, rfl, rfl⟩

/-- A team that has users through a table. -/
def usersThrough (table : String) : Disk :=
  { entries := [
      (["t"], .text "[output]\nclasses=\"o\"\nenums=\"o\"\n[sources]\nentities=[\"a\"]\nschema=\"s\"\n"),
      (["s"], .text ("tables.\"" ++ table ++ "\".columns=[]\n")),
      (["a"], .text ("name=\"Team\"\n[[relations]]\nname=\"users\"\nkind=\"belongs_to_many\"\n" ++
        "target=\"User\"\npivot.table=\"" ++ table ++ "\"\n"))] }

theorem teamUser_spelled : ∃ p files pivots i, openAt (usersThrough "team_user") "t" = .ok p ∧
    (p.preview (usersThrough "team_user")).outcome = .ok files ∧ p.pivots = .ok pivots ∧ i ∈ pivots.interfaces ∧
    i.table = "team_user" ∧ Identifier.fault? i.name = none ∧
    Path.components (p.pivotFile i).path = Path.components p.classesDir ++ [.child (i.name ++ ".ts")] := by
  have hfirst : firstInterface (usersThrough "team_user") "t" =
      some ("team_user", [.child "o"], [.child "o", .child "TeamUserPivot.ts"]) := by decide +kernel
  obtain ⟨p, files, pivots, i, hp, hf, hr, hi, htable, -, -⟩ := firstInterface_eq_some hfirst
  obtain ⟨pivots', hr', -, hall⟩ := interface_names_iff hf
  obtain rfl := Except.ok.inj (hr.symm.trans hr')
  obtain ⟨-, -, hiff, hchild⟩ := hall i hi
  have hspells : Name.Spells i.table := by
    rw [htable]
    decide
  exact ⟨p, files, pivots, i, hp, hf, hr, hi, htable, hiff.2 hspells, hchild hspells⟩

/-- The dot of a schema stays in the name, and the slash of a table leads to another directory. -/
theorem qualified_tables_unspelled :
    (∃ p files pivots i, openAt (usersThrough "app.team_user") "t" = .ok p ∧
      (p.preview (usersThrough "app.team_user")).outcome = .ok files ∧ p.pivots = .ok pivots ∧
      i ∈ pivots.interfaces ∧ i.name = "App.teamUserPivot" ∧ Identifier.fault? i.name = some .badCharacter) ∧
    ∃ p files pivots i, openAt (usersThrough "x/y") "t" = .ok p ∧
      (p.preview (usersThrough "x/y")).outcome = .ok files ∧ p.pivots = .ok pivots ∧ i ∈ pivots.interfaces ∧
      Path.components p.classesDir = [.child "o"] ∧
      Path.components (p.pivotFile i).path = [.child "o", .child "X", .child "yPivot.ts"] := by
  constructor
  · have hfirst : firstInterface (usersThrough "app.team_user") "t" =
        some ("app.team_user", [.child "o"], [.child "o", .child "App.teamUserPivot.ts"]) := by decide +kernel
    obtain ⟨p, files, pivots, i, hp, hf, hr, hi, htable, -, -⟩ := firstInterface_eq_some hfirst
    have hname : i.name = "App.teamUserPivot" := by
      rw [PivotInterface.name, htable]
      decide
    exact ⟨p, files, pivots, i, hp, hf, hr, hi, hname, by rw [hname]; decide⟩
  · have hfirst : firstInterface (usersThrough "x/y") "t" =
        some ("x/y", [.child "o"], [.child "o", .child "X", .child "yPivot.ts"]) := by decide +kernel
    obtain ⟨p, files, pivots, i, hp, hf, hr, hi, -, hdir, hpath⟩ := firstInterface_eq_some hfirst
    exact ⟨p, files, pivots, i, hp, hf, hr, hi, hdir, hpath⟩

end Project

end EntityScript
