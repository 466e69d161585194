import EntityScript.Proofs.Building
import EntityScript.Proofs.Constants
import EntityScript.Proofs.Layout
import EntityScript.Proofs.Sources
/-!
# Values of enum cases

A case that stands for a text is written as the literal of that text. Quotes and backslashes are escaped in it and
line ends are not, so the text comes back from its literal if and only if it has no line end.
-/

namespace EntityScript

open Text

/-- Line ends; a literal may not hold one as it is. -/
def Text.isLineEnd (c : Char) : Bool :=
  c == '\n' || c == '\r'

/-! ## Quoted texts -/

namespace Literal

variable (style : QuoteStyle)

/-- A quoted character comes back, and a line end breaks the literal. -/
theorem readText_quoted (c : Char) (cs : List Char) : readText style.char (style.escapeChar c ++ cs) =
    if isLineEnd c then none else (readText style.char cs).map (push c) := by
  unfold QuoteStyle.escapeChar
  split
  · rename_i hspecial
    have hescape : isLineEnd c = false ∧ c ≠ 'u' ∧ c ≠ 'x' ∧ unescape? c = some c := by
      rcases hspecial with rfl | rfl
      · cases style <;> decide
      · decide
    obtain ⟨hend, hu, hx, hc⟩ := hescape
    rw [hend]
    exact readText_escape hu hx hc cs
  · rename_i hplain
    rw [not_or] at hplain
    obtain ⟨hquote, hback⟩ := hplain
    by_cases hend : c = '\n' ∨ c = '\r'
    · have hbreaks : readText style.char (c :: cs) = none := by
        rw [readText.eq_def]
        rcases hend with rfl | rfl <;> cases style <;> rfl
      rw [List.cons_append, List.nil_append, hbreaks, if_pos (by simpa [isLineEnd] using hend)]
    · rw [if_neg (by simpa [isLineEnd] using hend)]
      rw [not_or] at hend
      exact readText_plain hback hquote hend.1 hend.2 cs

theorem readText_quote (text rest : List Char) :
    readText style.char (text.flatMap style.escapeChar ++ style.char :: rest) =
      if text.any isLineEnd then none else some (text, rest) := by
  induction text with
  | nil => cases style <;> rfl
  | cons c text ih =>
    rw [List.flatMap_cons, List.append_assoc, readText_quoted, ih, List.any_cons]
    cases isLineEnd c <;> cases text.any isLineEnd <;> rfl

/-- The literal of a text reads as that text, and as nothing if the text has a line end. -/
theorem read?_quote (s : String) :
    read? (style.quote s) = if s.toList.any isLineEnd then none else some (.string ⟨style, s⟩) := by
  have hstyle : styleOf? style.char = some style := by cases style <;> rfl
  have hstring : readString (style.quote s).toList =
      if s.toList.any isLineEnd then none else some (⟨style, s⟩, []) := by
    rw [QuoteStyle.quote, String.toList_ofList, readString, hstyle]
    simp only [Option.bind_eq_bind, Option.bind_some, readText_quote]
    split
    · rfl
    · rw [Option.bind_some, String.ofList_toList]
  have hscalar : readScalar (style.quote s).toList =
      if s.toList.any isLineEnd then none else some (.string ⟨style, s⟩, []) := by
    have hnumber : readNumber (style.quote s).toList = none := by
      rw [QuoteStyle.quote, String.toList_ofList]
      cases style <;> rfl
    have hword := no_word (c := style.char) (by cases style <;> decide)
      (s.toList.flatMap style.escapeChar ++ [style.char])
    rw [readScalar, hstring, hnumber, QuoteStyle.quote, String.toList_ofList, hword]
    cases s.toList.any isLineEnd <;> rfl
  have hvalue : readValue (2 * (style.quote s).toList.length + 1) (style.quote s).toList =
      readScalar (style.quote s).toList := by
    rw [readValue, QuoteStyle.quote, String.toList_ofList]
    cases style <;> rfl
  rw [read?, hvalue, hscalar]
  cases s.toList.any isLineEnd <;> rfl

end Literal

/-! ## The members of an enum -/

theorem Member.insert_perm {m : Member} {ns : List Member} (h : ∀ n ∈ ns, n.name ≠ m.name) :
    (m.insert ns).Perm (m :: ns) := by
  induction ns with
  | nil => exact .refl _
  | cons n ns ih =>
    obtain ⟨hn, hns⟩ := List.forall_mem_cons.1 h
    simp only [insert, if_neg (Ne.symm hn)]
    split
    · exact .refl _
    · exact ((ih hns).cons n).trans (.swap m n ns)

/-- Members of new names come in without loss. -/
theorem Entity.insertMembers_perm {e : Entity} {ms : List Member} (h : (ms.map (·.name)).Nodup)
    (hnew : ∀ m ∈ ms, ∀ n ∈ e.members, n.name ≠ m.name) : (e.insertMembers ms).members.Perm (e.members ++ ms) := by
  induction ms generalizing e with
  | nil => simp [insertMembers]
  | cons m ms ih =>
    rw [List.map_cons, List.nodup_cons] at h
    obtain ⟨hm, hms⟩ := List.forall_mem_cons.1 hnew
    have hfirst : (e.insertMember m).members.Perm (m :: e.members) := Member.insert_perm hm
    have hrest : ∀ m' ∈ ms, ∀ n ∈ (e.insertMember m).members, n.name ≠ m'.name := by
      intro m' hm' n hn
      rcases List.mem_cons.1 (hfirst.mem_iff.1 hn) with rfl | hn
      · intro heq
        exact h.1 (List.mem_map.2 ⟨m', hm', heq.symm⟩)
      · exact hms m' hm' n hn
    refine (ih h.2 hrest).trans ((hfirst.append_right ms).trans ?_)
    exact List.perm_middle.symm

namespace EnumSource

/-- The cases of a checked enum have names of their own. -/
theorem nodup_of_checkCases {src : String} {seen : List String} {cases : List CaseSource}
    (h : checkCases src seen cases = .ok ()) :
    (cases.map (·.name)).Nodup ∧ ∀ c ∈ cases, c.name ∉ seen := by
  induction cases generalizing seen with
  | nil => simp
  | cons c cases ih =>
    simp only [checkCases, bind_eq_ok] at h
    obtain ⟨_, -, h⟩ := h
    split at h
    · cases h
    rename_i hc
    rw [List.contains_iff_mem] at hc
    obtain ⟨hnodup, hothers⟩ := ih h
    refine ⟨?_, List.forall_mem_cons.2 ⟨hc, fun c' hc' hmem => hothers c' hc' (List.mem_cons_of_mem _ hmem)⟩⟩
    rw [List.map_cons, List.nodup_cons]
    refine ⟨fun hmem => ?_, hnodup⟩
    obtain ⟨c', hc', heq⟩ := List.mem_map.1 hmem
    exact hothers c' hc' (heq ▸ List.mem_cons_self)

theorem nodup_of_parse {file src : String} {s : EnumSource}
    (h : EntitySource.parse file src = .ok (.enumeration s)) : (s.cases.map (·.name)).Nodup := by
  have hc := Project.check_of_parse h
  simp only [EntitySource.check, check, bind_eq_ok] at hc
  obtain ⟨_, -, _, hcases, -⟩ := hc
  exact (nodup_of_checkCases hcases).1

/-- The constant of a case. -/
def caseMember (quotes : QuoteStyle) (c : CaseSource) : Member :=
  .constant c.name (caseText quotes c)

/-- A checked enum has the constants of its cases for members. -/
theorem members_of_build {file src : String} {s : EnumSource} (h : EntitySource.parse file src = .ok (.enumeration s))
    {o : Options} {e : Entity} (he : (s.build o).outcome = .ok e) :
    e.members.Perm (s.cases.map (caseMember o.stringQuotes)) := by
  obtain ⟨services, -, rfl⟩ := build_eq_ok.1 he
  have hnames : ((s.cases.map (caseMember o.stringQuotes)).map (·.name)).Nodup := by
    rw [List.map_map]
    exact nodup_of_parse h
  rw [entity, Entity.withServices_members]
  exact Entity.insertMembers_perm hnames (by simp [Entity.bare])

end EnumSource

/-- The members of a checked enum are the constants of its cases, in order of their names. -/
theorem EnumSource.exists_cases_of_build {file src : String} {s : EnumSource}
    (h : EntitySource.parse file src = .ok (.enumeration s)) {o : Options} {e : Entity}
    (he : (s.build o).outcome = .ok e) : ∃ cases : List CaseSource, cases.Perm s.cases ∧
      cases.Pairwise (·.name < ·.name) ∧ e.members = cases.map (caseMember o.stringQuotes) := by
  obtain ⟨cases, hmembers, hperm⟩ :
      Relation.Comp (· = List.map (caseMember o.stringQuotes) ·) List.Perm e.members s.cases := by
    rw [List.eq_map_comp_perm]
    exact members_of_build h he
  have hsorted := e.sorted
  rw [hmembers, List.pairwise_map] at hsorted
  exact ⟨cases, hperm, hsorted, hmembers⟩

/-- Every case is written. -/
theorem EnumSource.written_caseMembers (quotes : QuoteStyle) (cases : List CaseSource) :
    (cases.map (caseMember quotes)).filter (!·.verbatim) = cases.map (caseMember quotes) := by
  rw [List.filter_eq_self]
  simp [caseMember, Member.constant]

/-! ## The file of an enum -/

/-- The lines of the cases of an enum, given their names and values. -/
def Entity.caseLines (unit : String) (values : List (String × String)) : String :=
  join "" (values.map fun (name, value) => unit ++ name ++ " = " ++ value ++ ",\n")

theorem Fragment.texts_lines (unit : String) (ss : List String) :
    texts unit 1 (ss.map .line) = join "" (ss.map fun s => unit ++ s ++ "\n") := by
  induction ss with
  | nil => rfl
  | cons s ss ih =>
    rw [List.map_cons, texts, ih, List.map_cons, join_empty_cons]
    simp [text, lineText, copies]

/-- An enum file starts with its cases. -/
theorem Entity.render_enumeration {e : Entity} (he : e.isEnumeration = true) (ctx : Context) :
    ∃ rest, e.render ctx = "export enum " ++ e.name ++ " \x7b\n" ++
      caseLines ctx.options.indent.unit ((e.members.filter (!·.verbatim)).map fun m => (m.name, m.initial.getD "")) ++
      "\x7d\n" ++ rest := by
  obtain ⟨more, hmore⟩ : ∃ more, e.enumFragments ctx = .block ("export enum " ++ e.name ++ " \x7b")
      (((e.members.filter (!·.verbatim)).map fun m => m.name ++ " = " ++ m.initial.getD "" ++ ",").map .line)
      (some "\x7d") :: more := by
    rw [enumFragments, List.map_map]
    exact ⟨_, rfl⟩
  refine ⟨Fragment.texts ctx.options.indent.unit 0 more, ?_⟩
  rw [render_eq, fragments, if_pos he, hmore, Fragment.texts, Fragment.text, Fragment.texts_lines]
  simp [Fragment.lineText, copies, caseLines, Function.comp_def, String.append_assoc]

namespace EnumSource

/-- The text that the value of a case stands for; a number stands for none. -/
def valueText? (c : CaseSource) : Option String :=
  match c.value with
  | some (.integer _) => none
  | some (.string s) => some s
  | none => some c.name

theorem caseText_of_valueText? {quotes : QuoteStyle} {c : CaseSource} {s : String} (h : valueText? c = some s) :
    caseText quotes c = quotes.quote s := by
  unfold valueText? at h
  unfold caseText
  split at h <;> simp_all

/-- The file of a checked enum lists each case once, in order of their names, with its value. The value of a case
that stands for a text is the literal of that text, unless the text has a line end: then it is no literal. -/
theorem values_read {file src : String} {s : EnumSource} (h : EntitySource.parse file src = .ok (.enumeration s))
    {o : Options} {e : Entity} (he : (s.build o).outcome = .ok e) (ctx : Context) :
    ∃ cases : List CaseSource, cases.Perm s.cases ∧ cases.Pairwise (·.name < ·.name) ∧
      (∃ rest, e.render ctx = "export enum " ++ s.name ++ " \x7b\n" ++
        Entity.caseLines ctx.options.indent.unit (cases.map fun c => (c.name, caseText o.stringQuotes c)) ++
        "\x7d\n" ++ rest) ∧
      ∀ c ∈ s.cases, ∀ text, valueText? c = some text → Literal.read? (caseText o.stringQuotes c) =
        if text.toList.any isLineEnd then none else some (.string ⟨o.stringQuotes, text⟩) := by
  obtain ⟨cases, hperm, hsorted, hmembers⟩ := exists_cases_of_build h he
  refine ⟨cases, hperm, hsorted, ?_, fun c _ text htext => ?_⟩
  · obtain ⟨rest, hrender⟩ := Entity.render_enumeration (build_isEnumeration he) ctx
    rw [hmembers, written_caseMembers, List.map_map, build_name he] at hrender
    exact ⟨rest, hrender⟩
  · rw [caseText_of_valueText? htext, Literal.read?_quote]

/-- The name and the cases of a described enum, and the file of its entity. -/
def described (src : String) : Option (String × List CaseSource × String) :=
  match EntitySource.parse "s.toml" src with
  | .ok (.enumeration s) => (s.build {}).outcome.toOption.map fun e => (s.name, s.cases, e.render (.regular {}))
  | _ => none

theorem described_eq_some {src name text : String} {cases : List CaseSource}
    (h : described src = some (name, cases, text)) : ∃ s e, EntitySource.parse "s.toml" src = .ok (.enumeration s) ∧
      (s.build {}).outcome = .ok e ∧ s.name = name ∧ s.cases = cases ∧ e.render (.regular {}) = text := by
  unfold described at h
  split at h
  · rename_i s hs
    simp only [Option.map_eq_some_iff, toOption_eq_some, Prod.mk.injEq] at h
    obtain ⟨e, he, hname, hcases, htext⟩ := h
    exact ⟨s, e, hs, he, hname, hcases, htext⟩
  · cases h

/-- The description of an enum with one case. -/
def oneCase (value : String) : String :=
  "kind=\"enum\"\nname=\"S\"\n[[cases]]\nname=\"C\"\nvalue=" ++ value ++ "\n"

/-- The file of an enum with one case. -/
def oneCaseFile (literal : String) : String :=
  "export enum S \x7b\n    C = " ++ literal ++ ",\n\x7d\n\n// <non-auto-generated-code>\n\n" ++
    "// </non-auto-generated-code>\n"

/-- Quotes of both kinds and a backslash come back. -/
theorem values_read_quotes : ∃ s e,
    EntitySource.parse "s.toml" (oneCase "\"it's \\\"\\\\\"") = .ok (.enumeration s) ∧
    (s.build {}).outcome = .ok e ∧ s.cases = [⟨"C", some (.string "it's \"\\")⟩] ∧
    (∃ rest, e.render (.regular {}) = "export enum S \x7b\n    C = 'it\\'s \"\\\\',\n\x7d\n" ++ rest) ∧
    Literal.read? "'it\\'s \"\\\\'" = some (.string ⟨.single, "it's \"\\"⟩) := by
  have hfile : described (oneCase "\"it's \\\"\\\\\"") =
      some ("S", [⟨"C", some (.string "it's \"\\")⟩], oneCaseFile "'it\\'s \"\\\\'") := by
    decide +kernel
  obtain ⟨s, e, hs, he, hname, hcases, -⟩ := described_eq_some hfile
  obtain ⟨cases, hperm, -, ⟨rest, hrender⟩, hread⟩ := values_read hs he (.regular {})
  rw [hcases] at hperm hread
  rw [hname, List.perm_singleton.1 hperm] at hrender
  exact ⟨s, e, hs, he, hcases, ⟨rest, hrender⟩, hread _ List.mem_cons_self _ rfl⟩

/-- A text of two lines is written on two lines, and that is no literal. -/
theorem two_lines_unread : ∃ s e c, EntitySource.parse "s.toml" (oneCase "\"a\\nb\"") = .ok (.enumeration s) ∧
    (s.build {}).outcome = .ok e ∧ c ∈ s.cases ∧ valueText? c = some "a\nb" ∧ caseText .single c = "'a\nb'" ∧
    e.render (.regular {}) = oneCaseFile "'a\nb'" ∧ Literal.read? "'a\nb'" = none := by
  have hfile : described (oneCase "\"a\\nb\"") =
      some ("S", [⟨"C", some (.string "a\nb")⟩], oneCaseFile "'a\nb'") := by
    decide +kernel
  obtain ⟨s, e, hs, he, -, hcases, htext⟩ := described_eq_some hfile
  exact ⟨s, e, _, hs, he, hcases ▸ List.mem_cons_self, rfl, rfl, htext, Literal.read?_quote .single "a\nb"⟩

end EnumSource

end EntityScript
