import EntityScript.Proofs.CaseValues
/-!
# Files of enums

A checked enum loses nothing on the way to its file. Its cases have names of their own, so each has a line; its
exports have names of their own, so each method has a property; and a method is exported only if all that it returns
are cases of the enum.
-/

namespace EntityScript

open Text

/-! ## Lines -/

/-- The lines of an exported function: its key, and each case that it returns. -/
def ServiceMethod.lines (enumName terminator : String) (m : ServiceMethod) : List (Nat × String) :=
  let returned :=
    if m.cases.isEmpty then [(2, "return []" ++ terminator)]
    else (2, "return [") :: m.cases.map (fun c => (3, enumName ++ "." ++ c ++ ",")) ++ [(2, "]" ++ terminator)]
  (1, m.exportName ++ ": () => \x7b") :: returned ++ [(1, "\x7d,")]

/-- The lines of the services of an enum; there is no object without a service. -/
def ServiceMethod.objectLines (enumName terminator : String) (services : List ServiceMethod) : List (Nat × String) :=
  if services.isEmpty then []
  else (0, "export const " ++ enumName ++ "Service = \x7b") :: services.flatMap (lines enumName terminator) ++
    [(0, "\x7d"), (0, "")]

/-- The lines of an enum, given the names and values of its cases. -/
def enumLines (name : String) (values : List (String × String)) : List (Nat × String) :=
  (0, "export enum " ++ name ++ " \x7b") :: values.map (fun (c, value) => (1, c ++ " = " ++ value ++ ",")) ++
    [(0, "\x7d"), (0, "")]

theorem ServiceMethod.text_property (unit enumName : String) (ctx : Context) (m : ServiceMethod) :
    (ExportedObject.property (m.exportName, .arrow "" (m.body enumName ctx))).text unit 1 =
      linesText unit (m.lines enumName ctx.terminator) := by
  have hbody : Fragment.texts unit 2 (m.body enumName ctx) = linesText unit
      (if m.cases.isEmpty then [(2, "return []" ++ ctx.terminator)]
      else (2, "return [") :: m.cases.map (fun c => (3, enumName ++ "." ++ c ++ ",")) ++
        [(2, "]" ++ ctx.terminator)]) := by
    unfold body
    cases m.cases with
    | nil => simp [Fragment.texts, Fragment.text]
    | cons c cases => simp [Fragment.texts, Fragment.text, Fragment.texts_map_line, String.append_assoc]
  simp [ExportedObject.property, Fragment.text, hbody, lines, String.append_assoc]

theorem ServiceMethod.texts_object (unit enumName : String) (ctx : Context) (services : List ServiceMethod) :
    Fragment.texts unit 0 (if services.isEmpty then [] else [(object enumName services ctx).fragment, .blank]) =
      linesText unit (objectLines enumName ctx.terminator services) := by
  have hproperties : Fragment.texts unit 1 (services.map fun m =>
      ExportedObject.property (m.exportName, .arrow "" (m.body enumName ctx))) =
      linesText unit (services.flatMap (lines enumName ctx.terminator)) := by
    induction services with
    | nil => rfl
    | cons m services ih =>
      rw [List.map_cons, Fragment.texts, ih, text_property, List.flatMap_cons, linesText_append]
  unfold objectLines
  split
  · rfl
  · simp [object, Fragment.texts, ExportedObject.fragment, Fragment.text, Function.comp_def, hproperties,
      Fragment.lineText, copies, String.append_assoc]

/-- An enum file is the lines of its cases and of its services, and then the region for hand-written code. -/
theorem Entity.render_enum {e : Entity} (he : e.isEnumeration = true) (ctx : Context) : e.render ctx =
    linesText ctx.options.indent.unit
      (enumLines e.name ((e.members.filter (!·.verbatim)).map fun m => (m.name, m.initial.getD "")) ++
        ServiceMethod.objectLines e.name ctx.terminator e.services) ++
      Region.code.opening ++ e.kept.slot ctx .code ++ Region.code.closing ++ "\n" := by
  have hregion := e.texts_region .code ctx 0
  rw [Region.closeIndent, copies, String.empty_append] at hregion
  rw [render_eq, fragments, if_pos he, enumFragments, Fragment.texts_append, Fragment.texts_append, hregion,
    ServiceMethod.texts_object, linesText_append]
  simp [Fragment.texts, Fragment.text, Fragment.texts_map_line, enumLines, Fragment.lineText, copies,
    Function.comp_def, String.append_assoc]

namespace EnumSource

variable {s : EnumSource}

/-! ## What is exported -/

theorem caseAt_eq_ok {m : MethodSource} {index : Nat} {item : ServiceValue} {case : String} :
    s.caseAt m index item = .ok case ↔ item = .case s.qualifiedName case ∧ s.hasCase case = true := by
  unfold caseAt
  split
  · rename_i owner c
    by_cases howner : owner = s.qualifiedName
    · by_cases hc : s.hasCase c = true
      · simp only [howner, hc, if_true, Except.ok.injEq, ServiceValue.case.injEq, true_and]
        exact ⟨fun h => h ▸ ⟨rfl, hc⟩, And.left⟩
      · simp only [howner, hc, if_true, Bool.false_eq_true, if_false, reduceCtorEq, ServiceValue.case.injEq, true_and,
          false_iff]
        rintro ⟨rfl, hcase⟩
        exact hc hcase
    · simp [howner]
  · rename_i hother
    simp only [reduceCtorEq, false_iff]
    rintro ⟨rfl, -⟩
    exact hother _ _ rfl

/-- A returned list gives its cases if it has nothing but cases of the enum. -/
theorem casesFrom_eq_ok {m : MethodSource} {index : Nat} {items : List ServiceValue} {cases : List String} :
    s.casesFrom m index items = .ok cases ↔
      items = cases.map (.case s.qualifiedName) ∧ ∀ c ∈ cases, s.hasCase c = true := by
  induction items generalizing index cases with
  | nil => cases cases <;> simp [casesFrom]
  | cons item items ih =>
    simp only [casesFrom, bind_eq_ok, caseAt_eq_ok, ih]
    constructor
    · rintro ⟨c, ⟨rfl, hc⟩, cs, ⟨rfl, hcs⟩, h⟩
      cases h
      exact ⟨rfl, List.forall_mem_cons.2 ⟨hc, hcs⟩⟩
    · rintro ⟨hitems, hall⟩
      cases cases with
      | nil => simp at hitems
      | cons c cs =>
        obtain ⟨rfl, rfl⟩ := List.cons.inj hitems
        obtain ⟨hc, hcs⟩ := List.forall_mem_cons.1 hall
        exact ⟨c, ⟨rfl, hc⟩, cs, ⟨rfl, hcs⟩, rfl⟩

theorem hasCase_iff {name : String} : s.hasCase name = true ↔ name ∈ s.cases.map (·.name) := by
  simp [hasCase]

/-- What a service shows of its method: it has the name of the export and lists all that the method returned, in
order, and these are cases of the enum. -/
structure Serves (s : EnumSource) (method : MethodSource) (exportName : String) (service : ServiceMethod) : Prop where
  name : service.exportName = exportName
  returned : s.run method = .ok (.array (service.cases.map (.case s.qualifiedName)))
  known : ∀ c ∈ service.cases, c ∈ s.cases.map (·.name)

theorem service_eq_ok {method : MethodSource} {exportName : String} {service : ServiceMethod} :
    s.service method exportName = .ok service ↔ s.Serves method exportName service := by
  have hserves : s.Serves method exportName service ↔ service.exportName = exportName ∧
      s.run method = .ok (.array (service.cases.map (.case s.qualifiedName))) ∧
      ∀ c ∈ service.cases, s.hasCase c = true := by
    simp only [hasCase_iff]
    exact ⟨fun h => ⟨h.name, h.returned, h.known⟩, fun ⟨hname, hrun, hcases⟩ => ⟨hname, hrun, hcases⟩⟩
  rw [hserves]
  unfold EnumSource.service
  split
  · rename_i h
    simp [h]
  · rename_i items h
    simp only [map_eq_ok, casesFrom_eq_ok, h, Except.ok.injEq, ServiceValue.array.injEq]
    constructor
    · rintro ⟨cases, ⟨rfl, hall⟩, rfl⟩
      exact ⟨rfl, rfl, hall⟩
    · rintro ⟨rfl, hitems, hall⟩
      exact ⟨service.cases, ⟨hitems, hall⟩, rfl⟩
  · rename_i other hother h
    simp only [h, reduceCtorEq, Except.ok.injEq, false_iff]
    rintro ⟨-, rfl, -⟩
    exact hother _ rfl

theorem nodup_of_checkExports {seen names : List String} (h : checkExports seen names = .ok ()) :
    names.Nodup ∧ ∀ name ∈ names, name ∉ seen := by
  induction names generalizing seen with
  | nil => simp
  | cons name names ih =>
    unfold checkExports at h
    split at h
    · cases h
    · rename_i hname
      rw [List.contains_iff_mem] at hname
      obtain ⟨hnodup, hothers⟩ := ih h
      refine ⟨List.nodup_cons.2 ⟨fun hmem => hothers name hmem List.mem_cons_self, hnodup⟩,
        List.forall_mem_cons.2 ⟨hname, fun n hn hmem => hothers n hn (List.mem_cons_of_mem _ hmem)⟩⟩

/-- The exports of a checked enum have names of their own. -/
theorem nodup_exports_of_parse {file src : String} (h : EntitySource.parse file src = .ok (.enumeration s)) :
    (s.exports.map (·.2)).Nodup := by
  have hc := Project.check_of_parse h
  simp only [EntitySource.check, check, bind_eq_ok] at hc
  obtain ⟨_, -, _, -, hexports⟩ := hc
  have hnames : s.exports.map (·.2) = s.methods.filterMap (·.exportName?) := by
    simp [exports, List.map_filterMap, Function.comp_def]
  rw [hnames]
  exact (nodup_of_checkExports hexports).1

/-! ## The file of a checked enum -/

/-- The file of a checked enum has a line for each case, in order of their names and with its value, and in the
object of its services a property for each exported method, in the order of the methods and under keys that differ,
that lists what the method returned. -/
theorem cases_and_services_written {file src : String}
    (h : EntitySource.parse file src = .ok (.enumeration s)) {o : Options} {e : Entity}
    (he : (s.build o).outcome = .ok e) (kept : KeptRegions) (ctx : Context) :
    ∃ cases : List CaseSource, cases.Perm s.cases ∧ cases.Pairwise (·.name < ·.name) ∧
      List.Forall₂ (fun (method, exportName) service => s.Serves method exportName service) s.exports e.services ∧
      (e.services.map (·.exportName)).Nodup ∧
      (e.withKept kept).render ctx =
        linesText ctx.options.indent.unit
          (enumLines s.name (cases.map fun c => (c.name, caseText o.stringQuotes c)) ++
            ServiceMethod.objectLines s.name ctx.terminator e.services) ++
          Region.code.opening ++ kept.slot ctx .code ++ Region.code.closing ++ "\n" := by
  obtain ⟨cases, hperm, hsorted, hmembers⟩ := exists_cases_of_build h he
  obtain ⟨services, hservices, hentity⟩ := build_eq_ok.1 he
  have hof : e.services = services := by
    rw [hentity, Entity.services, entity_kind]
  refine ⟨cases, hperm, hsorted, ?_, ?_, ?_⟩
  · rw [hof]
    exact (mapM_eq_ok.1 hservices).imp fun _ _ => service_eq_ok.1
  · have hkeys : services.map (·.exportName) = s.exports.map (·.2) :=
      map_of_mapM hservices fun _ _ _ hs => (service_eq_ok.1 hs).name
    rw [hof, hkeys]
    exact nodup_exports_of_parse h
  · have henum := build_isEnumeration he
    rw [Entity.render_enum (show (e.withKept kept).isEnumeration = true from henum)]
    simp only [Entity.withKept, hmembers, written_caseMembers, List.map_map, build_name he]
    rfl

/-- An enum of two cases, with a method that returns one of them twice, one that returns nothing and one that is not
exported. -/
def twoCases : String :=
  "kind=\"enum\"\nname=\"S\"\ncases=[\x7bname=\"B\",value=2\x7d,\x7bname=\"A\"\x7d]\n" ++
  "[[methods]]\nname=\"all\"\nexport=true\nreturns=[\x7bcase=\"B\"\x7d,\x7bcase=\"A\"\x7d,\x7bcase=\"B\"\x7d]\n" ++
  "[[methods]]\nname=\"hidden\"\nreturns=[\x7bcase=\"A\"\x7d]\n" ++
  "[[methods]]\nname=\"none\"\nexport=\"empty\"\nreturns=[]\n"

/-- Cases are written in order of their names, and a service lists a case as often as its method returned it. -/
theorem twoCases_written : ∃ s e, EntitySource.parse "s.toml" twoCases = .ok (.enumeration s) ∧
    (s.build {}).outcome = .ok e ∧ s.cases = [⟨"B", some (.integer 2)⟩, ⟨"A", none⟩] ∧
    List.Forall₂ (fun (method, exportName) service => s.Serves method exportName service) s.exports
      [⟨"all", ["B", "A", "B"]⟩, ⟨"empty", []⟩] ∧
    (e.withKept { code := some "\nf()\n" }).render (.regular {}) =
      linesText "    " [(0, "export enum S \x7b"), (1, "A = 'A',"), (1, "B = 2,"), (0, "\x7d"), (0, ""),
        (0, "export const SService = \x7b"), (1, "all: () => \x7b"), (2, "return ["), (3, "S.B,"), (3, "S.A,"),
        (3, "S.B,"), (2, "];"), (1, "\x7d,"), (1, "empty: () => \x7b"), (2, "return [];"), (1, "\x7d,"), (0, "\x7d"),
        (0, "")] ++
        "// <non-auto-generated-code>\nf()\n// </non-auto-generated-code>\n" := by
  have hfile : (EntitySource.parse "s.toml" twoCases).toOption.bind (fun source => source.enumeration?.bind fun s =>
      (s.build {}).outcome.toOption.map fun e => (s.name, s.cases, e.services)) =
      some ("S", [⟨"B", some (.integer 2)⟩, ⟨"A", none⟩], [⟨"all", ["B", "A", "B"]⟩, ⟨"empty", []⟩]) := by
    decide +kernel
  simp only [Option.bind_eq_some_iff, Option.map_eq_some_iff, toOption_eq_some, Prod.mk.injEq] at hfile
  obtain ⟨source, hs, s, hsource, e, he, hname, hcases, hservices⟩ := hfile
  obtain rfl : source = .enumeration s := by
    cases source <;> simp_all [EntitySource.enumeration?]
  obtain ⟨cases, hperm, hsorted, hserves, -, hrender⟩ :=
    cases_and_services_written hs he { code := some "\nf()\n" } (.regular {})
  have hordered : cases = [⟨"A", none⟩, ⟨"B", some (.integer 2)⟩] := by
    rw [hcases] at hperm
    exact (hperm.trans (.swap _ _ [])).eq_of_pairwise (fun _ _ _ _ h h' => absurd h' (String.lt_asymm h)) hsorted
      (by decide +kernel)
  rw [hservices] at hserves hrender
  rw [hordered, hname] at hrender
  refine ⟨s, e, hs, he, hcases, hserves, hrender.trans ?_⟩
  decide +kernel

end EnumSource

end EntityScript
