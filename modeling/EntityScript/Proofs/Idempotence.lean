import EntityScript.Proofs.Outputs
import EntityScript.Proofs.RoundTrip
/-!
# Generating twice

A second run reads back what the first one wrote. It changes nothing if and only if each region is read
back as it was written and files that have one place have one content.
-/

namespace EntityScript

open Text Disk

/-! ## Slots that are told apart -/

/-- The text before a closing comment is the same in equal texts, if that comment is not in it. -/
theorem Layout.fillSlots_inj {fill fill' : Region → List Char} {slots : List (Region × List Char)}
    (hf : ∀ r ∈ slots.map (·.1), occurrences r.closing.toList (fill r) = 0)
    (hf' : ∀ r ∈ slots.map (·.1), occurrences r.closing.toList (fill' r) = 0)
    (h : fillSlots fill slots = fillSlots fill' slots) : ∀ r ∈ slots.map (·.1), fill r = fill' r := by
  induction slots with
  | nil => simp
  | cons s slots ih =>
    obtain ⟨r, after⟩ := s
    rw [List.map_cons, List.forall_mem_cons] at hf hf' ⊢
    rw [fillSlots, fillSlots, List.append_cancel_left_eq] at h
    have hw := Region.apart_sentinels
    have hc := Region.mem_sentinels r.closing_mem
    have hcut := hw.cutAt?_cut (b := after ++ fillSlots fill slots) hc hf.1
    rw [h, hw.cutAt?_cut hc hf'.1] at hcut
    simp only [Option.some.injEq, Prod.mk.injEq, List.append_cancel_left_eq] at hcut
    exact ⟨hcut.1.symm, ih hf.2 hf'.2 hcut.2.symm⟩

/-- What is read back from a file holds no comment that closes its region. -/
theorem KeptRegions.occurrences_slot_extract (text : String) (ctx : Context) (r : Region) :
    occurrences r.closing.toList ((KeptRegions.extract text).slot ctx r).toList = 0 := by
  unfold slot
  rw [get?_extract]
  cases h : r.extract? text with
  | none => exact r.occurrences_blank ctx (Region.mem_sentinels r.closing_mem)
  | some content =>
    unfold Region.extract? at h
    split at h
    · cases h
    · obtain ⟨⟨before, rest⟩, hcut, rfl⟩ := Option.map_eq_some_iff.1 h
      simpa using occurrences_of_cutAt? hcut

theorem KeptRegions.slot_congr {ctx ctx' : Context} (h : ctx.options = ctx'.options) (k : KeptRegions)
    (r : Region) : k.slot ctx r = k.slot ctx' r := by
  simp [slot, Region.blank, Region.closeIndent, h]

theorem KeptRegions.slot_empty (ctx : Context) (r : Region) : KeptRegions.empty.slot ctx r = r.blank ctx := by
  cases r <;> rfl

namespace Disk

/-- What the regions of the file at a path hold. -/
def keptOn (d : Disk) (path : String) : KeptRegions :=
  match d.readText path with
  | .ok content => .extract content
  | .error _ => .empty

theorem keptOn_of_readText {d : Disk} {path content : String} (h : d.readText path = .ok content) :
    d.keptOn path = .extract content := by
  simp [keptOn, h]

theorem occurrences_slot_keptOn (d : Disk) (path : String) (ctx : Context) (r : Region) :
    occurrences r.closing.toList ((d.keptOn path).slot ctx r).toList = 0 := by
  unfold keptOn
  split
  · exact KeptRegions.occurrences_slot_extract _ ctx r
  · rw [KeptRegions.slot_empty]
    exact r.occurrences_blank ctx (Region.mem_sentinels r.closing_mem)

end Disk

theorem ModuleImport.prefix_text (i : ModuleImport) (quotes : QuoteStyle) :
    ['i', 'm', 'p', 'o'] <+: (i.text quotes).toList := by
  unfold text
  simp only
  cases i.typeOnly <;> split <;> simp

namespace Entity

/-- Texts in the slots of one file, none of which closes its region, are the same if the files are. -/
theorem slot_eq_of_render {e : Entity} {ctx : Context} {k k' : KeptRegions}
    (hk : ∀ r : Region, occurrences r.closing.toList (k.slot ctx r).toList = 0)
    (hk' : ∀ r : Region, occurrences r.closing.toList (k'.slot ctx r).toList = 0)
    (h : (e.withKept k).render ctx = (e.withKept k').render ctx) :
    ∀ r ∈ e.regions, k.slot ctx r = k'.slot ctx r := by
  have htext := congrArg String.toList h
  rw [toList_render, toList_render, layout_withKept, layout_withKept, Layout.text, Layout.text,
    List.append_cancel_left_eq] at htext
  intro r hr
  rw [← layout_regions e ctx] at hr
  exact String.toList_injective (Layout.fillSlots_inj (fun r _ => hk r) (fun r _ => hk' r) htext r hr)

/-- Each region of the file of an entity is read back from it as it was written. -/
def ReadsBack (e : Entity) (ctx : Context) : Prop :=
  ∀ r ∈ e.regions, (KeptRegions.extract (e.render ctx)).slot ctx r = e.kept.slot ctx r

/-! ## Kinds of files -/

theorem take_render_enumeration {e : Entity} (h : e.isEnumeration = true) (ctx : Context) :
    (e.render ctx).toList.take 4 = ['e', 'x', 'p', 'o'] := by
  rw [toList_render, layout, if_pos h]
  simp [Layout.text, enumLayout, Fragment.texts, Fragment.text, Fragment.lineText, copies]

theorem take_render_model {e : Entity} (h : e.isEnumeration = false) (ctx : Context) :
    (e.render ctx).toList.take 4 = ['i', 'm', 'p', 'o'] ∨
      (e.render ctx).toList.take 4 = ['/', '/', ' ', '<'] := by
  rw [toList_render, layout, if_neg (by simp [h])]
  cases hi : e.orderedImports ctx with
  | nil =>
    right
    simp [Layout.text, modelLayout, hi, Fragment.texts, Layout.fillSlots, Region.opening]
  | cons i is =>
    left
    have hline := (i.inContext ctx).prefix_text ctx.options.importQuotes
    refine (List.prefix_iff_eq_take.1 (hline.trans ?_)).symm
    simp [Layout.text, modelLayout, hi, Fragment.texts, Fragment.text, Fragment.lineText, copies]

theorem take_render_pivot (i : PivotInterface) (o : Options) :
    (i.render o).toList.take 4 = ['/', '/', ' ', 'A'] := by
  rw [PivotInterface.render, Writer.emitAll_eq]
  simp [PivotInterface.fragments, Fragment.texts, Fragment.text, Fragment.lineText, Writer.raw, copies]

/-- The file of an entity is never that of a pivot interface. -/
theorem render_ne_pivot (e : Entity) (ctx : Context) (i : PivotInterface) (o : Options) :
    e.render ctx ≠ i.render o := by
  intro h
  have htake := take_render_pivot i o
  rw [← h] at htake
  cases he : e.isEnumeration with
  | true =>
    rw [take_render_enumeration he] at htake
    exact absurd htake (by decide)
  | false => rcases take_render_model he ctx with hm | hm <;> exact absurd (hm.symm.trans htake) (by decide)

/-- The file of an enum is never that of a model. -/
theorem isEnumeration_of_render {e e' : Entity} {ctx ctx' : Context} {k k' : KeptRegions}
    (h : (e.withKept k).render ctx = (e'.withKept k').render ctx') : e.isEnumeration = e'.isEnumeration := by
  have differ (e e' : Entity) (ctx ctx' : Context) (he : e.isEnumeration = true) (he' : e'.isEnumeration = false) :
      e.render ctx ≠ e'.render ctx' := by
    intro h
    have htake := take_render_enumeration he ctx
    rw [h] at htake
    rcases take_render_model he' ctx' with hm | hm <;> exact absurd (hm.symm.trans htake) (by decide)
  cases he : e.isEnumeration <;> cases he' : e'.isEnumeration
  · rfl
  · exact absurd h.symm (differ (e'.withKept k') (e.withKept k) ctx' ctx he' he)
  · exact absurd h (differ (e.withKept k) (e'.withKept k') ctx ctx' he he')
  · rfl

end Entity

/-! ## Files from a disk -/

namespace Project

variable {p : Project} {d : Disk}

/-- An output with what the regions of the file at its path hold. -/
def fileOn (p : Project) (d : Disk) : Output → OutputFile
  | .entity e dir ctx =>
    let path := outputPath dir (ctx.rename e.name)
    { path, content := (e.withKept (d.keptOn path)).render ctx }
  | .pivot i => p.pivotFile i

theorem fileOn_path (p : Project) (d d' : Disk) (o : Output) : (p.fileOn d o).path = (p.fileOn d' o).path := by
  cases o <;> rfl

theorem keptAt_of_readText {path content : String} (h : d.readText path = .ok content) :
    (keptAt d path).outcome = .ok (.extract content) := by
  have he : OutputFile.readExisting d path = .ok (some content) := by
    simp [OutputFile.readExisting, Disk.readExisting, h]
  rw [keptAt, he]
  simp only
  split <;> rfl

theorem keptAt_eq_ok {path : String} {k : KeptRegions} (h : (keptAt d path).outcome = .ok k) :
    k = d.keptOn path := by
  cases hr : d.readText path with
  | ok content =>
    rw [keptAt_of_readText hr] at h
    rw [keptOn_of_readText hr]
    exact (Except.ok.inj h).symm
  | error fault =>
    unfold keptAt OutputFile.readExisting Disk.readExisting at h
    simp only [keptOn, hr] at h ⊢
    cases fault <;> cases h
    rfl

theorem write_eq_ok {o : Output} {f : OutputFile} (h : p.write d o = .ok f) : f = p.fileOn d o := by
  cases o with
  | entity e dir ctx =>
    simp only [write, renderFile, Logged.outcome_bind, Logged.outcome_pure, bind_eq_ok, Except.ok.injEq] at h
    obtain ⟨k, hk, rfl⟩ := h
    rw [keptAt_eq_ok hk]
    rfl
  | pivot i => exact (Except.ok.inj h).symm

theorem write_of_readText {o : Output} {content : String} (h : d.readText (p.fileOn d o).path = .ok content) :
    p.write d o = .ok (p.fileOn d o) := by
  cases o with
  | entity e dir ctx =>
    have hk := keptAt_of_readText h
    simp only [fileOn] at h hk
    simp only [write, renderFile, Logged.outcome_bind, Logged.outcome_pure, hk, fileOn, keptOn_of_readText h]
    rfl
  | pivot i => rfl

/-- A project can be rendered only as its outputs with what the disk holds. -/
theorem preview_spec {files : List OutputFile} (h : (p.preview d).outcome = .ok files) :
    ∃ os, p.outputs = .ok os ∧ files = os.map (p.fileOn d) := by
  obtain ⟨os, ho, hw⟩ := preview_eq_ok.1 h
  refine ⟨os, ho, ?_⟩
  rw [mapM_eq_ok] at hw
  clear ho h
  induction hw with
  | nil => rfl
  | cons hf _ ih => rw [List.map_cons, write_eq_ok hf, ih]

/-- A project can be rendered where each of its files is there. -/
theorem preview_of_readText {os : List Output} (ho : p.outputs = .ok os)
    (h : ∀ o ∈ os, ∃ content, d.readText (p.fileOn d o).path = .ok content) :
    (p.preview d).outcome = .ok (os.map (p.fileOn d)) := by
  refine preview_eq_ok.2 ⟨os, ho, mapM_eq_ok.2 ?_⟩
  rw [List.forall₂_map_right_iff, List.forall₂_same]
  intro o hm
  obtain ⟨content, hc⟩ := h o hm
  exact write_of_readText hc

theorem generate_eq {files : List OutputFile} (h : (p.preview d).outcome = .ok files) :
    (p.generate d).1 = (d.saveAll files).1 ∧ (p.generate d).2.outcome = (d.saveAll files).2.outcome := by
  simp [generate, h]

theorem generate_eq_ok {s : RunSummary} (h : (p.generate d).2.outcome = .ok s) :
    ∃ files, (p.preview d).outcome = .ok files := by
  cases hp : (p.preview d).outcome with
  | ok files => exact ⟨files, rfl⟩
  | error e =>
    simp only [generate, hp] at h
    cases h

/-! ## The second run -/

/-- Nothing that a run writes changes when it is read back: files that have one place have one content,
and each region is read back as it was written. -/
structure Settled (p : Project) (d : Disk) (files : List OutputFile) : Prop where
  one_content : ∀ f ∈ files, ∀ g ∈ files, placeOf f.path = placeOf g.path → f.content = g.content
  reads_back : ∀ os, p.outputs = .ok os → ∀ e dir ctx, .entity e dir ctx ∈ os →
    (e.withKept (d.keptOn (outputPath dir (ctx.rename e.name)))).ReadsBack ctx

variable {d₀ d' : Disk} {config : String} {os : List Output}

/-- If two outputs have one place and a second run finds both as it would write them, then the file that
stands there since the first run is the first one too, and its regions are read back as they were written. -/
theorem content_eq_of_rerun (hp : openAt d₀ config = .ok p) (ho : p.outputs = .ok os) {o o' : Output} (hm : o ∈ os)
    (hm' : o' ∈ os) (hplace : placeOf (p.fileOn d o').path = placeOf (p.fileOn d o).path)
    (hread : d'.readText (p.fileOn d o).path = .ok (p.fileOn d o').content)
    (hsame : (p.fileOn d o').content = (p.fileOn d' o).content)
    (hsame' : (p.fileOn d o').content = (p.fileOn d' o').content) :
    (p.fileOn d o').content = (p.fileOn d o).content ∧ ∀ e dir ctx, o = .entity e dir ctx →
      (e.withKept (d.keptOn (outputPath dir (ctx.rename e.name)))).ReadsBack ctx := by
  cases o with
  | pivot i => exact ⟨hsame, by simp⟩
  | entity e dir ctx =>
    cases o' with
    | pivot i => exact absurd hsame.symm (Entity.render_ne_pivot _ ctx i p.config.options)
    | entity e' dir' ctx' =>
      have hpl := places_of_openAt hp ho hm
      have hpl' := places_of_openAt hp ho hm'
      have hkind : e.isEnumeration = e'.isEnumeration :=
        Entity.isEnumeration_of_render hsame.symm
      have hpath := hpl'.path_eq hpl hkind.symm hplace
      have hregions : e.regions = e'.regions := by simp [Entity.regions, hkind]
      -- The second run leaves the slots of `o'` as they are, and those of `o` hold the same.
      have hslots : ∀ r ∈ e.regions, (d'.keptOn (outputPath dir (ctx.rename e.name))).slot ctx r =
          (d.keptOn (outputPath dir (ctx.rename e.name))).slot ctx r := by
        intro r hr
        have hctx : ctx.options = ctx'.options := hpl.options.trans hpl'.options.symm
        rw [KeptRegions.slot_congr hctx, KeptRegions.slot_congr hctx, ← hpath]
        exact Entity.slot_eq_of_render (fun _ => occurrences_slot_keptOn ..) (fun _ => occurrences_slot_keptOn ..)
          hsame'.symm r (hregions ▸ hr)
      have heq := hsame.trans (e.render_congr ctx hslots)
      refine ⟨heq, ?_⟩
      have hkept : d'.keptOn (outputPath dir (ctx.rename e.name)) = .extract _ := keptOn_of_readText hread
      rintro _ _ _ ⟨⟩ r hr
      rw [hkept, heq] at hslots
      exact hslots r hr

/-- On a disk that a run has left, each output reads as an output that has its place. -/
def Written (p : Project) (d d' : Disk) (os : List Output) : Prop :=
  ∀ o ∈ os, ∃ o' ∈ os, placeOf (p.fileOn d o').path = placeOf (p.fileOn d o).path ∧
    d'.readText (p.fileOn d o).path = .ok (p.fileOn d o').content

theorem written_saveAll {first : RunSummary} (h : (d.saveAll (os.map (p.fileOn d))).2.outcome = .ok first) :
    p.Written d (d.saveAll (os.map (p.fileOn d))).1 os := by
  intro o hm
  obtain ⟨g, hg, hplace, hr⟩ := readText_saveAll h (List.mem_map_of_mem hm)
  obtain ⟨o', hm', rfl⟩ := List.mem_map.1 hg
  exact ⟨o', hm', hplace, hr⟩

namespace Written

theorem preview (hw : p.Written d d' os) (ho : p.outputs = .ok os) :
    (p.preview d').outcome = .ok (os.map (p.fileOn d')) := by
  refine preview_of_readText ho fun o hm => ?_
  obtain ⟨o', -, -, hr⟩ := hw o hm
  rw [p.fileOn_path d d' o] at hr
  exact ⟨_, hr⟩

/-- A run was settled if the disk that it left reads as the next run would write it. -/
theorem settled (hw : p.Written d d' os) (hp : openAt d₀ config = .ok p) (ho : p.outputs = .ok os)
    (hsame : ∀ o ∈ os, d'.readText (p.fileOn d o).path = .ok (p.fileOn d' o).content) :
    p.Settled d (os.map (p.fileOn d)) := by
  have hfirst : ∀ o ∈ os, d'.readText (p.fileOn d o).path = .ok (p.fileOn d o).content ∧ ∀ e dir ctx,
      o = .entity e dir ctx → (e.withKept (d.keptOn (outputPath dir (ctx.rename e.name)))).ReadsBack ctx := by
    intro o hm
    obtain ⟨o', hm', hplace, hr⟩ := hw o hm
    have hc := readText_of_place rfl hr (hsame o hm)
    have hc' := readText_of_place hplace.symm hr (hsame o' hm')
    obtain ⟨heq, hback⟩ := content_eq_of_rerun hp ho hm hm' hplace hr hc hc'
    exact ⟨heq ▸ hr, hback⟩
  constructor
  · intro f hf g hg hplace
    obtain ⟨o, hm, rfl⟩ := List.mem_map.1 hf
    obtain ⟨o', hm', rfl⟩ := List.mem_map.1 hg
    exact readText_of_place hplace (hfirst o hm).1 (hfirst o' hm').1
  · intro os' ho' e dir ctx hm
    obtain rfl := Except.ok.inj (ho.symm.trans ho')
    exact (hfirst _ hm).2 e dir ctx rfl

/-- The disk that a settled run left reads as the next run would write it. -/
theorem readText_of_settled (hw : p.Written d d' os) (ho : p.outputs = .ok os)
    (hs : p.Settled d (os.map (p.fileOn d))) :
    ∀ o ∈ os, d'.readText (p.fileOn d o).path = .ok (p.fileOn d' o).content := by
  intro o hm
  obtain ⟨o', hm', hplace, hr⟩ := hw o hm
  have hcontent := hs.one_content _ (List.mem_map_of_mem hm') _ (List.mem_map_of_mem hm) hplace
  rw [hcontent] at hr
  rw [hr]
  cases o with
  | pivot i => rfl
  | entity e dir ctx =>
    have hback := hs.reads_back os ho e dir ctx hm
    have hkept : d'.keptOn (outputPath dir (ctx.rename e.name)) = .extract _ := keptOn_of_readText hr
    refine congrArg Except.ok (e.render_congr ctx fun r hr' => ?_)
    rw [hkept]
    exact (hback r hr').symm

end Written

/-- A second run changes nothing if and only if the first one was settled. -/
theorem generate_idempotent_iff (hp : openAt d₀ config = .ok p) {first : RunSummary}
    (hfirst : (p.generate d).2.outcome = .ok first) :
    ∃ files, (p.preview d).outcome = .ok files ∧
      ((p.generate (p.generate d).1).2.outcome = .ok { written := [], unchanged := files.map (·.path) } ∧
        (p.generate (p.generate d).1).1 = (p.generate d).1 ↔ p.Settled d files) := by
  obtain ⟨files, hfiles⟩ := generate_eq_ok hfirst
  obtain ⟨os, ho, rfl⟩ := preview_spec hfiles
  obtain ⟨hd, hsaved⟩ := generate_eq hfiles
  rw [hsaved] at hfirst
  refine ⟨_, hfiles, ?_⟩
  rw [hd]
  have hwritten := written_saveAll hfirst
  generalize (d.saveAll (os.map (p.fileOn d))).1 = d' at hwritten ⊢
  obtain ⟨hd', hsaved'⟩ := generate_eq (hwritten.preview ho)
  have hpaths : (os.map (p.fileOn d)).map (·.path) = (os.map (p.fileOn d')).map (·.path) := by
    simp [p.fileOn_path d d']
  have hfound : (∀ f ∈ os.map (p.fileOn d'), d'.readText f.path = .ok f.content) ↔
      ∀ o ∈ os, d'.readText (p.fileOn d o).path = .ok (p.fileOn d' o).content := by
    simp [p.fileOn_path d d']
  rw [hd', hsaved', hpaths, saveAll_unchanged_iff, hfound]
  constructor
  · rintro ⟨hsame, -⟩
    exact hwritten.settled hp ho hsame
  · intro hs
    have hsame := hwritten.readText_of_settled ho hs
    exact ⟨hsame, saveAll_eq_self (hfound.2 hsame)⟩

/-- The paths of what a project renders, what its second run reports and whether that run leaves the
disk as it is. -/
def secondRun (d : Disk) (config : String) : Option (List String × RunSummary × Bool) := do
  let p ← (openAt d config).toOption
  let files ← (p.preview d).outcome.toOption
  let (d', first) := p.generate d
  let _ ← first.outcome.toOption
  let (d'', second) := p.generate d'
  let summary ← second.outcome.toOption
  return (files.map (·.path), summary, d'' == d')

theorem secondRun_eq_some {paths : List String} {s : RunSummary} {same : Bool}
    (h : secondRun d config = some (paths, s, same)) : ∃ p files first, openAt d config = .ok p ∧
      (p.preview d).outcome = .ok files ∧ files.map (·.path) = paths ∧ (p.generate d).2.outcome = .ok first ∧
      (p.generate (p.generate d).1).2.outcome = .ok s ∧
      ((p.generate (p.generate d).1).1 == (p.generate d).1) = same := by
  simp only [secondRun, Option.bind_eq_bind, Option.bind_eq_some_iff, Option.pure_def, Option.some.injEq,
    Prod.mk.injEq, toOption_eq_some] at h
  obtain ⟨p, hp, files, hf, first, h1, second, h2, hpaths, rfl, hsame⟩ := h
  exact ⟨p, files, first, hp, hf, hpaths, h1, h2, hsame⟩

/-- A project of one enum with one case. -/
def oneEnum (value : String) : Disk :=
  { entries := [
      (["t.toml"], .text "[output]\nclasses=\"o\"\nenums=\"o\"\n[sources]\nentities=[\"s.toml\"]\n"),
      (["s.toml"], .text ("kind=\"enum\"\nnamespace=\"A\"\nname=\"S\"\n[[cases]]\nname=\"C\"\nvalue=\"" ++
        value ++ "\"\n"))] }

theorem oneEnum_settled : ∃ p files, openAt (oneEnum "V") "t.toml" = .ok p ∧
    (p.preview (oneEnum "V")).outcome = .ok files ∧ p.Settled (oneEnum "V") files := by
  have hrun : secondRun (oneEnum "V") "t.toml" = some (["o/S.ts"], { unchanged := ["o/S.ts"] }, true) := by
    decide +kernel
  obtain ⟨p, files, first, hp, hf, hpaths, h1, h2, hsame⟩ := secondRun_eq_some hrun
  obtain ⟨_, hf', hiff⟩ := generate_idempotent_iff hp h1
  obtain rfl := Except.ok.inj (hf.symm.trans hf')
  exact ⟨p, files, hp, hf, hiff.1 ⟨by rw [h2, hpaths], by simpa using hsame⟩⟩

/-- A case that has the comment of a region for its value is taken for the start of that region, so each
run writes a longer file. -/
theorem oneEnum_written_again : ∃ p first, openAt (oneEnum "// <non-auto-generated-code>") "t.toml" = .ok p ∧
    (p.generate (oneEnum "// <non-auto-generated-code>")).2.outcome = .ok first ∧
    (p.generate (p.generate (oneEnum "// <non-auto-generated-code>")).1).2.outcome =
      .ok { written := ["o/S.ts"] } ∧
    (p.generate (p.generate (oneEnum "// <non-auto-generated-code>")).1).1 ≠
      (p.generate (oneEnum "// <non-auto-generated-code>")).1 := by
  have hrun : secondRun (oneEnum "// <non-auto-generated-code>") "t.toml" =
      some (["o/S.ts"], { written := ["o/S.ts"] }, false) := by
    decide +kernel
  obtain ⟨p, files, first, hp, -, -, h1, h2, hsame⟩ := secondRun_eq_some hrun
  exact ⟨p, first, hp, h1, h2, by simpa using hsame⟩

end Project

end EntityScript
