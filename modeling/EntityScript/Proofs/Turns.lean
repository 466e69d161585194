import EntityScript.Proofs.Overwriting
import EntityScript.Proofs.OwnRegions
/-!
# What a run writes

A run that cannot render its files touches nothing. One that can saves them in turn, each on the disk that the ones
before it left, and writes just those that are not there as they are. Files are told apart by their places: two
spellings of a path lead to one file.
-/

namespace EntityScript

namespace Disk

variable {d d' : Disk}

/-- Files to save, each with the disk on which its turn comes. -/
def turns (d : Disk) : List OutputFile → List (Disk × OutputFile)
  | [] => []
  | f :: fs => (d, f) :: turns (d.save f).1 fs

/-- Whether a file can be saved: what is there can be read, and if that differs, then the directories above the file
can be made and the file can be written. -/
def Saves (d : Disk) (f : OutputFile) : Prop :=
  ∃ written, (d.save f).2 = .ok written

/-- Whether a disk has a file as it is. -/
def holds (d : Disk) (f : OutputFile) : Bool :=
  (d.readText f.path).toOption == some f.content

/-- What a run reports of its turns. -/
def report (turns : List (Disk × OutputFile)) : RunSummary :=
  { written := (turns.filter fun (d, f) => !d.holds f).map (·.2.path)
    unchanged := (turns.filter fun (d, f) => d.holds f).map (·.2.path) }

instance (d : Disk) (f : OutputFile) : Decidable (d.Saves f) :=
  decidable_of_iff ((d.save f).2.toOption.isSome) (by
    simp only [Saves, Option.isSome_iff_exists, toOption_eq_some])

theorem holds_iff {f : OutputFile} : d.holds f = true ↔ d.readText f.path = .ok f.content := by
  rw [holds, beq_iff_eq, toOption_eq_some]

/-- Each file has one turn, in order. -/
theorem files_of_turns (d : Disk) (fs : List OutputFile) : (d.turns fs).map (·.2) = fs := by
  induction fs generalizing d with
  | nil => rfl
  | cons f fs ih => rw [turns, List.map_cons, ih]

theorem report_cons (f : OutputFile) (turns : List (Disk × OutputFile)) :
    report ((d, f) :: turns) = record f.path (!d.holds f) (report turns) := by
  cases h : d.holds f <;> simp [report, record, h]

/-- A file is reported as written if and only if it was not there. -/
theorem written_of_save {f : OutputFile} {written : Bool} (h : d.save f = (d', .ok written)) :
    written = !d.holds f := by
  rcases save_spec h with ⟨rfl, -, hr⟩ | ⟨rfl, hr, -⟩
  · rw [holds_iff.2 hr]
    rfl
  · rw [Bool.eq_false_iff.2 fun hh => hr (holds_iff.1 hh)]
    rfl

/-- Files that can be saved on their turns are saved, and the report says which of them were there. -/
theorem saveAll_of_saves {fs : List OutputFile} (h : ∀ t ∈ d.turns fs, t.1.Saves t.2) :
    (d.saveAll fs).2.outcome = .ok (report (d.turns fs)) := by
  induction fs generalizing d with
  | nil => rfl
  | cons f fs ih =>
    rw [turns, List.forall_mem_cons] at h
    obtain ⟨⟨written, hw⟩, hfs⟩ := h
    have hs : d.save f = ((d.save f).1, .ok written) := Prod.ext rfl hw
    rw [(saveAll_cons fs hs).2, ih hfs, written_of_save hs, turns, report_cons]
    rfl

/-! ## What stays as it is -/

/-- Saving a file leaves what is elsewhere, but for directories that come in addition. -/
theorem get?_save {f : OutputFile} {written : Bool} (h : d.save f = (d', .ok written)) {p : Place}
    (hp : placeOf f.path ≠ p) {e : DiskEntry} (he : e ≠ .directory) :
    d'.get? p = some e ↔ d.get? p = some e := by
  rcases save_spec h with ⟨-, rfl, -⟩ | ⟨-, -, d₁, hext, honly, hw⟩
  · exact Iff.rfl
  · obtain ⟨-, -, rfl⟩ := writeText_spec hw
    rw [get?_put_of_ne d₁ _ hp.symm]
    exact ⟨honly p e he, hext p e⟩

theorem keepsDirectories_save {f : OutputFile} {written : Bool} (h : d.save f = (d', .ok written)) :
    KeepsDirectories d d' := by
  rcases save_spec h with ⟨-, rfl, -⟩ | ⟨-, -, d₁, hext, -, hw⟩
  · exact fun _ hp => hp
  · obtain ⟨-, hd, rfl⟩ := writeText_spec hw
    exact fun p hp => keepsDirectories_put hd _ p (hext.keepsDirectories p hp)

theorem get?_saveAll {fs : List OutputFile} {s : RunSummary} (h : (d.saveAll fs).2.outcome = .ok s) {p : Place}
    (hp : ∀ f ∈ fs, placeOf f.path ≠ p) {e : DiskEntry} (he : e ≠ .directory) :
    (d.saveAll fs).1.get? p = some e ↔ d.get? p = some e := by
  induction fs generalizing d s with
  | nil => exact Iff.rfl
  | cons f fs ih =>
    obtain ⟨d₁, written, s₁, hs, hd, ho, -⟩ := saveAll_cons_eq_ok h
    rw [List.forall_mem_cons] at hp
    rw [hd, ih ho hp.2, get?_save hs hp.1 he]

theorem keepsDirectories_saveAll {fs : List OutputFile} {s : RunSummary} (h : (d.saveAll fs).2.outcome = .ok s) :
    KeepsDirectories d (d.saveAll fs).1 := by
  induction fs generalizing d s with
  | nil => exact fun _ hp => hp
  | cons f fs ih =>
    obtain ⟨d₁, written, s₁, hs, hd, ho, -⟩ := saveAll_cons_eq_ok h
    rw [hd]
    exact fun p hp => ih ho p (keepsDirectories_save hs p hp)

end Disk

namespace Project

open Disk

/-- A run that cannot render its files fails as the preview does and leaves the disk as it is. A run that can and
that is able to save each file on its turn succeeds: each file then reads as the last one that has its place, all
other files are as they were, no directory is lost, and the report lists each file once, in order, as unchanged if and
only if it was there on its turn. -/
theorem generate_refines_preview (p : Project) (d : Disk) :
    (∀ error, (p.preview d).outcome = .error error →
      (p.generate d).2.outcome = .error error ∧ (p.generate d).1 = d) ∧
    ∀ files, (p.preview d).outcome = .ok files → (∀ t ∈ d.turns files, t.1.Saves t.2) →
      (∀ f ∈ files, ∃ g, lastAt files (placeOf f.path) = some g ∧
        (p.generate d).1.readText f.path = .ok g.content) ∧
      (∀ place, (∀ f ∈ files, placeOf f.path ≠ place) → ∀ e, e ≠ .directory →
        ((p.generate d).1.get? place = some e ↔ d.get? place = some e)) ∧
      (∀ place, d.get? place = some .directory → (p.generate d).1.get? place = some .directory) ∧
      (d.turns files).map (·.2) = files ∧ (p.generate d).2.outcome = .ok (report (d.turns files)) := by
  refine ⟨fun error he => ?_, fun files hf hsaves => ?_⟩
  · simp [generate, he]
  · have ho := saveAll_of_saves hsaves
    obtain ⟨hd, hsaved⟩ := generate_eq hf
    rw [hd, hsaved]
    exact ⟨fun f hmem => readText_saveAll_last ho hmem, fun place hp e he => get?_saveAll ho hp he,
      keepsDirectories_saveAll ho, d.files_of_turns files, ho⟩

/-- A failure leaves the disk as it is, and of two files with one path the second stays. -/
theorem tagAnd_last_stays :
    (∃ error, ({ teamProject with schema := none }.preview {}).outcome = .error error ∧
      ({ teamProject with schema := none }.generate {}).2.outcome = .error error ∧
      ({ teamProject with schema := none }.generate {}).1 = {}) ∧
    ∃ p files g, openAt (tagAnd "NewTag") "t.toml" = .ok p ∧ (p.preview (tagAnd "NewTag")).outcome = .ok files ∧
      (∀ t ∈ (tagAnd "NewTag").turns files, t.1.Saves t.2) ∧ files[2]? = some g ∧
      (p.generate (tagAnd "NewTag")).1.readText "o/NewTag.ts" = .ok g.content ∧
      (p.generate (tagAnd "NewTag")).2.outcome =
        .ok { written := ["o/Tag.ts", "o/NewTag.ts", "o/NewTag.ts", "o/NewNewTag.ts"] } := by
  constructor
  · have hfails : ({ teamProject with schema := none }.preview {}).outcome.toOption = none := by decide +kernel
    cases he : ({ teamProject with schema := none }.preview {}).outcome with
    | ok files =>
      rw [he] at hfails
      cases hfails
    | error error => exact ⟨error, rfl, (generate_refines_preview { teamProject with schema := none } {}).1 error he⟩
  · have hrun : (filesAt (tagAnd "NewTag") "t.toml").map (fun files =>
        (decide (∀ t ∈ (tagAnd "NewTag").turns files, t.1.Saves t.2), report ((tagAnd "NewTag").turns files),
          (files[1]?).map (·.path), lastAt files (placeOf "o/NewTag.ts") == files[2]?)) =
        some (true, { written := ["o/Tag.ts", "o/NewTag.ts", "o/NewTag.ts", "o/NewNewTag.ts"] },
          some "o/NewTag.ts", true) := by
      decide +kernel
    obtain ⟨files, hfiles, heq⟩ := Option.map_eq_some_iff.1 hrun
    simp only [Prod.mk.injEq, decide_eq_true_eq, beq_iff_eq] at heq
    obtain ⟨hsaves, hreport, hsecond, hlast⟩ := heq
    obtain ⟨p, hp, hf⟩ := filesAt_eq_some hfiles
    obtain ⟨hreads, -, -, -, ho⟩ := (generate_refines_preview p (tagAnd "NewTag")).2 files hf hsaves
    obtain ⟨f, hmem, hpath⟩ := Option.map_eq_some_iff.1 hsecond
    obtain ⟨g, hg, hr⟩ := hreads f (List.mem_of_getElem? hmem)
    rw [hpath] at hg hr
    exact ⟨p, files, g, hp, hf, hsaves, hlast ▸ hg, hr, hreport ▸ ho⟩

/-- A project of an enum `NewTag` and the model `Tag`, with its `New` file. All go to one directory, which is spelled
in two ways. -/
def spelledTwice : Disk :=
  { entries := [
      (["t.toml"], .text ("[output]\nclasses=\"o\"\nenums=\"./o\"\n[sources]\nentities=[\"a.toml\",\"b.toml\"]\n" ++
        "[options]\nseparate_new_models=true\n")),
      (["a.toml"], .text "kind=\"enum\"\nname=\"NewTag\"\n"),
      (["b.toml"], .text "name=\"Tag\"\n")] }

/-- A file that is the only one of its path is lost to one that has its place under another path. -/
theorem spelledTwice_lost : ∃ p files f, openAt spelledTwice "t.toml" = .ok p ∧
    (p.preview spelledTwice).outcome = .ok files ∧
    files.map (·.path) = ["./o/NewTag.ts", "o/Tag.ts", "o/NewTag.ts"] ∧
    (∀ t ∈ spelledTwice.turns files, t.1.Saves t.2) ∧
    (p.generate spelledTwice).2.outcome = .ok { written := ["./o/NewTag.ts", "o/Tag.ts", "o/NewTag.ts"] } ∧
    f ∈ files ∧ (∀ g ∈ files, Path.same g.path f.path = true → g = f) ∧
    (p.generate spelledTwice).1.readText f.path ≠ .ok f.content := by
  have hrun : (filesAt spelledTwice "t.toml").map (fun files => (files.map (·.path),
      decide (∀ t ∈ spelledTwice.turns files, t.1.Saves t.2), report (spelledTwice.turns files),
      decide (∃ f ∈ files, (∀ g ∈ files, Path.same g.path f.path = true → g = f) ∧
        ((spelledTwice.saveAll files).1.readText f.path).toOption ≠ some f.content))) =
      some (["./o/NewTag.ts", "o/Tag.ts", "o/NewTag.ts"], true,
        { written := ["./o/NewTag.ts", "o/Tag.ts", "o/NewTag.ts"] }, true) := by
    decide +kernel
  obtain ⟨files, hfiles, heq⟩ := Option.map_eq_some_iff.1 hrun
  simp only [Prod.mk.injEq, decide_eq_true_eq] at heq
  obtain ⟨hpaths, hsaves, hreport, f, hmem, halone, hlost⟩ := heq
  obtain ⟨p, hp, hf⟩ := filesAt_eq_some hfiles
  obtain ⟨hd, hsaved⟩ := generate_eq hf
  refine ⟨p, files, f, hp, hf, hpaths, hsaves, ?_, hmem, halone, ?_⟩
  · rw [hsaved, saveAll_of_saves hsaves, hreport]
  · rw [hd]
    exact fun hr => hlost (toOption_eq_some.2 hr)

end Project

end EntityScript
