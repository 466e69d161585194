import EntityScript.Proofs.Outcome
import EntityScript.Run.Generate
/-!
# Saving files

Paths that lead to one place read alike. A saved file reads as it was saved until another one is saved
in its place, and a run that saves nothing new leaves the disk as it is.
-/

namespace EntityScript.Disk

variable {d d' : Disk} {path content : String}

/-! ## Places -/

/-- The place that a path leads to. -/
def placeOf (path : String) : Place :=
  (Path.steps path).foldl stepFrom []

theorem get?_put_of_ne (d : Disk) {p q : Place} (e : DiskEntry) (h : q ≠ p) :
    (d.put p e).get? q = d.get? q := by
  unfold get? put
  split
  · rfl
  · simp only [List.lookup_cons, beq_eq_false_iff_ne.2 h]
    induction d.entries with
    | nil => rfl
    | cons x xs ih =>
      obtain ⟨r, y⟩ := x
      by_cases hr : r = p
      · simp [hr, ih, List.lookup_cons, beq_eq_false_iff_ne.2 h]
      · simp [hr, ih, List.lookup_cons]

theorem walk_eq {p q : Place} {steps : List Path.Step} (h : d.walk p steps = .ok q) :
    q = steps.foldl stepFrom p := by
  induction steps generalizing p with
  | nil => simpa [walk] using h.symm
  | cons s steps ih =>
    simp only [walk] at h
    split at h
    · split at h
      · cases h
      · exact ih h
    · cases h
    · cases h

theorem locate_eq {p : Place} (h : d.locate path = .ok p) : p = placeOf path := by
  unfold locate at h
  split at h
  · cases h
  · split at h
    · cases h
    · split at h
      · cases h
      · exact walk_eq h

theorem readText_eq_ok : d.readText path = .ok content ↔
    d.locate path = .ok (placeOf path) ∧ d.get? (placeOf path) = some (.text content) := by
  unfold readText
  constructor
  · intro h
    split at h
    · cases h
    · rename_i p hp
      obtain rfl := locate_eq hp
      refine ⟨hp, ?_⟩
      split at h <;> simp_all
  · rintro ⟨hp, hc⟩
    simp [hp, hc]

/-- Paths to one place read alike. -/
theorem readText_of_place {path' content' : String} (hp : placeOf path = placeOf path')
    (h : d.readText path = .ok content) (h' : d.readText path' = .ok content') : content = content' := by
  obtain ⟨-, hc⟩ := readText_eq_ok.1 h
  obtain ⟨-, hc'⟩ := readText_eq_ok.1 h'
  rw [hp, hc'] at hc
  simpa using hc.symm

/-! ## What stays -/

/-- Directories stay directories. -/
def KeepsDirectories (d d' : Disk) : Prop :=
  ∀ p, d.get? p = some .directory → d'.get? p = some .directory

/-- Everything stays as it is; more may come. -/
def Extends (d d' : Disk) : Prop :=
  ∀ p e, d.get? p = some e → d'.get? p = some e

theorem Extends.keepsDirectories (h : Extends d d') : KeepsDirectories d d' :=
  fun p => h p .directory

theorem KeepsDirectories.walk (h : KeepsDirectories d d') {p q : Place} {steps : List Path.Step}
    (hw : d.walk p steps = .ok q) : d'.walk p steps = .ok q := by
  induction steps generalizing p with
  | nil => exact hw
  | cons s steps ih =>
    simp only [Disk.walk] at hw ⊢
    split at hw
    · rename_i hp
      rw [h p hp]
      split at hw
      · cases hw
      · rename_i hs
        simp only [hs]
        exact ih hw
    · cases hw
    · cases hw

theorem KeepsDirectories.locate (h : KeepsDirectories d d') {p : Place} (hl : d.locate path = .ok p) :
    d'.locate path = .ok p := by
  unfold Disk.locate at hl ⊢
  split at hl
  · cases hl
  · split at hl
    · cases hl
    · split at hl
      · cases hl
      · simp_all [h.walk hl]

theorem keepsDirectories_put {p : Place} (h : d.get? p ≠ some .directory) (e : DiskEntry) :
    KeepsDirectories d (d.put p e) := by
  intro q hq
  rw [get?_put_of_ne d e (by rintro rfl; exact h hq), hq]

theorem addDirectory_extends {p : Place} (h : d.addDirectory p = .ok d') : Extends d d' := by
  intro q e hq
  unfold addDirectory at h
  split at h
  · cases h; exact hq
  · cases h
  · rename_i hp
    cases h
    rw [get?_put_of_ne d _ (by rintro rfl; simp [hp] at hq), hq]

/-- What comes in addition is directories. -/
def OnlyDirectories (d d' : Disk) : Prop :=
  ∀ p e, e ≠ .directory → d'.get? p = some e → d.get? p = some e

theorem addDirectory_only {p : Place} (h : d.addDirectory p = .ok d') : OnlyDirectories d d' := by
  intro q e he hq
  unfold addDirectory at h
  split at h
  · cases h; exact hq
  · cases h
  · rename_i hp
    cases h
    by_cases hqp : q = p
    · subst hqp
      have ha : isAnchor q = false := by
        cases ha : isAnchor q
        · rfl
        · simp [get?, ha] at hp
      rw [get?_put_self d _ ha] at hq
      exact absurd (Option.some.inj hq).symm he
    · rwa [get?_put_of_ne d _ hqp] at hq

theorem makeDirectories_only (d : Disk) (p : Place) (steps : List Path.Step) :
    OnlyDirectories d (d.makeDirectories p steps).1 := by
  induction steps generalizing d p with
  | nil => exact fun _ _ _ h => h
  | cons s steps ih =>
    unfold makeDirectories
    split
    · exact fun _ _ _ h => h
    · split
      · rename_i d₁ hd
        exact fun q e he hq => addDirectory_only hd q e he (ih d₁ _ q e he hq)
      · exact fun _ _ _ h => h

theorem makeDirectories_extends (d : Disk) (p : Place) (steps : List Path.Step) :
    Extends d (d.makeDirectories p steps).1 := by
  induction steps generalizing d p with
  | nil => exact fun _ _ h => h
  | cons s steps ih =>
    unfold makeDirectories
    split
    · exact fun _ _ h => h
    · split
      · rename_i d₁ hd
        exact fun q e hq => ih d₁ _ q e (addDirectory_extends hd q e hq)
      · exact fun _ _ h => h

/-! ## Saving a file -/

theorem writeText_spec (h : d.writeText path content = .ok d') :
    d.locate path = .ok (placeOf path) ∧ d.get? (placeOf path) ≠ some .directory ∧
      d' = d.put (placeOf path) (.text content) := by
  unfold writeText at h
  split at h
  · cases h
  · split at h
    · cases h
    · rename_i p hp
      obtain rfl := locate_eq hp
      split at h
      · cases h
      · rename_i hd
        cases h
        exact ⟨hp, hd, rfl⟩

theorem readText_writeText (h : d.writeText path content = .ok d') : d'.readText path = .ok content := by
  obtain ⟨hl, hd, rfl⟩ := writeText_spec h
  have ha : isAnchor (placeOf path) = false := by
    cases ha : isAnchor (placeOf path)
    · rfl
    · exact absurd (by simp [get?, ha]) hd
  exact readText_eq_ok.2 ⟨(keepsDirectories_put hd _).locate hl, get?_put_self d _ ha⟩

/-- A file elsewhere reads as before, one in the same place as what is written. -/
theorem readText_writeText_other {path' content' : String} (h : d.writeText path content = .ok d')
    (hr : d.readText path' = .ok content') :
    d'.readText path' = .ok (if placeOf path = placeOf path' then content else content') := by
  obtain ⟨-, hw⟩ := readText_eq_ok.1 (readText_writeText h)
  obtain ⟨hl, hc⟩ := readText_eq_ok.1 hr
  obtain ⟨-, hd, rfl⟩ := writeText_spec h
  refine readText_eq_ok.2 ⟨(keepsDirectories_put hd _).locate hl, ?_⟩
  split
  · rename_i hp
    rw [← hp, hw]
  · rename_i hp
    rw [get?_put_of_ne d _ (Ne.symm hp), hc]

theorem Extends.readText (h : Extends d d') (hr : d.readText path = .ok content) :
    d'.readText path = .ok content := by
  obtain ⟨hl, hc⟩ := readText_eq_ok.1 hr
  exact readText_eq_ok.2 ⟨h.keepsDirectories.locate hl, h _ _ hc⟩

theorem readExisting_eq_some {existing : Option String} (h : OutputFile.readExisting d path = .ok existing) :
    existing = some content ↔ d.readText path = .ok content := by
  unfold OutputFile.readExisting Disk.readExisting at h
  cases hr : d.readText path with
  | ok c =>
    rw [hr] at h
    cases h
    simp
  | error fault =>
    rw [hr] at h
    have hnone : existing = none := by
      cases fault <;> cases h
      rfl
    simp [hnone]

/-- A file is saved by leaving the disk as it is, if it reads so, and else by writing it below
directories that are there or are made. -/
theorem save_spec {f : OutputFile} {written : Bool} (h : d.save f = (d', .ok written)) :
    written = false ∧ d' = d ∧ d.readText f.path = .ok f.content ∨
    written = true ∧ d.readText f.path ≠ .ok f.content ∧
      ∃ d₁, Extends d d₁ ∧ OnlyDirectories d d₁ ∧ d₁.writeText f.path f.content = .ok d' := by
  unfold save at h
  split at h
  · cases h
  · rename_i existing he
    split at h
    · rename_i hc
      cases h
      exact .inl ⟨rfl, rfl, (readExisting_eq_some he).1 hc⟩
    · rename_i hc
      refine .inr ?_
      have hext := d.makeDirectories_extends [] (Path.steps ((Path.parent? f.path).getD ""))
      have honly := d.makeDirectories_only [] (Path.steps ((Path.parent? f.path).getD ""))
      simp only at h
      split at h
      · cases h
      · rename_i d₁ hm
        rw [makeDirectory] at hm
        rw [hm] at hext honly
        split at h
        · cases h
        · rename_i d₂ hw
          cases h
          exact ⟨rfl, fun hr => hc ((readExisting_eq_some he).2 hr), d₁, hext, honly, hw⟩

theorem save_of_readText {f : OutputFile} (h : d.readText f.path = .ok f.content) :
    d.save f = (d, .ok false) := by
  simp [save, OutputFile.readExisting, Disk.readExisting, h]

theorem readText_save {f : OutputFile} {written : Bool} (h : d.save f = (d', .ok written)) :
    d'.readText f.path = .ok f.content := by
  rcases save_spec h with ⟨-, rfl, hr⟩ | ⟨-, -, d₁, -, -, hw⟩
  · exact hr
  · exact readText_writeText hw

/-- A file reads as before unless another one is saved in its place. -/
theorem readText_save_other {f : OutputFile} {written : Bool} (h : d.save f = (d', .ok written))
    (hr : d.readText path = .ok content) :
    d'.readText path = .ok (if placeOf f.path = placeOf path then f.content else content) := by
  rcases save_spec h with ⟨-, rfl, hf⟩ | ⟨-, -, d₁, hext, -, hw⟩
  · split
    · rename_i hp
      rw [readText_of_place hp hf hr, hr]
    · exact hr
  · exact readText_writeText_other hw (hext.readText hr)

/-! ## Saving files in turn -/

/-- The summary with one more file in front. -/
def record (path : String) (written : Bool) (s : RunSummary) : RunSummary :=
  if written then { s with written := path :: s.written } else { s with unchanged := path :: s.unchanged }

theorem saveAll_cons {d₁ : Disk} {f : OutputFile} {written : Bool} (fs : List OutputFile)
    (h : d.save f = (d₁, .ok written)) :
    (d.saveAll (f :: fs)).1 = (d₁.saveAll fs).1 ∧
      (d.saveAll (f :: fs)).2.outcome = (d₁.saveAll fs).2.outcome.map (record f.path written) := by
  simp only [saveAll, h]
  cases written <;> refine ⟨rfl, ?_⟩ <;> simp only [Logged.outcome_bind] <;> rfl

/-- If files could be saved in turn, then the first could be and the others after it. -/
theorem saveAll_cons_eq_ok {f : OutputFile} {fs : List OutputFile} {s : RunSummary}
    (h : (d.saveAll (f :: fs)).2.outcome = .ok s) :
    ∃ d₁ written s₁, d.save f = (d₁, .ok written) ∧ (d.saveAll (f :: fs)).1 = (d₁.saveAll fs).1 ∧
      (d₁.saveAll fs).2.outcome = .ok s₁ ∧ s = record f.path written s₁ := by
  rcases hs : d.save f with ⟨d₁, e | written⟩
  · simp only [saveAll, hs] at h
    cases h
  · obtain ⟨hd, ho⟩ := saveAll_cons fs hs
    rw [ho] at h
    cases hr : (d₁.saveAll fs).2.outcome with
    | error e => rw [hr] at h; cases h
    | ok s₁ =>
      rw [hr] at h
      cases h
      exact ⟨d₁, written, s₁, rfl, hd, hr, rfl⟩

/-- The last of the files that go to a place. -/
def lastAt (fs : List OutputFile) (place : Place) : Option OutputFile :=
  fs.reverse.find? fun f => placeOf f.path == place

theorem lastAt_cons (f : OutputFile) (fs : List OutputFile) (place : Place) :
    lastAt (f :: fs) place = (lastAt fs place).or (if placeOf f.path = place then some f else none) := by
  by_cases h : placeOf f.path = place <;> simp [lastAt, List.find?_append, h]

/-- A file that reads before files are saved reads afterwards as the last one that is saved in its place, or as it
was if there is none. -/
theorem readText_saveAll_of_readText {fs : List OutputFile} {s : RunSummary}
    (h : (d.saveAll fs).2.outcome = .ok s) (hr : d.readText path = .ok content) :
    (d.saveAll fs).1.readText path = .ok ((lastAt fs (placeOf path)).elim content (·.content)) := by
  induction fs generalizing d content s with
  | nil => exact hr
  | cons f fs ih =>
    obtain ⟨d₁, written, s₁, hs, hd, ho, -⟩ := saveAll_cons_eq_ok h
    rw [hd, ih ho (readText_save_other hs hr), lastAt_cons]
    cases lastAt fs (placeOf path) with
    | some g => rfl
    | none => split <;> rfl

/-- After files are saved, each of them reads as the last one that has its place. -/
theorem readText_saveAll_last {fs : List OutputFile} {s : RunSummary} (h : (d.saveAll fs).2.outcome = .ok s)
    {f : OutputFile} (hf : f ∈ fs) : ∃ g, lastAt fs (placeOf f.path) = some g ∧
      (d.saveAll fs).1.readText f.path = .ok g.content := by
  induction fs generalizing d s with
  | nil => cases hf
  | cons x fs ih =>
    obtain ⟨d₁, written, s₁, hs, hd, ho, -⟩ := saveAll_cons_eq_ok h
    rw [hd, lastAt_cons]
    rcases List.mem_cons.1 hf with rfl | hf
    · rw [readText_saveAll_of_readText ho (readText_save hs), if_pos rfl]
      cases lastAt fs (placeOf f.path) with
      | some g => exact ⟨g, rfl, rfl⟩
      | none => exact ⟨f, rfl, rfl⟩
    · obtain ⟨g, hg, hr⟩ := ih ho hf
      exact ⟨g, by rw [hg, Option.some_or], hr⟩

/-- After files are saved, each of them reads as one of them that has its place. -/
theorem readText_saveAll {fs : List OutputFile} {s : RunSummary} (h : (d.saveAll fs).2.outcome = .ok s)
    {f : OutputFile} (hf : f ∈ fs) :
    ∃ g ∈ fs, placeOf g.path = placeOf f.path ∧ (d.saveAll fs).1.readText f.path = .ok g.content := by
  obtain ⟨g, hg, hr⟩ := readText_saveAll_last h hf
  have hmem := List.mem_of_find?_eq_some hg
  have hplace := List.find?_some hg
  exact ⟨g, List.mem_reverse.1 hmem, beq_iff_eq.1 hplace, hr⟩

/-- All files are reported unchanged if and only if each of them reads as it is to be saved. -/
theorem saveAll_unchanged_iff {fs : List OutputFile} :
    (d.saveAll fs).2.outcome = .ok { written := [], unchanged := fs.map (·.path) } ↔
      ∀ f ∈ fs, d.readText f.path = .ok f.content := by
  induction fs with
  | nil => simp [saveAll]
  | cons f fs ih =>
    constructor
    · intro h
      obtain ⟨d₁, written, s₁, hs, -, ho, heq⟩ := saveAll_cons_eq_ok h
      rcases save_spec hs with ⟨rfl, rfl, hr⟩ | ⟨rfl, -⟩
      · have hs₁ : s₁ = { written := [], unchanged := fs.map (·.path) } := by
          cases s₁
          simpa [record, eq_comm] using heq
        rw [hs₁] at ho
        exact List.forall_mem_cons.2 ⟨hr, ih.1 ho⟩
      · simp [record] at heq
    · intro h
      obtain ⟨hf, hfs⟩ := List.forall_mem_cons.1 h
      rw [(saveAll_cons fs (save_of_readText hf)).2, ih.2 hfs]
      rfl

/-- Saving what is there changes nothing. -/
theorem saveAll_eq_self {fs : List OutputFile} (h : ∀ f ∈ fs, d.readText f.path = .ok f.content) :
    (d.saveAll fs).1 = d := by
  induction fs with
  | nil => rfl
  | cons f fs ih =>
    obtain ⟨hf, hfs⟩ := List.forall_mem_cons.1 h
    rw [(saveAll_cons fs (save_of_readText hf)).1, ih hfs]

end EntityScript.Disk
