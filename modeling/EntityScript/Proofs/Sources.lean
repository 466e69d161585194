import EntityScript.Proofs.Outcome
import EntityScript.Run.Project
import EntityScript.Signal.Parser
/-!
# Descriptions of a project

A project opens only if every description in it passes its checks, so the names of its entities are words.
-/

namespace EntityScript

/-- A name is a word if it has nothing but letters and digits of ASCII and underscores. -/
def IsWord (name : String) : Prop :=
  name ≠ "" ∧ ∀ c ∈ name.toList, Text.isWordChar c

instance (name : String) : Decidable (IsWord name) :=
  decidable_of_iff (name ≠ "" ∧ name.toList.all Text.isWordChar) (by simp [IsWord])

theorem Identifier.isWord_of_check {src role name : String} (h : check src role name = .ok ()) : IsWord name := by
  unfold check fault? at h
  split at h
  · cases h
  · rename_i hf
    split at hf
    · cases hf
    · rename_i c cs hname
      split at hf
      · cases hf
      · rename_i hc
        split at hf
        · cases hf
        · rename_i hcs
          refine ⟨by rintro rfl; simp at hname, ?_⟩
          simp only [hname, List.forall_mem_cons]
          simp only [Bool.not_eq_true', Bool.not_eq_false, List.all_eq_true, Bool.or_eq_true] at hc hcs
          refine ⟨?_, hcs⟩
          simp only [Text.isWordChar, Bool.or_eq_true]
          exact hc.imp_left fun h => by simp [Char.isAlphanum, h]

theorem IsWord.isNameChar {name : String} (h : IsWord name) : ∀ c ∈ name.toList, Signal.isNameChar c := by
  intro c hc
  have hw := h.2 c hc
  simp only [Text.isWordChar, Bool.or_eq_true] at hw
  rcases hw with hw | hw
  · simp [Signal.isNameChar, Text.isAlphanumeric, Text.toNat_lt_of_isAlphanum hw, hw]
  · simp [Signal.isNameChar, hw]

theorem IsWord.append {a b : String} (ha : IsWord a) (hb : IsWord b) : IsWord (a ++ b) := by
  refine ⟨by simp [ha.1], fun c hc => ?_⟩
  rw [String.toList_append, List.mem_append] at hc
  exact hc.elim (ha.2 c) (hb.2 c)

theorem IsWord.slashless {name : String} (h : IsWord name) : '/' ∉ name.toList := fun hs =>
  absurd (h.2 _ hs) (by decide)

theorem EntitySource.isWord_of_check {src : String} {s : EntitySource} (h : s.check src = .ok ()) :
    IsWord s.name := by
  cases s with
  | model m =>
    simp only [check, ModelSource.check, bind_eq_ok] at h
    obtain ⟨_, hname, -⟩ := h
    exact Identifier.isWord_of_check hname
  | enumeration e =>
    simp only [check, EnumSource.check, bind_eq_ok] at h
    obtain ⟨_, hname, -⟩ := h
    exact Identifier.isWord_of_check hname

/-! ## Opening a project -/

namespace Project

theorem load_eq_ok {α : Type} {parse : String → String → Except InputError α} {d : Disk} {path : String} {a : α} :
    load parse d path = .ok a ↔ ∃ src, d.readText path = .ok src ∧ parse path src = .ok a := by
  unfold load
  cases d.readText path <;> simp

theorem check_of_parse {file src : String} {s : EntitySource} (h : EntitySource.parse file src = .ok s) :
    s.check src = .ok () := by
  unfold EntitySource.parse at h
  split at h
  · cases h
  · split at h
    · rename_i hc
      cases h
      exact hc
    · cases h

/-- Descriptions that were loaded passed their checks. -/
theorem check_of_loadSources {d : Disk} {seen files : List SourceFile} {paths : List String}
    (h : loadSources d seen paths = .ok files) : ∀ s ∈ files, ∃ src, s.entity.check src = .ok () := by
  induction paths generalizing seen files with
  | nil =>
    cases h
    simp
  | cons path paths ih =>
    simp only [loadSources, bind_eq_ok] at h
    obtain ⟨entity, he, h⟩ := h
    split at h
    · cases h
    · obtain ⟨rest, hr, h⟩ := bind_eq_ok.1 h
      cases h
      obtain ⟨src, -, hsrc⟩ := load_eq_ok.1 he
      exact List.forall_mem_cons.2 ⟨⟨src, check_of_parse hsrc⟩, ih hr⟩

theorem check_of_openAt {d : Disk} {config : String} {p : Project} (h : openAt d config = .ok p) :
    ∀ s ∈ p.sources, ∃ src, s.entity.check src = .ok () := by
  simp only [openAt, ofConfig, bind_eq_ok] at h
  obtain ⟨c, -, schema, -, paths, -, sources, hs, h⟩ := h
  cases h
  exact check_of_loadSources hs

/-- The descriptions of a project that opens have words for names. -/
theorem isWord_of_openAt {d : Disk} {config : String} {p : Project} (h : openAt d config = .ok p) :
    ∀ s ∈ p.sources, IsWord s.entity.name := by
  intro s hs
  obtain ⟨src, hc⟩ := check_of_openAt h s hs
  exact EntitySource.isWord_of_check hc

/-- No two descriptions that were loaded have one name. -/
theorem names_of_loadSources {d : Disk} {seen files : List SourceFile} {paths : List String}
    (h : loadSources d seen paths = .ok files) :
    (∀ s ∈ files, ∀ s' ∈ seen, s.entity.name ≠ s'.entity.name) ∧
      files.Pairwise fun s s' => s.entity.name ≠ s'.entity.name := by
  induction paths generalizing seen files with
  | nil =>
    cases h
    simp
  | cons path paths ih =>
    simp only [loadSources, bind_eq_ok] at h
    obtain ⟨entity, -, h⟩ := h
    split at h
    · cases h
    · rename_i hseen
      obtain ⟨rest, hr, h⟩ := bind_eq_ok.1 h
      cases h
      obtain ⟨hbefore, hrest⟩ := ih hr
      rw [List.find?_eq_none] at hseen
      refine ⟨List.forall_mem_cons.2 ⟨fun s' hs' he => hseen s' hs' (beq_iff_eq.2 he.symm), fun s hs s' hs' => ?_⟩,
        List.pairwise_cons.2 ⟨fun s hs => (hbefore s hs _ List.mem_cons_self).symm, hrest⟩⟩
      exact hbefore s hs s' (List.mem_cons_of_mem _ hs')

/-- No two descriptions of a project that opens have one name. -/
theorem names_of_openAt {d : Disk} {config : String} {p : Project} (h : openAt d config = .ok p) :
    p.sources.Pairwise fun s s' => s.entity.name ≠ s'.entity.name := by
  simp only [openAt, ofConfig, bind_eq_ok] at h
  obtain ⟨c, -, schema, -, paths, -, sources, hs, h⟩ := h
  cases h
  exact (names_of_loadSources hs).2

end Project

end EntityScript
