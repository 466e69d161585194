import Mathlib.Data.List.DropRight
import EntityScript.Proofs.Saving
/-!
# Paths of files

A path leads to a folder with all that stands before its last piece, and from there it is one step to the file,
whether paths are compared by their components or by the place on the disk that they lead to.
-/

namespace EntityScript

/-! ## Pieces -/

namespace Path

theorem pieces_append (base path : String) : pieces (base ++ "/" ++ path) = pieces base ++ pieces path := by
  have h := Text.splitWhere_append (p := (· == '/')) (c := '/') rfl base.toList path.toList
  simpa [pieces] using h

theorem pieces_slash (base : String) : pieces (base ++ "/") = pieces base ++ [[]] :=
  (congrArg pieces (by simp)).trans (pieces_append base "")

theorem isAbsolute_append {base : String} (path : String) (h : base ≠ "") :
    isAbsolute (base ++ path) = isAbsolute base := by
  have hb : base.toList ≠ [] := by simpa using h
  simp [isAbsolute, List.head?_append_of_ne_nil _ hb]

/-! ## Folders -/

/-- A path up to its last slash. -/
def folder (path : String) : String :=
  String.ofList (path.toList.rdropWhile (· != '/'))

/-- What stands after the last slash of a path. -/
def fileName (path : String) : String :=
  String.ofList (path.toList.rtakeWhile (· != '/'))

/-- A text that leads into a directory: none, or one that ends in a slash. -/
def Leads (path : String) : Prop :=
  path = "" ∨ ∃ base, path = base ++ "/"

theorem folder_append_fileName (path : String) : folder path ++ fileName path = path :=
  String.toList_injective (by simp [folder, fileName, List.rdropWhile_append_rtakeWhile])

theorem slash_not_mem_fileName (path : String) : '/' ∉ (fileName path).toList := by
  intro h
  have := List.mem_rtakeWhile_imp (by simpa [fileName] using h)
  simp at this

theorem leads_folder (path : String) : Leads (folder path) := by
  by_cases h : path.toList.rdropWhile (· != '/') = []
  · exact .inl (by simp [folder, h])
  · refine .inr ⟨String.ofList (path.toList.rdropWhile (· != '/')).dropLast, String.toList_injective ?_⟩
    have hlast := List.rdropWhile_last_not (· != '/') path.toList h
    have hslash : (path.toList.rdropWhile (· != '/')).getLast h = '/' := by simpa using hlast
    have hsplit := List.dropLast_append_getLast h
    rw [hslash] at hsplit
    simpa [folder] using hsplit.symm

/-- A name without slashes is all of its path. -/
theorem folder_of_slashless {name : String} (h : '/' ∉ name.toList) : folder name = "" ∧ fileName name = name := by
  have hall : ∀ c ∈ name.toList, c != '/' := by
    intro c hc
    rw [bne_iff_ne]
    rintro rfl
    exact h hc
  refine ⟨?_, ?_⟩
  · simp [folder, List.rdropWhile_eq_nil_iff.2 hall]
  · simp [fileName, List.rtakeWhile_eq_self_iff.2 hall]

theorem join_append {base path rest : String} (h : isAbsolute (path ++ rest) = isAbsolute path) :
    join base (path ++ rest) = join base path ++ rest := by
  unfold join
  rw [h]
  split <;> simp [String.append_assoc]

theorem leads_join {path : String} (base : String) (h : Leads path) : Leads (join base path) := by
  obtain rfl | ⟨above, rfl⟩ := h
  · by_cases hb : base = ""
    · exact .inl (by simp [hb, join, isAbsolute])
    · by_cases hl : base.toList.getLast? = some '/'
      · obtain ⟨front, hfront⟩ := List.getLast?_eq_some_iff.1 hl
        refine .inr ⟨String.ofList front, ?_⟩
        have hbase : base = String.ofList front ++ "/" := String.toList_injective (by simp [hfront])
        simp [join, hl, ← hbase, isAbsolute]
      · exact .inr ⟨base, by simp [join, hb, hl, isAbsolute]⟩
  · unfold join
    split
    · exact .inr ⟨_, String.append_assoc.symm⟩
    · exact .inr ⟨base ++ "/" ++ above, by simp [String.append_assoc]⟩

/-- The text of a name that stands as one piece of a path. -/
structure IsPiece (name : String) : Prop where
  slash : '/' ∉ name.toList
  idle : name ≠ "" ∧ name ≠ "."
  up : name ≠ ".."

theorem pieces_of_isPiece {name : String} (h : IsPiece name) : pieces name = [name.toList] :=
  Text.splitWhere_of_forall fun _ hc => beq_eq_false_iff_ne.2 fun he => h.slash (he ▸ hc)

theorem pieceStep_of_isPiece {name : String} (h : IsPiece name) : pieceStep name.toList = .child name := by
  have h1 : name.toList ≠ ['.'] := fun he => h.idle.2 (String.toList_injective he)
  have h2 : name.toList ≠ ['.', '.'] := fun he => h.up (String.toList_injective he)
  simp [pieceStep, h.idle.1, h1, h2]

theorem isAbsolute_of_isPiece {name : String} (h : IsPiece name) : isAbsolute name = false := by
  unfold isAbsolute
  cases hc : name.toList with
  | nil => rfl
  | cons c cs =>
    refine beq_eq_false_iff_ne.2 fun he => h.slash ?_
    simp [hc, Option.some.inj he]

/-- What follows a slash adds its steps to the components. -/
theorem components_below {path : String} (rest : String) (h : Leads path) (hne : path ≠ "") :
    components (path ++ rest) = components path ++ ((pieces rest).map pieceStep).filter (· != .here) := by
  obtain ⟨base, rfl⟩ := h.resolve_left hne
  have hhead : ∀ ps, (pieces base ++ ps).head? = (pieces base).head? := by
    intro ps
    exact List.head?_append_of_ne_nil _ (Text.splitWhere_ne_nil _ _)
  simp only [components, pieces_append, pieces_slash, isAbsolute_append rest hne, hhead, List.map_append,
    List.filter_append]
  simp [pieceStep]

/-- A file is the last component of its path. -/
theorem components_append {path file : String} (h : Leads path) (hf : IsPiece file) :
    components (path ++ file) = components path ++ [.child file] := by
  have hmap : ((pieces file).map pieceStep).filter (· != .here) = [.child file] := by
    simp only [pieces_of_isPiece hf, List.map_cons, List.map_nil, pieceStep_of_isPiece hf]
    rfl
  by_cases hne : path = ""
  · have hdot : file.toList ≠ ['.'] := fun he => hf.idle.2 (String.toList_injective he)
    have hempty : components "" = [] := rfl
    rw [hne, hempty, String.empty_append, components, isAbsolute_of_isPiece hf, hmap, pieces_of_isPiece hf]
    simp [hdot]
  · rw [components_below file h hne, hmap]

/-- A slash at the end says nothing. -/
theorem components_slash {base : String} (h : base ≠ "") : components (base ++ "/") = components base := by
  have hhead : (pieces base ++ [[]]).head? = (pieces base).head? :=
    List.head?_append_of_ne_nil _ (Text.splitWhere_ne_nil _ _)
  simp only [components, pieces_slash, isAbsolute_append "/" h, hhead, List.map_append, List.filter_append]
  simp [pieceStep]

theorem components_join_empty (base : String) : components (join base "") = components base := by
  have habs : isAbsolute "" = false := by simp [isAbsolute]
  by_cases hb : base = "" ∨ base.toList.getLast? = some '/'
  · have hjoin : join base "" = base := by
      rcases hb with rfl | hl
      · simp [join, habs]
      · simp [join, habs, hl]
    rw [hjoin]
  · rw [not_or] at hb
    have hjoin : join base "" = base ++ "/" := by simp [join, habs, hb.1, hb.2]
    rw [hjoin, components_slash hb.1]

end Path

/-! ## Places -/

namespace Disk

/-- The place of a path is where its components lead. -/
theorem placeOf_eq_foldl (path : String) : placeOf path = (Path.components path).foldl stepFrom [] := by
  have hhere (ss : List Path.Step) (place : Place) :
      (ss.filter (· != .here)).foldl stepFrom place = ss.foldl stepFrom place := by
    induction ss generalizing place with
    | nil => rfl
    | cons s ss ih => cases s <;> simp [stepFrom, ih]
  rw [placeOf, Path.steps, Path.components, List.foldl_append, List.foldl_append, hhere]
  congr 1
  split
  · rfl
  · split <;> rfl

end Disk

end EntityScript
