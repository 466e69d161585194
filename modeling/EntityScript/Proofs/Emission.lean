import Mathlib.Logic.Function.Iterate
import EntityScript.Proofs.Layout
/-!
# Emitted fragments

A writer goes through fragments with a level that it moves up and down. What it leaves is said without that level:
each piece of the fragments stands behind the indentation of its depth, or behind none, and the writer is at the level
at which it started.
-/

namespace EntityScript

/-- What is written in one go. -/
inductive Piece
  /-- Text behind the indentation of a depth of nesting. -/
  | indented (depth : Nat) (text : String)
  /-- Text as it stands. -/
  | bare (text : String)

namespace Piece

/-- The text of a piece among fragments that are written at a level. -/
def text (unit : String) (level : Nat) : Piece → String
  | indented depth s => Text.copies unit (level + depth) ++ s
  | bare s => s

/-- The text of pieces in a row. -/
def texts (unit : String) (level : Nat) (pieces : List Piece) : String :=
  Text.join "" (pieces.map (text unit level))

@[simp] theorem texts_nil (unit : String) (level : Nat) : texts unit level [] = "" := rfl

@[simp] theorem texts_cons (unit : String) (level : Nat) (piece : Piece) (pieces : List Piece) :
    texts unit level (piece :: pieces) = piece.text unit level ++ texts unit level pieces :=
  Text.join_empty_cons _ _

@[simp] theorem texts_append (unit : String) (level : Nat) (pieces more : List Piece) :
    texts unit level (pieces ++ more) = texts unit level pieces ++ texts unit level more := by
  rw [texts, List.map_append, Text.join_empty_append]
  rfl

end Piece

namespace Fragment

mutual

/-- The pieces of a fragment at a depth. Those of the body of a block are one deeper than its header and its closing
line. -/
def pieces (depth : Nat) : Fragment → List Piece
  | line s => [.indented depth (s ++ "\n")]
  | blank => [.bare "\n"]
  | raw s => [.bare s]
  | indentedRaw s => [.indented depth s]
  | block header body close =>
    .indented depth (header ++ "\n") :: allPieces (depth + 1) body ++
      close.toList.map fun s => .indented depth (s ++ "\n")

/-- The pieces of fragments in a row. -/
def allPieces (depth : Nat) : List Fragment → List Piece
  | [] => []
  | fragment :: fragments => pieces depth fragment ++ allPieces depth fragments

end

theorem lineText_eq (unit : String) (level depth : Nat) (s : String) :
    lineText unit (level + depth) s = (Piece.indented depth (s ++ "\n")).text unit level :=
  String.append_assoc

mutual

/-- A fragment inside others is the text of its pieces. -/
theorem text_eq_texts (unit : String) (level depth : Nat) :
    (f : Fragment) → f.text unit (level + depth) = Piece.texts unit level (f.pieces depth)
  | line s => by simp [text, pieces, lineText_eq]
  | blank => by simp [text, pieces, Piece.text]
  | raw s => by simp [text, pieces, Piece.text]
  | indentedRaw s => by simp [text, pieces, Piece.text]
  | block header body close => by
    have hbody := texts_eq_texts unit level (depth + 1) body
    rw [← Nat.add_assoc] at hbody
    cases close <;> simp [text, pieces, hbody, lineText_eq, String.append_assoc]

theorem texts_eq_texts (unit : String) (level depth : Nat) :
    (fs : List Fragment) → texts unit (level + depth) fs = Piece.texts unit level (allPieces depth fs)
  | [] => by simp [texts, allPieces]
  | f :: fs => by
    rw [texts, allPieces, Piece.texts_append, text_eq_texts, texts_eq_texts]

end

end Fragment

namespace Writer

theorem emitAll_eq_pieces (w : Writer) (fs : List Fragment) :
    w.emitAll fs = { w with text := w.text ++ Piece.texts w.unit w.level (Fragment.allPieces 0 fs) } := by
  have htexts := Fragment.texts_eq_texts w.unit w.level 0 fs
  rw [Nat.add_zero] at htexts
  rw [emitAll_eq, htexts, raw]

/-- Fragments in a row are written in turn. -/
theorem emitAll_append (w : Writer) (fs gs : List Fragment) : w.emitAll (fs ++ gs) = (w.emitAll fs).emitAll gs := by
  induction fs generalizing w with
  | nil => rfl
  | cons f fs ih =>
    rw [List.cons_append, emitAll, emitAll]
    exact ih (w.emit f)

/-- However often a level is taken back, none is before the first. -/
theorem dedent_iterate (w : Writer) (n : Nat) : dedent^[n] w = { w with level := w.level - n } := by
  induction n with
  | zero => rfl
  | succ n ih =>
    rw [Function.iterate_succ_apply', ih, dedent]
    simp only [Nat.sub_sub]

/-- Writing fragments only adds to the text of a writer, whatever its level, and leaves the level as it was, also when
levels were taken back before that the writer did not have. What is added are the pieces of the fragments: lines,
headers, closing lines and indented texts behind one unit for each level of the writer and each block around them, blank
lines and raw texts behind none. Fragments in a row are written as one part of the row and then the rest. -/
theorem emission_compositional (w : Writer) (fs gs : List Fragment) :
    w.emitAll fs = { w with text := w.text ++ Piece.texts w.unit w.level (Fragment.allPieces 0 fs) } ∧
    w.emitAll (fs ++ gs) = (w.emitAll fs).emitAll gs ∧
    ∀ n, (dedent^[n] w).emitAll fs = { w with
      level := w.level - n
      text := w.text ++ Piece.texts w.unit (w.level - n) (Fragment.allPieces 0 fs) } := by
  refine ⟨w.emitAll_eq_pieces fs, w.emitAll_append fs gs, fun n => ?_⟩
  rw [emitAll_eq_pieces, dedent_iterate]

end Writer

end EntityScript
