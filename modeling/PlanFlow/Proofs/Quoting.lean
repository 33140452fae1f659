import PlanFlow.Proofs.Numerals
import PlanFlow.Json.Canonical

/-!
Reading back what canonical JSON writes for texts and whole numbers. Every code point is one piece of a quoted
text, as it stands or escaped; escapes never form a surrogate pair, so the pieces spell the text.
-/

set_option autoImplicit false

namespace PlanFlow

namespace Json

open Canonical (escapeOne escape)

def isUnit (c : CodePoint) : Bool := c.val < 0x20 && !([0x08, 0x09, 0x0A, 0x0C, 0x0D].contains c.val)

def pieceOf (c : CodePoint) : Piece := if isUnit c then .unit c else .plain c

section

variable (opening rest : Text)

theorem read_pieces_short (letter value : CodePoint) (plain : letter ≠ 'u') (short : shortEscape? letter = some value) :
    readPieces opening ('\\' :: letter :: rest) = push (.plain value) (readPieces opening rest) := by
  have apart : ('\\' : CodePoint) ≠ '"' := by decide
  rw [readPieces.eq_def]
  simp [apart, plain, short]

theorem read_pieces_unit (a b d e value : CodePoint) (nonempty : rest ≠ []) (given : unit? a b d e = some value) :
    readPieces opening ('\\' :: 'u' :: a :: b :: d :: e :: rest) = push (.unit value) (readPieces opening rest) := by
  have apart : ('\\' : CodePoint) ≠ '"' := by decide
  simp [readPieces, apart, nonempty, given]

theorem read_pieces_plain (c : CodePoint) (unquoted : c ≠ '"') (unescaped : c ≠ '\\') (visible : 0x20 ≤ c.val) :
    readPieces opening (c :: rest) = push (.plain c) (readPieces opening rest) := by
  have above : ¬ c.val ≤ 0x1F := by omega
  rw [readPieces.eq_def]
  simp [unquoted, unescaped, above]

theorem hex_unit (n : Fin 0x20) : (Decimal.hex 4 n.val).length = 4 ∧
    unit? ((Decimal.hex 4 n.val).getD 0 0) ((Decimal.hex 4 n.val).getD 1 0) ((Decimal.hex 4 n.val).getD 2 0)
      ((Decimal.hex 4 n.val).getD 3 0) = some ⟨n.val, by omega⟩ := by
  revert n
  decide

theorem read_pieces_control (c : CodePoint) (control : c.val < 0x20) (nonempty : rest ≠ []) :
    readPieces opening (("\\u" : Text) ++ Decimal.hex 4 c.val ++ rest) = push (.unit c) (readPieces opening rest) := by
  obtain ⟨long, unit⟩ := hex_unit ⟨c.val, control⟩
  dsimp only at long unit
  generalize Decimal.hex 4 c.val = digits at long unit ⊢
  obtain ⟨a, b, d, e, rfl⟩ : ∃ a b d e, digits = [a, b, d, e] := by
    rcases digits with _ | ⟨a, _ | ⟨b, _ | ⟨d, _ | ⟨e, _ | _⟩⟩⟩⟩ <;> simp at long
    exact ⟨a, b, d, e, rfl⟩
  exact read_pieces_unit opening rest a b d e c nonempty unit

theorem read_pieces_letter (c letter : CodePoint) (nonempty : letter ≠ 'u') (written : escapeOne c = ([('\\' : CodePoint), letter] : Text))
    (short : shortEscape? letter = some c) (piece : pieceOf c = .plain c) :
    readPieces opening (escapeOne c ++ rest) = push (pieceOf c) (readPieces opening rest) := by
  rw [written, piece]
  exact read_pieces_short opening rest letter c nonempty short

theorem read_pieces_escaped (c : CodePoint) (nonempty : rest ≠ []) :
    readPieces opening (escapeOne c ++ rest) = push (pieceOf c) (readPieces opening rest) := by
  by_cases quote : c = '"'
  · subst quote
    exact read_pieces_letter opening rest _ '"' (by decide) (by decide) (by decide) (by decide)
  by_cases backslash : c = '\\'
  · subst backslash
    exact read_pieces_letter opening rest _ '\\' (by decide) (by decide) (by decide) (by decide)
  by_cases visible : 0x20 ≤ c.val
  · have plain : escapeOne c = [c] := by
      simp [escapeOne, quote, backslash, show c.val ≠ 0x08 by omega, show c.val ≠ 0x09 by omega,
        show c.val ≠ 0x0A by omega, show c.val ≠ 0x0C by omega, show c.val ≠ 0x0D by omega, show ¬ c.val < 0x20 by omega]
    have piece : pieceOf c = .plain c := by simp [pieceOf, isUnit, show ¬ c.val < 0x20 by omega]
    rw [plain, piece]
    exact read_pieces_plain opening rest c quote backslash visible
  by_cases lettered : c.val ∈ [0x08, 0x09, 0x0A, 0x0C, 0x0D]
  · have same (n : Nat) (bound : n < 0x110000) (value : c.val = n) : c = ⟨n, bound⟩ := Fin.ext value
    simp only [List.mem_cons, List.not_mem_nil, or_false] at lettered
    rcases lettered with value | value | value | value | value
    · obtain rfl := same 0x08 (by decide) value
      exact read_pieces_letter opening rest _ 'b' (by decide) (by decide) (by decide) (by decide)
    · obtain rfl := same 0x09 (by decide) value
      exact read_pieces_letter opening rest _ 't' (by decide) (by decide) (by decide) (by decide)
    · obtain rfl := same 0x0A (by decide) value
      exact read_pieces_letter opening rest _ 'n' (by decide) (by decide) (by decide) (by decide)
    · obtain rfl := same 0x0C (by decide) value
      exact read_pieces_letter opening rest _ 'f' (by decide) (by decide) (by decide) (by decide)
    · obtain rfl := same 0x0D (by decide) value
      exact read_pieces_letter opening rest _ 'r' (by decide) (by decide) (by decide) (by decide)
  · have control : c.val < 0x20 := by omega
    have piece : pieceOf c = .unit c := by simp only [pieceOf, isUnit]; simp [control, lettered]
    simp only [List.mem_cons, List.not_mem_nil, or_false, not_or] at lettered
    have written : escapeOne c = ("\\u" : Text) ++ Decimal.hex 4 c.val := by
      simp [escapeOne, quote, backslash, lettered, control]
    rw [written, piece]
    exact read_pieces_control opening rest c control nonempty

theorem read_pieces_written (t : Text) :
    readPieces opening (t.flatMap escapeOne ++ ('"' : CodePoint) :: rest) = .ok (t.map pieceOf, rest) := by
  induction t with
  | nil =>
      rw [List.flatMap_nil, List.nil_append, readPieces.eq_def]
      simp
  | cons head tail ih =>
      rw [List.flatMap_cons, List.append_assoc, read_pieces_escaped opening _ head (by simp), ih]
      rfl

end

-- Neighbouring units of the pieces are control characters, which form no pair.
theorem assemble_pieces (t : Text) : assemble (t.map pieceOf) = t := by
  induction t with
  | nil => rfl
  | cons head tail ih =>
      by_cases unit : isUnit head = true
      · have low : CodePoint.isHighSurrogate head = false := by
          simp only [isUnit, Bool.and_eq_true, decide_eq_true_eq] at unit
          simp only [CodePoint.isHighSurrogate, Bool.and_eq_false_iff, decide_eq_false_iff_not]
          omega
        rw [List.map_cons, pieceOf, if_pos unit]
        cases next : tail.map pieceOf with
        | nil =>
            rw [assemble, ← next, ih]
            exact nofun
        | cons piece rest =>
            rw [next] at ih
            cases piece with
            | plain d =>
                rw [assemble, ih]
                exact nofun
            | unit d => rw [assemble, low, Bool.false_and, if_neg (by decide), ih]
      · rw [List.map_cons, pieceOf, if_neg unit, assemble, ih]

theorem read_text_written (opening t rest : Text) :
    readText opening (t.flatMap escapeOne ++ ('"' : CodePoint) :: rest) = .ok (t, rest) := by
  simp only [readText, read_pieces_written, assemble_pieces]

end Json

end PlanFlow
