import Mathlib.Data.List.Basic

set_option autoImplicit false

-- Codes that write every symbol as a piece of its own, and decoders that take
-- one piece off the front whatever follows it.
namespace Libx.Escape

variable {α β : Type}

structure Code (α β : Type) where
  piece : α → List β
  decode : List β → List α
  ends : decode [] = []
  reads : ∀ symbol rest, decode (piece symbol ++ rest) = symbol :: decode rest

namespace Code

def encode (code : Code α β) (symbols : List α) : List β := symbols.flatMap code.piece

theorem decode_encode_append (code : Code α β) (symbols : List α) (rest : List β) :
    code.decode (code.encode symbols ++ rest) = symbols ++ code.decode rest := by
  induction symbols with
  | nil => rfl
  | cons symbol symbols ih =>
      have cut : code.encode (symbol :: symbols) ++ rest = code.piece symbol ++ (code.encode symbols ++ rest) := by
        simp [encode]
      rw [cut, code.reads, ih, List.cons_append]

theorem decode_encode (code : Code α β) (symbols : List α) : code.decode (code.encode symbols) = symbols := by
  simpa [code.ends] using code.decode_encode_append symbols []

end Code

-- Symbols that stand for themselves, and a mark with two digits for the others.
section Marked

variable (plain : α → Prop) [DecidablePred plain] (mark : α) (high low : α → α)

def markedPiece (symbol : α) : List α := if plain symbol then [symbol] else [mark, high symbol, low symbol]

variable (decode : List α → List α)

theorem marked_reads (plainRead : ∀ symbol rest, plain symbol → decode (symbol :: rest) = symbol :: decode rest)
    (markRead : ∀ symbol rest, decode (mark :: high symbol :: low symbol :: rest) = symbol :: decode rest)
    (symbol : α) (rest : List α) :
    decode (markedPiece plain mark high low symbol ++ rest) = symbol :: decode rest := by
  by_cases plainly : plain symbol
  · rw [markedPiece, if_pos plainly]
    exact plainRead symbol rest plainly
  · rw [markedPiece, if_neg plainly]
    exact markRead symbol rest

end Marked

end Libx.Escape
