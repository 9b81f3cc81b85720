import Mathlib.Data.List.Basic
import Libx.Text

set_option autoImplicit false

namespace Libx.Csv

def isQuote (c : Char) : Bool := c = '\x27' ∨ c = '\x22'

-- *first; behind the text stands the 0 of the std::string.
def deref (first : Text) : Char := first.headD '\x00'

-- An iterator is the text from it on. The result holds the pair and where first is left.
def extractToken (first : Text) (delim : Char) : Text × Text :=
  let searchFor := if isQuote (deref first) then deref first else delim
  let first := if isQuote (deref first) then first.tail else first
  let it := first.dropWhile (· ≠ searchFor)
  (first.takeWhile (· ≠ searchFor), it.dropWhile (· ≠ delim))

theorem extract_token_shorter (first : Text) (delim : Char) : (extractToken first delim).2.length ≤ first.length := by
  rw [extractToken]
  refine Nat.le_trans (List.dropWhile_sublist _).length_le (Nat.le_trans (List.dropWhile_sublist _).length_le ?_)
  by_cases quoted : isQuote (deref first) = true
  · simp [quoted]
  · simp [quoted]

-- The loop of tokenize_csv; what goes to the back_inserter and rc.
def tokenizeFrom (delim : Char) (l : Text) (rc : UInt32) : List Text × UInt32 :=
  match left : (extractToken l delim).2 with
  | [] => ([(extractToken l delim).1], rc + 1)
  | _ :: l' =>
      let later := tokenizeFrom delim l' (rc + 1)
      ((extractToken l delim).1 :: later.1, later.2)
termination_by l.length
decreasing_by
  have shorter := extract_token_shorter l delim
  rw [left] at shorter
  exact shorter

def tokenizeCsv (line : Text) (delim : Char) : List Text × UInt32 := if line = [] then ([], 0) else tokenizeFrom delim line 0

structure Field (delim : Char) where
  text : Text
  quote : Option Char
  legal : match quote with
    | none => delim ∉ text ∧ isQuote (deref text) = false
    | some q => isQuote q = true ∧ q ∉ text

def Field.rendered {delim : Char} (field : Field delim) : Text :=
  match field.quote with
  | none => field.text
  | some q => q :: (field.text ++ [q])

def renderLine (delim : Char) (fields : List (Field delim)) : Text := [delim].intercalate (fields.map Field.rendered)

theorem until_delim (delim : Char) (text back : Text) (clean : delim ∉ text) (stops : ∀ c, back.head? = some c → c = delim) :
    (text ++ back).takeWhile (· ≠ delim) = text ∧ (text ++ back).dropWhile (· ≠ delim) = back := by
  have passed : ∀ c ∈ text, decide (c ≠ delim) = true := by
    intro c member
    exact decide_eq_true fun same => clean (same ▸ member)
  rw [List.takeWhile_append_of_pos passed, List.dropWhile_append_of_pos passed]
  cases back with
  | nil => simp
  | cons c back => simp [stops c rfl]

theorem extract_token_field (delim : Char) (field : Field delim) (back : Text) (plain : isQuote delim = false)
    (stops : ∀ c, back.head? = some c → c = delim) : extractToken (field.rendered ++ back) delim = (field.text, back) := by
  obtain ⟨text, quote, legal⟩ := field
  cases quote with
  | none =>
      obtain ⟨clean, unquoted⟩ := legal
      have first : isQuote (deref (text ++ back)) = false := by
        cases text with
        | cons c text => exact unquoted
        | nil =>
            cases back with
            | nil => rfl
            | cons c back => exact (stops c rfl) ▸ plain
      obtain ⟨taken, dropped⟩ := until_delim delim text back clean stops
      have stopped := (until_delim delim [] back (by simp) stops).2
      rw [List.nil_append] at stopped
      simp only [Field.rendered, extractToken, first, Bool.false_eq_true, if_false, taken, dropped, stopped]
  | some q =>
      obtain ⟨isOne, clean⟩ := legal
      have other : q ≠ delim := fun same => by simp [same, plain] at isOne
      obtain ⟨taken, dropped⟩ := until_delim q text (q :: back) clean (by simp)
      have stopped := (until_delim delim [q] back (by simpa using other.symm) stops).2
      rw [List.singleton_append] at stopped
      simp only [Field.rendered, extractToken, List.cons_append, List.append_assoc, List.nil_append, deref, List.headD_cons,
        isOne, if_true, List.tail_cons, taken, dropped, stopped]

theorem tokenize_from_end (delim : Char) (l token : Text) (rc : UInt32) (read : extractToken l delim = (token, [])) :
    tokenizeFrom delim l rc = ([token], rc + 1) := by
  rw [tokenizeFrom]
  split
  next left => rw [read]
  next c l' left => simp [read] at left

theorem tokenize_from_more (delim c : Char) (l token l' : Text) (rc : UInt32) (read : extractToken l delim = (token, c :: l')) :
    tokenizeFrom delim l rc = (token :: (tokenizeFrom delim l' (rc + 1)).1, (tokenizeFrom delim l' (rc + 1)).2) := by
  rw [tokenizeFrom]
  split
  next left => simp [read] at left
  next d rest left =>
    simp only [read, List.cons.injEq] at left
    rw [read, left.2]

theorem tokenize_from_number (delim : Char) (l : Text) (rc : UInt32) :
    (tokenizeFrom delim l rc).2 = rc + .ofNat (tokenizeFrom delim l rc).1.length ∧
      0 < (tokenizeFrom delim l rc).1.length ∧ (tokenizeFrom delim l rc).1.length ≤ l.length + 1 := by
  fun_induction tokenizeFrom delim l rc with
  | case1 l rc left => simp
  | case2 l rc c l' left later ih =>
      have shorter := extract_token_shorter l delim
      rw [left, List.length_cons] at shorter
      obtain ⟨number, positive, bounded⟩ := ih
      refine ⟨?_, by simp, Nat.succ_le_succ (Nat.le_trans bounded shorter)⟩
      rw [number, List.length_cons, UInt32.ofNat_add]
      ac_rfl

theorem tokenize_from_fields (delim : Char) (fields : List (Field delim)) (rc : UInt32) (plain : isQuote delim = false)
    (some_ : fields ≠ []) :
    tokenizeFrom delim (renderLine delim fields) rc = (fields.map Field.text, rc + .ofNat fields.length) := by
  induction fields generalizing rc with
  | nil => exact absurd rfl some_
  | cons field others ih =>
      cases others with
      | nil =>
          have read := extract_token_field delim field [] plain (by simp)
          rw [List.append_nil] at read
          rw [renderLine, List.map_singleton, List.intercalate_singleton, tokenize_from_end delim _ _ rc read]
          rfl
      | cons next others =>
          have read := extract_token_field delim field (delim :: renderLine delim (next :: others)) plain (by simp)
          have joined : renderLine delim (field :: next :: others) =
              field.rendered ++ delim :: renderLine delim (next :: others) := by
            simp [renderLine, List.intercalate_cons_cons]
          rw [joined, tokenize_from_more delim delim _ _ _ rc read, ih (rc + 1) (by simp)]
          simp [UInt32.ofNat_add]
          ac_rfl

theorem line_not_empty (delim : Char) (fields : List (Field delim)) (some_ : fields ≠ [])
    (other : ¬ ∃ field, fields = [field] ∧ field.text = [] ∧ field.quote = none) : renderLine delim fields ≠ [] := by
  intro empty
  cases fields with
  | nil => exact some_ rfl
  | cons field others =>
      cases others with
      | cons next others => simp [renderLine, List.intercalate_cons_cons] at empty
      | nil =>
          rw [renderLine, List.map_singleton, List.intercalate_singleton, Field.rendered] at empty
          cases quote : field.quote with
          | none =>
              simp only [quote] at empty
              exact other ⟨field, rfl, empty, quote⟩
          | some q => simp [quote] at empty

theorem tokenize_csv_fields (delim : Char) (fields : List (Field delim)) (plain : isQuote delim = false) (some_ : fields ≠ [])
    (line : renderLine delim fields ≠ []) :
    tokenizeCsv (renderLine delim fields) delim = (fields.map Field.text, .ofNat fields.length) := by
  rw [tokenizeCsv, if_neg line, tokenize_from_fields delim fields 0 plain some_]
  simp

theorem tokenize_csv_undoes_rendering (delim : Char) (fields : List (Field delim)) (plain : isQuote delim = false)
    (some_ : fields ≠ []) (other : ¬ ∃ field, fields = [field] ∧ field.text = [] ∧ field.quote = none) :
    (tokenizeCsv (renderLine delim fields) delim).1 = fields.map Field.text ∧
      (tokenizeCsv (renderLine delim fields) delim).2.toNat = fields.length % UInt32.size := by
  rw [tokenize_csv_fields delim fields plain some_ (line_not_empty delim fields some_ other)]
  exact ⟨rfl, UInt32.toNat_ofNat⟩

def emptyField : Field ',' := ⟨[], none, by simp, rfl⟩

def quotedField : Field ',' := ⟨"b,c".toList, some '\x27', by decide, by decide⟩

theorem tokenize_csv_quoted_field :
    (tokenizeCsv (renderLine ',' [quotedField, emptyField]) ',').1 = [quotedField, emptyField].map Field.text ∧
      (tokenizeCsv (renderLine ',' [quotedField, emptyField]) ',').2.toNat = 2 % UInt32.size :=
  tokenize_csv_undoes_rendering ',' [quotedField, emptyField] (by decide) (by simp) (by simp)

theorem tokenize_csv_number_wraps :
    ¬ ∀ (delim : Char) (fields : List (Field delim)), isQuote delim = false → fields ≠ [] →
      (¬ ∃ field, fields = [field] ∧ field.text = [] ∧ field.quote = none) →
      (tokenizeCsv (renderLine delim fields) delim).1 = fields.map Field.text ∧
        (tokenizeCsv (renderLine delim fields) delim).2.toNat = fields.length := by
  intro always
  have long : (List.replicate (2 ^ 32) emptyField).length = 2 ^ 32 := List.length_replicate
  have some_ : List.replicate (2 ^ 32) emptyField ≠ [] := by
    intro none_
    rw [none_] at long
    exact absurd long (by decide)
  have other : ¬ ∃ field, List.replicate (2 ^ 32) emptyField = [field] ∧ field.text = [] ∧ field.quote = none := by
    rintro ⟨field, single, -, -⟩
    rw [single, List.length_singleton] at long
    exact absurd long (by decide)
  have number := (always ',' (List.replicate (2 ^ 32) emptyField) (by decide) some_ other).2
  rw [tokenize_csv_fields ',' _ (by decide) some_ (line_not_empty ',' _ some_ other), long] at number
  exact absurd number (by decide)

end Libx.Csv
