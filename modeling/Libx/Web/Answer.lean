import Libx.Web.TagValues

set_option autoImplicit false

namespace Libx.Web

open Url

def target (buf : Bytes) : Bytes :=
  urlDecode ((((firstLine buf).dropWhile (· ≠ byte ' ')).drop 1).takeWhile (· ≠ byte ' '))

def query (buf : Bytes) : Bytes := ((target buf).dropWhile (· ≠ byte '?')).drop 1

def Paired (query : Bytes) : Prop := ∀ before after, query = before ++ byte '&' :: after → byte '=' ∈ before → byte '=' ∈ after

structure Answerable (buf : Bytes) : Prop where
  short : (firstLine buf).length < 65536
  present : query buf ≠ []
  paired : Paired (query buf)

def Ends {α : Type} (run : Except Fault α) : Prop := ∃ result, run = .ok result

theorem string_between_front (front rest : Bytes) (begin_ : Nat) (inside : begin_ ≤ front.length) :
    stringBetween (front ++ rest) begin_ front.length = .ok (front.drop begin_) := by
  have bounds : begin_ ≤ front.length ∧ front.length ≤ (front ++ rest).length := ⟨inside, by simp⟩
  rw [stringBetween, if_pos bounds, List.drop_append_of_le_length inside, List.take_append_of_le_length (by simp),
    List.take_of_length_le (by simp)]

theorem next_place (i : UInt16) (n : Nat) (place : i.toNat = n) (small : n + 1 < 65536) : (i + 1).toNat = n + 1 := by
  rw [UInt16.toNat_add, place]
  exact Nat.mod_eq_of_lt small

section Tokens

variable (separator : UInt8)

def tokens (current : Bytes) : Bytes → List Bytes
  | [] => if current = [] then [] else [current]
  | c :: rest => if c = separator then current :: tokens [] rest else tokens (current ++ [c]) rest

theorem tokenize_end (front : Bytes) (fuel : Nat) (i : UInt16) (tagPos : Nat) (place : i.toNat = front.length)
    (behind : tagPos ≤ front.length) : tokenize separator front (fuel + 1) i tagPos = .ok (tokens separator (front.drop tagPos) []) := by
  have atEnd : ¬ i.toNat < front.length := by simp [place]
  rw [tokenize, if_neg atEnd, tokens]
  by_cases whole : tagPos = front.length
  · simp [whole]
  · have left : front.drop tagPos ≠ [] := by
      simp only [ne_eq, List.drop_eq_nil_iff]
      omega
    have last := string_between_front front [] tagPos behind
    rw [List.append_nil] at last
    rw [if_neg left, if_pos (by simpa using whole), last]
    rfl

theorem tokenize_tokens (front rest : Bytes) (fuel : Nat) (i : UInt16) (tagPos : Nat) (place : i.toNat = front.length)
    (behind : tagPos ≤ front.length) (short : (front ++ rest).length < 65536) :
    tokenize separator (front ++ rest) fuel i tagPos =
      if rest.length < fuel then .ok (tokens separator (front.drop tagPos) rest) else .error .outOfFuel := by
  induction rest generalizing front fuel i tagPos with
  | nil =>
      cases fuel with
      | zero => rfl
      | succ fuel =>
          rw [List.append_nil, tokenize_end separator front fuel i tagPos place behind]
          simp
  | cons c rest ih =>
      cases fuel with
      | zero => rfl
      | succ fuel =>
          have inside : i.toNat < (front ++ c :: rest).length := by simp [place]
          have here : (front ++ c :: rest).getD i.toNat 0 = c := by simp [place]
          have cut : front ++ c :: rest = (front ++ [c]) ++ rest := by simp
          have next : (i + 1).toNat = (front ++ [c]).length := by
            simp only [List.length_append, List.length_cons] at short
            rw [next_place i front.length place (by omega)]
            simp
          rw [cut] at short
          rw [tokenize, if_pos inside, here, tokens]
          by_cases same : c = separator
          · have token := string_between_front front (c :: rest) tagPos behind
            have later := ih (front ++ [c]) fuel (i + 1) (i.toNat + 1) next (by simp [place]) short
            rw [if_pos same, if_pos same, place, token, ← place, Fallible.ok_bind, cut, later,
              List.drop_of_length_le (by simp [place])]
            by_cases enough : rest.length < fuel
            · simp [enough]
            · simp [enough]
          · have later := ih (front ++ [c]) fuel (i + 1) tagPos next (by simp; omega) short
            rw [if_neg same, if_neg same, cut, later, List.drop_append_of_le_length behind]
            simp

-- The counter cannot leave a line of 65536 bytes.
theorem tokenize_long (data : Bytes) (long : 65536 ≤ data.length) (fuel : Nat) (i : UInt16) (tagPos : Nat) :
    ¬ Ends (tokenize separator data fuel i tagPos) := by
  induction fuel generalizing i tagPos with
  | zero =>
      intro ends
      obtain ⟨result, run⟩ := ends
      exact absurd run (by simp [tokenize])
  | succ fuel ih =>
      intro ends
      obtain ⟨result, run⟩ := ends
      have inside : i.toNat < data.length := Nat.lt_of_lt_of_le i.toNat_lt long
      rw [tokenize, if_pos inside] at run
      by_cases same : data.getD i.toNat 0 = separator
      · rw [if_pos same] at run
        obtain ⟨token, _, run⟩ := (Fallible.bind_ok_iff _ _ _).mp run
        obtain ⟨rest, later, _⟩ := (Fallible.bind_ok_iff _ _ _).mp run
        exact ih (i + 1) (i.toNat + 1) ⟨rest, later⟩
      · rw [if_neg same] at run
        exact ih (i + 1) tagPos ⟨result, run⟩

theorem tokens_head (current rest : Bytes) :
    (tokens separator current rest).head? =
      if current ++ rest = [] then none else some (current ++ rest.takeWhile (· ≠ separator)) := by
  induction rest generalizing current with
  | nil =>
      by_cases empty : current = []
      · simp [tokens, empty]
      · simp [tokens, empty]
  | cons c rest ih =>
      by_cases same : c = separator
      · simp [tokens, same]
      · simp [tokens, same, ih]

theorem tokens_second (current rest : Bytes) :
    (tokens separator current rest)[1]? = (tokens separator [] ((rest.dropWhile (· ≠ separator)).drop 1)).head? := by
  induction rest generalizing current with
  | nil =>
      by_cases empty : current = []
      · simp [tokens, empty]
      · simp [tokens, empty]
  | cons c rest ih =>
      by_cases same : c = separator
      · simp [tokens, same, List.head?_eq_getElem?]
      · simp [tokens, same, ih]

end Tokens

mutual
def tagsClose (fine : Bool) : Bytes → Bool
  | [] => fine
  | c :: rest => if c = byte '=' then valClose rest else tagsClose fine rest
def valClose : Bytes → Bool
  | [] => true
  | c :: rest => if c = byte '&' then tagsClose false rest else valClose rest
end

def Closed (query : Bytes) : Prop := ∀ before after, query = before ++ byte '&' :: after → byte '=' ∈ after

theorem paired_followed (query : Bytes) : Paired query ↔ Followed (byte '&') query := by
  have same (before : Bytes) : Behind (byte '&') before ↔ byte '=' ∈ before := by
    rw [Behind, List.mem_append, List.mem_singleton]
    exact or_iff_left (by decide)
  simp only [Paired, Followed, same]

theorem closed_closed_by (query : Bytes) : Closed query ↔ ClosedBy (byte '&') query := Iff.rfl

theorem close_iff (rest : Bytes) :
    (∀ fine, tagsClose fine rest = true ↔ (fine = true ∨ byte '=' ∈ rest) ∧ Paired rest) ∧
      (valClose rest = true ↔ Closed rest) := by
  simp only [paired_followed, closed_closed_by]
  induction rest with
  | nil => simp [tagsClose, valClose, Followed, ClosedBy]
  | cons c rest ih =>
      obtain ⟨tags, val⟩ := ih
      constructor
      · intro fine
        rw [tagsClose]
        by_cases equal : c = byte '='
        · have differs : byte '&' ≠ byte '=' := by decide
          rw [if_pos equal, val, equal, followed_equal]
          simp [differs]
        · rw [if_neg equal, tags, followed_cons (byte '&') c rest equal]
          simp [Ne.symm equal]
      · rw [valClose]
        by_cases ampersand : c = byte '&'
        · rw [if_pos ampersand, tags, ampersand, closed_by_separator (byte '&') rest (by decide)]
          simp
        · rw [if_neg ampersand, val, closed_by_cons (byte '&') c rest ampersand]

theorem no_end {α : Type} (fault : Fault) : ¬ Ends (.error fault : Except Fault α) := by
  intro ends
  obtain ⟨result, run⟩ := ends
  contradiction

theorem token_pair_ends (data : Bytes) (begin_ equal end_ : Nat) (inside : end_ ≤ data.length) (before : equal < data.length) :
    Ends (tokenPair data begin_ equal end_) ↔ begin_ ≤ equal ∧ equal < end_ := by
  rw [tokenPair, stringBetween, stringBetween]
  by_cases tag : begin_ ≤ equal
  · rw [if_pos ⟨tag, Nat.le_of_lt before⟩, Fallible.ok_bind]
    by_cases val : equal < end_
    · rw [if_pos ⟨val, inside⟩]
      exact iff_of_true ⟨_, rfl⟩ ⟨tag, val⟩
    · rw [if_neg fun both => val both.1]
      exact iff_of_false (no_end _) fun both => val both.2
  · rw [if_neg fun both => tag both.1]
    exact iff_of_false (no_end _) fun both => tag both.1

theorem ends_then {α β γ : Type} (first : Except Fault α) (second : Except Fault β) (result : α → β → γ) (ends : Ends first) :
    Ends (first >>= fun a => second >>= fun b => pure (result a b)) ↔ Ends second := by
  obtain ⟨value, run⟩ := ends
  rw [run, Fallible.ok_bind]
  cases second with
  | error fault => exact iff_of_false (no_end fault) (no_end fault)
  | ok last => exact iff_of_true ⟨_, rfl⟩ ⟨_, rfl⟩

structure Decides {α : Type} (run : Except Fault α) (closes : Bool) (enough : Prop) : Prop where
  sound : Ends run → closes = true
  complete : enough → closes = true → Ends run

theorem no_fuel {α : Type} (closes : Bool) (enough : Prop) (lacks : ¬ enough) :
    Decides (.error .outOfFuel : Except Fault α) closes enough :=
  ⟨fun ends => absurd ends (no_end _), fun enough_ => absurd enough_ lacks⟩

theorem Decides.more {α : Type} {run : Except Fault α} {closes : Bool} {enough more : Prop}
    (decides : Decides run closes enough) (weaker : more → enough) : Decides run closes more :=
  ⟨decides.sound, fun much => decides.complete (weaker much)⟩

section Scan

variable (data : Bytes) (len : UInt16) (whole : len.toNat = data.length)
include whole

theorem scan_tags_end (fuel : Nat) (i : UInt16) (tagPos valPos : Nat) (behind : data.length ≤ i.toNat)
    (before : valPos < data.length) :
    Decides (scanTags (byte '&') data len fuel i tagPos valPos) (decide (tagPos ≤ valPos)) (1 ≤ fuel) := by
  cases fuel with
  | zero => exact no_fuel _ _ (by omega)
  | succ fuel =>
      have stop : ¬ i < len := by
        rw [UInt16.lt_iff_toNat_lt, whole]
        omega
      have pair := token_pair_ends data tagPos valPos len.toNat (by omega) before
      rw [scanTags, if_neg stop]
      have same : Ends (tokenPair data tagPos valPos len.toNat >>= fun last => (pure [last] : Except Fault _)) ↔
          Ends (tokenPair data tagPos valPos len.toNat) := by
        cases tokenPair data tagPos valPos len.toNat with
        | error fault => exact iff_of_false (no_end fault) (no_end fault)
        | ok last => exact iff_of_true ⟨_, rfl⟩ ⟨_, rfl⟩
      constructor
      · intro ends
        exact decide_eq_true (pair.mp (same.mp ends)).1
      · intro _ fine
        exact same.mpr (pair.mpr ⟨of_decide_eq_true fine, by omega⟩)

def TagsDecided (front rest : Bytes) : Prop :=
  ∀ (fuel : Nat) (i : UInt16) (tagPos valPos : Nat), i.toNat = front.length → tagPos ≤ front.length → valPos < data.length →
    Decides (scanTags (byte '&') data len fuel i tagPos valPos) (tagsClose (decide (tagPos ≤ valPos)) rest)
      (2 * rest.length + 2 ≤ fuel)

def ValDecided (front rest : Bytes) : Prop :=
  ∀ (fuel : Nat) (i : UInt16) (tagPos valPos : Nat), i.toNat = front.length → tagPos ≤ valPos → valPos < front.length →
    Decides (scanVal (byte '&') data len fuel i tagPos valPos) (valClose rest) (2 * rest.length + 2 ≤ fuel)

theorem tags_decided_nil (front : Bytes) (cut : data = front) : TagsDecided data len front [] := by
  intro fuel i tagPos valPos place _ before
  have last := scan_tags_end data len whole fuel i tagPos valPos (by simp [cut, place]) before
  exact last.more fun enough => by omega

variable (short : data.length < 65535)
include short

theorem val_decided_nil (front : Bytes) (cut : data = front) : ValDecided data len front [] := by
  intro fuel i tagPos valPos place fine before
  cases fuel with
  | zero => exact no_fuel _ _ (by simp)
  | succ fuel =>
      have stop : ¬ i < len := by
        rw [UInt16.lt_iff_toNat_lt, whole, cut, place]
        exact Nat.lt_irrefl _
      have next := next_place i front.length place (by rw [← cut]; omega)
      have last := scan_tags_end data len whole fuel (i + 1) tagPos valPos (by rw [cut]; omega) (by rw [cut]; omega)
      rw [scanVal, if_neg stop]
      refine ⟨fun _ => rfl, fun enough _ => last.complete ?_ (decide_eq_true fine)⟩
      simp only [List.length_nil] at enough
      omega

section Character

variable (front rest : Bytes) (c : UInt8) (cut : data = front ++ c :: rest)
  (tags : TagsDecided data len (front ++ [c]) rest) (val : ValDecided data len (front ++ [c]) rest)
include cut

theorem character_read (i : UInt16) (place : i.toNat = front.length) :
    i < len ∧ data.getD i.toNat 0 = c ∧ (i + 1).toNat = (front ++ [c]).length := by
  have size : data.length = front.length + (rest.length + 1) := by simp [cut]
  refine ⟨?_, by simp [cut, place], ?_⟩
  · rw [UInt16.lt_iff_toNat_lt, whole]
    omega
  · rw [next_place i front.length place (by omega)]
    simp

include tags val

theorem tags_decided_cons : TagsDecided data len front (c :: rest) := by
  intro fuel i tagPos valPos place behind before
  obtain ⟨inside, here, next⟩ := character_read data len whole short front rest c cut i place
  cases fuel with
  | zero => exact no_fuel _ _ (by simp)
  | succ fuel =>
      rw [scanTags, if_pos inside, here, tagsClose]
      by_cases equal : c = byte '='
      · rw [if_pos equal, if_pos equal]
        cases fuel with
        | zero => exact no_fuel _ _ (by simp)
        | succ fuel =>
            have other : ¬ c = byte '&' := fun same => absurd (equal.symm.trans same) (by decide)
            have later := val fuel (i + 1) tagPos i.toNat next (by omega) (by simp [place])
            rw [scanVal, if_pos inside, here, if_neg other]
            refine later.more fun enough => ?_
            simp only [List.length_cons] at enough
            omega
      · have later := tags fuel (i + 1) tagPos valPos next (by simp; omega) before
        rw [if_neg equal, if_neg equal]
        refine later.more fun enough => ?_
        simp only [List.length_cons] at enough
        omega

theorem val_decided_cons : ValDecided data len front (c :: rest) := by
  intro fuel i tagPos valPos place fine before
  obtain ⟨inside, here, next⟩ := character_read data len whole short front rest c cut i place
  have size : data.length = front.length + (rest.length + 1) := by simp [cut]
  cases fuel with
  | zero => exact no_fuel _ _ (by simp)
  | succ fuel =>
      rw [scanVal, if_pos inside, here, valClose]
      by_cases ampersand : c = byte '&'
      · have pair := (token_pair_ends data tagPos valPos i.toNat (by omega) (by omega)).mpr ⟨fine, by omega⟩
        have later := tags fuel (i + 1) (i.toNat + 1) valPos next (by simp [place]) (by omega)
        have ended : decide (i.toNat + 1 ≤ valPos) = false := decide_eq_false (by omega)
        have same := ends_then _ (scanTags (byte '&') data len fuel (i + 1) (i.toNat + 1) valPos) List.cons pair
        rw [ended] at later
        rw [if_pos ampersand, if_pos ampersand]
        refine ⟨fun ends => later.sound (same.mp ends), fun enough closes => same.mpr (later.complete ?_ closes)⟩
        simp only [List.length_cons] at enough
        omega
      · have later := val fuel (i + 1) tagPos valPos next fine (by simp; omega)
        rw [if_neg ampersand, if_neg ampersand]
        refine later.more fun enough => ?_
        simp only [List.length_cons] at enough
        omega

end Character

-- Induction on what is left of the data, both loops together.
theorem scans_decide (front rest : Bytes) (cut : data = front ++ rest) :
    TagsDecided data len front rest ∧ ValDecided data len front rest := by
  induction rest generalizing front with
  | nil =>
      have read : data = front := by simpa using cut
      exact ⟨tags_decided_nil data len whole front read, val_decided_nil data len whole short front read⟩
  | cons c rest ih =>
      obtain ⟨tags, val⟩ := ih (front ++ [c]) (by simp [cut])
      exact ⟨tags_decided_cons data len whole short front rest c cut tags val,
        val_decided_cons data len whole short front rest c cut tags val⟩

end Scan

theorem tag_val_ends (fuel : Nat) (data : Bytes) (short : data.length < 65535) :
    (Ends (tokenizeTagVal fuel (byte '&') data data.length) → data ≠ [] ∧ Paired data) ∧
      (2 * data.length + 2 ≤ fuel → data ≠ [] ∧ Paired data → Ends (tokenizeTagVal fuel (byte '&') data data.length)) := by
  have whole : (UInt16.ofNat data.length).toNat = data.length := UInt16.toNat_ofNat_of_lt' (Nat.lt_succ_of_lt short)
  have paired := (close_iff data).1 (decide (0 ≤ 0))
  rw [tokenizeTagVal]
  by_cases empty : data = []
  · refine ⟨?_, fun _ both => absurd empty both.1⟩
    intro ends
    obtain ⟨result, run⟩ := ends
    subst empty
    cases fuel with
    | zero => simp [scanTags] at run
    | succ fuel => simp [scanTags, tokenPair, stringBetween] at run
  · have decides := (scans_decide data _ whole short [] data rfl).1 fuel 0 0 0 rfl (Nat.le_refl 0)
      (List.length_pos_iff.mpr empty)
    constructor
    · intro ends
      exact ⟨empty, (paired.mp (decides.sound ends)).2⟩
    · intro enough both
      exact decides.complete enough (paired.mpr ⟨.inl rfl, both.2⟩)

theorem url_decode_length (text : Bytes) : (urlDecode text).length ≤ text.length := by
  fun_induction urlDecode text <;> simp_all <;> omega

theorem find_mark (text : Bytes) :
    (text.findIdx? (· = byte '?') = none ∧ (text.dropWhile (· ≠ byte '?')).drop 1 = []) ∨
      ∃ pos, text.findIdx? (· = byte '?') = some pos ∧ pos < text.length ∧
        text.drop (pos + 1) = (text.dropWhile (· ≠ byte '?')).drop 1 := by
  induction text with
  | nil => simp
  | cons c rest ih =>
      by_cases same : c = byte '?'
      · exact .inr ⟨0, by rw [List.findIdx?_cons]; simp [same], by simp, by simp [same]⟩
      · rcases ih with ⟨missing, nothing⟩ | ⟨pos, found, inside, behind⟩
        · exact .inl ⟨by simp [List.findIdx?_cons, same, missing], by simpa [same] using nothing⟩
        · exact .inr ⟨pos + 1, by simp [List.findIdx?_cons, same, found], by simpa using inside, by simpa [same] using behind⟩

theorem second_arg (buf : Bytes) :
    (tokens (byte ' ') [] (firstLine buf))[1]? =
      if ((firstLine buf).dropWhile (· ≠ byte ' ')).drop 1 = [] then none
      else some ((((firstLine buf).dropWhile (· ≠ byte ' ')).drop 1).takeWhile (· ≠ byte ' ')) := by
  rw [tokens_second, tokens_head]
  rfl

theorem query_length (buf : Bytes) (short : (firstLine buf).length < 65536) : (query buf).length < 65535 := by
  have decoded := url_decode_length ((((firstLine buf).dropWhile (· ≠ byte ' ')).drop 1).takeWhile (· ≠ byte ' '))
  have taken := (List.takeWhile_sublist (l := ((firstLine buf).dropWhile (· ≠ byte ' ')).drop 1) (· ≠ byte ' ')).length_le
  have dropped := (List.dropWhile_sublist (l := firstLine buf) (· ≠ byte ' ')).length_le
  have marked := (List.dropWhile_sublist (l := target buf) (· ≠ byte '?')).length_le
  rw [List.length_drop] at taken
  rw [query, List.length_drop]
  rw [target] at marked ⊢
  omega

theorem read_target_ends (fuel : Nat) (args : List Bytes) (text : Bytes) :
    Ends (readTarget fuel args text) ↔
      text.findIdx? (· = byte '?') ≠ none ∧
        Ends (tokenizeTagVal fuel (byte '&') ((text.dropWhile (· ≠ byte '?')).drop 1)
          ((text.dropWhile (· ≠ byte '?')).drop 1).length) := by
  rcases find_mark text with ⟨missing, _⟩ | ⟨pos, found, inside, behind⟩
  · rw [readTarget, missing]
    exact iff_of_false (no_end _) fun both => both.1 rfl
  · have host : stringBetween text 0 pos = .ok (text.take pos) := by
      rw [stringBetween, if_pos ⟨Nat.zero_le pos, Nat.le_of_lt inside⟩]
      rfl
    have size : text.length - pos - 1 = (text.drop (pos + 1)).length := by
      rw [List.length_drop]
      omega
    rw [readTarget, found, ← behind]
    simp only [host, Fallible.ok_bind, size]
    cases run : tokenizeTagVal fuel (byte '&') (text.drop (pos + 1)) (text.drop (pos + 1)).length with
    | error fault =>
        refine iff_of_false (no_end _) ?_
        rintro ⟨-, result, other⟩
        cases other
    | ok queries => exact iff_of_true ⟨_, rfl⟩ ⟨by simp, _, rfl⟩

theorem tokenize_line (buf : Bytes) (fuel : Nat) :
    (Ends (tokenize (byte ' ') (firstLine buf) fuel 0 0) ↔ (firstLine buf).length < 65536 ∧ (firstLine buf).length < fuel) ∧
      ∀ args, tokenize (byte ' ') (firstLine buf) fuel 0 0 = .ok args → args = tokens (byte ' ') [] (firstLine buf) := by
  by_cases short : (firstLine buf).length < 65536
  · have tokenized := tokenize_tokens (byte ' ') [] (firstLine buf) fuel 0 0 rfl (Nat.le_refl 0) short
    rw [List.nil_append, List.drop_nil] at tokenized
    rw [tokenized]
    by_cases enough : (firstLine buf).length < fuel
    · rw [if_pos enough]
      exact ⟨iff_of_true ⟨_, rfl⟩ ⟨short, enough⟩, fun args same => (Except.ok.inj same).symm⟩
    · rw [if_neg enough]
      exact ⟨iff_of_false (no_end _) fun both => enough both.2, fun args same => by simp at same⟩
  · have never := tokenize_long (byte ' ') (firstLine buf) (by omega) fuel 0 0
    exact ⟨iff_of_false never fun both => short both.1, fun args same => absurd ⟨args, same⟩ never⟩

theorem handle_read_ends (buf : Bytes) (fuel : Nat) :
    Ends (handleRead fuel buf) ↔
      ((firstLine buf).length < 65536 ∧ (firstLine buf).length < fuel) ∧ (target buf).findIdx? (· = byte '?') ≠ none ∧
        Ends (tokenizeTagVal fuel (byte '&') (query buf) (query buf).length) := by
  obtain ⟨ends, same⟩ := tokenize_line buf fuel
  rw [← ends]
  cases tokenized : tokenize (byte ' ') (firstLine buf) fuel 0 0 with
  | error fault =>
      rw [handleRead, tokenized]
      exact iff_of_false (no_end _) fun ⟨⟨_, run⟩, _⟩ => by simp at run
  | ok args =>
      rw [handleRead, tokenized, Fallible.ok_bind, same args tokenized, second_arg]
      by_cases absent : ((firstLine buf).dropWhile (· ≠ byte ' ')).drop 1 = []
      · have missing : (target buf).findIdx? (· = byte '?') = none := by
          rw [target, absent]
          rfl
        rw [if_pos absent]
        exact iff_of_false (no_end _) fun both => both.2.1 missing
      · rw [if_neg absent]
        exact (read_target_ends fuel _ (target buf)).trans (and_iff_right ⟨_, rfl⟩).symm

theorem query_marked (buf : Bytes) (present : query buf ≠ []) : (target buf).findIdx? (· = byte '?') ≠ none := by
  intro missing
  rcases find_mark (target buf) with ⟨_, nothing⟩ | ⟨pos, found, _⟩
  · exact present nothing
  · rw [missing] at found
    contradiction

theorem handle_read_answerable (buf : Bytes) (fuel : Nat) (ends : Ends (handleRead fuel buf)) : Answerable buf := by
  obtain ⟨⟨short, _⟩, _, pairs⟩ := (handle_read_ends buf fuel).mp ends
  obtain ⟨present, paired⟩ := (tag_val_ends fuel (query buf) (query_length buf short)).1 pairs
  exact ⟨short, present, paired⟩

theorem answerable_ends (buf : Bytes) (answerable : Answerable buf) :
    Ends (handleRead ((firstLine buf).length + 2 * (query buf).length + 3) buf) := by
  have pairs := (tag_val_ends ((firstLine buf).length + 2 * (query buf).length + 3) (query buf)
    (query_length buf answerable.short)).2 (by omega) ⟨answerable.present, answerable.paired⟩
  exact (handle_read_ends buf _).mpr ⟨⟨answerable.short, by omega⟩, query_marked buf answerable.present, pairs⟩

theorem handle_read_iff (buf : Bytes) : (∃ fuel request, handleRead fuel buf = .ok request) ↔ Answerable buf := by
  constructor
  · intro reaches
    obtain ⟨fuel, request, run⟩ := reaches
    exact handle_read_answerable buf fuel ⟨request, run⟩
  · intro answerable
    exact ⟨_, answerable_ends buf answerable⟩

theorem home_page_unanswered :
    ¬ ∃ fuel request, handleRead fuel ("GET / HTTP/1.1".toList.map byte) = .ok request := by
  intro reaches
  obtain ⟨fuel, request, run⟩ := reaches
  have answerable := handle_read_answerable _ fuel ⟨request, run⟩
  have nothing : query ("GET / HTTP/1.1".toList.map byte) = [] := by decide +kernel
  exact answerable.present nothing

end Libx.Web
