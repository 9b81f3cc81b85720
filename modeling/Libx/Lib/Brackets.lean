import Libx.Lib.Sequences
import Mathlib.Data.List.Infix

set_option autoImplicit false

namespace Libx.Brackets

open Sequences (sift sift_kept)

variable {τ ν : Type}

abbrev Token (τ ν : Type) := τ × ν

inductive Forest (τ ν : Type) where
  | nil
  | node (token : Token τ ν) (children rest : Forest τ ν)

inductive Message (τ ν : Type) where
  | nil
  | field (token : Token τ ν) (more : Message τ ν)
  | group (start : Token τ ν) (body : Message τ ν) (stop : Token τ ν) (more : Message τ ν)

namespace Forest

def preorder : Forest τ ν → List (Token τ ν)
  | nil => []
  | node token children rest => token :: (children.preorder ++ rest.preorder)

def append : Forest τ ν → Forest τ ν → Forest τ ν
  | nil, behind => behind
  | node token children rest, behind => node token children (rest.append behind)

def tags : Forest τ ν → List τ
  | nil => []
  | node token _ rest => token.1 :: rest.tags

def Clear (closes : τ → Option τ) : Forest τ ν → Prop
  | nil => True
  | node token children rest =>
      (∀ closing, closes token.1 = some closing → closing ∉ children.tags) ∧ children.Clear closes ∧ rest.Clear closes

@[simp] theorem append_nil (forest : Forest τ ν) : forest.append nil = forest := by
  induction forest with
  | nil => rfl
  | node token children rest _ ih => rw [append, ih]

end Forest

namespace Message

def render : Message τ ν → List (Token τ ν)
  | nil => []
  | field token more => token :: more.render
  | group start body stop more => start :: (body.render ++ stop :: more.render)

def expected : Message τ ν → Forest τ ν
  | nil => .nil
  | field token more => .node token .nil more.expected
  | group start body stop more => .node start body.expected (.node stop .nil more.expected)

def WellNested (closes : τ → Option τ) : Message τ ν → Prop
  | nil => True
  | field token more => closes token.1 = none ∧ (∀ start, closes start ≠ some token.1) ∧ more.WellNested closes
  | group start body stop more =>
      closes start.1 = some stop.1 ∧ body.render ≠ [] ∧ body.WellNested closes ∧ more.WellNested closes

def Apart : Option τ → Message τ ν → Prop
  | _, nil => True
  | parent, field _ more => more.Apart parent
  | parent, group start body _ more => parent ≠ some start.1 ∧ body.Apart (some start.1) ∧ more.Apart parent

end Message

structure Distinct (closes : τ → Option τ) : Prop where
  stops : ∀ first second closing, closes first = some closing → closes second = some closing → first = second
  plain : ∀ start closing, closes start = some closing → closes closing = none

-- What a reader at one level makes of its tokens: the nodes, and the tokens it
-- leaves. A level ends in front of the closing tag it waits for, and an opening
-- tag directly before its own closing tag opens nothing.
inductive Reads (closes : τ → Option τ) : Option τ → List (Token τ ν) → Forest τ ν → List (Token τ ν) → Prop where
  | done (stop : Option τ) : Reads closes stop [] .nil []
  | closed (token : Token τ ν) (tail : List (Token τ ν)) : Reads closes (some token.1) (token :: tail) .nil (token :: tail)
  | leaf (stop : Option τ) (token : Token τ ν) (tail rest : List (Token τ ν)) (nodes : Forest τ ν) (other : stop ≠ some token.1)
      (plain : closes token.1 = none) (later : Reads closes stop tail nodes rest) :
      Reads closes stop (token :: tail) (.node token .nil nodes) rest
  | skip (stop : Option τ) (token next : Token τ ν) (tail rest : List (Token τ ν)) (nodes : Forest τ ν)
      (other : stop ≠ some token.1) (empty : closes token.1 = some next.1) (later : Reads closes stop (next :: tail) nodes rest) :
      Reads closes stop (token :: next :: tail) nodes rest
  | group (stop : Option τ) (token next : Token τ ν) (closing : τ) (tail middle rest : List (Token τ ν))
      (children nodes : Forest τ ν) (other : stop ≠ some token.1) (opening : closes token.1 = some closing)
      (filled : next.1 ≠ closing) (inside : Reads closes (some closing) (next :: tail) children middle)
      (later : Reads closes stop middle nodes rest) : Reads closes stop (token :: next :: tail) (.node token children nodes) rest

theorem reads_suffix (closes : τ → Option τ) (stop : Option τ) (tokens rest : List (Token τ ν)) (nodes : Forest τ ν)
    (reads : Reads closes stop tokens nodes rest) : rest <:+ tokens := by
  induction reads with
  | done stop => exact List.suffix_refl []
  | closed token tail => exact List.suffix_refl (token :: tail)
  | leaf stop token tail rest nodes other plain later ih => exact ih.trans (List.suffix_cons token tail)
  | skip stop token next tail rest nodes other empty later ih => exact ih.trans (List.suffix_cons token (next :: tail))
  | group stop token next closing tail middle rest children nodes other opening filled inside later ihInside ih =>
      exact (ih.trans ihInside).trans (List.suffix_cons token (next :: tail))

theorem reads_spends (closes : τ → Option τ) (stop : Option τ) (token : Token τ ν) (tail rest : List (Token τ ν))
    (nodes : Forest τ ν) (other : stop ≠ some token.1) (reads : Reads closes stop (token :: tail) nodes rest) :
    rest.length ≤ tail.length := by
  cases reads with
  | closed => exact absurd rfl other
  | leaf _ _ _ _ nodes _ _ later => exact (reads_suffix closes stop tail rest nodes later).length_le
  | skip _ _ next tail _ _ _ _ later => exact (reads_suffix closes stop (next :: tail) rest nodes later).length_le
  | group _ _ next closing tail middle _ children nodes _ _ _ inside later =>
      have first := (reads_suffix closes (some closing) (next :: tail) middle children inside).length_le
      exact (reads_suffix closes stop middle rest nodes later).length_le.trans first

theorem reads_left (closes : τ → Option τ) (stop : Option τ) (tokens rest : List (Token τ ν)) (nodes : Forest τ ν)
    (reads : Reads closes stop tokens nodes rest) (token : Token τ ν) (first : rest.head? = some token) :
    stop = some token.1 := by
  induction reads with
  | done stop => simp at first
  | closed other tail => rw [← Option.some.inj first]
  | leaf stop other tail rest nodes different plain later ih => exact ih first
  | skip stop other next tail rest nodes different empty later ih => exact ih first
  | group stop other next closing tail middle rest children nodes different opening filled inside later ihInside ih =>
      exact ih first

theorem reads_all (closes : τ → Option τ) (tokens rest : List (Token τ ν)) (nodes : Forest τ ν)
    (reads : Reads closes none tokens nodes rest) : rest = [] := by
  cases rest with
  | nil => rfl
  | cons token tail => exact absurd (reads_left closes none tokens (token :: tail) nodes reads token rfl) (by simp)

theorem reads_clear (closes : τ → Option τ) (stop : Option τ) (tokens rest : List (Token τ ν)) (nodes : Forest τ ν)
    (reads : Reads closes stop tokens nodes rest) :
    (∀ closing, stop = some closing → closing ∉ nodes.tags) ∧ nodes.Clear closes := by
  induction reads with
  | done stop => exact ⟨fun closing _ => List.not_mem_nil, trivial⟩
  | closed token tail => exact ⟨fun closing _ => List.not_mem_nil, trivial⟩
  | leaf stop token tail rest nodes other plain later ih =>
      refine ⟨fun closing same member => ?_, fun closing opening => ?_, trivial, ih.2⟩
      · cases List.mem_cons.mp member with
        | inl here => exact other (by rw [same, here])
        | inr behind => exact ih.1 closing same behind
      · rw [plain] at opening
        exact absurd opening (by simp)
  | skip stop token next tail rest nodes other empty later ih => exact ih
  | group stop token next closing tail middle rest children nodes other opening filled inside later ihInside ih =>
      refine ⟨fun waited same member => ?_, fun waited same => ?_, ihInside.2, ih.2⟩
      · cases List.mem_cons.mp member with
        | inl here => exact other (by rw [same, here])
        | inr behind => exact ih.1 waited same behind
      · rw [opening] at same
        exact ihInside.1 waited same

theorem render_head (closes : τ → Option τ) (distinct : Distinct closes) (message : Message τ ν)
    (nested : message.WellNested closes) (filled : message.render ≠ []) :
    ∃ next tail, message.render = next :: tail ∧ ∀ start, closes start ≠ some next.1 := by
  cases message with
  | nil => exact absurd rfl filled
  | field token more => exact ⟨token, more.render, rfl, nested.2.1⟩
  | group start body stop more =>
      refine ⟨start, body.render ++ stop :: more.render, rfl, fun other same => ?_⟩
      have plain := distinct.plain other start.1 same
      rw [nested.1] at plain
      exact absurd plain (by simp)

theorem reads_render (closes : τ → Option τ) (distinct : Distinct closes) (parent : Option τ) (message : Message τ ν)
    (rest left : List (Token τ ν)) (nodes : Forest τ ν) (nested : message.WellNested closes) (apart : message.Apart parent)
    (reads : Reads closes (parent.bind closes) rest nodes left) :
    Reads closes (parent.bind closes) (message.render ++ rest) (message.expected.append nodes) left := by
  induction message generalizing parent rest left nodes with
  | nil => exact reads
  | field token more ih =>
      have other : parent.bind closes ≠ some token.1 := by
        intro same
        obtain ⟨start, _, closing⟩ := Option.bind_eq_some_iff.mp same
        exact nested.2.1 start closing
      exact .leaf _ token _ left _ other nested.1 (ih parent rest left nodes nested.2.2 apart reads)
  | group start body stop more ihBody ih =>
      obtain ⟨opening, filled, bodyNested, moreNested⟩ := nested
      obtain ⟨next, tail, shape, first⟩ := render_head closes distinct body bodyNested filled
      have later := ih parent rest left nodes moreNested apart.2.2 reads
      have inside := ihBody (some start.1) (stop :: (more.render ++ rest)) _ .nil bodyNested apart.2.1 (by
        rw [Option.bind_some, opening]
        exact .closed stop (more.render ++ rest))
      rw [Option.bind_some, opening, Forest.append_nil, shape] at inside
      have starts : parent.bind closes ≠ some start.1 := by
        intro same
        obtain ⟨own, _, closing⟩ := Option.bind_eq_some_iff.mp same
        have plain := distinct.plain own start.1 closing
        rw [opening] at plain
        exact absurd plain (by simp)
      have stops : parent.bind closes ≠ some stop.1 := by
        intro same
        obtain ⟨own, here, closing⟩ := Option.bind_eq_some_iff.mp same
        rw [distinct.stops own start.1 stop.1 closing opening] at here
        exact apart.1 here
      have behind : Reads closes (parent.bind closes) (stop :: (more.render ++ rest))
          (.node stop .nil (more.expected.append nodes)) left :=
        .leaf _ stop _ left _ stops (distinct.plain start.1 stop.1 opening) later
      have whole := Reads.group _ start next stop.1 _ _ left _ _ starts opening (fun same => first start.1 (same ▸ opening))
        inside behind
      simpa [Message.render, Message.expected, Forest.append, shape] using whole

theorem clear_apart (closes : τ → Option τ) (parent : Option τ) (message : Message τ ν) (nested : message.WellNested closes)
    (outside : ∀ closing, parent.bind closes = some closing → closing ∉ message.expected.tags)
    (clear : message.expected.Clear closes) : message.Apart parent := by
  induction message generalizing parent with
  | nil => trivial
  | field token more ih =>
      exact ih parent nested.2.2 (fun closing same member => outside closing same (List.mem_cons_of_mem _ member)) clear.2.2
  | group start body stop more ihBody ih =>
      obtain ⟨opening, _, bodyNested, moreNested⟩ := nested
      refine ⟨?_, ihBody (some start.1) bodyNested clear.1 clear.2.1, ih parent moreNested ?_ clear.2.2.2.2⟩
      · intro same
        exact outside stop.1 (by rw [same, Option.bind_some, opening]) (by simp [Message.expected, Forest.tags])
      · intro closing same member
        exact outside closing same (by simp [Message.expected, Forest.tags, member])

-- The reader waits for the innermost closing tag only, so it brackets a message
-- as it is written exactly when no group stands directly in one of its name.
theorem reads_message_iff (closes : τ → Option τ) (distinct : Distinct closes) (message : Message τ ν)
    (nested : message.WellNested closes) :
    Reads closes none message.render message.expected [] ↔ message.Apart none := by
  constructor
  · intro reads
    exact clear_apart closes none message nested (fun _ impossible => by simp at impossible)
      (reads_clear closes none message.render [] message.expected reads).2
  · intro apart
    have reads := reads_render closes distinct none message [] [] .nil nested apart (.done none)
    simpa using reads

variable [DecidableEq τ]

def closesAtOnce (closes : τ → Option τ) (token next : Token τ ν) : Bool := closes token.1 = some next.1

theorem reads_preorder (closes : τ → Option τ) (stop : Option τ) (tokens rest : List (Token τ ν)) (nodes : Forest τ ν)
    (reads : Reads closes stop tokens nodes rest) :
    nodes.preorder ++ sift (closesAtOnce closes) rest = sift (closesAtOnce closes) tokens := by
  induction reads with
  | done stop => rfl
  | closed token tail => rfl
  | leaf stop token tail rest nodes other plain later ih =>
      rw [sift_kept _ token tail fun next _ => by simp [closesAtOnce, plain], ← ih]
      rfl
  | skip stop token next tail rest nodes other empty later ih =>
      rw [sift, if_pos (by simp [closesAtOnce, empty]), ih]
  | group stop token next closing tail middle rest children nodes other opening filled inside later ihInside ih =>
      have kept : ¬ closesAtOnce closes token next = true := by simpa [closesAtOnce, opening] using Ne.symm filled
      rw [sift, if_neg kept, ← ihInside, ← ih, Forest.preorder]
      simp

def LastPlain (closes : τ → Option τ) (tokens : List (Token τ ν)) : Prop :=
  ∀ token, tokens.getLast? = some token → closes token.1 = none

omit [DecidableEq τ] in
theorem last_plain_suffix (closes : τ → Option τ) (tokens rest : List (Token τ ν)) (plain : LastPlain closes tokens)
    (suffix : rest <:+ tokens) : LastPlain closes rest := by
  intro token last
  obtain ⟨front, rfl⟩ := suffix
  apply plain token
  rw [List.getLast?_append, last]
  rfl

omit [DecidableEq τ] in
theorem last_plain_append (closes : τ → Option τ) (front : List (Token τ ν)) (token : Token τ ν) (tail : List (Token τ ν))
    (plain : LastPlain closes (token :: tail)) : LastPlain closes (front ++ token :: tail) := by
  intro last same
  rw [List.getLast?_append, List.getLast?_cons] at same
  exact plain last (by rw [List.getLast?_cons]; exact same)

omit [DecidableEq τ] in
theorem last_plain_cons (closes : τ → Option τ) (token : Token τ ν) (tail : List (Token τ ν)) (own : closes token.1 = none)
    (plain : LastPlain closes tail) : LastPlain closes (token :: tail) := by
  cases tail with
  | nil =>
      intro last same
      obtain rfl : token = last := Option.some.inj same
      exact own
  | cons next tail => exact last_plain_append closes [token] next tail plain

omit [DecidableEq τ] in
theorem render_last_plain (closes : τ → Option τ) (distinct : Distinct closes) (message : Message τ ν)
    (nested : message.WellNested closes) : LastPlain closes message.render := by
  induction message with
  | nil => exact fun _ impossible => by simp [Message.render] at impossible
  | field token more ih => exact last_plain_cons closes token more.render nested.1 (ih nested.2.2)
  | group start body stop more _ ih =>
      have behind := last_plain_cons closes stop more.render (distinct.plain start.1 stop.1 nested.1) (ih nested.2.2.2)
      exact last_plain_append closes (start :: body.render) stop more.render behind

theorem reads_exists (closes : τ → Option τ) (stop : Option τ) (tokens : List (Token τ ν)) (plain : LastPlain closes tokens) :
    ∃ nodes rest, Reads closes stop tokens nodes rest := by
  cases tokens with
  | nil => exact ⟨.nil, [], .done stop⟩
  | cons token tail =>
      have behind := last_plain_suffix closes (token :: tail) tail plain (List.suffix_cons token tail)
      by_cases closed : stop = some token.1
      · subst closed
        exact ⟨.nil, token :: tail, .closed token tail⟩
      · cases kind : closes token.1 with
        | none =>
            obtain ⟨nodes, rest, later⟩ := reads_exists closes stop tail behind
            exact ⟨.node token .nil nodes, rest, .leaf stop token tail rest nodes closed kind later⟩
        | some closing =>
            cases tail with
            | nil => exact absurd (plain token rfl) (by simp [kind])
            | cons next tail =>
                by_cases empty : next.1 = closing
                · obtain ⟨nodes, rest, later⟩ := reads_exists closes stop (next :: tail) behind
                  exact ⟨nodes, rest, .skip stop token next tail rest nodes closed (by rw [kind, empty]) later⟩
                · obtain ⟨children, middle, inside⟩ := reads_exists closes (some closing) (next :: tail) behind
                  have suffix := reads_suffix closes (some closing) (next :: tail) middle children inside
                  have less : middle.length < (token :: next :: tail).length := Nat.lt_succ_of_le suffix.length_le
                  obtain ⟨nodes, rest, later⟩ :=
                    reads_exists closes stop middle (last_plain_suffix closes (next :: tail) middle behind suffix)
                  exact ⟨.node token children nodes, rest,
                    .group stop token next closing tail middle rest children nodes closed kind empty inside later⟩
termination_by tokens.length

end Libx.Brackets
