import Mathlib.Data.List.Basic

set_option autoImplicit false

-- Reports of hosts and what follows each of them, over any addresses.
namespace Libx.NetScan.HostBlocks

variable {I M : Type}

inductive Kind (I M : Type) where
  | report (ip : Option I)
  | mac (mac : Option M)
  | other
deriving DecidableEq

structure Block (I M : Type) where
  ip : Option I
  macs : List M

def macsOf : List (Kind I M) → List M
  | [] => []
  | .report _ :: _ => []
  | .mac (some mac) :: rest => mac :: macsOf rest
  | .mac none :: rest => macsOf rest
  | .other :: rest => macsOf rest

def blocks : List (Kind I M) → List (Block I M)
  | [] => []
  | .report ip :: rest => ⟨ip, macsOf rest⟩ :: blocks rest
  | .mac _ :: rest => blocks rest
  | .other :: rest => blocks rest

def Block.pair : Block I M → Option (M × I)
  | ⟨some ip, mac :: _⟩ => some (mac, ip)
  | ⟨some _, []⟩ => none
  | ⟨none, _⟩ => none

@[simp] theorem pair_nothing (macs : List M) : (⟨none, macs⟩ : Block I M).pair = none := rfl
@[simp] theorem pair_alone (ip : I) : (⟨some ip, []⟩ : Block I M).pair = none := rfl
@[simp] theorem pair_first (ip : I) (mac : M) (macs : List M) : (⟨some ip, mac :: macs⟩ : Block I M).pair = some (mac, ip) := rfl

theorem pairs_cons (block : Block I M) (more : List (Block I M)) :
    (block :: more).filterMap Block.pair = block.pair.toList ++ more.filterMap Block.pair := by
  cases paired : block.pair with
  | none => simp [paired]
  | some pair => simp [paired]

inductive Kept (I M : Type) where
  | nothing
  | address (ip : I)
  | mac (mac : M)

def Kept.ip : Kept I M → Option I
  | .nothing => none
  | .address ip => some ip
  | .mac _ => none

def meet : Kept I M → Kind I M → List (M × I) × Kept I M
  | .mac mac, .report (some ip) => ([(mac, ip)], .nothing)
  | .nothing, .report (some ip) => ([], .address ip)
  | .address _, .report (some ip) => ([], .address ip)
  | .mac mac, .report none => ([], .mac mac)
  | .nothing, .report none => ([], .nothing)
  | .address _, .report none => ([], .nothing)
  | .address ip, .mac (some mac) => ([(mac, ip)], .nothing)
  | .nothing, .mac (some mac) => ([], .mac mac)
  | .mac _, .mac (some mac) => ([], .mac mac)
  | .address ip, .mac none => ([], .address ip)
  | .nothing, .mac none => ([], .nothing)
  | .mac _, .mac none => ([], .nothing)
  | kept, .other => ([], kept)

def pairsFrom : Kept I M → List (Kind I M) → List (M × I)
  | _, [] => []
  | kept, line :: rest => (meet kept line).1 ++ pairsFrom (meet kept line).2 rest

def Collides : Kept I M → Kind I M → Prop
  | .mac _, .report (some _) => True
  | _, _ => False

def Safe : Kept I M → List (Kind I M) → Prop
  | _, [] => True
  | kept, line :: rest => ¬ Collides kept line ∧ Safe (meet kept line).2 rest

theorem safe_pairs (kept : Kept I M) (lines : List (Kind I M)) (safe : Safe kept lines) :
    pairsFrom kept lines = (Block.pair ⟨kept.ip, macsOf lines⟩).toList ++ (blocks lines).filterMap Block.pair := by
  induction lines generalizing kept with
  | nil => cases kept <;> rfl
  | cons line rest ih =>
      have later := ih _ safe.2
      rw [pairsFrom, later]
      cases line with
      | report found =>
          rw [blocks, pairs_cons]
          cases found with
          | none => cases kept <;> simp [meet, Kept.ip, macsOf]
          | some ip =>
              cases kept with
              | mac mac => exact absurd trivial safe.1
              | nothing => simp [meet, Kept.ip, macsOf]
              | address other => simp [meet, Kept.ip, macsOf]
      | mac found =>
          cases found with
          | none => cases kept <;> simp [meet, Kept.ip, macsOf, blocks]
          | some mac => cases kept <;> simp [meet, Kept.ip, macsOf, blocks]
      | other => cases kept <;> simp [meet, Kept.ip, macsOf, blocks]

def Quiet (line : Kind I M) : Prop := line = .mac none ∨ line = .other

def Silent (line : Kind I M) : Prop := line = .report none ∨ line = .other

def Awaiting (lines : List (Kind I M)) : Prop :=
  ∃ before ip inside, lines = before ++ .report (some ip) :: inside ∧ ∀ line ∈ inside, Quiet line

def Reached (lines : List (Kind I M)) : Prop :=
  ∃ between ip after, lines = between ++ .report (some ip) :: after ∧ ∀ line ∈ between, Silent line

def Stray (lines : List (Kind I M)) : Prop :=
  ∃ before mac after, lines = before ++ .mac (some mac) :: after ∧ ¬ Awaiting before ∧ Reached after

def AwaitingFrom (kept : Kept I M) (lines : List (Kind I M)) : Prop :=
  Awaiting lines ∨ kept.ip ≠ none ∧ ∀ line ∈ lines, Quiet line

def StrayFrom (kept : Kept I M) (lines : List (Kind I M)) : Prop :=
  (∃ mac, kept = .mac mac) ∧ Reached lines ∨
    ∃ before mac after, lines = before ++ .mac (some mac) :: after ∧ ¬ AwaitingFrom kept before ∧ Reached after

theorem reached_cons (line : Kind I M) (rest : List (Kind I M)) :
    Reached (line :: rest) ↔ (∃ ip, line = .report (some ip)) ∨ Silent line ∧ Reached rest := by
  constructor
  · rintro ⟨between, ip, after, split, silent⟩
    cases between with
    | nil => exact .inl ⟨ip, (List.cons.inj split).1⟩
    | cons first between =>
        obtain ⟨rfl, rfl⟩ := List.cons.inj split
        exact .inr ⟨silent line (by simp), between, ip, after, rfl, fun later member => silent later (by simp [member])⟩
  · rintro (⟨ip, rfl⟩ | ⟨quiet, between, ip, after, rfl, silent⟩)
    · exact ⟨[], ip, rest, rfl, by simp⟩
    · exact ⟨line :: between, ip, after, rfl, List.forall_mem_cons.mpr ⟨quiet, silent⟩⟩

theorem awaiting_cons (line : Kind I M) (rest : List (Kind I M)) :
    Awaiting (line :: rest) ↔ (∃ ip, line = .report (some ip)) ∧ (∀ later ∈ rest, Quiet later) ∨ Awaiting rest := by
  constructor
  · rintro ⟨before, ip, inside, split, quiet⟩
    cases before with
    | nil =>
        obtain ⟨rfl, rfl⟩ := List.cons.inj split
        exact .inl ⟨⟨ip, rfl⟩, quiet⟩
    | cons first before => exact .inr ⟨before, ip, inside, (List.cons.inj split).2, quiet⟩
  · rintro (⟨⟨ip, rfl⟩, quiet⟩ | ⟨before, ip, inside, rfl, quiet⟩)
    · exact ⟨[], ip, rest, rfl, quiet⟩
    · exact ⟨line :: before, ip, inside, rfl, quiet⟩

theorem awaiting_from_cons (kept : Kept I M) (line : Kind I M) (rest : List (Kind I M)) (apart : ¬ Collides kept line) :
    AwaitingFrom kept (line :: rest) ↔ AwaitingFrom (meet kept line).2 rest := by
  have same : (∃ ip, line = .report (some ip)) ∨ kept.ip ≠ none ∧ Quiet line ↔ (meet kept line).2.ip ≠ none := by
    cases line with
    | report found =>
        cases found with
        | none => cases kept <;> simp [meet, Kept.ip, Quiet]
        | some ip =>
            cases kept with
            | mac mac => exact absurd trivial apart
            | nothing => simp [meet, Kept.ip]
            | address other => simp [meet, Kept.ip]
    | mac found =>
        cases found with
        | none => cases kept <;> simp [meet, Kept.ip, Quiet]
        | some mac => cases kept <;> simp [meet, Kept.ip, Quiet]
    | other => cases kept <;> simp [meet, Kept.ip, Quiet]
  rw [AwaitingFrom, AwaitingFrom, awaiting_cons, List.forall_mem_cons, ← same]
  tauto

theorem kept_mac_cons (kept : Kept I M) (line : Kind I M) (rest : List (Kind I M)) (apart : ¬ Collides kept line) :
    (∃ mac, (meet kept line).2 = .mac mac) ∧ Reached rest ↔
      (∃ mac, kept = .mac mac) ∧ Reached (line :: rest) ∨ (∃ mac, line = .mac (some mac)) ∧ kept.ip = none ∧ Reached rest := by
  rw [reached_cons]
  cases line with
  | report found =>
      cases found with
      | none => cases kept <;> simp [meet, Silent]
      | some ip =>
          cases kept with
          | mac mac => exact absurd trivial apart
          | nothing => simp [meet]
          | address other => simp [meet]
  | mac found =>
      cases found with
      | none => cases kept <;> simp [meet, Silent]
      | some mac => cases kept <;> simp [meet, Silent, Kept.ip]
  | other => cases kept <;> simp [meet, Silent]

theorem stray_from_cons (kept : Kept I M) (line : Kind I M) (rest : List (Kind I M)) (apart : ¬ Collides kept line) :
    StrayFrom kept (line :: rest) ↔ StrayFrom (meet kept line).2 rest := by
  rw [StrayFrom, StrayFrom, kept_mac_cons kept line rest apart, or_assoc]
  refine or_congr_right ?_
  constructor
  · rintro ⟨before, mac, after, split, alone, reached⟩
    cases before with
    | nil =>
        obtain ⟨rfl, rfl⟩ := List.cons.inj split
        have missing : kept.ip = none := by
          by_contra present
          exact alone (.inr ⟨present, by simp⟩)
        exact .inl ⟨⟨mac, rfl⟩, missing, reached⟩
    | cons first before =>
        obtain ⟨rfl, rfl⟩ := List.cons.inj split
        exact .inr ⟨before, mac, after, rfl, mt (awaiting_from_cons kept line before apart).mpr alone, reached⟩
  · rintro (⟨⟨mac, rfl⟩, missing, reached⟩ | ⟨before, mac, after, rfl, alone, reached⟩)
    · refine ⟨[], mac, rest, rfl, ?_, reached⟩
      rintro (⟨before, ip, inside, split, -⟩ | ⟨present, -⟩)
      · simp at split
      · exact present missing
    · exact ⟨line :: before, mac, after, rfl, mt (awaiting_from_cons kept line before apart).mp alone, reached⟩

theorem safe_iff (kept : Kept I M) (lines : List (Kind I M)) : Safe kept lines ↔ ¬ StrayFrom kept lines := by
  induction lines generalizing kept with
  | nil => simp [Safe, StrayFrom, Reached]
  | cons line rest ih =>
      by_cases collides : Collides kept line
      · have stray : StrayFrom kept (line :: rest) := by
          cases kept with
          | mac mac =>
              cases line with
              | report found =>
                  cases found with
                  | some ip => exact .inl ⟨⟨mac, rfl⟩, [], ip, rest, rfl, by simp⟩
                  | none => exact collides.elim
              | mac found => exact collides.elim
              | other => exact collides.elim
          | nothing => exact collides.elim
          | address ip => exact collides.elim
        exact iff_of_false (fun safe => safe.1 collides) (not_not.mpr stray)
      · rw [stray_from_cons kept line rest collides, ← ih, Safe]
        simp [collides]

theorem safe_nothing_iff (lines : List (Kind I M)) : Safe .nothing lines ↔ ¬ Stray lines := by
  rw [safe_iff, StrayFrom, Stray]
  simp [AwaitingFrom, Kept.ip]

section Numbered

def Kind.tag (place : Nat) : Kind I M → Kind (Nat × I) (Nat × M)
  | .report found => .report (found.map (place, ·))
  | .mac found => .mac (found.map (place, ·))
  | .other => .other

def number : Nat → List (Kind I M) → List (Kind (Nat × I) (Nat × M))
  | _, [] => []
  | place, line :: rest => line.tag place :: number (place + 1) rest

def Kept.Untags : Kept (Nat × I) (Nat × M) → Kept I M → Prop
  | .nothing, .nothing => True
  | .address tagged, .address ip => tagged.2 = ip
  | .mac tagged, .mac kept => tagged.2 = kept
  | _, _ => False

theorem meet_untags (place : Nat) (line : Kind I M) (tagged : Kept (Nat × I) (Nat × M)) (kept : Kept I M)
    (untags : tagged.Untags kept) :
    (meet tagged (line.tag place)).2.Untags (meet kept line).2 ∧ (Collides tagged (line.tag place) ↔ Collides kept line) := by
  cases tagged <;> cases kept <;> simp only [Kept.Untags] at untags <;> rcases line with (_ | _) | (_ | _) | _ <;>
    simp [Kind.tag, meet, Kept.Untags, Collides, untags]

theorem safe_number (place : Nat) (lines : List (Kind I M)) (tagged : Kept (Nat × I) (Nat × M)) (kept : Kept I M)
    (untags : tagged.Untags kept) : Safe tagged (number place lines) ↔ Safe kept lines := by
  induction lines generalizing place tagged kept with
  | nil => exact Iff.rfl
  | cons line rest ih =>
      obtain ⟨next, same⟩ := meet_untags place line tagged kept untags
      rw [number, Safe, Safe, same, ih (place + 1) _ _ next]

theorem macs_number (place : Nat) (lines : List (Kind I M)) : ∀ mac ∈ macsOf (number place lines), place ≤ mac.1 := by
  induction lines generalizing place with
  | nil => simp [number, macsOf]
  | cons line rest ih =>
      have later : ∀ mac ∈ macsOf (number (place + 1) rest), place ≤ mac.1 := fun mac member =>
        Nat.le_of_succ_le (ih (place + 1) mac member)
      rw [number]
      cases line with
      | report found => simp [Kind.tag, macsOf]
      | other => exact later
      | mac found =>
          cases found with
          | none => exact later
          | some mac => exact List.forall_mem_cons.mpr ⟨Nat.le_refl place, later⟩

def Ordered (block : Block (Nat × I) (Nat × M)) : Prop := ∀ ip, block.ip = some ip → ∀ mac ∈ block.macs, ip.1 < mac.1

def Before (block later : Block (Nat × I) (Nat × M)) : Prop := ∀ ip ip', block.ip = some ip → later.ip = some ip' → ip.1 < ip'.1

theorem blocks_number (place : Nat) (lines : List (Kind I M)) :
    (∀ block ∈ blocks (number place lines), Ordered block ∧ ∀ ip, block.ip = some ip → place ≤ ip.1) ∧
      (blocks (number place lines)).Pairwise Before := by
  induction lines generalizing place with
  | nil => simp [number, blocks]
  | cons line rest ih =>
      obtain ⟨inside, pairwise⟩ := ih (place + 1)
      have later : ∀ block ∈ blocks (number (place + 1) rest), Ordered block ∧ ∀ ip, block.ip = some ip → place ≤ ip.1 :=
        fun block member => ⟨(inside block member).1, fun ip found => Nat.le_of_succ_le ((inside block member).2 ip found)⟩
      rw [number]
      cases line with
      | mac found => exact ⟨later, pairwise⟩
      | other => exact ⟨later, pairwise⟩
      | report found =>
          have own (ip : Nat × I) (same : found.map (place, ·) = some ip) : ip.1 = place := by
            obtain ⟨_, _, rfl⟩ := Option.map_eq_some_iff.mp same
            rfl
          refine ⟨List.forall_mem_cons.mpr ⟨⟨fun ip same mac member => ?_, fun ip same => Nat.le_of_eq (own ip same).symm⟩, later⟩,
            List.pairwise_cons.mpr ⟨fun block member ip ip' same found' => ?_, pairwise⟩⟩
          · rw [own ip same]
            exact macs_number (place + 1) rest mac member
          · rw [own ip same]
            exact (inside block member).2 ip' found'

theorem meet_mac (kept : Kept I M) (line : Kind I M) (mac : M) (same : (meet kept line).2 = .mac mac) :
    kept = .mac mac ∨ line = .mac (some mac) := by
  cases kept <;> rcases line with (_ | _) | (_ | _) | _ <;> simp_all [meet]

theorem tag_mac (place : Nat) (line : Kind I M) (mac : Nat × M) (same : line.tag place = .mac (some mac)) : mac.1 = place := by
  rcases line with _ | (_ | found) | _
  · simp [Kind.tag] at same
  · simp [Kind.tag] at same
  · obtain rfl := Option.some.inj (Kind.mac.inj same)
    rfl
  · simp [Kind.tag] at same

theorem unsafe_inverted (place : Nat) (lines : List (Kind I M)) (kept : Kept (Nat × I) (Nat × M))
    (past : ∀ mac, kept = .mac mac → mac.1 < place) (collides : ¬ Safe kept (number place lines)) :
    ∃ pair ∈ pairsFrom kept (number place lines), pair.1.1 < pair.2.1 := by
  induction lines generalizing place kept with
  | nil => exact absurd trivial collides
  | cons line rest ih =>
      rw [number] at collides ⊢
      by_cases here : Collides kept (line.tag place)
      · cases kept with
        | nothing => exact here.elim
        | address ip => exact here.elim
        | mac mac =>
            rcases line with (_ | ip) | _ | _
            · exact here.elim
            · exact ⟨(mac, (place, ip)), by simp [pairsFrom, Kind.tag, meet], past mac rfl⟩
            · exact here.elim
            · exact here.elim
      · have next : ∀ mac, (meet kept (line.tag place)).2 = .mac mac → mac.1 < place + 1 := by
          intro mac same
          rcases meet_mac kept (line.tag place) mac same with old | new
          · exact Nat.lt_succ_of_lt (past mac old)
          · exact Nat.lt_succ_of_le (Nat.le_of_eq (tag_mac place line mac new))
        obtain ⟨pair, member, inverted⟩ := ih (place + 1) _ next fun safe => collides ⟨here, safe⟩
        exact ⟨pair, List.mem_append_right _ member, inverted⟩

end Numbered

theorem pair_own (block : Block I M) (pair : M × I) (same : block.pair = some pair) :
    block.ip = some pair.2 ∧ pair.1 ∈ block.macs := by
  obtain ⟨ip, macs⟩ := block
  cases ip with
  | none => simp at same
  | some ip =>
      cases macs with
      | nil => simp at same
      | cons mac macs =>
          obtain rfl := Option.some.inj same
          exact ⟨rfl, by simp⟩

section Filtered

variable [DecidableEq I]

theorem filter_other (hosts : List (Block I M)) (ip : I) (apart : ∀ block ∈ hosts, block.ip ≠ some ip) :
    (hosts.filterMap Block.pair).filter (fun pair => pair.2 = ip) = [] := by
  rw [List.filter_eq_nil_iff]
  intro pair member same
  obtain ⟨block, inside, paired⟩ := List.mem_filterMap.mp member
  exact apart block inside ((of_decide_eq_true same) ▸ (pair_own block pair paired).1)

theorem filter_pairs (hosts : List (Block I M)) (ip : I) (block : Block I M)
    (apart : hosts.Pairwise fun first later => first.ip = some ip → later.ip ≠ some ip) (member : block ∈ hosts)
    (own : block.ip = some ip) : (hosts.filterMap Block.pair).filter (fun pair => pair.2 = ip) = block.pair.toList := by
  induction hosts with
  | nil => exact absurd member List.not_mem_nil
  | cons first rest ih =>
      obtain ⟨others, pairwise⟩ := List.pairwise_cons.mp apart
      rw [pairs_cons, List.filter_append]
      rcases List.mem_cons.mp member with rfl | inside
      · have kept : block.pair.toList.filter (fun pair => pair.2 = ip) = block.pair.toList := by
          rw [List.filter_eq_self]
          intro pair found
          have same := (pair_own block pair (Option.mem_toList.mp found)).1
          exact decide_eq_true (Option.some.inj (same.symm.trans own))
        rw [kept, filter_other rest ip fun later inside => others later inside own, List.append_nil]
      · have dropped : first.pair.toList.filter (fun pair => pair.2 = ip) = [] := by
          rw [List.filter_eq_nil_iff]
          intro pair found same
          have its := (pair_own first pair (Option.mem_toList.mp found)).1
          exact others block inside (of_decide_eq_true same ▸ its) own
        rw [dropped, List.nil_append, ih pairwise inside]

end Filtered

structure Paired [DecidableEq I] (lines : List (Kind I M)) (pairs : List (M × I)) : Prop where
  within : ∀ mac ip, (mac, ip) ∈ pairs → ∃ block ∈ blocks lines, block.ip = some ip ∧ mac ∈ block.macs
  complete : ∀ block ∈ blocks lines, ∀ ip mac, block.ip = some ip → block.macs = [mac] →
    pairs.filter (fun pair => pair.2 = ip) = [(mac, ip)]

theorem paired_iff [DecidableEq I] (lines : List (Kind I M)) :
    Paired (number 0 lines) (pairsFrom .nothing (number 0 lines)) ↔ ¬ Stray lines := by
  obtain ⟨inside, pairwise⟩ := blocks_number 0 lines
  rw [← safe_nothing_iff lines, ← safe_number 0 lines .nothing .nothing trivial]
  constructor
  · intro paired
    by_contra collides
    obtain ⟨pair, member, inverted⟩ := unsafe_inverted 0 lines .nothing (fun mac same => by cases same) collides
    obtain ⟨block, found, address, listed⟩ := paired.within pair.1 pair.2 member
    exact Nat.lt_asymm inverted ((inside block found).1 pair.2 address pair.1 listed)
  · intro safe
    have pairs : pairsFrom .nothing (number 0 lines) = (blocks (number 0 lines)).filterMap Block.pair :=
      (safe_pairs .nothing (number 0 lines) safe).trans (List.nil_append _)
    rw [pairs]
    constructor
    · intro mac ip member
      obtain ⟨block, found, paired⟩ := List.mem_filterMap.mp member
      exact ⟨block, found, pair_own block (mac, ip) paired⟩
    · intro block member ip mac address alone
      have apart := pairwise.imp fun {first later} before same other => Nat.lt_irrefl ip.1 (before ip ip same other)
      rw [filter_pairs _ ip block apart member address]
      obtain ⟨_, _⟩ := block
      obtain rfl : _ = some ip := address
      obtain rfl : _ = [mac] := alone
      rfl

end Libx.NetScan.HostBlocks
