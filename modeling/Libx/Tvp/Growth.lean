import Libx.Tvp.Message

set_option autoImplicit false

namespace Libx.Tvp.V1

theorem ones_iff (w : UInt64) (small : w.toNat + 1 < 2 ^ 64) : w &&& (w + 1) = 0 ↔ ∃ k, w.toNat + 1 = 2 ^ k := by
  have next : (w + 1).toNat = w.toNat + 1 := by
    rw [UInt64.toNat_add, UInt64.toNat_one]
    omega
  have power := Nat.and_sub_one_eq_zero_iff_isPowerOfTwo (Nat.succ_ne_zero w.toNat)
  rw [← UInt64.toNat_inj, UInt64.toNat_and, next, Nat.and_comm]
  exact power

theorem ones_odd (w : UInt64) (ones : w &&& (w + 1) = 0) (present : w ≠ 0) : w.toNat % 2 = 1 := by
  by_contra even
  have size := w.toNat_lt
  obtain ⟨k, power⟩ := (ones_iff w (by omega)).mp ones
  cases k with
  | zero =>
      have zero : w.toNat = 0 := by simpa using power
      exact present (UInt64.toNat_inj.mp zero)
  | succ k =>
      rw [Nat.pow_succ] at power
      omega

theorem round_loop_grows (shifts : List UInt64) (powtwo rounded : UInt64) (run : roundUpLoop shifts powtwo = .ok rounded) :
    powtwo.toNat ≤ rounded.toNat ∧ rounded &&& (rounded + 1) = 0 := by
  induction shifts generalizing powtwo with
  | nil =>
      by_cases ones : powtwo &&& (powtwo + 1) = 0
      · rw [roundUpLoop, if_pos ones] at run
        obtain rfl := Except.ok.inj run
        exact ⟨Nat.le_refl _, ones⟩
      · rw [roundUpLoop, if_neg ones] at run
        contradiction
  | cons i shifts ih =>
      by_cases ones : powtwo &&& (powtwo + 1) = 0
      · rw [roundUpLoop, if_pos ones] at run
        obtain rfl := Except.ok.inj run
        exact ⟨Nat.le_refl _, ones⟩
      · rw [roundUpLoop, if_neg ones] at run
        obtain ⟨grown, result⟩ := ih _ run
        rw [UInt64.toNat_or] at grown
        exact ⟨Nat.le_trans Nat.left_le_or grown, result⟩

-- The shifts go to the left: one of them already carries the number above twice itself.
theorem round_loop_doubles (shifts : List UInt64) (sz rounded : UInt64) (bounded : sz.toNat < 2 ^ 63) (present : sz ≠ 0)
    (other : ¬ sz &&& (sz + 1) = 0) (run : roundUpLoop (1 :: shifts) sz = .ok rounded) : 2 * sz.toNat + 1 ≤ rounded.toNat := by
  rw [roundUpLoop, if_neg other] at run
  obtain ⟨grown, ones⟩ := round_loop_grows shifts _ rounded run
  have shifted : (sz <<< 1).toNat = 2 * sz.toNat := by
    rw [UInt64.toNat_shiftLeft, UInt64.toNat_one, Nat.shiftLeft_eq, show 2 ^ (1 % 64) = 2 from rfl]
    omega
  rw [UInt64.toNat_or, shifted] at grown
  have twice := Nat.le_trans Nat.right_le_or grown
  have positive : sz.toNat ≠ 0 := fun zero => present (UInt64.toNat_inj.mp zero)
  have filled : rounded ≠ 0 := by
    rintro rfl
    rw [UInt64.toNat_zero] at twice
    omega
  have odd := ones_odd rounded ones filled
  omega

theorem assert_ok (condition : Bool) (value : Unit) (passed : assert condition = .ok value) : condition = true := by
  cases condition with
  | true => rfl
  | false => contradiction

theorem round_up_ones (sz : UInt64) (bounded : sz.toNat ≤ 2 ^ 62) (ones : sz &&& (sz + 1) = 0) :
    roundUpToPowerOfTwo sz = .ok (sz + 1) := by
  have next : (sz + 1).toNat = sz.toNat + 1 := by
    rw [UInt64.toNat_add, UInt64.toNat_one]
    omega
  have loop : roundUpLoop [1, 2, 4, 8, 16, 32] sz = .ok sz := by rw [roundUpLoop, if_pos ones]
  have larger : sz + 1 ≥ sz := by
    rw [ge_iff_le, UInt64.le_iff_toNat_le, next]
    omega
  have half : sz ≥ (sz + 1) / 2 := by
    rw [ge_iff_le, UInt64.le_iff_toNat_le, UInt64.toNat_div, next, show (2 : UInt64).toNat = 2 from rfl]
    omega
  have single : (sz + 1) &&& (sz + 1 - 1) = 0 := by
    rw [UInt64.add_sub_cancel, UInt64.and_comm]
    exact ones
  simp only [roundUpToPowerOfTwo, loop, Fallible.ok_bind, larger, half, single, decide_true, assert_true, Fallible.pure_eq_ok]

theorem round_up_other (sz : UInt64) (present : sz ≠ 0) (bounded : sz.toNat ≤ 2 ^ 62) (other : ¬ sz &&& (sz + 1) = 0)
    (powtwo : UInt64) : roundUpToPowerOfTwo sz ≠ .ok powtwo := by
  intro run
  obtain ⟨rounded, loop, checks⟩ := (Fallible.bind_ok_iff _ _ _).mp run
  obtain ⟨_, larger, checks⟩ := (Fallible.bind_ok_iff _ _ _).mp checks
  obtain ⟨_, half, _⟩ := (Fallible.bind_ok_iff _ _ _).mp checks
  have largerHolds := of_decide_eq_true (assert_ok _ _ larger)
  have halfHolds := of_decide_eq_true (assert_ok _ _ half)
  have doubled := round_loop_doubles _ sz rounded (by omega) present other loop
  have positive : sz.toNat ≠ 0 := fun zero => present (UInt64.toNat_inj.mp zero)
  have size := rounded.toNat_lt
  rw [ge_iff_le, UInt64.le_iff_toNat_le, UInt64.toNat_add, UInt64.toNat_one] at largerHolds
  rw [ge_iff_le, UInt64.le_iff_toNat_le, UInt64.toNat_div, UInt64.toNat_add, UInt64.toNat_one,
    show (2 : UInt64).toNat = 2 from rfl] at halfHolds
  omega

theorem round_up_result (sz : UInt64) (present : sz ≠ 0) (bounded : sz.toNat ≤ 2 ^ 62) :
    (∃ powtwo, roundUpToPowerOfTwo sz = .ok powtwo) ↔ ∃ k, sz.toNat + 1 = 2 ^ k := by
  rw [← ones_iff sz (by omega)]
  constructor
  · rintro ⟨powtwo, run⟩
    by_contra other
    exact round_up_other sz present bounded other powtwo run
  · intro ones
    exact ⟨sz + 1, round_up_ones sz bounded ones⟩

theorem round_up_exact (sz powtwo : UInt64) (present : sz ≠ 0) (bounded : sz.toNat ≤ 2 ^ 62)
    (run : roundUpToPowerOfTwo sz = .ok powtwo) : (∃ k, powtwo.toNat = 2 ^ k) ∧ sz ≤ powtwo ∧ powtwo / 2 ≤ sz := by
  obtain ⟨k, power⟩ := (round_up_result sz present bounded).mp ⟨powtwo, run⟩
  have ones := (ones_iff sz (by omega)).mpr ⟨k, power⟩
  obtain rfl := Except.ok.inj ((round_up_ones sz bounded ones).symm.trans run)
  have next : (sz + 1).toNat = sz.toNat + 1 := by
    rw [UInt64.toNat_add, UInt64.toNat_one]
    omega
  refine ⟨⟨k, next.trans power⟩, ?_, ?_⟩
  · rw [UInt64.le_iff_toNat_le, next]
    omega
  · rw [UInt64.le_iff_toNat_le, UInt64.toNat_div, next, show (2 : UInt64).toNat = 2 from rfl]
    omega

theorem is_empty_iff (msg : Msg) : isEmpty msg = .ok true ↔
    msg.lookup.originalSize = 0 ∧ msg.lookup.lastLookupPosition = 0 ∧ msg.used = 0 ∧
      msg.lookup.alreadySeenTagsCache = noWheres clipper := by
  constructor
  · intro empty
    by_cases size : msg.lookup.originalSize = 0
    · by_cases last : msg.lookup.lastLookupPosition = 0
      · by_cases used : msg.used = 0
        · by_cases cache : msg.lookup.alreadySeenTagsCache = noWheres clipper
          · exact ⟨size, last, used, cache⟩
          · simp [isEmpty, size, last, used, cache, assert] at empty
        · simp [isEmpty, size, last, used, assert] at empty
      · simp [isEmpty, size, last, assert] at empty
    · simp [isEmpty, size] at empty
  · exact is_empty_clear msg

theorem grow_iff (msg : Msg) (newmax : Nat) (present : newmax ≠ 0) (bounded : newmax ≤ 2 ^ 62) :
    (∃ after, grow newmax msg = .ok after) ↔ newmax ≤ msg.max ∨ ∃ k, newmax + 1 = 2 ^ k := by
  have exact_ : (UInt64.ofNat newmax).toNat = newmax := UInt64.toNat_ofNat_of_lt' (by omega : newmax < 2 ^ 64)
  have filled : UInt64.ofNat newmax ≠ 0 := fun zero => present (by rw [← exact_, zero]; rfl)
  have rounds := round_up_result (.ofNat newmax) filled (by rw [exact_]; exact bounded)
  rw [exact_] at rounds
  by_cases larger : newmax > msg.max
  · rw [grow, if_pos larger, ← rounds]
    constructor
    · rintro ⟨after, run⟩
      obtain ⟨powtwo, rounded, _⟩ := (Fallible.bind_ok_iff _ _ _).mp run
      exact .inr ⟨powtwo, rounded⟩
    · rintro (small | ⟨powtwo, rounded⟩)
      · exact absurd small (by omega)
      · exact ⟨_, by rw [rounded]; rfl⟩
  · rw [grow, if_neg larger]
    exact iff_of_true ⟨msg, rfl⟩ (.inl (by omega))

theorem set_grows (avoid : Bool) (msg : Msg) (empty : isEmpty msg = .ok true) (buf : Bytes) (size : Nat)
    (trimmed : trimmedSize buf = .ok size) (admitted : buf.length ≤ 100000) :
    (∃ after, set avoid buf msg = .ok (true, after)) ↔ ∃ after, grow (size + reserve) msg = .ok after := by
  have clear := (is_empty_iff msg).mp empty
  have small : ¬ buf.length > 100000 := by omega
  rw [set, empty]
  simp only [Fallible.ok_bind, Fallible.pure_eq_ok, if_true, if_neg small, clear.2.2.2, decide_true, assert_true, trimmed]
  cases grow (size + reserve) msg with
  | error fault => simp
  | ok grown =>
      by_cases filled : size ≠ 0
      · have loaded := is_empty_loaded { grown with
          lookup := { grown.lookup with content := buf.take size ++ grown.lookup.content.drop size, originalSize := size } } filled
        simp [filled, loaded, assert_true]
      · simp [filled]

theorem round_up_iff (sz : UInt64) (positive : 1 ≤ sz.toNat) (bounded : sz.toNat ≤ 2 ^ 62) :
    ((∃ powtwo, roundUpToPowerOfTwo sz = .ok powtwo ∧ (∃ k, powtwo.toNat = 2 ^ k) ∧ sz ≤ powtwo ∧ powtwo / 2 ≤ sz) ↔
        ∃ k, sz.toNat + 1 = 2 ^ k) ∧
      ∀ (avoid : Bool) (msg : Msg) (buf : Bytes) (size : Nat), isEmpty msg = .ok true → trimmedSize buf = .ok size →
        buf.length ≤ 100000 → size + reserve = sz.toNat → msg.max < sz.toNat →
        ((∃ after, set avoid buf msg = .ok (true, after)) ↔ ∃ k, sz.toNat + 1 = 2 ^ k) := by
  have present : sz ≠ 0 := by
    rintro rfl
    contradiction
  constructor
  · rw [← round_up_result sz present bounded]
    constructor
    · rintro ⟨powtwo, run, _⟩
      exact ⟨powtwo, run⟩
    · rintro ⟨powtwo, run⟩
      exact ⟨powtwo, run, round_up_exact sz powtwo present bounded run⟩
  · intro avoid msg buf size empty trimmed admitted needed larger
    rw [set_grows avoid msg empty buf size trimmed admitted, needed, grow_iff msg sz.toNat (by omega) bounded]
    constructor
    · rintro (small | power)
      · exact absurd small (by omega)
      · exact power
    · exact .inr

theorem trimmed_replicate (size : Nat) (long : 8 ≤ size) : trimmedSize (List.replicate size 65) = .ok size := by
  have plain : endsInChecksum (List.replicate size 65) = false := by
    rw [endsInChecksum, List.length_replicate, List.drop_replicate, List.take_replicate, show min 4 (size - (size - 8)) = 4 by omega]
    rfl
  rw [trimmedSize, plain, List.length_replicate, if_pos (by omega), if_neg (Nat.not_lt.mpr long), if_neg Bool.false_ne_true]

theorem round_up_iff_mask :
    (∃ powtwo, roundUpToPowerOfTwo 8191 = .ok powtwo ∧ (∃ k, powtwo.toNat = 2 ^ k) ∧ 8191 ≤ powtwo ∧ powtwo / 2 ≤ 8191) ∧
      ∃ after, set false (List.replicate 7167 65) fresh = .ok (true, after) := by
  obtain ⟨rounds, grows⟩ := round_up_iff 8191 (by decide) (by decide)
  have mask : ∃ k, (8191 : UInt64).toNat + 1 = 2 ^ k := ⟨13, by decide⟩
  have admitted : (List.replicate 7167 (65 : UInt8)).length ≤ 100000 := by
    rw [List.length_replicate]
    decide
  exact ⟨rounds.mpr mask, (grows false fresh (List.replicate 7167 65) 7167 (by decide) (trimmed_replicate 7167 (by decide)) admitted
    (by decide) (by decide)).mpr mask⟩

theorem round_up_fails :
    roundUpToPowerOfTwo 5000 = .error .badShift ∧ roundUpToPowerOfTwo 5001 = .error .assertion := by
  decide

end Libx.Tvp.V1
