import Libx.Argon2.Encoding

set_option autoImplicit false

namespace Libx.Argon2

open Decimal Fallible

theorem cc_iff (text str rest : Bytes) : CC text str = .ok rest ↔ str = text ++ rest := by
  rw [CC]
  constructor
  · intro taken
    by_cases starts : text.isPrefixOf str = true
    · rw [if_pos starts] at taken
      obtain ⟨more, rfl⟩ := List.isPrefixOf_iff_prefix.mp starts
      rw [List.drop_left] at taken
      rw [Except.ok.inj taken]
    · rw [if_neg starts] at taken
      exact absurd taken (by simp)
  · rintro rfl
    rw [if_pos (List.isPrefixOf_iff_prefix.mpr (List.prefix_append text rest)), List.drop_left]

theorem decimal_u32_iff (str : Bytes) (x : UInt32) (rest : Bytes) :
    decimalU32 str = .ok (x, rest) ↔ NoDigit rest ∧ str = decimal x.toNat ++ rest := by
  have small := x.toNat_lt
  rw [decimalU32]
  constructor
  · intro taken
    cases run : decodeDecimal str with
    | none =>
        rw [run] at taken
        exact absurd taken (by simp)
    | some result =>
        obtain ⟨v, left⟩ := result
        rw [run] at taken
        by_cases large : uint32Max < v
        · exact absurd taken (by simp [large])
        · simp only [large, if_false, Except.ok.injEq, Prod.mk.injEq] at taken
          obtain ⟨rfl, rfl⟩ := taken
          obtain ⟨_, noDigit, whole⟩ := (decode_decimal_iff str v left).mp run
          rw [uint32Max, Nat.not_lt] at large
          rw [UInt32.toNat_ofNat_of_lt' (Nat.lt_succ_of_le large)]
          exact ⟨noDigit, whole⟩
  · rintro ⟨noDigit, whole⟩
    rw [(decode_decimal_iff str x.toNat rest).mpr ⟨by unfold ulongMax; omega, noDigit, whole⟩]
    show (if uint32Max < x.toNat then _ else _) = _
    rw [if_neg (by unfold uint32Max; omega), UInt32.ofNat_toNat]

theorem bin_iff (maxLen : UInt32) (str bin rest : Bytes) :
    BIN maxLen.toNat str = .ok (bin, rest) ↔
      bin.length ≤ maxLen.toNat ∧ Stops rest ∧ ∃ text, str = text ++ rest ∧ text.map readAs = encodeLoop bin 0 0 := by
  have small := maxLen.toNat_lt
  rw [BIN]
  constructor
  · intro taken
    cases run : fromBase64 maxLen.toNat str with
    | none =>
        rw [run] at taken
        exact absurd taken (by simp)
    | some result =>
        obtain ⟨bin', rest'⟩ := result
        rw [run] at taken
        by_cases large : uint32Max < bin'.length
        · exact absurd taken (by simp [large])
        · simp only [large, if_false, Except.ok.injEq, Prod.mk.injEq] at taken
          obtain ⟨rfl, rfl⟩ := taken
          exact accepted_written maxLen.toNat str bin' rest' run
  · rintro ⟨fits, stops, text, rfl, written⟩
    rw [written_accepted maxLen.toNat text bin rest fits stops written]
    show (if uint32Max < bin.length then _ else _) = _
    rw [if_neg (by unfold uint32Max; omega)]

def settings (mCost tCost lanes : UInt32) (salt out : Bytes) : Bytes :=
  bytesOf "$m=" ++ (decimal mCost.toNat ++ (bytesOf ",t=" ++ (decimal tCost.toNat ++ (bytesOf ",p=" ++ (decimal lanes.toNat ++
    (bytesOf "$" ++ (salt ++ (bytesOf "$" ++ out))))))))

def layout (type : Argon2Type) (version : Bytes) (mCost tCost lanes : UInt32) (salt out : Bytes) : Bytes :=
  bytesOf "$" ++ (type2string type false ++ (version ++ settings mCost tCost lanes salt out))

def versionPart (version : UInt32) : Bytes := bytesOf "$v=" ++ decimal version.toNat

def Context.decoded (ctx : Context) (version mCost tCost lanes : UInt32) (salt out : Bytes) : Context :=
  { ctx with
    version := version, mCost := mCost, tCost := tCost, lanes := lanes, threads := lanes
    salt := ctx.salt.fill salt, out := ctx.out.fill out
    secret := .null, ad := .null, allocateCbk := false, freeCbk := false, flags := defaultFlags }

theorem cc_opt_iff (str : Bytes) (version : UInt32) (rest : Bytes) :
    CCOpt (bytesOf "$v=") version10 str = .ok (version, bytesOf "$m=" ++ rest) ↔
      ∃ part, str = part ++ (bytesOf "$m=" ++ rest) ∧ (part = versionPart version ∨ part = [] ∧ version = version10) := by
  rw [CCOpt]
  constructor
  · intro taken
    by_cases starts : (bytesOf "$v=").isPrefixOf str = true
    · rw [if_pos starts] at taken
      obtain ⟨more, rfl⟩ := List.isPrefixOf_iff_prefix.mp starts
      rw [List.drop_left] at taken
      obtain ⟨_, rfl⟩ := (decimal_u32_iff _ _ _).mp taken
      exact ⟨versionPart version, by rw [versionPart, List.append_assoc], .inl rfl⟩
    · rw [if_neg starts] at taken
      obtain ⟨rfl, rfl⟩ := Prod.mk.inj (Except.ok.inj taken)
      exact ⟨[], rfl, .inr ⟨rfl, rfl⟩⟩
  · rintro ⟨part, rfl, rfl | ⟨rfl, rfl⟩⟩
    · rw [versionPart, List.append_assoc, if_pos (List.isPrefixOf_iff_prefix.mpr (List.prefix_append _ _)), List.drop_left]
      refine (decimal_u32_iff _ _ _).mpr ⟨?_, rfl⟩
      intro c first
      obtain rfl : 36 = c := Option.some.inj first
      decide
    · rfl

theorem decode_string_iff (ctx after : Context) (str : Bytes) (type : Argon2Type) :
    decodeString ctx str type = .ok after ↔ ∃ part version mCost tCost lanes saltText salt outText out,
      str = layout type part mCost tCost lanes saltText outText ∧
      (part = versionPart version ∨ part = [] ∧ version = version10) ∧
      saltText.map readAs = encodeLoop salt 0 0 ∧ outText.map readAs = encodeLoop out 0 0 ∧
      salt.length ≤ ctx.salt.len.toNat ∧ out.length ≤ ctx.out.len.toNat ∧
      after = ctx.decoded version mCost tCost lanes salt out ∧ after.Valid := by
  simp only [decodeString, bind_ok_iff, cc_iff, decimal_u32_iff, bin_iff, Prod.exists]
  constructor
  · rintro ⟨_, rfl, _, rfl, version, _, opt, _, rfl, mCost, _, ⟨_, rfl⟩, _, rfl, tCost, _, ⟨_, rfl⟩, _, rfl, lanes, _, ⟨_, rfl⟩, _, rfl,
      salt, _, ⟨saltFits, _, saltText, rfl, saltWritten⟩, _, rfl, out, rest, ⟨outFits, _, outText, rfl, outWritten⟩, _, valid, ends⟩
    obtain ⟨part, rfl, versioned⟩ := (cc_opt_iff _ _ _).mp opt
    by_cases finished : rest = []
    · rw [if_pos finished] at ends
      obtain rfl := Except.ok.inj ends
      refine ⟨part, version, mCost, tCost, lanes, saltText, salt, outText, out, ?_, versioned, saltWritten, outWritten, saltFits, outFits,
        rfl, (validate_inputs_ok _).mp valid⟩
      rw [finished, List.append_nil]
      rfl
    · rw [if_neg finished] at ends
      exact absurd ends (by simp)
  · rintro ⟨part, version, mCost, tCost, lanes, saltText, salt, outText, out, rfl, versioned, saltWritten, outWritten, saltFits, outFits,
      rfl, valid⟩
    have closes : Stops (bytesOf "$" ++ outText) := by
      show sextetOf 36 = 0xFF
      decide
    have noDigit (text more : Bytes) (first : text.head?.map isDigit = some false) : NoDigit (text ++ more) := by
      intro c start
      cases text with
      | nil => exact absurd first (by simp)
      | cons d text =>
          obtain rfl : d = c := Option.some.inj start
          exact Option.some.inj first
    exact ⟨_, rfl, _, rfl, version, _, (cc_opt_iff _ _ _).mpr ⟨part, rfl, versioned⟩, _, rfl,
      mCost, _, ⟨noDigit _ _ rfl, rfl⟩, _, rfl, tCost, _, ⟨noDigit _ _ rfl, rfl⟩, _, rfl, lanes, _, ⟨noDigit _ _ rfl, rfl⟩, _, rfl,
      salt, _, ⟨saltFits, closes, saltText, rfl, saltWritten⟩, _, rfl,
      out, [], ⟨outFits, trivial, outText, (List.append_nil outText).symm, outWritten⟩, (), (validate_inputs_ok _).mpr valid, rfl⟩

theorem ss_seq {α : Type} (first second : Bytes) (dst : Bytes × Nat) (next : Bytes × Nat → Except ErrorCode α) :
    (SS first dst >>= fun dst => SS second dst >>= next) = SS (first ++ second) dst >>= next := by
  rw [SS, SS, List.length_append]
  by_cases fits : dst.2 ≤ first.length
  · rw [if_pos fits, if_pos (by omega)]
    rfl
  · rw [if_neg fits, ok_bind, SS]
    by_cases more : dst.2 ≤ first.length + second.length
    · rw [if_pos more, if_pos (by show dst.2 - first.length ≤ second.length; omega)]
    · rw [if_neg more, if_neg (by show ¬ dst.2 - first.length ≤ second.length; omega), ok_bind, ok_bind, List.append_assoc, Nat.sub_sub]

theorem sb_ss (buf : Bytes) (dst : Bytes × Nat) : SB buf dst = SS (encodeLoop buf 0 0) dst := by
  rw [SB, toBase64, SS, encode_length]
  by_cases fits : dst.2 ≤ b64len buf.length
  · rw [if_pos fits, if_pos fits]
  · rw [if_neg fits, if_neg fits]
    show Except.ok (_, dst.2 - (encodeLoop buf 0 0).length) = _
    rw [encode_length]

def Context.text (ctx : Context) (type : Argon2Type) : Bytes :=
  layout type (versionPart ctx.version) ctx.mCost ctx.tCost ctx.lanes (encodeLoop ctx.salt.bytes 0 0) (encodeLoop ctx.out.bytes 0 0)

theorem encode_string_eq (dstLen : Nat) (ctx : Context) (type : Argon2Type) :
    encodeString dstLen ctx type =
      validateInputs ctx >>= fun _ => if dstLen ≤ (ctx.text type).length then .error .encodingFail else .ok (ctx.text type) := by
  have whole (text : Bytes) : (SS text ([], dstLen) >>= fun dst => pure dst.1) =
      if dstLen ≤ text.length then .error .encodingFail else .ok text := by
    rw [SS]
    by_cases fits : dstLen ≤ text.length
    · rw [if_pos fits, if_pos fits, error_bind]
    · rw [if_neg fits, if_neg fits, ok_bind, List.nil_append, pure_eq_ok]
  simp only [encodeString, SX, sb_ss, ss_seq]
  rw [whole]
  simp only [Context.text, layout, settings, versionPart, List.append_assoc]

theorem encode_string_iff (dstLen : Nat) (ctx : Context) (type : Argon2Type) (text : Bytes) :
    encodeString dstLen ctx type = .ok text ↔ ctx.Valid ∧ text = ctx.text type ∧ text.length < dstLen := by
  rw [encode_string_eq, bind_ok_iff]
  constructor
  · rintro ⟨_, valid, written⟩
    by_cases fits : dstLen ≤ (ctx.text type).length
    · rw [if_pos fits] at written
      exact absurd written (by simp)
    · rw [if_neg fits] at written
      obtain rfl := Except.ok.inj written
      exact ⟨(validate_inputs_ok ctx).mp valid, rfl, Nat.not_le.mp fits⟩
  · rintro ⟨valid, rfl, fits⟩
    exact ⟨(), (validate_inputs_ok ctx).mpr valid, if_neg (Nat.not_le.mpr fits)⟩

theorem bytes_length (buffer : Buffer) (sound : buffer.Sound) (filled : buffer.data ≠ none) : buffer.bytes.length = buffer.len.toNat := by
  obtain ⟨data, present⟩ := Option.ne_none_iff_exists'.mp filled
  rw [Buffer.bytes, List.length_take, present, Option.getD_some, Nat.min_eq_left (sound data present)]

theorem fill_len (buffer : Buffer) (bin : Bytes) (fits : bin.length ≤ buffer.len.toNat) : (buffer.fill bin).len.toNat = bin.length :=
  UInt32.toNat_ofNat_of_lt' (Nat.lt_of_le_of_lt fits buffer.len.toNat_lt)

theorem fill_bytes (buffer : Buffer) (bin : Bytes) (fits : bin.length ≤ buffer.len.toNat) (filled : buffer.data ≠ none) :
    (buffer.fill bin).bytes = bin := by
  obtain ⟨data, present⟩ := Option.ne_none_iff_exists'.mp filled
  rw [Buffer.bytes, fill_len buffer bin fits, Buffer.fill, present, Option.map_some, Option.getD_some, List.take_left]

-- A text of another type is refused: where one name starts with the other, the
-- rest of it is no version and no memory cost.
theorem other_type (ctx : Context) (type other : Argon2Type) (version : UInt32) (mCost tCost lanes : UInt32) (salt out : Bytes)
    (differs : other ≠ type) :
    decodeString ctx (layout type (versionPart version) mCost tCost lanes salt out) other = .error .decodingFail := by
  cases type <;> cases other <;> first | exact absurd rfl differs | rfl

section Again

variable (ctx reader : Context) (type : Argon2Type) (valid : ctx.Valid) (saltSound : ctx.salt.Sound) (outSound : ctx.out.Sound)
  (saltFilled : reader.salt.data ≠ none) (outFilled : reader.out.data ≠ none) (saltFits : ctx.salt.len ≤ reader.salt.len)
  (outFits : ctx.out.len ≤ reader.out.len) (password : reader.pwd.data = none → reader.pwd.len = 0)
include valid saltSound outSound saltFilled outFilled saltFits outFits

def Context.readBack (ctx reader : Context) : Context :=
  reader.decoded ctx.version ctx.mCost ctx.tCost ctx.lanes ctx.salt.bytes ctx.out.bytes

theorem read_back_buffers : (ctx.readBack reader).salt.bytes = ctx.salt.bytes ∧ (ctx.readBack reader).out.bytes = ctx.out.bytes ∧
    (ctx.readBack reader).salt.len = ctx.salt.len ∧ (ctx.readBack reader).out.len = ctx.out.len := by
  have saltLength := bytes_length ctx.salt saltSound valid.salt
  have outLength := bytes_length ctx.out outSound valid.out
  have saltRoom : ctx.salt.bytes.length ≤ reader.salt.len.toNat := saltLength ▸ UInt32.le_iff_toNat_le.mp saltFits
  have outRoom : ctx.out.bytes.length ≤ reader.out.len.toNat := outLength ▸ UInt32.le_iff_toNat_le.mp outFits
  exact ⟨fill_bytes reader.salt _ saltRoom saltFilled, fill_bytes reader.out _ outRoom outFilled,
    UInt32.toNat_inj.mp ((fill_len reader.salt _ saltRoom).trans saltLength), UInt32.toNat_inj.mp ((fill_len reader.out _ outRoom).trans outLength)⟩

include password

theorem read_back_valid : (ctx.readBack reader).Valid := by
  obtain ⟨_, _, saltLen, outLen⟩ := read_back_buffers ctx reader valid saltSound outSound saltFilled outFilled saltFits outFits
  exact {
    out := fun null => outFilled (Option.map_eq_none_iff.mp null)
    outlen := outLen ▸ valid.outlen
    pwd := password
    salt := fun null => saltFilled (Option.map_eq_none_iff.mp null)
    saltlen := saltLen ▸ valid.saltlen
    secret := fun _ => rfl
    ad := fun _ => rfl
    memory := valid.memory
    share := valid.share
    time := valid.time
    lanes := valid.lanes
    threads := valid.lanes
    callbacks := rfl }

theorem text_decodes : decodeString reader (ctx.text type) type = .ok (ctx.readBack reader) := by
  refine (decode_string_iff reader _ _ type).mpr ⟨_, _, _, _, _, _, _, _, _, rfl, .inl rfl, encode_ascii ctx.salt.bytes,
    encode_ascii ctx.out.bytes, ?_, ?_, rfl, read_back_valid ctx reader valid saltSound outSound saltFilled outFilled saltFits outFits password⟩
  · exact bytes_length ctx.salt saltSound valid.salt ▸ UInt32.le_iff_toNat_le.mp saltFits
  · exact bytes_length ctx.out outSound valid.out ▸ UInt32.le_iff_toNat_le.mp outFits

end Again

theorem encode_decode (dstLen : Nat) (ctx reader : Context) (type : Argon2Type) (text : Bytes) (saltSound : ctx.salt.Sound)
    (outSound : ctx.out.Sound) (saltFilled : reader.salt.data ≠ none) (outFilled : reader.out.data ≠ none)
    (saltFits : ctx.salt.len ≤ reader.salt.len) (outFits : ctx.out.len ≤ reader.out.len)
    (password : reader.pwd.data = none → reader.pwd.len = 0) (encoded : encodeString dstLen ctx type = .ok text) :
    (∃ after, decodeString reader text type = .ok after ∧ after.salt.bytes = ctx.salt.bytes ∧ after.out.bytes = ctx.out.bytes ∧
      after.salt.len = ctx.salt.len ∧ after.out.len = ctx.out.len ∧ after.version = ctx.version ∧ after.mCost = ctx.mCost ∧
      after.tCost = ctx.tCost ∧ after.lanes = ctx.lanes ∧ after.threads = ctx.lanes ∧ after.pwd = reader.pwd) ∧
    ∀ other, other ≠ type → decodeString reader text other = .error .decodingFail := by
  obtain ⟨valid, rfl, _⟩ := (encode_string_iff dstLen ctx type text).mp encoded
  obtain ⟨salt, out, saltLen, outLen⟩ := read_back_buffers ctx reader valid saltSound outSound saltFilled outFilled saltFits outFits
  exact ⟨⟨ctx.readBack reader, text_decodes ctx reader type valid saltSound outSound saltFilled outFilled saltFits outFits password,
    salt, out, saltLen, outLen, rfl, rfl, rfl, rfl, rfl, rfl⟩, fun other differs => other_type reader type other _ _ _ _ _ _ differs⟩

def sampleContext : Context :=
  { out := ⟨some [1, 2, 3, 255], 4⟩, pwd := .null, salt := ⟨some [250, 1, 2, 3, 4, 5, 6, 7], 8⟩, secret := .null, ad := .null
    tCost := 3, mCost := 64, lanes := 2, threads := 1, version := versionNumber, allocateCbk := false, freeCbk := false
    flags := defaultFlags }

theorem sample_valid : sampleContext.Valid := (validate_inputs_ok sampleContext).mp rfl

theorem sound_of_length (data : Bytes) (len : UInt32) (fits : len.toNat ≤ data.length) : (⟨some data, len⟩ : Buffer).Sound := by
  intro other present
  rw [← Option.some.inj present]
  exact fits

theorem encode_decode_sample :
    ∃ after, decodeString sampleContext (sampleContext.text .id) .id = .ok after ∧ after.salt.bytes = [250, 1, 2, 3, 4, 5, 6, 7] := by
  obtain ⟨⟨after, decoded, salt, _⟩, _⟩ := encode_decode _ sampleContext sampleContext .id (sampleContext.text .id)
    (sound_of_length _ _ (by decide)) (sound_of_length _ _ (by decide)) (by decide) (by decide) (by decide) (by decide) (by decide)
    ((encode_string_iff _ _ _ _).mpr ⟨sample_valid, rfl, Nat.lt_succ_self _⟩)
  exact ⟨after, decoded, salt⟩

section Strict

theorem ascii_kept (text : Bytes) (ascii : ∀ c ∈ text, c < 128) : text.map readAs = text := by
  rw [List.map_congr_left fun c member => show readAs c = id c from if_pos (ascii c member), List.map_id]

theorem decimal_kept (num : Nat) : (decimal num).map readAs = decimal num := by
  apply ascii_kept
  intro c member
  have digit := (is_digit_iff c).mp (decimal_digits num c member)
  rw [UInt8.lt_iff_toNat_lt]
  exact Nat.lt_of_le_of_lt digit.2 (by decide)

theorem layout_kept (type : Argon2Type) (part : Bytes) (mCost tCost lanes : UInt32) (salt out : Bytes) :
    (layout type part mCost tCost lanes salt out).map readAs =
      layout type (part.map readAs) mCost tCost lanes (salt.map readAs) (out.map readAs) := by
  have name : (type2string type false).map readAs = type2string type false := by
    cases type <;> rfl
  have pieces : ∀ piece ∈ ["$", "$m=", ",t=", ",p="], (bytesOf piece).map readAs = bytesOf piece := by decide
  simp only [layout, settings, List.map_append, decimal_kept, name, pieces "$" (by decide), pieces "$m=" (by decide), pieces ",t=" (by decide),
    pieces ",p=" (by decide)]

theorem decoded_canonical (ctx after : Context) (str : Bytes) (type : Argon2Type) (decoded : decodeString ctx str type = .ok after) :
    ∃ full, (∀ dstLen, encodeString dstLen after type = if full.length < dstLen then .ok full else .error .encodingFail) ∧
      (str.map readAs = full ∨
        after.version = version10 ∧ ∃ back, full = bytesOf "$" ++ type2string type false ++ versionPart version10 ++ back ∧
          str.map readAs = bytesOf "$" ++ type2string type false ++ back) := by
  obtain ⟨part, version, mCost, tCost, lanes, saltText, salt, outText, out, rfl, versioned, saltWritten, outWritten, saltFits, outFits,
    rfl, valid⟩ := (decode_string_iff ctx after str type).mp decoded
  have saltBytes := fill_bytes ctx.salt salt saltFits fun null => valid.salt (Option.map_eq_none_iff.mpr null)
  have outBytes := fill_bytes ctx.out out outFits fun null => valid.out (Option.map_eq_none_iff.mpr null)
  have full : (ctx.decoded version mCost tCost lanes salt out).text type =
      layout type (versionPart version) mCost tCost lanes (saltText.map readAs) (outText.map readAs) := by
    show layout type (versionPart version) mCost tCost lanes (encodeLoop (ctx.salt.fill salt).bytes 0 0)
      (encodeLoop (ctx.out.fill out).bytes 0 0) = _
    rw [saltBytes, outBytes, saltWritten, outWritten]
  refine ⟨(ctx.decoded version mCost tCost lanes salt out).text type, ?_, ?_⟩
  · intro dstLen
    rw [encode_string_eq, (validate_inputs_ok _).mpr valid, ok_bind]
    by_cases fits : ((ctx.decoded version mCost tCost lanes salt out).text type).length < dstLen
    · rw [if_pos fits, if_neg (Nat.not_le.mpr fits)]
    · rw [if_neg fits, if_pos (Nat.not_lt.mp fits)]
  · rw [full, layout_kept]
    rcases versioned with rfl | ⟨rfl, rfl⟩
    · left
      rw [versionPart, List.map_append, decimal_kept]
      rfl
    · right
      refine ⟨rfl, settings mCost tCost lanes (saltText.map readAs) (outText.map readAs), ?_, ?_⟩
      · rw [layout, List.append_assoc, List.append_assoc]
      · rw [layout, List.append_assoc]
        rfl

theorem decoded_canonical_sample :
    ∃ full, encodeString 100 (sampleContext.decoded version10 64 3 2 [250, 1, 2, 3, 4, 5, 6, 7] [1, 2, 3, 255]) .i =
      if full.length < 100 then .ok full else .error .encodingFail := by
  have decoded : decodeString sampleContext (bytesOf "$argon2i$m=64,t=3,p=2$+gECAwQFBgc$AQID/w") .i =
      .ok (sampleContext.decoded version10 64 3 2 [250, 1, 2, 3, 4, 5, 6, 7] [1, 2, 3, 255]) := by decide +kernel
  obtain ⟨full, encoded, _⟩ := decoded_canonical _ _ _ _ decoded
  exact ⟨full, encoded 100⟩

end Strict

section Space

theorem numlen_decimal (num : Nat) : numlen num = (decimal num).length := by
  induction num using numlen.induct with
  | case1 num small => rw [numlen, decimal, if_pos small, if_pos small, List.length_singleton]
  | case2 num large ih => rw [numlen, decimal, if_neg large, if_neg large, List.length_append, List.length_singleton, ih]

theorem encodedlen_exact (ctx : Context) (type : Argon2Type) (dstLen : Nat) (saltSound : ctx.salt.Sound) (outSound : ctx.out.Sound)
    (twoDigits : 10 ≤ ctx.version.toNat ∧ ctx.version.toNat < 100) :
    (∃ text, encodeString dstLen ctx type = .ok text) ↔
      ctx.Valid ∧ encodedlen ctx.tCost ctx.mCost ctx.lanes ctx.salt.len ctx.out.len type ≤ dstLen := by
  have version : (decimal ctx.version.toNat).length = 2 := by
    rw [← numlen_decimal, numlen, if_neg (by omega), numlen, if_pos (by omega)]
  have own : numlen versionNumber.toNat = 2 := by
    rw [numlen, if_neg (by decide), numlen, if_pos (by decide)]
  have exact_ (valid : ctx.Valid) :
      encodedlen ctx.tCost ctx.mCost ctx.lanes ctx.salt.len ctx.out.len type = (ctx.text type).length + 1 := by
    have saltLength := bytes_length ctx.salt saltSound valid.salt
    have outLength := bytes_length ctx.out outSound valid.out
    rw [encodedlen, own, numlen_decimal, numlen_decimal, numlen_decimal, Context.text, layout, settings, versionPart]
    simp only [List.length_append, encode_length, saltLength, outLength, version]
    rw [show (bytesOf "$$v=$m=,t=,p=$$").length = 15 from rfl, show (bytesOf "$").length = 1 from rfl,
      show (bytesOf "$v=").length = 3 from rfl, show (bytesOf "$m=").length = 3 from rfl, show (bytesOf ",t=").length = 3 from rfl,
      show (bytesOf ",p=").length = 3 from rfl]
    omega
  constructor
  · rintro ⟨text, encoded⟩
    obtain ⟨valid, rfl, fits⟩ := (encode_string_iff _ _ _ _).mp encoded
    exact ⟨valid, exact_ valid ▸ fits⟩
  · rintro ⟨valid, space⟩
    rw [exact_ valid] at space
    exact ⟨_, (encode_string_iff _ _ _ _).mpr ⟨valid, rfl, space⟩⟩

theorem encodedlen_exact_sample :
    encodedlen 3 64 2 8 4 .id = 47 ∧ (∃ text, encodeString 47 sampleContext .id = .ok text) ∧
      ¬ ∃ text, encodeString 46 sampleContext .id = .ok text := by
  have length : encodedlen 3 64 2 8 4 .id = 47 := by decide +kernel
  have salt := sound_of_length [250, 1, 2, 3, 4, 5, 6, 7] 8 (by decide)
  have out := sound_of_length [1, 2, 3, 255] 4 (by decide)
  refine ⟨length, (encodedlen_exact sampleContext .id 47 salt out (by decide)).mpr ⟨sample_valid, Nat.le_of_eq length⟩, fun short => ?_⟩
  have fits : encodedlen 3 64 2 8 4 .id ≤ 46 := ((encodedlen_exact sampleContext .id 46 salt out (by decide)).mp short).2
  rw [length] at fits
  exact absurd fits (by decide)

end Space

end Libx.Argon2
