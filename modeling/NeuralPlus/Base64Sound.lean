import NeuralPlus.Common

/-!
# Base64, decoded exactly

A group of three bytes is four digits of six bits, and the shifts and masks of
both directions are division and remainder by powers of two. The decoder takes
the encoder's texts and no others, once the whitespace is gone.
-/

namespace NeuralPlus

/-! ## One digit -/

theorem decodeCharacter_base64Digit (n : Nat) : decodeCharacter (base64Digit n) = some (n % 64) := by
  have htable : ∀ k < 64, decodeCharacter (base64Alphabet.getD k 'A') = some k := by decide +kernel
  exact htable _ (Nat.mod_lt n (by omega))

theorem base64Digit_range {c first : Char} {width offset : Nat} (hlow : first ≤ c) (hhigh : c.toNat - first.toNat < width)
    (htable : ∀ k < width, base64Digit (k + offset) = Char.ofNat (k + first.toNat)) :
    base64Digit (c.toNat - first.toNat + offset) = c := by
  have hle : first.toNat ≤ c.toNat := hlow
  rw [htable _ hhigh, Nat.sub_add_cancel hle, Char.ofNat_toNat]

theorem decodeCharacter_ok {c : Char} {n : Nat} (h : decodeCharacter c = some n) : n < 64 ∧ base64Digit n = c := by
  unfold decodeCharacter at h
  by_cases hupper : 'A' ≤ c ∧ c ≤ 'Z'
  · rw [if_pos hupper] at h
    have hhigh : c.toNat ≤ 90 := hupper.2
    have hwidth : c.toNat - 'A'.toNat < 26 := by simp; omega
    rw [← Option.some.inj h]
    have htable : ∀ k < 26, base64Digit (k + 0) = Char.ofNat (k + 'A'.toNat) := by decide
    exact ⟨by omega, base64Digit_range hupper.1 hwidth htable⟩
  rw [if_neg hupper] at h
  by_cases hlower : 'a' ≤ c ∧ c ≤ 'z'
  · rw [if_pos hlower] at h
    have hhigh : c.toNat ≤ 122 := hlower.2
    have hwidth : c.toNat - 'a'.toNat < 26 := by simp; omega
    rw [← Option.some.inj h]
    exact ⟨by omega, base64Digit_range hlower.1 hwidth (by decide)⟩
  rw [if_neg hlower] at h
  by_cases hdecimal : '0' ≤ c ∧ c ≤ '9'
  · rw [if_pos hdecimal] at h
    have hhigh : c.toNat ≤ 57 := hdecimal.2
    have hwidth : c.toNat - '0'.toNat < 10 := by simp; omega
    rw [← Option.some.inj h]
    exact ⟨by omega, base64Digit_range hdecimal.1 hwidth (by decide)⟩
  rw [if_neg hdecimal] at h
  by_cases hplus : c = '+'
  · rw [if_pos hplus] at h
    rw [← Option.some.inj h, hplus]
    decide
  rw [if_neg hplus] at h
  by_cases hslash : c = '/'
  · rw [if_pos hslash] at h
    rw [← Option.some.inj h, hslash]
    decide
  · rw [if_neg hslash] at h
    cases h

/-! ## Shifts and masks -/

theorem shiftLeft_or {a b i : Nat} (h : b < 2 ^ i) : a <<< i ||| b = a * 2 ^ i + b := by
  rw [← Nat.shiftLeft_add_eq_or_of_lt h, Nat.shiftLeft_eq]

theorem base64Digit_congr {m n : Nat} (h : m % 64 = n % 64) : base64Digit m = base64Digit n := by
  unfold base64Digit
  rw [h]

theorem base64EncodeChars_three (a b c : UInt8) (rest : List UInt8) :
    base64EncodeChars (a :: b :: c :: rest) =
      base64Digit (a.toNat / 4) :: base64Digit (a.toNat % 4 * 16 + b.toNat / 16) ::
        base64Digit (b.toNat % 16 * 4 + c.toNat / 64) :: base64Digit c.toNat :: base64EncodeChars rest := by
  have ha := a.toNat_lt
  have hb := b.toNat_lt
  have hc := c.toNat_lt
  have hvalue : a.toNat <<< 16 ||| b.toNat <<< 8 ||| c.toNat = a.toNat * 65536 + b.toNat * 256 + c.toNat := by
    rw [Nat.or_assoc, shiftLeft_or (b := c.toNat) (by omega), shiftLeft_or (by omega)]
    omega
  rw [base64EncodeChars, hvalue]
  simp only [Nat.shiftRight_eq_div_pow]
  congr 1
  · exact base64Digit_congr (by omega)
  congr 1
  · exact base64Digit_congr (by omega)
  congr 1
  · exact base64Digit_congr (by omega)
  congr 1
  · exact base64Digit_congr (by omega)

theorem base64EncodeChars_two (a b : UInt8) :
    base64EncodeChars [a, b] =
      [base64Digit (a.toNat / 4), base64Digit (a.toNat % 4 * 16 + b.toNat / 16), base64Digit (b.toNat % 16 * 4), '='] := by
  have ha := a.toNat_lt
  have hb := b.toNat_lt
  have hvalue : a.toNat <<< 16 ||| b.toNat <<< 8 = a.toNat * 65536 + b.toNat * 256 := by
    rw [Nat.shiftLeft_eq b.toNat, shiftLeft_or (by omega)]
    rfl
  rw [base64EncodeChars, hvalue]
  simp only [Nat.shiftRight_eq_div_pow]
  congr 1
  · exact base64Digit_congr (by omega)
  congr 1
  · exact base64Digit_congr (by omega)
  congr 1
  · exact base64Digit_congr (by omega)

theorem base64EncodeChars_one (a : UInt8) :
    base64EncodeChars [a] = [base64Digit (a.toNat / 4), base64Digit (a.toNat % 4 * 16), '=', '='] := by
  have ha := a.toNat_lt
  rw [base64EncodeChars, Nat.shiftLeft_eq]
  simp only [Nat.shiftRight_eq_div_pow]
  congr 1
  · exact base64Digit_congr (by omega)
  congr 1
  · exact base64Digit_congr (by omega)

/-! ## One group -/

theorem firstByte {first second : Nat} (hs : second < 64) : first <<< 2 ||| second >>> 4 = first * 4 + second / 16 := by
  rw [Nat.shiftRight_eq_div_pow, shiftLeft_or (by omega)]
  rfl

theorem secondByte {second third : Nat} (ht : third < 64) :
    (second &&& 0x0F) <<< 4 ||| third >>> 2 = second % 16 * 16 + third / 4 := by
  rw [Nat.shiftRight_eq_div_pow, Nat.and_two_pow_sub_one_eq_mod second 4, shiftLeft_or (by omega)]
  rfl

theorem thirdByte {third fourth : Nat} (hf : fourth < 64) :
    (third &&& 0x03) <<< 6 ||| fourth = third % 4 * 64 + fourth := by
  rw [Nat.and_two_pow_sub_one_eq_mod third 2, shiftLeft_or hf]
  rfl

/-- What a group of four characters decodes to: one, two or three bytes, the first two shapes only at the end. -/
theorem base64DecodeGroups_iff {c₀ c₁ c₂ c₃ : Char} {rest : List Char} {bytes : List UInt8} :
    base64DecodeGroups (c₀ :: c₁ :: c₂ :: c₃ :: rest) = some bytes ↔
      ∃ first second, decodeCharacter c₀ = some first ∧ decodeCharacter c₁ = some second ∧
        ((c₂ = '=' ∧ c₃ = '=' ∧ rest = [] ∧ second &&& 0x0F = 0 ∧
            [UInt8.ofNat (first <<< 2 ||| second >>> 4)] = bytes) ∨
          (∃ third, decodeCharacter c₂ = some third ∧ c₃ = '=' ∧ rest = [] ∧ third &&& 0x03 = 0 ∧
            [UInt8.ofNat (first <<< 2 ||| second >>> 4), UInt8.ofNat ((second &&& 0x0F) <<< 4 ||| third >>> 2)] =
              bytes) ∨
          ∃ third fourth tail, decodeCharacter c₂ = some third ∧ decodeCharacter c₃ = some fourth ∧
            base64DecodeGroups rest = some tail ∧
            UInt8.ofNat (first <<< 2 ||| second >>> 4) :: UInt8.ofNat ((second &&& 0x0F) <<< 4 ||| third >>> 2) ::
              UInt8.ofNat ((third &&& 0x03) <<< 6 ||| fourth) :: tail = bytes) := by
  have hpad : decodeCharacter '=' = none := by decide
  rw [base64DecodeGroups]
  cases decodeCharacter c₀ with
  | none => simp
  | some first =>
    cases decodeCharacter c₁ with
    | none => simp
    | some second =>
      -- padding closes the text, so a padded group has nothing behind it
      by_cases hthird : c₂ = '='
      · by_cases hfourth : c₃ = '='
        · subst hthird hfourth
          by_cases hrest : rest = []
          · simp [hpad, hrest, base64DecodeGroups]
          · simp [hpad, hrest]
        · simp [hthird, hfourth, hpad]
      · by_cases hfourth : c₃ = '='
        · subst hfourth
          by_cases hrest : rest = []
          · cases decodeCharacter c₂ <;> simp [hthird, hpad, hrest, base64DecodeGroups]
          · cases decodeCharacter c₂ <;> simp [hthird, hpad, hrest]
        · cases decodeCharacter c₂ <;> cases decodeCharacter c₃ <;> cases base64DecodeGroups rest <;>
            simp [hthird, hfourth]

/-! ## All the groups -/

theorem ofNat_eq_of_toNat {n : Nat} {b : UInt8} (h : n = b.toNat) : UInt8.ofNat n = b := by
  rw [h, UInt8.ofNat_toNat]

/-- On the bytes of a group, its digits' bits put together are the bytes again. -/
theorem base64DecodeGroups_encode : ∀ bytes : List UInt8, base64DecodeGroups (base64EncodeChars bytes) = some bytes
  | [] => rfl
  | [a] => by
    have ha := a.toNat_lt
    rw [base64EncodeChars_one, base64DecodeGroups_iff]
    refine ⟨_, _, decodeCharacter_base64Digit _, decodeCharacter_base64Digit _, Or.inl ⟨rfl, rfl, rfl, ?_, ?_⟩⟩
    · rw [Nat.and_two_pow_sub_one_eq_mod _ 4]
      omega
    · rw [firstByte (by omega), ofNat_eq_of_toNat (b := a) (by omega)]
  | [a, b] => by
    have ha := a.toNat_lt
    have hb := b.toNat_lt
    rw [base64EncodeChars_two, base64DecodeGroups_iff]
    refine ⟨_, _, decodeCharacter_base64Digit _, decodeCharacter_base64Digit _,
      Or.inr (Or.inl ⟨_, decodeCharacter_base64Digit _, rfl, rfl, ?_, ?_⟩)⟩
    · rw [Nat.and_two_pow_sub_one_eq_mod _ 2]
      omega
    · rw [firstByte (by omega), secondByte (by omega), ofNat_eq_of_toNat (b := a) (by omega),
        ofNat_eq_of_toNat (b := b) (by omega)]
  | a :: b :: c :: rest => by
    have ha := a.toNat_lt
    have hb := b.toNat_lt
    have hc := c.toNat_lt
    rw [base64EncodeChars_three, base64DecodeGroups_iff]
    refine ⟨_, _, decodeCharacter_base64Digit _, decodeCharacter_base64Digit _,
      Or.inr (Or.inr ⟨_, _, rest, decodeCharacter_base64Digit _, decodeCharacter_base64Digit _,
        base64DecodeGroups_encode rest, ?_⟩)⟩
    rw [firstByte (by omega), secondByte (by omega), thirdByte (by omega), ofNat_eq_of_toNat (b := a) (by omega),
      ofNat_eq_of_toNat (b := b) (by omega), ofNat_eq_of_toNat (b := c) (by omega)]

theorem toNat_byte {n : Nat} (h : n < 256) : (UInt8.ofNat n).toNat = n :=
  UInt8.toNat_ofNat_of_lt' h

theorem base64Digit_of_mod {c : Char} {m n : Nat} (h : decodeCharacter c = some n) (hm : m % 64 = n) : base64Digit m = c := by
  obtain ⟨hn, hc⟩ := decodeCharacter_ok h
  rw [← hc]
  exact base64Digit_congr (by omega)

/-- The padded groups are decoded only when the bits they drop are zero, so the encoder writes them again. -/
theorem base64EncodeChars_decode : ∀ (cs : List Char) (bytes : List UInt8), base64DecodeGroups cs = some bytes →
    base64EncodeChars bytes = cs
  | [], bytes, h => by
    rw [← Option.some.inj h]
    rfl
  | [_], _, h | [_, _], _, h | [_, _, _], _, h => by cases h
  | c₀ :: c₁ :: c₂ :: c₃ :: rest, bytes, h => by
    obtain ⟨first, second, h₀, h₁, hshape⟩ := base64DecodeGroups_iff.mp h
    have hf := (decodeCharacter_ok h₀).1
    have hs := (decodeCharacter_ok h₁).1
    rcases hshape with ⟨rfl, rfl, rfl, hbits, rfl⟩ | ⟨third, h₂, rfl, rfl, hbits, rfl⟩ |
      ⟨third, fourth, tail, h₂, h₃, htail, rfl⟩
    · rw [Nat.and_two_pow_sub_one_eq_mod _ 4] at hbits
      rw [base64EncodeChars_one, firstByte hs, toNat_byte (by omega),
        base64Digit_of_mod h₀ (by omega), base64Digit_of_mod h₁ (by omega)]
    · have ht := (decodeCharacter_ok h₂).1
      rw [Nat.and_two_pow_sub_one_eq_mod _ 2] at hbits
      rw [base64EncodeChars_two, firstByte hs, secondByte ht, toNat_byte (by omega),
        toNat_byte (by omega), base64Digit_of_mod h₀ (by omega), base64Digit_of_mod h₁ (by omega),
        base64Digit_of_mod h₂ (by omega)]
    · have ht := (decodeCharacter_ok h₂).1
      have hl := (decodeCharacter_ok h₃).1
      rw [base64EncodeChars_three, firstByte hs, secondByte ht, thirdByte hl, toNat_byte (by omega),
        toNat_byte (by omega), toNat_byte (by omega), base64Digit_of_mod h₀ (by omega),
        base64Digit_of_mod h₁ (by omega), base64Digit_of_mod h₂ (by omega), base64Digit_of_mod h₃ (by omega),
        base64EncodeChars_decode rest tail htail]

theorem base64DecodeGroups_eq_some {cs : List Char} {bytes : List UInt8} :
    base64DecodeGroups cs = some bytes ↔ cs = base64EncodeChars bytes := by
  constructor
  · intro h
    exact (base64EncodeChars_decode cs bytes h).symm
  · intro h
    rw [h]
    exact base64DecodeGroups_encode bytes

theorem base64EncodeChars_eq_nil {bytes : List UInt8} : base64EncodeChars bytes = [] ↔ bytes = [] := by
  constructor
  · intro h
    have hdecoded := base64DecodeGroups_encode bytes
    rw [h] at hdecoded
    exact (Option.some.inj hdecoded).symm
  · rintro rfl
    rfl

/-! ## Whole texts -/

def withoutWhitespace (s : String) : String := String.ofList (s.toList.filter fun c => !isAsciiWhitespace c)

theorem base64Decode_eq_some {s : String} {bytes : List UInt8} :
    base64Decode s = some bytes ↔ bytes ≠ [] ∧ withoutWhitespace s = base64Encode bytes := by
  unfold base64Decode withoutWhitespace base64Encode
  rw [String.ofList_inj]
  generalize s.toList.filter (fun c => !isAsciiWhitespace c) = compact
  by_cases hempty : compact = []
  · rw [if_pos hempty, hempty, eq_comm (a := []), base64EncodeChars_eq_nil]
    simp
  · rw [if_neg hempty, base64DecodeGroups_eq_some]
    constructor
    · intro h
      refine ⟨fun hb => hempty ?_, h⟩
      rw [h, base64EncodeChars_eq_nil, hb]
    · exact And.right

theorem base64Digit_not_whitespace (n : Nat) : isAsciiWhitespace (base64Digit n) = false := by
  have htable : ∀ k < 64, isAsciiWhitespace (base64Alphabet.getD k 'A') = false := by decide +kernel
  exact htable _ (Nat.mod_lt n (by omega))

theorem not_whitespace_of_mem : ∀ (bytes : List UInt8) (c : Char), c ∈ base64EncodeChars bytes → isAsciiWhitespace c = false
  | [], c, h => by cases h
  | [a], c, h => by
    simp only [base64EncodeChars, List.mem_cons, List.not_mem_nil, or_false] at h
    rcases h with rfl | rfl | rfl | rfl <;> first | exact base64Digit_not_whitespace _ | decide
  | [a, b], c, h => by
    simp only [base64EncodeChars, List.mem_cons, List.not_mem_nil, or_false] at h
    rcases h with rfl | rfl | rfl | rfl <;> first | exact base64Digit_not_whitespace _ | decide
  | a :: b :: c' :: rest, c, h => by
    simp only [base64EncodeChars, List.mem_cons] at h
    rcases h with rfl | rfl | rfl | rfl | h
    · exact base64Digit_not_whitespace _
    · exact base64Digit_not_whitespace _
    · exact base64Digit_not_whitespace _
    · exact base64Digit_not_whitespace _
    · exact not_whitespace_of_mem rest c h

theorem withoutWhitespace_encode (bytes : List UInt8) : withoutWhitespace (base64Encode bytes) = base64Encode bytes := by
  unfold withoutWhitespace base64Encode
  rw [String.toList_ofList, List.filter_eq_self.mpr fun c hc => by simp [not_whitespace_of_mem bytes c hc]]

/-- The decoder accepts a text just when it is, up to whitespace, what the encoder writes for some bytes. -/
theorem base64Decode_exact (s : String) (bytes : List UInt8) :
    (base64Decode s = some bytes ↔ bytes ≠ [] ∧ withoutWhitespace s = base64Encode bytes) ∧
      (bytes ≠ [] → base64Decode (base64Encode bytes) = some bytes) ∧
      (base64Decode s = some bytes → base64Encode bytes = withoutWhitespace s) ∧
      (base64Decode s = none ↔ ∀ b, b ≠ [] → withoutWhitespace s ≠ base64Encode b) := by
  refine ⟨base64Decode_eq_some, ?_, ?_, ?_⟩
  · intro h
    exact base64Decode_eq_some.mpr ⟨h, withoutWhitespace_encode bytes⟩
  · intro h
    exact (base64Decode_eq_some.mp h).2.symm
  · rw [Option.eq_none_iff_forall_ne_some]
    apply forall_congr'
    intro b
    rw [ne_eq, base64Decode_eq_some, not_and]

end NeuralPlus
