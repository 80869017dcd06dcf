import SigningSchema.Proofs.Wire.Standard

-- Base-128 integers. The bytes written for a word are the fewest that stand for it, and a reader knows
-- where they end. Shifts and masks of machine words give the same bytes, at both ends of every range.

namespace SigningSchema.Wire

variable {n : Nat} {bytes rest : Bytes}

section Lengths

-- Bytes that stand for a word, of any length: groups of zeros may follow the last one that counts.
def Encodes (bytes : Bytes) (word : UInt64) : Prop := readBase128 bytes = some (word.toNat, [])

theorem base128_large (large : ¬ n < 128) :
    base128 n = UInt8.ofNat (n % 128 + 128) :: base128 (n / 128) := by
  rw [base128, if_neg large]

theorem base128_length_pos (n : Nat) : 1 ≤ (base128 n).length := by
  rw [base128]
  split
  · exact Nat.le_refl 1
  · exact Nat.succ_pos _

-- By induction on the number of groups: each byte takes seven bits off.
theorem base128_length_le (more : Nat) (small : n < 128 ^ (more + 1)) :
    (base128 n).length ≤ more + 1 := by
  induction more generalizing n with
  | zero =>
    have last : n < 128 := small
    rw [base128, if_pos last]
    exact Nat.le_refl 1
  | succ more ih =>
    rw [base128]
    split
    · exact Nat.succ_pos _
    · have less : n / 128 < 128 ^ (more + 1) := by
        apply Nat.div_lt_of_lt_mul
        rwa [← Nat.pow_succ']
      exact Nat.succ_le_succ (ih less)

-- What is read of a number is what would be written of it, or longer.
theorem readBase128_shortest (read : readBase128 bytes = some (n, rest)) :
    bytes = base128 n ++ rest ∨ (base128 n).length + rest.length < bytes.length := by
  induction bytes generalizing n with
  | nil => cases read
  | cons byte more ih =>
    rw [readBase128] at read
    split at read
    · rename_i last
      cases read
      rw [base128, if_pos last, UInt8.ofNat_toNat]
      exact .inl rfl
    · rename_i continues
      obtain ⟨⟨high, after⟩, inner, equal⟩ := Option.bind_eq_some_iff.mp read
      cases equal
      have small := byte.toNat_lt
      by_cases empty : high = 0
      · -- This byte alone would do, and the others are in excess.
        have shorter := readBase128_shorter inner
        rw [base128, if_pos (by omega)]
        right
        simp only [List.length_cons, List.length_nil]
        omega
      · have low : (byte.toNat - 128 + 128 * high) % 128 + 128 = byte.toNat := by omega
        have above : (byte.toNat - 128 + 128 * high) / 128 = high := by omega
        have step : base128 (byte.toNat - 128 + 128 * high) = byte :: base128 high := by
          rw [base128_large (by omega), low, above, UInt8.ofNat_toNat]
        rw [step]
        refine (ih inner).imp (fun same => ?_) (fun longer => ?_)
        · rw [same, List.cons_append]
        · simp only [List.length_cons]
          omega

theorem varint_length_le (word : UInt64) : (varint word).length ≤ 10 := by
  have fits := word.toNat_lt
  exact base128_length_le 9 (by omega)

theorem varint_encodes (word : UInt64) : Encodes (varint word) word := by
  have read := base128_roundtrip word.toNat []
  rwa [List.append_nil] at read

theorem varint_shortest {word : UInt64} (encodes : Encodes bytes word) :
    bytes = varint word ∨ (varint word).length < bytes.length := by
  have shortest := readBase128_shortest encodes
  rwa [List.append_nil, List.length_nil, Nat.add_zero] at shortest

-- A prefix is read as the whole is, so what follows it is nothing.
theorem varint_begins {word other : UInt64} (begins : varint word <+: varint other) : word = other := by
  obtain ⟨rest, same⟩ := begins
  have read := varint_roundtrip word rest
  have whole := varint_roundtrip other []
  rw [List.append_nil, ← same, read] at whole
  exact (Prod.mk.inj (Option.some.inj whole)).1

end Lengths

section Words

-- The low seven bits, with a mark while there are more, and so on with the bits above them.
def shiftedOut (word : UInt64) : Bytes :=
  if 127 < word then (word.toUInt8 &&& 127 ||| 128) :: shiftedOut (word >>> 7)
  else [word.toUInt8]
termination_by word.toNat
decreasing_by
  rename_i large
  have less := UInt64.lt_iff_toNat_lt.mp large
  simp [Nat.shiftRight_eq_div_pow] at less ⊢
  omega

theorem toNat_and_low (byte : UInt8) : (byte &&& 127).toNat = byte.toNat % 128 := by
  rw [UInt8.toNat_and]
  exact Nat.and_two_pow_sub_one_eq_mod byte.toNat 7

theorem marked_byte (word : UInt64) :
    word.toUInt8 &&& 127 ||| 128 = UInt8.ofNat (word.toNat % 128 + 128) := by
  have disjoint := Nat.two_pow_add_eq_or_of_lt (i := 7) (Nat.mod_lt word.toNat (by decide)) 1
  have low : (word.toUInt8 &&& 127).toNat = word.toNat % 128 := by
    rw [toNat_and_low, UInt64.toNat_toUInt8]
    exact Nat.mod_mod_of_dvd _ (by decide)
  apply UInt8.toNat_inj.mp
  rw [UInt8.toNat_or, low, Nat.or_comm]
  show 2 ^ 7 * 1 ||| word.toNat % 128 = _
  rw [← disjoint, UInt8.toNat_ofNat_of_lt' (by simp [UInt8.size]; omega)]
  omega

theorem shiftedOut_eq (word : UInt64) : shiftedOut word = varint word := by
  induction word using shiftedOut.induct with
  | case1 word large ih =>
    have notSmall : ¬ word.toNat < 128 := Nat.not_lt.mpr (UInt64.lt_iff_toNat_lt.mp large)
    have shifted : (word >>> 7).toNat = word.toNat / 128 := by
      simp [Nat.shiftRight_eq_div_pow]
    rw [shiftedOut, if_pos large, ih, marked_byte, varint, varint, base128_large notSmall, shifted]
  | case2 word small =>
    have less : word.toNat < 128 := Nat.lt_succ_of_le (UInt64.le_iff_toNat_le.mp (UInt64.not_lt.mp small))
    rw [shiftedOut, if_neg small, varint, base128, if_pos less]
    rfl

-- The low seven bits of each byte are put in their place. After ten bytes a word is full.
def readWordFrom (place : Nat) (word : UInt64) : Bytes → Option (UInt64 × Bytes)
  | [] => none
  | byte :: rest =>
    let word := word ||| (byte &&& 127).toUInt64 <<< UInt64.ofNat place
    if byte < 128 then some (word, rest)
    else if place < 63 then readWordFrom (place + 7) word rest
    else none

def readWord (bytes : Bytes) : Option (UInt64 × Bytes) := readWordFrom 0 0 bytes

theorem group_placed {place : Nat} (inside : place < 64) (byte : UInt8) :
    (byte &&& 127).toUInt64 <<< UInt64.ofNat place
      = UInt64.ofNat ((byte.toNat % 128) <<< place) := by
  apply UInt64.toNat_inj.mp
  rw [UInt64.toNat_shiftLeft, UInt8.toNat_toUInt64, toNat_and_low, UInt64.toNat_ofNat',
    UInt64.toNat_ofNat', Nat.mod_mod_of_dvd place (by decide), Nat.mod_eq_of_lt inside]

-- The bits of a group and those of the groups above it are apart.
theorem groups_joined (low high place : Nat) (small : low < 128) :
    UInt64.ofNat (low <<< place) ||| UInt64.ofNat (high <<< (place + 7))
      = UInt64.ofNat ((low + 128 * high) <<< place) := by
  have disjoint : low ||| high <<< 7 = low + 128 * high := by
    have apart := Nat.two_pow_add_eq_or_of_lt (i := 7) small high
    rw [Nat.or_comm, Nat.shiftLeft_eq, Nat.mul_comm, ← apart]
    omega
  have moved : high <<< (place + 7) = high <<< 7 <<< place := by
    rw [Nat.add_comm, Nat.shiftLeft_add]
  apply UInt64.toNat_inj.mp
  rw [UInt64.toNat_or, UInt64.toNat_ofNat', UInt64.toNat_ofNat', UInt64.toNat_ofNat',
    ← Nat.or_mod_two_pow, moved, ← Nat.shiftLeft_or_distrib, disjoint]

-- Of at most ten bytes the word takes all that fits, whatever the places below hold already.
theorem readWordFrom_of_read {place : Nat} (read : readBase128 bytes = some (n, rest))
    (room : place + 7 * bytes.length ≤ 70 + 7 * rest.length) (word : UInt64) :
    readWordFrom place word bytes = some (word ||| UInt64.ofNat (n <<< place), rest) := by
  induction bytes generalizing n place word with
  | nil => cases read
  | cons byte more ih =>
    have shorter := readBase128_shorter read
    rw [List.length_cons] at room shorter
    rw [readBase128] at read
    rw [readWordFrom, group_placed (by omega)]
    split at read
    · rename_i last
      cases read
      rw [if_pos (UInt8.lt_iff_toNat_lt.mpr last), Nat.mod_eq_of_lt last]
    · rename_i continues
      obtain ⟨⟨high, after⟩, inner, equal⟩ := Option.bind_eq_some_iff.mp read
      cases equal
      have shorterToo := readBase128_shorter inner
      have low : byte.toNat - 128 = byte.toNat % 128 := by
        have small := byte.toNat_lt
        omega
      rw [if_neg fun less => continues (UInt8.lt_iff_toNat_lt.mp less), if_pos (by omega),
        ih inner (by omega), UInt64.or_assoc,
        groups_joined _ _ _ (Nat.mod_lt _ (by decide)), low]

theorem readWord_varint (word : UInt64) (rest : Bytes) :
    readWord (varint word ++ rest) = some (word, rest) := by
  have short := varint_length_le word
  have read : readBase128 (varint word ++ rest) = some (word.toNat, rest) :=
    base128_roundtrip word.toNat rest
  have room : 0 + 7 * (varint word ++ rest).length ≤ 70 + 7 * rest.length := by
    rw [List.length_append]
    omega
  rw [readWord, readWordFrom_of_read read room]
  simp

end Words

section Signs

-- Shifting by all bits but one, with the sign, makes all bits the sign.
theorem zigzag_bits {width : Nat} (x : BitVec (width + 1)) :
    (x <<< 1 ^^^ x.sshiftRight width).toNat = zigzag x.toInt := by
  have double : 2 ^ (width + 1) = 2 * 2 ^ width := Nat.pow_succ'
  have shifted : ∀ y : BitVec (width + 1), y.toNat < 2 ^ width → y >>> width = 0#(width + 1) := by
    intro y small
    apply BitVec.eq_of_toNat_eq
    rw [BitVec.toNat_ushiftRight, Nat.shiftRight_eq_div_pow, Nat.div_eq_of_lt small]
    rfl
  cases sign : x.msb with
  | false =>
    have small := BitVec.msb_eq_false_iff_two_mul_lt.mp sign
    rw [BitVec.sshiftRight_eq_of_msb_false sign, shifted x (by omega), BitVec.xor_zero,
      BitVec.toNat_shiftLeft, Nat.shiftLeft_eq, BitVec.toInt_eq_toNat_of_msb sign,
      Nat.mod_eq_of_lt (by omega), zigzag, if_pos (Int.natCast_nonneg _)]
    omega
  | true =>
    have large := BitVec.msb_eq_true_iff_two_mul_ge.mp sign
    have bound := x.isLt
    have small : (~~~x).toNat < 2 ^ width := by
      rw [BitVec.toNat_not]
      omega
    have cut : x.toNat * 2 ^ 1 % 2 ^ (width + 1) = 2 * x.toNat - 2 ^ (width + 1) := by
      rw [Nat.mod_eq_sub_mod (by omega), Nat.mod_eq_of_lt (by omega)]
      omega
    have negative : x.toInt = x.toNat - (2 ^ (width + 1) : Nat) := by
      rw [BitVec.toInt_eq_msb_cond, if_pos sign]
    rw [BitVec.sshiftRight_eq_of_msb_true sign, shifted _ small, BitVec.not_zero, BitVec.xor_allOnes,
      BitVec.toNat_not, BitVec.toNat_shiftLeft, Nat.shiftLeft_eq, cut, negative, zigzag,
      if_neg (by omega)]
    omega

theorem zigzagVarint_bits (n : Int64) :
    zigzagVarint n = varint ((n <<< 1) ^^^ (n >>> 63)).toUInt64 := by
  have word : ((n <<< 1) ^^^ (n >>> 63)).toUInt64.toNat = zigzag n.toInt := zigzag_bits n.toBitVec
  rw [varint, word, zigzagVarint]

theorem zigzagVarint32_bits (n : Int32) :
    zigzagVarint32 n = varint32 ((n <<< 1) ^^^ (n >>> 31)).toUInt32 := by
  have word : ((n <<< 1) ^^^ (n >>> 31)).toUInt32.toNat = zigzag n.toInt := zigzag_bits n.toBitVec
  rw [varint32, varint, UInt32.toNat_toUInt64, word, zigzagVarint32]

-- Small numbers of either sign take few bytes.
theorem zigzag_length_le {n : Int} {k : Nat} (positive : 0 < k) (small : n.natAbs < 2 ^ (7 * k - 1)) :
    (base128 (zigzag n)).length ≤ k := by
  obtain ⟨more, rfl⟩ := Nat.exists_eq_succ_of_ne_zero (Nat.ne_of_gt positive)
  have bits : 128 ^ (more + 1) = 2 * 2 ^ (7 * (more + 1) - 1) := by
    rw [← Nat.pow_succ', show (128 : Nat) = 2 ^ 7 from rfl, ← Nat.pow_mul]
    congr 1
  rw [Nat.succ_eq_add_one] at small ⊢
  generalize 2 ^ (7 * (more + 1) - 1) = bound at bits small
  apply base128_length_le
  rw [bits]
  exact zigzag_lt bound (by omega) (by omega)

-- A word at the front, for what it means.
def readAs {α : Type} (meaning : UInt64 → α) (bytes : Bytes) : Option (α × Bytes) :=
  (readWord bytes).map fun (word, rest) => (meaning word, rest)

theorem readAs_varint {α : Type} (meaning : UInt64 → α) (word : UInt64) (rest : Bytes) :
    readAs meaning (varint word ++ rest) = some (meaning word, rest) := by
  rw [readAs, readWord_varint, Option.map_some]

-- Of a word that is too wide the low half counts.
def signed32 (word : UInt64) : Int32 := word.toInt64.toInt32

def unzigzag64 (word : UInt64) : Int64 := Int64.ofInt (unzigzag word.toNat)

def unzigzag32 (word : UInt64) : Int32 := Int32.ofInt (unzigzag word.toUInt32.toNat)

theorem readAs_signed (n : Int64) (rest : Bytes) :
    readAs UInt64.toInt64 (signedVarint n ++ rest) = some (n, rest) := by
  rw [signedVarint, readAs_varint, Int64.toInt64_toUInt64]

theorem readAs_signed32 (n : Int32) (rest : Bytes) :
    readAs signed32 (signedVarint32 n ++ rest) = some (n, rest) := by
  rw [signedVarint32, signedVarint, readAs_varint, signed32, Int64.toInt64_toUInt64,
    Int32.toInt32_toInt64]

theorem readAs_unzigzag (n : Int64) (rest : Bytes) :
    readAs unzigzag64 (zigzagVarint n ++ rest) = some (n, rest) := by
  have fits := WireSchema.zigzag64_lt n
  rw [zigzagVarint, WireSchema.base128_eq_varint fits, readAs_varint, unzigzag64,
    UInt64.toNat_ofNat_of_lt' fits, zigzag_roundtrip, Int64.ofInt_toInt]

theorem readAs_unzigzag32 (n : Int32) (rest : Bytes) :
    readAs unzigzag32 (zigzagVarint32 n ++ rest) = some (n, rest) := by
  have fits := WireSchema.zigzag32_lt n
  have kept : (UInt64.ofNat (zigzag n.toInt)).toUInt32.toNat = zigzag n.toInt := by
    rw [UInt64.toNat_toUInt32, UInt64.toNat_ofNat_of_lt' (by simp [UInt64.size]; omega)]
    exact Nat.mod_eq_of_lt fits
  rw [zigzagVarint32, WireSchema.base128_eq_varint (by omega), readAs_varint, unzigzag32, kept,
    zigzag_roundtrip, Int32.ofInt_toInt]

end Signs

theorem varint_canonical :
    (∀ word : UInt64,
      shiftedOut word = varint word ∧
      (∀ rest, readWord (varint word ++ rest) = some (word, rest)) ∧
      1 ≤ (varint word).length ∧ (varint word).length ≤ 10 ∧
      Encodes (varint word) word ∧
      (∀ bytes, Encodes bytes word → bytes = varint word ∨ (varint word).length < bytes.length) ∧
      ∀ other, varint word <+: varint other → varint word = varint other) ∧
    Function.Injective varint ∧
    (∀ n : Int64,
      signedVarint n = Standard.varint (Standard.twosComplement 64 n.toInt) ∧
      zigzagVarint n = varint ((n <<< 1) ^^^ (n >>> 63)).toUInt64 ∧
      (∀ rest, readAs UInt64.toInt64 (signedVarint n ++ rest) = some (n, rest)) ∧
      (∀ rest, readAs unzigzag64 (zigzagVarint n ++ rest) = some (n, rest)) ∧
      ∀ k, 0 < k → n.toInt.natAbs < 2 ^ (7 * k - 1) → (zigzagVarint n).length ≤ k) ∧
    ∀ n : Int32,
      signedVarint32 n = Standard.varint (Standard.twosComplement 64 n.toInt) ∧
      zigzagVarint32 n = varint32 ((n <<< 1) ^^^ (n >>> 31)).toUInt32 ∧
      (∀ rest, readAs signed32 (signedVarint32 n ++ rest) = some (n, rest)) ∧
      (∀ rest, readAs unzigzag32 (zigzagVarint32 n ++ rest) = some (n, rest)) ∧
      ∀ k, 0 < k → n.toInt.natAbs < 2 ^ (7 * k - 1) → (zigzagVarint32 n).length ≤ k := by
  refine ⟨fun word => ?_, ?_, fun n => ?_, fun n => ?_⟩
  · exact ⟨shiftedOut_eq word, readWord_varint word, base128_length_pos _, varint_length_le word,
      varint_encodes word, fun bytes => varint_shortest,
      fun other begins => congrArg varint (varint_begins begins)⟩
  · intro word other same
    exact varint_begins (same ▸ List.prefix_refl _)
  · exact ⟨Standard.signedVarint_eq n, zigzagVarint_bits n, readAs_signed n, readAs_unzigzag n,
      fun k => zigzag_length_le⟩
  · exact ⟨Standard.signedVarint32_eq n, zigzagVarint32_bits n, readAs_signed32 n,
      readAs_unzigzag32 n, fun k => zigzag_length_le⟩

-- 300 with a group of zeros in excess, and numbers at the far end of their ranges.
theorem varint_canonical_padded :
    Encodes [172, 130, 0] 300 ∧
      ([172, 130, 0] = varint 300 ∨ (varint 300).length < [172, 130, 0].length) ∧
      varint 300 <+: varint 300 ∧ varint 300 = varint 300 ∧
      (-8191 : Int64).toInt.natAbs < 2 ^ (7 * 2 - 1) ∧ (zigzagVarint (-8191)).length ≤ 2 ∧
      (-2147483648 : Int32).toInt.natAbs < 2 ^ (7 * 5 - 1) ∧
      (zigzagVarint32 (-2147483648)).length ≤ 5 := by
  have padded : Encodes [172, 130, 0] 300 := rfl
  have small : (-8191 : Int64).toInt.natAbs < 2 ^ (7 * 2 - 1) := by decide
  have lowest : (-2147483648 : Int32).toInt.natAbs < 2 ^ (7 * 5 - 1) := by decide
  obtain ⟨words, _, wide, narrow⟩ := varint_canonical
  obtain ⟨_, _, _, _, _, shortest, apart⟩ := words 300
  exact ⟨padded, shortest _ padded, List.prefix_refl _, apart _ (List.prefix_refl _), small,
    (wide (-8191)).2.2.2.2 2 (by decide) small, lowest,
    (narrow (-2147483648)).2.2.2.2 5 (by decide) lowest⟩

end SigningSchema.Wire
