import DollarMath.Text.Utf8

/-!
Bytes are the encoding of a text just if they decode to it.
-/

namespace DollarMath.Utf8

theorem tailSize?_one {first : Nat} (high : first < 0x80) : tailSize? first = some 0 := by
  simp [tailSize?, high]

theorem tailSize?_two {first : Nat} (low : 0xC2 ≤ first) (high : first < 0xE0) :
    tailSize? first = some 1 := by
  unfold tailSize?
  rw [if_neg (by omega), if_neg (by omega), if_pos high]

theorem tailSize?_three {first : Nat} (low : 0xE0 ≤ first) (high : first < 0xF0) :
    tailSize? first = some 2 := by
  unfold tailSize?
  rw [if_neg (by omega), if_neg (by omega), if_neg (by omega), if_pos high]

theorem tailSize?_four {first : Nat} (low : 0xF0 ≤ first) (high : first < 0xF5) :
    tailSize? first = some 3 := by
  unfold tailSize?
  rw [if_neg (by omega), if_neg (by omega), if_neg (by omega), if_neg (by omega), if_pos high]

theorem tailSize?_eq_some {first size : Nat} (found : tailSize? first = some size) :
    (size = 0 ∧ first < 0x80) ∨ (size = 1 ∧ 0xC2 ≤ first ∧ first < 0xE0) ∨
      (size = 2 ∧ 0xE0 ≤ first ∧ first < 0xF0) ∨ (size = 3 ∧ 0xF0 ≤ first ∧ first < 0xF5) := by
  unfold tailSize? at found
  split at found
  · simp only [Option.some.injEq] at found
    omega
  · split at found
    · simp at found
    · split at found
      · simp only [Option.some.injEq] at found
        omega
      · split at found
        · simp only [Option.some.injEq] at found
          omega
        · split at found
          · simp only [Option.some.injEq] at found
            omega
          · simp at found

theorem secondBounds_iff (first second : Nat) :
    (secondBounds first).1 ≤ second ∧ second ≤ (secondBounds first).2 ↔
      0x80 ≤ second ∧ second ≤ 0xBF ∧ (first = 0xE0 → 0xA0 ≤ second) ∧
        (first = 0xED → second ≤ 0x9F) ∧ (first = 0xF0 → 0x90 ≤ second) ∧
        (first = 0xF4 → second ≤ 0x8F) := by
  unfold secondBounds
  split
  · omega
  · split
    · omega
    · split
      · omega
      · split <;> omega

theorem leadBits_two {first : Nat} (low : 0xC2 ≤ first) (high : first < 0xE0) :
    leadBits first = first - 0xC0 := by
  unfold leadBits
  rw [if_neg (by omega), if_pos high]
  omega

theorem leadBits_three {first : Nat} (low : 0xE0 ≤ first) (high : first < 0xF0) :
    leadBits first = first - 0xE0 := by
  unfold leadBits
  rw [if_neg (by omega), if_neg (by omega), if_pos high]
  omega

theorem leadBits_four {first : Nat} (low : 0xF0 ≤ first) (high : first < 0xF5) :
    leadBits first = first - 0xF0 := by
  unfold leadBits
  rw [if_neg (by omega), if_neg (by omega), if_neg (by omega)]
  omega

section Tails

variable {left taken code : Nat} {bounds : Nat × Nat}

theorem readTail_cons {byte : UInt8} (low : bounds.1 ≤ byte.toNat) (high : byte.toNat ≤ bounds.2)
    (tail rest : Bytes) :
    readTail (left + 1) bounds taken code (byte :: tail ++ rest) =
      readTail left (0x80, 0xBF) (taken + 1) (code * 0x40 + byte.toNat % 0x40) (tail ++ rest) := by
  simp [readTail, low, high]

theorem readTail_eq_ok {bytes : Bytes} {value : Nat}
    (read : readTail (left + 1) bounds taken code bytes = .ok value) :
    ∃ byte rest, bytes = byte :: rest ∧ bounds.1 ≤ byte.toNat ∧ byte.toNat ≤ bounds.2 ∧
      readTail left (0x80, 0xBF) (taken + 1) (code * 0x40 + byte.toNat % 0x40) rest =
        .ok value := by
  cases bytes with
  | nil => simp [readTail] at read
  | cons byte rest =>
      rw [readTail] at read
      split at read
      next inside =>
        simp only [Bool.and_eq_true, decide_eq_true_eq] at inside
        exact ⟨byte, rest, rfl, inside.1, inside.2, read⟩
      next => simp at read

end Tails

theorem toNat_ofNat {value : Nat} (small : value < 256) : (UInt8.ofNat value).toNat = value := by
  simp [Nat.mod_eq_of_lt small]

theorem readChar_of_tail {first : UInt8} {rest : Bytes} {size code : Nat}
    (sized : tailSize? first.toNat = some size)
    (read : readTail size (secondBounds first.toNat) 1 (leadBits first.toNat) rest = .ok code) :
    readChar first rest = .ok (Char.ofNat code, size) := by
  rw [readChar, sized]
  simp only [read]
  rfl

theorem toNat_follower (value : Nat) :
    (UInt8.ofNat (value % 0x40 + 0x80)).toNat = value % 0x40 + 0x80 :=
  toNat_ofNat (by omega)

section Sizes

variable {value : Nat} (rest : Bytes)

theorem readChar_one (high : value ≤ 0x7F) :
    readChar (UInt8.ofNat value) ([] ++ rest) = .ok (Char.ofNat value, 0) := by
  have first : (UInt8.ofNat value).toNat = value := toNat_ofNat (by omega)
  refine readChar_of_tail ?_ ?_
  · rw [first]
    exact tailSize?_one (by omega)
  · rw [first, leadBits, if_pos (by omega)]
    rfl

theorem readChar_two (low : 0x7F < value) (high : value ≤ 0x7FF) :
    readChar (UInt8.ofNat (value / 64 % 0x20 + 0xC0))
        ([UInt8.ofNat (value % 0x40 + 0x80)] ++ rest) =
      .ok (Char.ofNat value, 1) := by
  have last := toNat_follower value
  have first : (UInt8.ofNat (value / 64 % 0x20 + 0xC0)).toNat = value / 64 + 0xC0 := by
    rw [toNat_ofNat (by omega)]
    omega
  refine readChar_of_tail ?_ ?_
  · rw [first]
    exact tailSize?_two (by omega) (by omega)
  · have bounds := (secondBounds_iff (value / 64 + 0xC0) (value % 0x40 + 0x80)).mpr (by omega)
    rw [← last] at bounds
    rw [first, readTail_cons bounds.1 bounds.2, readTail, last,
      leadBits_two (by omega) (by omega)]
    congr 1
    omega

theorem readChar_three (low : 0x7FF < value) (high : value ≤ 0xFFFF)
    (valid : value < 0xD800 ∨ 0xDFFF < value) :
    readChar (UInt8.ofNat (value / 4096 % 0x10 + 0xE0))
        ([UInt8.ofNat (value / 64 % 0x40 + 0x80), UInt8.ofNat (value % 0x40 + 0x80)] ++ rest) =
      .ok (Char.ofNat value, 2) := by
  have last := toNat_follower value
  have second := toNat_follower (value / 64)
  have first : (UInt8.ofNat (value / 4096 % 0x10 + 0xE0)).toNat = value / 4096 + 0xE0 := by
    rw [toNat_ofNat (by omega)]
    omega
  refine readChar_of_tail ?_ ?_
  · rw [first]
    exact tailSize?_three (by omega) (by omega)
  · have bounds :=
      (secondBounds_iff (value / 4096 + 0xE0) (value / 64 % 0x40 + 0x80)).mpr (by omega)
    rw [← second] at bounds
    rw [first, readTail_cons bounds.1 bounds.2,
      readTail_cons (by rw [last]; omega) (by rw [last]; omega), readTail, last, second,
      leadBits_three (by omega) (by omega)]
    congr 1
    omega

theorem readChar_four (low : 0xFFFF < value) (high : value < 0x110000) :
    readChar (UInt8.ofNat (value / 262144 % 0x08 + 0xF0))
        ([UInt8.ofNat (value / 4096 % 0x40 + 0x80), UInt8.ofNat (value / 64 % 0x40 + 0x80),
          UInt8.ofNat (value % 0x40 + 0x80)] ++ rest) =
      .ok (Char.ofNat value, 3) := by
  have last := toNat_follower value
  have third := toNat_follower (value / 64)
  have second := toNat_follower (value / 4096)
  have first : (UInt8.ofNat (value / 262144 % 0x08 + 0xF0)).toNat = value / 262144 + 0xF0 := by
    rw [toNat_ofNat (by omega)]
    omega
  refine readChar_of_tail ?_ ?_
  · rw [first]
    exact tailSize?_four (by omega) (by omega)
  · have bounds :=
      (secondBounds_iff (value / 262144 + 0xF0) (value / 4096 % 0x40 + 0x80)).mpr (by omega)
    rw [← second] at bounds
    rw [first, readTail_cons bounds.1 bounds.2,
      readTail_cons (by rw [third]; omega) (by rw [third]; omega),
      readTail_cons (by rw [last]; omega) (by rw [last]; omega), readTail, last, third,
      second, leadBits_four (by omega) (by omega)]
    congr 1
    omega

end Sizes

theorem readChar_encode (char : Char) (rest : Bytes) :
    ∃ first tail, String.utf8EncodeChar char = first :: tail ∧
      readChar first (tail ++ rest) = .ok (char, tail.length) := by
  have valid : char.val.toNat < 0xD800 ∨ 0xDFFF < char.val.toNat ∧ char.val.toNat < 0x110000 :=
    char.valid
  have whole : Char.ofNat char.val.toNat = char := Char.ofNat_toNat char
  unfold String.utf8EncodeChar
  dsimp only
  generalize char.val.toNat = value at valid whole
  subst whole
  split
  next high => exact ⟨_, _, rfl, readChar_one rest high⟩
  next low =>
    split
    next high => exact ⟨_, _, rfl, readChar_two rest (by omega) high⟩
    next low =>
      split
      next high => exact ⟨_, _, rfl, readChar_three rest (by omega) high (by omega)⟩
      next low => exact ⟨_, _, rfl, readChar_four rest (by omega) (by omega)⟩

theorem readChar_eq_ok {first : UInt8} {rest : Bytes} {char : Char} {size : Nat}
    (read : readChar first rest = .ok (char, size)) :
    tailSize? first.toNat = some size ∧ ∃ code, char = Char.ofNat code ∧
      readTail size (secondBounds first.toNat) 1 (leadBits first.toNat) rest = .ok code := by
  unfold readChar at read
  split at read
  next => simp at read
  next found sized =>
    cases tail : readTail found (secondBounds first.toNat) 1 (leadBits first.toNat) rest with
    | error fault => simp [tail, Except.map] at read
    | ok code =>
        simp only [tail, Except.map, Except.ok.injEq, Prod.mk.injEq] at read
        obtain ⟨rfl, rfl⟩ := read
        exact ⟨sized, code, rfl, tail⟩

theorem val_ofNat {code : Nat} (valid : code < 0xD800 ∨ 0xDFFF < code ∧ code < 0x110000) :
    (Char.ofNat code).val.toNat = code := by
  have isValid : code.isValidChar := valid
  rw [Char.ofNat, dif_pos isValid]
  rfl

theorem ofNat_eq {value : Nat} {byte : UInt8} (same : value = byte.toNat) :
    UInt8.ofNat value = byte := by
  rw [same, UInt8.ofNat_toNat]

theorem encode_readChar {first : UInt8} {rest : Bytes} {char : Char} {size : Nat}
    (read : readChar first rest = .ok (char, size)) :
    String.utf8EncodeChar char = first :: rest.take size := by
  obtain ⟨sized, code, rfl, tail⟩ := readChar_eq_ok read
  unfold String.utf8EncodeChar
  dsimp only
  rcases tailSize?_eq_some sized with ⟨rfl, small⟩ | ⟨rfl, low, high⟩ | ⟨rfl, low, high⟩ |
    ⟨rfl, low, high⟩
  · rw [readTail, leadBits, if_pos small, Except.ok.injEq] at tail
    rw [val_ofNat (by omega), if_pos (by omega), ofNat_eq tail.symm]
    rfl
  · obtain ⟨second, left, rfl, least, most, ended⟩ := readTail_eq_ok tail
    rw [readTail, leadBits_two low high, Except.ok.injEq] at ended
    have inside := (secondBounds_iff first.toNat second.toNat).mp ⟨least, most⟩
    rw [val_ofNat (by omega), if_neg (by omega), if_pos (by omega),
      @ofNat_eq _ first (by omega), @ofNat_eq _ second (by omega)]
    rfl
  · obtain ⟨second, left, rfl, least, most, later⟩ := readTail_eq_ok tail
    obtain ⟨third, left, rfl, least', most', ended⟩ := readTail_eq_ok later
    rw [readTail, leadBits_three low high, Except.ok.injEq] at ended
    have inside := (secondBounds_iff first.toNat second.toNat).mp ⟨least, most⟩
    dsimp only at least' most'
    rw [val_ofNat (by omega), if_neg (by omega), if_neg (by omega), if_pos (by omega),
      @ofNat_eq _ first (by omega), @ofNat_eq _ second (by omega),
      @ofNat_eq _ third (by omega)]
    rfl
  · obtain ⟨second, left, rfl, least, most, later⟩ := readTail_eq_ok tail
    obtain ⟨third, left, rfl, least', most', last⟩ := readTail_eq_ok later
    obtain ⟨fourth, left, rfl, least'', most'', ended⟩ := readTail_eq_ok last
    rw [readTail, leadBits_four low high, Except.ok.injEq] at ended
    have inside := (secondBounds_iff first.toNat second.toNat).mp ⟨least, most⟩
    dsimp only at least' most' least'' most''
    rw [val_ofNat (by omega), if_neg (by omega), if_neg (by omega), if_neg (by omega),
      @ofNat_eq _ first (by omega), @ofNat_eq _ second (by omega),
      @ofNat_eq _ third (by omega), @ofNat_eq _ fourth (by omega)]
    rfl

theorem mapM_parts_encode (offset : Nat) (text : List Char) :
    (parts offset (encode text)).mapM id = .ok text := by
  induction text generalizing offset with
  | nil =>
      have nilEq : encode [] = [] := rfl
      rw [nilEq, parts]
      rfl
  | cons char text ih =>
      obtain ⟨first, tail, encoded, read⟩ := readChar_encode char (encode text)
      have whole : encode (char :: text) = first :: (tail ++ encode text) := by
        rw [encode, List.flatMap_cons, encoded]
        rfl
      rw [whole, parts, read]
      simp only [List.mapM_cons, List.drop_left, ih]
      rfl

theorem decode_encode (text : List Char) : decode (encode text) = .ok text :=
  mapM_parts_encode 0 text

theorem encode_of_mapM_parts {offset : Nat} {bytes : Bytes} {text : List Char}
    (decoded : (parts offset bytes).mapM id = .ok text) : encode text = bytes := by
  induction count : bytes.length using Nat.strongRecOn generalizing offset bytes text with
  | _ size ih =>
      cases bytes with
      | nil =>
          rw [parts] at decoded
          obtain rfl := Except.ok.inj decoded
          rfl
      | cons first rest =>
          rw [parts] at decoded
          cases read : readChar first rest with
          | error fault => simp [read, bind, Except.bind] at decoded
          | ok found =>
              obtain ⟨char, taken⟩ := found
              simp only [read, List.mapM_cons, id] at decoded
              cases later : (parts (offset + 1 + taken) (rest.drop taken)).mapM id with
              | error fault =>
                  rw [later] at decoded
                  cases decoded
              | ok others =>
                  rw [later] at decoded
                  obtain rfl : char :: others = text := Except.ok.inj decoded
                  have shorter : (rest.drop taken).length < size := by
                    rw [← count, List.length_drop, List.length_cons]
                    omega
                  rw [encode, List.flatMap_cons, encode_readChar read, ← encode,
                    ih _ shorter later rfl, List.cons_append, List.take_append_drop]

theorem encode_of_decode {bytes : Bytes} {text : List Char} (decoded : decode bytes = .ok text) :
    encode text = bytes :=
  encode_of_mapM_parts decoded

end DollarMath.Utf8
