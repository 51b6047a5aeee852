import DollarMath.Conversion.Options
import DollarMath.Settings.KeyCase
import Mathlib.Data.List.Basic

/-!
Keys in lower case: what they hold, and that a key in lower case which becomes the name of a switch
by being put in lower case once more is that name already.
-/

namespace DollarMath

/-- What a character in lower case may be. The sign of the kelvin is apart from the other
characters outside of ASCII, as its lower case is in ASCII. -/
structure Text.IsLowered (char : Char) : Prop where
  notUpper : char.isUpper = false
  notHyphen : char ≠ '-'
  notKelvin : char.toNat ≠ 0x212A

namespace Text

def isPlainShift (entry : Nat × Nat × Nat × Int) : Bool :=
  let low := entry.1 + entry.2.2.2
  let high := entry.2.1 + entry.2.2.2
  entry.2.1 < 128 || entry = (0x212A, 0x212A, 1, -8383) ||
    (128 ≤ low && (high < 0x212A || 0x212A < low) && (high < 0xD800 || 0xDFFF < low) &&
      high < 0x110000)

theorem all_isPlainShift : lowerShifts.all isPlainShift = true := by
  decide +kernel

theorem lowerCode_of_le {code : Nat} (isChar : code.isValidChar) (wide : 128 ≤ code) :
    (code = 0x212A ∧ lowerCode code = 107) ∨
      ((lowerCode code).isValidChar ∧ 128 ≤ lowerCode code ∧ lowerCode code ≠ 0x212A) := by
  unfold lowerCode
  split
  next entry found =>
    have plain := List.all_eq_true.mp all_isPlainShift entry (List.mem_of_find?_eq_some found)
    have within := List.find?_some found
    simp only [inRange, Bool.and_eq_true, decide_eq_true_eq] at within
    simp only [isPlainShift, Bool.or_eq_true, Bool.and_eq_true, decide_eq_true_eq] at plain
    simp only [Nat.isValidChar]
    rcases plain with (narrow | rfl) | outside
    · omega
    · dsimp only at within ⊢
      omega
    · omega
  next unshifted =>
    refine .inr ⟨isChar, wide, ?_⟩
    rintro rfl
    exact absurd unshifted (by decide +kernel)

theorem toLower_of_lt {char : Char} (narrow : char.toNat < 128) :
    char.toLower.isUpper = false ∧ char.toLower.toNat < 128 ∧ (char.toLower = '-' → char = '-') ∧
      (char.isUpper = false → char.toLower = char) ∧ (char.isDigit = true → char.toLower = char) := by
  have all : ∀ code < 128, let char := Char.ofNat code
      char.toLower.isUpper = false ∧ char.toLower.toNat < 128 ∧
        (char.toLower = '-' → char = '-') ∧ (char.isUpper = false → char.toLower = char) ∧
        (char.isDigit = true → char.toLower = char) := by
    decide
  simpa only [Char.ofNat_toNat] using all char.toNat narrow

theorem toNat_ofNat_of_isValidChar {code : Nat} (isChar : code.isValidChar) :
    (Char.ofNat code).toNat = code := by
  rw [Char.ofNat, dif_pos isChar]
  rfl

theorem not_isUpper_of_le {char : Char} (wide : 128 ≤ char.toNat) : char.isUpper = false := by
  change decide (char.val ≥ 'A'.val ∧ char.val ≤ 'Z'.val) = false
  simp only [decide_eq_false_iff_not, not_and, ge_iff_le, UInt32.le_iff_toNat_le]
  intro _ upper
  have := Nat.le_trans (Nat.le_trans wide upper) (by decide : 'Z'.val.toNat ≤ 90)
  omega

theorem IsLowered.of_le {char : Char} (wide : 128 ≤ char.toNat) (other : char.toNat ≠ 0x212A) :
    IsLowered char := by
  refine ⟨not_isUpper_of_le wide, ?_, other⟩
  rintro rfl
  exact absurd wide (by decide)

/-- A character of which nothing in lower case is outside of ASCII is in lower case already, if it is
the lower case of another. -/
theorem lowerChar_eq_self {before after : List Char} {char : Char} (lowered : IsLowered char)
    (narrow : ∀ out ∈ lowerChar before char after, out.toNat < 128) :
    lowerChar before char after = [char] := by
  unfold lowerChar at narrow ⊢
  by_cases own : char.toNat < 128
  · rw [if_pos own, (toLower_of_lt own).2.2.2.1 lowered.notUpper]
  · exfalso
    rw [if_neg own] at narrow
    split at narrow
    next => exact absurd (narrow (Char.ofNat 0x307) (by simp)) (by decide)
    next =>
      split at narrow
      next =>
        have sigma := narrow _ List.mem_cons_self
        split at sigma
        · exact absurd sigma (by decide)
        · exact absurd sigma (by decide)
      next =>
        have outside := narrow _ List.mem_cons_self
        rcases @lowerCode_of_le char.toNat char.valid (Nat.le_of_not_lt own) with
          ⟨kelvin, _⟩ | ⟨isChar, wide, _⟩
        · exact lowered.notKelvin kelvin
        · rw [toNat_ofNat_of_isValidChar isChar] at outside
          exact absurd wide (Nat.not_le_of_lt outside)

theorem isLowered_of_mem_lowerChar {before after : List Char} {char out : Char}
    (notHyphen : char ≠ '-') (member : out ∈ lowerChar before char after) : IsLowered out := by
  unfold lowerChar at member
  split at member
  next narrow =>
    obtain rfl := List.mem_singleton.mp member
    obtain ⟨notUpper, stays, hyphen, _⟩ := toLower_of_lt narrow
    exact ⟨notUpper, fun same => notHyphen (hyphen same), by omega⟩
  next wide =>
    split at member
    next =>
      rcases List.mem_cons.mp member with rfl | dot
      · exact ⟨by decide, by decide, by decide⟩
      · obtain rfl := List.mem_singleton.mp dot
        exact .of_le (by decide) (by decide)
    next =>
      split at member
      next =>
        obtain rfl := List.mem_singleton.mp member
        split
        · exact .of_le (by decide) (by decide)
        · exact .of_le (by decide) (by decide)
      next =>
        obtain rfl := List.mem_singleton.mp member
        rcases @lowerCode_of_le char.toNat char.valid (Nat.le_of_not_lt wide) with
          ⟨_, letter⟩ | ⟨isChar, outside, other⟩
        · rw [letter]
          exact ⟨by decide, by decide, by decide⟩
        · have code := toNat_ofNat_of_isValidChar isChar
          exact .of_le (by rwa [code]) (by rwa [code])

theorem mem_lowerAfter {before text : List Char} {out : Char} :
    out ∈ lowerAfter before text ↔ ∃ front char back,
      text = front ++ char :: back ∧ out ∈ lowerChar (front.reverse ++ before) char back := by
  induction text generalizing before with
  | nil => simp [lowerAfter]
  | cons first rest ih =>
      rw [lowerAfter, List.mem_append, ih]
      constructor
      · rintro (own | ⟨front, char, back, rfl, later⟩)
        · exact ⟨[], first, rest, rfl, own⟩
        · exact ⟨first :: front, char, back, rfl, by simpa using later⟩
      · rintro ⟨front, char, back, split, member⟩
        cases front with
        | nil =>
            obtain ⟨rfl, rfl⟩ := List.cons.inj split
            exact .inl member
        | cons _ front =>
            obtain ⟨rfl, rfl⟩ := List.cons.inj split
            exact .inr ⟨front, char, back, rfl, by simpa using member⟩

theorem isLowered_of_mem_lower {text : List Char} {out : Char} (free : '-' ∉ text)
    (member : out ∈ lower text) : IsLowered out := by
  obtain ⟨front, char, back, rfl, own⟩ := mem_lowerAfter.mp member
  refine isLowered_of_mem_lowerChar ?_ own
  rintro rfl
  exact free (by simp)

theorem lowerAfter_eq_self {before text : List Char} (lowered : ∀ char ∈ text, IsLowered char)
    (narrow : ∀ out ∈ lowerAfter before text, out.toNat < 128) :
    lowerAfter before text = text := by
  induction text generalizing before with
  | nil => rfl
  | cons char rest ih =>
      obtain ⟨own, others⟩ := List.forall_mem_cons.mp lowered
      rw [lowerAfter] at narrow ⊢
      obtain ⟨ownNarrow, restNarrow⟩ := List.forall_mem_append.mp narrow
      rw [lowerChar_eq_self own ownNarrow, ih others restNarrow]
      rfl

end Text

namespace KeyCase

open Text (IsLowered)

def isNameChar (char : Char) : Bool :=
  char.toNat < 128 && !char.isDigit

theorem isLowered_of_mem_snake {key : String} {char : Char} (member : char ∈ (snake key).toList) :
    IsLowered char := by
  rw [snake, String.toList_ofList] at member
  refine Text.isLowered_of_mem_lower ?_ member
  intro hyphen
  obtain ⟨other, _, same⟩ := List.mem_map.mp hyphen
  split at same
  · exact absurd same (by decide)
  next notHyphen => exact notHyphen (by simp [same])

theorem mem_markWords {text : List Char} {char : Char} (member : char ∈ text) :
    char ∈ markWords text := by
  fun_induction markWords text with
  | case1 => exact member
  | case2 => exact member
  | case3 left right rest _ ih =>
      rcases List.mem_cons.mp member with rfl | later
      · exact List.mem_cons_self
      · exact List.mem_cons_of_mem _ (List.mem_cons_of_mem _ (ih later))
  | case4 left right rest _ ih =>
      rcases List.mem_cons.mp member with rfl | later
      · exact List.mem_cons_self
      · exact List.mem_cons_of_mem _ (ih later)

theorem markWords_eq_self {text : List Char}
    (flat : ∀ char ∈ text, char.isUpper = false ∧ char.isDigit = false) :
    markWords text = text := by
  fun_induction markWords text with
  | case1 => rfl
  | case2 => rfl
  | case3 left right rest starts =>
      have first := flat left (by simp)
      have second := flat right (by simp)
      simp [startsWord, first, second] at starts
  | case4 left right rest _ ih => rw [ih (List.forall_mem_cons.mp flat).2]

theorem mem_lower_of_isDigit {text : List Char} {char : Char} (member : char ∈ text)
    (digit : char.isDigit = true) : char ∈ Text.lower text := by
  obtain ⟨front, back, rfl⟩ := List.append_of_mem member
  refine Text.mem_lowerAfter.mpr ⟨front, char, back, rfl, ?_⟩
  have bounds := Char.isDigit_iff_toNat.mp digit
  have upper : '9'.toNat < 128 := by decide
  have narrow : char.toNat < 128 := by omega
  rw [Text.lowerChar, if_pos narrow, (Text.toLower_of_lt narrow).2.2.2.2 digit]
  exact List.mem_singleton_self _

theorem eq_of_snake_snake {key name : String} (plain : name.toList.all isNameChar = true)
    (same : snake (snake key) = name) : snake key = name := by
  have lowered : ∀ char ∈ (snake key).toList, IsLowered char := fun _ => isLowered_of_mem_snake
  generalize snake key = again at lowered same
  have shape := congrArg String.toList same
  rw [snake, String.toList_ofList] at shape
  have isName : ∀ out ∈ Text.lower ((markWords again.toList).map fun char =>
      if char == '-' then '_' else char), out.toNat < 128 ∧ out.isDigit = false := by
    intro out member
    rw [shape] at member
    simpa [isNameChar] using List.all_eq_true.mp plain out member
  have noDigit : ∀ char ∈ again.toList, char.isDigit = false := by
    intro char member
    by_contra isDigit
    rw [Bool.not_eq_false] at isDigit
    have stays : char ∈ (markWords again.toList).map fun char =>
        if char == '-' then '_' else char := by
      refine List.mem_map.mpr ⟨char, mem_markWords member, ?_⟩
      simp [(lowered char member).notHyphen]
    have out := (isName char (mem_lower_of_isDigit stays isDigit)).2
    rw [isDigit] at out
    exact absurd out (by decide)
  have words := markWords_eq_self fun char member =>
    ⟨(lowered char member).notUpper, noDigit char member⟩
  have hyphens : again.toList.map (fun char => if char == '-' then '_' else char) =
      again.toList := by
    rw [List.map_congr_left fun char member => by
      rw [beq_eq_false_iff_ne.mpr (lowered char member).notHyphen, if_neg (by decide)]]
    exact List.map_id' _
  rw [words, hyphens] at shape isName
  rw [Text.lower, Text.lowerAfter_eq_self lowered fun out member => (isName out member).1] at shape
  exact String.toList_injective shape

theorem snake_name (switch : Switch) : snake switch.name = switch.name := by
  cases switch <;> decide +kernel

theorem eq_name_of_snake_snake {key : String} {switch : Switch}
    (same : snake (snake key) = switch.name) : snake key = switch.name :=
  eq_of_snake_snake (by cases switch <;> decide +kernel) same

theorem snake_ne_camel (key : String) (switch : Switch) : snake key ≠ camel switch.name := by
  intro same
  have upper : (camel switch.name).toList.any Char.isUpper = true := by
    cases switch <;> decide +kernel
  obtain ⟨char, member, isUpper⟩ := List.any_eq_true.mp upper
  rw [← same] at member
  rw [(isLowered_of_mem_snake member).notUpper] at isUpper
  exact absurd isUpper (by decide)

end KeyCase

end DollarMath
