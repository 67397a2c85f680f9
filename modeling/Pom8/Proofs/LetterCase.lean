import Pom8.Proofs.Kinds

/-!
# Lower and upper case

Changing case moves an ASCII letter by 32 code points and leaves every other
character alone.  The classes of characters that texts are read by take a letter
in both cases or in neither, and so the shape of a text does not depend on the
case of its letters.
-/

namespace Pom8.Text

/-! ## Code points -/

theorem toNat_toLower (c : Char) :
    c.toLower.toNat =
      if 65 ≤ c.toNat ∧ c.toNat ≤ 90 then c.toNat + 32 else c.toNat := by
  have hupper : (c.val ≥ 'A'.val ∧ c.val ≤ 'Z'.val) ↔
      65 ≤ c.toNat ∧ c.toNat ≤ 90 :=
    and_congr UInt32.le_iff_toNat_le UInt32.le_iff_toNat_le
  unfold Char.toLower
  by_cases hc : 65 ≤ c.toNat ∧ c.toNat ≤ 90
  · rw [dif_pos (hupper.mpr hc), if_pos hc]
    change (c.val + ('a'.val - 'A'.val)).toNat = _
    rw [UInt32.toNat_add]
    change (c.toNat + 32) % _ = _
    omega
  · rw [dif_neg (mt hupper.mp hc), if_neg hc]

theorem toNat_toUpper (c : Char) :
    c.toUpper.toNat =
      if 97 ≤ c.toNat ∧ c.toNat ≤ 122 then c.toNat - 32 else c.toNat := by
  have hlower : ('a'.val ≤ c.val ∧ c.val ≤ 'z'.val) ↔
      97 ≤ c.toNat ∧ c.toNat ≤ 122 :=
    and_congr UInt32.le_iff_toNat_le UInt32.le_iff_toNat_le
  unfold Char.toUpper
  by_cases hc : 97 ≤ c.toNat ∧ c.toNat ≤ 122
  · rw [dif_pos (hlower.mpr hc), if_pos hc]
    change (c.val + ('A'.val - 'a'.val)).toNat = _
    rw [UInt32.toNat_add]
    change (c.toNat + 4294967264) % _ = _
    omega
  · rw [dif_neg (mt hlower.mp hc), if_neg hc]

@[simp] theorem toLower_toLower (c : Char) : c.toLower.toLower = c.toLower := by
  apply Char.toNat_inj.mp
  rw [toNat_toLower c.toLower, if_neg]
  rw [toNat_toLower c]
  split <;> omega

@[simp] theorem toLower_toUpper (c : Char) : c.toUpper.toLower = c.toLower := by
  apply Char.toNat_inj.mp
  rw [toNat_toLower, toNat_toLower, toNat_toUpper]
  split_ifs <;> omega

@[simp] theorem toUpper_toLower (c : Char) : c.toLower.toUpper = c.toUpper := by
  apply Char.toNat_inj.mp
  rw [toNat_toUpper, toNat_toUpper, toNat_toLower]
  split_ifs <;> omega

/-- A character that is no ASCII letter is the lower case of itself only. -/
theorem toLower_eq_iff
    {c d : Char}
    (hd : d.toNat < 65 ∨ 90 < d.toNat ∧ d.toNat < 97 ∨ 122 < d.toNat) :
    c.toLower = d ↔ c = d := by
  rw [← Char.toNat_inj, ← Char.toNat_inj, toNat_toLower]
  split <;> omega

theorem map_toLower_eq_some_iff
    {found : Option Char} {d : Char} (hd : d.toNat < 65) :
    found.map Char.toLower = some d ↔ found = some d := by
  rw [Option.map_eq_some_iff]
  constructor
  · rintro ⟨c, rfl, hc⟩
    rw [(toLower_eq_iff (Or.inl hd)).mp hc]
  · rintro rfl
    exact ⟨d, rfl, (toLower_eq_iff (Or.inl hd)).mpr rfl⟩

/-- A letter in either case is told by a character in either case. -/
theorem toLower_eq_or_iff
    {c d : Char} (hd : 97 ≤ d.toNat ∧ d.toNat ≤ 122) :
    c.toLower = d ∨ c.toLower = d.toUpper ↔ c = d ∨ c = d.toUpper := by
  rw [← Char.toNat_inj, ← Char.toNat_inj, ← Char.toNat_inj, ← Char.toNat_inj,
    toNat_toLower, toNat_toUpper]
  split_ifs <;> omega

/-! ## Classes of characters -/

theorem isBlank_iff {c : Char} :
    isBlank c = true ↔
      9 ≤ c.toNat ∧ c.toNat ≤ 13 ∨ c.toNat = 0x20 ∨ c.toNat = 0x85 ∨
        c.toNat = 0xA0 ∨ c.toNat = 0x1680 ∨
          0x2000 ≤ c.toNat ∧ c.toNat ≤ 0x200A ∨
            0x2028 ≤ c.toNat ∧ c.toNat ≤ 0x2029 ∨ c.toNat = 0x202F ∨
              c.toNat = 0x205F ∨ c.toNat = 0x3000 := by
  simp only [isBlank, blankRanges, List.any_cons, List.any_nil, Bool.or_false,
    Bool.or_eq_true, Bool.and_eq_true, decide_eq_true_eq]
  omega

theorem isHexDigit_iff {c : Char} :
    Numeral.isHexDigit c = true ↔
      48 ≤ c.toNat ∧ c.toNat ≤ 57 ∨ 97 ≤ c.toNat ∧ c.toNat ≤ 102 ∨
        65 ≤ c.toNat ∧ c.toNat ≤ 70 := by
  have hlower : ('a' ≤ c ∧ c ≤ 'f') ↔ 97 ≤ c.toNat ∧ c.toNat ≤ 102 :=
    and_congr UInt32.le_iff_toNat_le UInt32.le_iff_toNat_le
  have hupper : ('A' ≤ c ∧ c ≤ 'F') ↔ 65 ≤ c.toNat ∧ c.toNat ≤ 70 :=
    and_congr UInt32.le_iff_toNat_le UInt32.le_iff_toNat_le
  rw [Numeral.isHexDigit, Bool.or_eq_true, Bool.or_eq_true, Bool.and_eq_true,
    Bool.and_eq_true, decide_eq_true_iff, decide_eq_true_iff, decide_eq_true_iff,
    decide_eq_true_iff, isDigit_iff, hlower, hupper, or_assoc]

@[simp] theorem isDigit_toLower (c : Char) : c.toLower.isDigit = c.isDigit := by
  rw [Bool.eq_iff_iff, isDigit_iff, isDigit_iff, toNat_toLower]
  split <;> omega

@[simp] theorem isLetter_toLower (c : Char) : isLetter c.toLower = isLetter c := by
  rw [Bool.eq_iff_iff, isLetter_iff, isLetter_iff, toNat_toLower]
  split <;> omega

@[simp] theorem isNameCharacter_toLower (c : Char) :
    isNameCharacter c.toLower = isNameCharacter c := by
  rw [isNameCharacter, isLetter_toLower, isDigit_toLower, isNameCharacter]

@[simp] theorem isBlank_toLower (c : Char) : isBlank c.toLower = isBlank c := by
  rw [Bool.eq_iff_iff, isBlank_iff, isBlank_iff, toNat_toLower]
  split <;> omega

@[simp] theorem isSeparator_toLower (c : Char) :
    isSeparator c.toLower = isSeparator c := by
  have hcomma : (c.toLower == ',') = (c == ',') := by
    rw [Bool.eq_iff_iff, beq_iff_eq, beq_iff_eq]
    exact toLower_eq_iff (Or.inl (by decide))
  rw [isSeparator, isBlank_toLower, hcomma, isSeparator]

@[simp] theorem isHexDigit_toLower (c : Char) :
    Numeral.isHexDigit c.toLower = Numeral.isHexDigit c := by
  rw [Bool.eq_iff_iff, isHexDigit_iff, isHexDigit_iff, toNat_toLower]
  split <;> omega

theorem isHexDigit_toUpper (c : Char) :
    Numeral.isHexDigit c.toUpper = Numeral.isHexDigit c := by
  rw [← isHexDigit_toLower, toLower_toUpper, isHexDigit_toLower]

@[simp] theorem isBinaryDigit_toLower (c : Char) :
    Numeral.isBinaryDigit c.toLower = Numeral.isBinaryDigit c := by
  rw [Bool.eq_iff_iff]
  simp only [Numeral.isBinaryDigit, Bool.or_eq_true, beq_iff_eq]
  rw [toLower_eq_iff (Or.inl (by decide)), toLower_eq_iff (Or.inl (by decide))]

theorem digitValue_eq (c : Char) :
    Numeral.digitValue c =
      if 48 ≤ c.toNat ∧ c.toNat ≤ 57 then c.toNat - 48
      else if 97 ≤ c.toNat ∧ c.toNat ≤ 102 then c.toNat - 87
      else if 65 ≤ c.toNat ∧ c.toNat ≤ 70 then c.toNat - 55
      else 0 := by
  have hlower : ('a' ≤ c ∧ c ≤ 'f') ↔ 97 ≤ c.toNat ∧ c.toNat ≤ 102 :=
    and_congr UInt32.le_iff_toNat_le UInt32.le_iff_toNat_le
  have hupper : ('A' ≤ c ∧ c ≤ 'F') ↔ 65 ≤ c.toNat ∧ c.toNat ≤ 70 :=
    and_congr UInt32.le_iff_toNat_le UInt32.le_iff_toNat_le
  have ha : 'a'.toNat = 97 := rfl
  have hA : 'A'.toNat = 65 := rfl
  have hzero : '0'.toNat = 48 := rfl
  simp only [Numeral.digitValue, isDigit_iff, hlower, hupper, ha, hA, hzero]
  split
  · rfl
  · split
    · omega
    · split <;> omega

@[simp] theorem digitValue_toLower (c : Char) :
    Numeral.digitValue c.toLower = Numeral.digitValue c := by
  rw [digitValue_eq, digitValue_eq, toNat_toLower]
  split_ifs <;> omega

/-! ## Texts -/

@[simp] theorem toList_lower (text : String) :
    (lower text).toList = text.toList.map Char.toLower := by
  rw [lower, String.toList_map]

@[simp] theorem toList_upper (text : String) :
    (upper text).toList = text.toList.map Char.toUpper := by
  rw [upper, String.toList_map]

theorem lower_ofList (text : List Char) :
    lower (String.ofList text) = String.ofList (text.map Char.toLower) := by
  apply String.toList_inj.mp
  rw [toList_lower, String.toList_ofList, String.toList_ofList]

@[simp] theorem lower_lower (text : String) : lower (lower text) = lower text := by
  apply String.toList_inj.mp
  simp [Function.comp_def]

@[simp] theorem upper_lower (text : String) : upper (lower text) = upper text := by
  apply String.toList_inj.mp
  simp [Function.comp_def]

@[simp] theorem lower_append (first second : String) :
    lower (first ++ second) = lower first ++ lower second := by
  apply String.toList_inj.mp
  simp

end Pom8.Text

namespace Pom8.Token

/-! ## Shapes of texts -/

theorem isRunOf_map_toLower
    {isMember : Char → Bool} (h : ∀ c, isMember c.toLower = isMember c)
    (text : List Char) :
    isRunOf isMember (text.map Char.toLower) = isRunOf isMember text := by
  simp [isRunOf, List.all_map, Function.comp_def, h]

@[simp] theorem isName_map_toLower (text : List Char) :
    isName (text.map Char.toLower) = isName text := by
  cases text with
  | nil => rfl
  | cons c rest => simp [isName, Function.comp_def]

@[simp] theorem isLabel_map_toLower (text : List Char) :
    isLabel (text.map Char.toLower) = isLabel text := by
  have hcolon : (text.map Char.toLower).getLast? = some ':' ↔
      text.getLast? = some ':' := by
    rw [List.getLast?_map]
    exact Text.map_toLower_eq_some_iff (by decide)
  rw [Bool.eq_iff_iff]
  simp only [isLabel, Bool.and_eq_true, beq_iff_eq, hcolon, ← List.map_dropLast,
    isName_map_toLower]

@[simp] theorem isRegister_map_toLower (text : List Char) :
    isRegister (text.map Char.toLower) = isRegister text := by
  cases text with
  | nil => rfl
  | cons c digits =>
      have hletter : c.toLower = 'r' ∨ c.toLower = 'R' ↔ c = 'r' ∨ c = 'R' :=
        @Text.toLower_eq_or_iff c 'r' (by decide)
      rw [Bool.eq_iff_iff]
      simp only [List.map_cons, isRegister, Bool.and_eq_true, Bool.or_eq_true,
        beq_iff_eq, hletter, isRunOf_map_toLower Text.isDigit_toLower]

/-- A zero, a mark and a run of digits, in lower case or as they are. -/
theorem exists_marked_map_toLower
    {mark : Char → Prop} {isDigit : Char → Bool}
    (hmark : ∀ c, mark c.toLower ↔ mark c)
    (hdigit : ∀ c, isDigit c.toLower = isDigit c) {text : List Char} :
    (∃ c digits, text.map Char.toLower = '0' :: c :: digits ∧ mark c ∧
        isRunOf isDigit digits = true) ↔
      ∃ c digits, text = '0' :: c :: digits ∧ mark c ∧
        isRunOf isDigit digits = true := by
  constructor
  · rintro ⟨c, digits, htext, hc, hdigits⟩
    obtain ⟨zero, rest, rfl, hzero, hrest⟩ := List.map_eq_cons_iff.mp htext
    obtain ⟨d, others, rfl, rfl, rfl⟩ := List.map_eq_cons_iff.mp hrest
    rw [(Text.toLower_eq_iff (Or.inl (by decide))).mp hzero]
    rw [isRunOf_map_toLower hdigit] at hdigits
    exact ⟨d, others, rfl, (hmark d).mp hc, hdigits⟩
  · rintro ⟨c, digits, rfl, hc, hdigits⟩
    refine ⟨c.toLower, digits.map Char.toLower, rfl, (hmark c).mpr hc, ?_⟩
    rw [isRunOf_map_toLower hdigit, hdigits]

@[simp] theorem isHexadecimal_map_toLower (text : List Char) :
    isHexadecimal (text.map Char.toLower) = isHexadecimal text := by
  rw [Bool.eq_iff_iff, isHexadecimal_iff, isHexadecimal_iff]
  apply exists_marked_map_toLower
  · intro c
    exact @Text.toLower_eq_or_iff c 'x' (by decide)
  · exact Text.isHexDigit_toLower

@[simp] theorem isBinary_map_toLower (text : List Char) :
    isBinary (text.map Char.toLower) = isBinary text := by
  rw [Bool.eq_iff_iff, isBinary_iff, isBinary_iff]
  apply exists_marked_map_toLower
  · intro c
    exact @Text.toLower_eq_or_iff c 'b' (by decide)
  · exact Text.isBinaryDigit_toLower

@[simp] theorem isDecimal_map_toLower (text : List Char) :
    isDecimal (text.map Char.toLower) = isDecimal text := by
  have hrun := isRunOf_map_toLower Text.isDigit_toLower
  rw [Bool.eq_iff_iff, isDecimal_iff, isDecimal_iff, hrun]
  apply or_congr Iff.rfl
  constructor
  · rintro ⟨digits, htext, hdigits⟩
    obtain ⟨sign, rest, rfl, hsign, rfl⟩ := List.map_eq_cons_iff.mp htext
    rw [(Text.toLower_eq_iff (Or.inl (by decide))).mp hsign]
    exact ⟨rest, rfl, by rwa [hrun] at hdigits⟩
  · rintro ⟨digits, rfl, hdigits⟩
    exact ⟨digits.map Char.toLower, rfl, by rwa [hrun]⟩

/-- The shape of a text does not depend on the case of its letters. -/
@[simp] theorem Kind.admits_map_toLower (text : List Char) (kind : Kind) :
    kind.admits (text.map Char.toLower) = kind.admits text := by
  cases kind with
  | newline =>
      rw [Bool.eq_iff_iff]
      simp only [admits, beq_iff_eq, List.map_eq_singleton_iff]
      constructor
      · rintro ⟨c, rfl, hc⟩
        rw [(Text.toLower_eq_iff (Or.inl (by decide))).mp hc]
      · rintro rfl
        exact ⟨'\n', rfl, by decide⟩
  | comment =>
      rw [Bool.eq_iff_iff]
      simp only [admits, beq_iff_eq, List.head?_map]
      exact Text.map_toLower_eq_some_iff (by decide)
  | register => exact isRegister_map_toLower text
  | hexadecimal => exact isHexadecimal_map_toLower text
  | decimal => exact isDecimal_map_toLower text
  | binary => exact isBinary_map_toLower text
  | label => exact isLabel_map_toLower text
  | mnemonic => exact isName_map_toLower text

@[simp] theorem Kind.ofText?_lower (text : String) :
    ofText? (Text.lower text) = ofText? text := by
  simp [ofText?]

end Pom8.Token
