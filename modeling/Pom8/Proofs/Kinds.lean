import Mathlib.Data.List.Basic
import Pom8.Token

/-!
# Shapes of texts

The classes of characters are ranges of code points, so most shapes exclude one
another by the first character alone.  Two shapes share texts in one case only:
a register is also a name.  A text therefore has the kind whose shape it has,
and a name is a mnemonic when it is no register, in every order of the kinds that
has registers before mnemonics.
-/

namespace Pom8.Text

theorem isDigit_iff {c : Char} :
    c.isDigit = true ↔ 48 ≤ c.toNat ∧ c.toNat ≤ 57 := by
  simp only [Char.isDigit, Bool.and_eq_true, decide_eq_true_eq, ge_iff_le,
    UInt32.le_iff_toNat_le]
  rfl

theorem isLetter_iff {c : Char} :
    isLetter c = true ↔
      65 ≤ c.toNat ∧ c.toNat ≤ 90 ∨ 97 ≤ c.toNat ∧ c.toNat ≤ 122 ∨
        c.toNat = 0x17F ∨ c.toNat = 0x212A := by
  have halpha : c.isAlpha =
      (decide (c.val ≥ 'A'.val ∧ c.val ≤ 'Z'.val) ||
        (decide (c.val ≥ 'a'.val) && decide (c.val ≤ 'z'.val))) := rfl
  simp only [isLetter, halpha, Bool.or_eq_true, Bool.and_eq_true,
    decide_eq_true_eq, ge_iff_le, UInt32.le_iff_toNat_le, beq_iff_eq,
    ← Char.toNat_inj, or_assoc]
  rfl

theorem isLetter_eq_false_of_isDigit
    {c : Char} (hc : c.isDigit = true) : isLetter c = false := by
  rw [Bool.eq_false_iff, Ne, isLetter_iff]
  rw [isDigit_iff] at hc
  omega

end Pom8.Text

namespace Pom8.Token

/-! ## The shapes, one by one -/

theorem isRunOf_iff {isMember : Char → Bool} {text : List Char} :
    isRunOf isMember text = true ↔
      text ≠ [] ∧ ∀ c ∈ text, isMember c = true := by
  simp [isRunOf]

theorem isName_iff {text : List Char} :
    isName text = true ↔
      ∃ c rest, text = c :: rest ∧ Text.isLetter c = true ∧
        ∀ d ∈ rest, Text.isNameCharacter d = true := by
  cases text with
  | nil => simp [isName]
  | cons c rest => simp [isName]

theorem isLabel_iff {text : List Char} :
    isLabel text = true ↔ ∃ name, text = name ++ [':'] ∧ isName name = true := by
  simp only [isLabel, Bool.and_eq_true, beq_iff_eq]
  constructor
  · rintro ⟨hlast, hname⟩
    exact ⟨text.dropLast, (List.dropLast_append_getLast? ':' hlast).symm, hname⟩
  · rintro ⟨name, rfl, hname⟩
    simpa using hname

theorem isRegister_iff {text : List Char} :
    isRegister text = true ↔
      ∃ c digits, text = c :: digits ∧ (c = 'r' ∨ c = 'R') ∧
        isRunOf Char.isDigit digits = true := by
  cases text with
  | nil => simp [isRegister]
  | cons c rest => simp [isRegister]

theorem isHexadecimal_iff {text : List Char} :
    isHexadecimal text = true ↔
      ∃ c digits, text = '0' :: c :: digits ∧ (c = 'x' ∨ c = 'X') ∧
        isRunOf Numeral.isHexDigit digits = true := by
  unfold isHexadecimal
  split
  · simp
  next hshape =>
    simp only [Bool.false_eq_true, false_iff]
    rintro ⟨c, digits, htext, -⟩
    exact hshape c digits htext

theorem isBinary_iff {text : List Char} :
    isBinary text = true ↔
      ∃ c digits, text = '0' :: c :: digits ∧ (c = 'b' ∨ c = 'B') ∧
        isRunOf Numeral.isBinaryDigit digits = true := by
  unfold isBinary
  split
  · simp
  next hshape =>
    simp only [Bool.false_eq_true, false_iff]
    rintro ⟨c, digits, htext, -⟩
    exact hshape c digits htext

theorem isDecimal_iff {text : List Char} :
    isDecimal text = true ↔
      isRunOf Char.isDigit text = true ∨
        ∃ digits, text = '-' :: digits ∧ isRunOf Char.isDigit digits = true := by
  unfold isDecimal
  split
  next digits =>
    have hsign : isRunOf Char.isDigit ('-' :: digits) = false := by
      simp [isRunOf]
    simp [hsign]
  next hshape =>
    constructor
    · exact Or.inl
    · rintro (hrun | ⟨digits, rfl, -⟩)
      · exact hrun
      · exact absurd rfl (hshape digits)

/-! ## One shape for each text -/

namespace Kind

/-- The kind of a shape when registers count as names. -/
def asName : Kind → Kind
  | register => mnemonic
  | kind => kind

/-- Only registers and names turn into one another. -/
theorem eq_or_of_asName_eq
    {kind other : Kind} (h : kind.asName = other.asName) :
    kind = other ∨ kind = register ∧ other = mnemonic ∨
      kind = mnemonic ∧ other = register := by
  cases kind <;> cases other <;> simp_all [asName]

/-- The kind of a number, by what stands after its first character. -/
def ofMark : List Char → Kind
  | 'x' :: _ | 'X' :: _ => hexadecimal
  | 'b' :: _ | 'B' :: _ => binary
  | _ => decimal

/-- The only kind, with registers counted as names, that a text can have by its
first two characters and its last one. -/
def apparent : List Char → Kind
  | [] => decimal
  | c :: rest =>
    if c = '\n' then newline
    else if c = ';' then comment
    else if Text.isLetter c then
      if (c :: rest).getLast? = some ':' then label else mnemonic
    else ofMark rest

theorem ofMark_of_isDigit
    {rest : List Char} (h : ∀ c ∈ rest, c.isDigit = true) :
    ofMark rest = decimal := by
  unfold ofMark
  split
  · exact absurd (h 'x' (by simp)) (by decide)
  · exact absurd (h 'X' (by simp)) (by decide)
  · exact absurd (h 'b' (by simp)) (by decide)
  · exact absurd (h 'B' (by simp)) (by decide)
  · rfl

theorem apparent_of_isLetter
    {c : Char} {rest : List Char} (hc : Text.isLetter c = true) :
    apparent (c :: rest) =
      if (c :: rest).getLast? = some ':' then label else mnemonic := by
  have hbreak : c ≠ '\n' := by
    rintro rfl
    exact absurd hc (by decide)
  have hcomment : c ≠ ';' := by
    rintro rfl
    exact absurd hc (by decide)
  simp [apparent, hbreak, hcomment, hc]

theorem apparent_of_isDigit
    {c : Char} {rest : List Char} (hc : c.isDigit = true) :
    apparent (c :: rest) = ofMark rest := by
  have hbreak : c ≠ '\n' := by
    rintro rfl
    exact absurd hc (by decide)
  have hcomment : c ≠ ';' := by
    rintro rfl
    exact absurd hc (by decide)
  simp [apparent, hbreak, hcomment, Text.isLetter_eq_false_of_isDigit hc]

theorem apparent_of_isName
    {text : List Char} (h : isName text = true) : apparent text = mnemonic := by
  obtain ⟨c, rest, rfl, hc, hrest⟩ := isName_iff.mp h
  have hcolon : (c :: rest).getLast? ≠ some ':' := by
    intro hlast
    rcases List.mem_cons.mp (List.mem_of_getLast? hlast) with rfl | hmem
    · exact absurd hc (by decide)
    · exact absurd (hrest _ hmem) (by decide)
  rw [apparent_of_isLetter hc, if_neg hcolon]

theorem apparent_of_isLabel
    {text : List Char} (h : isLabel text = true) : apparent text = label := by
  obtain ⟨name, rfl, hname⟩ := isLabel_iff.mp h
  obtain ⟨c, rest, rfl, hc, -⟩ := isName_iff.mp hname
  rw [List.cons_append, apparent_of_isLetter hc, if_pos]
  rw [← List.cons_append, List.getLast?_concat]

theorem isName_of_isRegister
    {text : List Char} (h : isRegister text = true) : isName text = true := by
  obtain ⟨c, digits, rfl, hc, hdigits⟩ := isRegister_iff.mp h
  refine isName_iff.mpr ⟨c, digits, rfl, ?_, ?_⟩
  · rcases hc with rfl | rfl <;> decide
  · intro d hd
    simp [Text.isNameCharacter, (isRunOf_iff.mp hdigits).2 d hd]

/-- A text shows its kind by its first two characters and its last one. -/
theorem apparent_eq_of_admits
    {text : List Char} {kind : Kind} (h : kind.admits text = true) :
    apparent text = kind.asName := by
  cases kind with
  | newline =>
      rw [show text = ['\n'] by simpa [admits] using h]
      rfl
  | comment =>
      obtain ⟨rest, rfl⟩ := List.head?_eq_some_iff.mp
        (show text.head? = some ';' by simpa [admits] using h)
      simp [apparent, asName]
  | register => exact apparent_of_isName (isName_of_isRegister h)
  | hexadecimal =>
      obtain ⟨c, digits, rfl, hc, -⟩ := isHexadecimal_iff.mp h
      rw [apparent_of_isDigit (by decide)]
      rcases hc with rfl | rfl <;> rfl
  | decimal =>
      rcases isDecimal_iff.mp h with hrun | ⟨digits, rfl, hrun⟩
      · obtain ⟨hne, hdigits⟩ := isRunOf_iff.mp hrun
        obtain ⟨c, rest, rfl⟩ := List.exists_cons_of_ne_nil hne
        rw [apparent_of_isDigit (hdigits c (by simp))]
        exact ofMark_of_isDigit fun d hd => hdigits d (by simp [hd])
      · exact ofMark_of_isDigit (isRunOf_iff.mp hrun).2
  | binary =>
      obtain ⟨c, digits, rfl, hc, -⟩ := isBinary_iff.mp h
      rw [apparent_of_isDigit (by decide)]
      rcases hc with rfl | rfl <;> rfl
  | label => exact apparent_of_isLabel h
  | mnemonic => exact apparent_of_isName h

/-- A text has the shapes of two kinds only if these are registers and names. -/
theorem eq_or_of_admits
    {text : List Char} {kind other : Kind}
    (hkind : kind.admits text = true) (hother : other.admits text = true) :
    kind = other ∨ kind = register ∧ other = mnemonic ∨
      kind = mnemonic ∧ other = register :=
  eq_or_of_asName_eq
    ((apparent_eq_of_admits hkind).symm.trans (apparent_eq_of_admits hother))

theorem mem_order (kind : Kind) : kind ∈ order := by
  cases kind <;> decide

/-- The first kind of a list that admits a text, if one does. -/
def first? (order : List Kind) (text : String) : Option Kind :=
  order.find? fun kind => kind.admits text.toList

/-- Of two entries of a list, one is found earlier than the other if it stands in
front of where the other first stands. -/
theorem idxOf_lt_idxOf_iff
    {kind other : Kind} {front back : List Kind} (hother : other ∉ front) :
    (front ++ other :: back).idxOf kind < (front ++ other :: back).idxOf other ↔
      kind ∈ front := by
  rw [List.idxOf_append_of_notMem hother, List.idxOf_cons_self, Nat.add_zero]
  by_cases hkind : kind ∈ front
  · simp [List.idxOf_append_of_mem hkind, hkind, List.idxOf_lt_length_of_mem]
  · simp [List.idxOf_append_of_notMem hkind, hkind]

section Order

variable {order : List Kind} {text : String} {kind : Kind}

/-- Where registers are tried before mnemonics, a mnemonic is no register. -/
theorem isRegister_eq_false_of_first?_eq_mnemonic
    (hregister : order.idxOf register < order.idxOf mnemonic)
    (h : first? order text = some mnemonic) :
    isRegister text.toList = false := by
  obtain ⟨hadmits, front, back, rfl, hfront⟩ := List.find?_eq_some_iff_append.mp h
  have hmnemonic : mnemonic ∉ front := by
    intro hmem
    exact absurd hadmits (by simpa using hfront mnemonic hmem)
  rw [idxOf_lt_idxOf_iff hmnemonic] at hregister
  simpa [admits] using hfront register hregister

/-- A text has the kind whose shape it has, and a register is no mnemonic: the
order of the kinds matters for these two alone. -/
theorem first?_eq_some_iff
    (hall : ∀ kind, kind ∈ order)
    (hregister : order.idxOf register < order.idxOf mnemonic) :
    first? order text = some kind ↔
      kind.admits text.toList = true ∧
        (kind = mnemonic → isRegister text.toList = false) := by
  constructor
  · intro h
    refine ⟨List.find?_some h, ?_⟩
    rintro rfl
    exact isRegister_eq_false_of_first?_eq_mnemonic hregister h
  · rintro ⟨hadmits, hname⟩
    cases hother : first? order text with
    | none =>
        have hnone := List.find?_eq_none.mp hother kind (hall kind)
        exact absurd hadmits hnone
    | some other =>
        have hother' : other.admits text.toList = true := List.find?_some hother
        rcases eq_or_of_admits hadmits hother' with rfl | ⟨rfl, rfl⟩ | ⟨rfl, rfl⟩
        · rfl
        · have hfalse := isRegister_eq_false_of_first?_eq_mnemonic hregister hother
          exact absurd hadmits (by simp [admits, hfalse])
        · exact absurd hother' (by simp [admits, hname rfl])

end Order

theorem admits_of_ofText?_eq_some
    {text : String} {kind : Kind} (h : ofText? text = some kind) :
    kind.admits text.toList = true :=
  List.find?_some h

/-- A text has the kind whose shape it has; a register is no mnemonic. -/
theorem ofText?_eq_some_iff {text : String} {kind : Kind} :
    ofText? text = some kind ↔
      kind.admits text.toList = true ∧
        (kind = mnemonic → isRegister text.toList = false) :=
  first?_eq_some_iff mem_order (by decide)

end Kind
end Pom8.Token
