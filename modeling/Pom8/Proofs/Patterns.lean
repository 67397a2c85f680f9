import Mathlib.Computability.Language
import Pom8.Proofs.Scanning

/-!
# Patterns of tokens

Each kind of token has a pattern, a regular language of texts, and admits the
texts of its pattern.  The patterns exclude one another but for registers, which
are also names, so the kind of a text depends on the order of the kinds only in
that registers are tried before mnemonics.  A text outside all patterns makes no
token.
-/

namespace Pom8.Token

open scoped Computability

/-- The texts of one character of a class. -/
def oneOf (isMember : Char → Prop) : Language Char :=
  {text | ∃ c, isMember c ∧ text = [c]}

/-- The texts of one or more characters of a class. -/
def someOf (isMember : Char → Prop) : Language Char :=
  oneOf isMember * (oneOf isMember)∗

/-- The pattern of the tokens of a kind. -/
def Kind.pattern : Kind → Language Char
  | newline => oneOf (· = '\n')
  | comment => oneOf (· = ';') * ⊤
  | register => oneOf (· ∈ ['r', 'R']) * someOf (·.isDigit)
  | hexadecimal =>
    oneOf (· = '0') * (oneOf (· ∈ ['x', 'X']) * someOf (Numeral.isHexDigit ·))
  | decimal => (1 + oneOf (· = '-')) * someOf (·.isDigit)
  | binary =>
    oneOf (· = '0') * (oneOf (· ∈ ['b', 'B']) * someOf (Numeral.isBinaryDigit ·))
  | label =>
    oneOf (Text.isLetter ·) * (oneOf (Text.isNameCharacter ·))∗ * oneOf (· = ':')
  | mnemonic => oneOf (Text.isLetter ·) * (oneOf (Text.isNameCharacter ·))∗

/-! ## Texts of a pattern -/

section Language

variable {isMember : Char → Prop} {rest : Language Char} {text : List Char}

theorem mem_oneOf_iff : text ∈ oneOf isMember ↔ ∃ c, isMember c ∧ text = [c] :=
  Iff.rfl

theorem mem_oneOf_mul_iff :
    text ∈ oneOf isMember * rest ↔
      ∃ c tail, text = c :: tail ∧ isMember c ∧ tail ∈ rest := by
  rw [Language.mem_mul]
  constructor
  · rintro ⟨front, ⟨c, hc, rfl⟩, tail, htail, rfl⟩
    exact ⟨c, tail, rfl, hc, htail⟩
  · rintro ⟨c, tail, rfl, hc, htail⟩
    exact ⟨[c], ⟨c, hc, rfl⟩, tail, htail, rfl⟩

theorem mem_char_mul_iff {c : Char} :
    text ∈ oneOf (· = c) * rest ↔ ∃ tail, text = c :: tail ∧ tail ∈ rest := by
  rw [mem_oneOf_mul_iff]
  constructor
  · rintro ⟨d, tail, htext, rfl, htail⟩
    exact ⟨tail, htext, htail⟩
  · rintro ⟨tail, htext, htail⟩
    exact ⟨c, tail, htext, rfl, htail⟩

theorem mem_mul_char_iff {c : Char} {start : Language Char} :
    text ∈ start * oneOf (· = c) ↔ ∃ front, text = front ++ [c] ∧ front ∈ start := by
  rw [Language.mem_mul]
  constructor
  · rintro ⟨front, hfront, last, ⟨d, rfl, rfl⟩, rfl⟩
    exact ⟨front, rfl, hfront⟩
  · rintro ⟨front, rfl, hfront⟩
    exact ⟨front, hfront, [c], ⟨c, rfl, rfl⟩, rfl⟩

/-- Numbers in another base than ten carry a mark after a zero. -/
theorem mem_marked_iff {isMark : Char → Prop} :
    text ∈ oneOf (· = '0') * (oneOf isMark * rest) ↔
      ∃ mark digits, text = '0' :: mark :: digits ∧ isMark mark ∧ digits ∈ rest := by
  rw [mem_char_mul_iff]
  constructor
  · rintro ⟨tail, rfl, htail⟩
    obtain ⟨mark, digits, rfl, hmark, hdigits⟩ := mem_oneOf_mul_iff.mp htail
    exact ⟨mark, digits, rfl, hmark, hdigits⟩
  · rintro ⟨mark, digits, rfl, hmark, hdigits⟩
    exact ⟨_, rfl, mem_oneOf_mul_iff.mpr ⟨mark, digits, rfl, hmark, hdigits⟩⟩

theorem mem_kstar_oneOf_iff :
    text ∈ (oneOf isMember)∗ ↔ ∀ c ∈ text, isMember c := by
  rw [Language.mem_kstar]
  constructor
  · rintro ⟨pieces, rfl, hpieces⟩ c hc
    obtain ⟨piece, hpiece, hmem⟩ := List.mem_flatten.mp hc
    obtain ⟨d, hd, rfl⟩ := hpieces piece hpiece
    rwa [List.mem_singleton.mp hmem]
  · intro h
    refine ⟨text.map fun c => [c], ?_, ?_⟩
    · rw [← List.flatMap_def, List.flatMap_singleton']
    · intro piece hpiece
      obtain ⟨c, hc, rfl⟩ := List.mem_map.mp hpiece
      exact ⟨c, h c hc, rfl⟩

theorem mem_someOf_iff :
    text ∈ someOf isMember ↔ text ≠ [] ∧ ∀ c ∈ text, isMember c := by
  rw [someOf, mem_oneOf_mul_iff]
  constructor
  · rintro ⟨c, tail, rfl, hc, htail⟩
    exact ⟨by simp, List.forall_mem_cons.mpr ⟨hc, mem_kstar_oneOf_iff.mp htail⟩⟩
  · rintro ⟨hne, hall⟩
    obtain ⟨c, tail, rfl⟩ := List.exists_cons_of_ne_nil hne
    obtain ⟨hc, htail⟩ := List.forall_mem_cons.mp hall
    exact ⟨c, tail, rfl, hc, mem_kstar_oneOf_iff.mpr htail⟩

theorem mem_someOf_iff_isRunOf {isMember : Char → Bool} :
    text ∈ someOf (isMember ·) ↔ isRunOf isMember text = true := by
  rw [mem_someOf_iff, isRunOf_iff]

end Language

namespace Kind

theorem mem_pattern_mnemonic_iff {text : List Char} :
    text ∈ mnemonic.pattern ↔ isName text = true := by
  simp only [pattern, mem_oneOf_mul_iff, mem_kstar_oneOf_iff, isName_iff]

/-- A kind admits the texts of its pattern. -/
theorem mem_pattern_iff {text : List Char} {kind : Kind} :
    text ∈ kind.pattern ↔ kind.admits text = true := by
  cases kind with
  | newline => simp [pattern, admits, mem_oneOf_iff]
  | comment =>
      rw [pattern, mem_char_mul_iff, admits, beq_iff_eq, List.head?_eq_some_iff]
      exact exists_congr fun tail => and_iff_left (Set.mem_univ tail)
  | register =>
      simp only [pattern, admits, mem_oneOf_mul_iff, mem_someOf_iff_isRunOf,
        isRegister_iff, List.mem_pair]
  | hexadecimal =>
      simp only [pattern, admits, mem_marked_iff, mem_someOf_iff_isRunOf,
        isHexadecimal_iff, List.mem_pair]
  | decimal =>
      simp only [pattern, admits, add_mul, one_mul, Language.mem_add,
        mem_char_mul_iff, mem_someOf_iff_isRunOf, isDecimal_iff]
  | binary =>
      simp only [pattern, admits, mem_marked_iff, mem_someOf_iff_isRunOf,
        isBinary_iff, List.mem_pair]
  | label =>
      rw [pattern, mem_mul_char_iff, admits, isLabel_iff]
      simp only [← mem_pattern_mnemonic_iff, pattern]
  | mnemonic => exact mem_pattern_mnemonic_iff

/-! ## The order of the kinds -/

theorem ofText?_eq_none_iff {text : String} :
    ofText? text = none ↔ ∀ kind : Kind, kind.admits text.toList = false := by
  rw [ofText?, List.find?_eq_none]
  constructor
  · intro h kind
    exact Bool.eq_false_iff.mpr (h kind (mem_order kind))
  · intro h kind _
    exact Bool.eq_false_iff.mp (h kind)

section Order

variable {order : List Kind}

theorem first?_eq_ofText?
    (hall : ∀ kind, kind ∈ order)
    (hregister : order.idxOf register < order.idxOf mnemonic) (text : String) :
    first? order text = ofText? text := by
  ext kind
  rw [first?_eq_some_iff hall hregister, ofText?_eq_some_iff]

/-- Registers are told from names only where they are tried first. -/
theorem idxOf_register_lt_of_first?
    (hall : ∀ kind, kind ∈ order) {text : String}
    (h : first? order text = some register) :
    order.idxOf register < order.idxOf mnemonic := by
  obtain ⟨hadmits, front, back, rfl, hfront⟩ := List.find?_eq_some_iff_append.mp h
  have hnot : ∀ kind ∈ front, kind.admits text.toList = false := by
    simpa using hfront
  have hregister : register ∉ front := by
    intro hmem
    exact absurd hadmits (by simp [hnot register hmem])
  have hmnemonic : mnemonic ∉ front := by
    intro hmem
    have hname : mnemonic.admits text.toList = true := isName_of_isRegister hadmits
    exact absurd hname (by simp [hnot mnemonic hmem])
  refine lt_of_le_of_ne (Nat.not_lt.mp ?_) ?_
  · rwa [idxOf_lt_idxOf_iff hregister]
  · rw [Ne, List.idxOf_inj (hall register)]
    decide

end Order
end Kind

/-- The fault of a text without a kind gives its line and the text as it is. -/
theorem ofLexeme_eq_error_iff {lexeme : Lexeme} {fault : Fault} :
    ofLexeme lexeme = .error fault ↔
      fault = .unrecognised lexeme.line lexeme.text ∧
        ∀ kind : Kind, kind.admits lexeme.text.toList = false := by
  rw [← Kind.ofText?_eq_none_iff, ← ofLexeme?_eq_none_iff, ofLexeme]
  cases ofLexeme? lexeme with
  | none => simp [eq_comm]
  | some token => simp

/-- The kinds overlap in registers only.  A text passes the test of a kind if and
only if it belongs to the pattern of the kind; it passes the tests of two kinds
only if one is that of registers and the other that of mnemonics, and every
register passes both.  It makes no token if and only if it passes no test, and
the fault then gives the line and the unchanged text.  Tests that are made in
another order therefore find the same kind for every text if and only if that of
registers is made before that of mnemonics. -/
theorem kinds_overlap_in_registers_only :
    (∀ text : String,
      (∀ kind : Kind, kind.admits text.toList = true ↔ text.toList ∈ kind.pattern) ∧
      (∀ kind other : Kind, kind.admits text.toList = true →
        other.admits text.toList = true →
          kind = other ∨ kind = .register ∧ other = .mnemonic ∨
            kind = .mnemonic ∧ other = .register) ∧
      (Kind.register.admits text.toList = true →
        Kind.mnemonic.admits text.toList = true) ∧
      (∀ (line : Nat) (fault : Fault),
        ofLexeme ⟨text, line⟩ = .error fault ↔
          fault = .unrecognised line text ∧
            ∀ kind : Kind, kind.admits text.toList = false)) ∧
    (∀ order : List Kind, (∀ kind, kind ∈ order) →
      ((∀ text : String, Kind.first? order text = Kind.ofText? text) ↔
        order.idxOf .register < order.idxOf .mnemonic)) := by
  constructor
  · intro text
    refine ⟨fun kind => Kind.mem_pattern_iff.symm, ?_, ?_, ?_⟩
    · intro kind other
      exact Kind.eq_or_of_admits
    · exact Kind.isName_of_isRegister
    · intro line fault
      exact ofLexeme_eq_error_iff
  · intro order hall
    constructor
    · intro hsame
      have hzero : Kind.ofText? "r0" = some .register := by decide
      exact Kind.idxOf_register_lt_of_first? hall ((hsame "r0").trans hzero)
    · exact Kind.first?_eq_ofText? hall

/-- Numbers may be tried before names and line breaks last. -/
theorem kinds_overlap_in_registers_only_numbers_first :
    let order : List Kind :=
      [.binary, .hexadecimal, .decimal, .label, .register, .mnemonic, .comment, .newline]
    (∀ kind, kind ∈ order) ∧ order.idxOf .register < order.idxOf .mnemonic ∧
      Kind.first? order "R7" = some .register ∧
      ∀ text : String, Kind.first? order text = Kind.ofText? text := by
  intro order
  have hall : ∀ kind, kind ∈ order := by
    intro kind
    cases kind <;> decide
  have hregister : order.idxOf .register < order.idxOf .mnemonic := by decide
  have hsame := (kinds_overlap_in_registers_only.2 order hall).mpr hregister
  exact ⟨hall, hregister, (hsame "R7").trans (by decide), hsame⟩

end Pom8.Token
