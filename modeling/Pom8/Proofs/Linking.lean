import Pom8.Proofs.Registers

/-!
# Sources one after the other

A source that follows another one keeps its lines, with greater numbers, and its
code, with greater addresses.  The two are assembled to one program as long as
no label has the same name in both; otherwise the first label of the second
source that the first one defines is refused.
-/

namespace Pom8

/-- A symbol after some more code and some more lines. -/
def Symbol.moved (addresses lines : Nat) (symbol : Symbol) : Symbol :=
  { symbol with
    address := symbol.address + addresses
    line := symbol.line + lines }

/-- An instruction some lines further down. -/
def Instruction.moved (lines : Nat) (instruction : Instruction) : Instruction :=
  { instruction with line := instruction.line + lines }

/-- A piece of text some lines further down. -/
def Lexeme.moved (lines : Nat) (lexeme : Lexeme) : Lexeme :=
  { lexeme with line := lexeme.line + lines }

/-- A token some lines further down. -/
def Token.moved (lines : Nat) (token : Token) : Token :=
  { token with toLexeme := token.toLexeme.moved lines }

/-! ## The lines of joined sources -/

namespace Source

/-- Two sources with a line break between them. -/
def join (first second : String) : String :=
  first ++ lineBreak ++ second

/-- The pieces of a source between its line breaks. -/
def segments (source : String) : List (List Char) :=
  source.toList.splitOnP (· == '\n')

/-- How many line breaks stand before the second of two joined sources. -/
def offset (first : String) : Nat :=
  1 + first.toList.count '\n'

/-- A numbered line, some lines further down. -/
def movedLine (count : Nat) (line : List Char × Nat) : List Char × Nat :=
  (line.1, line.2 + count)

theorem length_segments (source : String) :
    (segments source).length = offset source :=
  length_splitOnP _ _

theorem segments_join (first second : String) :
    segments (join first second) = segments first ++ segments second := by
  have hbreak : lineBreak.toList = ['\n'] := rfl
  rw [segments, join, String.toList_append, String.toList_append, hbreak,
    List.append_assoc, List.singleton_append]
  exact List.splitOnP_append_cons _ _ rfl

theorem lines_eq (source : String) :
    lines source =
      if (segments source).getLast? = some [] then (segments source).dropLast
      else segments source :=
  rfl

/-- The last segment of a source is left out of its lines if it is empty. -/
theorem segments_eq (source : String) :
    segments source = lines source ∨ segments source = lines source ++ [[]] := by
  rw [lines_eq]
  by_cases hlast : (segments source).getLast? = some []
  · right
    rw [if_pos hlast]
    exact (List.dropLast_append_getLast? [] hlast).symm
  · left
    rw [if_neg hlast]

theorem lines_join (first second : String) :
    lines (join first second) = segments first ++ lines second := by
  have hne : segments second ≠ [] := List.splitOnP_ne_nil _ _
  rw [lines_eq, lines_eq, segments_join, List.getLast?_append_of_ne_nil _ hne]
  by_cases hlast : (segments second).getLast? = some []
  · rw [if_pos hlast, if_pos hlast, List.dropLast_append_of_ne_nil hne]
  · rw [if_neg hlast, if_neg hlast]

/-- The lines of the second source follow those of the first; an empty line can
stand between them. -/
theorem numberedLines_join (first second : String) :
    ∃ blank, numberedLines (join first second) =
        numberedLines first ++ blank ++
          (numberedLines second).map (movedLine (offset first)) ∧
      ∀ line ∈ blank, line.1 = [] := by
  have hsecond : (numberedLines second).map (movedLine (offset first)) =
      (lines second).zipIdx (1 + offset first) := by
    rw [Nat.add_comm]
    exact List.map_snd_add_zipIdx_eq_zipIdx
  have hjoin : numberedLines (join first second) =
      (segments first).zipIdx 1 ++
        (numberedLines second).map (movedLine (offset first)) := by
    rw [numberedLines, lines_join, List.zipIdx_append, length_segments, hsecond]
  rcases segments_eq first with hsegments | hsegments
  · refine ⟨[], ?_, by simp⟩
    rw [hjoin, hsegments, List.append_nil]
    rfl
  · refine ⟨[([], 1 + (lines first).length)], ?_, by simp⟩
    rw [hjoin, hsegments, List.zipIdx_append, List.zipIdx_singleton]
    rfl

/-! ## What joined lines hold -/

theorem symbolsFrom_blank
    {blank : List (List Char × Nat)} (h : ∀ line ∈ blank, line.1 = [])
    (address : Nat) : symbolsFrom address blank = [] := by
  rw [← List.map_eq_nil_iff, map_name_symbolsFrom, List.flatMap_eq_nil_iff]
  intro line hline
  rw [h line hline]
  rfl

theorem isCode_nil : isCode [] = false := by
  decide

theorem countP_blank
    {blank : List (List Char × Nat)} (h : ∀ line ∈ blank, line.1 = []) :
    blank.countP (fun line => isCode line.1) = 0 := by
  rw [List.countP_eq_zero]
  intro line hline
  rw [h line hline, isCode_nil]
  decide

/-- Lines that are moved define their symbols on later lines and, after more
code, at greater addresses. -/
theorem symbolsFrom_map_movedLine
    (address count offset : Nat) (lines : List (List Char × Nat)) :
    symbolsFrom (address + count) (lines.map (movedLine offset)) =
      (symbolsFrom address lines).map (Symbol.moved count offset) := by
  induction lines generalizing address with
  | nil => rfl
  | cons line rest ih =>
      have haddress : (if isCode line.1 then address + count + 1 else address + count) =
          (if isCode line.1 then address + 1 else address) + count := by
        split <;> omega
      have hdefined :
          definedSymbols (line.2 + offset) (address + count) (items line.1) =
            (definedSymbols line.2 address (items line.1)).map
              (Symbol.moved count offset) := by
        rw [definedSymbols, definedSymbols, List.map_map]
        rfl
      rw [List.map_cons, symbolsFrom, symbolsFrom, List.map_append, ← ih, ← haddress,
        ← hdefined]
      rfl

theorem symbolsFrom_join (first second : String) :
    symbolsFrom 0 (numberedLines (join first second)) =
      symbolsFrom 0 (numberedLines first) ++
        (symbolsFrom 0 (numberedLines second)).map
          (Symbol.moved (codeLines first).length (offset first)) := by
  obtain ⟨blank, hlines, hblank⟩ := numberedLines_join first second
  have hcount : (codeLines first).length =
      (numberedLines first ++ blank).countP fun line => isCode line.1 := by
    rw [List.countP_append, countP_blank hblank, Nat.add_zero, codeLines,
      List.countP_eq_length_filter]
  rw [hlines, symbolsFrom_append, symbolsFrom_append, symbolsFrom_blank hblank,
    List.append_nil, ← hcount, ← symbolsFrom_map_movedLine]

theorem codeLines_join (first second : String) :
    codeLines (join first second) =
      codeLines first ++ (codeLines second).map (movedLine (offset first)) := by
  obtain ⟨blank, hlines, hblank⟩ := numberedLines_join first second
  have hnone : (blank.filter fun line => isCode line.1) = [] := by
    rw [List.filter_eq_nil_iff]
    intro line hline
    rw [hblank line hline, isCode_nil]
    decide
  rw [codeLines, hlines, List.filter_append, List.filter_append, hnone,
    List.append_nil, List.filter_map]
  rfl

theorem classified_join
    {first second : String}
    (hfirst : ∀ line ∈ lines first, ∀ item ∈ items line, Classified item)
    (hsecond : ∀ line ∈ lines second, ∀ item ∈ items line, Classified item) :
    ∀ line ∈ lines (join first second), ∀ item ∈ items line, Classified item := by
  intro line hline item hitem
  rw [lines_join, List.mem_append] at hline
  rcases hline with hline | hline
  · rcases segments_eq first with hsegments | hsegments
    · rw [hsegments] at hline
      exact hfirst line hline item hitem
    · rw [hsegments, List.mem_append, List.mem_singleton] at hline
      rcases hline with hline | hline
      · exact hfirst line hline item hitem
      · rw [hline, items_nil] at hitem
        exact absurd hitem List.not_mem_nil
  · exact hsecond line hline item hitem

end Source

/-! ## Tables of joined sources -/

namespace SymbolTable

/-- The names of a table. -/
def names (table : SymbolTable) : List String :=
  table.entries.map Symbol.name

theorem contains_iff {table : SymbolTable} {name : String} :
    table.contains name = true ↔ Text.lower name ∈ table.names := by
  rw [contains, Option.isSome_iff_ne_none, Ne, find?_eq_none_iff, not_not]
  rfl

theorem names_nodup_link
    {first second : SymbolTable} (h : List.Disjoint first.names second.names)
    (addresses lines : Nat) :
    ((first.entries ++
      second.entries.map (Symbol.moved addresses lines)).map Symbol.name).Nodup := by
  have hmoved : (second.entries.map (Symbol.moved addresses lines)).map Symbol.name =
      second.names := by
    rw [List.map_map]
    rfl
  rw [List.map_append, hmoved, List.nodup_append]
  refine ⟨first.names_nodup, second.names_nodup, ?_⟩
  intro name hfirst other hsecond heq
  exact h hfirst (heq ▸ hsecond)

/-- The symbols of a table, and after them those of another, moved. -/
def link
    (first second : SymbolTable) (h : List.Disjoint first.names second.names)
    (addresses lines : Nat) : SymbolTable :=
  ⟨first.entries ++ second.entries.map (Symbol.moved addresses lines),
    names_nodup_link h addresses lines⟩

variable {first second : SymbolTable} {h : List.Disjoint first.names second.names}
  {addresses lines : Nat} {name : String}

theorem names_link :
    (link first second h addresses lines).names = first.names ++ second.names := by
  rw [names, link, List.map_append, List.map_map]
  rfl

theorem address?_link_left (hname : first.contains name = true) :
    (link first second h addresses lines).address? name = first.address? name := by
  obtain ⟨symbol, hsymbol⟩ := Option.isSome_iff_exists.mp hname
  have hfind : (link first second h addresses lines).find? name = some symbol := by
    rw [find?] at hsymbol
    rw [find?, link, List.find?_append, hsymbol, Option.some_or]
  rw [address?, address?, hfind, hsymbol]

theorem address?_link_right (hname : second.contains name = true) :
    (link first second h addresses lines).address? name =
      (second.address? name).map (· + addresses) := by
  have hnone : first.find? name = none := by
    rw [find?_eq_none_iff]
    exact fun hmem => h hmem (contains_iff.mp hname)
  have hfind : (link first second h addresses lines).find? name =
      (second.find? name).map (Symbol.moved addresses lines) := by
    rw [find?] at hnone
    rw [find?, link, List.find?_append, hnone, Option.none_or, List.find?_map]
    rfl
  rw [address?, address?, hfind, Option.map_map, Option.map_map]
  rfl

end SymbolTable

/-! ## Instructions of joined sources -/

/-- An operand stays valid when symbols are added. -/
theorem Operand.isValid_of_contains
    {symbols larger : SymbolTable}
    (hlarger : ∀ name, symbols.contains name = true → larger.contains name = true)
    {operand : Operand} (h : operand.isValid symbols = true) :
    operand.isValid larger = true := by
  cases operand with
  | register index => exact h
  | immediate value radix => exact h
  | label name => exact hlarger name h

namespace Instruction.Written

variable {symbols larger : SymbolTable} {tokens : List Token}
  {instruction : Instruction}

theorem of_contains
    (h : Written symbols tokens instruction)
    (hlarger : ∀ name, symbols.contains name = true → larger.contains name = true) :
    Written larger tokens instruction := by
  cases h with
  | statement hkind hname hlayout hfilled hoperands =>
      refine .statement hkind hname hlayout hfilled ?_
      apply hoperands.imp
      intro operand token htaken
      exact ⟨htaken.1, Operand.isValid_of_contains hlarger htaken.2⟩

theorem moved (h : Written symbols tokens instruction) (lines : Nat) :
    Written symbols (tokens.map (Token.moved lines)) (instruction.moved lines) := by
  cases h with
  | @statement head tokens mnemonic layout operands hkind hname hlayout hfilled
      hoperands =>
      have hfilled' : layout.FilledBy (tokens.map (Token.moved lines)) :=
        List.forall₂_map_right_iff.mpr hfilled
      have hoperands' :
          Operand.WrittenBy symbols operands (tokens.map (Token.moved lines)) :=
        List.forall₂_map_right_iff.mpr hoperands
      have hkind' : (head.moved lines).kind = .mnemonic := hkind
      exact .statement hkind' hname hlayout hfilled' hoperands'

end Instruction.Written

theorem Token.ofLexeme?_moved (lines : Nat) (lexeme : Lexeme) :
    ofLexeme? (lexeme.moved lines) = (ofLexeme? lexeme).map (Token.moved lines) :=
  ofLexeme?_map (Lexeme.moved lines) (Token.moved lines) (fun _ => rfl)
    (fun _ => rfl) lexeme

theorem Source.keptTokens_moved (number lines : Nat) (found : List (List Char)) :
    keptTokens (number + lines) found =
      (keptTokens number found).map (Token.moved lines) := by
  rw [keptTokens, keptTokens, List.map_filterMap]
  congr 1
  funext item
  exact Token.ofLexeme?_moved lines ⟨String.ofList item, number⟩

namespace AssembledFrom

variable {first second : String} {before after : Assembly}

theorem length_codeLines (h : AssembledFrom first before) :
    (Source.codeLines first).length = before.program.length :=
  h.program.length_eq

/-- Two sources without a common label are assembled to one program. -/
theorem join
    (hfirst : AssembledFrom first before) (hsecond : AssembledFrom second after)
    (hdisjoint : List.Disjoint before.symbols.names after.symbols.names) :
    let symbols := before.symbols.link after.symbols hdisjoint
      before.program.length (Source.offset first)
    let program := before.program ++
      after.program.map (Instruction.moved (Source.offset first))
    AssembledFrom (Source.join first second)
      ⟨program, symbols, Word.ofProgram symbols program⟩ := by
  intro symbols program
  have hbefore : ∀ name, before.symbols.contains name = true →
      symbols.contains name = true := by
    intro name hname
    rw [SymbolTable.contains_iff, SymbolTable.names_link, List.mem_append]
    exact Or.inl (SymbolTable.contains_iff.mp hname)
  have hafter : ∀ name, after.symbols.contains name = true →
      symbols.contains name = true := by
    intro name hname
    rw [SymbolTable.contains_iff, SymbolTable.names_link, List.mem_append]
    exact Or.inr (SymbolTable.contains_iff.mp hname)
  refine
    { classified := Source.classified_join hfirst.classified hsecond.classified
      symbols := ?_
      program := ?_
      words := rfl }
  · rw [Source.symbolsFrom_join, ← hfirst.symbols, ← hsecond.symbols,
      hfirst.length_codeLines]
    rfl
  · rw [Source.codeLines_join]
    apply List.rel_append
    · apply hfirst.program.imp
      intro line instruction hwritten
      exact hwritten.of_contains hbefore
    · rw [List.forall₂_map_left_iff, List.forall₂_map_right_iff]
      apply hsecond.program.imp
      intro line instruction hwritten
      rw [Source.movedLine, Source.keptTokens_moved]
      exact (hwritten.of_contains hafter).moved (Source.offset first)

end AssembledFrom

/-! ## Words of joined sources -/

namespace Instruction

variable {symbols : SymbolTable} {instruction : Instruction}

/-- A label among the operands is the target of a branch. -/
theorem Shaped.eq_of_label_mem
    (h : Shaped symbols instruction) {name : String}
    (hmem : .label name ∈ instruction.operands) :
    instruction.format = .branch ∧ instruction.operands = [.label name] ∧
      symbols.contains name = true := by
  cases h with
  | bare => exact absurd hmem List.not_mem_nil
  | branch hformat htarget =>
      obtain rfl := List.mem_singleton.mp hmem
      cases htarget with
      | label hcontains => exact ⟨hformat, rfl, hcontains⟩
  | stack | immediate | longImmediate | twoRegisters | threeRegisters =>
      simp at hmem

end Instruction

/-- How the word of an instruction changes when some code comes before it: a
branch to a label leads further by the addresses of that code, and all other
words stay as they are. -/
def Word.Relinked
    (symbols : SymbolTable) (addresses : Nat) (instruction : Instruction)
    (word linked : Word) : Prop :=
  (∃ name address,
    instruction.format = .branch ∧ instruction.operands = [.label name] ∧
      symbols.address? name = some address ∧
        linked.extractLsb' 16 16 = word.extractLsb' 16 16 ∧
          linked.target.toNat = (address + addresses) % 65536) ∨
    ((∀ name, instruction.operands ≠ [.label name]) ∧ linked = word)

namespace SymbolTable

variable {first second : SymbolTable} {h : List.Disjoint first.names second.names}
  {addresses lines : Nat} {instruction : Instruction}

theorem encode_link_left (hshaped : instruction.Shaped first) :
    instruction.encode (link first second h addresses lines) =
      instruction.encode first := by
  apply Instruction.encode_congr
  intro name hmem
  exact address?_link_left (hshaped.eq_of_label_mem hmem).2.2

theorem relinked_link_right (hshaped : instruction.Shaped second) :
    Word.Relinked second addresses instruction (instruction.encode second)
      (instruction.encode (link first second h addresses lines)) := by
  by_cases hlabel : ∃ name, .label name ∈ instruction.operands
  · left
    obtain ⟨name, hmem⟩ := hlabel
    obtain ⟨hformat, hoperands, hcontains⟩ := hshaped.eq_of_label_mem hmem
    obtain ⟨address, haddress⟩ := exists_address hcontains
    have hlinked : (link first second h addresses lines).address? name =
        some (address + addresses) := by
      rw [address?_link_right hcontains, haddress, Option.map_some]
    refine ⟨name, address, hformat, hoperands, haddress, ?_, ?_⟩
    · rw [Instruction.encode, Instruction.encode, hformat]
      have hfront : ∀ symbols, (instruction.branchWord symbols).extractLsb' 16 16 =
          0#8 ++ instruction.codeField ++ 0#2 :=
        fun symbols => BitVec.extractLsb'_append_eq_left
      exact (hfront _).trans (hfront _).symm
    · rw [Instruction.target_encode hformat]
      simp only [Instruction.addressField, hoperands, List.head?_cons, hlinked,
        Option.getD_some, BitVec.toNat_ofNat]
  · right
    constructor
    · intro name hoperands
      exact hlabel ⟨name, by simp [hoperands]⟩
    · apply Instruction.encode_congr
      intro name hmem
      exact absurd ⟨name, hmem⟩ hlabel

theorem take_ofProgram_link
    {program added : List Instruction}
    (hshaped : ∀ instruction ∈ program, instruction.Shaped first) :
    (Word.ofProgram (link first second h addresses lines)
      (program ++ added)).take program.length = Word.ofProgram first program := by
  rw [Word.ofProgram, List.map_append, List.take_left' (List.length_map _)]
  apply List.map_congr_left
  intro instruction hmem
  exact encode_link_left (hshaped instruction hmem)

theorem exists_relinked_ofProgram_link
    {program added : List Instruction}
    (hshaped : ∀ instruction ∈ added, instruction.Shaped second) {k : Nat}
    (hk : added[k]? = some instruction) :
    ∃ word,
      (Word.ofProgram (link first second h addresses lines)
          (program ++ added.map (Instruction.moved lines)))[program.length + k]? =
        some word ∧
      Word.Relinked second addresses instruction (instruction.encode second) word := by
  refine ⟨instruction.encode (link first second h addresses lines), ?_,
    relinked_link_right (hshaped instruction (List.mem_of_getElem? hk))⟩
  rw [Word.ofProgram, List.getElem?_map, List.getElem?_append_right (by omega),
    List.getElem?_map, Nat.add_sub_cancel_left, hk]
  rfl

end SymbolTable

/-! ## Labels that are defined twice -/

namespace Source

/-- The label that a lexeme defines, if it defines one. -/
def labelOf? (lexeme : Lexeme) : Option Lexeme :=
  if Token.isLabel lexeme.text.toList then
    some ⟨labelName lexeme.text.toList, lexeme.line⟩
  else none

/-- The labels of a source in reading order, with the lines they stand on. -/
def labels (source : String) : List Lexeme :=
  (numberedLines source).flatMap fun line =>
    (labelItems line.1).map fun item => ⟨labelName item, line.2⟩

theorem labels_eq_filterMap (source : String) :
    labels source = (lexemes source).filterMap labelOf? := by
  have hline : ∀ line number, (lineLexemes line number).filterMap labelOf? =
      (labelItems line).map fun item => ⟨labelName item, number⟩ := by
    intro line number
    have hshape : Token.isLabel lineBreak.toList = false := by decide
    have hbreak : labelOf? ⟨lineBreak, number⟩ = none := by
      simp only [labelOf?, hshape]
      rfl
    rw [lineLexemes, List.filterMap_append, List.filterMap_cons_none hbreak,
      List.filterMap_nil, List.append_nil, List.filterMap_map, labelItems,
      ← List.filterMap_eq_map, List.filterMap_filter]
    congr 1
    funext item
    simp [labelOf?]
  rw [lexemes, List.filterMap_flatMap, labels]
  congr 1
  funext line
  exact (hline line.1 line.2).symm

theorem map_text_labels (source : String) :
    (labels source).map Lexeme.text = labelNames source := by
  rw [labels, List.map_flatMap, labelNames, ← flatMap_numberedLines]
  congr 1
  funext line
  rw [List.map_map]
  rfl

theorem lineLexemes_moved (line : List Char) (number lines : Nat) :
    lineLexemes line (number + lines) =
      (lineLexemes line number).map (Lexeme.moved lines) := by
  rw [lineLexemes, lineLexemes, List.map_append, List.map_map]
  rfl

theorem lexemes_join (first second : String) :
    ∃ breaks : List Lexeme, lexemes (join first second) =
        lexemes first ++ breaks ++
          (lexemes second).map (Lexeme.moved (offset first)) ∧
      ∀ lexeme ∈ breaks, lexeme.text = lineBreak := by
  obtain ⟨blank, hlines, hblank⟩ := numberedLines_join first second
  refine ⟨blank.flatMap fun line => lineLexemes line.1 line.2, ?_, ?_⟩
  · have hmoved : ((numberedLines second).map (movedLine (offset first))).flatMap
          (fun line => lineLexemes line.1 line.2) =
        (lexemes second).map (Lexeme.moved (offset first)) := by
      rw [List.flatMap_map, lexemes, List.map_flatMap]
      congr 1
      funext line
      exact lineLexemes_moved line.1 line.2 (offset first)
    rw [← hmoved]
    change (numberedLines (join first second)).flatMap
      (fun line => lineLexemes line.1 line.2) = _
    rw [hlines, List.flatMap_append, List.flatMap_append]
    rfl
  · intro lexeme hlexeme
    obtain ⟨line, hline, hmem⟩ := List.mem_flatMap.mp hlexeme
    rw [hblank line hline, lineLexemes, items_nil, List.map_nil, List.nil_append,
      List.mem_singleton] at hmem
    rw [hmem]

end Source

namespace Scan

open Source

theorem exists_step_of_kind
    {lexeme : Lexeme} {kind : Token.Kind}
    (hkind : Token.Kind.ofText? lexeme.text = some kind) (hne : kind ≠ .label)
    (scan : Scan) :
    ∃ next, step scan lexeme = .running next ∧ next.symbols = scan.symbols := by
  obtain ⟨token, htoken, rfl⟩ := Token.exists_ofLexeme?_eq_some hkind lexeme.line
  have hok : Token.ofLexeme lexeme = .ok token :=
    Token.ofLexeme_eq_ok_iff.mpr (Token.ofLexeme?_eq_some_iff.mp htoken)
  unfold step
  rw [hok]
  cases hcase : token.kind with
  | label => exact absurd hcase hne
  | newline =>
      refine ⟨scan.endLine token, by simp only [hcase], ?_⟩
      unfold endLine
      split <;> rfl
  | comment => exact ⟨scan, by simp only [hcase], rfl⟩
  | register | mnemonic | hexadecimal | decimal | binary =>
      exact ⟨scan.keep token, by simp only [hcase], rfl⟩

/-- A lexeme that defines no label leaves the symbols of every scan as they are,
if it can be read at all. -/
theorem exists_step_of_labelOf?_eq_none
    {lexeme : Lexeme} (hlabel : labelOf? lexeme = none) {scan next : Scan}
    (h : step scan lexeme = .running next) (lines : Nat) (other : Scan) :
    next.symbols = scan.symbols ∧
      ∃ next', step other (lexeme.moved lines) = .running next' ∧
        next'.symbols = other.symbols := by
  cases hkind : Token.Kind.ofText? lexeme.text with
  | none =>
      have hnone : Token.ofLexeme? lexeme = none := by
        rw [Option.eq_none_iff_forall_not_mem]
        intro token htoken
        have hsome := Token.ofText?_of_toLexeme_eq
          (Token.ofLexeme?_eq_some_iff.mp htoken)
        exact absurd (hkind.symm.trans hsome) (by simp)
      simp [step, Token.ofLexeme, hnone] at h
  | some kind =>
      have hne : kind ≠ .label := by
        rintro rfl
        have hadmits := Token.Kind.admits_of_ofText?_eq_some hkind
        exact absurd hlabel (by simp [labelOf?, show Token.isLabel _ = true from hadmits])
      obtain ⟨next', hstep, hsymbols⟩ := exists_step_of_kind hkind hne scan
      obtain rfl : next' = next := Progress.running.inj (hstep.symm.trans h)
      exact ⟨hsymbols,
        @exists_step_of_kind (lexeme.moved lines) kind hkind hne other⟩

theorem step_of_labelOf?_eq_some
    {lexeme label : Lexeme} (hlabel : labelOf? lexeme = some label) (scan : Scan) :
    step scan lexeme =
      match scan.symbols.define label.text scan.address label.line with
      | .error fault => .halted scan fault
      | .ok symbols =>
        .running { scan with
          symbols := symbols
          events := scan.events.push
            (.labelDefined label.line label.text scan.address) } := by
  unfold labelOf? at hlabel
  split at hlabel
  next hshape =>
    obtain rfl := Option.some.inj hlabel
    have hstep := step_label hshape scan lexeme.line
    rwa [String.ofList_toList] at hstep
  next => cases hlabel

theorem step_eq_halted_of_define
    {lexeme label : Lexeme} (hlabel : labelOf? lexeme = some label) {scan : Scan}
    {fault : Fault}
    (h : scan.symbols.define label.text scan.address label.line = .error fault) :
    step scan lexeme = .halted scan fault := by
  rw [step_of_labelOf?_eq_some hlabel, h]

theorem step_eq_running_of_define
    {lexeme label : Lexeme} (hlabel : labelOf? lexeme = some label) {scan : Scan}
    {symbols : SymbolTable}
    (h : scan.symbols.define label.text scan.address label.line = .ok symbols) :
    ∃ next, step scan lexeme = .running next ∧ next.symbols = symbols := by
  rw [step_of_labelOf?_eq_some hlabel, h]
  exact ⟨_, rfl, rfl⟩

/-- A label that was read has a new name, which comes last in the table. -/
theorem names_of_step
    {lexeme label : Lexeme} (hlabel : labelOf? lexeme = some label)
    {scan next : Scan} (h : step scan lexeme = .running next) :
    Text.lower label.text ∉ scan.symbols.names ∧
      next.symbols.names = scan.symbols.names ++ [Text.lower label.text] := by
  rw [step_of_labelOf?_eq_some hlabel] at h
  cases hdefine : scan.symbols.define label.text scan.address label.line with
  | error fault =>
      rw [hdefine] at h
      cases h
  | ok symbols =>
      rw [hdefine] at h
      obtain rfl := Progress.running.inj h
      obtain ⟨hnew, hentries⟩ := SymbolTable.define_eq_ok_iff.mp hdefine
      refine ⟨hnew, ?_⟩
      change symbols.entries.map Symbol.name = _
      rw [hentries, List.map_append]
      rfl

theorem labelOf?_moved
    {lexeme label : Lexeme} (h : labelOf? lexeme = some label) (lines : Nat) :
    labelOf? (lexeme.moved lines) = some (label.moved lines) := by
  unfold labelOf? at h ⊢
  split at h
  next hshape =>
    rw [← Option.some.inj h]
    exact if_pos hshape
  next => cases h

/-- Lexemes that can be scanned on their own are scanned after other symbols up
to the first label that is among these. -/
theorem run_moved_eq_halted
    {lexemes : List Lexeme} {scan final other : Scan} {base : SymbolTable}
    (lines : Nat)
    (hrun : Progress.run step scan lexemes = .running final)
    (hother : ∃ added, other.symbols.entries = base.entries ++ added ∧
      added.map Symbol.name = scan.symbols.names)
    {label : Lexeme}
    (hfind : (lexemes.filterMap labelOf?).find?
      (fun label => base.contains label.text) = some label) :
    ∃ last symbol, base.find? label.text = some symbol ∧
      Progress.run step other (lexemes.map (Lexeme.moved lines)) =
        .halted last
          (.duplicateLabel (label.line + lines) label.text symbol.line) := by
  induction lexemes generalizing scan other with
  | nil => cases hfind
  | cons lexeme rest ih =>
      obtain ⟨middle, hstep, hrest⟩ := Progress.run_cons_eq_running_iff.mp hrun
      obtain ⟨added, hentries, hnames⟩ := hother
      rw [List.map_cons, Progress.run_cons]
      cases hlabel : labelOf? lexeme with
      | none =>
          obtain ⟨hsymbols, next, hnext, hkept⟩ :=
            exists_step_of_labelOf?_eq_none hlabel hstep lines other
          rw [List.filterMap_cons_none hlabel] at hfind
          rw [hnext]
          exact ih hrest ⟨added, by rw [hkept, hentries], by rw [hnames, hsymbols]⟩ hfind
      | some found =>
          have hmoved := labelOf?_moved hlabel lines
          obtain ⟨hnew, hmiddle⟩ := names_of_step hlabel hstep
          rw [List.filterMap_cons_some hlabel, List.find?_cons] at hfind
          by_cases hcontains : base.contains found.text = true
          · -- The label is among the other symbols, which come first in the table.
            rw [hcontains] at hfind
            obtain rfl : found = label := Option.some.inj hfind
            obtain ⟨symbol, hsymbol⟩ := Option.isSome_iff_exists.mp hcontains
            have hfirst : other.symbols.find? found.text = some symbol := by
              rw [SymbolTable.find?] at hsymbol
              rw [SymbolTable.find?, hentries, List.find?_append, hsymbol,
                Option.some_or]
            have hhalted := step_eq_halted_of_define hmoved
              (SymbolTable.define_eq_error hfirst other.address (found.line + lines))
            refine ⟨other, symbol, hsymbol, ?_⟩
            rw [hhalted]
            rfl
          · -- The label is new in both tables.
            have hfresh : Text.lower found.text ∉ other.symbols.entries.map Symbol.name := by
              rw [hentries, List.map_append, hnames, List.mem_append]
              rintro (hmem | hmem)
              · exact hcontains (SymbolTable.contains_iff.mpr hmem)
              · exact hnew hmem
            obtain ⟨symbols, hdefine⟩ := SymbolTable.exists_define_eq_ok hfresh
              other.address (found.line + lines)
            obtain ⟨next, hnext, hsymbols⟩ := step_eq_running_of_define hmoved hdefine
            obtain ⟨-, hdefined⟩ := SymbolTable.define_eq_ok_iff.mp hdefine
            rw [Bool.not_eq_true] at hcontains
            rw [hcontains] at hfind
            rw [hnext]
            refine ih hrest ⟨added ++
              [⟨Text.lower found.text, other.address, found.line + lines⟩], ?_, ?_⟩ hfind
            · rw [hsymbols, hdefined, hentries, List.append_assoc]
            · rw [List.map_append, hnames, hmiddle]
              rfl

/-- Line breaks leave the symbols of a scan as they are. -/
theorem exists_run_breaks
    {breaks : List Lexeme} (h : ∀ lexeme ∈ breaks, lexeme.text = lineBreak)
    (scan : Scan) :
    ∃ next, Progress.run step scan breaks = .running next ∧
      next.symbols = scan.symbols := by
  induction breaks generalizing scan with
  | nil => exact ⟨scan, rfl, rfl⟩
  | cons lexeme rest ih =>
      rw [List.forall_mem_cons] at h
      have hkind : Token.Kind.ofText? lexeme.text = some .newline := by
        rw [h.1]
        exact Token.ofText?_lineBreak
      obtain ⟨middle, hstep, hmiddle⟩ := exists_step_of_kind hkind (by decide) scan
      obtain ⟨next, hrest, hnext⟩ := ih h.2 middle
      exact ⟨next, Progress.run_cons_eq_running_iff.mpr ⟨middle, hstep, hrest⟩,
        hnext.trans hmiddle⟩

/-- The scan of joined sources halts at the first label of the second one that
the first one defines. -/
theorem ofSource_join_eq_halted
    {first second : String} {before after : Scan}
    (hfirst : ofSource first = .running before)
    (hsecond : ofSource second = .running after) {label : Lexeme}
    (hfind : (labels second).find?
      (fun label => before.symbols.contains label.text) = some label) :
    ∃ last symbol, before.symbols.find? label.text = some symbol ∧
      ofSource (join first second) =
        .halted last
          (.duplicateLabel (label.line + offset first) label.text symbol.line) := by
  obtain ⟨breaks, hlexemes, hbreaks⟩ := lexemes_join first second
  obtain ⟨middle, hmiddle, hsymbols⟩ := exists_run_breaks hbreaks before
  rw [labels_eq_filterMap] at hfind
  obtain ⟨last, symbol, hsymbol, hhalted⟩ :=
    run_moved_eq_halted (offset first) hsecond
      ⟨[], by rw [hsymbols, List.append_nil], rfl⟩ hfind
  have hfront : Progress.run step {} (lexemes first ++ breaks) = .running middle :=
    Progress.run_append_eq_running_iff.mpr ⟨before, hfirst, hmiddle⟩
  refine ⟨last, symbol, hsymbol, ?_⟩
  rw [ofSource, hlexemes, Progress.run_append, hfront]
  exact hhalted

end Scan

theorem assemble_eq_error_of_halted
    {source : String} {scan : Scan} {fault : Fault}
    (h : Scan.ofSource source = .halted scan fault) :
    assemble source = .error fault := by
  rw [assemble, Report.ofSource, h]

/-! ## Joined sources -/

/-- A name that another table has too is the name of a label of the source. -/
theorem AssembledFrom.exists_common_label
    {source : String} {assembly : Assembly} (h : AssembledFrom source assembly)
    {table : SymbolTable}
    (hcommon : ¬List.Disjoint table.names assembly.symbols.names) :
    ∃ label ∈ Source.labels source, table.contains label.text = true := by
  have hnames : assembly.symbols.names =
      (Source.labels source).map fun label => Text.lower label.text := by
    rw [SymbolTable.names, h.symbols, Source.map_name_symbolsFrom_numberedLines,
      ← Source.map_text_labels, List.map_map]
    rfl
  by_contra hnone
  apply hcommon
  intro name htable hassembly
  rw [hnames] at hassembly
  obtain ⟨label, hlabel, rfl⟩ := List.mem_map.mp hassembly
  exact hnone ⟨label, hlabel, SymbolTable.contains_iff.mpr htable⟩

/-- Two sources that are assembled are also assembled one after the other, unless
they define a common label.  The program of the second one then comes after that
of the first one, further down and with its labels at greater addresses.  With a
common label, the first one in the second source is refused. -/
theorem concatenation_links_programs
    {first second : String} {before after : Assembly}
    (hfirst : assemble first = .ok before)
    (hsecond : assemble second = .ok after) :
    let count := before.program.length
    let lines := 1 + first.toList.count '\n'
    let source := first ++ "\n" ++ second
    (List.Disjoint before.symbols.names after.symbols.names →
      ∃ linked, assemble source = .ok linked ∧
        linked.program =
            before.program ++ after.program.map (Instruction.moved lines) ∧
          linked.symbols.entries =
            before.symbols.entries ++
              after.symbols.entries.map (Symbol.moved count lines) ∧
          linked.words.length = linked.program.length ∧
          linked.words.take count = before.words ∧
          ∀ k instruction word,
            after.program[k]? = some instruction → after.words[k]? = some word →
              ∃ word', linked.words[count + k]? = some word' ∧
                Word.Relinked after.symbols count instruction word word') ∧
      (¬List.Disjoint before.symbols.names after.symbols.names →
        ∃ label symbol,
          (Source.labels second).find?
              (fun label => before.symbols.contains label.text) = some label ∧
            before.symbols.find? label.text = some symbol ∧
              assemble source =
                .error (.duplicateLabel (label.line + lines) label.text
                  symbol.line)) := by
  intro count lines source
  have hbefore := assemble_eq_ok_iff_assembledFrom.mp hfirst
  have hafter := assemble_eq_ok_iff_assembledFrom.mp hsecond
  constructor
  · intro hdisjoint
    have hlinked := hbefore.join hafter hdisjoint
    refine ⟨_, assemble_eq_ok_iff_assembledFrom.mpr hlinked, rfl, rfl,
      List.length_map _, ?_, ?_⟩
    · rw [hbefore.words]
      exact SymbolTable.take_ofProgram_link fun instruction hmem =>
        hbefore.shaped hmem
    · intro k instruction word hinstruction hword
      rw [hafter.words, Word.ofProgram, List.getElem?_map, hinstruction,
        Option.map_some, Option.some_inj] at hword
      rw [← hword]
      exact SymbolTable.exists_relinked_ofProgram_link
        (fun instruction hmem => hafter.shaped hmem) hinstruction
  · intro hcommon
    obtain ⟨label, hlabel, hcontains⟩ := hafter.exists_common_label hcommon
    have hsome : ((Source.labels second).find?
        (fun label => before.symbols.contains label.text)).isSome = true :=
      List.find?_isSome.mpr ⟨label, hlabel, hcontains⟩
    obtain ⟨found, hfind⟩ := Option.isSome_iff_exists.mp hsome
    obtain ⟨scan, draft, hscan, -, rfl⟩ := assemble_eq_ok_iff.mp hfirst
    obtain ⟨scan', draft', hscan', -, rfl⟩ := assemble_eq_ok_iff.mp hsecond
    obtain ⟨last, symbol, hsymbol, hhalted⟩ :=
      Scan.ofSource_join_eq_halted hscan hscan' hfind
    exact ⟨found, symbol, hfind, hsymbol, assemble_eq_error_of_halted hhalted⟩

/-- A jump that leads two addresses further after two other instructions, and a
label that is defined again in another case. -/
theorem concatenation_links_programs_jump :
    (∃ before after linked,
      assemble "a: LDI r1, 5\nJMP a\n" = .ok before ∧
        assemble "b: JMP b" = .ok after ∧
          assemble ("a: LDI r1, 5\nJMP a\n" ++ "\n" ++ "b: JMP b") = .ok linked ∧
            linked.program =
                before.program ++ after.program.map (Instruction.moved 3) ∧
              linked.symbols.entries = [⟨"a", 0, 1⟩, ⟨"b", 2, 4⟩] ∧
                ∃ word, linked.words[2]? = some word ∧ word.target.toNat = 2) ∧
      ∃ before after,
        assemble "a: NOP" = .ok before ∧ assemble "b: NOP\nA: HLT" = .ok after ∧
          assemble ("a: NOP" ++ "\n" ++ "b: NOP\nA: HLT") =
            .error (.duplicateLabel 3 "A" 1) := by
  constructor
  · obtain ⟨before, hbefore, hbeforeView⟩ :=
      exists_assembly_of_toOption_eq
        (show (assemble "a: LDI r1, 5\nJMP a\n").toOption.map
            (fun assembly => (assembly.program.length, assembly.symbols.entries)) =
          some (2, [⟨"a", 0, 1⟩]) by decide +kernel)
    obtain ⟨after, hafter, hafterView⟩ :=
      exists_assembly_of_toOption_eq
        (show (assemble "b: JMP b").toOption.map
            (fun assembly => (assembly.program, assembly.symbols.entries,
              assembly.words)) =
          some ([⟨.jmp, [.label "b"], .branch, 1⟩], [⟨"b", 0, 1⟩], [0x100000#32])
          by decide +kernel)
    simp only [Prod.mk.injEq] at hbeforeView hafterView
    obtain ⟨hcount, hentries⟩ := hbeforeView
    obtain ⟨hprogram, hentries', hwords⟩ := hafterView
    have hdisjoint : List.Disjoint before.symbols.names after.symbols.names := by
      rw [SymbolTable.names, SymbolTable.names, hentries, hentries']
      simp
    obtain ⟨linked, hlinked, hlinkedProgram, hsymbols, -, -, hword⟩ :=
      (concatenation_links_programs hbefore hafter).1 hdisjoint
    obtain ⟨word, hget, hrelinked⟩ := hword 0 ⟨.jmp, [.label "b"], .branch, 1⟩
      0x100000#32 (by rw [hprogram]; rfl) (by rw [hwords]; rfl)
    rw [hcount] at hsymbols hget hrelinked
    rw [hentries, hentries'] at hsymbols
    refine ⟨before, after, linked, hbefore, hafter, hlinked, hlinkedProgram, hsymbols,
      word, hget, ?_⟩
    rcases hrelinked with ⟨name, address, -, hname, haddress, -, htarget⟩ | ⟨hnone, -⟩
    · obtain rfl : "b" = name := by simpa using hname
      have hzero : after.symbols.address? "b" = some 0 := by
        rw [SymbolTable.address?, SymbolTable.find?, hentries']
        decide +kernel
      obtain rfl : 0 = address := Option.some.inj (hzero.symm.trans haddress)
      exact htarget
    · exact absurd rfl (hnone "b")
  · obtain ⟨before, hbefore, hentries⟩ :=
      exists_assembly_of_toOption_eq
        (show (assemble "a: NOP").toOption.map
            (fun assembly => assembly.symbols.entries) = some [⟨"a", 0, 1⟩]
          by decide +kernel)
    obtain ⟨after, hafter, hentries'⟩ :=
      exists_assembly_of_toOption_eq
        (show (assemble "b: NOP\nA: HLT").toOption.map
            (fun assembly => assembly.symbols.entries) =
          some [⟨"b", 0, 1⟩, ⟨"a", 1, 2⟩] by decide +kernel)
    have hcommon : ¬List.Disjoint before.symbols.names after.symbols.names := by
      rw [SymbolTable.names, SymbolTable.names, hentries, hentries']
      simp
    obtain ⟨label, symbol, hfind, hsymbol, hfault⟩ :=
      (concatenation_links_programs hbefore hafter).2 hcommon
    refine ⟨before, after, hbefore, hafter, ?_⟩
    have hlabel : label = ⟨"A", 2⟩ := by
      simp only [SymbolTable.contains, SymbolTable.find?, hentries] at hfind
      have hfirst : (Source.labels "b: NOP\nA: HLT").find? (fun label =>
          (List.find? (fun symbol => symbol.name == Text.lower label.text)
            [(⟨"a", 0, 1⟩ : Symbol)]).isSome) = some ⟨"A", 2⟩ := by
        decide +kernel
      exact Option.some.inj (hfind.symm.trans hfirst)
    subst hlabel
    have hline : symbol = ⟨"a", 0, 1⟩ := by
      have hfirst : before.symbols.find? "A" = some ⟨"a", 0, 1⟩ := by
        rw [SymbolTable.find?, hentries]
        decide +kernel
      exact Option.some.inj (hsymbol.symm.trans hfirst)
    rw [hfault, hline]
    decide +kernel

end Pom8
