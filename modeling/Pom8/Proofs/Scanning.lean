import Pom8.Proofs.Items
import Pom8.Proofs.Runs
import Pom8.Scan

/-!
# What a scan finds

A scan runs to the end of a source exactly when every item has a kind and no
two labels have one name.  It then holds one group of tokens for each line of
code and one symbol for each label, at the address of the next line of code.
-/

namespace Pom8

/-! ## Tokens and their texts -/

namespace Token

/-- A token is known by its lexeme, which fixes its kind. -/
theorem eq_of_toLexeme_eq
    {first second : Token} (h : first.toLexeme = second.toLexeme) :
    first = second := by
  obtain ⟨lexeme, kind, hkind⟩ := first
  obtain ⟨lexeme', kind', hkind'⟩ := second
  obtain rfl : lexeme = lexeme' := h
  obtain rfl : kind = kind' := Option.some.inj (hkind.symm.trans hkind')
  rfl

theorem ofLexeme?_eq_some_iff {lexeme : Lexeme} {token : Token} :
    ofLexeme? lexeme = some token ↔ token.toLexeme = lexeme := by
  unfold ofLexeme?
  split
  next kind hkind =>
    constructor
    · intro h
      rw [← Option.some.inj h]
    · intro h
      exact congrArg some (eq_of_toLexeme_eq h.symm)
  next hnone =>
    constructor
    · intro h
      cases h
    · rintro rfl
      exact absurd token.kind_eq (by simp [hnone])

theorem exists_ofLexeme?_eq_some
    {text : String} {kind : Kind} (h : Kind.ofText? text = some kind)
    (line : Nat) :
    ∃ token : Token, ofLexeme? ⟨text, line⟩ = some token ∧ token.kind = kind :=
  ⟨⟨⟨text, line⟩, kind, h⟩, ofLexeme?_eq_some_iff.mpr rfl, rfl⟩

theorem ofLexeme?_eq_none_iff {lexeme : Lexeme} :
    ofLexeme? lexeme = none ↔ Kind.ofText? lexeme.text = none := by
  unfold ofLexeme?
  split
  next kind hkind => simp [hkind]
  next hnone => simp [hnone]

theorem ofLexeme_eq_ok_iff {lexeme : Lexeme} {token : Token} :
    ofLexeme lexeme = .ok token ↔ token.toLexeme = lexeme := by
  rw [← ofLexeme?_eq_some_iff, ofLexeme]
  cases ofLexeme? lexeme with
  | none => simp
  | some other => simp

theorem ofText?_of_toLexeme_eq
    {token : Token} {text : String} {line : Nat}
    (h : token.toLexeme = ⟨text, line⟩) : Kind.ofText? text = some token.kind := by
  rw [← token.kind_eq, h]

theorem ofText?_lineBreak : Kind.ofText? Source.lineBreak = some .newline := by
  decide

/-- A change of lexemes that keeps their kinds carries over to tokens. -/
theorem ofLexeme?_map
    (change : Lexeme → Lexeme) (changeToken : Token → Token)
    (hkind : ∀ lexeme, Kind.ofText? (change lexeme).text = Kind.ofText? lexeme.text)
    (htoken : ∀ token, (changeToken token).toLexeme = change token.toLexeme)
    (lexeme : Lexeme) :
    ofLexeme? (change lexeme) = (ofLexeme? lexeme).map changeToken := by
  cases hfound : ofLexeme? lexeme with
  | some token =>
      rw [ofLexeme?_eq_some_iff] at hfound
      rw [Option.map_some, ofLexeme?_eq_some_iff, htoken, hfound]
  | none =>
      rw [Option.map_none, Option.eq_none_iff_forall_not_mem]
      intro token hmem
      have hchanged : Kind.ofText? (change lexeme).text = some token.kind :=
        ofText?_of_toLexeme_eq (ofLexeme?_eq_some_iff.mp hmem)
      rw [hkind] at hchanged
      obtain ⟨other, hother, -⟩ := exists_ofLexeme?_eq_some hchanged lexeme.line
      exact absurd (hfound.symm.trans hother) (by simp)

/-- The line break token of a line. -/
def lineBreak (number : Nat) : Token :=
  ⟨⟨Source.lineBreak, number⟩, .newline, ofText?_lineBreak⟩

end Token

/-! ## Definitions in a symbol table -/

/-- A symbol under the name by which a table knows it. -/
def Symbol.lower (symbol : Symbol) : Symbol :=
  { symbol with name := Text.lower symbol.name }

namespace SymbolTable

theorem eq_of_entries_eq
    {first second : SymbolTable} (h : first.entries = second.entries) :
    first = second := by
  obtain ⟨entries, hnodup⟩ := first
  obtain ⟨entries', hnodup'⟩ := second
  obtain rfl : entries = entries' := h
  rfl

theorem find?_eq_none_iff {table : SymbolTable} {name : String} :
    table.find? name = none ↔
      Text.lower name ∉ table.entries.map Symbol.name := by
  simp [find?, List.find?_eq_none]

/-- A definition succeeds for a new name only, which it puts at the end. -/
theorem define_eq_ok_iff
    {table next : SymbolTable} {name : String} {address line : Nat} :
    table.define name address line = .ok next ↔
      Text.lower name ∉ table.entries.map Symbol.name ∧
        next.entries = table.entries ++ [⟨Text.lower name, address, line⟩] := by
  rw [← find?_eq_none_iff]
  unfold define
  split
  next first hfirst => simp [hfirst]
  next hnone =>
    constructor
    · intro h
      exact ⟨hnone, by rw [← Except.ok.inj h]⟩
    · rintro ⟨-, hentries⟩
      exact congrArg Except.ok (eq_of_entries_eq hentries.symm)

theorem exists_define_eq_ok
    {table : SymbolTable} {name : String}
    (h : Text.lower name ∉ table.entries.map Symbol.name)
    (address line : Nat) :
    ∃ next, table.define name address line = .ok next :=
  ⟨⟨_, names_nodup_concat (find?_eq_none_iff.mpr h) address line⟩,
    define_eq_ok_iff.mpr ⟨h, rfl⟩⟩

theorem define_eq_error
    {table : SymbolTable} {name : String} {first : Symbol}
    (h : table.find? name = some first) (address line : Nat) :
    table.define name address line =
      .error (.duplicateLabel line name first.line) := by
  unfold define
  split
  next other hother =>
    rw [h, Option.some_inj] at hother
    rw [hother]
  next hnone =>
    rw [h] at hnone
    cases hnone

theorem define_eq_error_iff
    {table : SymbolTable} {name : String} {address line : Nat} {fault : Fault} :
    table.define name address line = .error fault ↔
      ∃ first, table.find? name = some first ∧
        fault = .duplicateLabel line name first.line := by
  constructor
  · intro h
    cases hfind : table.find? name with
    | none =>
        obtain ⟨next, hnext⟩ :=
          exists_define_eq_ok (find?_eq_none_iff.mp hfind) address line
        rw [hnext] at h
        cases h
    | some first =>
        rw [define_eq_error hfind] at h
        exact ⟨first, rfl, (Except.error.inj h).symm⟩
  · rintro ⟨first, hfirst, rfl⟩
    exact define_eq_error hfirst address line

end SymbolTable

/-! ## What items and lines stand for -/

namespace Source

/-- Whether a text has a kind. -/
def Classified (item : List Char) : Prop :=
  ∃ kind, Token.Kind.ofText? (String.ofList item) = some kind

/-- The tokens that a scan keeps of some items of a line. -/
def keptTokens (number : Nat) (found : List (List Char)) : List Token :=
  (found.filter fun item => !Token.isLabel item).filterMap fun item =>
    Token.ofLexeme? ⟨String.ofList item, number⟩

/-- The symbols that some items of a line define at an address. -/
def definedSymbols (number address : Nat) (found : List (List Char)) :
    List Symbol :=
  (found.filter Token.isLabel).map fun item =>
    ⟨Text.lower (labelName item), address, number⟩

theorem keptTokens_append
    (number : Nat) (first second : List (List Char)) :
    keptTokens number (first ++ second) =
      keptTokens number first ++ keptTokens number second := by
  simp [keptTokens]

theorem definedSymbols_append
    (number address : Nat) (first second : List (List Char)) :
    definedSymbols number address (first ++ second) =
      definedSymbols number address first ++
        definedSymbols number address second := by
  simp [definedSymbols]

/-- The tokens of a numbered line, ended by its line break if there are any. -/
def lineTokens (line : List Char × Nat) : List Token :=
  if isCode line.1 then
    keptTokens line.2 (items line.1) ++ [Token.lineBreak line.2]
  else []

/-- The symbols that numbered lines define, with the address of the first line of
code among them. -/
def symbolsFrom (address : Nat) : List (List Char × Nat) → List Symbol
  | [] => []
  | line :: rest =>
    definedSymbols line.2 address (items line.1) ++
      symbolsFrom (if isCode line.1 then address + 1 else address) rest

theorem symbolsFrom_append
    (address : Nat) (first second : List (List Char × Nat)) :
    symbolsFrom address (first ++ second) =
      symbolsFrom address first ++
        symbolsFrom (address + first.countP fun line => isCode line.1) second := by
  induction first generalizing address with
  | nil => simp [symbolsFrom]
  | cons line rest ih =>
      rw [List.cons_append, symbolsFrom, symbolsFrom, ih, List.append_assoc,
        List.countP_cons]
      split
      · rw [Nat.add_assoc, Nat.add_comm 1]
      · rfl

/-- The lines of a source with their numbers. -/
def numberedLines (source : String) : List (List Char × Nat) :=
  (lines source).zipIdx 1

/-- The lines of a source that have code, with their numbers. -/
def codeLines (source : String) : List (List Char × Nat) :=
  (numberedLines source).filter fun line => isCode line.1

theorem exists_mem_numberedLines_iff {source : String} {line : List Char} :
    (∃ number, (line, number) ∈ numberedLines source) ↔ line ∈ lines source := by
  constructor
  · rintro ⟨number, hmem⟩
    have hline := List.mem_map_of_mem (f := Prod.fst) hmem
    rwa [numberedLines, List.zipIdx_map_fst] at hline
  · intro hline
    rw [← List.zipIdx_map_fst 1 (lines source), List.mem_map] at hline
    obtain ⟨⟨line, number⟩, hmem, rfl⟩ := hline
    exact ⟨number, hmem⟩

end Source

namespace Scan

open Source

/-! ## One item -/

theorem step_label
    {item : List Char} (hlabel : Token.isLabel item = true)
    (scan : Scan) (number : Nat) :
    step scan ⟨String.ofList item, number⟩ =
      match scan.symbols.define (labelName item) scan.address number with
      | .error fault => .halted scan fault
      | .ok symbols =>
        .running { scan with
          symbols := symbols
          events := scan.events.push
            (.labelDefined number (labelName item) scan.address) } := by
  obtain ⟨token, htoken, hkind⟩ :=
    Token.exists_ofLexeme?_eq_some (kind_eq_label_iff.mpr hlabel) number
  have hlexeme := Token.ofLexeme?_eq_some_iff.mp htoken
  have hname : token.labelName = labelName item := by
    simp [Token.labelName, labelName, hlexeme]
  have hline : token.line = number := by rw [hlexeme]
  have hstep : step scan ⟨String.ofList item, number⟩ = defineLabel scan token := by
    simp only [step, Token.ofLexeme_eq_ok_iff.mpr hlexeme, hkind]
  cases hdefine : scan.symbols.define (labelName item) scan.address number with
  | error fault => simp [hstep, defineLabel, hname, hline, hdefine]
  | ok symbols => simp [hstep, defineLabel, hname, hline, hdefine]

theorem step_code
    {line item : List Char} (hitem : item ∈ items line)
    (hlabel : Token.isLabel item = false) {token : Token} {number : Nat}
    (htoken : Token.ofLexeme? ⟨String.ofList item, number⟩ = some token)
    (scan : Scan) :
    step scan ⟨String.ofList item, number⟩ = .running (scan.keep token) := by
  have hlexeme := Token.ofLexeme?_eq_some_iff.mp htoken
  have hkind := Token.ofText?_of_toLexeme_eq hlexeme
  obtain ⟨hnewline, hcomment⟩ := kind_ne_of_mem_items hitem hkind
  have hne : token.kind ≠ .label := by
    intro h
    rw [h, kind_eq_label_iff, hlabel] at hkind
    cases hkind
  simp only [step, Token.ofLexeme_eq_ok_iff.mpr hlexeme]

/-! ## The items of a line -/

/-- What reading some items of a line does to a scan. -/
structure ItemsRead
    (number : Nat) (found : List (List Char)) (scan next : Scan) : Prop where
  classified : ∀ item ∈ found, Classified item
  tokens : next.tokens.toList = scan.tokens.toList ++ keptTokens number found
  symbols : next.symbols.entries =
    scan.symbols.entries ++ definedSymbols number scan.address found
  address : next.address = scan.address
  inCode : next.inCode =
    (scan.inCode || found.any fun item => !Token.isLabel item)

theorem ItemsRead.nil (number : Nat) (scan : Scan) :
    ItemsRead number [] scan scan where
  classified := by simp
  tokens := by simp [keptTokens]
  symbols := by simp [definedSymbols]
  address := rfl
  inCode := by simp

theorem ItemsRead.append
    {number : Nat} {first second : List (List Char)} {scan middle next : Scan}
    (hfirst : ItemsRead number first scan middle)
    (hsecond : ItemsRead number second middle next) :
    ItemsRead number (first ++ second) scan next where
  classified := by
    intro item hitem
    rcases List.mem_append.mp hitem with h | h
    · exact hfirst.classified item h
    · exact hsecond.classified item h
  tokens := by
    rw [hsecond.tokens, hfirst.tokens, keptTokens_append, List.append_assoc]
  symbols := by
    rw [hsecond.symbols, hfirst.symbols, hfirst.address,
      definedSymbols_append, List.append_assoc]
  address := hsecond.address.trans hfirst.address
  inCode := by
    rw [hsecond.inCode, hfirst.inCode, List.any_append, Bool.or_assoc]

/-- What one item does to a scan that goes on. -/
theorem itemsRead_of_step
    {line item : List Char} (hitem : item ∈ items line) {number : Nat}
    {scan next : Scan}
    (h : step scan ⟨String.ofList item, number⟩ = .running next) :
    ItemsRead number [item] scan next := by
  by_cases hlabel : Token.isLabel item = true
  · rw [step_label hlabel] at h
    split at h
    · cases h
    next symbols hdefine =>
      cases h
      exact
        { classified := by
            simpa [Classified] using ⟨.label, kind_eq_label_iff.mpr hlabel⟩
          tokens := by simp [keptTokens, hlabel]
          symbols := by
            simp [definedSymbols, hlabel,
              (SymbolTable.define_eq_ok_iff.mp hdefine).2]
          address := rfl
          inCode := by simp [hlabel] }
  · rw [Bool.not_eq_true] at hlabel
    cases htoken : Token.ofLexeme? ⟨String.ofList item, number⟩ with
    | none => simp [step, Token.ofLexeme, htoken] at h
    | some token =>
        rw [step_code hitem hlabel htoken] at h
        cases h
        have hlexeme := Token.ofLexeme?_eq_some_iff.mp htoken
        exact
          { classified := by
              have hkind := token.kind_eq
              rw [hlexeme] at hkind
              simpa [Classified] using ⟨_, hkind⟩
            tokens := by simp [keptTokens, keep, hlabel, htoken]
            symbols := by simp [definedSymbols, keep, hlabel]
            address := rfl
            inCode := by simp [keep, hlabel] }

theorem itemsRead_of_run
    {line : List Char} {found : List (List Char)} (hfound : found ⊆ items line)
    {number : Nat} {scan next : Scan}
    (h : Progress.run step scan
      (found.map fun item => ⟨String.ofList item, number⟩) = .running next) :
    ItemsRead number found scan next := by
  induction found generalizing scan with
  | nil =>
      obtain rfl : scan = next := Progress.running.inj h
      exact ItemsRead.nil number scan
  | cons item rest ih =>
      obtain ⟨middle, hstep, hrest⟩ := Progress.run_cons_eq_running_iff.mp h
      obtain ⟨hitem, hsubset⟩ := List.cons_subset.mp hfound
      exact (itemsRead_of_step hitem hstep).append (ih hsubset hrest)

theorem exists_step_eq_running
    {line item : List Char} (hitem : item ∈ items line) (number : Nat)
    (scan : Scan) (hclassified : Classified item)
    (hnames : ((scan.symbols.entries ++
      definedSymbols number scan.address [item]).map Symbol.name).Nodup) :
    ∃ next, step scan ⟨String.ofList item, number⟩ = .running next := by
  by_cases hlabel : Token.isLabel item = true
  · have hnew : Text.lower (labelName item) ∉
        scan.symbols.entries.map Symbol.name := by
      intro hmem
      rw [List.map_append, List.nodup_append] at hnames
      exact hnames.2.2 _ hmem _ (by simp [definedSymbols, hlabel]) rfl
    obtain ⟨symbols, hdefine⟩ :=
      SymbolTable.exists_define_eq_ok hnew scan.address number
    rw [step_label hlabel, hdefine]
    exact ⟨_, rfl⟩
  · rw [Bool.not_eq_true] at hlabel
    obtain ⟨kind, hkind⟩ := hclassified
    obtain ⟨token, htoken, -⟩ := Token.exists_ofLexeme?_eq_some hkind number
    exact ⟨_, step_code hitem hlabel htoken scan⟩

theorem exists_run_items_eq_running
    {line : List Char} {found : List (List Char)} (hfound : found ⊆ items line)
    (number : Nat) (scan : Scan)
    (hclassified : ∀ item ∈ found, Classified item)
    (hnames : ((scan.symbols.entries ++
      definedSymbols number scan.address found).map Symbol.name).Nodup) :
    ∃ next, Progress.run step scan
      (found.map fun item => ⟨String.ofList item, number⟩) = .running next := by
  induction found generalizing scan with
  | nil => exact ⟨scan, rfl⟩
  | cons item rest ih =>
      obtain ⟨hitem, hsubset⟩ := List.cons_subset.mp hfound
      rw [← List.singleton_append, definedSymbols_append,
        ← List.append_assoc] at hnames
      obtain ⟨middle, hstep⟩ := exists_step_eq_running hitem number scan
        (hclassified item (by simp)) (by
          rw [List.map_append] at hnames
          exact (List.nodup_append.mp hnames).1)
      have hread := itemsRead_of_step hitem hstep
      obtain ⟨next, hrest⟩ := ih hsubset middle
        (fun other hother => hclassified other (by simp [hother]))
        (by rwa [hread.symbols, hread.address])
      exact ⟨next, Progress.run_cons_eq_running_iff.mpr ⟨middle, hstep, hrest⟩⟩

/-! ## Whole lines -/

theorem step_lineBreak (scan : Scan) (number : Nat) :
    step scan ⟨lineBreak, number⟩ =
      .running (scan.endLine (Token.lineBreak number)) := by
  have htoken : Token.ofLexeme ⟨lineBreak, number⟩ =
      .ok (Token.lineBreak number) := Token.ofLexeme_eq_ok_iff.mpr rfl
  simp only [step, htoken, Token.lineBreak]

/-- What reading numbered lines does to a scan that stands between lines. -/
structure LinesRead
    (lines : List (List Char × Nat)) (scan next : Scan) : Prop where
  classified : ∀ line ∈ lines, ∀ item ∈ items line.1, Classified item
  tokens : next.tokens.toList = scan.tokens.toList ++ lines.flatMap lineTokens
  symbols : next.symbols.entries =
    scan.symbols.entries ++ symbolsFrom scan.address lines
  address : next.address =
    scan.address + lines.countP fun line => isCode line.1
  inCode : next.inCode = false

theorem LinesRead.nil {scan : Scan} (h : scan.inCode = false) :
    LinesRead [] scan scan where
  classified := by simp
  tokens := by simp
  symbols := by simp [symbolsFrom]
  address := by simp
  inCode := h

/-- A line is read item by item, and then ended. -/
theorem run_lineLexemes_eq_running_iff
    {line : List Char} {number : Nat} {scan next : Scan} :
    Progress.run step scan (lineLexemes line number) = .running next ↔
      ∃ middle, Progress.run step scan
          ((items line).map fun item => ⟨String.ofList item, number⟩) =
            .running middle ∧
        middle.endLine (Token.lineBreak number) = next := by
  rw [lineLexemes, Progress.run_append_eq_running_iff]
  simp [step_lineBreak]

theorem linesRead_of_line
    {line : List Char × Nat} {scan next : Scan} (hcode : scan.inCode = false)
    (h : Progress.run step scan (lineLexemes line.1 line.2) = .running next) :
    LinesRead [line] scan next := by
  obtain ⟨middle, hitems, rfl⟩ := run_lineLexemes_eq_running_iff.mp h
  have hread := itemsRead_of_run (List.Subset.refl _) hitems
  have hinCode : middle.inCode = isCode line.1 := by
    rw [hread.inCode, hcode, Bool.false_or, isCode]
  by_cases hline : isCode line.1 = true
  · rw [hline] at hinCode
    exact
      { classified := by simpa using hread.classified
        tokens := by simp [endLine, hinCode, hread.tokens, lineTokens, hline]
        symbols := by simp [endLine, hinCode, hread.symbols, symbolsFrom]
        address := by simp [endLine, hinCode, hread.address, hline]
        inCode := by simp [endLine, hinCode] }
  · rw [Bool.not_eq_true] at hline
    rw [hline] at hinCode
    have hkept : keptTokens line.2 (items line.1) = [] := by
      have hnil : codeItems line.1 = [] := by
        by_contra hne
        exact absurd (isCode_iff.mpr hne) (by simp [hline])
      rw [codeItems] at hnil
      simp [keptTokens, hnil]
    exact
      { classified := by simpa using hread.classified
        tokens := by
          simp [endLine, hinCode, hread.tokens, hkept, lineTokens, hline]
        symbols := by simp [endLine, hinCode, hread.symbols, symbolsFrom]
        address := by simp [endLine, hinCode, hread.address, hline]
        inCode := by simp [endLine, hinCode] }

theorem LinesRead.append
    {first second : List (List Char × Nat)} {scan middle next : Scan}
    (hfirst : LinesRead first scan middle)
    (hsecond : LinesRead second middle next) :
    LinesRead (first ++ second) scan next where
  classified := by
    intro line hline
    rcases List.mem_append.mp hline with h | h
    · exact hfirst.classified line h
    · exact hsecond.classified line h
  tokens := by
    rw [hsecond.tokens, hfirst.tokens, List.flatMap_append, List.append_assoc]
  symbols := by
    rw [hsecond.symbols, hfirst.symbols, hfirst.address, symbolsFrom_append,
      List.append_assoc]
  address := by
    rw [hsecond.address, hfirst.address, List.countP_append, Nat.add_assoc]
  inCode := hsecond.inCode

theorem linesRead_of_run
    {lines : List (List Char × Nat)} {scan next : Scan}
    (hcode : scan.inCode = false)
    (h : Progress.run step scan
      (lines.flatMap fun line => lineLexemes line.1 line.2) = .running next) :
    LinesRead lines scan next := by
  induction lines generalizing scan with
  | nil =>
      obtain rfl : scan = next := Progress.running.inj h
      exact LinesRead.nil hcode
  | cons line rest ih =>
      rw [List.flatMap_cons, Progress.run_append_eq_running_iff] at h
      obtain ⟨middle, hline, hrest⟩ := h
      have hread := linesRead_of_line hcode hline
      exact hread.append (ih hread.inCode hrest)

theorem exists_run_lines_eq_running
    {lines : List (List Char × Nat)} (scan : Scan)
    (hcode : scan.inCode = false)
    (hclassified : ∀ line ∈ lines, ∀ item ∈ items line.1, Classified item)
    (hnames : ((scan.symbols.entries ++
      symbolsFrom scan.address lines).map Symbol.name).Nodup) :
    ∃ next, Progress.run step scan
      (lines.flatMap fun line => lineLexemes line.1 line.2) =
        .running next := by
  induction lines generalizing scan with
  | nil => exact ⟨scan, rfl⟩
  | cons line rest ih =>
      have hnames' := hnames
      rw [symbolsFrom, ← List.append_assoc, List.map_append] at hnames'
      obtain ⟨afterItems, hitems⟩ := exists_run_items_eq_running
        (List.Subset.refl _) line.2 scan (hclassified line (by simp))
        (List.nodup_append.mp hnames').1
      have hline : Progress.run step scan (lineLexemes line.1 line.2) =
          .running (afterItems.endLine (Token.lineBreak line.2)) :=
        run_lineLexemes_eq_running_iff.mpr ⟨afterItems, hitems, rfl⟩
      have hread := linesRead_of_line hcode hline
      obtain ⟨next, hrest⟩ := ih _ hread.inCode
        (fun other hother => hclassified other (by simp [hother])) (by
          rw [hread.symbols, hread.address, List.append_assoc,
            ← symbolsFrom_append]
          exact hnames)
      rw [List.flatMap_cons]
      exact ⟨next, Progress.run_append_eq_running_iff.mpr ⟨_, hline, hrest⟩⟩

/-! ## Whole sources -/

/-- What a finished scan of a source holds. -/
theorem linesRead_of_ofSource
    {source : String} {scan : Scan} (h : ofSource source = .running scan) :
    LinesRead (numberedLines source) {} scan :=
  linesRead_of_run rfl h

end Scan

namespace Source

/-- The names of the labels of a source, as they are written. -/
def labelNames (source : String) : List String :=
  (lines source).flatMap fun line => (labelItems line).map labelName

theorem map_name_symbolsFrom
    (address : Nat) (lines : List (List Char × Nat)) :
    (symbolsFrom address lines).map Symbol.name =
      lines.flatMap fun line =>
        (labelItems line.1).map fun item => Text.lower (labelName item) := by
  induction lines generalizing address with
  | nil => rfl
  | cons line rest ih =>
      rw [symbolsFrom, List.map_append, ih, List.flatMap_cons]
      simp [definedSymbols, labelItems]

theorem flatMap_numberedLines {β : Type} (f : List Char → List β) (source : String) :
    ((numberedLines source).flatMap fun line => f line.1) =
      (lines source).flatMap f := by
  rw [numberedLines, ← List.flatMap_map, List.zipIdx_map_fst]

theorem map_name_symbolsFrom_numberedLines (address : Nat) (source : String) :
    (symbolsFrom address (numberedLines source)).map Symbol.name =
      (labelNames source).map Text.lower := by
  rw [map_name_symbolsFrom,
    flatMap_numberedLines fun line =>
      (labelItems line).map fun item => Text.lower (labelName item)]
  simp [labelNames, List.map_flatMap, Function.comp_def]

end Source

namespace Scan

open Source

/-- A scan fails only for an item without a kind or a name defined twice. -/
theorem exists_ofSource_eq_running_iff {source : String} :
    (∃ scan, ofSource source = .running scan) ↔
      (∀ line ∈ lines source, ∀ item ∈ items line, Classified item) ∧
        ((labelNames source).map Text.lower).Nodup := by
  constructor
  · rintro ⟨scan, hscan⟩
    have hread := linesRead_of_ofSource hscan
    refine ⟨?_, ?_⟩
    · intro line hline
      obtain ⟨number, hnumber⟩ := exists_mem_numberedLines_iff.mpr hline
      exact hread.classified (line, number) hnumber
    · have hnodup := scan.symbols.names_nodup
      rw [hread.symbols] at hnodup
      rw [← map_name_symbolsFrom_numberedLines 0]
      exact hnodup
  · rintro ⟨hclassified, hnames⟩
    apply exists_run_lines_eq_running {} rfl
    · intro line hline
      exact hclassified line.1 (exists_mem_numberedLines_iff.mp ⟨line.2, hline⟩)
    · change ((symbolsFrom 0 (numberedLines source)).map Symbol.name).Nodup
      rwa [map_name_symbolsFrom_numberedLines]

end Scan
end Pom8
