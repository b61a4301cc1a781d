import DatasetCatalog.Json.Printer
import DatasetCatalog.Json.Token
import DatasetCatalog.Proofs.Json.Numeral

/-!
# Tokens of a printed value

The text of a value is scanned into the tokens of the value (`valueTokens`), whatever was scanned
before. A word or a numeral ends only with the character after it, so a scan that has read all of
one is still inside of it: `Scan.Ends` says which tokens it stands for, and the texts that are put
together here differ in where they may start.
-/

namespace DatasetCatalog.Json

mutual

/-- The tokens that a value is written as. -/
def valueTokens : Value → List Token
  | .null => [.null]
  | .boolean b => [.boolean b]
  | .number n => (Numeral.parse? (NumberFormat.document.chars n)).toList.map .numeral
  | .text s => [.string (some s)]
  | .sequence [] => [.openBracket, .closeBracket]
  | .mapping [] => [.openBrace, .closeBrace]
  | .sequence (v :: rest) =>
    .openBracket :: (valueTokens v ++ itemTokens rest ++ [.closeBracket])
  | .mapping ((k, v) :: rest) =>
    .openBrace :: .string (some k) :: .colon ::
      (valueTokens v ++ fieldTokens rest ++ [.closeBrace])

/-- Further elements, each after a comma. -/
def itemTokens : List Value → List Token
  | [] => []
  | v :: rest => .comma :: (valueTokens v ++ itemTokens rest)

def fieldTokens : List (String × Value) → List Token
  | [] => []
  | (k, v) :: rest => .comma :: .string (some k) :: .colon :: (valueTokens v ++ fieldTokens rest)

end

namespace Scan

theorem run_cons (scan : Scan) (c : Char) (text : List Char) :
    scan.run (c :: text) = (scan.step c).bind (·.run text) := rfl

/-- What was scanned amounts to these tokens, the last one first. -/
def Ends (scan : Scan) (tokens : List Token) : Prop := scan.close = some ⟨tokens, .between⟩

theorem ends_between (tokens : List Token) : Ends ⟨tokens, .between⟩ tokens := rfl

/-- Neither a word nor a numeral goes on with this character. -/
def Delimiter (c : Char) : Prop := c.isAlpha = false ∧ Numeral.isChar c = false

theorem Ends.step {scan : Scan} {tokens : List Token} (h : scan.Ends tokens) {c : Char}
    (hc : Delimiter c) : scan.step c = stepBetween tokens c := by
  obtain ⟨before, mode⟩ := scan
  cases mode with
  | between =>
      cases h
      rfl
  | word letters =>
      rw [Scan.step]
      dsimp only
      rw [if_neg (by simp [hc.1]), show close _ = _ from h, Option.bind_some]
  | numeral chars =>
      rw [Scan.step]
      dsimp only
      rw [if_neg (by simp [hc.2]), show close _ = _ from h, Option.bind_some]
  | string | escape | hex => cases h

theorem Ends.finish? {scan : Scan} {tokens : List Token} (h : scan.Ends tokens) :
    scan.finish? = some tokens.reverse := by
  rw [Scan.finish?, show close _ = _ from h]
  rfl

end Scan

/-- From between two tokens the text is scanned into the tokens. -/
def Spells (text : List Char) (tokens : List Token) : Prop :=
  ∀ before, ∃ s, Scan.run ⟨before, .between⟩ text = some s ∧ s.Ends (tokens.reverse ++ before)

/-- The text may also come right after a word or a numeral. -/
def Follows (text : List Char) (tokens : List Token) : Prop :=
  ∀ (scan : Scan) (before : List Token), scan.Ends before →
    ∃ s, scan.run text = some s ∧ s.Ends (tokens.reverse ++ before)

/-- And anything may come right after it. -/
def Separates (text : List Char) (tokens : List Token) : Prop :=
  ∀ (scan : Scan) (before : List Token), scan.Ends before →
    scan.run text = some ⟨tokens.reverse ++ before, .between⟩

section Composition

variable {a b : List Char} {s t : List Token}

theorem Separates.follows (h : Separates a s) : Follows a s :=
  fun scan before hscan => ⟨_, h scan before hscan, Scan.ends_between _⟩

theorem Follows.spells (h : Follows a s) : Spells a s :=
  fun before => h _ before (Scan.ends_between before)

theorem follows_nil : Follows [] [] := fun scan _ hscan => ⟨scan, rfl, hscan⟩

theorem Follows.append (ha : Follows a s) (hb : Follows b t) : Follows (a ++ b) (s ++ t) := by
  intro scan before hscan
  obtain ⟨scan', hrun, hends⟩ := ha scan before hscan
  obtain ⟨scan'', hrun', hends'⟩ := hb scan' _ hends
  refine ⟨scan'', ?_, ?_⟩
  · rw [Scan.run_append, hrun, Option.bind_some, hrun']
  · rwa [List.reverse_append, List.append_assoc]

/-- What separates may be followed by anything. -/
theorem Separates.append_spells (ha : Separates a s) (hb : Spells b t) :
    Follows (a ++ b) (s ++ t) := by
  intro scan before hscan
  obtain ⟨scan', hrun, hends⟩ := hb (s.reverse ++ before)
  refine ⟨scan', ?_, ?_⟩
  · rw [Scan.run_append, ha scan before hscan, Option.bind_some, hrun]
  · rwa [List.reverse_append, List.append_assoc]

theorem Separates.append (ha : Separates a s) (hb : Separates b t) :
    Separates (a ++ b) (s ++ t) := by
  intro scan before hscan
  rw [Scan.run_append, ha scan before hscan, Option.bind_some, hb _ _ (Scan.ends_between _),
    List.reverse_append, List.append_assoc]

end Composition

/-! ## Parts of the text -/

/-- A mark that is a token by itself, or a space. -/
theorem separates_mark {c : Char} {tokens : List Token} (hc : Scan.Delimiter c)
    (hstep : ∀ before, Scan.stepBetween before c = some ⟨tokens.reverse ++ before, .between⟩) :
    Separates [c] tokens := by
  intro scan before hscan
  rw [Scan.run_cons, hscan.step hc, hstep]
  rfl

theorem separates_openBracket : Separates ['['] [.openBracket] :=
  separates_mark ⟨rfl, rfl⟩ fun _ => rfl

theorem separates_closeBracket : Separates [']'] [.closeBracket] :=
  separates_mark ⟨rfl, rfl⟩ fun _ => rfl

theorem separates_openBrace : Separates ['{'] [.openBrace] :=
  separates_mark ⟨rfl, rfl⟩ fun _ => rfl

theorem separates_closeBrace : Separates ['}'] [.closeBrace] :=
  separates_mark ⟨rfl, rfl⟩ fun _ => rfl

theorem separates_colon : Separates [':'] [.colon] := separates_mark ⟨rfl, rfl⟩ fun _ => rfl

theorem separates_comma : Separates [','] [.comma] := separates_mark ⟨rfl, rfl⟩ fun _ => rfl

theorem separates_space : Separates [' '] [] := separates_mark ⟨rfl, rfl⟩ fun _ => rfl

theorem separates_newline (level : Nat) : Separates (newline level) [] := by
  have hbreak : Separates ['\n'] [] := separates_mark ⟨rfl, rfl⟩ fun _ => rfl
  have hspaces : ∀ n, Separates ('\n' :: List.replicate n ' ') [] := by
    intro n
    induction n with
    | zero => exact hbreak
    | succ n ih =>
        rw [List.replicate_succ', ← List.cons_append]
        exact ih.append separates_space
  exact hspaces _

theorem spells_null : Spells "null".toList [.null] := fun _ => ⟨_, rfl, rfl⟩

theorem spells_boolean (b : Bool) : Spells (scalar (.boolean b)) [.boolean b] := by
  cases b <;> exact fun _ => ⟨_, rfl, rfl⟩

/-! ### Numerals -/

theorem run_numeral {before : List Token} {done text : List Char}
    (h : ∀ c ∈ text, Numeral.isChar c = true) :
    Scan.run ⟨before, .numeral done⟩ text = some ⟨before, .numeral (text.reverse ++ done)⟩ := by
  induction text generalizing done with
  | nil => rfl
  | cons c rest ih =>
      have hstep : Scan.step ⟨before, .numeral done⟩ c = some ⟨before, .numeral (c :: done)⟩ := by
        rw [Scan.step]
        exact if_pos (h c List.mem_cons_self)
      rw [Scan.run_cons, hstep, Option.bind_some, ih fun d hd => h d (List.mem_cons_of_mem _ hd),
        List.reverse_cons, List.append_assoc]
      rfl

theorem stepBetween_numeral {before : List Token} {c : Char} (h : c.isDigit = true ∨ c = '-') :
    Scan.stepBetween before c = some ⟨before, .numeral [c]⟩ := by
  have hspace : Scan.isSpace c = false := by
    simp only [Scan.isSpace, Bool.or_eq_false_iff, beq_eq_false_iff_ne]
    refine ⟨⟨⟨?_, ?_⟩, ?_⟩, ?_⟩ <;> rintro rfl <;> rcases h with h | h <;> cases h
  have hquote : c ≠ '"' := by
    rintro rfl
    rcases h with h | h <;> cases h
  rw [Scan.stepBetween.eq_def, if_neg (by simp [hspace]), if_neg hquote, if_pos h]

theorem spells_numeral {m : Numeral} (h : m.WellFormed) : Spells m.chars [.numeral m] := by
  obtain ⟨c, rest, hchars, hc⟩ := Numeral.exists_cons_chars h
  have hall := fun d => Numeral.isChar_of_mem_chars h (c := d)
  rw [hchars] at hall
  intro before
  refine ⟨⟨before, .numeral (rest.reverse ++ [c])⟩, ?_, ?_⟩
  · rw [hchars, Scan.run_cons, Scan.step]
    dsimp only
    rw [stepBetween_numeral hc, Option.bind_some,
      run_numeral fun d hd => hall d (List.mem_cons_of_mem _ hd)]
  · rw [Scan.Ends, Scan.close]
    dsimp only
    rw [List.reverse_append, List.reverse_reverse, List.reverse_singleton, List.singleton_append,
      ← hchars, Numeral.parse?_chars h]
    rfl

/-! ### Strings -/

theorem run_hex (before : List Token) (s : StringScan) {digits : List Char} {values : List Nat}
    (hvalues : digits.mapM Text.hexValue? = some values) (hne : digits ≠ []) (unit : Nat) :
    Scan.run ⟨before, .hex s digits.length unit⟩ digits =
      some ⟨before, .string (s.pushUnit (values.foldl (fun n d => n * 16 + d) unit))⟩ := by
  induction digits generalizing values unit with
  | nil => exact (hne rfl).elim
  | cons c rest ih =>
      rw [List.mapM_cons] at hvalues
      obtain ⟨d, hd, hrest⟩ := Option.bind_eq_some_iff.mp hvalues
      obtain ⟨more, hmore, heq⟩ := Option.bind_eq_some_iff.mp hrest
      cases heq
      rw [Scan.run_cons, Scan.step]
      dsimp only
      rw [hd]
      cases rest with
      | nil =>
          cases hmore
          rfl
      | cons e rest =>
          rw [Option.map_some, if_neg (by simp), Option.bind_some]
          exact ih hmore (List.cons_ne_nil _ _) (unit * 16 + d)

/-- A control character is pushed as the UTF-16 unit that it is. -/
theorem pushUnit_toNat (done : List Char) {c : Char} (hc : c.toNat < 0x20) :
    StringScan.pushUnit ⟨done, true, none⟩ c.toNat = ⟨c :: done, true, none⟩ := by
  rw [StringScan.pushUnit, if_neg (by omega)]
  dsimp only
  rw [if_neg (by omega), Char.ofNat_toNat]
  rfl

/-- An escape stands for the character that it is written for. -/
theorem run_escapeChar (before : List Token) (done : List Char) (c : Char) :
    Scan.run ⟨before, .string ⟨done, true, none⟩⟩ (escapeChar c) =
      some ⟨before, .string ⟨c :: done, true, none⟩⟩ := by
  rw [escapeChar.eq_def]
  split
  case h_8 hquote hbackslash _ _ _ _ _ =>
    split
    next hcontrol =>
      obtain ⟨values, hvalues, hvalue⟩ := Text.mapM_hexChars 4 (n := c.toNat)
        (Nat.lt_trans hcontrol (by decide))
      have hhex := run_hex before ⟨done, true, none⟩ hvalues
        (List.ne_nil_of_length_eq_add_one (Text.length_hexChars 4 c.toNat)) 0
      rw [hvalue, pushUnit_toNat done hcontrol] at hhex
      exact hhex
    next hprinted =>
      rw [Scan.run_cons, Scan.step]
      dsimp only
      rw [if_neg hquote, if_neg hbackslash, if_neg hprinted]
      rfl
  all_goals rfl

theorem run_escaped (before : List Token) (done text : List Char) :
    Scan.run ⟨before, .string ⟨done, true, none⟩⟩ (text.flatMap escapeChar) =
      some ⟨before, .string ⟨text.reverse ++ done, true, none⟩⟩ := by
  induction text generalizing done with
  | nil => rfl
  | cons c rest ih =>
      rw [List.flatMap_cons, Scan.run_append, run_escapeChar, Option.bind_some, ih,
        List.reverse_cons, List.append_assoc]
      rfl

theorem separates_quoted (s : String) : Separates (quoted s) [.string (some s)] := by
  intro scan before hscan
  have hstart : scan.step '"' = some ⟨before, .string .empty⟩ := hscan.step ⟨rfl, rfl⟩
  have hend : Scan.run ⟨before, .string ⟨s.toList.reverse ++ [], true, none⟩⟩ ['"'] =
      some ⟨.string (some s) :: before, .between⟩ := by
    rw [List.append_nil]
    change some (Scan.mk (.string (some (String.ofList s.toList.reverse.reverse)) :: before) _) = _
    rw [List.reverse_reverse, String.ofList_toList]
  rw [quoted, Scan.run_cons, hstart, Option.bind_some, Scan.run_append, StringScan.empty,
    run_escaped, Option.bind_some, hend]
  rfl

/-! ## Values -/

theorem spells_number (n : Number) :
    Spells (NumberFormat.document.chars n) (valueTokens (.number n)) := by
  obtain ⟨m, hm, hchars⟩ := Numeral.exists_chars n
  rw [valueTokens, ← hchars, Numeral.parse?_chars hm]
  exact spells_numeral hm

theorem separates_key (k : String) :
    Separates (quoted k ++ [':', ' ']) [.string (some k), .colon] :=
  (separates_quoted k).append (separates_colon.append separates_space)

mutual

/-- The text of a value is scanned into its tokens. -/
theorem spells_indentedChars (level : Nat) :
    ∀ v : Value, Spells (indentedChars level v) (valueTokens v)
  | .null => spells_null
  | .boolean b => spells_boolean b
  | .number n => spells_number n
  | .text s => (separates_quoted s).follows.spells
  | .sequence [] => (separates_openBracket.append separates_closeBracket).follows.spells
  | .mapping [] => (separates_openBrace.append separates_closeBrace).follows.spells
  | .sequence (v :: rest) => by
      have hopen := (separates_openBracket.append (separates_newline (level + 1))).append_spells
        (spells_indentedChars (level + 1) v)
      have hclose := ((separates_newline level).append separates_closeBracket).follows
      have hall := (hopen.append (follows_indentedItems (level + 1) rest)).append hclose
      simpa [indentedChars, valueTokens] using hall.spells
  | .mapping ((k, v) :: rest) => by
      have hall := ((((separates_openBrace.append (separates_newline (level + 1))).append
        (separates_key k)).append_spells (spells_indentedChars (level + 1) v)).append
        (follows_indentedFields (level + 1) rest)).append
        ((separates_newline level).append separates_closeBrace).follows
      simpa [indentedChars, valueTokens] using hall.spells

theorem follows_indentedItems (level : Nat) :
    ∀ items : List Value, Follows (indentedItems level items) (itemTokens items)
  | [] => follows_nil
  | v :: rest => by
      have hall := ((separates_comma.append (separates_newline level)).append_spells
        (spells_indentedChars level v)).append (follows_indentedItems level rest)
      simpa [indentedItems, itemTokens] using hall

theorem follows_indentedFields (level : Nat) :
    ∀ fields : List (String × Value), Follows (indentedFields level fields) (fieldTokens fields)
  | [] => follows_nil
  | (k, v) :: rest => by
      have hall := (((separates_comma.append (separates_newline level)).append
        (separates_key k)).append_spells (spells_indentedChars level v)).append
        (follows_indentedFields level rest)
      simpa [indentedFields, fieldTokens] using hall

end

theorem tokens?_indentedChars (level : Nat) (v : Value) :
    tokens? (indentedChars level v) = some (valueTokens v) := by
  obtain ⟨scan, hrun, hends⟩ := spells_indentedChars level v []
  rw [List.append_nil] at hends
  rw [tokens?, Scan.start, hrun, Option.bind_some, hends.finish?, List.reverse_reverse]

end DatasetCatalog.Json
