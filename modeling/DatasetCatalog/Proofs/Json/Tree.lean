import DatasetCatalog.Json.Tree
import DatasetCatalog.Proofs.Json.Token

/-!
# Trees of a printed value

The text of a value is read as one tree (`Tree.ofValue`), and the value of that tree is the value
whose numbers are reread (`Value.reread?`), provided that it nests no more levels than asked for.
Building runs over the tokens: the tokens of a value hand its tree to the container that waits for
one, which is all that the containers around it need to know.
-/

namespace DatasetCatalog.Json

namespace Tree

mutual

/-- What the text of a value is read as. -/
def ofValue : Value → Tree
  | .null => .null
  | .boolean b => .boolean b
  | .number n => .number n.reread?
  | .text s => .string (some s)
  | .sequence items => .array (ofItems items)
  | .mapping fields => .object (ofFields fields)

def ofItems : List Value → List Tree
  | [] => []
  | v :: rest => ofValue v :: ofItems rest

def ofFields : List (String × Value) → List (Option String × Tree)
  | [] => []
  | (k, v) :: rest => (some k, ofValue v) :: ofFields rest

end

end Tree

namespace Build

theorem string_of_wantsTree {b : Build} (hb : b.wantsTree = true) (s : Option String) :
    b.string s = deliver (.string s) b := by
  obtain ⟨stack, result⟩ := b
  rcases stack with _ | ⟨frame, rest⟩
  · rfl
  · cases frame with
    | array done expected => rfl
    | object done expected =>
        cases expected with
        | first | next => cases hb
        | separator | colon | value => rfl

/-- Building on with these tokens. -/
def run (b : Build) (tokens : List Token) : Option Build := tokens.foldlM step b

theorem run_cons (b : Build) (token : Token) (rest : List Token) :
    b.run (token :: rest) = (b.step token).bind (·.run rest) := rfl

theorem run_append (b : Build) (tokens more : List Token) :
    b.run (tokens ++ more) = (b.run tokens).bind (·.run more) := by
  simp [run, List.foldlM_append]

theorem run_singleton (b : Build) (token : Token) : b.run [token] = b.step token := by
  simp [run]

mutual

/-- The tokens of a value deliver its tree. -/
theorem run_valueTokens : ∀ (v : Value) {b : Build}, b.wantsTree = true →
    b.run (valueTokens v) = deliver (.ofValue v) b
  | .null, b, _ => by rw [valueTokens, run_singleton, step, Tree.ofValue]
  | .boolean v, b, _ => by rw [valueTokens, run_singleton, step, Tree.ofValue]
  | .number n, b, _ => by
      obtain ⟨m, hm, hchars⟩ := Numeral.exists_chars n
      have hparse : Numeral.parse? (NumberFormat.document.chars n) = some m :=
        hchars ▸ Numeral.parse?_chars hm
      rw [valueTokens, hparse, Tree.ofValue, Number.reread?, hparse]
      exact run_singleton b _
  | .text s, b, hb => by
      rw [valueTokens, run_singleton, step, string_of_wantsTree hb, Tree.ofValue]
  | .sequence [], b, hb => by
      rw [valueTokens, run_cons, step, openContainer, if_pos hb, Option.bind_some, run_singleton]
      rfl
  | .mapping [], b, hb => by
      rw [valueTokens, run_cons, step, openContainer, if_pos hb, Option.bind_some, run_singleton]
      rfl
  | .sequence (v :: rest), b, hb => by
      have hfirst := run_valueTokens v (b := ⟨.array [] .first :: b.stack, b.result⟩) rfl
      rw [valueTokens, run_cons, step, openContainer, if_pos hb, Option.bind_some, run_append,
        run_append, hfirst, deliver]
      dsimp only
      rw [Option.bind_some, run_itemTokens rest, Option.bind_some, run_singleton, step, closeArray]
      dsimp only
      rw [List.reverse_append, List.reverse_reverse]
      rfl
  | .mapping ((k, v) :: rest), b, hb => by
      have hfirst :=
        run_valueTokens v (b := ⟨.object [] (.value (some k)) :: b.stack, b.result⟩) rfl
      rw [valueTokens, run_cons, step, openContainer, if_pos hb, Option.bind_some, run_cons, step,
        string, Option.bind_some, run_cons, step, colon, Option.bind_some, run_append, run_append,
        hfirst, deliver]
      dsimp only
      rw [Option.bind_some, run_fieldTokens rest, Option.bind_some, run_singleton, step,
        closeObject]
      dsimp only
      rw [List.reverse_append, List.reverse_reverse]
      rfl

/-- Further elements are put before the ones that are there. -/
theorem run_itemTokens : ∀ (items : List Value) (done : List Tree) (stack : List Frame)
    (result : Option Tree),
    run ⟨.array done .separator :: stack, result⟩ (itemTokens items) =
      some ⟨.array ((Tree.ofItems items).reverse ++ done) .separator :: stack, result⟩
  | [], _, _, _ => rfl
  | v :: rest, done, stack, result => by
      have hnext := run_valueTokens v (b := ⟨.array done .next :: stack, result⟩) rfl
      rw [itemTokens, run_cons, step, comma]
      dsimp only
      rw [Option.bind_some, run_append, hnext, deliver]
      dsimp only
      rw [Option.bind_some, run_itemTokens rest, Tree.ofItems, List.reverse_cons, List.append_assoc]
      rfl

theorem run_fieldTokens : ∀ (fields : List (String × Value))
    (done : List (Option String × Tree)) (stack : List Frame) (result : Option Tree),
    run ⟨.object done .separator :: stack, result⟩ (fieldTokens fields) =
      some ⟨.object ((Tree.ofFields fields).reverse ++ done) .separator :: stack, result⟩
  | [], _, _, _ => rfl
  | (k, v) :: rest, done, stack, result => by
      have hnext := run_valueTokens v (b := ⟨.object done (.value (some k)) :: stack, result⟩) rfl
      rw [fieldTokens, run_cons, step, comma]
      dsimp only
      rw [Option.bind_some, run_cons, step, string, Option.bind_some, run_cons, step, colon]
      dsimp only
      rw [Option.bind_some, run_append, hnext, deliver]
      dsimp only
      rw [Option.bind_some, run_fieldTokens rest, Tree.ofFields, List.reverse_cons,
        List.append_assoc]
      rfl

end

end Build

namespace Tree

/-- The text of a value is read as the tree of the value. -/
theorem read?_indented (v : Value) : read? (indented v) = some (ofValue v) := by
  have hrun : (valueTokens v).foldlM Build.step .start = some ⟨[], some (ofValue v)⟩ :=
    Build.run_valueTokens v rfl
  rw [read?, indented, String.toList_ofList, tokens?_indentedChars, Option.bind_some, ofTokens?,
    hrun]
  rfl

end Tree

end DatasetCatalog.Json
