import Groupwise.Proofs.Expr.Cut

namespace Groupwise.Expr

open Text (byteSize)

theorem exists_front {c : Cursor} {before after : List Token} (h : tokensFrom c = .ok (before ++ after)) :
    ∃ front back, c.rest = front ++ back ∧ ∀ tail : List Char, (∀ x ∈ tail.head?, isWordChar x = false) →
      tokensFrom ⟨c.offset, front ++ tail⟩ = (before ++ ·) <$> tokensFrom ⟨c.offset + byteSize front, tail⟩ := by
  obtain ⟨cut, hcut, hrest, htokens⟩ := exists_cut_of_tokensFrom h
  obtain ⟨front, back, hfront, htext, rfl⟩ := hcut.exists_take htokens
  refine ⟨front.text, back, hrest.symm.trans htext, fun tail htail => ?_⟩
  exact hfront.tokensFrom_append (parted_of_head? htail _) c.offset

def symbolsOf (ts : List Token) : List Symbol := ts.map Token.symbol

theorem symbolsOf_eq_append {ts : List Token} {first second : List Symbol} (h : symbolsOf ts = first ++ second) :
    ∃ us vs, ts = us ++ vs ∧ symbolsOf us = first ∧ symbolsOf vs = second :=
  List.map_eq_append_iff.1 h

theorem symbolsOf_eq_cons {ts : List Token} {symbol : Symbol} {symbols : List Symbol}
    (h : symbolsOf ts = symbol :: symbols) :
    ∃ position us, ts = ⟨symbol, position⟩ :: us ∧ symbolsOf us = symbols := by
  obtain ⟨⟨_, position⟩, us, rfl, rfl, hus⟩ := List.map_eq_cons_iff.1 h
  exact ⟨position, us, rfl, hus⟩

@[simp] theorem symbolsOf_cons (token : Token) (ts : List Token) :
    symbolsOf (token :: ts) = token.symbol :: symbolsOf ts := rfl

@[simp] theorem symbolsOf_append (first second : List Token) :
    symbolsOf (first ++ second) = symbolsOf first ++ symbolsOf second :=
  List.map_append

/-- A spelling of a symbol that can stand behind any other. -/
def Symbol.spelling : Symbol → List Char
  | .open => " (".toList
  | .close => " )".toList
  | .and => " and ".toList
  | .or => " or ".toList
  | .not => " not ".toList
  | .member group => ' ' :: memberText group

theorem exists_tokensFrom_spelling {symbol : Symbol} (h : symbol.Named) (offset : Nat) (rest : List Char) :
    ∃ position next, tokensFrom ⟨offset, symbol.spelling ++ rest⟩ =
      (⟨symbol, position⟩ :: ·) <$> tokensFrom ⟨next, rest⟩ := by
  cases symbol with
  | «open» => exact ⟨_, _, (tokensFrom_space offset _).trans (tokensFrom_open _ rest)⟩
  | close => exact ⟨_, _, (tokensFrom_space offset _).trans (tokensFrom_close _ rest)⟩
  | and => exact ⟨_, _, tokensFrom_and offset rest⟩
  | or => exact ⟨_, _, tokensFrom_or offset rest⟩
  | not => exact ⟨_, _, (tokensFrom_space offset _).trans (tokensFrom_not _ rest)⟩
  | member group => exact ⟨_, _, (tokensFrom_space offset _).trans (tokensFrom_member (h group rfl) _ rest)⟩

theorem exists_tokensFrom_spellings {symbols : List Symbol} (h : ∀ symbol ∈ symbols, symbol.Named) (offset : Nat) :
    ∃ ts, tokensFrom ⟨offset, symbols.flatMap Symbol.spelling⟩ = .ok ts ∧ symbolsOf ts = symbols := by
  induction symbols generalizing offset with
  | nil => exact ⟨[], tokensFrom_nil offset, rfl⟩
  | cons symbol symbols ih =>
      obtain ⟨hsymbol, hsymbols⟩ := List.forall_mem_cons.1 h
      obtain ⟨position, next, hfirst⟩ := exists_tokensFrom_spelling hsymbol offset (symbols.flatMap Symbol.spelling)
      obtain ⟨ts, hts, rfl⟩ := ih hsymbols next
      refine ⟨⟨symbol, position⟩ :: ts, ?_, rfl⟩
      rw [List.flatMap_cons, hfirst, hts, Outcome.map_ok]

theorem Symbol.exists_spelling_eq (symbol : Symbol) : ∃ rest, symbol.spelling = ' ' :: rest := by
  cases symbol <;> exact ⟨_, rfl⟩

theorem head?_spellings (symbols : List Symbol) :
    ∀ x ∈ (symbols.flatMap Symbol.spelling).head?, isWordChar x = false := by
  cases symbols with
  | nil => simp
  | cons symbol symbols =>
      obtain ⟨rest, hspelling⟩ := symbol.exists_spelling_eq
      rw [List.flatMap_cons, hspelling]
      rintro _ ⟨⟩
      rfl

/-- Tokens at the front of a text can be gone on with by any symbols. -/
theorem exists_text_of_front {text : String} {before after : List Token} (h : tokens text = .ok (before ++ after))
    {symbols : List Symbol} (hsymbols : ∀ symbol ∈ symbols, symbol.Named) :
    ∃ text' more, tokens text' = .ok (before ++ more) ∧ symbolsOf more = symbols := by
  obtain ⟨front, back, -, hfront⟩ := exists_front h
  obtain ⟨more, hmore, rfl⟩ := exists_tokensFrom_spellings hsymbols (0 + byteSize front)
  refine ⟨String.ofList (front ++ (symbolsOf more).flatMap Symbol.spelling), more, ?_, rfl⟩
  rw [tokens, String.toList_ofList, hfront _ (head?_spellings _), hmore, Outcome.map_ok]

end Groupwise.Expr
