import Groupwise.Proofs.Expr.Spelling

namespace Groupwise.Expr

open Text (isBlank byteSize)
open Cursor (Between Reads)

/-- A text as blanks, a spelling, blanks, a spelling, and so on to the blanks at its end. -/
inductive Cut where
  | done (blanks : List Char)
  | next (blanks letters : List Char) (symbol : Symbol) (rest : Cut)

namespace Cut

def text : Cut → List Char
  | done blanks => blanks
  | next blanks letters _ rest => blanks ++ (letters ++ rest.text)

def tokens (offset : Nat) : Cut → List Token
  | done _ => []
  | next blanks letters symbol rest =>
    ⟨symbol, offset + byteSize blanks⟩ :: rest.tokens (offset + byteSize blanks + byteSize letters)

/-- The blanks are blanks and the spellings are spellings, and no keyword is carried on by what comes next. -/
def Sound : Cut → Prop
  | done blanks => ∀ x ∈ blanks, isBlank x = true
  | next blanks letters symbol rest =>
    (∀ x ∈ blanks, isBlank x = true) ∧ symbol.Spelt letters ∧ symbol.EndsBefore rest.text ∧ rest.Sound

def indent (x : Char) : Cut → Cut
  | done blanks => done (x :: blanks)
  | next blanks letters symbol rest => next (x :: blanks) letters symbol rest

variable {cut other : Cut} {x : Char} {blanks rest : List Char}

theorem text_indent (x : Char) (cut : Cut) : (cut.indent x).text = x :: cut.text := by
  cases cut <;> rfl

theorem tokens_indent (x : Char) (cut : Cut) (offset : Nat) :
    (cut.indent x).tokens offset = cut.tokens (offset + x.utf8Size) := by
  cases cut with
  | done blanks => rfl
  | next blanks letters symbol rest => simp only [indent, tokens, Text.byteSize_cons, Nat.add_assoc]

theorem Sound.indent (h : cut.Sound) (hx : isBlank x = true) : (cut.indent x).Sound := by
  cases cut with
  | done blanks => exact List.forall_mem_cons.2 ⟨hx, h⟩
  | next blanks letters symbol rest => exact ⟨List.forall_mem_cons.2 ⟨hx, h.1⟩, h.2⟩

end Cut

theorem Symbol.EndsBefore.front {symbol : Symbol} {front back : List Char} (h : symbol.EndsBefore (front ++ back)) :
    symbol.EndsBefore front := by
  intro hkeyword x hx
  apply h hkeyword
  rw [List.head?_append, Option.mem_def.1 hx]
  rfl

theorem tokensFrom_blanks {blanks : List Char} (h : ∀ x ∈ blanks, isBlank x = true) (offset : Nat) (rest : List Char) :
    tokensFrom ⟨offset, blanks ++ rest⟩ = tokensFrom ⟨offset + byteSize blanks, rest⟩ := by
  induction blanks generalizing offset with
  | nil => rfl
  | cons x blanks ih =>
      obtain ⟨hx, hblanks⟩ := List.forall_mem_cons.1 h
      rw [List.cons_append, tokensFrom_blank hx, ih hblanks, Text.byteSize_cons, Nat.add_assoc]

/--
Reading cuts off one spelling after another and comes to the end of the text, or to something else than a blank that
begins no spelling.
-/
theorem exists_cut (c : Cursor) : ∃ (cut : Cut) (d : Cursor), cut.Sound ∧ Between cut.text c d ∧
    ((d.rest = [] ∧ tokensFrom c = .ok (cut.tokens c.offset)) ∨
      ∃ x rest fault, d.rest = x :: rest ∧ isBlank x = false ∧ Cursor.token d.offset x rest = .error fault ∧
        tokensFrom c = .error fault) := by
  -- The cases are the end of the text, a blank, a character that begins nothing, and a token.
  fun_induction tokensFrom c with
  | case1 c hrest => exact ⟨.done [], c, by simp [Cut.Sound], .refl c, .inl ⟨hrest, rfl⟩⟩
  | case2 c x rest hrest hblank ih =>
      obtain ⟨cut, d, hcut, hbetween, hend⟩ := ih
      have hfirst : Between [x] c ⟨c.offset + x.utf8Size, rest⟩ := ⟨hrest, rfl⟩
      have hindent : Between (cut.indent x).text c d := by
        rw [Cut.text_indent]
        exact hfirst.trans hbetween
      exact ⟨cut.indent x, d, hcut.indent hblank, hindent, by rwa [Cut.tokens_indent]⟩
  | case3 c x rest hrest hblank fault hscan =>
      exact ⟨.done [], c, by simp [Cut.Sound], .refl c, .inr ⟨x, rest, fault, hrest, by simpa using hblank, hscan, rfl⟩⟩
  | case4 c x rest hrest hblank symbol next hscan ih =>
      obtain ⟨cut, d, hcut, hbetween, hend⟩ := ih
      obtain ⟨letters, hspelt, hends, hletters⟩ := Cursor.reads_iff.1 ⟨x, rest, hrest, by simpa using hblank, hscan⟩
      rw [hbetween.rest] at hends
      refine ⟨.next [] letters symbol cut, d, ⟨by simp, hspelt, hends.front, hcut⟩, hletters.trans hbetween, ?_⟩
      rcases hend with ⟨hd, hok⟩ | ⟨y, rest', fault, hd, hy, htoken, herror⟩
      · refine .inl ⟨hd, ?_⟩
        rw [hok, hletters.offset]
        rfl
      · refine .inr ⟨y, rest', fault, hd, hy, htoken, ?_⟩
        rw [herror]
        rfl

def Parted (front back : List Char) : Prop :=
  ∀ x ∈ front.getLast?, ∀ y ∈ back.head?, ¬ (isWordChar x = true ∧ isWordChar y = true)

instance (front back : List Char) : Decidable (Parted front back) :=
  @Option.decidableForallMem _ _ (fun _ => @Option.decidableForallMem _ _ (fun _ => instDecidableNot) _) _

theorem parted_of_head? {back : List Char} (h : ∀ x ∈ back.head?, isWordChar x = false) (front : List Char) :
    Parted front back := by
  rintro x - y hy ⟨-, hword⟩
  rw [h y hy] at hword
  contradiction

theorem Symbol.Spelt.ne_nil {symbol : Symbol} {letters : List Char} (h : symbol.Spelt letters) : letters ≠ [] := by
  cases h <;> exact List.cons_ne_nil _ _

theorem Parted.of_append {front middle back : List Char} (h : Parted (front ++ middle) back) : Parted middle back := by
  intro x hx
  apply h
  rw [List.getLast?_append, Option.mem_def.1 hx]
  rfl

theorem endsBefore_append {symbol : Symbol} {letters front back : List Char} (h : symbol.Spelt letters)
    (hends : symbol.EndsBefore front) (hparted : Parted (letters ++ front) back) : symbol.EndsBefore (front ++ back) := by
  intro hkeyword y hy
  cases front with
  | nil =>
      rw [List.append_nil] at hparted
      have hlast := List.getLast?_eq_some_getLast h.ne_nil
      have hword := h.isWordChar hkeyword _ (List.getLast_mem h.ne_nil)
      exact Bool.eq_false_iff.2 fun hy' => hparted _ hlast y hy ⟨hword, hy'⟩
  | cons x front => exact hends hkeyword y hy

namespace Cut

variable {cut other : Cut} {rest : List Char}

theorem Sound.tokensFrom_append (h : cut.Sound) (hparted : Parted cut.text rest) (offset : Nat) :
    tokensFrom ⟨offset, cut.text ++ rest⟩ =
      (cut.tokens offset ++ ·) <$> tokensFrom ⟨offset + byteSize cut.text, rest⟩ := by
  induction cut generalizing offset with
  | done blanks =>
      rw [text, tokensFrom_blanks h]
      exact (id_map _).symm
  | next blanks letters symbol cut ih =>
      obtain ⟨hblanks, hspelt, hends, hcut⟩ := h
      rw [text] at hparted
      have hread := Cursor.reads_of_spelt hspelt (endsBefore_append hspelt hends hparted.of_append) (offset + byteSize blanks)
      rw [text, List.append_assoc, List.append_assoc, tokensFrom_blanks hblanks, Cursor.tokensFrom_of_reads hread,
        ih hcut hparted.of_append.of_append, Functor.map_map, Text.byteSize_append, Text.byteSize_append]
      simp only [tokens, List.cons_append, Nat.add_assoc]

theorem Sound.tokensFrom (h : cut.Sound) (offset : Nat) : tokensFrom ⟨offset, cut.text⟩ = .ok (cut.tokens offset) := by
  have hparted : Parted cut.text [] := by simp [Parted]
  have hread := h.tokensFrom_append hparted offset
  rwa [List.append_nil, tokensFrom_nil, Outcome.map_ok, List.append_nil] at hread

theorem Sound.named (h : cut.Sound) (offset : Nat) : ∀ token ∈ cut.tokens offset, token.symbol.Named := by
  induction cut generalizing offset with
  | done blanks => exact List.forall_mem_nil _
  | next blanks letters symbol cut ih => exact List.forall_mem_cons.2 ⟨h.2.1.named, ih h.2.2.2 _⟩

theorem Sound.exists_take (h : cut.Sound) {offset : Nat} {before after : List Token}
    (htokens : cut.tokens offset = before ++ after) :
    ∃ (front : Cut) (back : List Char), front.Sound ∧ cut.text = front.text ++ back ∧ front.tokens offset = before := by
  induction cut generalizing offset before with
  | done blanks =>
      obtain ⟨rfl, -⟩ := List.append_eq_nil_iff.1 htokens.symm
      exact ⟨done blanks, [], h, (List.append_nil _).symm, rfl⟩
  | next blanks letters symbol cut ih =>
      cases before with
      | nil => exact ⟨done [], _, by simp [Sound], rfl, rfl⟩
      | cons token before =>
          obtain ⟨hblanks, hspelt, hends, hcut⟩ := h
          obtain ⟨rfl, htail⟩ := List.cons.inj htokens
          obtain ⟨front, back, hfront, htext, rfl⟩ := ih hcut htail
          rw [htext] at hends
          exact ⟨next blanks letters symbol front, back, ⟨hblanks, hspelt, hends.front, hfront⟩, by simp [text, htext], rfl⟩

theorem head?_of_spelt {symbol : Symbol} {letters : List Char} (h : symbol.Spelt letters) (hends : symbol.EndsBefore rest) :
    ∃ x s, letters ++ rest = x :: s ∧ isBlank x = false := by
  obtain ⟨x, s, hletters, hblank, -⟩ := Cursor.reads_of_spelt h hends 0
  exact ⟨x, s, hletters, hblank⟩

theorem append_inj_of_blanks {blanks blanks' s s' : List Char} (h : ∀ x ∈ blanks, isBlank x = true)
    (h' : ∀ x ∈ blanks', isBlank x = true) (hs : ∀ x ∈ s.head?, isBlank x = false)
    (hs' : ∀ x ∈ s'.head?, isBlank x = false) (heq : blanks ++ s = blanks' ++ s') : blanks = blanks' ∧ s = s' := by
  have hdrop := Cursor.drop_append h hs 0
  rw [heq, Cursor.drop_append h' hs'] at hdrop
  obtain rfl : s' = s := congrArg Cursor.rest hdrop
  exact ⟨List.append_cancel_right heq, rfl⟩

theorem Sound.text_ne {blanks blanks' letters : List Char} {symbol : Symbol} (h : (next blanks letters symbol cut).Sound)
    (hblanks : ∀ x ∈ blanks', isBlank x = true) : (next blanks letters symbol cut).text ≠ blanks' := by
  rintro rfl
  obtain ⟨-, hspelt, hends, -⟩ := h
  obtain ⟨x, s, hletters, hx⟩ := head?_of_spelt hspelt hends
  have hmem : x ∈ (next blanks letters symbol cut).text := by
    rw [text, hletters]
    simp
  rw [hblanks x hmem] at hx
  contradiction

theorem Sound.eq_of_text_eq (h : cut.Sound) (hother : other.Sound) (heq : cut.text = other.text) : cut = other := by
  induction cut generalizing other with
  | done blanks =>
      cases other with
      | done blanks' => exact congrArg done heq
      | next blanks' letters' symbol' other => exact absurd heq.symm (hother.text_ne h)
  | next blanks letters symbol cut ih =>
      cases other with
      | done blanks' => exact absurd heq (h.text_ne hother)
      | next blanks' letters' symbol' other =>
          obtain ⟨hblanks, hspelt, hends, hcut⟩ := h
          obtain ⟨hblanks', hspelt', hends', hother⟩ := hother
          obtain ⟨x, s, hs, hx⟩ := head?_of_spelt hspelt hends
          obtain ⟨x', s', hs', hx'⟩ := head?_of_spelt hspelt' hends'
          obtain ⟨rfl, hletters⟩ :=
            append_inj_of_blanks hblanks hblanks' (by simpa [hs] using hx) (by simpa [hs'] using hx') heq
          -- What is read there is one symbol and ends at one place.
          have hread := Cursor.reads_of_spelt hspelt hends 0
          rw [hletters] at hread
          obtain ⟨rfl, hnext⟩ := hread.unique (Cursor.reads_of_spelt hspelt' hends' 0)
          have hrest : cut.text = other.text := congrArg Cursor.rest hnext
          rw [hrest] at hletters
          obtain rfl := List.append_cancel_right hletters
          rw [ih hcut hother hrest]

end Cut

theorem exists_cut_of_tokensFrom {c : Cursor} {ts : List Token} (h : tokensFrom c = .ok ts) :
    ∃ cut : Cut, cut.Sound ∧ cut.text = c.rest ∧ cut.tokens c.offset = ts := by
  obtain ⟨cut, d, hcut, hbetween, ⟨hd, hok⟩ | ⟨x, rest, fault, -, -, -, herror⟩⟩ := exists_cut c
  · have htext := hbetween.rest
    rw [hd, List.append_nil] at htext
    exact ⟨cut, hcut, htext.symm, Except.ok.inj (hok.symm.trans h)⟩
  · rw [herror] at h
    contradiction

theorem named_of_tokensFrom (c : Cursor) : Outcome.Ensures (∀ token ∈ ·, token.symbol.Named) (tokensFrom c) := by
  intro ts h
  obtain ⟨cut, hcut, -, rfl⟩ := exists_cut_of_tokensFrom h
  exact hcut.named c.offset

theorem tokens_eq_ok {text : String} {ts : List Token} :
    tokens text = .ok ts ↔ ∃ cut : Cut, cut.Sound ∧ cut.text = text.toList ∧ cut.tokens 0 = ts := by
  constructor
  · exact exists_cut_of_tokensFrom
  · rintro ⟨cut, hcut, htext, rfl⟩
    rw [tokens, ← htext]
    exact hcut.tokensFrom 0

inductive Visited (text : String) : Cursor → Prop
  | start : Visited text ⟨0, text.toList⟩
  | blank {offset : Nat} {x : Char} {rest : List Char} (h : Visited text ⟨offset, x :: rest⟩) (hx : isBlank x = true) :
      Visited text ⟨offset + x.utf8Size, rest⟩
  | token {symbol : Symbol} {c next : Cursor} (h : Visited text c) (hread : Reads symbol c next) : Visited text next

/-- The places at which a word is asked for: where a keyword may stand, behind a `#`, and behind `#user.`. -/
inductive AsksWord (text : String) : Cursor → Prop
  | keyword {offset : Nat} {x : Char} {rest : List Char} (h : Visited text ⟨offset, x :: rest⟩)
      (hx : isWordStart x = true) : AsksWord text ⟨offset, x :: rest⟩
  | receiver {offset : Nat} {rest : List Char} (h : Visited text ⟨offset, '#' :: rest⟩) :
      AsksWord text ⟨offset + '#'.utf8Size, rest⟩
  | method {offset : Nat} {rest : List Char} {method : Cursor} (h : Visited text ⟨offset, '#' :: rest⟩)
      (hreceiver : Cursor.word ⟨offset + '#'.utf8Size, rest⟩ = "user")
      (hdot : (Cursor.drop isWordChar ⟨offset + '#'.utf8Size, rest⟩).expect .dot = .ok method) : AsksWord text method

variable {text : String} {c : Cursor}

theorem Visited.exists_between (h : Visited text c) : ∃ front, Between front ⟨0, text.toList⟩ c := by
  induction h with
  | start => exact ⟨[], .refl _⟩
  | @blank offset x rest h hx ih =>
      obtain ⟨front, hfront⟩ := ih
      exact ⟨front ++ [x], hfront.trans (Cursor.between_mk [x] rest offset)⟩
  | token h hread ih =>
      obtain ⟨front, hfront⟩ := ih
      obtain ⟨letters, -, -, hletters⟩ := Cursor.reads_iff.1 hread
      exact ⟨front ++ letters, hfront.trans hletters⟩

theorem AsksWord.exists_between (h : AsksWord text c) : ∃ front, Between front ⟨0, text.toList⟩ c := by
  cases h with
  | keyword h hx => exact h.exists_between
  | @receiver offset rest h =>
      obtain ⟨front, hfront⟩ := h.exists_between
      exact ⟨front ++ ['#'], hfront.trans (Cursor.between_mk ['#'] rest offset)⟩
  | @method offset rest _ h hreceiver hdot =>
      obtain ⟨front, hfront⟩ := h.exists_between
      have hhash := hfront.trans (Cursor.between_mk ['#'] rest offset)
      exact ⟨_, (hhash.trans (Cursor.between_of_word hreceiver)).trans (Cursor.between_of_expect hdot)⟩

theorem slice?_word {front : List Char} (h : Between front ⟨0, text.toList⟩ c) :
    Text.slice? text c.offset (c.drop isWordChar).offset = some c.word := by
  have hword := Cursor.between_of_word (c := c) rfl
  have htext : text = String.ofList front ++ c.word ++ String.ofList (c.drop isWordChar).rest := by
    apply String.toList_inj.1
    rw [String.toList_append, String.toList_append, String.toList_ofList, String.toList_ofList, List.append_assoc,
      ← hword.rest]
    exact h.rest
  rw [hword.offset, h.offset, Nat.zero_add, ← Text.byteSize_ofList, Text.byteSize_toList]
  exact Text.slice?_of_append htext

/--
A text has tokens if and only if it can be cut into their spellings and blanks, which can be done in one way only. Each
token is at the offset of its spelling. Where a word is asked for, its bytes can be sliced out of the text.
-/
theorem tokens_eq_ok_iff_cut (text : String) (ts : List Token) :
    (tokens text = .ok ts ↔ ∃ cut : Cut, cut.Sound ∧ cut.text = text.toList ∧ cut.tokens 0 = ts) ∧
    (∀ cut other : Cut, cut.Sound → other.Sound → cut.text = text.toList → other.text = text.toList → cut = other) ∧
    (∀ c, AsksWord text c → Text.slice? text c.offset (c.drop isWordChar).offset = some c.word) := by
  refine ⟨tokens_eq_ok, ?_, ?_⟩
  · intro cut other hcut hother htext htext'
    exact hcut.eq_of_text_eq hother (htext.trans htext'.symm)
  · intro c hc
    obtain ⟨front, hfront⟩ := hc.exists_between
    exact slice?_word hfront

theorem tokens_eq_ok_iff_cut_adjacent :
    let text := "not(#user.contains\u3000('é'))or #user.contains( 'or (' )"
    ∃ cut : Cut, cut.Sound ∧ cut.text = text.toList ∧
      cut.tokens 0 = [⟨.not, 0⟩, ⟨.open, 3⟩, ⟨.member "é", 4⟩, ⟨.close, 27⟩, ⟨.or, 28⟩, ⟨.member "or (", 31⟩] ∧
      ∀ other : Cut, other.Sound → other.text = text.toList → other = cut := by
  intro text
  have htokens : tokens text = .ok [⟨.not, 0⟩, ⟨.open, 3⟩, ⟨.member "é", 4⟩, ⟨.close, 27⟩, ⟨.or, 28⟩,
      ⟨.member "or (", 31⟩] := Outcome.eq_ok_of_toOption (by decide +kernel)
  obtain ⟨hcut, hunique, -⟩ := tokens_eq_ok_iff_cut text _
  obtain ⟨cut, hsound, htext, hplaces⟩ := hcut.1 htokens
  exact ⟨cut, hsound, htext, hplaces, fun other hother htext' => hunique other cut hother hsound htext' htext⟩

end Groupwise.Expr
