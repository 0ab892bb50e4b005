import Groupwise.Expr.Parser
import Groupwise.Proofs.Expr.Cut

namespace Groupwise.Expr

open Text (isBlank byteSize)
open Cursor (Between)

def Begins (letters : List Char) : Prop := ∃ group more, (Symbol.member group).Spelt (letters ++ more)

theorem begins_of_front {group : String} {first second third letters : List Char} (h : Named group)
    (hfirst : ∀ x ∈ first, isBlank x = true) (hsecond : ∀ x ∈ second, isBlank x = true)
    (hthird : ∀ x ∈ third, isBlank x = true) (hfront : letters <+: Cursor.spelling group first second third) :
    Begins ('#' :: letters) := by
  obtain ⟨more, hmore⟩ := hfront
  refine ⟨group, more, ?_⟩
  rw [List.cons_append, hmore]
  exact .member h hfirst hsecond hthird

theorem named_a : Named "a" := by
  decide

theorem begins_nil : Begins [] := by
  have hblanks : ∀ x ∈ ([] : List Char), isBlank x = true := by simp
  exact ⟨"a", _, .member named_a hblanks hblanks hblanks⟩

namespace Cursor

/--
A fault of the token at a place is met behind some characters that begin a membership test. One that is unsupported is
met at the token itself, but a method is met at its name.
-/
structure Breaks (fault : Error) (c : Cursor) (begun : List Char) (d : Cursor) : Prop where
  between : Between begun c d
  begins : Begins begun
  position : fault.position = d.offset
  unsupported : fault.kind = .unsupported →
    (begun = [] ∧ ∀ method, fault.fault ≠ .unsupportedMethod method) ∨
      (begun = "#user.".toList ∧ fault.fault = .unsupportedMethod d.word)

theorem expect_eq_error {mark : Mark} {c : Cursor} {fault : Error} (h : c.expect mark = .error fault) :
    fault = ⟨.missingMark mark, c.offset⟩ := by
  rw [expect] at h
  split at h
  · split at h
    · contradiction
    · exact (Except.error.inj h).symm
  · exact (Except.error.inj h).symm

theorem groupName_eq_error {c : Cursor} {fault : Error} (h : c.groupName = .error fault) :
    fault = ⟨.emptyGroup, c.offset⟩ ∨
      ∃ name d, '\'' ∉ name ∧ Between name c d ∧ fault = ⟨.unterminatedGroup c.offset, d.offset⟩ := by
  have hname := between_of_takeWhile (c := c) (p := (· ≠ '\'')) rfl
  rw [groupName] at h
  split at h
  · refine .inr ⟨_, _, ?_, hname, (Except.error.inj h).symm⟩
    intro hquote
    simpa using List.all_eq_true.1 List.all_takeWhile _ hquote
  · split at h
    · exact .inl (Except.error.inj h).symm
    · contradiction

variable {offset : Nat} {rest letters : List Char} {d : Cursor} {fault : Error}

theorem Breaks.of_front {group : String} {first second third : List Char} (h : Named group)
    (hfirst : ∀ x ∈ first, isBlank x = true) (hsecond : ∀ x ∈ second, isBlank x = true)
    (hthird : ∀ x ∈ third, isBlank x = true) (hbetween : Between letters ⟨offset + '#'.utf8Size, rest⟩ d)
    (hfront : letters <+: spelling group first second third) (hposition : fault.position = d.offset)
    (hkind : fault.kind = .malformed) : Breaks fault ⟨offset, '#' :: rest⟩ ('#' :: letters) d where
  between := (between_mk ['#'] rest offset).trans hbetween
  begins := begins_of_front h hfirst hsecond hthird hfront
  position := hposition
  unsupported := by simp [hkind]

theorem exists_breaks_of_membership (h : membership offset ⟨offset + '#'.utf8Size, rest⟩ = .error fault) :
    ∃ begun d, Breaks fault ⟨offset, '#' :: rest⟩ begun d := by
  -- Each exit has behind it what was passed before, which is carried along as the front of a spelling.
  have hnone : ∀ x ∈ ([] : List Char), isBlank x = true := by simp
  rw [membership] at h
  split at h
  · obtain rfl := Except.error.inj h
    exact ⟨_, _, .of_front named_a hnone hnone hnone (.refl _) List.nil_prefix rfl rfl⟩
  split at h
  · obtain rfl := Except.error.inj h
    exact ⟨[], _, .refl _, begins_nil, rfl, fun _ => .inl ⟨rfl, by simp⟩⟩
  next hreceiver =>
  have huser := between_of_word (Decidable.not_not.1 hreceiver)
  rcases Outcome.bind_eq_error.1 h with h | ⟨method, hmethod, h⟩
  · obtain rfl := expect_eq_error h
    exact ⟨_, _, .of_front named_a hnone hnone hnone huser (by simp [spelling]) rfl rfl⟩
  have hdot := huser.trans (between_of_expect hmethod)
  split at h
  · obtain rfl := Except.error.inj h
    exact ⟨_, _, .of_front named_a hnone hnone hnone hdot (by simp [spelling]) rfl rfl⟩
  split at h
  · obtain rfl := Except.error.inj h
    have hhash := (between_mk ['#'] rest offset).trans hdot
    refine ⟨_, _, hhash, begins_of_front named_a hnone hnone hnone (by simp [spelling]), rfl, fun _ => .inr ⟨rfl, rfl⟩⟩
  next hname =>
  obtain ⟨first, hfirst, hblanks⟩ := exists_between_drop isBlank (method.drop isWordChar)
  have hcontains := hdot.trans ((between_of_word (Decidable.not_not.1 hname)).trans hblanks)
  rcases Outcome.bind_eq_error.1 h with h | ⟨opened, hopened, h⟩
  · obtain rfl := expect_eq_error h
    exact ⟨_, _, .of_front named_a hfirst hnone hnone hcontains (by simp [spelling]) rfl rfl⟩
  obtain ⟨second, hsecond, hblanks⟩ := exists_between_drop isBlank opened
  have hopen := hcontains.trans ((between_of_expect hopened).trans hblanks)
  rcases Outcome.bind_eq_error.1 h with h | ⟨quoted, hquoted, h⟩
  · obtain rfl := expect_eq_error h
    exact ⟨_, _, .of_front named_a hfirst hsecond hnone hopen (by simp [spelling]) rfl rfl⟩
  have hquote := hopen.trans (between_of_expect hquoted)
  rcases Outcome.bind_eq_error.1 h with h | ⟨⟨group, named⟩, hgroup, h⟩
  · rcases groupName_eq_error h with rfl | ⟨name, d, hnoquote, hname, rfl⟩
    · exact ⟨_, _, .of_front named_a hfirst hsecond hnone hquote (by simp [spelling]) rfl rfl⟩
    · -- The name may be empty so far, and so there is one more letter in it.
      have hnamed : Named (String.ofList (name ++ ['a'])) := by simp [Named, hnoquote]
      exact ⟨_, _, .of_front hnamed hfirst hsecond hnone (hquote.trans hname) (by simp [spelling]) rfl rfl⟩
  obtain ⟨third, hthird, hblanks⟩ := exists_between_drop isBlank named
  have hclose := hquote.trans ((between_of_groupName hgroup).trans hblanks)
  rcases Outcome.bind_eq_error.1 h with h | ⟨closed, hclosed, h⟩
  · obtain rfl := expect_eq_error h
    exact ⟨_, _, .of_front (named_of_groupName hgroup) hfirst hsecond hthird hclose (by simp [spelling]) rfl rfl⟩
  · cases h

theorem Breaks.at_start (hposition : fault.position = offset) (hmethod : ∀ method, fault.fault ≠ .unsupportedMethod method) :
    Breaks fault ⟨offset, letters⟩ [] ⟨offset, letters⟩ where
  between := .refl _
  begins := begins_nil
  position := hposition
  unsupported := fun _ => .inl ⟨rfl, hmethod⟩

theorem exists_breaks_of_token {x : Char} (h : token offset x rest = .error fault) :
    ∃ begun d, Breaks fault ⟨offset, x :: rest⟩ begun d := by
  rw [token] at h
  split at h
  · contradiction
  split at h
  · contradiction
  split at h
  · next hx =>
    subst hx
    exact exists_breaks_of_membership h
  split at h
  · obtain ⟨-, rfl⟩ := keyword_eq_error.1 h
    exact ⟨[], _, .at_start rfl (by simp)⟩
  split at h
  all_goals
    obtain rfl := Except.error.inj h
    exact ⟨[], _, .at_start rfl (by simp)⟩

namespace Breaks

variable {c : Cursor} {begun : List Char}

theorem offset_le (h : Breaks fault c begun d) : c.offset ≤ fault.position := by
  rw [h.position, h.between.offset]
  exact Nat.le_add_right _ _

theorem position_eq (h : Breaks fault c begun d) (hkind : fault.kind = .unsupported)
    (hmethod : ∀ method, fault.fault ≠ .unsupportedMethod method) : fault.position = c.offset := by
  rcases h.unsupported hkind with ⟨rfl, -⟩ | ⟨-, hfault⟩
  · exact h.position.trans h.between.offset
  · exact absurd hfault (hmethod _)

theorem exists_method {method : String} (h : Breaks fault c begun d) (hmethod : fault.fault = .unsupportedMethod method) :
    ∃ left, c.rest = "#user.".toList ++ (method.toList ++ left) ∧ (∀ y ∈ left.head?, isWordChar y = false) ∧
      fault.position = c.offset + "#user.".utf8ByteSize := by
  have hkind : fault.kind = .unsupported := congrArg Fault.kind hmethod
  rcases h.unsupported hkind with ⟨-, hnone⟩ | ⟨rfl, hfault⟩
  · exact absurd hmethod (hnone method)
  · obtain rfl : d.word = method := Fault.unsupportedMethod.inj (hfault.symm.trans hmethod)
    refine ⟨(d.drop isWordChar).rest, ?_, head?_drop isWordChar d, ?_⟩
    · rw [← (between_of_word rfl).rest]
      exact h.between.rest
    · rw [h.position, h.between.offset, Text.byteSize_toList]

end Breaks

end Cursor

theorem Begins.exists_tokens {cut : Cut} (hcut : cut.Sound) {begun : List Char} (h : Begins begun) :
    ∃ more ts, tokens (String.ofList (cut.text ++ begun) ++ more) = .ok ts := by
  obtain ⟨group, more, hspelt⟩ := h
  have hparted : Parted cut.text (begun ++ more) := by
    apply parted_of_head?
    intro x hx
    generalize begun ++ more = letters at hspelt hx
    cases hspelt
    cases hx
    rfl
  have hsingle : Cut.Sound (.next [] (begun ++ more) (.member group) (.done [])) :=
    ⟨by simp, hspelt, Symbol.endsBefore_of_not_isKeyword rfl _, by simp [Cut.Sound]⟩
  have hmember : tokensFrom ⟨0 + byteSize cut.text, begun ++ more⟩ = .ok [⟨.member group, 0 + byteSize cut.text⟩] := by
    simpa [Cut.text, Cut.tokens] using hsingle.tokensFrom (0 + byteSize cut.text)
  refine ⟨String.ofList more, cut.tokens 0 ++ [⟨.member group, 0 + byteSize cut.text⟩], ?_⟩
  rw [tokens, String.toList_append, String.toList_ofList, String.toList_ofList, List.append_assoc,
    hcut.tokensFrom_append hparted, hmember]
  rfl

theorem exists_breaks_of_tokens {text : String} {fault : Error} (h : tokens text = .error fault) :
    ∃ (cut : Cut) (begun : List Char) (x : Char) (rest : List Char) (d : Cursor), cut.Sound ∧
      Between cut.text ⟨0, text.toList⟩ ⟨byteSize cut.text, x :: rest⟩ ∧ isBlank x = false ∧
      Cursor.token (byteSize cut.text) x rest = .error fault ∧
      Cursor.Breaks fault ⟨byteSize cut.text, x :: rest⟩ begun d := by
  obtain ⟨cut, c, hcut, hbetween, ⟨-, hok⟩ | ⟨x, rest, fault', hrest, hblank, htoken, herror⟩⟩ :=
    exists_cut ⟨0, text.toList⟩
  · rw [tokens, hok] at h
    contradiction
  · obtain rfl := Except.error.inj (herror.symm.trans h)
    obtain ⟨offset, _⟩ := c
    obtain rfl : offset = byteSize cut.text := hbetween.offset.trans (Nat.zero_add _)
    obtain rfl : _ = x :: rest := hrest
    obtain ⟨begun, d, hbreaks⟩ := Cursor.exists_breaks_of_token htoken
    exact ⟨cut, begun, x, rest, d, hcut, hbetween, hblank, htoken, hbreaks⟩

theorem parse_eq_error_of_tokens {text : String} {fault : Error} (h : tokens text = .error fault) :
    parse text = .error fault := by
  rw [parse, h]
  rfl

/--
A text without tokens has its fault at the end of a front of it that some text with tokens begins with. The fault is
that of a token behind other tokens. If it is unsupported, it is at the beginning of that token, or at the name of a
method in it. Neither reading an expression nor evaluating it has another fault.
-/
theorem tokens_error {text : String} {fault : Error} (h : tokens text = .error fault) :
    (∃ before after more ts, text = before ++ after ∧ before.utf8ByteSize = fault.position ∧
      tokens (before ++ more) = .ok ts) ∧
    (∃ front x rest ts, text = front ++ String.ofList (x :: rest) ∧ tokens front = .ok ts ∧ isBlank x = false ∧
      Cursor.token front.utf8ByteSize x rest = .error fault ∧ front.utf8ByteSize ≤ fault.position ∧
      (fault.kind = .unsupported → (∀ method, fault.fault ≠ .unsupportedMethod method) →
        fault.position = front.utf8ByteSize) ∧
      (∀ method, fault.fault = .unsupportedMethod method → ∃ left,
        x :: rest = "#user.".toList ++ (method.toList ++ left) ∧ (∀ y ∈ left.head?, isWordChar y = false) ∧
        fault.position = front.utf8ByteSize + "#user.".utf8ByteSize)) ∧
    parse text = .error fault ∧ ∀ groups, evaluateText groups text = .error fault := by
  obtain ⟨cut, begun, x, rest, d, hcut, hbetween, hblank, htoken, hbreaks⟩ := exists_breaks_of_tokens h
  have hparse := parse_eq_error_of_tokens h
  refine ⟨?_, ⟨String.ofList cut.text, x, rest, cut.tokens 0, ?_, ?_, hblank, ?_⟩, hparse, fun groups => ?_⟩
  · obtain ⟨more, ts, htokens⟩ := hbreaks.begins.exists_tokens hcut
    refine ⟨String.ofList (cut.text ++ begun), String.ofList d.rest, more, ts, ?_, ?_, htokens⟩
    · rw [← String.ofList_append, ← (hbetween.trans hbreaks.between).rest, String.ofList_toList]
    · rw [Text.byteSize_ofList, Text.byteSize_append, hbreaks.position, hbreaks.between.offset]
  · rw [← String.ofList_append, ← hbetween.rest, String.ofList_toList]
  · rw [tokens, String.toList_ofList]
    exact hcut.tokensFrom 0
  · rw [Text.byteSize_ofList]
    exact ⟨htoken, hbreaks.offset_le, hbreaks.position_eq, fun _ => hbreaks.exists_method⟩
  · rw [evaluateText, hparse]
    rfl

theorem tokens_error_method :
    let text := "and #user.contains('é') #user.includes('a')"
    ∃ fault, parse text = .error fault ∧ fault.kind = .unsupported ∧ fault.position = 31 ∧
      ∃ before after more ts, text = before ++ after ∧ before.utf8ByteSize = 31 ∧ tokens (before ++ more) = .ok ts := by
  intro text
  have hfault : tokens text = .error ⟨.unsupportedMethod "includes", 31⟩ :=
    Outcome.eq_error_of_fault? (by decide +kernel)
  obtain ⟨hmore, -, hparse, -⟩ := tokens_error hfault
  exact ⟨_, hparse, rfl, rfl, hmore⟩

end Groupwise.Expr
