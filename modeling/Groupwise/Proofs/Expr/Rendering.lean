import Groupwise.Proofs.Expr.Connective
import Groupwise.Proofs.Expr.Cut
import Groupwise.Proofs.Expr.Tested

namespace Groupwise.Expr

open Text (byteSize)

theorem text_join (c : Connective) (left right : Expr) :
    (c.join left right).text = '(' :: (left.text ++ (c.word ++ (right.text ++ [')']))) := by
  cases c <;> simp only [Connective.join, Connective.word, text, List.append_assoc, List.cons_append]

theorem byteSize_text_not (operand : Expr) : byteSize (text (.not operand)) = 4 + byteSize operand.text := by
  rw [text, Text.byteSize_append]
  rfl

theorem byteSize_text_join (c : Connective) (left right : Expr) :
    byteSize (c.join left right).text = 1 + byteSize left.text + byteSize c.word + byteSize right.text + 1 := by
  have hopen : '('.utf8Size = 1 := rfl
  have hclose : byteSize [')'] = 1 := rfl
  simp only [text_join, Text.byteSize_append, Text.byteSize_cons, hopen, hclose, Nat.add_assoc]

def height : Expr → Nat
  | .member _ => 0
  | .not operand => operand.height + 1
  | .and left right | .or left right => max left.height right.height + 1

theorem height_join (c : Connective) (left right : Expr) :
    (c.join left right).height = max left.height right.height + 1 := by
  cases c <;> rfl

def AllNamed : Expr → Prop
  | .member group => Named group
  | .not operand => operand.AllNamed
  | .and left right | .or left right => left.AllNamed ∧ right.AllNamed

theorem allNamed_join {c : Connective} {left right : Expr} :
    (c.join left right).AllNamed ↔ left.AllNamed ∧ right.AllNamed := by
  cases c <;> rfl

def derivation (offset : Nat) : Expr → UnaryTree
  | .member group => .primary (.member offset group)
  | .not operand => .not offset (operand.derivation (offset + 4))
  | .and left right =>
    let middle := offset + 1 + byteSize left.text
    .primary (.group offset (middle + 5 + byteSize right.text)
      (.chain (.chain (left.derivation (offset + 1)) (.cons (middle + 1) (right.derivation (middle + 5)) .nil)) .nil))
  | .or left right =>
    let middle := offset + 1 + byteSize left.text
    .primary (.group offset (middle + 4 + byteSize right.text)
      (.chain (.chain (left.derivation (offset + 1)) .nil)
        (.cons (middle + 1) (.chain (right.derivation (middle + 4)) .nil) .nil)))

theorem expr_derivation (offset : Nat) (e : Expr) : (e.derivation offset).expr = e := by
  induction e generalizing offset with
  | member group => rfl
  | not operand ih => simp only [derivation, UnaryTree.expr, ih]
  | and left right ihl ihr | or left right ihl ihr =>
      simp only [derivation, UnaryTree.expr, PrimaryTree.expr, OrTree.expr, OrTail.expr, AndTree.expr, AndTail.expr,
        ihl, ihr]

theorem places_derivation_join (c : Connective) (around offset : Nat) (left right : Expr) :
    ((c.join left right).derivation offset).places around =
      ⟨⟨.open, offset⟩, around⟩ :: ((left.derivation (offset + 1)).places (around + 1) ++
        ⟨⟨c.symbol, offset + 1 + byteSize left.text + 1⟩, around + 1⟩ ::
        ((right.derivation (offset + 1 + byteSize left.text + byteSize c.word)).places (around + 1) ++
        [⟨⟨.close, offset + 1 + byteSize left.text + byteSize c.word + byteSize right.text⟩, around⟩])) := by
  have hand : byteSize " and ".toList = 5 := rfl
  have hor : byteSize " or ".toList = 4 := rfl
  cases c <;> simp only [Connective.join, Connective.symbol, Connective.word, hand, hor, derivation, UnaryTree.places,
    PrimaryTree.places, OrTree.places, OrTail.places, AndTree.places, AndTail.places, List.append_assoc,
    List.cons_append, List.append_nil]

theorem tokensFrom_text {e : Expr} (h : e.AllNamed) (around offset : Nat) (rest : List Char) :
    tokensFrom ⟨offset, e.text ++ rest⟩ =
      (tokensOf ((e.derivation offset).places around) ++ ·) <$> tokensFrom ⟨offset + byteSize e.text, rest⟩ := by
  induction e using Connective.induction generalizing around offset rest with
  | member group => exact tokensFrom_member h offset rest
  | not operand ih =>
      rw [byteSize_text_not, text, List.append_assoc, tokensFrom_not, ih h (around + 1), Functor.map_map,
        Nat.add_assoc]
      rfl
  | join c left right ihl ihr =>
      obtain ⟨hleft, hright⟩ := allNamed_join.1 h
      rw [byteSize_text_join, places_derivation_join, text_join]
      simp only [List.append_assoc, List.cons_append, List.nil_append]
      rw [tokensFrom_open, ihl hleft (around + 1), c.tokensFrom_word, ihr hright (around + 1), tokensFrom_close]
      simp only [Functor.map_map, tokensOf_cons, tokensOf_append, tokensOf_nil, List.append_assoc, List.cons_append,
        List.nil_append, Nat.add_assoc]

theorem find_overdeep_cons_of_opens {token : Token} (h : token.symbol.opens = true) (around : Nat)
    (places : List Place) :
    List.find? Place.overdeep (⟨token, around⟩ :: places) =
      if around < maxDepth then places.find? Place.overdeep else some ⟨token, around⟩ := by
  by_cases hdepth : around < maxDepth
  · rw [if_pos hdepth, List.find?_cons_of_neg (by simp [Place.overdeep, hdepth])]
  · rw [if_neg hdepth, List.find?_cons_of_pos (by simpa [Place.overdeep, h] using hdepth)]

theorem find_overdeep_cons_of_not_opens {token : Token} (h : token.symbol.opens = false) (around : Nat)
    (places : List Place) :
    List.find? Place.overdeep (⟨token, around⟩ :: places) = places.find? Place.overdeep :=
  List.find?_cons_of_neg (by simp [Place.overdeep, h])

theorem find_overdeep_join (c : Connective) (around offset : Nat) (left right : Expr) :
    (((c.join left right).derivation offset).places around).find? Place.overdeep =
      if around < maxDepth then
        (((left.derivation (offset + 1)).places (around + 1)).find? Place.overdeep).or
          (((right.derivation (offset + 1 + byteSize left.text + byteSize c.word)).places (around + 1)).find?
            Place.overdeep)
      else some ⟨⟨.open, offset⟩, around⟩ := by
  rw [places_derivation_join, find_overdeep_cons_of_opens rfl, List.find?_append,
    find_overdeep_cons_of_not_opens c.opens_symbol, List.find?_append, find_overdeep_cons_of_not_opens rfl,
    List.find?_nil, Option.or_none]

theorem find_overdeep_eq_none {around : Nat} (h : around ≤ maxDepth) (offset : Nat) (e : Expr) :
    ((e.derivation offset).places around).find? Place.overdeep = none ↔ around + e.height ≤ maxDepth := by
  induction e using Connective.induction generalizing around offset with
  | member group =>
      rw [derivation, UnaryTree.places, PrimaryTree.places, find_overdeep_cons_of_not_opens rfl, height]
      simpa using h
  | not operand ih =>
      rw [derivation, UnaryTree.places, find_overdeep_cons_of_opens rfl, height]
      by_cases hdepth : around < maxDepth
      · rw [if_pos hdepth, ih hdepth]
        omega
      · simp only [if_neg hdepth, reduceCtorEq, false_iff]
        omega
  | join c left right ihl ihr =>
      rw [find_overdeep_join, height_join]
      by_cases hdepth : around < maxDepth
      · rw [if_pos hdepth, Option.or_eq_none_iff, ihl hdepth, ihr hdepth]
        omega
      · simp only [if_neg hdepth, reduceCtorEq, false_iff]
        omega

/-- The first token that is nested too deeply stands in as many groups and negations as there may be. -/
theorem around_of_find_overdeep {around : Nat} (h : around ≤ maxDepth) (offset : Nat) (e : Expr) {place : Place}
    (hfind : ((e.derivation offset).places around).find? Place.overdeep = some place) :
    place.around = maxDepth := by
  induction e using Connective.induction generalizing around offset with
  | member group =>
      rw [derivation, UnaryTree.places, PrimaryTree.places, find_overdeep_cons_of_not_opens rfl] at hfind
      contradiction
  | not operand ih =>
      rw [derivation, UnaryTree.places, find_overdeep_cons_of_opens rfl] at hfind
      split at hfind
      · next hdepth => exact ih hdepth _ hfind
      · obtain rfl := Option.some.inj hfind
        simp only
        omega
  | join c left right ihl ihr =>
      rw [find_overdeep_join] at hfind
      split at hfind
      · next hdepth =>
        rcases Option.or_eq_some_iff.1 hfind with hleft | ⟨-, hright⟩
        · exact ihl hdepth _ hleft
        · exact ihr hdepth _ hright
      · obtain rfl := Option.some.inj hfind
        simp only
        omega

def wholeDerivation (e : Expr) : OrTree := .chain (.chain (e.derivation 0) .nil) .nil

theorem places_wholeDerivation (e : Expr) : e.wholeDerivation.places 0 = (e.derivation 0).places 0 := by
  simp only [wholeDerivation, OrTree.places, OrTail.places, AndTree.places, AndTail.places, List.append_nil]

theorem tokens_toText {e : Expr} (h : e.AllNamed) : tokens e.toText = .ok (tokensOf (e.wholeDerivation.places 0)) := by
  have htext := tokensFrom_text h 0 0 []
  rw [tokensFrom_nil, List.append_nil] at htext
  rw [tokens, toText, String.toList_ofList, htext, places_wholeDerivation]
  simp

theorem parse_toText_of_height_le {e : Expr} (h : e.AllNamed) (hheight : e.height ≤ maxDepth) :
    parse e.toText = .ok e := by
  have hshallow : ∀ place ∈ e.wholeDerivation.places 0, place.overdeep = false := by
    have hfind := (find_overdeep_eq_none (Nat.zero_le _) 0 e).2 (by rwa [Nat.zero_add])
    rw [places_wholeDerivation]
    simpa using hfind
  rw [parse_of_shallow (tokens_toText h) hshallow]
  exact congrArg Except.ok (expr_derivation 0 e)

theorem exists_of_height_gt {e : Expr} (h : e.AllNamed) (hheight : maxDepth < e.height) :
    ∃ place before after, e.wholeDerivation.places 0 = before ++ place :: after ∧
      place.token.symbol.opens = true ∧ place.around = maxDepth ∧ (∀ other ∈ before, other.overdeep = false) ∧
      parse e.toText = .error ⟨.tooDeep, place.token.position⟩ := by
  have hne : ((e.derivation 0).places 0).find? Place.overdeep ≠ none := by
    rw [Ne, find_overdeep_eq_none (Nat.zero_le _), Nat.zero_add]
    omega
  obtain ⟨place, hfind⟩ := Option.ne_none_iff_exists'.1 hne
  have hmax := around_of_find_overdeep (Nat.zero_le _) 0 e hfind
  rw [← places_wholeDerivation] at hfind
  obtain ⟨hdeep, before, after, hplaces, hbefore⟩ := List.find?_eq_some_iff_append.1 hfind
  refine ⟨place, before, after, hplaces, ?_, hmax, ?_, parse_of_find_overdeep (tokens_toText h) hfind⟩
  · simp only [Place.overdeep, Bool.and_eq_true] at hdeep
    exact hdeep.1
  · intro other hother
    simpa using hbefore other hother

theorem allNamed_iff {e : Expr} : e.AllNamed ↔ ∀ group, e.Tests group → Named group := by
  induction e with
  | member group => simp [AllNamed, Tests]
  | not operand ih => exact ih
  | and left right ihleft ihright | or left right ihleft ihright =>
      simp only [AllNamed, Tests, ihleft, ihright, or_imp, forall_and]

theorem allNamed_of_parse {text : String} {e : Expr} (h : parse text = .ok e) : e.AllNamed := by
  obtain ⟨ts, htokens, htests⟩ := exists_tokens_of_parse h
  have hnamed := named_of_tokensFrom ⟨0, text.toList⟩ ts htokens
  apply allNamed_iff.2
  intro group hgroup
  obtain ⟨token, htoken, hsymbol⟩ := (htests group).1 hgroup
  exact hnamed token htoken group hsymbol

end Groupwise.Expr
