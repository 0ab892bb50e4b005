import Groupwise.Proofs.Number

namespace Groupwise.Json

/-- A text is read as some tokens, with anything behind it that does not go on a number. -/
def Spells (text : List Char) (ts : List Token) : Prop := ∀ rest, Ends rest → tokens (text ++ rest) = ts ++ tokens rest

def arrayTokens (items : List (List Token)) : List Token :=
  .openArray :: [Token.comma].intercalate items ++ [.closeArray]

def objectTokens (members : List (String × List Token)) : List Token :=
  .openObject :: [Token.comma].intercalate (members.map fun member => .string member.1 :: .colon :: member.2) ++
    [.closeObject]

mutual
def tokensOf : Tree → List Token
  | .null => [.null]
  | .bool b => [.bool b]
  | .number n => [.number n.literal]
  | .string s => [.string s]
  | .array items => arrayTokens (itemTokens items)
  | .object members => objectTokens (memberTokens members)

def itemTokens : List Tree → List (List Token)
  | [] => []
  | t :: rest => tokensOf t :: itemTokens rest

def memberTokens : List (String × Tree) → List (String × List Token)
  | [] => []
  | (key, t) :: rest => (key, tokensOf t) :: memberTokens rest
end

theorem itemTokens_eq (items : List Tree) : itemTokens items = items.map tokensOf := by
  induction items with
  | nil => rfl
  | cons t items ih => rw [itemTokens, ih, List.map_cons]

theorem memberTokens_eq (members : List (String × Tree)) :
    memberTokens members = members.map fun member => (member.1, tokensOf member.2) := by
  induction members with
  | nil => rfl
  | cons member members ih => rw [memberTokens, ih, List.map_cons]

theorem compactItems_eq (items : List Tree) : compactItems items = [','].intercalate (items.map compact) := by
  induction items with
  | nil => rfl
  | cons t items ih =>
      cases items with
      | nil => simp [compactItems]
      | cons next items =>
          rw [compactItems, ih, List.map_cons, List.map_cons, List.map_cons, List.intercalate_cons_cons,
            List.append_assoc, List.singleton_append]
          simp

theorem compactMembers_eq (members : List (String × Tree)) :
    compactMembers members =
      [','].intercalate (members.map fun member => stringText member.1 ++ ':' :: compact member.2) := by
  induction members with
  | nil => rfl
  | cons member members ih =>
      cases members with
      | nil => simp [compactMembers]
      | cons next members =>
          rw [compactMembers, ih, List.map_cons, List.map_cons, List.map_cons, List.intercalate_cons_cons,
            List.append_assoc, List.append_assoc, List.singleton_append] <;>
            simp

theorem compact_array (items : List Tree) : compact (.array items) = arrayText (items.map compact) := by
  rw [compact, compactItems_eq, arrayText]

theorem compact_object (members : List (String × Tree)) :
    compact (.object members) = objectText (members.map fun member => (member.1, compact member.2)) := by
  rw [compact, compactMembers_eq, objectText, List.map_map]
  rfl

theorem ends_nil : Ends [] := by
  intro c hc
  contradiction

theorem ends_cons {c : Char} (h : c ∈ [',', ']', '\x7d', '\n']) (rest : List Char) : Ends (c :: rest) := by
  intro d hd
  obtain rfl := Option.some.inj hd
  simp only [List.mem_cons, List.not_mem_nil, or_false] at h
  rcases h with rfl | rfl | rfl | rfl <;> decide

theorem ends_newline (depth : Nat) (rest : List Char) : Ends (newline depth ++ rest) := ends_cons (by decide) _

theorem tokens_space {c : Char} (h : isSpace c = true) (rest : List Char) : tokens (c :: rest) = tokens rest := by
  rw [tokens, if_pos h]

theorem tokens_newline (depth : Nat) (rest : List Char) : tokens (newline depth ++ rest) = tokens rest := by
  rw [newline, List.cons_append, tokens_space (by decide)]
  induction 2 * depth with
  | zero => rfl
  | succ n ih => rw [List.replicate_succ, List.cons_append, tokens_space (by decide), ih]

theorem Spells.after_newline {text : List Char} {ts : List Token} (h : Spells text ts) (depth : Nat) :
    Spells (newline depth ++ text) ts := by
  intro rest hrest
  rw [List.append_assoc, tokens_newline, h rest hrest]

theorem tokens_comma (rest : List Char) : tokens (',' :: rest) = .comma :: tokens rest := tokens_cons (by decide) rfl

theorem tokens_colon (rest : List Char) : tokens (':' :: rest) = .colon :: tokens rest := tokens_cons (by decide) rfl

theorem spells_nil : Spells [] [] := fun _ _ => rfl

theorem spells_null : Spells nullText [.null] := fun _ _ => tokens_cons (by decide) rfl

theorem spells_bool (b : Bool) : Spells (boolText b) [.bool b] := by
  intro rest _
  cases b with
  | true => exact tokens_cons (by decide) rfl
  | false => exact tokens_cons (by decide) rfl

theorem spells_string (s : String) : Spells (stringText s) [.string s] := fun rest _ => tokens_stringText s rest

theorem spells_number (n : Number) : Spells n.text [.number n.literal] := by
  intro rest h
  rw [Number.text_eq]
  exact tokens_literal n.wellFormed_literal h

theorem spells_member (key : String) {text : List Char} {ts : List Token} (h : Spells text ts) :
    Spells (stringText key ++ ':' :: text) (.string key :: .colon :: ts) := by
  intro rest hrest
  rw [List.append_assoc, tokens_stringText, List.cons_append, tokens_colon, h rest hrest]
  rfl

section

variable {γ : Type} {text : γ → List Char} {toks : γ → List Token} {key : γ → String} {all : List γ}

theorem spells_intercalate (h : ∀ x ∈ all, Spells (text x) (toks x)) :
    Spells ([','].intercalate (all.map text)) ([Token.comma].intercalate (all.map toks)) := by
  induction all with
  | nil => exact fun _ _ => rfl
  | cons x all ih =>
      obtain ⟨hx, hall⟩ := List.forall_mem_cons.1 h
      cases all with
      | nil => simpa using hx
      | cons next all =>
          intro rest hrest
          simp only [List.map_cons, List.intercalate_cons_cons, List.append_assoc, List.cons_append]
          rw [hx _ (ends_cons (by decide) _), tokens_comma]
          exact congrArg (toks x ++ .comma :: ·) (ih hall rest hrest)

theorem spells_enclosed {opening closing : Char} {first last : Token} {inner gap : List Char} {ts : List Token}
    (hopen : ∀ s, tokens (opening :: s) = first :: tokens s) (hclose : ∀ s, tokens (closing :: s) = last :: tokens s)
    (hends : closing ∈ [',', ']', '\x7d', '\n']) (hgap : gap = [] ∨ ∃ depth, gap = newline depth)
    (h : Spells inner ts) : Spells (opening :: inner ++ gap ++ [closing]) (first :: ts ++ [last]) := by
  intro rest _
  simp only [List.cons_append, List.append_assoc, List.nil_append]
  rcases hgap with rfl | ⟨depth, rfl⟩
  · rw [hopen, List.nil_append, h _ (ends_cons hends _), hclose]
  · rw [hopen, h _ (ends_newline depth _), tokens_newline, hclose]

theorem spells_brackets {inner gap : List Char} {ts : List Token} (hgap : gap = [] ∨ ∃ depth, gap = newline depth)
    (h : Spells inner ts) : Spells ('[' :: inner ++ gap ++ [']']) (.openArray :: ts ++ [.closeArray]) :=
  spells_enclosed (fun _ => tokens_cons (by decide) rfl) (fun _ => tokens_cons (by decide) rfl) (by decide) hgap h

theorem spells_braces {inner gap : List Char} {ts : List Token} (hgap : gap = [] ∨ ∃ depth, gap = newline depth)
    (h : Spells inner ts) : Spells ('\x7b' :: inner ++ gap ++ ['\x7d']) (.openObject :: ts ++ [.closeObject]) :=
  spells_enclosed (fun _ => tokens_cons (by decide) rfl) (fun _ => tokens_cons (by decide) rfl) (by decide) hgap h

theorem spells_array (h : ∀ x ∈ all, Spells (text x) (toks x)) :
    Spells (arrayText (all.map text)) (arrayTokens (all.map toks)) := by
  have hbrackets := spells_brackets (.inl rfl) (spells_intercalate h)
  rwa [List.append_nil] at hbrackets

theorem spells_object (h : ∀ x ∈ all, Spells (text x) (toks x)) :
    Spells (objectText (all.map fun x => (key x, text x))) (objectTokens (all.map fun x => (key x, toks x))) := by
  have hmembers := spells_braces (.inl rfl) (spells_intercalate fun x hx => spells_member (key x) (h x hx))
  rw [List.append_nil] at hmembers
  simpa only [objectText, objectTokens, List.map_map, Function.comp_def] using hmembers

end

mutual
theorem spells_compact (t : Tree) : Spells (compact t) (tokensOf t) := by
  cases t with
  | null => exact spells_null
  | bool b => exact spells_bool b
  | number n => exact spells_number n
  | string s => exact spells_string s
  | array items =>
      rw [compact_array, tokensOf, itemTokens_eq]
      exact spells_array (spells_items items)
  | object members =>
      rw [compact_object, tokensOf, memberTokens_eq]
      exact spells_object (spells_members members)
termination_by structural t

theorem spells_items (items : List Tree) : ∀ t ∈ items, Spells (compact t) (tokensOf t) := by
  cases items with
  | nil => simp
  | cons t items => exact List.forall_mem_cons.2 ⟨spells_compact t, spells_items items⟩
termination_by structural items

theorem spells_members (members : List (String × Tree)) :
    ∀ member ∈ members, Spells (compact member.2) (tokensOf member.2) := by
  cases members with
  | nil => simp
  | cons member members =>
      obtain ⟨key, t⟩ := member
      exact List.forall_mem_cons.2 ⟨spells_compact t, spells_members members⟩
termination_by structural members
end

theorem prettyItems_eq (depth : Nat) (items : List Tree) :
    prettyItems depth items = [','].intercalate (items.map fun t => newline depth ++ pretty depth t) := by
  induction items with
  | nil => rfl
  | cons t items ih =>
      cases items with
      | nil => simp [prettyItems]
      | cons next items =>
          rw [prettyItems, ih, List.map_cons, List.map_cons, List.map_cons, List.intercalate_cons_cons]
          · simp
          · simp

theorem prettyMembers_eq (depth : Nat) (members : List (String × Tree)) :
    prettyMembers depth members = [','].intercalate
      (members.map fun member => newline depth ++ (stringText member.1 ++ ':' :: ' ' :: pretty depth member.2)) := by
  induction members with
  | nil => rfl
  | cons member members ih =>
      cases members with
      | nil => simp [prettyMembers]
      | cons next members =>
          rw [prettyMembers, ih, List.map_cons, List.map_cons, List.map_cons, List.intercalate_cons_cons]
          · simp
          · simp

theorem pretty_array {items : List Tree} (h : items ≠ []) (depth : Nat) :
    pretty depth (.array items) = '[' :: prettyItems (depth + 1) items ++ newline depth ++ [']'] := by
  obtain ⟨t, items, rfl⟩ := List.exists_cons_of_ne_nil h
  rw [pretty]
  simp

theorem pretty_object {members : List (String × Tree)} (h : members ≠ []) (depth : Nat) :
    pretty depth (.object members) = '\x7b' :: prettyMembers (depth + 1) members ++ newline depth ++ ['\x7d'] := by
  obtain ⟨member, members, rfl⟩ := List.exists_cons_of_ne_nil h
  rw [pretty]
  simp

mutual
theorem spells_pretty (depth : Nat) (t : Tree) : Spells (pretty depth t) (tokensOf t) := by
  cases t with
  | null => exact spells_null
  | bool b => exact spells_bool b
  | number n => exact spells_number n
  | string s => exact spells_string s
  | array items =>
      rw [tokensOf, itemTokens_eq]
      -- Brackets with nothing inside of them have no line of their own.
      by_cases hempty : items = []
      · subst hempty
        have hbrackets := spells_brackets (.inl rfl) spells_nil
        exact hbrackets
      · have hitems := spells_intercalate (spells_prettyItems (depth + 1) items)
        rw [pretty_array hempty, prettyItems_eq]
        exact spells_brackets (.inr ⟨depth, rfl⟩) hitems
  | object members =>
      rw [tokensOf, memberTokens_eq]
      by_cases hempty : members = []
      · subst hempty
        have hbraces := spells_braces (.inl rfl) spells_nil
        exact hbraces
      · have hmembers := spells_intercalate (spells_prettyMembers (depth + 1) members)
        rw [pretty_object hempty, prettyMembers_eq]
        have hbraces := spells_braces (.inr ⟨depth, rfl⟩) hmembers
        simpa only [objectTokens, List.map_map, Function.comp_def] using hbraces
termination_by structural t

theorem spells_prettyItems (depth : Nat) (items : List Tree) :
    ∀ t ∈ items, Spells (newline depth ++ pretty depth t) (tokensOf t) := by
  cases items with
  | nil => simp
  | cons t items =>
      exact List.forall_mem_cons.2 ⟨(spells_pretty depth t).after_newline depth, spells_prettyItems depth items⟩
termination_by structural items

theorem spells_prettyMembers (depth : Nat) (members : List (String × Tree)) :
    ∀ member ∈ members, Spells (newline depth ++ (stringText member.1 ++ ':' :: ' ' :: pretty depth member.2))
      (.string member.1 :: .colon :: tokensOf member.2) := by
  cases members with
  | nil => simp
  | cons member members =>
      obtain ⟨key, t⟩ := member
      have hvalue : Spells (' ' :: pretty depth t) (tokensOf t) := fun rest hrest =>
        (tokens_space (by decide) _).trans (spells_pretty depth t rest hrest)
      exact List.forall_mem_cons.2 ⟨(spells_member key hvalue).after_newline depth, spells_prettyMembers depth members⟩
termination_by structural members
end

/-- Both layouts of a tree are read as the same tokens. -/
theorem spells_layout (layout : Layout) (t : Tree) : Spells (layout.text t) (tokensOf t) := by
  cases layout with
  | compact => exact spells_compact t
  | pretty => exact spells_pretty 0 t

end Groupwise.Json
