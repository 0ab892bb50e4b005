import Groupwise.Proofs.Json.Reader

namespace Groupwise.Json

/-- Tokens of a value, behind which passing goes on in the brackets that were open before it. -/
def Passed (ts : List Token) : Prop := ∀ brackets rest, skipValue brackets (ts ++ rest) = skipOn brackets rest

theorem skipValue_items {tss : List (List Token)} (hne : tss ≠ []) (h : ∀ ts ∈ tss, Passed ts) (outer : List Bracket)
    (rest : List Token) :
    skipValue (.array :: outer) ([Token.comma].intercalate tss ++ .closeArray :: rest) = skipOn outer rest := by
  induction tss with
  | nil => exact absurd rfl hne
  | cons ts tss ih =>
      obtain ⟨hts, htss⟩ := List.forall_mem_cons.1 h
      by_cases hlast : tss = []
      · subst hlast
        rw [List.intercalate_singleton, hts, skipOn]
      · have hmore := ih hlast htss
        rw [List.intercalate_cons_of_ne_nil hlast, List.append_assoc, List.append_assoc, hts, List.singleton_append,
          skipOn]
        exact hmore

theorem passed_array {tss : List (List Token)} (hstart : ∀ ts ∈ tss, StartsItem ts) (h : ∀ ts ∈ tss, Passed ts) :
    Passed (arrayTokens tss) := by
  intro brackets rest
  rw [arrayTokens_append]
  by_cases hempty : tss = []
  · subst hempty
    rw [List.intercalate_nil, List.nil_append, skipValue]
  · have hitems := skipValue_items hempty h brackets rest
    obtain ⟨t, s, ht, hs⟩ := exists_intercalate_of_starts hempty hstart
    rw [hs, List.cons_append] at hitems ⊢
    rw [skipValue]
    · exact hitems
    · rintro rest' ⟨⟩
      exact ht rfl
    · rintro ⟨⟩

theorem skipMember_members {parts : List (String × List Token)} (hne : parts ≠ []) (h : ∀ part ∈ parts, Passed part.2)
    (outer : List Bracket) (rest : List Token) :
    skipMember outer (membersTokens parts ++ .closeObject :: rest) = skipOn outer rest := by
  induction parts with
  | nil => exact absurd rfl hne
  | cons part parts ih =>
      obtain ⟨hpart, hparts⟩ := List.forall_mem_cons.1 h
      by_cases hlast : parts = []
      · subst hlast
        rw [membersTokens, List.map_singleton, List.intercalate_singleton, List.cons_append, List.cons_append, skipMember,
          hpart, skipOn]
      · rw [membersTokens_cons hlast, List.cons_append, List.cons_append, List.append_assoc, skipMember, hpart,
          List.cons_append, skipOn]
        exact ih hlast hparts

theorem passed_object {parts : List (String × List Token)} (h : ∀ part ∈ parts, Passed part.2) :
    Passed (objectTokens parts) := by
  intro brackets rest
  rw [objectTokens_append]
  by_cases hempty : parts = []
  · subst hempty
    rw [membersTokens, List.map_nil, List.intercalate_nil, List.nil_append, skipValue]
  · have hmembers := skipMember_members hempty h brackets rest
    obtain ⟨key, s, hs⟩ := exists_membersTokens hempty
    rw [hs, List.cons_append] at hmembers ⊢
    rw [skipValue]
    · exact hmembers
    · rintro rest' ⟨⟩

mutual
theorem passed_tokensOf (t : Tree) : Passed (tokensOf t) := by
  cases t with
  | null | bool | number | string =>
      intro brackets rest
      rw [tokensOf, List.singleton_append, skipValue]
  | array items =>
      rw [tokensOf, itemTokens_eq]
      exact passed_array (starts_itemTokens items) (List.forall_mem_map.2 (passed_items items))
  | object members =>
      rw [tokensOf, memberTokens_eq]
      exact passed_object (List.forall_mem_map.2 (passed_members members))
termination_by structural t

theorem passed_items (items : List Tree) : ∀ t ∈ items, Passed (tokensOf t) := by
  cases items with
  | nil => simp
  | cons t items => exact List.forall_mem_cons.2 ⟨passed_tokensOf t, passed_items items⟩
termination_by structural items

theorem passed_members (members : List (String × Tree)) : ∀ member ∈ members, Passed (tokensOf member.2) := by
  cases members with
  | nil => simp
  | cons member members =>
      obtain ⟨key, t⟩ := member
      exact List.forall_mem_cons.2 ⟨passed_tokensOf t, passed_members members⟩
termination_by structural members
end

theorem reads_skip (t : Tree) : Reads skip (tokensOf t) () := by
  intro rest
  have hpass : skipValue [] (tokensOf t ++ rest) = .ok rest := by rw [passed_tokensOf t, skipOn]
  apply plain_eq_ok.2
  refine ⟨length_skipValue hpass, ?_⟩
  unfold skip
  split
  · next found hfound =>
      rw [hpass] at hfound
      obtain rfl := Except.ok.inj hfound
      rfl
  · next fault hfault =>
      rw [hpass] at hfault
      contradiction

end Groupwise.Json
