import Groupwise.Proofs.Json.Meaning
import Groupwise.Proofs.Json.Skip

namespace Groupwise.Json

variable {σ : Type} {fields : List (FieldReader σ)} {levels : Nat} {means : Members Tree → σ → Prop} {record : σ}

/-- What one more member adds to a record. If it is refused, no record has that member. -/
def Adds (means : Members Tree → σ → Prop) (before : Members Tree) (record : σ) (field : FieldReader σ) (t : Tree) :
    Prop :=
  (∃ update, Reads field.read (tokensOf t) update ∧ means (before ++ [(field.key, t)]) (update record)) ∨
    (∃ e, Refuses field.read (tokensOf t) e) ∧ ∀ after all, ¬ means (before ++ (field.key, t) :: after) all

/-- The meaning of members is built up by the fields, from the record of which no field was given. -/
structure Builds (levels : Nat) (fields : List (FieldReader σ)) (start : σ) (means : Members Tree → σ → Prop) : Prop where
  start : means [] start
  known : ∀ {before : Members Tree} {record : σ}, means before record → ∀ field ∈ fields, field.key ∉ before.keys →
    ∀ t : Tree, t.Distinct → t.nesting ≤ levels → Adds means before record field t
  unknown : ∀ {before : Members Tree} {record : σ}, means before record → ∀ key ∉ fields.map FieldReader.key,
    ∀ t : Tree, means (before ++ [(key, t)]) record

theorem field_of_find? {known : FieldReader σ} {key : String} {seen : List String}
    (hknown : fields.find? (·.key = key) = some known) (hseen : key ∉ seen) (record : σ) :
    field fields key (seen, record) = .ok (mapped (fun update => (key :: seen, update record)) known.read) := by
  simp only [field, hknown, if_neg hseen]

theorem field_of_unknown {key : String} (hunknown : key ∉ fields.map FieldReader.key) (seen : List String) (record : σ) :
    field fields key (seen, record) = .ok (mapped (fun () => (seen, record)) skip) := by
  have hfind : fields.find? (·.key = key) = none := by simpa using hunknown
  simp only [field, hfind]

theorem settles_member {start : σ} (h : Builds levels fields start means) {before : Members Tree} {seen : List String}
    (hseen : seen ⊆ before.keys) (hbefore : means before record) {key : String} (hfresh : key ∉ before.keys) {t : Tree}
    (ht : t.Distinct) (hlevels : t.nesting ≤ levels) :
    ∃ read, field fields key (seen, record) = .ok read ∧
      ((∃ state, Reads read (tokensOf t) state ∧ state.1 ⊆ Members.keys (before ++ [(key, t)]) ∧
          means (before ++ [(key, t)]) state.2) ∨
        (∃ e, Refuses read (tokensOf t) e) ∧ ∀ after all, ¬ means (before ++ (key, t) :: after) all) := by
  rw [Members.keys_append]
  by_cases hknown : key ∈ fields.map FieldReader.key
  · obtain ⟨known, hfind⟩ : ∃ known, fields.find? (·.key = key) = some known := by
      rw [← Option.isSome_iff_exists]
      simpa using hknown
    obtain rfl : known.key = key := by simpa only [decide_eq_true_eq] using List.find?_some hfind
    refine ⟨_, field_of_find? hfind (fun hmem => hfresh (hseen hmem)) record, ?_⟩
    rcases h.known hbefore known (List.mem_of_find?_eq_some hfind) hfresh t ht hlevels with
      ⟨update, hread, hmeans⟩ | ⟨⟨e, hrefuse⟩, hnone⟩
    · refine .inl ⟨_, reads_mapped _ hread, List.cons_subset.2 ⟨?_, ?_⟩, hmeans⟩
      · simp [Members.keys]
      · exact List.subset_append_of_subset_left _ hseen
    · exact .inr ⟨⟨e, refuses_mapped _ hrefuse⟩, hnone⟩
  · refine ⟨_, field_of_unknown hknown seen record, .inl ⟨_, reads_mapped _ (reads_skip t), ?_, ?_⟩⟩
    · exact List.subset_append_of_subset_left _ hseen
    · exact h.unknown hbefore key hknown t

theorem steps_or_stuck {start : σ} (h : Builds levels fields start means) {before after : Members Tree}
    {seen : List String} (hseen : seen ⊆ before.keys) (hbefore : means before record)
    (hkeys : (before ++ after).keys.Nodup) (hafter : ∀ entry ∈ after, entry.2.Distinct ∧ entry.2.nesting ≤ levels) :
    (∃ state, Steps (field fields) (seen, record) (memberTokens after) state ∧ means (before ++ after) state.2) ∨
      (∃ e, Stuck (field fields) e (seen, record) (memberTokens after)) ∧ ∀ all, ¬ means (before ++ after) all := by
  induction after generalizing before seen record with
  | nil => exact .inl ⟨(seen, record), .nil _, by simpa using hbefore⟩
  | cons entry after ih =>
      obtain ⟨key, t⟩ := entry
      obtain ⟨⟨ht, hlevels⟩, hmore⟩ := List.forall_mem_cons.1 hafter
      have hfresh : key ∉ before.keys := by
        rw [Members.keys_append, Members.keys_cons, List.nodup_middle, List.nodup_cons] at hkeys
        exact fun hmem => hkeys.1 (List.mem_append_left _ hmem)
      obtain ⟨read, hmember, hread | ⟨⟨e, hrefuse⟩, hnone⟩⟩ := settles_member h hseen hbefore hfresh ht hlevels
      -- What was read so far means something, which is what the members that are left go on from.
      · obtain ⟨⟨seen', next⟩, hread, hseen', hnext⟩ := hread
        rw [List.append_cons] at hkeys ⊢
        rcases ih hseen' hnext hkeys hmore with ⟨state, hsteps, hall⟩ | ⟨⟨e, hstuck⟩, hnone⟩
        · exact .inl ⟨state, .cons hmember hread hsteps, hall⟩
        · exact .inr ⟨⟨e, .later hmember hread hstuck⟩, hnone⟩
      · exact .inr ⟨⟨e, .here hmember hrefuse⟩, hnone after⟩

theorem intercalate_eq_flatMap (first : List Token) (others : List (List Token)) :
    [Token.comma].intercalate (first :: others) = first ++ others.flatMap (.comma :: ·) := by
  induction others generalizing first with
  | nil => simp
  | cons next others ih => rw [List.intercalate_cons_cons, ih, List.flatMap_cons, List.append_assoc]; simp

def moreTokens (items : List Tree) : List Token := items.flatMap (.comma :: tokensOf ·) ++ [.closeArray]

theorem moreTokens_cons (t : Tree) (items : List Tree) :
    moreTokens (t :: items) = .comma :: (tokensOf t ++ moreTokens items) := by
  rw [moreTokens, List.flatMap_cons, List.append_assoc, List.cons_append]
  rfl

theorem tokensOf_array_cons (t : Tree) (items : List Tree) :
    tokensOf (.array (t :: items)) = .openArray :: (tokensOf t ++ moreTokens items) := by
  rw [tokensOf, itemTokens_eq, arrayTokens, List.map_cons, intercalate_eq_flatMap, moreTokens, List.flatMap_map,
    List.cons_append, List.append_assoc]

theorem StartsItem.append {ts : List Token} (h : StartsItem ts) (rest : List Token) : StartsItem (ts ++ rest) := by
  obtain ⟨t, ts, rfl⟩ := List.exists_cons_of_ne_nil h.1
  exact ⟨by simp, h.2⟩

theorem values_first {ts : List Token} (h : StartsItem ts) (record : σ) (next : FieldReader σ)
    (fields : List (FieldReader σ)) :
    plain (values record true (next :: fields) ts) =
      plain (next.read ts) >>= fun r => plain (values (r.1 record) false fields r.2) := by
  obtain ⟨t, ts, rfl⟩ := List.exists_cons_of_ne_nil h.1
  have hvalues : values record true (next :: fields) (t :: ts) = next.read (t :: ts) >>= fun r =>
      values (r.1 record) false fields r.2.1 >>= fun all => .ok (all.1, ⟨all.2.1, Nat.lt_trans all.2.2 r.2.2⟩) := by
    cases t with
    | closeArray => exact absurd rfl h.2
    | _ => rfl
  rw [hvalues]
  cases next.read (t :: ts) with
  | error e => rfl
  | ok r =>
      show plain (values (r.1 record) false fields r.2.1 >>= _) = plain (values (r.1 record) false fields r.2.1)
      cases values (r.1 record) false fields r.2.1 <;> rfl

theorem values_comma {ts : List Token} (h : StartsItem ts) (record : σ) (next : FieldReader σ)
    (fields : List (FieldReader σ)) :
    plain (values record false (next :: fields) (.comma :: ts)) = plain (values record true (next :: fields) ts) := by
  rw [values_first h]
  obtain ⟨t, ts, rfl⟩ := List.exists_cons_of_ne_nil h.1
  have hvalues : values record false (next :: fields) (.comma :: t :: ts) = next.read (t :: ts) >>= fun r =>
      values (r.1 record) false fields r.2.1 >>= fun all =>
        .ok (all.1, ⟨all.2.1, Nat.lt_trans all.2.2 (Nat.lt_succ_of_lt r.2.2)⟩) := by
    cases t with
    | closeArray => exact absurd rfl h.2
    | _ => rfl
  rw [hvalues]
  cases next.read (t :: ts) with
  | error e => rfl
  | ok r =>
      show plain (values (r.1 record) false fields r.2.1 >>= _) = plain (values (r.1 record) false fields r.2.1)
      cases values (r.1 record) false fields r.2.1 <;> rfl

/-- The values in an array mean what the members of an object with the keys of the fields would mean. -/
def Listed (means : Members Tree → σ → Prop) (before : Members Tree) (fields : List (FieldReader σ)) (items : List Tree)
    (record : σ) : Prop :=
  items.length ≤ fields.length ∧ means (before ++ (fields.map FieldReader.key).zip items) record

theorem listed_cons {before : Members Tree} {next : FieldReader σ} {t : Tree} {items : List Tree} :
    Listed means before (next :: fields) (t :: items) record ↔
      Listed means (before ++ [(next.key, t)]) fields items record := by
  simp [Listed]

theorem settles_first {before : Members Tree} {next : FieldReader σ} {t : Tree} {items : List Tree} {more : List Token}
    (h : Adds means before record next t)
    (hmore : ∀ record', means (before ++ [(next.key, t)]) record' →
      Settles (Listed means (before ++ [(next.key, t)]) fields items) (values record' false fields) more) :
    Settles (Listed means before (next :: fields) (t :: items)) (values record true (next :: fields))
      (tokensOf t ++ more) := by
  have hfirst : ∀ rest, plain (values record true (next :: fields) (tokensOf t ++ more ++ rest)) =
      plain (next.read (tokensOf t ++ (more ++ rest))) >>= fun r => plain (values (r.1 record) false fields r.2) := by
    intro rest
    rw [List.append_assoc]
    exact values_first ((startsItem_tokensOf t).append _) record next fields
  rcases h with ⟨update, hread, hmeans⟩ | ⟨⟨e, hrefuse⟩, hnone⟩
  · rcases hmore _ hmeans with ⟨all, hall, hlisted⟩ | ⟨⟨e, hrefuse⟩, hnone⟩
    · refine .inl ⟨all, fun rest => ?_, listed_cons.2 hlisted⟩
      rw [hfirst, hread, Outcome.ok_bind, hall]
    · refine .inr ⟨⟨e, fun rest => ?_⟩, fun all hlisted => hnone all (listed_cons.1 hlisted)⟩
      rw [hfirst, hread, Outcome.ok_bind, hrefuse]
  · refine .inr ⟨⟨e, fun rest => ?_⟩, fun all hlisted => hnone _ all hlisted.2⟩
    rw [hfirst, hrefuse, Outcome.error_bind]

theorem settles_comma {P : σ → Prop} {next : FieldReader σ} {ts : List Token} (hstart : StartsItem ts)
    (h : Settles P (values record true (next :: fields)) ts) :
    Settles P (values record false (next :: fields)) (.comma :: ts) := by
  have hcomma := fun rest => values_comma (hstart.append rest) record next fields
  rcases h with ⟨all, hread, hall⟩ | ⟨⟨e, hrefuse⟩, hnone⟩
  · exact .inl ⟨all, fun rest => (hcomma rest).trans (hread rest), hall⟩
  · exact .inr ⟨⟨e, fun rest => (hcomma rest).trans (hrefuse rest)⟩, hnone⟩

theorem refuses_surplus (record : σ) (t : Tree) (more : List Token) :
    Refuses (values record false []) (.comma :: (tokensOf t ++ more)) (.text .trailingCharacters) := by
  intro rest
  obtain ⟨first, ts, hts⟩ := List.exists_cons_of_ne_nil (tokensOf_ne_nil t)
  have hfirst : first ≠ .closeArray := fun heq => head?_tokensOf_ne_closeArray t (by rw [hts, heq]; rfl)
  rw [hts, List.cons_append, List.cons_append, List.cons_append, values]
  · rfl
  · simp
  · rintro tail ⟨⟩
    exact hfirst rfl
  · simp

theorem settles_more {start : σ} (h : Builds levels fields start means) {before : Members Tree}
    {others : List (FieldReader σ)} (hothers : others ⊆ fields)
    (hkeys : (before.keys ++ others.map FieldReader.key).Nodup) (hbefore : means before record) {items : List Tree}
    (hitems : ∀ t ∈ items, t.Distinct ∧ t.nesting ≤ levels) :
    Settles (Listed means before others items) (values record false others) (moreTokens items) := by
  induction others generalizing before record items with
  | nil =>
      cases items with
      | nil => exact .inl ⟨record, fun rest => rfl, Nat.le.refl, by simpa using hbefore⟩
      | cons t items =>
          rw [moreTokens_cons]
          -- No field is left for this value.
          exact .inr ⟨⟨_, refuses_surplus record t _⟩, fun all hlisted => by simp [Listed] at hlisted⟩
  | cons next others ih =>
      cases items with
      | nil => exact .inl ⟨record, fun rest => rfl, Nat.zero_le _, by simpa using hbefore⟩
      | cons t items =>
          obtain ⟨⟨ht, hlevels⟩, hmore⟩ := List.forall_mem_cons.1 hitems
          obtain ⟨hnext, hothers⟩ := List.cons_subset.1 hothers
          have hfresh : next.key ∉ before.keys := by
            rw [List.map_cons, List.nodup_middle, List.nodup_cons] at hkeys
            exact fun hmem => hkeys.1 (List.mem_append_left _ hmem)
          have hkeys' : (Members.keys (before ++ [(next.key, t)]) ++ others.map FieldReader.key).Nodup := by
            simpa [Members.keys] using hkeys
          rw [moreTokens_cons]
          refine settles_comma ((startsItem_tokensOf t).append _) ?_
          exact settles_first (h.known hbefore next hnext hfresh t ht hlevels) fun record' hmeans =>
            ih hothers hkeys' hmeans hmore

theorem settles_values {start : σ} (h : Builds levels fields start means) (hfields : fields ≠ [])
    (hkeys : (fields.map FieldReader.key).Nodup) {items : List Tree}
    (hitems : ∀ t ∈ items, t.Distinct ∧ t.nesting ≤ levels) :
    ∃ ts, tokensOf (.array items) = .openArray :: ts ∧
      Settles (Listed means [] fields items) (values start true fields) ts := by
  obtain ⟨next, others, rfl⟩ := List.exists_cons_of_ne_nil hfields
  cases items with
  | nil => exact ⟨_, rfl, .inl ⟨start, fun rest => rfl, Nat.zero_le _, h.start⟩⟩
  | cons t items =>
      obtain ⟨⟨ht, hlevels⟩, hmore⟩ := List.forall_mem_cons.1 hitems
      refine ⟨_, tokensOf_array_cons t items, ?_⟩
      refine settles_first (h.known h.start next List.mem_cons_self (by simp [Members.keys]) t ht hlevels) ?_
      intro record' hmeans
      exact settles_more h (List.subset_cons_self _ _) (by simpa [Members.keys] using hkeys) hmeans hmore

theorem record_array (hlevels : levels ≠ 0) (wanted : String) (fields : List (FieldReader σ)) (start : σ)
    (ts : List Token) :
    plain (Json.record wanted fields start levels (.openArray :: ts)) = plain (values start true fields ts) := by
  rw [Json.record, if_neg hlevels]
  cases values start true fields ts <;> rfl

theorem record_object (hlevels : levels ≠ 0) (wanted : String) (fields : List (FieldReader σ)) (start : σ)
    (ts : List Token) :
    plain (Json.record wanted fields start levels (.openObject :: ts)) =
      (fun r => (r.1.2, r.2)) <$> plain (membersOfOpen (field fields) ([], start) ts) := by
  rw [Json.record, if_neg hlevels]
  cases membersOfOpen (field fields) ([], start) ts <;> rfl

theorem settles_record_array {start : σ} (hlevels : levels ≠ 0) (h : Builds (levels - 1) fields start means)
    (hfields : fields ≠ []) (hkeys : (fields.map FieldReader.key).Nodup) (wanted : String) {items : List Tree}
    (hitems : ∀ t ∈ items, t.Distinct ∧ t.nesting ≤ levels - 1) :
    Settles (Listed means [] fields items) (Json.record wanted fields start levels) (tokensOf (.array items)) := by
  obtain ⟨ts, hts, hvalues⟩ := settles_values h hfields hkeys hitems
  have hrecord := fun rest => record_array hlevels wanted fields start (ts ++ rest)
  rw [hts]
  rcases hvalues with ⟨all, hread, hall⟩ | ⟨⟨e, hrefuse⟩, hnone⟩
  · exact .inl ⟨all, fun rest => (hrecord rest).trans (hread rest), hall⟩
  · exact .inr ⟨⟨e, fun rest => (hrecord rest).trans (hrefuse rest)⟩, hnone⟩

theorem settles_record_object {start : σ} (hlevels : levels ≠ 0) (h : Builds (levels - 1) fields start means)
    (wanted : String) {members : Members Tree} (hkeys : members.keys.Nodup)
    (hmembers : ∀ entry ∈ members, entry.2.Distinct ∧ entry.2.nesting ≤ levels - 1) :
    Settles (means members) (Json.record wanted fields start levels) (tokensOf (.object members)) := by
  rw [tokensOf]
  rcases steps_or_stuck h (List.nil_subset _) h.start hkeys hmembers with
    ⟨state, hsteps, hall⟩ | ⟨⟨e, hstuck⟩, hnone⟩
  · refine .inl ⟨state.2, fun rest => ?_, hall⟩
    rw [objectTokens_append, record_object hlevels, reads_membersOfOpen hsteps]
    rfl
  · refine .inr ⟨⟨e, fun rest => ?_⟩, hnone⟩
    rw [objectTokens_append, record_object hlevels, refuses_membersOfOpen hstuck]
    rfl

theorem refuses_record {start : σ} {t : Tree} (wanted : String) (harray : ∀ items, t ≠ .array items)
    (hobject : ∀ members, t ≠ .object members) :
    Refuses (Json.record wanted fields start levels) (tokensOf t) (misplaced wanted (tokensOf t)) := by
  cases t with
  | array items => exact absurd rfl (harray items)
  | object members => exact absurd rfl (hobject members)
  | _ => exact fun rest => rfl

theorem understands_record {start : σ} (h : Builds (levels - 1) fields start means) (hfields : fields ≠ [])
    (hkeys : (fields.map FieldReader.key).Nodup) (wanted : String) :
    Understands levels (Json.record wanted fields start levels) (Tree.IsRecord (fields.map FieldReader.key) means) := by
  intro t ht hlevels
  cases t with
  | array items =>
      obtain ⟨levels, rfl⟩ := Nat.exists_eq_add_one.2 (Nat.lt_of_lt_of_le (by simp [Tree.nesting]) hlevels)
      have hitems := fun t hmem => And.intro (Tree.distinct_array.1 ht t hmem) (Tree.nesting_array_le.1 hlevels t hmem)
      refine (settles_record_array (Nat.succ_ne_zero levels) h hfields hkeys wanted hitems).congr fun record => ?_
      simp [Listed, Tree.IsRecord, Tree.hasFields_array, and_assoc]
  | object members =>
      obtain ⟨levels, rfl⟩ := Nat.exists_eq_add_one.2 (Nat.lt_of_lt_of_le (by simp [Tree.nesting]) hlevels)
      obtain ⟨hnodup, hdistinct⟩ := Tree.distinct_object.1 ht
      have hmembers := fun entry hmem => And.intro (hdistinct entry hmem) (Tree.nesting_object_le.1 hlevels entry hmem)
      refine (settles_record_object (Nat.succ_ne_zero levels) h wanted hnodup hmembers).congr fun record => ?_
      simp [Tree.IsRecord, Tree.hasFields_object]
  | _ =>
      refine .inr ⟨⟨_, refuses_record wanted (by simp) (by simp)⟩, fun record hrecord => ?_⟩
      obtain ⟨entries, ⟨⟩, -⟩ := hrecord

end Groupwise.Json
