import Groupwise.Criterion
import Groupwise.Error
import Groupwise.Proofs.Ensures
import Groupwise.Proofs.Expr.Meaning

namespace Groupwise

namespace Groups

variable {groups : Groups} {names : List String}

theorem containsAll_iff : groups.containsAll names = true ↔ ∀ name ∈ names, groups.contains name := List.all_eq_true

theorem containsAny_iff : groups.containsAny names = true ↔ ∃ name ∈ names, groups.contains name := List.any_eq_true

theorem containsAny_eq_false : groups.containsAny names = false ↔ ∀ name ∈ names, ¬ groups.contains name :=
  List.any_eq_false

end Groups

namespace Rule

def ListHolds (groups : Groups) (rule : Rule) : Prop :=
  (rule.allGroups ≠ [] ∧ groups.containsAll rule.allGroups = true) ∨ groups.containsAny rule.anyGroup = true ∨
    (rule.noneOfGroups ≠ [] ∧ groups.containsAny rule.noneOfGroups = false)

instance (groups : Groups) (rule : Rule) : Decidable (rule.ListHolds groups) :=
  inferInstanceAs (Decidable (_ ∨ _ ∨ _))

variable {groups : Groups} {rule : Rule}

theorem exists_of_listHolds (h : rule.ListHolds groups) : ∃ criterion, rule.criterion? groups = .ok (some criterion) := by
  rw [criterion?]
  split
  · exact ⟨_, rfl⟩
  · next hall =>
    split
    · exact ⟨_, rfl⟩
    · next hany =>
      rcases h with h | h | h
      · exact absurd h hall
      · exact absurd h hany
      · rw [if_pos h]
        exact ⟨_, rfl⟩

theorem criterion?_of_not_listHolds (h : ¬ rule.ListHolds groups) :
    rule.criterion? groups =
      match rule.activeExpression with
      | none => .ok none
      | some expression =>
        match Expr.parse expression with
        | .error cause => .error ⟨expression, cause⟩
        | .ok e => .ok (if e.evaluate groups then some .expression else none) := by
  simp only [ListHolds, not_or] at h
  obtain ⟨hall, hany, hnone⟩ := h
  exact (if_neg hall).trans ((if_neg hany).trans (if_neg hnone))

theorem activeExpression_eq_some {text : String} :
    rule.activeExpression = some text ↔ rule.expression = some text ∧ text ≠ "" := by
  rw [activeExpression, Option.filter_eq_some_iff]
  simp

theorem criterion?_eq_error {bad : BadExpression} :
    rule.criterion? groups = .error bad ↔
      ¬ rule.ListHolds groups ∧ rule.activeExpression = some bad.expression ∧
        Expr.parse bad.expression = .error bad.cause := by
  constructor
  · intro h
    have hlists : ¬ rule.ListHolds groups := by
      intro hlists
      obtain ⟨criterion, hcriterion⟩ := exists_of_listHolds hlists
      rw [hcriterion] at h
      contradiction
    rw [criterion?_of_not_listHolds hlists] at h
    split at h
    · contradiction
    · next text hactive =>
      split at h
      · next cause hcause =>
        obtain rfl := Except.error.inj h
        exact ⟨hlists, hactive, hcause⟩
      · contradiction
  · rintro ⟨hlists, hactive, hcause⟩
    rw [criterion?_of_not_listHolds hlists, hactive]
    simp only [hcause]

def InAll (inGroup : String → Prop) (rule : Rule) : Prop := rule.allGroups ≠ [] ∧ ∀ name ∈ rule.allGroups, inGroup name

def InAny (inGroup : String → Prop) (rule : Rule) : Prop := ∃ name ∈ rule.anyGroup, inGroup name

def InNone (inGroup : String → Prop) (rule : Rule) : Prop :=
  rule.noneOfGroups ≠ [] ∧ ∀ name ∈ rule.noneOfGroups, ¬ inGroup name

structure Unlisted (inGroup : String → Prop) (rule : Rule) : Prop where
  all : ¬ rule.InAll inGroup
  any : ¬ rule.InAny inGroup
  none : ¬ rule.InNone inGroup

/-- What a rule comes to for a user: the first criterion that holds, an expression that cannot be read, or nothing. -/
inductive Decided (inGroup : String → Prop) (rule : Rule) : Except BadExpression (Option Criterion) → Prop
  | allGroups (h : rule.InAll inGroup) : Decided inGroup rule (.ok (some .allGroups))
  | anyGroup (hall : ¬ rule.InAll inGroup) (h : rule.InAny inGroup) : Decided inGroup rule (.ok (some .anyGroup))
  | noneOfGroups (hall : ¬ rule.InAll inGroup) (hany : ¬ rule.InAny inGroup) (h : rule.InNone inGroup) :
      Decided inGroup rule (.ok (some .noneOfGroups))
  | unread {text : String} {cause : Expr.Error} (hlists : rule.Unlisted inGroup) (htext : rule.expression = some text)
      (hne : text ≠ "") (hcause : Expr.parse text = .error cause) : Decided inGroup rule (.error ⟨text, cause⟩)
  | expression {text : String} {e : Expr} (hlists : rule.Unlisted inGroup) (htext : rule.expression = some text)
      (hne : text ≠ "") (hread : Expr.parse text = .ok e) (h : Expr.TextHolds inGroup text) :
      Decided inGroup rule (.ok (some .expression))
  | refuted {text : String} {e : Expr} (hlists : rule.Unlisted inGroup) (htext : rule.expression = some text)
      (hne : text ≠ "") (hread : Expr.parse text = .ok e) (h : ¬ Expr.TextHolds inGroup text) :
      Decided inGroup rule (.ok none)
  | inactive (hlists : rule.Unlisted inGroup) (h : ∀ text, rule.expression = some text → text = "") :
      Decided inGroup rule (.ok none)

theorem inAll_iff : rule.InAll (groups.contains ·) ↔ rule.allGroups ≠ [] ∧ groups.containsAll rule.allGroups = true := by
  rw [InAll, Groups.containsAll_iff]

theorem inAny_iff : rule.InAny (groups.contains ·) ↔ groups.containsAny rule.anyGroup = true := by
  rw [InAny, Groups.containsAny_iff]

theorem inNone_iff :
    rule.InNone (groups.contains ·) ↔ rule.noneOfGroups ≠ [] ∧ groups.containsAny rule.noneOfGroups = false := by
  rw [InNone, Groups.containsAny_eq_false]

theorem unlisted_iff : rule.Unlisted (groups.contains ·) ↔ ¬ rule.ListHolds groups := by
  rw [ListHolds, ← inAll_iff, ← inAny_iff, ← inNone_iff, not_or, not_or]
  constructor
  · intro h
    exact ⟨h.all, h.any, h.none⟩
  · rintro ⟨hall, hany, hnone⟩
    exact ⟨hall, hany, hnone⟩

theorem criterion?_of_text {text : String} (hlists : rule.Unlisted (groups.contains ·))
    (htext : rule.expression = some text) (hne : text ≠ "") :
    rule.criterion? groups =
      match Expr.parse text with
      | .error cause => .error ⟨text, cause⟩
      | .ok e => .ok (if e.evaluate groups then some .expression else none) := by
  rw [criterion?_of_not_listHolds (unlisted_iff.1 hlists), activeExpression_eq_some.2 ⟨htext, hne⟩]

theorem criterion?_of_decided {answer : Except BadExpression (Option Criterion)}
    (h : rule.Decided (groups.contains ·) answer) : rule.criterion? groups = answer := by
  cases h with
  | allGroups h => rw [criterion?, if_pos (inAll_iff.1 h)]
  | anyGroup hall h => rw [criterion?, if_neg (mt inAll_iff.2 hall), if_pos (inAny_iff.1 h)]
  | noneOfGroups hall hany h =>
      rw [criterion?, if_neg (mt inAll_iff.2 hall), if_neg (mt inAny_iff.2 hany), if_pos (inNone_iff.1 h)]
  | unread hlists htext hne hcause => simp only [criterion?_of_text hlists htext hne, hcause]
  | expression hlists htext hne hread h =>
      rw [Expr.textHolds_iff hread] at h
      simp only [criterion?_of_text hlists htext hne, hread, if_pos h]
  | refuted hlists htext hne hread h =>
      rw [Expr.textHolds_iff hread] at h
      simp only [criterion?_of_text hlists htext hne, hread, if_neg h]
  | inactive hlists h =>
      have hactive : rule.activeExpression = none := by
        rw [activeExpression, Option.filter_eq_none_iff]
        simpa using h
      rw [criterion?_of_not_listHolds (unlisted_iff.1 hlists), hactive]

theorem exists_decided (inGroup : String → Prop) (rule : Rule) : ∃ answer, rule.Decided inGroup answer := by
  by_cases hall : rule.InAll inGroup
  · exact ⟨_, .allGroups hall⟩
  by_cases hany : rule.InAny inGroup
  · exact ⟨_, .anyGroup hall hany⟩
  by_cases hnone : rule.InNone inGroup
  · exact ⟨_, .noneOfGroups hall hany hnone⟩
  have hlists : rule.Unlisted inGroup := ⟨hall, hany, hnone⟩
  by_cases hactive : ∃ text, rule.expression = some text ∧ text ≠ ""
  · obtain ⟨text, htext, hne⟩ := hactive
    cases hparse : Expr.parse text with
    | error cause => exact ⟨_, .unread hlists htext hne hparse⟩
    | ok e =>
        by_cases hholds : Expr.TextHolds inGroup text
        · exact ⟨_, .expression hlists htext hne hparse hholds⟩
        · exact ⟨_, .refuted hlists htext hne hparse hholds⟩
  · refine ⟨_, .inactive hlists fun text htext => ?_⟩
    exact Classical.byContradiction fun hne => hactive ⟨text, htext, hne⟩

theorem criterion?_eq_iff {answer : Except BadExpression (Option Criterion)} :
    rule.criterion? groups = answer ↔ rule.Decided (groups.contains ·) answer := by
  constructor
  · rintro rfl
    obtain ⟨answer, h⟩ := exists_decided (groups.contains ·) rule
    rwa [criterion?_of_decided h]
  · exact criterion?_of_decided

structure SameCriteria (rule other : Rule) : Prop where
  all : ∀ name, name ∈ rule.allGroups ↔ name ∈ other.allGroups
  any : ∀ name, name ∈ rule.anyGroup ↔ name ∈ other.anyGroup
  none : ∀ name, name ∈ rule.noneOfGroups ↔ name ∈ other.noneOfGroups
  expression : rule.expression = other.expression

namespace SameCriteria

variable {other : Rule} {inGroup : String → Prop}

theorem ne_nil_iff {names names' : List String} (h : ∀ name, name ∈ names ↔ name ∈ names') : names ≠ [] ↔ names' ≠ [] := by
  simp only [ne_eq, List.eq_nil_iff_forall_not_mem, h]

theorem inAll_iff (h : rule.SameCriteria other) : rule.InAll inGroup ↔ other.InAll inGroup := by
  simp only [InAll, ne_nil_iff h.all, h.all]

theorem inAny_iff (h : rule.SameCriteria other) : rule.InAny inGroup ↔ other.InAny inGroup := by
  simp only [InAny, h.any]

theorem inNone_iff (h : rule.SameCriteria other) : rule.InNone inGroup ↔ other.InNone inGroup := by
  simp only [InNone, ne_nil_iff h.none, h.none]

theorem unlisted (h : rule.SameCriteria other) (hlists : rule.Unlisted inGroup) : other.Unlisted inGroup :=
  ⟨mt h.inAll_iff.2 hlists.all, mt h.inAny_iff.2 hlists.any, mt h.inNone_iff.2 hlists.none⟩

theorem decided {answer : Except BadExpression (Option Criterion)} (h : rule.SameCriteria other)
    (hdecided : rule.Decided inGroup answer) : other.Decided inGroup answer := by
  have hexpression : ∀ {text}, rule.expression = some text → other.expression = some text := fun htext =>
    h.expression ▸ htext
  cases hdecided with
  | allGroups hall => exact .allGroups (h.inAll_iff.1 hall)
  | anyGroup hall hany => exact .anyGroup (mt h.inAll_iff.2 hall) (h.inAny_iff.1 hany)
  | noneOfGroups hall hany hnone =>
      exact .noneOfGroups (mt h.inAll_iff.2 hall) (mt h.inAny_iff.2 hany) (h.inNone_iff.1 hnone)
  | unread hlists htext hne hcause => exact .unread (h.unlisted hlists) (hexpression htext) hne hcause
  | expression hlists htext hne hread hholds =>
      exact .expression (h.unlisted hlists) (hexpression htext) hne hread hholds
  | refuted hlists htext hne hread hholds => exact .refuted (h.unlisted hlists) (hexpression htext) hne hread hholds
  | inactive hlists hactive => exact .inactive (h.unlisted hlists) (h.expression ▸ hactive)

end SameCriteria

theorem decided_of_isInert (h : rule.isInert = true) (inGroup : String → Prop) : rule.Decided inGroup (.ok none) := by
  simp only [isInert, Bool.and_eq_true, List.isEmpty_iff, Option.isNone_iff_eq_none] at h
  obtain ⟨⟨⟨hall, hany⟩, hnone⟩, hactive⟩ := h
  refine .inactive ⟨by simp [InAll, hall], by simp [InAny, hany], by simp [InNone, hnone]⟩ fun text htext => ?_
  rw [activeExpression, htext, Option.filter_eq_none_iff] at hactive
  simpa using hactive

theorem message_expression (text : String) (cause : Expr.Error) :
    (Error.expression text cause).message = "custom expression `" ++ text ++
      (if cause.kind = .malformed then "` is malformed: " else "` is not supported: ") ++ cause.message := by
  unfold Error.message
  dsimp only
  cases cause.kind with
  | malformed => rw [if_pos rfl]; rfl
  | unsupported => rw [if_neg (by decide)]; rfl

/--
A rule comes to what the first criterion that holds says, and to its expression only when no list holds. The message about
an expression that cannot be read tells whether it is malformed or not supported. Neither the order of names nor how often
they occur counts, and without any criterion the rule holds for nobody.
-/
theorem criterion?_decided (rule : Rule) :
    (∀ groups answer, rule.criterion? groups = answer ↔ rule.Decided (groups.contains ·) answer) ∧
    (∀ groups bad, rule.criterion? groups = .error bad → (Error.expression bad.expression bad.cause).message =
      "custom expression `" ++ bad.expression ++
        (if bad.cause.kind = .malformed then "` is malformed: " else "` is not supported: ") ++ bad.cause.message) ∧
    (∀ other names names', rule.SameCriteria other → (∀ name, name ∈ names ↔ name ∈ names') →
      other.criterion? (Groups.ofList names') = rule.criterion? (Groups.ofList names)) ∧
    (rule.isInert = true → ∀ groups, rule.criterion? groups = .ok none) := by
  refine ⟨fun groups answer => criterion?_eq_iff, fun _ bad _ => message_expression _ _, ?_, ?_⟩
  · intro other names names' hsame hnames
    have hgroups : (fun name => (Groups.ofList names').contains name = true) =
        fun name => (Groups.ofList names).contains name = true := by
      funext name
      rw [Groups.contains_ofList, Groups.contains_ofList, hnames]
    rw [criterion?_eq_iff, hgroups]
    exact hsame.decided (criterion?_eq_iff.1 rfl)
  · intro h groups
    exact criterion?_eq_iff.2 (decided_of_isInert h (groups.contains ·))

theorem criterion?_decided_reordered :
    let rule : Rule := ⟨["a", "b"], ["c"], ["d"], some "!", []⟩
    let other : Rule := ⟨["b", "a", "b"], ["c", "c"], ["d"], some "!", []⟩
    let inert : Rule := ⟨[], [], [], some "", [("p", .null)]⟩
    let groups := Groups.ofList ["a", "e"]
    rule.criterion? groups = .ok (some .noneOfGroups) ∧ rule.Decided (groups.contains ·) (.ok (some .noneOfGroups)) ∧
      other.criterion? (Groups.ofList ["e", "a", "e"]) = rule.criterion? groups ∧
      (∃ bad, rule.criterion? (Groups.ofList ["d"]) = .error bad ∧ bad.cause.kind = .unsupported ∧
        (Error.expression bad.expression bad.cause).message =
          "custom expression `" ++ bad.expression ++
            (if bad.cause.kind = .malformed then "` is malformed: " else "` is not supported: ") ++ bad.cause.message) ∧
      inert.isInert = true ∧ inert.criterion? groups = .ok none := by
  intro rule other inert groups
  have hdecided : rule.criterion? groups = .ok (some .noneOfGroups) := Outcome.eq_ok_of_toOption (by decide +kernel)
  have hbad : rule.criterion? (Groups.ofList ["d"]) = .error ⟨"!", ⟨.unsupportedOperator "!", 0⟩⟩ :=
    Outcome.eq_error_of_fault? (by decide +kernel)
  have hsame : rule.SameCriteria other := ⟨by grind, by grind, by grind, rfl⟩
  have hnames : ∀ name, name ∈ ["a", "e"] ↔ name ∈ ["e", "a", "e"] := by grind
  obtain ⟨hiff, hmessage, hreordered, -⟩ := criterion?_decided rule
  exact ⟨hdecided, (hiff groups _).1 hdecided, hreordered other _ _ hsame hnames,
    ⟨_, hbad, rfl, hmessage _ _ hbad⟩, rfl, (criterion?_decided inert).2.2.2 rfl groups⟩

end Rule

end Groupwise
