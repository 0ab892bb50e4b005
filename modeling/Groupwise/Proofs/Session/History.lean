import Groupwise.Proofs.Ensures
import Groupwise.Proofs.Resolve.Run
import Groupwise.Session

namespace Groupwise

inductive Call : Type 1 where
  | store (text : String)
  | resolve (groups : List String)
  | resolveAs {α : Type} (decode : Decoder α) (groups : List String)
  | resolveFrom (text : String) (groups : List String)
  | resolveFromAs {α : Type} (decode : Decoder α) (text : String) (groups : List String)

namespace Call

def Answer : Call → Type
  | .store _ => Unit
  | .resolve _ | .resolveFrom .. => Except Error String
  | @resolveAs α .. | @resolveFromAs α .. => Except Error α

def answer (session : Session) : (call : Call) → call.Answer
  | .store _ => ()
  | .resolve groups => session.resolveStored groups
  | .resolveAs decode groups => session.resolveStoredAs decode groups
  | .resolveFrom text groups => session.resolveFrom text groups
  | .resolveFromAs decode text groups => session.resolveFromAs decode text groups

def stored? : Call → Option String
  | .store text => some text
  | _ => none

def after (session : Session) : Call → Session
  | .store text => session.store text
  | _ => session

end Call

namespace Session

def afterAll (session : Session) (calls : List Call) : Session := calls.foldl Call.after session

def answers (session : Session) : List Call → List (Σ call : Call, call.Answer)
  | [] => []
  | call :: calls => ⟨call, call.answer session⟩ :: answers (call.after session) calls

/-- A session answers as one does that has nothing but some options and the text that was stored last. -/
structure Follows (session : Session) (options : Options) (last : Option String) : Prop where
  stored_eq_error : ∀ groups, session.resolveStored groups = .error .notStored ↔ last = none ∨ last = some ""
  storedAs_eq_error : ∀ {α : Type} (decode : Decoder α) groups,
    session.resolveStoredAs decode groups = .error .notStored ↔ last = none ∨ last = some ""
  stored_eq : ∀ text groups, last = some text → text ≠ "" →
    session.resolveStored groups = session.resolveFrom text groups
  storedAs_eq : ∀ {α : Type} (decode : Decoder α) text groups, last = some text → text ≠ "" →
    session.resolveStoredAs decode groups = session.resolveFromAs decode text groups
  from_eq : ∀ (other : Session) text groups, other.options = options →
    session.resolveFrom text groups = other.resolveFrom text groups
  fromAs_eq : ∀ {α : Type} (other : Session) (decode : Decoder α) text groups, other.options = options →
    session.resolveFromAs decode text groups = other.resolveFromAs decode text groups
  from_empty : options.format = .json → ∀ groups, ∃ cause,
    session.resolveFrom "" groups = .error (.unreadable .json cause)
  fromAs_empty : ∀ {α : Type} (decode : Decoder α), options.format = .json → ∀ groups, ∃ cause,
    session.resolveFromAs decode "" groups = .error (.unreadable .json cause)
  from_default : options = {} → ∀ text groups, session.resolveFrom text groups = resolveText text groups
  fromAs_default : ∀ {α : Type} (decode : Decoder α), options = {} → ∀ text groups,
    session.resolveFromAs decode text groups = resolveAs decode text groups
  same_tree : ∀ text groups properties, (resolve text groups options.format).outcome = .ok properties →
    session.resolveFrom text groups = .ok (Json.render options.layout (.object properties)) ∧
      ∀ {α : Type} (decode : Decoder α), session.resolveFromAs decode text groups =
        (decode (.object properties)).mapError fun fault => .unfit (.shape fault)
  same_error : ∀ text groups fault, (resolve text groups options.format).outcome = .error fault →
    session.resolveFrom text groups = .error fault ∧
      ∀ {α : Type} (decode : Decoder α), session.resolveFromAs decode text groups = .error fault

end Session

variable {α : Type} {text : String} {groups : List String} {format : Format} {config : Config} {fault : Error}

theorem Json.readText_of_error {read : Json.Reader α} {ts : List Json.Token} {fault : Json.Error}
    (htokens : Json.tokens text.toList = ts) (h : read ts = .error fault) : Json.readText read text = .error fault := by
  subst htokens
  rw [Json.readText, h]
  rfl

theorem Config.parse_ne_notStored : Config.parse format text ≠ .error .notStored := by
  unfold Config.parse
  split
  · cases Config.ofJson text <;> simp
  · split <;> simp
  · simp
  · simp

theorem Config.properties_ne_notStored : config.properties ≠ .error .notStored := by
  unfold Config.properties
  split <;> simp

theorem Rule.fault?_ne_notStored {rule : Rule} {groups : Groups} : rule.fault? groups ≠ some .notStored := by
  unfold Rule.fault?
  split <;> simp [overlong]

theorem Config.resolve_ne_notStored {groups : Groups} : (config.resolve groups format).outcome ≠ .error .notStored := by
  cases hproperties : config.properties with
  | error fault =>
      rw [outcome_resolve_of_error groups format hproperties]
      rintro ⟨⟩
      exact properties_ne_notStored hproperties
  | ok properties =>
      rw [outcome_resolve groups format hproperties]
      cases hfind : config.rules.findSome? (·.fault? groups) with
      | none => simp
      | some fault =>
          obtain ⟨rule, -, hrule⟩ := List.exists_of_findSome?_eq_some hfind
          rintro ⟨⟩
          exact Rule.fault?_ne_notStored hrule

theorem resolve_ne_notStored : (resolve text groups format).outcome ≠ .error .notStored := by
  cases hparse : Config.parse format text with
  | error fault =>
      rw [resolve_of_unread hparse]
      rintro ⟨⟩
      exact Config.parse_ne_notStored hparse
  | ok config =>
      rw [resolve_of_parse hparse]
      exact Config.resolve_ne_notStored

theorem decodeProperties_ne_notStored {decode : Decoder α} {properties : Properties} :
    decodeProperties decode properties ≠ .error .notStored := by
  unfold decodeProperties
  cases decode (.object properties) <;> simp

namespace Session

variable {session : Session}

theorem resolveFrom_of_ok {properties : Properties}
    (h : (resolve text groups session.options.format).outcome = .ok properties) :
    session.resolveFrom text groups = .ok (renderProperties session.options.layout properties) := by
  rw [resolveFrom, h]
  rfl

theorem resolveFromAs_of_ok {properties : Properties} (decode : Decoder α)
    (h : (resolve text groups session.options.format).outcome = .ok properties) :
    session.resolveFromAs decode text groups = decodeProperties decode properties := by
  rw [resolveFromAs, h]
  rfl

theorem resolveFrom_of_error (h : (resolve text groups session.options.format).outcome = .error fault) :
    session.resolveFrom text groups = .error fault := by
  rw [resolveFrom, h]
  rfl

theorem resolveFromAs_of_error (decode : Decoder α)
    (h : (resolve text groups session.options.format).outcome = .error fault) :
    session.resolveFromAs decode text groups = .error fault := by
  rw [resolveFromAs, h]
  rfl

theorem resolveFrom_ne_notStored : session.resolveFrom text groups ≠ .error .notStored := by
  cases h : (resolve text groups session.options.format).outcome with
  | error fault =>
      rw [resolveFrom_of_error h]
      rintro ⟨⟩
      exact resolve_ne_notStored h
  | ok properties => simp [resolveFrom_of_ok h]

theorem resolveFromAs_ne_notStored {decode : Decoder α} :
    session.resolveFromAs decode text groups ≠ .error .notStored := by
  cases h : (resolve text groups session.options.format).outcome with
  | error fault =>
      rw [resolveFromAs_of_error decode h]
      rintro ⟨⟩
      exact resolve_ne_notStored h
  | ok properties =>
      rw [resolveFromAs_of_ok decode h]
      exact decodeProperties_ne_notStored

theorem config_of_unset (h : session.stored = none ∨ session.stored = some "") :
    session.config = .error .notStored := by
  rcases h with h | h <;> simp [config, h]

theorem config_of_set (h : session.stored = some text) (hne : text ≠ "") : session.config = .ok text := by
  simp [config, h, hne]

theorem resolveStored_of_set (h : session.stored = some text) (hne : text ≠ "") :
    session.resolveStored groups = session.resolveFrom text groups := by
  rw [resolveStored, config_of_set h hne, Outcome.ok_bind]

theorem resolveStoredAs_of_set (decode : Decoder α) (h : session.stored = some text) (hne : text ≠ "") :
    session.resolveStoredAs decode groups = session.resolveFromAs decode text groups := by
  rw [resolveStoredAs, config_of_set h hne, Outcome.ok_bind]

theorem exists_resolve_empty (groups : List String) :
    ∃ cause, (resolve "" groups .json).outcome = .error (.unreadable .json cause) := by
  have htokens : Json.tokens "".toList = [] := by simp [Json.tokens]
  have hread : Config.ofJson "" = .error (.text (.ended .value)) := Json.readText_of_error htokens rfl
  have hparse : Config.parse .json "" = .error (.unreadable .json (.json (.text (.ended .value)))) := by
    rw [Config.parse, hread]
    rfl
  exact ⟨_, by rw [resolve_of_unread hparse]⟩

theorem eq_notStored_iff {β : Type} {stored : Option String} {answer : Except Error β}
    (hunset : stored = none ∨ stored = some "" → answer = .error .notStored)
    (hset : ∀ text, stored = some text → text ≠ "" → answer ≠ .error .notStored) :
    answer = .error .notStored ↔ stored = none ∨ stored = some "" := by
  refine ⟨fun h => ?_, hunset⟩
  cases stored with
  | none => exact .inl rfl
  | some text =>
      by_cases htext : text = ""
      · exact .inr (htext ▸ rfl)
      · exact absurd h (hset text rfl htext)

theorem follows (session : Session) : session.Follows session.options session.stored where
  stored_eq_error groups := by
    -- A session with a text may fail in many ways, but it never says that nothing is stored.
    refine eq_notStored_iff (fun h => ?_) fun text h hne => ?_
    · rw [resolveStored, config_of_unset h, Outcome.error_bind]
    · rw [resolveStored_of_set h hne]
      exact resolveFrom_ne_notStored
  storedAs_eq_error decode groups := by
    refine eq_notStored_iff (fun h => ?_) fun text h hne => ?_
    · rw [resolveStoredAs, config_of_unset h, Outcome.error_bind]
    · rw [resolveStoredAs_of_set decode h hne]
      exact resolveFromAs_ne_notStored
  stored_eq text groups h hne := resolveStored_of_set h hne
  storedAs_eq decode text groups h hne := resolveStoredAs_of_set decode h hne
  from_eq other text groups h := by rw [resolveFrom, resolveFrom, h]
  fromAs_eq other decode text groups h := by rw [resolveFromAs, resolveFromAs, h]
  from_empty h groups := by
    obtain ⟨cause, hcause⟩ := exists_resolve_empty groups
    exact ⟨cause, resolveFrom_of_error (h ▸ hcause)⟩
  fromAs_empty decode h groups := by
    obtain ⟨cause, hcause⟩ := exists_resolve_empty groups
    exact ⟨cause, resolveFromAs_of_error decode (h ▸ hcause)⟩
  from_default h text groups := by
    rw [resolveFrom, h]
    rfl
  fromAs_default decode h text groups := by
    rw [resolveFromAs, h]
    rfl
  same_tree text groups properties h := ⟨resolveFrom_of_ok h, fun decode => resolveFromAs_of_ok decode h⟩
  same_error text groups fault h := ⟨resolveFrom_of_error h, fun decode => resolveFromAs_of_error decode h⟩

theorem stored_after (call : Call) (session : Session) :
    (call.after session).stored = call.stored?.or session.stored := by
  cases call <;> rfl

theorem options_after (call : Call) (session : Session) : (call.after session).options = session.options := by
  cases call <;> rfl

theorem after_of_not_stored {call : Call} (h : call.stored? = none) : call.after session = session := by
  cases call with
  | store text => contradiction
  | resolve | resolveAs | resolveFrom | resolveFromAs => rfl

theorem afterAll_cons (call : Call) (calls : List Call) (session : Session) :
    session.afterAll (call :: calls) = (call.after session).afterAll calls := rfl

theorem options_afterAll (calls : List Call) (session : Session) :
    (session.afterAll calls).options = session.options := by
  induction calls generalizing session with
  | nil => rfl
  | cons call calls ih => rw [afterAll_cons, ih, options_after]

theorem stored_afterAll (calls : List Call) (session : Session) :
    (session.afterAll calls).stored = (calls.filterMap Call.stored?).getLast?.or session.stored := by
  induction calls generalizing session with
  | nil => rfl
  | cons call calls ih =>
      rw [afterAll_cons, ih, stored_after, List.filterMap_cons]
      cases call.stored? with
      | none => rfl
      | some text =>
          rw [List.getLast?_cons]
          cases (calls.filterMap Call.stored?).getLast? <;> rfl

theorem answers_append (before rest : List Call) (session : Session) :
    session.answers (before ++ rest) = session.answers before ++ (session.afterAll before).answers rest := by
  induction before generalizing session with
  | nil => rfl
  | cons call before ih => rw [List.cons_append, answers, ih, answers, List.cons_append, afterAll_cons]

theorem length_answers (calls : List Call) (session : Session) : (session.answers calls).length = calls.length := by
  induction calls generalizing session with
  | nil => rfl
  | cons call calls ih => rw [answers, List.length_cons, ih, List.length_cons]

/--
Any call, after any others. It answers by the options and the text that was stored last, and if it stores none then
the later calls are answered as if it had not been made.
-/
theorem answers_follow (options : Options) (stored : Option String) (before : List Call) (call : Call)
    (rest : List Call) :
    let start : Session := ⟨options, stored⟩
    let session := start.afterAll before
    session.Follows options ((before.filterMap Call.stored?).getLast?.or stored) ∧
      ∃ front back, start.answers (before ++ call :: rest) = front ++ ⟨call, call.answer session⟩ :: back ∧
        front.length = before.length ∧ (call.stored? = none → start.answers (before ++ rest) = front ++ back) := by
  intro start session
  have hfollows := follows session
  rw [options_afterAll, stored_afterAll] at hfollows
  refine ⟨hfollows, start.answers before, (call.after session).answers rest, ?_, length_answers before start, ?_⟩
  · rw [answers_append, answers]
  · intro h
    rw [answers_append, after_of_not_stored h]

theorem answers_follow_failure :
    let start : Session := {}
    let call : Call := .resolve ["a"]
    let session := start.afterAll [.store "\x7b\x7d"]
    session.resolveStored ["a"] = .error (.invalid Config.defaultsKey .missing) ∧ call.stored? = none ∧
      ∃ front back, start.answers [.store "\x7b\x7d", call, .resolve ["b"]] =
          front ++ ⟨call, call.answer session⟩ :: back ∧ front.length = 1 ∧
        start.answers [.store "\x7b\x7d", .resolve ["b"]] = front ++ back := by
  intro start call session
  have hparse : Config.parse .json "\x7b\x7d" = .ok {} := Outcome.eq_ok_of_toOption (by decide +kernel)
  have hresolve : (resolve "\x7b\x7d" ["a"] .json).outcome = .error (.invalid Config.defaultsKey .missing) := by
    rw [resolve_of_parse hparse]
    rfl
  have hstored : call.stored? = none := rfl
  obtain ⟨-, front, back, hall, hlength, hothers⟩ := answers_follow {} none [.store "\x7b\x7d"] call [.resolve ["b"]]
  refine ⟨?_, hstored, front, back, hall, hlength, hothers hstored⟩
  rw [resolveStored_of_set rfl (by decide)]
  exact resolveFrom_of_error hresolve

end Session

end Groupwise
