import Groupwise.Json.Skip

namespace Groupwise.Json

abbrev Rest (ts : List Token) := { rest : List Token // rest.length < ts.length }

abbrev Reader (α : Type) := (ts : List Token) → Except Error (α × Rest ts)

def maxLevels : Nat := 127

variable {α σ : Type}

def misplaced (wanted : String) : List Token → Error
  | [] => .text (.ended .value)
  | .null :: _ => .shape (.wrongType .null wanted)
  | .bool b :: _ => .shape (.wrongType (.bool b) wanted)
  | .number literal :: _ =>
    match literal.number? with
    | some n => .shape (.wrongType (.ofNumber n) wanted)
    | none => .text .numberTooLarge
  | .string s :: _ => .shape (.wrongType (.string s) wanted)
  | .openArray :: _ => .shape (.wrongType .sequence wanted)
  | .openObject :: _ => .shape (.wrongType .map wanted)
  | .unreadable fault :: _ | .broken fault _ :: _ | .brokenString fault _ :: _ => .text fault
  | .closeArray :: _ | .closeObject :: _ | .colon :: _ | .comma :: _ => .text .expectedValue

def string : Reader String
  | .string s :: rest => .ok (s, ⟨rest, by simp⟩)
  | ts => .error (misplaced "a string" ts)

def bool : Reader Bool
  | .bool b :: rest => .ok (b, ⟨rest, by simp⟩)
  | ts => .error (misplaced "a boolean" ts)

def integer (wanted : String) (low high : Int) : Reader Int
  | .number literal :: rest =>
    match literal.number? with
    | some (.integer n) =>
      if low ≤ n ∧ n ≤ high then .ok (n, ⟨rest, by simp⟩) else .error (.shape (.outOfRange n wanted))
    | some (.float x) => .error (.shape (.wrongType (.float x) wanted))
    | none => .error (.text .numberTooLarge)
  | ts => .error (misplaced wanted ts)

def orNull (absent : α) (read : Reader α) : Reader α
  | .null :: rest => .ok (absent, ⟨rest, by simp⟩)
  | ts => read ts

def mapped {β : Type} (f : α → β) (read : Reader α) : Reader β := fun ts => do
  let (value, rest) ← read ts
  .ok (f value, rest)

def optional (read : Reader α) : Reader (Option α) := orNull none (mapped some read)

def skip : Reader Unit := fun ts =>
  match h : skipValue [] ts with
  | .ok rest => .ok ((), ⟨rest, length_skipValue h⟩)
  | .error fault => .error (.text fault)

def items (item : Reader α) (ts : List Token) : Except Error (List α × Rest ts) := do
  let (first, ⟨rest, h⟩) ← item ts
  match rest, h with
  | .closeArray :: rest, h => .ok ([first], ⟨rest, Nat.lt_of_succ_lt h⟩)
  | .comma :: .closeArray :: _, _ => .error (.text .trailingComma)
  | .comma :: [], _ => .error (.text (.ended .value))
  | .comma :: rest, h => do
    let (more, ⟨rest, hmore⟩) ← items item rest
    .ok (first :: more, ⟨rest, Nat.lt_trans hmore (Nat.lt_of_succ_lt h)⟩)
  | [], _ => .error (.text (.ended .list))
  | _, _ => .error (.text .expectedCommaOrBracket)
termination_by ts.length
decreasing_by exact Nat.lt_of_succ_lt h

def itemsOfOpen (item : Reader α) (ts : List Token) : Except Error (List α × Rest ts) :=
  match ts with
  | .closeArray :: rest => .ok ([], ⟨rest, by simp⟩)
  | [] => .error (.text (.ended .list))
  | t :: rest => items item (t :: rest)

def list (levels : Nat) (item : Reader α) : Reader (List α)
  | .openArray :: rest =>
    if levels = 0 then .error (.text .tooDeep)
    else do
      let (all, ⟨rest, h⟩) ← itemsOfOpen item rest
      .ok (all, ⟨rest, by simp; omega⟩)
  | ts => .error (misplaced "a sequence" ts)

/--
How the members of an object are read: for a key, and for what was read before it, there is a reader of its
value which tells what is read then.
-/
abbrev MemberReader (σ : Type) := String → σ → Except Error (Reader σ)

def members (member : MemberReader σ) (state : σ) (ts : List Token) : Except Error (σ × Rest ts) :=
  match ts with
  | .string key :: .colon :: rest => do
    let read ← member key state
    let (state, ⟨rest, h⟩) ← read rest
    match rest, h with
    | .closeObject :: rest, h => .ok (state, ⟨rest, by simp at h ⊢; omega⟩)
    | .comma :: .closeObject :: _, _ => .error (.text .trailingComma)
    | .comma :: [], _ => .error (.text (.ended .value))
    | .comma :: rest, h => do
      let (state, ⟨rest, _⟩) ← members member state rest
      .ok (state, ⟨rest, by simp at h ⊢; omega⟩)
    | [], _ => .error (.text (.ended .object))
    | _, _ => .error (.text .expectedCommaOrBrace)
  | .string key :: [] => do
    let _ ← member key state
    .error (.text (.ended .object))
  | .string key :: _ => do
    let _ ← member key state
    .error (.text .expectedColon)
  | .unreadable fault :: _ | .brokenString fault _ :: _ => .error (.text fault)
  | _ => .error (.text .keyNotString)
termination_by ts.length
decreasing_by simp at h ⊢; omega

def membersOfOpen (member : MemberReader σ) (state : σ) (ts : List Token) : Except Error (σ × Rest ts) :=
  match ts with
  | .closeObject :: rest => .ok (state, ⟨rest, by simp⟩)
  | [] => .error (.text (.ended .object))
  | t :: rest => members member state (t :: rest)

/-- Of two members with one key the later one counts. -/
def entry (value : Reader α) : MemberReader (Members α) := fun key before =>
  .ok (mapped (before.insert key) value)

def map (levels : Nat) (value : Reader α) : Reader (Members α)
  | .openObject :: rest =>
    if levels = 0 then .error (.text .tooDeep)
    else do
      let (all, ⟨rest, h⟩) ← membersOfOpen (entry value) [] rest
      .ok (all, ⟨rest, by simp; omega⟩)
  | ts => .error (misplaced "a map" ts)

def tree (levels : Nat) (ts : List Token) : Except Error (Tree × Rest ts) :=
  match ts with
  | .null :: rest => .ok (.null, ⟨rest, by simp⟩)
  | .bool b :: rest => .ok (.bool b, ⟨rest, by simp⟩)
  | .number literal :: rest =>
    match literal.number? with
    | some n => .ok (.number n, ⟨rest, by simp⟩)
    | none => .error (.text .numberTooLarge)
  | .string s :: rest => .ok (.string s, ⟨rest, by simp⟩)
  | .openArray :: rest =>
    match levels with
    | 0 => .error (.text .tooDeep)
    | levels + 1 => do
      let (all, ⟨rest, h⟩) ← itemsOfOpen (tree levels) rest
      .ok (.array all, ⟨rest, by simp; omega⟩)
  | .openObject :: rest =>
    match levels with
    | 0 => .error (.text .tooDeep)
    | levels + 1 => do
      let (all, ⟨rest, h⟩) ← membersOfOpen (entry (tree levels)) [] rest
      .ok (.object all, ⟨rest, by simp; omega⟩)
  | ts => .error (misplaced "any value" ts)
termination_by structural levels

structure FieldReader (σ : Type) where
  key : String
  read : Reader (σ → σ)

/-- A known key may occur once. The value of an unknown one is passed. -/
def field (fields : List (FieldReader σ)) : MemberReader (List String × σ) := fun key (seen, record) =>
  match fields.find? (·.key = key) with
  | some known =>
    if key ∈ seen then .error (.shape (.duplicateField key))
    else .ok (mapped (fun update => (key :: seen, update record)) known.read)
  | none => .ok (mapped (fun () => (seen, record)) skip)

def values (record : σ) (first : Bool) :
    List (FieldReader σ) → (ts : List Token) → Except Error (σ × Rest ts)
  | [], .closeArray :: rest => .ok (record, ⟨rest, by simp⟩)
  | [], .comma :: .closeArray :: _ => .error (.text .trailingComma)
  | [], [] => .error (.text (.ended .list))
  | [], _ => .error (.text .trailingCharacters)
  | _ :: _, .closeArray :: rest => .ok (record, ⟨rest, by simp⟩)
  | _ :: _, [] => .error (.text (.ended .list))
  | next :: fields, t :: rest =>
    if first then do
      let (update, ⟨rest, h⟩) ← next.read (t :: rest)
      let (record, ⟨rest, _⟩) ← values (update record) false fields rest
      .ok (record, ⟨rest, by omega⟩)
    else
      match t, rest with
      | .comma, .closeArray :: _ => .error (.text .trailingComma)
      | .comma, [] => .error (.text (.ended .value))
      | .comma, rest => do
        let (update, ⟨rest, h⟩) ← next.read rest
        let (record, ⟨rest, _⟩) ← values (update record) false fields rest
        .ok (record, ⟨rest, by simp; omega⟩)
      | _, _ => .error (.text .expectedCommaOrBracket)

/--
Reads a record that is written as an object, or as an array of the values of its fields. `start` is the record
of which no field was given.
-/
def record (wanted : String) (fields : List (FieldReader σ)) (start : σ) (levels : Nat) : Reader σ
  | .openArray :: rest =>
    if levels = 0 then .error (.text .tooDeep)
    else do
      let (all, ⟨rest, h⟩) ← values start true fields rest
      .ok (all, ⟨rest, by simp; omega⟩)
  | .openObject :: rest =>
    if levels = 0 then .error (.text .tooDeep)
    else do
      let ((_, all), ⟨rest, h⟩) ← membersOfOpen (field fields) ([], start) rest
      .ok (all, ⟨rest, by simp; omega⟩)
  | ts => .error (misplaced wanted ts)

def readText (read : Reader α) (text : String) : Except Error α := do
  let (value, ⟨rest, _⟩) ← read (tokens text.toList)
  match rest with
  | [] => .ok value
  | _ :: _ => .error (.text .trailingCharacters)

end Groupwise.Json
