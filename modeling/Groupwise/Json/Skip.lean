import Groupwise.Json.Lexer

namespace Groupwise.Json

inductive Bracket where
  | array
  | object
  deriving DecidableEq, Repr

mutual
def skipValue (brackets : List Bracket) : List Token → Except Fault (List Token)
  | [] => .error (.ended .value)
  | .null :: rest | .bool _ :: rest | .number _ :: rest | .string _ :: rest | .unreadable _ :: rest =>
    skipOn brackets rest
  | .openArray :: .closeArray :: rest => skipOn brackets rest
  | .openArray :: [] => .error (.ended .list)
  | .openArray :: rest => skipValue (.array :: brackets) rest
  | .openObject :: .closeObject :: rest => skipOn brackets rest
  | .openObject :: rest => skipMember brackets rest
  | .broken _ fault :: _ | .brokenString _ fault :: _ => .error fault
  | _ => .error .expectedValue

def skipOn : List Bracket → List Token → Except Fault (List Token)
  | [], rest => .ok rest
  | .array :: _, [] => .error (.ended .list)
  | .array :: outer, .comma :: rest => skipValue (.array :: outer) rest
  | .array :: outer, .closeArray :: rest => skipOn outer rest
  | .array :: _, _ => .error .expectedCommaOrBracket
  | .object :: _, [] => .error (.ended .object)
  | .object :: outer, .comma :: rest => skipMember outer rest
  | .object :: outer, .closeObject :: rest => skipOn outer rest
  | .object :: _, _ => .error .expectedCommaOrBrace

def skipMember (outer : List Bracket) : List Token → Except Fault (List Token)
  | [] => .error (.ended .object)
  | .string _ :: .colon :: rest | .unreadable _ :: .colon :: rest => skipValue (.object :: outer) rest
  | .string _ :: [] | .unreadable _ :: [] => .error (.ended .object)
  | .string _ :: _ | .unreadable _ :: _ => .error .expectedColon
  | .brokenString _ fault :: _ => .error fault
  | _ => .error .keyNotString
end

mutual
theorem length_skipValue {brackets : List Bracket} {ts rest : List Token}
    (h : skipValue brackets ts = .ok rest) : rest.length < ts.length := by
  unfold skipValue at h
  split at h <;> try contradiction
  case h_2 | h_3 | h_4 | h_5 | h_6 | h_7 | h_10 =>
    have := length_skipOn h
    simp only [List.length_cons]
    omega
  case h_9 =>
    have := length_skipValue h
    simp only [List.length_cons]
    omega
  case h_11 =>
    have := length_skipMember h
    simp only [List.length_cons]
    omega

theorem length_skipOn {brackets : List Bracket} {ts rest : List Token}
    (h : skipOn brackets ts = .ok rest) : rest.length ≤ ts.length := by
  unfold skipOn at h
  split at h <;> try contradiction
  case h_1 => simp_all
  case h_3 =>
    have := length_skipValue h
    simp only [List.length_cons]
    omega
  case h_4 | h_8 =>
    have := length_skipOn h
    simp only [List.length_cons]
    omega
  case h_7 =>
    have := length_skipMember h
    simp only [List.length_cons]
    omega

theorem length_skipMember {brackets : List Bracket} {ts rest : List Token}
    (h : skipMember brackets ts = .ok rest) : rest.length < ts.length := by
  unfold skipMember at h
  split at h <;> try contradiction
  all_goals
    have := length_skipValue h
    simp only [List.length_cons]
    omega
end

end Groupwise.Json
