import Groupwise.Proofs.Override.Order
import Groupwise.Proofs.Text.ByteOrder

namespace Groupwise

namespace Members

def before {α : Type} (name : String) (entries : Members α) : Members α :=
  entries.filter fun entry => Text.bytes entry.1 < Text.bytes name

theorem before_append_cons {α : Type} {front back : Members α} {name : String} {value : α}
    (h : Ascending (front ++ (name, value) :: back)) : before name (front ++ (name, value) :: back) = front := by
  obtain ⟨-, hrest, hfront⟩ := List.pairwise_append.1 (Ascending.pairwise h)
  have hbefore : ∀ entry ∈ front, Text.bytes entry.1 < Text.bytes name := fun entry hentry =>
    Text.bytes_lt_bytes (hfront entry hentry (name, value) List.mem_cons_self)
  have hafter : ∀ entry ∈ back, ¬ Text.bytes entry.1 < Text.bytes name := by
    intro entry hentry hlt
    exact List.lt_asymm hlt (Text.bytes_lt_bytes ((List.pairwise_cons.1 hrest).1 entry hentry))
  rw [before, List.filter_append, List.filter_eq_self.2 (by simpa using hbefore),
    List.filter_cons_of_neg (by simp), List.filter_eq_nil_iff.2 (by simpa using hafter), List.append_nil]

structure FirstOverlong (path : String) (entries : Members Tree) : Prop where
  mem : path ∈ entries.keys
  long : 64 < (keysOf path).length
  least : ∀ other ∈ entries.keys, 64 < (keysOf other).length → other ≠ path → Text.bytes path < Text.bytes other

theorem firstOverlong_of_overlong? {entries : Members Tree} {path : String} (hkeys : entries.Ascending)
    (h : overlong? entries = some path) : FirstOverlong path entries := by
  obtain ⟨hmem, hlong, hleast⟩ := le_of_overlong?_eq_some hkeys h
  refine ⟨hmem, Nat.lt_of_not_le hlong, fun other hother hlong' hne => Text.bytes_lt_bytes ?_⟩
  exact Std.lt_of_le_of_ne (hleast other hother (Nat.not_le_of_gt hlong')) hne.symm

end Members

namespace Properties

variable {entries : Members Tree}

theorem fault_overrideAll_eq_none (entries : Members Tree) (properties : Properties) :
    (properties.overrideAll entries).fault = none ↔ ∀ path ∈ Members.keys entries, Fits path := by
  rw [fault_overrideAll, Option.map_eq_none_iff, overlong?_eq_none]

theorem overrideAll_of_overlong? (hkeys : entries.Ascending) {path : String} (h : overlong? entries = some path)
    (properties : Properties) :
    ∃ left log, properties.overrideAll (entries.before path) = ⟨left, log, none⟩ ∧
      properties.overrideAll entries = ⟨left, log ++ [.applying path], some (overlong path)⟩ := by
  obtain ⟨front, back, value, rfl, hfront, hpath⟩ := exists_of_overlong?_eq_some h
  rw [Members.before_append_cons hkeys]
  exact ⟨_, _, overrideAll_of_fits hfront properties, overrideAll_of_overlong hfront hpath value properties⟩

/--
Overrides fail if and only if one of their paths has more than 64 keys. The error names the first such path in the order
of the bytes and counts its keys. The properties that are left behind are those which the overrides before that path
alone would have led to. Where none fails, a value is found at its path again, unless another path goes on from there.
-/
theorem overrideAll_stops (hkeys : entries.Ascending) (properties : Properties) :
    ((properties.overrideAll entries).fault ≠ none ↔ ∃ path ∈ entries.keys, 64 < (keysOf path).length) ∧
    (∀ fault, (properties.overrideAll entries).fault = some fault →
      ∃ path left log, entries.FirstOverlong path ∧ fault = .invalid path (.tooManyKeys (keysOf path).length) ∧
        properties.overrideAll (entries.before path) = ⟨left, log, none⟩ ∧
        properties.overrideAll entries = ⟨left, log ++ [.applying path], some fault⟩) ∧
    ((properties.overrideAll entries).fault = none → ∀ path value, (path, value) ∈ entries →
      (∀ other ∈ entries.keys, ¬ Through (keysOf path) (keysOf other)) →
      (properties.overrideAll entries).properties.lookup (keysOf path) = some value) := by
  refine ⟨?_, ?_, ?_⟩
  · rw [Ne, fault_overrideAll_eq_none]
    simp [Fits, maxKeys]
  · intro fault hfault
    rw [fault_overrideAll] at hfault
    obtain ⟨path, hpath, rfl⟩ := Option.map_eq_some_iff.1 hfault
    obtain ⟨left, log, hbefore, hall⟩ := overrideAll_of_overlong? hkeys hpath properties
    exact ⟨path, left, log, Members.firstOverlong_of_overlong? hkeys hpath, rfl, hbefore, hall⟩
  · intro hfault path value hmem hlonger
    rw [overrideAll_of_fits ((fault_overrideAll_eq_none entries properties).1 hfault)]
    have hlookup := lookup_writeAll_writesOf hkeys hmem List.prefix_rfl
      (fun other hother hthrough => absurd hthrough (hlonger other hother)) properties
    rw [hlookup, List.drop_length, Tree.lookup]

theorem overrideAll_stops_between :
    let one : Tree := .number (.integer 1)
    let long := "b" ++ String.ofList (List.replicate 64 '.')
    let longer := "é" ++ String.ofList (List.replicate 70 '.')
    let entries : Members Tree := [("a.x", one), (long, .null), ("c", .null), (longer, .null), ("ü", .null)]
    let properties : Properties := [("a", .bool true), ("c", one)]
    let left : Properties := [("a", .object [("x", one)]), ("c", one)]
    entries.FirstOverlong long ∧ ∃ log, properties.overrideAll (entries.before long) = ⟨left, log, none⟩ ∧
      properties.overrideAll entries = ⟨left, log ++ [.applying long], some (.invalid long (.tooManyKeys 65))⟩ := by
  intro one long longer entries properties left
  have hkeys : entries.Ascending := by decide +kernel
  have hfault : (properties.overrideAll entries).fault = some (.invalid long (.tooManyKeys 65)) := by decide +kernel
  have hleft : (properties.overrideAll entries).properties = left := by decide +kernel
  obtain ⟨path, left', log, hfirst, hpath, hbefore, hall⟩ := (overrideAll_stops hkeys properties).2.1 _ hfault
  obtain rfl : left' = left := by rw [← hleft, hall]
  obtain ⟨rfl, -⟩ := Error.invalid.inj hpath
  exact ⟨hfirst, log, hbefore, hall⟩

end Properties

end Groupwise
