import Groupwise.Text.Blank

namespace Groupwise.Text

theorem not_mem_of_mem_splitOn {c : Char} {text part : List Char} (h : part ∈ text.splitOn c) : c ∉ part := by
  induction text generalizing part with
  | nil =>
      rw [List.splitOn_nil] at h
      obtain rfl := List.mem_singleton.1 h
      simp
  | cons d text ih =>
      rw [List.splitOn_cons_eq_if_modifyHead] at h
      split at h
      · rcases List.mem_cons.1 h with rfl | h
        · simp
        · exact ih h
      · next hne =>
        obtain ⟨first, others, hsplit⟩ := List.exists_cons_of_ne_nil (List.splitOn_ne_nil c text)
        rw [hsplit, List.modifyHead_cons] at h
        rw [hsplit] at ih
        rcases List.mem_cons.1 h with rfl | h
        · have hd : c ≠ d := fun heq => hne (by simp [heq])
          exact List.not_mem_cons_of_ne_of_not_mem hd (ih List.mem_cons_self)
        · exact ih (List.mem_cons_of_mem first h)

theorem head?_dropWhile (p : Char → Bool) (s : List Char) : ∀ x ∈ (s.dropWhile p).head?, p x = false := by
  intro x hx
  have hhead := List.head?_dropWhile_not p s
  rw [Option.mem_def.1 hx] at hhead
  exact hhead

theorem byteSize_ofList (s : List Char) : (String.ofList s).utf8ByteSize = byteSize s := by
  induction s with
  | nil => rfl
  | cons c s ih =>
      rw [← List.singleton_append, String.ofList_append, String.utf8ByteSize_append, ih, ← String.singleton_eq_ofList,
        String.utf8ByteSize_singleton]
      rfl

theorem byteSize_toList (text : String) : byteSize text.toList = text.utf8ByteSize := by
  rw [← byteSize_ofList, String.ofList_toList]

/-- What stands between two byte offsets, if they are in order and neither of them is inside of a character. -/
def slice? (text : String) (start stop : Nat) : Option String := do
  let first ← text.pos? ⟨start⟩
  let last ← text.pos? ⟨stop⟩
  let slice ← text.slice? first last
  some slice.copy

variable {text front middle back : String}

theorem exists_pos?_of_append (h : text = front ++ back) :
    ∃ p : text.Pos, text.pos? ⟨front.utf8ByteSize⟩ = some p ∧ p.offset = ⟨front.utf8ByteSize⟩ := by
  have hvalid : String.Pos.Raw.IsValid text ⟨front.utf8ByteSize⟩ :=
    String.Pos.Raw.isValid_iff_exists_append.2 ⟨front, back, h, rfl⟩
  refine ⟨text.pos _ hvalid, ?_, rfl⟩
  rw [String.pos?, String.Slice.pos?, dif_pos (String.Pos.Raw.isValidForSlice_eq_true_iff.2 hvalid.toSlice)]
  rfl

theorem slice?_of_append (h : text = front ++ middle ++ back) :
    slice? text front.utf8ByteSize (front.utf8ByteSize + middle.utf8ByteSize) = some middle := by
  obtain ⟨first, hfirst, hstart⟩ := exists_pos?_of_append (h.trans (String.append_assoc ..))
  obtain ⟨last, hlast, hstop⟩ := exists_pos?_of_append h
  rw [String.utf8ByteSize_append] at hlast hstop
  have hle : first ≤ last := by
    rw [String.Pos.le_iff, hstart, hstop]
    exact Nat.le_add_right _ _
  have hslice : text.slice? first last = some (text.slice first last hle) := dif_pos hle
  have hbytes : (text.slice first last hle).copy.toByteArray = middle.toByteArray := by
    rw [String.toByteArray_copy_slice, hstart, hstop, h, String.toByteArray_append, String.toByteArray_append,
      ByteArray.append_assoc]
    calc (front.toByteArray ++ (middle.toByteArray ++ back.toByteArray)).extract (front.toByteArray.size + 0)
          (front.toByteArray.size + middle.toByteArray.size)
      _ = (middle.toByteArray ++ back.toByteArray).extract 0 middle.toByteArray.size := ByteArray.extract_append_size_add
      _ = middle.toByteArray := ByteArray.extract_append_eq_left rfl
  rw [slice?, hfirst, Option.bind_eq_bind, Option.bind_some, hlast, Option.bind_eq_bind, Option.bind_some, hslice]
  exact congrArg some (String.toByteArray_inj.1 hbytes)

end Groupwise.Text
