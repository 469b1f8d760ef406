/-
The bytes of a text. The first byte of a character can be told from the others, and from the bytes of
a character on it can be told which it is. So the bytes of a text are found among those of another
just where the text itself stands in the other, and never in the middle of a character.
-/
import Mathlib.Data.List.Basic
import Triage.Proofs.Text.Lines

namespace Triage.Storage

variable {a b key text front back : String} {cs ds : List Char} {c d : Char} {p : Nat}

/-! ## Bytes of characters -/

theorem bytesOf_eq (text : String) :
    bytesOf text = text.toList.flatMap String.utf8EncodeChar := by
  have hbytes : text.toUTF8 = (text.toList.flatMap String.utf8EncodeChar).toByteArray := by
    conv_lhs => rw [← String.ofList_toList (s := text)]
    rfl
  have hsame := congrArg ByteArray.data (toList_bytes text.toUTF8)
  rw [← Array.toList_inj, hbytes, List.data_toByteArray] at hsame
  rw [bytesOf, hbytes]
  exact hsame

@[simp] theorem bytesOf_append (a b : String) : bytesOf (a ++ b) = bytesOf a ++ bytesOf b := by
  simp [bytesOf_eq]

@[simp] theorem length_bytesOf (text : String) : (bytesOf text).length = text.utf8ByteSize := by
  rw [bytesOf_eq, ← List.size_toByteArray, ← String.size_toByteArray]
  conv_rhs => rw [← String.ofList_toList (s := text)]
  rfl

theorem bytesOf_injective (h : bytesOf a = bytesOf b) : a = b := by
  have hread := textOf_bytesOf a
  rw [h, textOf_bytesOf] at hread
  exact (Except.ok.inj hread).symm

/-- The characters of a text are told by its bytes one after the other. -/
theorem prefix_of_prefix_bytes
    (h : cs.flatMap String.utf8EncodeChar <+: ds.flatMap String.utf8EncodeChar) : cs <+: ds := by
  obtain ⟨rest, hrest⟩ := h
  refine List.isPrefix_of_utf8Encode_append_eq_utf8Encode rest.toByteArray ?_
  rw [List.utf8Encode, List.utf8Encode, ← hrest, List.toByteArray_append]

theorem prefix_bytesOf_iff : bytesOf key <+: bytesOf text ↔ key.toList <+: text.toList := by
  rw [bytesOf_eq, bytesOf_eq]
  constructor
  · exact prefix_of_prefix_bytes
  · rintro ⟨rest, hrest⟩
    rw [← hrest, List.flatMap_append]
    exact List.prefix_append _ _

/-- A character of one byte is found in no other character. -/
theorem eq_of_byte_mem {m : UInt8} (hd : String.utf8EncodeChar d = [m])
    (h : m ∈ String.utf8EncodeChar c) : c = d := by
  obtain ⟨i, hi, rfl⟩ := List.getElem_of_mem h
  have hfirst : (String.utf8EncodeChar c)[i].IsUTF8FirstByte := by
    have hlength : 0 < (String.utf8EncodeChar d).length := by simp [hd]
    have hown : (String.utf8EncodeChar d)[0].IsUTF8FirstByte :=
      UInt8.isUTF8FirstByte_getElem_utf8EncodeChar.2 rfl
    simpa [hd] using hown
  obtain rfl : i = 0 := UInt8.isUTF8FirstByte_getElem_utf8EncodeChar.1 hfirst
  have hprefix : [d] <+: [c] := by
    refine prefix_of_prefix_bytes ?_
    rw [List.flatMap_singleton, List.flatMap_singleton, hd]
    exact ⟨(String.utf8EncodeChar c).drop 1, (List.drop_eq_getElem_cons hi).symm⟩
  simpa [eq_comm] using hprefix.eq_of_length rfl

/-! ## Places of characters -/

/-- Bytes with the first of a character at their front begin at a character of a text. -/
theorem exists_append_of_first {m : UInt8} (hm : m.IsUTF8FirstByte)
    (h : (cs.flatMap String.utf8EncodeChar)[p]? = some m) :
    ∃ front back, cs = front ++ back ∧ (front.flatMap String.utf8EncodeChar).length = p := by
  induction cs generalizing p with
  | nil => simp at h
  | cons c rest ih =>
    rw [List.flatMap_cons] at h
    by_cases hp : p < (String.utf8EncodeChar c).length
    · rw [List.getElem?_append_left hp, List.getElem?_eq_getElem hp, Option.some_inj] at h
      obtain rfl : p = 0 := UInt8.isUTF8FirstByte_getElem_utf8EncodeChar.1 (h ▸ hm)
      exact ⟨[], c :: rest, rfl, rfl⟩
    · rw [List.getElem?_append_right (Nat.le_of_not_lt hp)] at h
      obtain ⟨front, back, rfl, hlength⟩ := ih h
      refine ⟨c :: front, back, rfl, ?_⟩
      rw [List.flatMap_cons, List.length_append, hlength]
      omega

/-- What is not empty is found among the bytes of a text only where the text can be divided. -/
theorem exists_append_of_prefix (hkey : key ≠ "") (h : bytesOf key <+: (bytesOf text).drop p) :
    ∃ front back, text = front ++ back ∧ front.utf8ByteSize = p := by
  obtain ⟨c, rest, hchars⟩ := List.exists_cons_of_ne_nil (mt String.toList_eq_nil_iff.1 hkey)
  have hlength := List.length_pos_of_ne_nil (String.utf8EncodeChar_ne_nil (c := c))
  have hfirst : (String.utf8EncodeChar c)[0].IsUTF8FirstByte :=
    UInt8.isUTF8FirstByte_getElem_utf8EncodeChar.2 rfl
  have hhead : (bytesOf text)[p]? = some (String.utf8EncodeChar c)[0] := by
    obtain ⟨more, hmore⟩ := h
    have hget := congrArg (·[0]?) hmore
    simp only [List.getElem?_drop, Nat.add_zero] at hget
    rw [← hget, bytesOf_eq, hchars, List.flatMap_cons, List.append_assoc,
      List.getElem?_append_left hlength, List.getElem?_eq_getElem hlength]
  rw [bytesOf_eq] at hhead
  obtain ⟨front, back, hsplit, hp⟩ := exists_append_of_first hfirst hhead
  refine ⟨String.ofList front, String.ofList back, ?_, ?_⟩
  · rw [← String.ofList_append, ← hsplit, String.ofList_toList]
  · rw [← length_bytesOf, bytesOf_eq, String.toList_ofList, hp]

/-- Texts divided at one byte are divided alike. -/
theorem append_inj_of_size {other more : String} (h : front ++ back = other ++ more)
    (hsize : front.utf8ByteSize = other.utf8ByteSize) : front = other ∧ back = more := by
  have hbytes := congrArg bytesOf h
  rw [bytesOf_append, bytesOf_append] at hbytes
  obtain ⟨hfront, hback⟩ := List.append_inj hbytes (by simpa using hsize)
  exact ⟨bytesOf_injective hfront, bytesOf_injective hback⟩

/-- A text is divided before a character or behind it, and nowhere in between. -/
theorem eq_of_append_within {other more : String}
    (h : other ++ more = front ++ String.ofList [c] ++ back)
    (hle : front.utf8ByteSize ≤ other.utf8ByteSize)
    (hlt : other.utf8ByteSize < (front ++ String.ofList [c]).utf8ByteSize) : other = front := by
  have hchars := congrArg String.toList h
  simp only [String.toList_append, String.toList_ofList, List.append_assoc] at hchars
  rcases List.append_eq_append_iff.1 hchars with ⟨rest, hrest, -⟩ | ⟨rest, hrest, htail⟩
  · have hfront : front = other ++ String.ofList rest := by
      rw [← String.toList_inj, hrest, String.toList_append, String.toList_ofList]
    rw [hfront, String.utf8ByteSize_append] at hle
    have hempty : String.ofList rest = "" := String.utf8ByteSize_eq_zero_iff.1 (by omega)
    rw [hfront, hempty, String.append_empty]
  · cases rest with
    | nil => rw [← String.toList_inj, hrest, List.append_nil]
    | cons d rest =>
      -- With the character the beginning reaches too far.
      obtain rfl : c = d := (List.cons.inj htail).1
      have hother : other = front ++ String.ofList [c] ++ String.ofList rest := by
        rw [← String.toList_inj, hrest]
        simp
      rw [hother, String.utf8ByteSize_append] at hlt
      omega

/-! ## Slices -/

/-- Whether bytes can be cut at a place: a character begins there, or they end. -/
def isBoundary (bytes : List UInt8) (p : Nat) : Bool :=
  match bytes[p]? with
  | some m => decide m.IsUTF8FirstByte
  | none => p == bytes.length

/-- The text between two bytes of a text, if it can be cut at both. -/
def textBetween? (text : String) (first last : Nat) : Option String :=
  if first ≤ last ∧ isBoundary (bytesOf text) first ∧ isBoundary (bytesOf text) last then
    (textOf (((bytesOf text).drop first).take (last - first))).toOption
  else none

theorem isBoundary_append (front back : String) :
    isBoundary (bytesOf (front ++ back)) front.utf8ByteSize = true := by
  unfold isBoundary
  rw [bytesOf_append, ← length_bytesOf, List.getElem?_append_right (Nat.le_refl _), Nat.sub_self]
  cases hback : back.toList with
  | nil => simp [bytesOf_eq back, hback]
  | cons c rest =>
    have hlength := List.length_pos_of_ne_nil (String.utf8EncodeChar_ne_nil (c := c))
    rw [bytesOf_eq back, hback, List.flatMap_cons, List.getElem?_append_left hlength,
      List.getElem?_eq_getElem hlength]
    exact decide_eq_true (UInt8.isUTF8FirstByte_getElem_utf8EncodeChar.2 rfl)

/-- What stands between two parts of a text is the slice between them. -/
theorem textBetween?_append (front middle back : String) :
    textBetween? (front ++ middle ++ back) front.utf8ByteSize (front ++ middle).utf8ByteSize =
      some middle := by
  have hfirst := isBoundary_append front (middle ++ back)
  rw [← String.append_assoc] at hfirst
  have hbytes : ((bytesOf (front ++ middle ++ back)).drop front.utf8ByteSize).take
      ((front ++ middle).utf8ByteSize - front.utf8ByteSize) = bytesOf middle := by
    simp [← length_bytesOf, List.append_assoc]
  unfold textBetween?
  rw [if_pos ⟨by simp, hfirst, isBoundary_append (front ++ middle) back⟩, hbytes, textOf_bytesOf]
  rfl

end Triage.Storage
