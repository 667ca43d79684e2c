import InventoryFeed.Http.Decoding
import Mathlib.Tactic.Common

/-!
# The bytes of a text

The bytes of a text are read as that text and as no other, and where the bytes of one text are the first of
the bytes of another, its characters are the first of the other's characters.
-/

namespace InventoryFeed.Http

theorem bytes_append (cs ds : List Char) : bytes (cs ++ ds) = bytes cs ++ bytes ds :=
  List.flatMap_append

theorem bytes_cons (c : Char) (cs : List Char) : bytes (c :: cs) = String.utf8EncodeChar c ++ bytes cs :=
  List.flatMap_cons

theorem bytes_ne_nil (c : Char) (cs : List Char) : bytes (c :: cs) ≠ [] := by
  rw [bytes_cons]
  exact List.append_ne_nil_of_left_ne_nil String.utf8EncodeChar_ne_nil _

/-- The bytes of characters as core has them. -/
theorem utf8Encode_eq (cs : List Char) : cs.utf8Encode = ⟨(bytes cs).toArray⟩ :=
  ByteArray.ext List.data_toByteArray

/-- The bytes of a text are read as that text. -/
theorem textOf_bytes (cs : List Char) : textOf? (bytes cs) = some (String.ofList cs) := by
  rw [textOf?, ← utf8Encode_eq, String.fromUTF8?, dif_pos ByteArray.isValidUTF8_utf8Encode]
  exact congrArg some (String.toByteArray_inj.mp String.toByteArray_ofList.symm)

/-- Bytes that are read as a text are its bytes. -/
theorem eq_bytes_of_textOf {wire : List UInt8} {text : String} (h : textOf? wire = some text) :
    wire = bytes text.toList := by
  unfold textOf? String.fromUTF8? at h
  split at h
  · rename_i hvalid
    have hencode : text.toList.utf8Encode = text.toByteArray := String.utf8Encode_toList
    obtain rfl : String.fromUTF8 ⟨wire.toArray⟩ hvalid = text := Option.some.inj h
    have harray := congrArg ByteArray.data (utf8Encode_eq _ ▸ hencode)
    exact (Array.toList_inj.mpr harray).symm
  · cases h

/-- Where bytes of a text come first, so do its characters. -/
theorem prefix_of_bytes_prefix {cs ds : List Char} (h : bytes cs <+: bytes ds) : cs <+: ds := by
  induction cs generalizing ds with
  | nil => exact List.nil_prefix
  | cons c cs ih =>
    cases ds with
    | nil => exact absurd (List.prefix_nil.mp h) (bytes_ne_nil c cs)
    | cons d ds =>
      have hfirst : ∀ (c : Char) (rest : List UInt8),
          (String.utf8EncodeChar c ++ rest).toByteArray.utf8DecodeChar? 0 = some c := by
        intro c rest
        rw [List.toByteArray_append, ByteArray.utf8DecodeChar?_utf8EncodeChar_append]
      obtain ⟨more, hmore⟩ := h
      rw [bytes_cons, bytes_cons, List.append_assoc] at hmore
      have hc := hfirst c (bytes cs ++ more)
      rw [hmore, hfirst d] at hc
      cases hc
      exact List.cons_prefix_cons.mpr ⟨rfl, ih ⟨more, List.append_cancel_left hmore⟩⟩

end InventoryFeed.Http
