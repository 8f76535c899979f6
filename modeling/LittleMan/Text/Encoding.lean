/-!
# UTF-8

Texts as bytes and back. Encoding is character by character; a byte stream that is not well formed
has no text.

## Main definitions

* `Text.encode` — the bytes of a text
* `Text.decode` — the text of a byte stream, if it is well formed

## Main results

* `Text.decode_encode`, `Text.eq_encode_of_decode` — decoding accepts exactly what encoding produces
-/

namespace LittleMan

namespace Text

/-- The bytes of a text. -/
def encode (s : List Char) : List UInt8 :=
  s.flatMap String.utf8EncodeChar

/-- The text that a byte stream encodes, unless the stream is not well formed. -/
def decode (bytes : List UInt8) : Option (List Char) :=
  bytes.toByteArray.utf8Decode?.map Array.toList

@[simp] theorem encode_nil : encode [] = [] := rfl

theorem encode_append (s t : List Char) : encode (s ++ t) = encode s ++ encode t := by
  simp [encode]

theorem toByteArray_encode (s : List Char) : (encode s).toByteArray = s.utf8Encode := rfl

/-- Decoding gives back what was encoded. -/
theorem decode_encode (s : List Char) : decode (encode s) = some s := by
  simp [decode, toByteArray_encode, List.utf8Decode?_utf8Encode]

/-- Only what was encoded can be decoded. -/
theorem eq_encode_of_decode {bytes : List UInt8} {s : List Char} (h : decode bytes = some s) :
    bytes = encode s := by
  obtain ⟨chars, hchars, rfl⟩ := Option.map_eq_some_iff.1 h
  have hsome : bytes.toByteArray.utf8Decode?.isSome = true := by simp [hchars]
  have hget := ByteArray.utf8Encode_get_utf8Decode? (h := hsome)
  simp only [hchars, Option.get_some] at hget
  rw [← toByteArray_encode, ByteArray.ext_iff, List.data_toByteArray, List.data_toByteArray] at hget
  simpa using congrArg Array.toList hget.symm

end Text

end LittleMan
