import LittleMan.ProgramFile
import LittleMan.Proofs.ProgramText

/-!
# Programs from byte streams

A stream of bytes is cut into lines first, and then each of the lines is decoded by itself. Nothing
comes of it if one of them is not well formed. It might be thought that this accepts streams which
have no text, or the lines of a text with some other cut; but the bytes that end a line stand for
themselves wherever they are, so a stream is well formed if and only if its lines are.

Reading therefore comes to the same as decoding the whole stream and reading the text, which may end
its lines as it likes.

## Main definitions

* `Text.WellFormed` — a stream encodes some text

## Main results

* `Text.wellFormed_iff_forall_byteLines` — a stream is well formed line by line
* `ProgramText.read_stream` — a stream is read as its text, or not at all
-/

namespace LittleMan

namespace Text

/-! ### Well-formed streams -/

/-- The stream encodes some text. -/
def WellFormed (bytes : List UInt8) : Prop :=
  ∃ s, encode s = bytes

theorem wellFormed_iff_decode {bytes : List UInt8} :
    WellFormed bytes ↔ ∃ s, decode bytes = some s := by
  constructor
  · rintro ⟨s, rfl⟩
    exact ⟨s, decode_encode s⟩
  · rintro ⟨s, h⟩
    exact ⟨s, (eq_encode_of_decode h).symm⟩

/-- What is well formed here is what is valid as the bytes of a string. -/
theorem wellFormed_iff_isValidUTF8 {bytes : List UInt8} :
    WellFormed bytes ↔ bytes.toByteArray.IsValidUTF8 := by
  constructor
  · rintro ⟨s, rfl⟩
    exact ⟨s, rfl⟩
  · rintro ⟨s, hs⟩
    rw [← toByteArray_encode] at hs
    exact ⟨s, (List.toByteArray_inj.1 hs).symm⟩

theorem WellFormed.append {xs ys : List UInt8} (hx : WellFormed xs) (hy : WellFormed ys) :
    WellFormed (xs ++ ys) := by
  obtain ⟨s, rfl⟩ := hx
  obtain ⟨t, rfl⟩ := hy
  exact ⟨s ++ t, encode_append s t⟩

theorem wellFormed_feed : WellFormed [10] :=
  ⟨['\n'], rfl⟩

theorem wellFormed_return : WellFormed [13] :=
  ⟨['\r'], rfl⟩

/-- The return symbol that belongs to the end of a line does not matter. -/
theorem wellFormed_of_dropReturn {line : List UInt8} (h : WellFormed (dropReturn 13 line)) :
    WellFormed line := by
  rcases eq_dropReturn_or 13 line with hline | hline
  · rwa [hline]
  · rw [hline]
    exact h.append wellFormed_return

/-- **Well formed line by line.** A stream encodes some text if and only if each of its lines
does. -/
theorem wellFormed_iff_forall_byteLines {bytes : List UInt8} :
    WellFormed bytes ↔ ∀ line ∈ byteLines bytes, WellFormed line := by
  constructor
  · rintro ⟨s, rfl⟩ line hline
    rw [byteLines_encode] at hline
    obtain ⟨t, -, rfl⟩ := List.mem_map.1 hline
    exact ⟨t, rfl⟩
  · intro h
    induction bytes using line_induction (10 : UInt8) with
    | unended s hfeed =>
      by_cases hne : s = []
      · rw [hne]
        exact ⟨[], rfl⟩
      · rw [byteLines, linesBy_of_feed_not_mem hne hfeed] at h
        exact h s List.mem_cons_self
    | ended line rest hfeed ih =>
      rw [byteLines, linesBy_append_feed_cons hfeed, List.forall_mem_cons] at h
      have hline := wellFormed_of_dropReturn h.1
      exact hline.append (wellFormed_feed.append (ih h.2))

end Text

namespace ProgramText

/-! ### Reading -/

/-- A stream has a text only if it is well formed. -/
theorem wellFormed_of_streamText {bytes : List UInt8} {source : String}
    (h : streamText bytes = some source) : Text.WellFormed bytes := by
  obtain ⟨lines, hlines, -⟩ := Option.map_eq_some_iff.1 h
  rw [mapM_eq_some_iff] at hlines
  refine Text.wellFormed_iff_forall_byteLines.2 fun line hline => ?_
  have hanswer : Text.decode line ∈ lines.map some := hlines ▸ List.mem_map_of_mem hline
  obtain ⟨s, -, hs⟩ := List.mem_map.1 hanswer
  exact Text.wellFormed_iff_decode.2 ⟨s, hs.symm⟩

theorem read_of_not_wellFormed {bytes : List UInt8} (h : ¬Text.WellFormed bytes) :
    read bytes = none := by
  cases hstream : streamText bytes with
  | none => rw [read, hstream, Option.map_none]
  | some source => exact absurd (wellFormed_of_streamText hstream) h

/-- The bytes of a string are those that its characters are encoded by. -/
theorem eq_encode_of_toByteArray {bytes : List UInt8} {source : String}
    (h : source.toByteArray = bytes.toByteArray) : bytes = Text.encode source.toList := by
  rw [← String.utf8Encode_toList, ← Text.toByteArray_encode] at h
  exact (List.toByteArray_inj.1 h).symm

/-- A file whose bytes are known has the program that is read from them, or is not text. -/
theorem ofFile_ok (bytes : List UInt8) :
    ofFile (.ok bytes) = (read bytes).elim (.error .notText) .ok := by
  rw [ofFile]
  cases read bytes <;> rfl

/-- **A stream is read as its text, or not at all.** If the bytes are valid UTF-8, then the program
that is read from them is the one that is read from the string with these bytes: the same words, and
the same skipped lines with the same numbers, however its lines end. If they are not, wherever the
fault is, then no program is read, and the reason that is given is that the bytes are not text. -/
theorem read_stream (bytes : List UInt8) :
    (∀ h : bytes.toByteArray.IsValidUTF8,
      let source := String.ofByteArray bytes.toByteArray h
      read bytes = some (parse source) ∧ ofFile (.ok bytes) = .ok (parse source)) ∧
    (¬bytes.toByteArray.IsValidUTF8 →
      read bytes = none ∧ ofFile (.ok bytes) = .error .notText) := by
  constructor
  · intro h source
    have hbytes : bytes = Text.encode source.toList := eq_encode_of_toByteArray rfl
    have hread : read bytes = some (parse source) := by
      rw [hbytes, read_encode]
    refine ⟨hread, ?_⟩
    rw [ofFile_ok, hread, Option.elim_some]
  · intro h
    have hfault : ¬Text.WellFormed bytes := mt Text.wellFormed_iff_isValidUTF8.1 h
    have hread : read bytes = none := read_of_not_wellFormed hfault
    refine ⟨hread, ?_⟩
    rw [ofFile_ok, hread, Option.elim_none]

/-- Lines of all kinds, the last of them unended; and the two bytes of a character that are on two
lines of a comment. -/
theorem read_stream_of_mixed_ends :
    let source := "505\r\n-7 \n\n9\rx\r\r\n//\u00e9\n902"
    let torn : List UInt8 := [0x39, 0x0A, 0x2F, 0x2F, 0xC3, 0x0A, 0xA9]
    read (Text.encode source.toList) =
        some { cells := [505, -7, 902], skipped := [⟨4, "9\rx"⟩] } ∧
      ¬torn.toByteArray.IsValidUTF8 ∧ read torn = none := by
  intro source torn
  have hvalid : (Text.encode source.toList).toByteArray.IsValidUTF8 := ⟨source.toList, rfl⟩
  have hsource : String.ofByteArray _ hvalid = source :=
    String.toByteArray_inj.1 String.utf8Encode_toList
  have hparse : parse source = { cells := [505, -7, 902], skipped := [⟨4, "9\rx"⟩] } := by
    decide +kernel
  have htorn : ¬torn.toByteArray.IsValidUTF8 := by decide +kernel
  have hread := ((read_stream _).1 hvalid).1
  rw [hsource, hparse] at hread
  exact ⟨hread, htorn, ((read_stream torn).2 htorn).1⟩

end ProgramText

end LittleMan
