import LittleMan.Text.Encoding
import LittleMan.Text.Lines

/-!
# Lines of text and lines of bytes

A text can be cut into lines before it is encoded or after, with the same result: the byte of a line
feed is part of no other character, nor is that of a carriage return. Lines that are put together
again, with a line feed after each, are cut apart at the same places, but for carriage returns at
their ends.

## Main definitions

* `Text.openWith` — lines with symbols in front of the first
* `Text.dropReturn` — a line without the return symbol at its end

## Main results

* `Text.line_induction` — what holds of all streams, line by line
* `Text.linesBy_join` — lines put together and cut again
* `Text.byteLines_encode` — the lines of an encoded text
-/

namespace LittleMan

namespace Text

section Stream

variable {α : Type}

/-- Lines with symbols put in front of the first of them. -/
def openWith (s : List α) : List (List α) → List (List α)
  | [] => [s]
  | line :: later => (s ++ line) :: later

theorem openWith_append (s t : List α) (lines : List (List α)) :
    openWith (s ++ t) lines = openWith s (openWith t lines) := by
  cases lines with
  | nil => rfl
  | cons line later => simp [openWith]

/-- **Line by line.** What holds of all streams without a feed symbol, and of a stream with one more
line in front if it holds of the stream, holds of all streams. -/
theorem line_induction (feed : α) {P : List α → Prop} (unended : ∀ s, feed ∉ s → P s)
    (ended : ∀ line rest, feed ∉ line → P rest → P (line ++ feed :: rest)) (s : List α) : P s := by
  by_cases hfeed : feed ∈ s
  · obtain ⟨line, rest, hs, hline⟩ := List.eq_append_cons_of_mem hfeed
    have hshorter : rest.length < s.length := by
      rw [hs, List.length_append, List.length_cons]
      omega
    rw [hs]
    exact ended line rest hline (line_induction feed unended ended rest)
  · exact unended s hfeed
termination_by s.length

variable [DecidableEq α] {feed ret : α}

/-- A line without the return symbol at its end, if there is one. -/
def dropReturn (ret : α) (line : List α) : List α :=
  if line.getLast? = some ret then line.dropLast else line

/-- A line without a return symbol has none to drop. -/
theorem dropReturn_of_not_mem {line : List α} (h : ret ∉ line) : dropReturn ret line = line :=
  if_neg fun hlast => h (List.mem_of_getLast? hlast)

/-- A symbol that does not end a line goes in front of the first line. -/
theorem linesBy_cons {c : α} {rest : List α} (hfeed : c ≠ feed)
    (hret : ¬(c = ret ∧ rest.head? = some feed)) :
    linesBy feed ret (c :: rest) = openWith [c] (linesBy feed ret rest) := by
  rw [linesBy, if_neg hfeed, if_neg hret]
  cases linesBy feed ret rest <;> rfl

/-- A line is what is left of it when the return symbol at its end is dropped, or that with the
return symbol. -/
theorem eq_dropReturn_or (ret : α) (line : List α) :
    line = dropReturn ret line ∨ line = dropReturn ret line ++ [ret] := by
  rw [dropReturn]
  split
  · next h =>
    obtain ⟨start, rfl⟩ := List.getLast?_eq_some_iff.1 h
    rw [List.dropLast_concat]
    exact .inr rfl
  · exact .inl rfl

/-- A stream without a feed symbol is its only line. -/
theorem linesBy_of_feed_not_mem {s : List α} (hne : s ≠ []) (h : feed ∉ s) :
    linesBy feed ret s = [s] := by
  induction s with
  | nil => exact absurd rfl hne
  | cons c rest ih =>
    rw [List.mem_cons, not_or, eq_comm] at h
    have hhead : rest.head? ≠ some feed := fun hn => h.2 (List.mem_of_head? hn)
    rw [linesBy_cons h.1 fun hreturn => hhead hreturn.2]
    by_cases hrest : rest = []
    · rw [hrest]
      rfl
    · rw [ih hrest h.2]
      rfl

/-- There is no feed symbol in a line. -/
theorem feed_not_mem_of_mem_linesBy {s line : List α} (h : line ∈ linesBy feed ret s) :
    feed ∉ line := by
  induction s generalizing line with
  | nil => cases h
  | cons c rest ih =>
    by_cases hfeed : c = feed
    · subst hfeed
      rw [linesBy_feed] at h
      rcases List.mem_cons.1 h with rfl | h
      · exact List.not_mem_nil
      · exact ih h
    · by_cases hret : c = ret ∧ rest.head? = some feed
      · rw [linesBy, if_neg hfeed, if_pos hret] at h
        exact ih h
      · rw [linesBy_cons hfeed hret] at h
        cases hrest : linesBy feed ret rest with
        | nil =>
          rw [hrest] at h
          rw [List.mem_singleton.1 h, List.mem_singleton]
          exact Ne.symm hfeed
        | cons first later =>
          rw [hrest] at h ih
          rcases List.mem_cons.1 h with rfl | h
          · rw [List.singleton_append, List.mem_cons, not_or]
            exact ⟨Ne.symm hfeed, ih List.mem_cons_self⟩
          · exact ih (List.mem_cons_of_mem first h)

/-- A line that is ended by a feed symbol is split off, without the return symbol at its end. -/
theorem linesBy_append_feed_cons {line : List α} (h : feed ∉ line) (rest : List α) :
    linesBy feed ret (line ++ feed :: rest) = dropReturn ret line :: linesBy feed ret rest := by
  induction line with
  | nil => simp [dropReturn]
  | cons c line ih =>
    rw [List.mem_cons, not_or, eq_comm] at h
    cases line with
    | nil => by_cases hret : c = ret <;> simp_all [linesBy, dropReturn]
    | cons d later =>
      have hd : d ≠ feed := fun hd => h.2 (hd ▸ List.mem_cons_self)
      have hdrop : dropReturn ret (c :: d :: later) = c :: dropReturn ret (d :: later) := by
        simp only [dropReturn, List.getLast?_cons_cons, List.dropLast_cons_cons]
        split <;> rfl
      have hhead : (d :: later ++ feed :: rest).head? ≠ some feed := by simpa using hd
      rw [List.cons_append, linesBy_cons h.1 fun hreturn => hhead hreturn.2, ih h.2, hdrop]
      rfl

/-- **Lines put together**, with a feed symbol after each, are cut apart again. -/
theorem linesBy_join {lines : List (List α)} (h : ∀ line ∈ lines, feed ∉ line) :
    linesBy feed ret (lines.flatMap fun line => line ++ [feed]) = lines.map (dropReturn ret) := by
  induction lines with
  | nil => rfl
  | cons line rest ih =>
    rw [List.forall_mem_cons] at h
    rw [List.flatMap_cons, List.append_assoc, List.singleton_append,
      linesBy_append_feed_cons h.1, ih h.2, List.map_cons]

/-- So do several symbols, if none of them has to do with the end of a line. -/
theorem linesBy_append_of_not_mem {s : List α} (hs : s ≠ []) (hfeed : feed ∉ s) (hret : ret ∉ s)
    (rest : List α) : linesBy feed ret (s ++ rest) = openWith s (linesBy feed ret rest) := by
  induction s with
  | nil => exact absurd rfl hs
  | cons c s ih =>
    rw [List.mem_cons, not_or, eq_comm] at hfeed hret
    rw [List.cons_append, linesBy_cons hfeed.1 fun h => hret.1 h.1]
    cases s with
    | nil => rfl
    | cons d s =>
      rw [ih (List.cons_ne_nil d s) hfeed.2 hret.2, ← openWith_append, List.singleton_append]

end Stream

/-! ### Encoded text -/

/-- The one byte of an ASCII character is its code. -/
theorem utf8EncodeChar_of_lt {c : Char} (h : c.toNat < 128) :
    String.utf8EncodeChar c = [UInt8.ofNat c.toNat] := by
  have hc : c.val.toNat ≤ 127 := by change c.toNat ≤ 127; omega
  rw [String.utf8EncodeChar, if_pos hc]
  rfl

/-- The bytes of a character outside ASCII are outside ASCII. -/
theorem le_of_mem_utf8EncodeChar {c : Char} (h : 128 ≤ c.toNat) {b : UInt8}
    (hb : b ∈ String.utf8EncodeChar c) : 128 ≤ b.toNat := by
  have hc : ¬c.val.toNat ≤ 127 := by change ¬c.toNat ≤ 127; omega
  rw [String.utf8EncodeChar, if_neg hc] at hb
  split at hb
  · simp only [List.mem_cons, List.not_mem_nil, or_false] at hb
    rcases hb with rfl | rfl <;> simp only [UInt8.toNat_ofNat'] <;> omega
  · split at hb
    · simp only [List.mem_cons, List.not_mem_nil, or_false] at hb
      rcases hb with rfl | rfl | rfl <;> simp only [UInt8.toNat_ofNat'] <;> omega
    · simp only [List.mem_cons, List.not_mem_nil, or_false] at hb
      rcases hb with rfl | rfl | rfl | rfl <;> simp only [UInt8.toNat_ofNat'] <;> omega

/-- The byte of an ASCII character is part of no other character. -/
theorem not_mem_utf8EncodeChar {c d : Char} (hd : d.toNat < 128) (h : c ≠ d) :
    UInt8.ofNat d.toNat ∉ String.utf8EncodeChar c := by
  intro hmem
  have hbyte : (UInt8.ofNat d.toNat).toNat = d.toNat := by
    rw [UInt8.toNat_ofNat', Nat.mod_eq_of_lt (by omega)]
  by_cases hc : c.toNat < 128
  · rw [utf8EncodeChar_of_lt hc, List.mem_singleton] at hmem
    have hcode : d.toNat = c.toNat := by
      rw [← hbyte, hmem, UInt8.toNat_ofNat', Nat.mod_eq_of_lt (by omega)]
    exact h (Char.toNat_inj.1 hcode).symm
  · have hle := le_of_mem_utf8EncodeChar (by omega) hmem
    omega

theorem encode_cons (c : Char) (rest : List Char) :
    encode (c :: rest) = String.utf8EncodeChar c ++ encode rest := rfl

/-- A text begins with an ASCII character if its bytes begin with that of the character. -/
theorem head?_encode_eq_some_iff {d : Char} (hd : d.toNat < 128) (s : List Char) :
    (encode s).head? = some (UInt8.ofNat d.toNat) ↔ s.head? = some d := by
  cases s with
  | nil => simp
  | cons c rest =>
    obtain ⟨b, later, hbytes⟩ := List.exists_cons_of_ne_nil (String.utf8EncodeChar_ne_nil (c := c))
    rw [encode_cons, hbytes, List.cons_append, List.head?_cons, List.head?_cons, Option.some.injEq,
      Option.some.injEq]
    constructor
    · rintro rfl
      by_cases hc : c = d
      · exact hc
      · exact absurd (hbytes ▸ List.mem_cons_self) (not_mem_utf8EncodeChar hd hc)
    · rintro rfl
      rw [utf8EncodeChar_of_lt hd] at hbytes
      exact (List.cons.inj hbytes).1.symm

theorem map_encode_openWith (s : List Char) (lines : List (List Char)) :
    (openWith s lines).map encode = openWith (encode s) (lines.map encode) := by
  cases lines with
  | nil => rfl
  | cons line later => simp [openWith, encode_append]

/-- Where no line ends, the bytes of a character go in front of the first line. -/
theorem byteLines_encode_cons {c : Char} {rest : List Char} (hfeed : c ≠ '\n')
    (hret : ¬(c = '\r' ∧ rest.head? = some '\n')) :
    byteLines (encode (c :: rest)) = openWith (encode [c]) (byteLines (encode rest)) := by
  by_cases hc : c = '\r'
  · subst hc
    have hhead : (encode rest).head? ≠ some 10 := fun h =>
      hret ⟨rfl, (head?_encode_eq_some_iff (d := '\n') (by decide) rest).1 h⟩
    exact linesBy_cons (by decide) fun h => hhead h.2
  · rw [encode_cons, encode_cons, encode_nil, List.append_nil]
    exact linesBy_append_of_not_mem String.utf8EncodeChar_ne_nil
      (not_mem_utf8EncodeChar (d := '\n') (by decide) hfeed)
      (not_mem_utf8EncodeChar (d := '\r') (by decide) hc) (encode rest)

/-- **The lines of an encoded text** are the encoded lines of the text. -/
theorem byteLines_encode (s : List Char) : byteLines (encode s) = (lines s).map encode := by
  induction s with
  | nil => rfl
  | cons c rest ih =>
    by_cases hfeed : c = '\n'
    · subst hfeed
      rw [lines, linesBy_feed]
      exact congrArg (List.cons []) ih
    · by_cases hret : c = '\r' ∧ rest.head? = some '\n'
      · obtain ⟨rfl, hhead⟩ := hret
        have hbyte : (encode rest).head? = some 10 :=
          (head?_encode_eq_some_iff (d := '\n') (by decide) rest).2 hhead
        change linesBy 10 13 (13 :: encode rest) = _
        rw [lines, linesBy, if_neg (by decide), if_pos ⟨rfl, hbyte⟩, linesBy, if_neg hfeed,
          if_pos ⟨rfl, hhead⟩]
        exact ih
      · have hlines : lines (c :: rest) = openWith [c] (lines rest) := linesBy_cons hfeed hret
        rw [byteLines_encode_cons hfeed hret, ih, hlines, map_encode_openWith]

end Text

end LittleMan
