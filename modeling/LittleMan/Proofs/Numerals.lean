import LittleMan.Word

/-!
# What numerals denote

A numeral is an optional sign and one or more digits, and it denotes a number whatever its length.
Reading with a range accepts exactly the numerals that denote a number in the range. That the reader
gives up as soon as a number passes the limit makes no difference, as further digits make it no
smaller.

## Main definitions

* `Numeral.Digits` — the digits of a number, zeros in front allowed
* `Numeral.Denotes` — the grammar of numerals
* `Numeral.Counts` — the grammar of those that count something, without a minus sign

## Main results

* `Numeral.readSigned_eq_ok_iff`, `Numeral.readUnsigned_eq_ok_iff`, `Word.read_eq_ok_iff` — what is
  read, and as which number
* `Numeral.denotes_padded` — a number is denoted by its written form, however padded
-/

namespace LittleMan

namespace Numeral

/-- A text of one or more digits that make up a number. -/
structure Digits (s : List Char) (n : Nat) : Prop where
  ne_nil : s ≠ []
  isDigit : ∀ c ∈ s, c.isDigit = true
  value : Nat.ofDigitChars 10 s 0 = n

/-- The grammar of numerals: digits, with a sign in front of them or without. -/
inductive Denotes : List Char → Int → Prop
  | plain {s : List Char} {n : Nat} (h : Digits s n) : Denotes s n
  | plus {s : List Char} {n : Nat} (h : Digits s n) : Denotes ('+' :: s) n
  | minus {s : List Char} {n : Nat} (h : Digits s n) : Denotes ('-' :: s) (-n)

/-- The grammar of counts: digits, with a plus sign in front of them or without. -/
inductive Counts : List Char → Nat → Prop
  | plain {s : List Char} {n : Nat} (h : Digits s n) : Counts s n
  | plus {s : List Char} {n : Nat} (h : Digits s n) : Counts ('+' :: s) n

/-! ### The characters of a numeral -/

/-- A numeral is made of digits and at most a sign. -/
theorem Denotes.sign_or_isDigit {s : List Char} {n : Int} (h : Denotes s n) {c : Char}
    (hc : c ∈ s) : c = '+' ∨ c = '-' ∨ c.isDigit = true := by
  cases h with
  | plain h => exact .inr (.inr (h.isDigit c hc))
  | plus h =>
    rcases List.mem_cons.1 hc with rfl | hc
    · exact .inl rfl
    · exact .inr (.inr (h.isDigit c hc))
  | minus h =>
    rcases List.mem_cons.1 hc with rfl | hc
    · exact .inr (.inl rfl)
    · exact .inr (.inr (h.isDigit c hc))

/-- Any other character is no part of a numeral. -/
theorem Denotes.not_mem {s : List Char} {n : Int} (h : Denotes s n) {c : Char} (hplus : c ≠ '+')
    (hminus : c ≠ '-') (hdigit : c.isDigit = false) : c ∉ s := by
  intro hc
  rcases h.sign_or_isDigit hc with hc | hc | hc
  · exact hplus hc
  · exact hminus hc
  · exact absurd (hc.symm.trans hdigit) (by decide)

/-- The characters of a numeral come behind the blank. -/
theorem Denotes.lt_toNat {s : List Char} {n : Int} (h : Denotes s n) {c : Char} (hc : c ∈ s) :
    32 < c.toNat := by
  rcases h.sign_or_isDigit hc with rfl | rfl | hdigit
  · decide
  · decide
  · have hrange : 48 ≤ c.toNat ∧ c.toNat ≤ 57 := Char.isDigit_iff_toNat.1 hdigit
    omega

theorem Denotes.ne_nil {s : List Char} {n : Int} (h : Denotes s n) : s ≠ [] := by
  cases h with
  | plain h => exact h.ne_nil
  | plus => exact List.cons_ne_nil _ _
  | minus => exact List.cons_ne_nil _ _

/-! ### Reading -/

/-- More digits make a number no smaller. -/
theorem le_ofDigitChars (s : List Char) (seen : Nat) : seen ≤ Nat.ofDigitChars 10 s seen := by
  induction s generalizing seen with
  | nil => exact Nat.le_of_eq Nat.ofDigitChars_nil.symm
  | cons c rest ih =>
    rw [Nat.ofDigitChars_cons]
    have hrest := ih (10 * seen + (c.toNat - '0'.toNat))
    omega

theorem readDigits_eq_ok_iff {limit : Nat} {past : Fault} {s : List Char} {seen n : Nat}
    (h : seen ≤ limit) :
    readDigits limit past seen s = .ok n ↔
      (∀ c ∈ s, c.isDigit = true) ∧ Nat.ofDigitChars 10 s seen = n ∧ n ≤ limit := by
  induction s generalizing seen with
  | nil =>
    simp only [readDigits, Except.ok.injEq, Nat.ofDigitChars_nil]
    constructor
    · rintro rfl
      exact ⟨fun _ hc => absurd hc List.not_mem_nil, rfl, h⟩
    · exact fun hs => hs.2.1
  | cons c rest ih =>
    have hnext : 10 * seen + (c.toNat - '0'.toNat) = seen * 10 + (c.toNat - '0'.toNat) := by omega
    rw [readDigits, List.forall_mem_cons, Nat.ofDigitChars_cons, hnext]
    by_cases hc : c.isDigit = true
    · by_cases hle : seen * 10 + (c.toNat - '0'.toNat) ≤ limit
      · rw [if_pos hc, if_pos hle, ih hle]
        simp only [hc, true_and]
      · have hpast := le_ofDigitChars rest (seen * 10 + (c.toNat - '0'.toNat))
        rw [if_pos hc, if_neg hle]
        refine ⟨fun hs => (by cases hs), fun hs => ?_⟩
        omega
    · rw [if_neg hc]
      exact ⟨fun hs => (by cases hs), fun hs => absurd hs.1.1 hc⟩

/-- Reading a whole number accepts the digits of those up to the limit. -/
theorem readNat_eq_ok_iff {limit : Nat} {past : Fault} {s : List Char} {n : Nat} :
    readNat limit past s = .ok n ↔ Digits s n ∧ n ≤ limit := by
  rw [readNat]
  by_cases hs : s = []
  · subst hs
    exact ⟨fun h => (by cases h), fun h => absurd rfl h.1.ne_nil⟩
  · rw [if_neg (by simpa using hs), readDigits_eq_ok_iff (Nat.zero_le limit)]
    exact ⟨fun h => ⟨⟨hs, h.1, h.2.1⟩, h.2.2⟩, fun h => ⟨h.1.isDigit, h.1.value, h.2⟩⟩

/-- A numeral with a minus sign in front denotes the negative of what follows. -/
theorem denotes_minus_iff {s : List Char} {n : Int} :
    Denotes ('-' :: s) n ↔ ∃ k : Nat, Digits s k ∧ n = -k := by
  constructor
  · intro h
    cases h with
    | plain h => exact absurd (h.isDigit '-' List.mem_cons_self) (by decide)
    | minus h => exact ⟨_, h, rfl⟩
  · rintro ⟨k, h, rfl⟩
    exact .minus h

/-- A plus sign in front makes no difference. -/
theorem denotes_plus_iff {s : List Char} {n : Int} :
    Denotes ('+' :: s) n ↔ ∃ k : Nat, Digits s k ∧ n = k := by
  constructor
  · intro h
    cases h with
    | plain h => exact absurd (h.isDigit '+' List.mem_cons_self) (by decide)
    | plus h => exact ⟨_, h, rfl⟩
  · rintro ⟨k, h, rfl⟩
    exact .plus h

/-- Without a sign there are digits only. -/
theorem denotes_iff_of_no_sign {c : Char} {s : List Char} {n : Int} (hminus : c ≠ '-')
    (hplus : c ≠ '+') : Denotes (c :: s) n ↔ ∃ k : Nat, Digits (c :: s) k ∧ n = k := by
  constructor
  · intro h
    cases h with
    | plain h => exact ⟨_, h, rfl⟩
    | plus => exact absurd rfl hplus
    | minus => exact absurd rfl hminus
  · rintro ⟨k, h, rfl⟩
    exact .plain h

/-- A range check on a whole number that was read, and what becomes of the number. -/
theorem map_readNat_eq_ok_iff {limit : Nat} {past : Fault} {s : List Char} {f : Nat → Int}
    {n : Int} :
    (readNat limit past s).map f = .ok n ↔ ∃ k, Digits s k ∧ k ≤ limit ∧ f k = n := by
  cases h : readNat limit past s with
  | error e =>
    refine ⟨fun hn => (by cases hn), fun ⟨k, hk, hle, _⟩ => ?_⟩
    rw [readNat_eq_ok_iff.2 ⟨hk, hle⟩] at h
    cases h
  | ok k =>
    obtain ⟨hk, hle⟩ := readNat_eq_ok_iff.1 h
    refine ⟨fun hn => ⟨k, hk, hle, ?_⟩, fun ⟨j, hj, _, hn⟩ => ?_⟩
    · cases hn
      rfl
    · rw [← hk.value, hj.value, ← hn]
      rfl

/-- **Reading accepts the numerals in the range**, and gives the number that they denote. -/
theorem readSigned_eq_ok_iff {least greatest : Int} (hleast : least ≤ 0) (hgreatest : 0 ≤ greatest)
    {s : List Char} {n : Int} :
    readSigned least greatest s = .ok n ↔ Denotes s n ∧ least ≤ n ∧ n ≤ greatest := by
  cases s with
  | nil =>
    refine ⟨fun h => (by cases h), fun ⟨hdenotes, _⟩ => ?_⟩
    cases hdenotes with
    | plain h => exact absurd rfl h.ne_nil
  | cons c rest =>
    rw [readSigned]
    by_cases hminus : c = '-'
    · subst hminus
      rw [if_pos rfl, map_readNat_eq_ok_iff, denotes_minus_iff]
      constructor
      · rintro ⟨k, hk, hle, rfl⟩
        exact ⟨⟨k, hk, rfl⟩, by omega, by omega⟩
      · rintro ⟨⟨k, hk, rfl⟩, hlow, -⟩
        exact ⟨k, hk, by omega, rfl⟩
    · by_cases hplus : c = '+'
      · subst hplus
        rw [if_neg hminus, if_pos rfl, map_readNat_eq_ok_iff, denotes_plus_iff]
        constructor
        · rintro ⟨k, hk, hle, rfl⟩
          exact ⟨⟨k, hk, rfl⟩, by omega, by omega⟩
        · rintro ⟨⟨k, hk, rfl⟩, -, hhigh⟩
          exact ⟨k, hk, by omega, rfl⟩
      · rw [if_neg hminus, if_neg hplus, map_readNat_eq_ok_iff,
          denotes_iff_of_no_sign hminus hplus]
        constructor
        · rintro ⟨k, hk, hle, rfl⟩
          exact ⟨⟨k, hk, rfl⟩, by omega, by omega⟩
        · rintro ⟨⟨k, hk, rfl⟩, -, hhigh⟩
          exact ⟨k, hk, by omega, rfl⟩

theorem Counts.ne_nil {s : List Char} {n : Nat} (h : Counts s n) : s ≠ [] := by
  cases h with
  | plain h => exact h.ne_nil
  | plus => exact List.cons_ne_nil _ _

/-- A plus sign in front of a count makes no difference. -/
theorem counts_plus_iff {s : List Char} {n : Nat} : Counts ('+' :: s) n ↔ Digits s n := by
  constructor
  · intro h
    cases h with
    | plain h => exact absurd (h.isDigit '+' List.mem_cons_self) (by decide)
    | plus h => exact h
  · exact .plus

/-- Without a plus sign there are digits only. -/
theorem counts_iff_of_no_plus {s : List Char} {n : Nat} (h : s.head? ≠ some '+') :
    Counts s n ↔ Digits s n := by
  constructor
  · intro hs
    cases hs with
    | plain hs => exact hs
    | plus => exact absurd rfl h
  · exact .plain

/-- **Reading a count accepts the counts up to the greatest**, and gives the number. -/
theorem readUnsigned_eq_ok_iff {greatest : Nat} {s : List Char} {n : Nat} :
    readUnsigned greatest s = .ok n ↔ Counts s n ∧ n ≤ greatest := by
  cases s with
  | nil =>
    exact ⟨fun h => (by cases h), fun h => absurd rfl h.1.ne_nil⟩
  | cons c rest =>
    rw [readUnsigned]
    by_cases hplus : c = '+'
    · rw [if_pos hplus, readNat_eq_ok_iff, hplus, counts_plus_iff]
    · have hhead : (c :: rest).head? ≠ some '+' := fun h => hplus (Option.some.inj h)
      rw [if_neg hplus, readNat_eq_ok_iff, counts_iff_of_no_plus hhead]

/-- A numeral denotes one number. The range of a reader can be chosen wide enough for any two. -/
theorem Denotes.unique {s : List Char} {m n : Int} (hm : Denotes s m) (hn : Denotes s n) :
    m = n := by
  have hread {k : Int} (hk : Denotes s k) (hle : k.natAbs ≤ m.natAbs + n.natAbs) :
      readSigned (-(m.natAbs + n.natAbs : Nat)) (m.natAbs + n.natAbs : Nat) s = .ok k :=
    (readSigned_eq_ok_iff (by omega) (by omega)).2 ⟨hk, by omega, by omega⟩
  have hsame := (hread hm (by omega)).symm.trans (hread hn (by omega))
  exact Except.ok.inj hsame

/-! ### Writing -/

/-- Zeros in front of the digits of a number make no difference. -/
theorem digits_zeros_append (k n : Nat) : Digits (List.replicate k '0' ++ Nat.toDigits 10 n) n where
  ne_nil h := Nat.toDigits_ne_nil (List.append_eq_nil_iff.1 h).2
  isDigit c hc := by
    rcases List.mem_append.1 hc with hc | hc
    · rw [List.eq_of_mem_replicate hc]
      rfl
    · exact Nat.isDigit_of_mem_toDigits (by decide) (by decide) hc
  value := by
    rw [Nat.ofDigitChars_append, Nat.ofDigitChars_replicate_zero, Nat.mul_zero,
      Nat.ofDigitChars_ten_toDigits]

/-- **A number is denoted by its written form**, whatever the width. -/
theorem denotes_padded (width : Nat) (n : Int) : Denotes (padded width n) n := by
  have hdigits (k : Nat) := digits_zeros_append k n.natAbs
  rw [padded, sign, digits]
  split
  · next hn =>
    have h := Denotes.minus (hdigits (width - (['-'].length + (Nat.toDigits 10 n.natAbs).length)))
    rwa [show -(n.natAbs : Int) = n by omega] at h
  · next hn =>
    have h := Denotes.plain (hdigits (width - (0 + (Nat.toDigits 10 n.natAbs).length)))
    rwa [show (n.natAbs : Int) = n by omega] at h

end Numeral

namespace Word

/-- The words that are read: those that fit, from any numeral that denotes them. -/
theorem read_eq_ok_iff {s : List Char} {w : Int} :
    read s = .ok w ↔ Numeral.Denotes s w ∧ Fits w :=
  Numeral.readSigned_eq_ok_iff (by decide) (by decide)

end Word

end LittleMan
