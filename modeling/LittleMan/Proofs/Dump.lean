import Mathlib.Data.List.TakeWhile
import LittleMan.Dump
import LittleMan.Proofs.Numerals

/-!
# Dumps can be read back

The compact form of a dump says which dump it is. More than that, it says where it ends: of two
texts that begin with dumps and are the same, the dumps are the same and so is what follows them.
Lists and records need this for their parts, and end with a bracket of their own. A number has no
end of its own, so what follows it must not go on with the characters of numbers, which it never
does inside a dump.

Labels and keys are written as they stand, so this holds for dumps without double quotes in them.

## Main definitions

* `Dump.Plain` — no double quotes in labels and keys
* `Dump.Stops` — a text that does not go on with a number
* `Dump.SelfDelimiting` — a dump whose text ends where it ends

## Main results

* `Dump.Plain.selfDelimiting` — plain dumps are told from each other, whatever follows
* `Dump.compact_inj` — the compact form of a plain dump says which dump it is
-/

namespace LittleMan

namespace Numeral

/-- The characters of written numbers. -/
def isMark (c : Char) : Bool :=
  c.isDigit || c = '-'

theorem isMark_of_mem_signed {n : Int} {c : Char} (h : c ∈ signed n) : isMark c = true := by
  rw [signed, List.mem_append, sign, digits] at h
  rcases h with h | h
  · split at h
    · rw [List.mem_singleton.1 h]
      rfl
    · cases h
  · rw [isMark, Nat.isDigit_of_mem_toDigits (by decide) (by decide) h, Bool.true_or]

/-- A number is known by its written form. -/
theorem signed_injective {m n : Int} (h : signed m = signed n) : m = n := by
  have hm := denotes_padded 0 m
  have hn := denotes_padded 0 n
  rw [padded_zero] at hm hn
  exact hm.unique (h ▸ hn)

end Numeral

namespace Dump

/-! ### Texts that follow -/

/-- What follows does not go on with the characters of a number. -/
def Stops (s : List Char) : Prop :=
  s.takeWhile Numeral.isMark = []

theorem stops_nil : Stops [] := rfl

theorem stops_compactItems (ds : List Dump) (s : List Char) : Stops (compactItems ds ++ s) := by
  cases ds with
  | nil => rfl
  | cons d rest => rfl

theorem stops_compactFields (fs : List (String × Dump)) (s : List Char) :
    Stops (compactFields fs ++ s) := by
  cases fs with
  | nil => rfl
  | cons f rest => rfl

/-! ### Numbers and words -/

/-- A number ends where the characters of numbers end. -/
theorem signed_cancel {m n : Int} {s t : List Char} (hs : Stops s) (ht : Stops t)
    (h : Numeral.signed m ++ s = Numeral.signed n ++ t) : m = n ∧ s = t := by
  have hmarks (k : Int) {u : List Char} (hu : Stops u) :
      (Numeral.signed k ++ u).takeWhile Numeral.isMark = Numeral.signed k := by
    rw [List.takeWhile_append_of_pos fun c => Numeral.isMark_of_mem_signed, hu, List.append_nil]
  have hsame : Numeral.signed m = Numeral.signed n := by
    rw [← hmarks m hs, h, hmarks n ht]
  exact ⟨Numeral.signed_injective hsame, List.append_cancel_left (hsame ▸ h)⟩

/-- A word ends at the double quote behind it. -/
theorem quoted_cancel {a b : String} {s t : List Char} (ha : '"' ∉ a.toList) (hb : '"' ∉ b.toList)
    (h : quoted a ++ s = quoted b ++ t) : a = b ∧ s = t := by
  have hword {c : String} (hc : '"' ∉ c.toList) (u : List Char) :
      (c.toList ++ '"' :: u).takeWhile (· ≠ '"') = c.toList := by
    have hall : ∀ x ∈ c.toList, decide (x ≠ '"') = true :=
      fun x hx => decide_eq_true fun hne => hc (hne ▸ hx)
    rw [List.takeWhile_append_of_pos hall, List.takeWhile_cons_of_neg (by decide), List.append_nil]
  simp only [quoted, List.cons_append, List.append_assoc, List.nil_append,
    List.cons.injEq, true_and] at h
  have hsame : a.toList = b.toList := by
    rw [← hword ha s, h, hword hb t]
  rw [hsame] at h
  exact ⟨String.toList_inj.1 hsame, (List.cons.inj (List.append_cancel_left h)).2⟩

/-! ### How dumps begin -/

/-- What the text of a dump begins with, unless that is a number. -/
def opening : Dump → Option Char
  | number _ => none
  | label _ => some '"'
  | list _ => some '['
  | record _ => some '\x7b'

theorem compact_ne_nil (d : Dump) : d.compact ≠ [] := by
  cases d with
  | number n =>
    rw [compact, ← Numeral.padded_zero]
    exact (Numeral.denotes_padded 0 n).ne_nil
  | label a => exact List.cons_ne_nil _ _
  | list ds =>
    cases ds with
    | nil | cons d later => exact List.cons_ne_nil _ _
  | record fs =>
    cases fs with
    | nil | cons f later => exact List.cons_ne_nil _ _

/-- The first character of the text tells the kind of dump. -/
theorem opening_eq_of_compact {d : Dump} {s rest : List Char} {c : Char}
    (h : d.compact ++ s = c :: rest) :
    d.opening = if Numeral.isMark c then none else some c := by
  cases d with
  | number n =>
    obtain ⟨c', rest', hn⟩ := List.exists_cons_of_ne_nil (compact_ne_nil (number n))
    rw [hn] at h
    have hc : c ∈ Numeral.signed n := by
      rw [← (List.cons.inj h).1, ← compact, hn]
      exact List.mem_cons_self
    rw [if_pos (Numeral.isMark_of_mem_signed hc)]
    rfl
  | label a =>
    rw [← (List.cons.inj h).1]
    rfl
  | list ds =>
    cases ds with
    | nil | cons d later =>
      rw [← (List.cons.inj h).1]
      rfl
  | record fs =>
    cases fs with
    | nil | cons f later =>
      rw [← (List.cons.inj h).1]
      rfl

/-- Dumps of different kinds do not begin the same text. -/
theorem opening_congr {d e : Dump} {s t : List Char} (h : d.compact ++ s = e.compact ++ t) :
    d.opening = e.opening := by
  obtain ⟨c, rest, hd⟩ := List.exists_cons_of_ne_nil d.compact_ne_nil
  have hd' : d.compact ++ s = c :: (rest ++ s) := by rw [hd, List.cons_append]
  rw [opening_eq_of_compact hd', opening_eq_of_compact (h ▸ hd')]

/-- The bracket that ends a list is not the beginning of an item. -/
theorem compact_append_ne_bracket (d : Dump) (s rest : List Char) :
    d.compact ++ s ≠ ']' :: rest := by
  intro h
  have hopening : d.opening = some ']' := opening_eq_of_compact h
  cases d with
  | number | label | list | record => cases hopening

/-! ### Dumps that end where they end -/

/-- There are no double quotes in labels and keys. -/
inductive Plain : Dump → Prop
  | number (n : Int) : Plain (number n)
  | label {s : String} (h : '"' ∉ s.toList) : Plain (label s)
  | list {items : List Dump} (h : ∀ d ∈ items, Plain d) : Plain (list items)
  | record {fields : List (String × Dump)} (hkeys : ∀ f ∈ fields, '"' ∉ f.1.toList)
      (h : ∀ f ∈ fields, Plain f.2) : Plain (record fields)

theorem Plain.noFields : Plain (Dump.record []) :=
  .record (List.forall_mem_nil _) (List.forall_mem_nil _)

/-- A plain record with one more field. -/
theorem Plain.field {key : String} {d : Dump} {fs : List (String × Dump)} (hkey : '"' ∉ key.toList)
    (hd : d.Plain) (h : (Dump.record fs).Plain) : (Dump.record ((key, d) :: fs)).Plain := by
  cases h with
  | record hkeys hfs =>
    exact .record (List.forall_mem_cons.2 ⟨hkey, hkeys⟩) (List.forall_mem_cons.2 ⟨hd, hfs⟩)

/-- The text of a dump says which plain dump it is and where it ends. -/
def SelfDelimiting (d : Dump) : Prop :=
  ∀ ⦃e : Dump⦄, e.Plain → ∀ ⦃s t : List Char⦄, Stops s → Stops t →
    d.compact ++ s = e.compact ++ t → d = e ∧ s = t

/-- The items of a list end with its bracket, so that anything may follow. -/
theorem compactItems_cancel {ds es : List Dump} (hds : ∀ d ∈ ds, d.SelfDelimiting)
    (hes : ∀ e ∈ es, e.Plain) {s t : List Char}
    (h : compactItems ds ++ s = compactItems es ++ t) : ds = es ∧ s = t := by
  induction ds generalizing es with
  | nil =>
    cases es with
    | nil => exact ⟨rfl, (List.cons.inj h).2⟩
    | cons e later => exact absurd (List.cons.inj h).1 (by decide)
  | cons d rest ih =>
    cases es with
    | nil => exact absurd (List.cons.inj h).1 (by decide)
    | cons e later =>
      obtain ⟨hd, hrest⟩ := List.forall_mem_cons.1 hds
      obtain ⟨he, hlater⟩ := List.forall_mem_cons.1 hes
      simp only [compactItems, List.cons_append, List.append_assoc, List.cons.injEq,
        true_and] at h
      obtain ⟨rfl, htail⟩ := hd he (stops_compactItems rest s) (stops_compactItems later t) h
      obtain ⟨rfl, hfollow⟩ := ih hrest hlater htail
      exact ⟨rfl, hfollow⟩

/-- The fields of a record end with its brace, so that anything may follow. -/
theorem compactFields_cancel {fs gs : List (String × Dump)}
    (hfkeys : ∀ f ∈ fs, '"' ∉ f.1.toList) (hfs : ∀ f ∈ fs, f.2.SelfDelimiting)
    (hgkeys : ∀ g ∈ gs, '"' ∉ g.1.toList) (hgs : ∀ g ∈ gs, g.2.Plain) {s t : List Char}
    (h : compactFields fs ++ s = compactFields gs ++ t) : fs = gs ∧ s = t := by
  induction fs generalizing gs with
  | nil =>
    cases gs with
    | nil => exact ⟨rfl, (List.cons.inj h).2⟩
    | cons g later => exact absurd (List.cons.inj h).1 (by decide)
  | cons f rest ih =>
    cases gs with
    | nil => exact absurd (List.cons.inj h).1 (by decide)
    | cons g later =>
      obtain ⟨fkey, d⟩ := f
      obtain ⟨gkey, e⟩ := g
      obtain ⟨hfkey, hfkeys⟩ := List.forall_mem_cons.1 hfkeys
      obtain ⟨hgkey, hgkeys⟩ := List.forall_mem_cons.1 hgkeys
      obtain ⟨hd, hrest⟩ := List.forall_mem_cons.1 hfs
      obtain ⟨he, hlater⟩ := List.forall_mem_cons.1 hgs
      simp only [compactFields, List.cons_append, List.append_assoc, List.cons.injEq,
        true_and] at h
      obtain ⟨hkey, hvalue⟩ := quoted_cancel hfkey hgkey h
      obtain ⟨hsame, htail⟩ := hd he (stops_compactFields rest s) (stops_compactFields later t)
        (List.cons.inj hvalue).2
      obtain ⟨rfl, hfollow⟩ := ih hfkeys hrest hgkeys hlater htail
      exact ⟨congrArg₂ List.cons (Prod.ext hkey hsame) rfl, hfollow⟩

theorem selfDelimiting_list {ds : List Dump} (hds : ∀ d ∈ ds, d.SelfDelimiting) :
    (list ds).SelfDelimiting := by
  intro e he s t _ _ h
  cases he with
  | @list es hes =>
    cases ds with
    | nil =>
      cases es with
      | nil => exact ⟨rfl, (List.cons.inj (List.cons.inj h).2).2⟩
      | cons e later =>
        have hbracket := (List.cons.inj h).2.symm
        rw [List.append_eq, List.append_assoc] at hbracket
        exact absurd hbracket (compact_append_ne_bracket _ _ _)
    | cons d rest =>
      cases es with
      | nil =>
        have hbracket := (List.cons.inj h).2
        rw [List.append_eq, List.append_assoc] at hbracket
        exact absurd hbracket (compact_append_ne_bracket _ _ _)
      | cons e later =>
        -- behind a comma the first item is one like the others
        obtain ⟨hsame, hfollow⟩ := compactItems_cancel hds hes
          (congrArg (',' :: ·) (List.cons.inj h).2)
        exact ⟨congrArg list hsame, hfollow⟩
  | number | label | record => cases opening_congr h

theorem selfDelimiting_record {fs : List (String × Dump)} (hkeys : ∀ f ∈ fs, '"' ∉ f.1.toList)
    (hfs : ∀ f ∈ fs, f.2.SelfDelimiting) : (record fs).SelfDelimiting := by
  intro e he s t _ _ h
  cases he with
  | @record gs hgkeys hgs =>
    cases fs with
    | nil =>
      cases gs with
      | nil => exact ⟨rfl, (List.cons.inj (List.cons.inj h).2).2⟩
      | cons g later => exact absurd (List.cons.inj (List.cons.inj h).2).1 (by decide)
    | cons f rest =>
      cases gs with
      | nil => exact absurd (List.cons.inj (List.cons.inj h).2).1 (by decide)
      | cons g later =>
        -- as is the first field
        obtain ⟨hsame, hfollow⟩ := compactFields_cancel hkeys hfs hgkeys hgs
          (congrArg (',' :: ·) (List.cons.inj h).2)
        exact ⟨congrArg record hsame, hfollow⟩
  | number | label | list => cases opening_congr h

/-- **Plain dumps are told from each other, whatever follows them.** -/
theorem Plain.selfDelimiting {d : Dump} (hd : d.Plain) : d.SelfDelimiting := by
  induction hd with
  | number n =>
    intro e he s t hs ht h
    cases he with
    | number k =>
      obtain ⟨rfl, hfollow⟩ := signed_cancel hs ht h
      exact ⟨rfl, hfollow⟩
    | label | list | record => cases opening_congr h
  | label ha =>
    intro e he s t _ _ h
    cases he with
    | label hb =>
      obtain ⟨rfl, hfollow⟩ := quoted_cancel ha hb h
      exact ⟨rfl, hfollow⟩
    | number | list | record => cases opening_congr h
  | list _ ih => exact selfDelimiting_list ih
  | record hkeys _ ih => exact selfDelimiting_record hkeys ih

/-- **The compact form of a plain dump says which dump it is.** -/
theorem compact_inj {d e : Dump} (hd : d.Plain) (he : e.Plain) :
    d.compact = e.compact ↔ d = e := by
  constructor
  · intro h
    exact (hd.selfDelimiting he stops_nil stops_nil (congrArg (· ++ []) h)).1
  · rintro rfl
    rfl

end Dump

end LittleMan
