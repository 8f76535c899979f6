import LittleMan.Screen.Picture

/-!
# Parts of pictures

What is put into a picture can be cut out again. A rectangle of a picture that was put together of
others lies in one of them, if it does, and the inside of a box is what was put there, brought to
its size. So a part of a screen is known without the rest of it.

What a row shows is told by its cells: a row of one style that was cut or filled up still has that
style wherever there is something to see.

## Main definitions

* `Picture.crop` — a rectangle of a picture
* `Picture.Wide` — all rows have the same width
* `Row.Highlighted` — whatever can be seen of a row is shown as current
* `Row.isMarked` — the row begins with the mark of the next instruction

## Main results

* `Picture.crop_above`, `Picture.crop_beside_left`, `Picture.crop_beside_right`,
  `Picture.crop_box` — cutting out what was put in
* `Row.glyphs_fit`, `Row.highlighted_fit_iff`, `Row.isMarked_fit` — what can be seen of a row that
  was brought to a width
-/

namespace LittleMan

namespace Row

/-! ### What can be seen of a row -/

/-- The characters of a row. -/
def glyphs (row : Row) : List Char :=
  row.map Cell.glyph

/-- Whatever can be seen of a row is bold and yellow, and something can be seen. -/
def Highlighted (row : Row) : Prop :=
  (∃ c ∈ row, c.glyph ≠ ' ') ∧
    ∀ c ∈ row, c.glyph ≠ ' ' → c.style = { color := .yellow, bold := true }

/-- Whether a row begins with the mark of the next instruction. -/
def isMarked (row : Row) : Bool :=
  row.head?.any fun c => c.glyph = '▶'

@[simp] theorem glyphs_ofString (style : Style) (s : String) :
    (ofString style s).glyphs = s.toList := by
  rw [glyphs, ofString, List.map_map]
  exact List.map_id _

/-- The characters are cut or filled up with blanks. -/
theorem glyphs_fit (width : Nat) (row : Row) :
    (row.fit width).glyphs = (row.glyphs.rightpad width ' ').take width := by
  rw [glyphs, fit, blank, List.map_append, List.map_take, List.map_replicate, List.rightpad,
    List.take_append, List.take_replicate, glyphs, List.length_map, Nat.min_self]

/-- A row that is as wide as asked for stays as it is. -/
theorem fit_eq_self {width : Nat} {row : Row} (h : row.length = width) :
    row.fit width = row := by
  rw [fit, blank, h, Nat.sub_self, List.take_of_length_le (Nat.le_of_eq h),
    List.replicate_zero, List.append_nil]

/-- A blank row shows nothing. -/
theorem not_highlighted_blank (width : Nat) : ¬(blank width).Highlighted := by
  rintro ⟨⟨c, hc, hglyph⟩, -⟩
  rw [List.eq_of_mem_replicate hc] at hglyph
  exact hglyph rfl

theorem isMarked_blank (width : Nat) : (blank width).isMarked = false := by
  cases width with
  | zero => rfl
  | succ width => rfl

/-- A text of one style is highlighted if that is the style of what is current. Its first character
is seen at any width. -/
theorem highlighted_fit_iff {style : Style} {s : String} {c : Char} {rest : List Char}
    (hs : s.toList = c :: rest) (hc : c ≠ ' ') {width : Nat} (hwidth : 0 < width) :
    ((ofString style s).fit width).Highlighted ↔ style = .current := by
  have hfirst : (⟨c, style⟩ : Cell) ∈ (ofString style s).fit width := by
    rw [fit, ofString, hs, List.map_cons, ← Nat.succ_pred_eq_of_pos hwidth, List.take_succ_cons]
    exact List.mem_cons_self
  constructor
  · exact fun h => h.2 _ hfirst hc
  · rintro rfl
    refine ⟨⟨_, hfirst, hc⟩, fun cell hcell hglyph => ?_⟩
    rcases List.mem_append.1 hcell with hcell | hcell
    · obtain ⟨c', -, rfl⟩ := List.mem_map.1 (List.mem_of_mem_take hcell)
      rfl
    · rw [List.eq_of_mem_replicate hcell] at hglyph
      exact absurd rfl hglyph

/-- The mark is seen at any width. -/
theorem isMarked_fit {row : Row} {width : Nat} (hwidth : 0 < width) :
    (row.fit width).isMarked = row.isMarked := by
  cases row with
  | nil =>
    rw [fit, List.take_nil, List.nil_append, isMarked_blank]
    rfl
  | cons c rest =>
    rw [fit, ← Nat.succ_pred_eq_of_pos hwidth, List.take_succ_cons]
    rfl

end Row

namespace Picture

/-! ### Sizes -/

/-- All rows of a picture have the same width. -/
def Wide (width : Nat) (p : Picture) : Prop :=
  ∀ row ∈ p, row.length = width

theorem wide_fit (width height : Nat) (p : Picture) : (p.fit width height).Wide width := by
  intro row hrow
  rcases List.mem_append.1 hrow with hrow | hrow
  · obtain ⟨r, -, rfl⟩ := List.mem_map.1 hrow
    exact Row.length_fit width r
  · rw [List.eq_of_mem_replicate hrow]
    exact List.length_replicate

theorem Wide.above {width : Nat} {p q : Picture} (hp : p.Wide width) (hq : q.Wide width) :
    (p.above q).Wide width :=
  List.forall_mem_append.2 ⟨hp, hq⟩

theorem Wide.beside {left right : Nat} {p q : Picture} (hp : p.Wide left) (hq : q.Wide right) :
    (p.beside q).Wide (left + right) := by
  induction p generalizing q with
  | nil => exact List.forall_mem_nil _
  | cons r rest ih =>
    cases q with
    | nil => exact List.forall_mem_nil _
    | cons s later =>
      obtain ⟨hr, hrest⟩ := List.forall_mem_cons.1 hp
      obtain ⟨hs, hlater⟩ := List.forall_mem_cons.1 hq
      refine List.forall_mem_cons.2 ⟨?_, ih hrest hlater⟩
      rw [List.length_append, hr, hs]

theorem length_upperEdge (style : Style) (title : String) (width : Nat) :
    (upperEdge style title width).length = width + 2 := by
  simp only [upperEdge, List.length_cons, List.length_append, List.length_take,
    List.length_replicate, List.length_nil]
  omega

theorem wide_box (style : Style) (title : String) {width : Nat} (height : Nat) (inside : Picture)
    (h : 2 ≤ width) : (box style title width height inside).Wide width := by
  have hwidth : width - 2 + 2 = width := Nat.sub_add_cancel h
  refine List.forall_mem_cons.2 ⟨?_, List.forall_mem_append.2 ⟨?_, ?_⟩⟩
  · rw [length_upperEdge, hwidth]
  · refine List.forall_mem_map.2 fun row hrow => ?_
    rw [sided, List.length_cons, List.length_append, wide_fit _ _ _ row hrow]
    exact hwidth
  · refine List.forall_mem_singleton.2 ?_
    rw [lowerEdge, List.length_cons, List.length_append, List.length_replicate]
    exact hwidth

theorem length_beside (p q : Picture) : (p.beside q).length = min p.length q.length :=
  List.length_zipWith

/-- A picture of the right size is not changed by bringing it to that size. -/
theorem Wide.fit_eq_self {width height : Nat} {p : Picture} (h : p.Wide width)
    (hheight : p.length = height) : p.fit width height = p := by
  have hrows : p.map (Row.fit width) = p :=
    (List.map_congr_left fun row hrow => Row.fit_eq_self (h row hrow)).trans (List.map_id p)
  rw [fit, hheight, Nat.sub_self, List.take_of_length_le (Nat.le_of_eq hheight),
    List.replicate_zero, List.append_nil, hrows]

/-- A row of a picture that was brought to a size, if there was such a row. -/
theorem getElem?_fit_of_lt {width height i : Nat} {p : Picture} (h : i < height)
    (hi : i < p.length) : (p.fit width height)[i]? = some (p[i].fit width) := by
  have hmin : i < ((p.take height).map (Row.fit width)).length := by
    simp only [List.length_map, List.length_take]
    omega
  rw [fit, List.getElem?_append_left hmin, List.getElem?_map, List.getElem?_take_of_lt h,
    List.getElem?_eq_getElem hi, Option.map_some]

/-- Rows that were missing are blank. -/
theorem getElem?_fit_of_le {width height i : Nat} {p : Picture} (h : i < height)
    (hi : p.length ≤ i) : (p.fit width height)[i]? = some (Row.blank width) := by
  have hlen : ((p.take height).map (Row.fit width)).length = p.length := by
    simp only [List.length_map, List.length_take]
    omega
  rw [fit, List.getElem?_append_right (hlen ▸ hi), hlen, List.getElem?_replicate]
  exact if_pos (by omega)

/-- Bringing a picture to a size that it does not exceed in height keeps its marks. -/
theorem countP_isMarked_fit {width height : Nat} {p : Picture} (hwidth : 0 < width)
    (hheight : p.length ≤ height) :
    (p.fit width height).countP Row.isMarked = p.countP Row.isMarked := by
  have hrows : Row.isMarked ∘ Row.fit width = Row.isMarked :=
    funext fun row => Row.isMarked_fit hwidth
  rw [fit, List.take_of_length_le hheight, List.countP_append, List.countP_map, hrows,
    List.countP_replicate, if_neg (by rw [Row.isMarked_blank]; exact Bool.false_ne_true),
    Nat.add_zero]

/-! ### Rectangles -/

/-- The rectangle of a picture that begins at a column and a row and has a width and a height. -/
def crop (left top width height : Nat) (p : Picture) : Picture :=
  ((p.drop top).take height).map fun row => (row.drop left).take width

variable {left top width height : Nat}

theorem length_crop {p : Picture} (h : top + height ≤ p.length) :
    (p.crop left top width height).length = height := by
  rw [crop, List.length_map, List.length_take, List.length_drop]
  omega

/-- All of a picture is a rectangle of it. -/
theorem Wide.crop_eq_self {p : Picture} (h : p.Wide width) (hheight : p.length = height) :
    p.crop 0 0 width height = p := by
  have hrow : ∀ row ∈ p, (row.drop 0).take width = row := fun row hrow =>
    List.take_of_length_le (Nat.le_of_eq (h row hrow))
  rw [crop, List.drop_zero, List.take_of_length_le (Nat.le_of_eq hheight)]
  exact (List.map_congr_left hrow).trans (List.map_id _)

/-- What lies above is seen without what lies below. -/
theorem crop_above {p : Picture} (h : top + height ≤ p.length) (q : Picture) :
    (p.above q).crop left top width height = p.crop left top width height := by
  have htop : top ≤ p.length := Nat.le_trans (Nat.le_add_right top height) h
  have hheight : height ≤ (p.drop top).length := by
    rw [List.length_drop]
    omega
  rw [crop, above, List.drop_append_of_le_length htop, List.take_append_of_le_length hheight, crop]

theorem map_take_beside {n : Nat} {p q : Picture} (hp : p.Wide n) (h : p.length = q.length) :
    (p.beside q).map (List.take n) = p := by
  induction p generalizing q with
  | nil => rfl
  | cons r rest ih =>
    obtain ⟨s, later, rfl⟩ := List.exists_cons_of_length_eq_add_one h.symm
    obtain ⟨hr, hrest⟩ := List.forall_mem_cons.1 hp
    have hrow : (r ++ s).take n = r := by rw [← hr, List.take_left]
    rw [beside, List.zipWith_cons_cons, List.map_cons, hrow]
    exact congrArg _ (ih hrest (Nat.succ.inj h))

theorem map_drop_beside {n : Nat} {p q : Picture} (hp : p.Wide n) (h : p.length = q.length) :
    (p.beside q).map (List.drop n) = q := by
  induction p generalizing q with
  | nil => exact (List.length_eq_zero_iff.1 h.symm).symm
  | cons r rest ih =>
    obtain ⟨s, later, rfl⟩ := List.exists_cons_of_length_eq_add_one h.symm
    obtain ⟨hr, hrest⟩ := List.forall_mem_cons.1 hp
    have hrow : (r ++ s).drop n = s := by rw [← hr, List.drop_left]
    rw [beside, List.zipWith_cons_cons, List.map_cons, hrow]
    exact congrArg _ (ih hrest (Nat.succ.inj h))

theorem crop_map (f : Row → Row) (p : Picture) :
    crop left top width height (p.map f) =
      ((p.drop top).take height).map fun row => ((f row).drop left).take width := by
  rw [crop, ← List.map_drop, ← List.map_take, List.map_map]
  rfl

/-- What lies on the left is seen without what lies on the right. -/
theorem crop_beside_left {n : Nat} {p q : Picture} (hp : p.Wide n) (h : p.length = q.length)
    (hwidth : left + width ≤ n) :
    (p.beside q).crop left top width height = p.crop left top width height := by
  have hleft := congrArg (crop left top width height) (map_take_beside hp h)
  rw [crop_map] at hleft
  rw [← hleft, crop]
  refine List.map_congr_left fun row _ => ?_
  rw [List.drop_take, List.take_take, Nat.min_eq_left (Nat.le_sub_of_add_le' hwidth)]

/-- What lies on the right is seen without what lies on the left. -/
theorem crop_beside_right {n : Nat} {p q : Picture} (hp : p.Wide n) (h : p.length = q.length) :
    (p.beside q).crop n top width height = q.crop 0 top width height := by
  have hright := congrArg (crop 0 top width height) (map_drop_beside hp h)
  rw [crop_map] at hright
  rw [← hright]
  rfl

/-- The inside of a box is what was put there, brought to its size. -/
theorem crop_box (style : Style) (title : String) (width height : Nat) (inside : Picture) :
    (box style title width height inside).crop 1 1 (width - 2) (height - 2) =
      inside.fit (width - 2) (height - 2) := by
  have hlength : ((inside.fit (width - 2) (height - 2)).map (sided style)).length = height - 2 := by
    rw [List.length_map, length_fit]
  have hrow : ∀ row ∈ inside.fit (width - 2) (height - 2),
      ((sided style row).drop 1).take (width - 2) = row := by
    intro row hrow
    rw [sided, List.drop_one, List.tail_cons, ← wide_fit _ _ _ row hrow, List.take_left]
  rw [crop, box, List.drop_one, List.tail_cons, List.take_left' hlength, List.map_map]
  exact (List.map_congr_left hrow).trans (List.map_id _)

/-- A rectangle without any width shows nothing but its height, and so does a picture. -/
theorem crop_zero_width {p : Picture} (h : top + height ≤ p.length) (q : Picture) :
    p.crop left top 0 height = q.fit 0 height := by
  have hcrop : p.crop left top 0 height = List.replicate height [] :=
    List.eq_replicate_iff.2 ⟨length_crop h, List.forall_mem_map.2 fun row _ => List.take_zero⟩
  have hfit : q.fit 0 height = List.replicate height [] :=
    List.eq_replicate_iff.2 ⟨length_fit 0 height q, fun row hrow =>
      List.length_eq_zero_iff.1 (wide_fit 0 height q row hrow)⟩
  rw [hcrop, hfit]

/-- What is seen inside a box, also if the screen is so narrow that nothing is seen of the box. -/
theorem crop_of_eq_box {p : Picture} {style : Style} {title : String} {inside : Picture}
    (hbox : 0 < width → p = box style title width height inside) (hlength : p.length = height)
    (h : 2 ≤ height) :
    p.crop 1 1 (width - 2) (height - 2) = inside.fit (width - 2) (height - 2) := by
  rcases Nat.eq_zero_or_pos width with rfl | hpos
  · exact crop_zero_width (by omega) inside
  · rw [hbox hpos, crop_box]

end Picture

end LittleMan
