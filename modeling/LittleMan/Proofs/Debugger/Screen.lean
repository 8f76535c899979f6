import LittleMan.Proofs.Debugger.Listing
import LittleMan.Proofs.Screen.Picture
import LittleMan.Screen.Draw

/-!
# What the screen shows of memory

The screen has two views of memory. One begins at the mailbox that it was scrolled to and ends at
the last one, or where there is no more room; it never begins past the last mailbox, so that there
is always one to be seen. The other is the listing around the program counter.

Either view is a rectangle of the screen, and what is in it depends on nothing else that is drawn:
it is the list of its rows, brought to the size of the rectangle. So it is enough to know the rows.
A row is highlighted if the program counter points to its mailbox, and in the listing that row
carries a mark as well.

## Main definitions

* `Debugger.memoryBox`, `Debugger.listingBox` — the rectangles of the screen for the two boxes
* `Debugger.memoryPane`, `Debugger.listingPane` — what the screen shows inside of them

## Main results

* `Debugger.memoryBox_eq`, `Debugger.listingBox_eq` — the boxes as they stand on the screen
* `Debugger.memoryPane_eq`, `Debugger.listingPane_eq` — the views without the rest of the screen
* `Debugger.Reached.scroll_le` — the view of memory begins at a mailbox
* `Debugger.Reached.screen_shows_mailboxes` — what the two views show
-/

namespace LittleMan

namespace Debugger

variable (d : Debugger)

/-! ### The two boxes -/

/-- The rectangle of the screen that the box for memory takes up. -/
def memoryBox (width height : Nat) : Picture :=
  (d.draw width height).crop (width * 55 / 100) 0 (width * 45 / 100) (height - 10)

/-- The rectangle of the screen that the box for the listing takes up. -/
def listingBox (width height : Nat) : Picture :=
  (d.draw width height).crop 0 0 (width * 55 / 100) (height - 9)

/-- What the screen shows inside the box for memory. -/
def memoryPane (width height : Nat) : Picture :=
  (d.memoryBox width height).crop 1 1 (width * 45 / 100 - 2) (height - 12)

/-- What the screen shows inside the box for the listing. -/
def listingPane (width height : Nat) : Picture :=
  (d.listingBox width height).crop 1 1 (width * 55 / 100 - 2) (height - 11)

theorem length_draw (width height : Nat) : (d.draw width height).length = height :=
  Picture.length_fit _ _ _

theorem length_leftColumn (width : Nat) {height : Nat} (h : 20 ≤ height) :
    (d.leftColumn width height).length = height := by
  rw [leftColumn, Picture.above, Picture.above, List.length_append, List.length_append,
    Picture.length_box _ _ _ _ _ (by omega), Picture.length_box _ _ _ _ _ (by decide),
    Picture.length_box _ _ _ _ _ (by decide)]
  omega

theorem length_rightColumn (width : Nat) {height : Nat} (h : 20 ≤ height) :
    (d.rightColumn width height).length = height := by
  rw [rightColumn, Picture.above, Picture.above, List.length_append, List.length_append,
    Picture.length_box _ _ _ _ _ (by omega), Picture.length_box _ _ _ _ _ (by decide),
    Picture.length_box _ _ _ _ _ (by decide)]
  omega

theorem wide_leftColumn {width : Nat} (height : Nat) (h : 2 ≤ width) :
    (d.leftColumn width height).Wide width :=
  (Picture.wide_box _ _ _ _ h).above
    ((Picture.wide_box _ _ _ _ h).above (Picture.wide_box _ _ _ _ h))

theorem wide_rightColumn {width : Nat} (height : Nat) (h : 2 ≤ width) :
    (d.rightColumn width height).Wide width :=
  (Picture.wide_box _ _ _ _ h).above
    ((Picture.wide_box _ _ _ _ h).above (Picture.wide_box _ _ _ _ h))

variable {width height : Nat}

/-- The columns share a width that is divisible by twenty, and nothing of it is left. Unless there
is no screen at all, there is something to see inside a box of either column. -/
theorem columns (h : 20 ∣ width) :
    width - width * 55 / 100 = width * 45 / 100 ∧
      width * 55 / 100 + width * 45 / 100 = width ∧
      (0 < width → 2 < width * 55 / 100 ∧ 2 < width * 45 / 100) := by
  obtain ⟨k, rfl⟩ := h
  omega

/-- The columns fill the screen, so that nothing is cut. -/
theorem draw_eq (hwidth : 20 ∣ width) (hpos : 0 < width) (hheight : 20 ≤ height) :
    d.draw width height =
      (d.leftColumn (width * 55 / 100) height).beside
        (d.rightColumn (width * 45 / 100) height) := by
  obtain ⟨hright, hsum, hroom⟩ := columns hwidth
  have hwide := (d.wide_leftColumn height (hroom hpos).1.le).beside
    (d.wide_rightColumn height (hroom hpos).2.le)
  rw [hsum] at hwide
  rw [draw, hright, hwide.fit_eq_self]
  rw [Picture.length_beside, length_leftColumn _ _ hheight, length_rightColumn _ _ hheight,
    Nat.min_self]

theorem length_columns (hheight : 20 ≤ height) :
    (d.leftColumn (width * 55 / 100) height).length =
      (d.rightColumn (width * 45 / 100) height).length :=
  (d.length_leftColumn _ hheight).trans (d.length_rightColumn _ hheight).symm

/-- The box for memory is seen in full. -/
theorem memoryBox_eq (hwidth : 20 ∣ width) (hpos : 0 < width) (hheight : 20 ≤ height) :
    d.memoryBox width height =
      Picture.box (.ofColor .magenta) " Memory " (width * 45 / 100) (height - 10)
        (d.memoryRows (height - 10 - 2)) := by
  have hroom := (columns hwidth).2.2 hpos
  have hbox := Picture.length_box (.ofColor .magenta) " Memory " (width * 45 / 100) (height - 10)
    (d.memoryRows (height - 10 - 2)) (by omega)
  rw [memoryBox, d.draw_eq hwidth hpos hheight,
    Picture.crop_beside_right (d.wide_leftColumn height hroom.1.le) (d.length_columns hheight),
    rightColumn, Picture.crop_above (by omega)]
  exact (Picture.wide_box _ _ _ _ hroom.2.le).crop_eq_self hbox

/-- So is the box for the listing. -/
theorem listingBox_eq (hwidth : 20 ∣ width) (hpos : 0 < width) (hheight : 20 ≤ height) :
    d.listingBox width height =
      Picture.box (.ofColor .cyan) " Disassembly " (width * 55 / 100) (height - 9)
        (d.listingRows (height - 9 - 2)) := by
  have hroom := (columns hwidth).2.2 hpos
  have hbox := Picture.length_box (.ofColor .cyan) " Disassembly " (width * 55 / 100) (height - 9)
    (d.listingRows (height - 9 - 2)) (by omega)
  rw [listingBox, d.draw_eq hwidth hpos hheight,
    Picture.crop_beside_left (d.wide_leftColumn height hroom.1.le) (d.length_columns hheight)
      (Nat.le_of_eq (Nat.zero_add _)),
    leftColumn, Picture.crop_above (by omega)]
  exact (Picture.wide_box _ _ _ _ hroom.1.le).crop_eq_self hbox

/-- Inside the box for memory there are its rows, cut or filled up. -/
theorem memoryPane_eq (hwidth : 20 ∣ width) (hheight : 20 ≤ height) :
    d.memoryPane width height =
      (d.memoryRows (height - 12)).fit (width * 45 / 100 - 2) (height - 12) := by
  have hinside : height - 12 = height - 10 - 2 := by omega
  have hlength : (d.memoryBox width height).length = height - 10 :=
    Picture.length_crop (by rw [length_draw, Nat.zero_add]; exact Nat.sub_le height 10)
  rw [memoryPane, hinside]
  exact Picture.crop_of_eq_box (fun _ => d.memoryBox_eq hwidth (by omega) hheight) hlength
    (by omega)

/-- Inside the box for the listing there are its rows, cut or filled up. -/
theorem listingPane_eq (hwidth : 20 ∣ width) (hheight : 20 ≤ height) :
    d.listingPane width height =
      (d.listingRows (height - 11)).fit (width * 55 / 100 - 2) (height - 11) := by
  have hinside : height - 11 = height - 9 - 2 := by omega
  have hlength : (d.listingBox width height).length = height - 9 :=
    Picture.length_crop (by rw [length_draw, Nat.zero_add]; exact Nat.sub_le height 9)
  rw [listingPane, hinside]
  exact Picture.crop_of_eq_box (fun _ => d.listingBox_eq hwidth (by omega) hheight) hlength
    (by omega)

/-! ### The rows of memory -/

/-- Only what is current is shown as current. -/
theorem cellStyle_eq_current_iff {isCurrent : Bool} {w : Int} {other : Style}
    (h : other.bold = false) : cellStyle isCurrent w other = .current ↔ isCurrent = true := by
  cases isCurrent with
  | true => exact ⟨fun _ => rfl, fun _ => rfl⟩
  | false =>
    refine ⟨fun hstyle => ?_, fun hfalse => (by cases hfalse)⟩
    have hbold : (cellStyle false w other).bold = false := by
      rw [cellStyle, if_neg Bool.false_ne_true]
      split
      · rfl
      · exact h
    rw [hstyle] at hbold
    cases hbold

theorem length_memoryRows (count : Nat) :
    (d.memoryRows count).length = min count (100 - d.scroll) := by
  rw [memoryRows, List.length_map, List.length_range', Memory.size]

theorem getElem_memoryRows {count i : Nat} (h : i < (d.memoryRows count).length) :
    (d.memoryRows count)[i] = memoryRow d.machine (d.scroll + i) := by
  simp only [memoryRows, List.getElem_map, List.getElem_range', Nat.one_mul]

/-- A row shows the address in two digits and the word. -/
theorem glyphs_memoryRow (m : Machine) {a : Nat} (ha : a < 100) :
    (memoryRow m a).glyphs =
      (Numeral.twoDigits a ++ ": " ++ Numeral.plain (m.memory.get a)).toList := by
  rw [memoryRow, Row.glyphs_ofString, Numeral.wide_two ha]

/-- A row is highlighted, at any width, if the program counter points to its mailbox. -/
theorem highlighted_memoryRow (m : Machine) {a : Nat} (ha : a < 100) {inner : Nat}
    (hinner : 0 < inner) : ((memoryRow m a).fit inner).Highlighted ↔ a = m.pc := by
  have hseen : ∀ k < 10, Nat.digitChar k ≠ ' ' := by decide
  have hfirst :
      (Numeral.twoDigits a ++ ": " ++ Numeral.plain (m.memory.get a)).toList =
        Nat.digitChar (a / 10) :: Nat.digitChar (a % 10) :: ':' :: ' ' ::
          Numeral.signed (m.memory.get a) := by
    rw [String.toList_append, String.toList_append, Numeral.twoDigits, String.toList_ofList,
      Numeral.toList_plain]
    rfl
  rw [memoryRow, Numeral.wide_two ha,
    Row.highlighted_fit_iff hfirst (hseen _ (Nat.div_lt_of_lt_mul ha)) hinner,
    cellStyle_eq_current_iff rfl, decide_eq_true_iff]

/-! ### The rows of the listing -/

/-- A row of the listing carries the mark if the program counter points to its mailbox. -/
theorem isMarked_listingRow (m : Machine) (r : ListingRow) :
    (listingRow m r).isMarked = r.isCurrent := by
  rw [listingRow, Row.ofString]
  cases r.isCurrent with
  | true =>
    simp only [String.toList_append, List.append_assoc]
    rfl
  | false =>
    simp only [String.toList_append, List.append_assoc]
    rfl

/-- As many rows carry the mark as lines of the listing are marked. -/
theorem countP_isMarked_listingRows (count : Nat) :
    (d.listingRows count).countP Row.isMarked = (d.marked count).length := by
  have hrows : Row.isMarked ∘ listingRow d.machine = ListingRow.isCurrent :=
    funext (isMarked_listingRow d.machine)
  rw [listingRows, List.countP_map, hrows, List.countP_eq_length_filter, marked]

theorem length_listingRows_le (count : Nat) : (d.listingRows count).length ≤ count := by
  rw [listingRows, List.length_map, listing_eq, List.length_map, List.length_range']
  exact Nat.min_le_left count 100

/-- One line of a listing is marked, or none if the program counter has left memory. -/
theorem length_marked {count : Nat} (hcount : 0 < count) :
    (d.marked count).length = if d.machine.pc < 100 then 1 else 0 := by
  by_cases hpc : d.machine.pc < 100
  · rw [marked_of_pc_lt hcount hpc, if_pos hpc]
    rfl
  · rw [marked_of_le_pc (Nat.le_of_not_lt hpc), if_neg hpc]
    rfl

/-! ### Scrolling -/

/-- **The view of memory always begins at a mailbox**, however it was scrolled and whatever else was
done. -/
theorem Reached.scroll_le {m : Machine} {d : Debugger} (h : Reached m d) : d.scroll ≤ 99 := by
  induction h with
  | start => exact Nat.zero_le 99
  | @step d _ ih =>
    obtain ⟨running, status, hs⟩ := d.exists_step
    rw [hs]
    exact ih
  | @tick d _ ih =>
    rcases d.exists_tick with ht | ⟨running, status, ht⟩
    · rwa [ht]
    · rw [ht]
      exact ih
  | @scrollBy d delta _ _ => exact Nat.le_of_lt_succ (d.scroll_scrollBy_lt delta)
  | run _ ih => exact ih
  | reset _ ih => exact ih
  | call _ _ ih => exact ih

/-! ### What the views show -/

/-- **The view of memory shows the right mailboxes.** Whatever was done to a debugger and however it
was scrolled, its view of memory begins at a mailbox. From there on the rows show one mailbox each,
with its address in two digits and the word that it holds now, cut or filled up to the width inside
the box. They end at the last mailbox, or where there is no more room, so that at least one mailbox
is shown; the rows that are left are blank. A row is highlighted if, and only if, the program
counter points to its mailbox. Next to it, exactly one row of the listing carries the mark if the
counter points to a mailbox, and none does otherwise. A screen without any width has its rows as
well, but nothing can be seen of them. -/
theorem Reached.screen_shows_mailboxes {m : Machine} {d : Debugger} (hd : Reached m d)
    {width height : Nat} (hwidth : 20 ∣ width) (hheight : 20 ≤ height) :
    d.scroll ≤ 99 ∧
    0 < min (height - 12) (100 - d.scroll) ∧
    (d.memoryPane width height).length = height - 12 ∧
    (∀ i < min (height - 12) (100 - d.scroll), ∃ row,
      (d.memoryPane width height)[i]? = some row ∧
      row.glyphs =
        ((Numeral.twoDigits (d.scroll + i) ++ ": "
          ++ Numeral.plain (d.machine.memory.get (d.scroll + i))).toList.rightpad
            (width * 45 / 100 - 2) ' ').take (width * 45 / 100 - 2) ∧
      (0 < width → (row.Highlighted ↔ d.scroll + i = d.machine.pc))) ∧
    (∀ i < height - 12, min (height - 12) (100 - d.scroll) ≤ i →
      ∃ row, (d.memoryPane width height)[i]? = some row ∧
        row.glyphs = List.replicate (width * 45 / 100 - 2) ' ' ∧ ¬row.Highlighted) ∧
    (d.listingPane width height).length = height - 11 ∧
    (0 < width → (d.listingPane width height).countP Row.isMarked =
      if d.machine.pc < 100 then 1 else 0) := by
  have hscroll := hd.scroll_le
  have hrows := d.length_memoryRows (height - 12)
  have hroom := (columns hwidth).2.2
  rw [memoryPane_eq d hwidth hheight, listingPane_eq d hwidth hheight]
  refine ⟨hscroll, by omega, Picture.length_fit _ _ _, fun i hi => ?_, fun i hi hshown => ?_,
    Picture.length_fit _ _ _, fun hpos => ?_⟩
  · have ha : d.scroll + i < 100 := by omega
    have hmem : i < (d.memoryRows (height - 12)).length := hrows ▸ hi
    refine ⟨_, Picture.getElem?_fit_of_lt (by omega) hmem, ?_, fun hpos => ?_⟩
    · rw [getElem_memoryRows, Row.glyphs_fit, glyphs_memoryRow _ ha]
    · rw [getElem_memoryRows]
      exact highlighted_memoryRow d.machine ha (Nat.sub_pos_of_lt (hroom hpos).2)
  · refine ⟨_, Picture.getElem?_fit_of_le hi (hrows ▸ hshown), ?_, Row.not_highlighted_blank _⟩
    rw [Row.glyphs, Row.blank, List.map_replicate]
  · rw [Picture.countP_isMarked_fit (Nat.sub_pos_of_lt (hroom hpos).1) (d.length_listingRows_le _),
      countP_isMarked_listingRows, d.length_marked (by omega)]

/-- On the narrowest screen there is room for seven characters, which cuts the long word in mailbox
97. A branch has led to mailbox 98, and the view is scrolled so far down that it ends after three
rows. -/
theorem Reached.screen_shows_mailboxes_of_end :
    let m := ((Machine.new .bounded32).load [698]).loadAt 97 [-123456789, 901]
    let d := (Debugger.start m).step.scrollBy 97
    Reached m d ∧ d.scroll = 97 ∧ d.machine.pc = 98 ∧
      (∃ row, (d.memoryPane 20 20)[0]? = some row ∧ row.glyphs = "97: -12".toList ∧
        ¬row.Highlighted) ∧
      (∃ row, (d.memoryPane 20 20)[1]? = some row ∧ row.glyphs = "98: 901".toList ∧
        row.Highlighted) ∧
      (∃ row, (d.memoryPane 20 20)[3]? = some row ∧ row.glyphs = List.replicate 7 ' ') ∧
      (d.listingPane 20 20).countP Row.isMarked = 1 := by
  intro m d
  have hd : Reached m d := .scrollBy 97 (.step .start)
  have hscroll : d.scroll = 97 := by decide +kernel
  have hpc : d.machine.pc = 98 := by decide +kernel
  have hcut : d.machine.memory.get 97 = -123456789 := by decide +kernel
  have hnext : d.machine.memory.get 98 = 901 := by decide +kernel
  obtain ⟨-, -, -, hshown, hblank, -, hmark⟩ :=
    Reached.screen_shows_mailboxes hd (by decide : 20 ∣ 20) (Nat.le_refl 20)
  obtain ⟨first, hfirst, hfirsttext, hfirststyle⟩ := hshown 0 (by rw [hscroll]; decide)
  obtain ⟨second, hsecond, hsecondtext, hsecondstyle⟩ := hshown 1 (by rw [hscroll]; decide)
  obtain ⟨last, hlast, hlasttext, -⟩ := hblank 3 (by decide) (by rw [hscroll]; decide)
  refine ⟨hd, hscroll, hpc, ⟨first, hfirst, ?_, ?_⟩, ⟨second, hsecond, ?_, ?_⟩,
    ⟨last, hlast, hlasttext⟩, ?_⟩
  · rw [hfirsttext, hscroll, hcut]
    decide
  · rw [hfirststyle (by decide), hscroll, hpc]
    decide
  · rw [hsecondtext, hscroll, hnext]
    decide
  · rw [hsecondstyle (by decide), hscroll, hpc]
  · rw [hmark (by decide), hpc]
    rfl

end Debugger

end LittleMan
