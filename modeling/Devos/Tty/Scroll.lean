import Devos.Tty.ScreenBounds

/-! Scrolling as the user sees it: a row is taken out of the visible screen and a blank one put in. -/

namespace Devos.Tty

section RowSurgery

variable {α : Type*} {f : ℕ → α} {n t b r : ℕ} {a : α}

lemma length_erase_insert {i j : ℕ} (hi : i < n) (hj : j < n) :
    ((((List.range n).map f).eraseIdx i).insertIdx j a).length = n := by
  have hlen : (((List.range n).map f).eraseIdx i).length = n - 1 := by
    rw [List.length_eraseIdx_of_lt (by simpa using hi), List.length_map, List.length_range]
  rw [List.length_insertIdx_of_le_length (by omega), hlen]
  omega

lemma getElem_erase {i : ℕ} (h : r < (((List.range n).map f).eraseIdx i).length) :
    (((List.range n).map f).eraseIdx i)[r] = if r < i then f r else f (r + 1) := by
  rw [List.getElem_eraseIdx]
  split_ifs <;> simp

/-- Row `t` goes, and `a` is row `b` below it. -/
lemma erase_insert_below (ht : t ≤ b) (hb : b < n) :
    (((List.range n).map f).eraseIdx t).insertIdx b a =
      (List.range n).map fun r => if r = b then a else if t ≤ r ∧ r < b then f (r + 1) else f r := by
  apply List.ext_getElem
  · rw [length_erase_insert (by omega) hb, List.length_map, List.length_range]
  · intro r h₁ h₂
    rw [List.getElem_map, List.getElem_range]
    rcases lt_trichotomy r b with hr | rfl | hr
    · rw [List.getElem_insertIdx_of_lt hr, getElem_erase]
      by_cases htr : t ≤ r
      · rw [if_neg (by omega), if_neg (by omega), if_pos ⟨htr, hr⟩]
      · rw [if_pos (by omega), if_neg (by omega), if_neg (by omega)]
    · rw [List.getElem_insertIdx_self, if_pos rfl]
    · rw [List.getElem_insertIdx_of_gt hr, getElem_erase, if_neg (by omega), if_neg (by omega), if_neg (by omega),
        Nat.sub_add_cancel (by omega)]

/-- Row `b` goes, and `a` is row `t` above it. -/
lemma erase_insert_above (ht : t ≤ b) (hb : b < n) :
    (((List.range n).map f).eraseIdx b).insertIdx t a =
      (List.range n).map fun r => if r = t then a else if t < r ∧ r ≤ b then f (r - 1) else f r := by
  apply List.ext_getElem
  · rw [length_erase_insert hb (by omega), List.length_map, List.length_range]
  · intro r h₁ h₂
    rw [List.getElem_map, List.getElem_range]
    rcases lt_trichotomy r t with hr | rfl | hr
    · rw [List.getElem_insertIdx_of_lt hr, getElem_erase, if_pos (by omega), if_neg (by omega), if_neg (by omega)]
    · rw [List.getElem_insertIdx_self, if_pos rfl]
    · rw [List.getElem_insertIdx_of_gt hr, getElem_erase]
      by_cases hrb : r ≤ b
      · rw [if_pos (by omega), if_neg (by omega), if_pos ⟨hr, hrb⟩]
      · rw [if_neg (by omega), if_neg (by omega), if_neg (by omega), Nat.sub_add_cancel (by omega)]

end RowSurgery

namespace Console

/-- The characters of a line with their colours. -/
def row (s : Console) (r : ℕ) : List Word :=
  (List.range columns).map fun k => loadWord (s.origin + 2 * (r * columns + k)) s.video

def blankRow : List Word := List.replicate columns blank

def rows (s : Console) : List (List Word) := (List.range lines).map s.row

section Rows

variable {s t : Console} {o : Overlay} {r r' : ℕ}

lemma row_eq (h : ∀ b < 160, t.video (t.origin + 160 * r + b) = s.video (s.origin + 160 * r' + b)) :
    t.row r = s.row r' := by
  apply List.map_congr_left
  intro k hk
  rw [List.mem_range] at hk
  dsimp only [columns] at hk ⊢
  have ht : t.origin + 2 * (r * 80 + k) = t.origin + 160 * r + 2 * k := by omega
  have hs : s.origin + 2 * (r' * 80 + k) = s.origin + 160 * r' + 2 * k := by omega
  unfold loadWord
  rw [ht, hs, Nat.add_assoc _ (2 * k) 1, Nat.add_assoc _ (2 * k) 1, h _ (by omega), h _ (by omega)]

lemma blank_bytes (k : ℕ) : blanks ((2 * k + 1) % 2) ++ blanks (2 * k % 2) = blank := by
  have h₁ : (2 * k + 1) % 2 = 1 := by omega
  have h₀ : 2 * k % 2 = 0 := by omega
  rw [h₁, h₀]
  decide

lemma row_blank (h : ∀ b < 160, t.video (t.origin + 160 * r + b) = blanks (b % 2)) : t.row r = blankRow := by
  unfold row blankRow
  rw [List.eq_replicate_iff]
  refine ⟨by simp, ?_⟩
  intro w hw
  obtain ⟨k, hk, rfl⟩ := List.mem_map.mp hw
  rw [List.mem_range] at hk
  dsimp only [columns] at hk ⊢
  have ht : t.origin + 2 * (r * 80 + k) = t.origin + 160 * r + 2 * k := by omega
  unfold loadWord
  rw [ht, Nat.add_assoc _ (2 * k) 1, h _ (by omega), h _ (by omega)]
  exact blank_bytes k

/-- Row `top` is gone, row `bottom - 1` is blank, and nothing has changed outside of these. -/
def ScrolledUp (top bottom : ℕ) (s t : Console) : Prop :=
  t.rows = (s.rows.eraseIdx top).insertIdx (bottom - 1) blankRow ∧
    ∀ r < lines, r < top ∨ bottom ≤ r → t.row r = s.row r

/-- Row `bottom - 1` is gone, row `top` is blank, and nothing has changed outside of these. -/
def ScrolledDown (top bottom : ℕ) (s t : Console) : Prop :=
  t.rows = (s.rows.eraseIdx (bottom - 1)).insertIdx top blankRow ∧
    ∀ r < lines, r < top ∨ bottom ≤ r → t.row r = s.row r

variable {top bottom : ℕ}

lemma scrolledUp_of_rows (htop : top < bottom) (hbottom : bottom ≤ lines) (hblank : t.row (bottom - 1) = blankRow)
    (hmoved : ∀ r, top ≤ r → r < bottom - 1 → t.row r = s.row (r + 1))
    (hkept : ∀ r < lines, r < top ∨ bottom ≤ r → t.row r = s.row r) : ScrolledUp top bottom s t := by
  refine ⟨?_, hkept⟩
  unfold rows
  rw [erase_insert_below (by omega) (by omega)]
  apply List.map_congr_left
  intro r hr
  rw [List.mem_range] at hr
  split_ifs with hlast hin
  · rw [hlast, hblank]
  · exact hmoved r hin.1 hin.2
  · exact hkept r hr (by omega)

lemma scrolledDown_of_rows (htop : top < bottom) (hbottom : bottom ≤ lines) (hblank : t.row top = blankRow)
    (hmoved : ∀ r, top < r → r < bottom → t.row r = s.row (r - 1))
    (hkept : ∀ r < lines, r < top ∨ bottom ≤ r → t.row r = s.row r) : ScrolledDown top bottom s t := by
  refine ⟨?_, hkept⟩
  unfold rows
  rw [erase_insert_above (by omega) (by omega)]
  apply List.map_congr_left
  intro r hr
  rw [List.mem_range] at hr
  split_ifs with hfirst hin
  · rw [hfirst, hblank]
  · exact hmoved r hin.1 (by omega)
  · exact hkept r hr (by omega)

lemma linesUp_scrolled (h : OnScreen s) : ScrolledUp s.top s.bottom s { s with video := s.linesUp } := by
  have htop := h.top
  apply scrolledUp_of_rows htop h.bottom
  · apply row_blank
    intro b hb
    have hcell : s.origin + 160 * (s.bottom - 1) + b - (s.origin + 160 * (s.bottom - 1)) = b := by omega
    dsimp only
    unfold linesUp
    rw [if_pos (by omega), hcell]
  · intro r hr hr'
    apply row_eq
    intro b hb
    have hcell : s.origin + 160 * r + b + 160 = s.origin + 160 * (r + 1) + b := by omega
    dsimp only
    unfold linesUp
    rw [if_neg (by omega), if_pos (by omega), hcell]
  · intro r hr hout
    apply row_eq
    intro b hb
    dsimp only
    unfold linesUp
    rw [if_neg (by omega), if_neg (by omega)]

lemma linesDown_scrolled (h : OnScreen s) : ScrolledDown s.top s.bottom s { s with video := s.linesDown } := by
  have htop := h.top
  apply scrolledDown_of_rows htop h.bottom
  · apply row_blank
    intro b hb
    have hcell : s.origin + 160 * s.top + b - (s.origin + 160 * s.top) = b := by omega
    dsimp only
    unfold linesDown
    rw [if_pos (by omega), hcell]
  · intro r hr hr'
    apply row_eq
    intro b hb
    have hcell : s.origin + 160 * r + b - 160 = s.origin + 160 * (r - 1) + b := by omega
    dsimp only
    unfold linesDown
    rw [if_neg (by omega), if_pos (by omega), hcell]
  · intro r hr hout
    apply row_eq
    intro b hb
    dsimp only
    unfold linesDown
    rw [if_neg (by omega), if_neg (by omega)]

lemma scrollOrigin_scrolled (h : OnScreen s) : ∃ t, s.scrollOrigin = .ok t ∧ ScrolledUp 0 lines s t := by
  obtain ⟨t, ht, _, _, hmoved, hblank⟩ := scrollOrigin_spec h
  refine ⟨t, ht, ?_⟩
  apply scrolledUp_of_rows (by decide) (le_refl _)
  · exact row_blank hblank
  · intro r _ hr
    apply row_eq
    intro b hb
    dsimp only [lines] at hr
    have hto : t.origin + 160 * r + b = t.origin + (160 * r + b) := by omega
    have hfrom : s.origin + 160 * (r + 1) + b = s.origin + 160 + (160 * r + b) := by omega
    rw [hto, hfrom]
    exact hmoved _ (by omega)
  · intro r hr hout
    omega

lemma redraw_off (hoff : o.scruptStateFlag ≠ 1 ∧ o.scruptStateFlag ≠ 2) : redraw o s = .ok s := by
  unfold redraw Overlay.writes
  rw [if_neg hoff.1, if_neg hoff.2]
  rfl

lemma scrup_scrolled (h : OnScreen s) (hoff : o.scruptStateFlag ≠ 1 ∧ o.scruptStateFlag ≠ 2) :
    ∃ t, scrup o s = .ok t ∧ ScrolledUp s.top s.bottom s t := by
  unfold scrup
  split_ifs with hwhole
  · obtain ⟨t, ht, hup⟩ := scrollOrigin_scrolled h
    rw [ht, Except.bind, redraw_off hoff, hwhole.1, hwhole.2]
    exact ⟨t, rfl, hup⟩
  · rw [scrollRegion_eq h, Except.bind, redraw_off hoff]
    exact ⟨_, rfl, linesUp_scrolled h⟩

/-- Scrolling with neither overlay on the screen, on each of the ways it can go. -/
theorem scroll_rows (h : OnScreen s) (hoff : o.scruptStateFlag ≠ 1 ∧ o.scruptStateFlag ≠ 2) :
    (∃ t, scrup o s = .ok t ∧ ScrolledUp s.top s.bottom s t) ∧
    (∃ t, s.scrdown = .ok t ∧ ScrolledDown s.top s.bottom s t) ∧
    (∃ t, s.insertLine = .ok t ∧ ScrolledDown s.y lines s t ∧ t.top = s.top ∧ t.bottom = s.bottom) ∧
    ∃ t, deleteLine o s = .ok t ∧ ScrolledUp s.y lines s t ∧ t.top = s.top ∧ t.bottom = s.bottom := by
  refine ⟨scrup_scrolled h hoff, ⟨_, scrdown_eq h, linesDown_scrolled h⟩, ?_, ?_⟩
  · unfold insertLine
    rw [scrdown_eq h.fromCursor]
    exact ⟨_, rfl, linesDown_scrolled h.fromCursor, rfl, rfl⟩
  · obtain ⟨t, ht, hup⟩ := scrup_scrolled h.fromCursor hoff
    unfold deleteLine
    rw [ht]
    exact ⟨_, rfl, hup, rfl, rfl⟩

end Rows

/-- A screen at boot, with the cursor in row 7. -/
def bootScreen : Console := conInit 3 7 fun _ => 0x41

theorem scroll_rows_bootScreen :
    (∃ t, scrup noOverlay bootScreen = .ok t ∧ ScrolledUp 0 lines bootScreen t) ∧
    (∃ t, bootScreen.scrdown = .ok t ∧ ScrolledDown 0 lines bootScreen t) ∧
    (∃ t, bootScreen.insertLine = .ok t ∧ ScrolledDown 7 lines bootScreen t ∧ t.top = 0 ∧ t.bottom = lines) ∧
    ∃ t, deleteLine noOverlay bootScreen = .ok t ∧ ScrolledUp 7 lines bootScreen t ∧ t.top = 0 ∧ t.bottom = lines :=
  scroll_rows (conInit_onScreen (by decide) (by decide) _) (by decide)

end Console

end Devos.Tty
