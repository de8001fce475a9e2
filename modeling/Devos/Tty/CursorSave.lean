import Devos.Tty.ScreenBounds

/-! Saving the cursor and going back to it, by `ESC 7` and `ESC 8` and by `CSI s` and `CSI u`. -/

namespace Devos.Tty

open StringMoves

namespace Console

inductive CursorCall
  | save
  | restore
  deriving DecidableEq

/-- The byte after ESC: what comes of it in the last two branches of `escByte`. -/
def escCall (c : Byte) (s : Console) : Option CursorCall :=
  if c = 91 ∨ c = 69 ∨ c = 77 ∨ c = 68 ∨ c = 90 then none
  else if s.x = 55 then some .save
  else if s.x = 56 then some .restore
  else none

/-- A byte in `state` 3, of which `npar` is what has been read. -/
def csiCall (npar : ℕ) (c : Byte) : Option CursorCall :=
  if c = 59 ∧ npar < nPar - 1 ∨ 48 ≤ c.toInt ∧ c.toInt ≤ 57 then none
  else if c = 115 then some .save
  else if c = 117 then some .restore
  else none

/-- Which of `save_cur` and `restore_cur` the byte `c` leads to. -/
def cursorCall (c : Byte) (s : Console) : Option CursorCall :=
  match s.state with
  | .s0 => none
  | .s1 => escCall c s
  | .s2 => if c = 63 then none else csiCall 0 c
  | .s3 => csiCall s.npar c

/-- `bytes` lead from one state to the other, and none of them to `save_cur`. -/
inductive Unsaved : Console → List (Settings × Byte) → Console → Prop
  | nil {s} : Unsaved s [] s
  | cons {s t u q c bytes} (hcall : cursorCall c s ≠ some .save) (hstep : conByte q c s = .ok t)
    (hrest : Unsaved t bytes u) : Unsaved s ((q, c) :: bytes) u

/-- By the sequence `restore` the cursor is where it is in `s`, wherever the screen has gone. -/
def Returns (restore : List Byte) (s t : Console) : Prop :=
  ∀ last, last.map Prod.snd = restore →
    ∃ u, conWrite last t = .ok u ∧ u.x = s.x ∧ u.y = s.y ∧ u.pos = u.origin + 2 * (s.y * columns + s.x)

section Keeping

variable {s t : Console} {q : Settings} {o : Overlay} {c : Byte} {r : Except Fault Console}

/-- The saved cursor of `s` is still there. -/
def Keeps (s : Console) (r : Except Fault Console) : Prop := ∀ t, r = .ok t → t.savedX = s.savedX ∧ t.savedY = s.savedY

lemma Keeps.bind {f : Console → Except Fault Console} (h : Keeps s r) (hf : ∀ t, Keeps t (f t)) : Keeps s (r.bind f) := by
  intro u hu
  cases r with
  | error e => cases hu
  | ok t =>
    obtain ⟨hx, hy⟩ := h t rfl
    obtain ⟨hx', hy'⟩ := hf t u hu
    exact ⟨hx'.trans hx, hy'.trans hy⟩

lemma Keeps.restore {f : Console → Console} (h : Keeps s r) (hf : ∀ t, (f t).savedX = t.savedX ∧ (f t).savedY = t.savedY) :
    Keeps s (r.map f) := by
  intro u hu
  cases r with
  | error e => cases hu
  | ok t =>
    cases hu
    obtain ⟨hx, hy⟩ := h t rfl
    obtain ⟨hx', hy'⟩ := hf t
    exact ⟨hx'.trans hx, hy'.trans hy⟩

lemma Keeps.ite {p : Prop} [Decidable p] {r' : Except Fault Console} (h : p → Keeps s r) (h' : ¬p → Keeps s r') :
    Keeps s (if p then r else r') := by
  split_ifs with hp
  · exact h hp
  · exact h' hp

lemma Keeps.trans (h : Keeps t r) (hx : t.savedX = s.savedX) (hy : t.savedY = s.savedY) : Keeps s r :=
  fun u hu => ⟨(h u hu).1.trans hx, (h u hu).2.trans hy⟩

end Keeping

section Sequences

variable {s t u : Console} {c : Byte} {bytes sequence : List (Settings × Byte)}

lemma Unsaved.onScreen (h : Unsaved s bytes t) (hs : OnScreen s) : OnScreen t := by
  induction h with
  | nil => exact hs
  | @cons _ _ _ q c _ _ hstep _ ih =>
    obtain ⟨v, hv, hsafe, _⟩ := conByte_follows (c := c) (q := q) hs
    rw [hstep] at hv
    cases hv
    exact ih hsafe

/-- A cursor on the screen is in video memory where its column and row are. -/
lemma OnScreen.pos_eq (h : OnScreen u) (hx : u.x = s.x) (hy : u.y = s.y) :
    u.pos = u.origin + 2 * (s.y * columns + s.x) := by
  rw [h.pos, hx, hy]

end Sequences

def home : Console := conInit 0 0 fun _ => 0

end Console

end Devos.Tty
