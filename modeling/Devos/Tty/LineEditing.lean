import Devos.Tty.LineCount

/-! Line editing: what `copy_to_cooked` makes of the characters of the read queue. -/

namespace Devos.Tty

open Loops

/-- CR and NL turned as the flags say, and letters in lower case. -/
def cooked (l : Line) (c : Byte) : Option Byte :=
  if c = 13 then if l.termios.icrnl then some 10 else if l.termios.igncr then none else some 13
  else if c = 10 ∧ l.termios.inlcr then some 13
  else if l.termios.iuclc ∧ 65 ≤ c.toInt ∧ c.toInt ≤ 90 then some (c + 32)
  else some c

/-- There is a character of a line that has not ended. -/
def Open (l : Line) (q : List Byte) : Prop := ∃ d ∈ q.getLast?, ¬endsLine l d

instance (l : Line) (q : List Byte) : Decidable (Open l q) := by
  unfold Open
  infer_instance

/-- The secondary queue behind a character. -/
def edit (l : Line) (q : List Byte) (c : Byte) : List Byte :=
  if isChar c l.termios.verase then if Open l q then q.dropLast else q
  else if isChar c l.termios.vstop ∨ isChar c l.termios.vstart then q
  else if ¬l.termios.isig ∧ isChar c l.termios.vintr then q
  else q ++ [c]

/-- The same for one of the read queue, if it is not dropped. -/
def editRaw (l : Line) (f : Byte → Option Byte) (q : List Byte) (c : Byte) : List Byte := (f c).elim q (edit l q)

/-- What has gone from the read queue is in the secondary queue, edited. -/
def Edited (l : Line) (t u : TtyStruct) : Prop :=
  ∃ w, t.readQ.held ttyBufSize = w ++ u.readQ.held ttyBufSize ∧
    u.secondary.held ttyBufSize = w.foldl (editRaw l (cooked l)) (t.secondary.held ttyBufSize)

/-- What `tty->write` is. -/
inductive Driver
  | conWrite
  | rsWrite
deriving DecidableEq

/-- `rs_write` starts the line and leaves the queues alone. -/
def Driver.write (l : Line) (n : ℕ) : Driver → TtyStruct → Except Fault TtyStruct
  | conWrite => Tty.conWrite l n
  | rsWrite => .ok

namespace TtyStruct

/-- The character that `copy_to_cooked` takes next. -/
def next (t : TtyStruct) : Byte := t.readQ.cell t.readQ.tail

/-- The condition of its loop does not hold. -/
def Ended (t : TtyStruct) : Prop := t.readQ.head = t.readQ.tail ∨ t.secondary.size ttyBufSize = ttyBufSize - 1

end TtyStruct

/-- The terminals at the head of the loop. -/
inductive Turns (l : Line) (write : TtyStruct → Except Fault TtyStruct) (t : TtyStruct) : TtyStruct → Prop
  | start : Turns l write t t
  | turn {u v} : Turns l write t u → ¬u.Ended → copyByte l write u.next u.getRead = .ok v → Turns l write t v

/-- One of the characters is the last of `ESC Z`. -/
def Asked : EscState × ℕ → List Byte → Prop
  | _, [] => False
  | p, c :: cs => p.1 = .s1 ∧ c = 90 ∨ Asked (Console.escNext p c) cs

/-- The terminal at the call of `tty->write` in a turn with an echo. -/
def echoing (l : Line) (t : TtyStruct) : Option TtyStruct :=
  (beginByte l t.next t.getRead).2.bind fun p =>
    if l.termios.echo then some ((p.echo l t.getRead).foldl TtyStruct.putWrite (beginByte l t.next t.getRead).1) else none

/-- The console finds a query among the characters that the echo is with. -/
def Answers (l : Line) (d : Driver) (t : TtyStruct) : Prop :=
  d = .conWrite ∧ ∃ s ∈ echoing l t, Asked s.place (s.writeQ.held ttyBufSize)

/-- A character for which `tolower` has an upper-case letter. -/
def Miscased (l : Line) (c : Byte) : Prop := l.termios.iuclc = true ∧ isupper l c = true

section Characters

variable {l : Line} {c d : Byte} {q : List Byte} {f : Byte → Option Byte}

lemma not_isChar (h : c.toInt < 0) (cc : Byte) : ¬isChar c cc := by
  unfold isChar
  omega

lemma lower_eq (h : ¬Miscased l c) : (if l.termios.iuclc then tolower l c else c) = c := by
  unfold Miscased at h
  unfold tolower
  split_ifs with hlower hupper
  · exact absurd ⟨hlower, hupper⟩ h
  · rfl
  · rfl

lemma isupper_letter (h : 65 ≤ c.toInt ∧ c.toInt ≤ 90) : isupper l c = true := by
  rw [isupper, if_pos (by omega)]
  simpa using h

lemma mapped_of_cased (h : ¬Miscased l c) : mapped l c = cooked l c := by
  have hcontrol : ∀ c : Byte, (0 ≤ c.toInt ∧ c.toInt < 65) → ¬Miscased l c := by
    rintro c ⟨hlo, hhi⟩ ⟨_, hupper⟩
    rw [isupper, if_pos (by omega)] at hupper
    simp at hupper
    omega
  have hline := lower_eq (hcontrol 10 (by decide))
  have hreturn := lower_eq (hcontrol 13 (by decide))
  have hletter : ¬(l.termios.iuclc = true ∧ 65 ≤ c.toInt ∧ c.toInt ≤ 90) := fun hc => h ⟨hc.1, isupper_letter hc.2⟩
  unfold mapped cooked
  simp only [hline, hreturn, lower_eq h, if_neg hletter]

lemma edit_negative (h : c.toInt < 0) : edit l q c = q ++ [c] := by
  have hno := not_isChar h
  rw [edit, if_neg (hno _), if_neg (not_or.mpr ⟨hno _, hno _⟩), if_neg fun hi => hno _ hi.2]

/-- Two characters, of which one is negative, do not do the same. -/
lemma edit_ne (h : c.toInt < 0) (hne : d ≠ c) : edit l q d ≠ edit l q c := by
  rw [edit_negative h]
  intro heq
  have hlength := congrArg List.length heq
  unfold edit at heq hlength
  split_ifs at heq hlength
  · simp at hlength
  · simp at hlength
  · simp at hlength
  · simp at hlength
  · exact hne (List.singleton_inj.mp (List.append_cancel_left heq))

lemma letter_shifted : ∀ c : Byte, 65 ≤ c.toInt ∧ c.toInt ≤ 90 → (c + 162).toInt < 0 := by
  intro c hc
  have hshift : (162 : Byte).toNat = 162 := rfl
  have hlt := c.isLt
  simp only [BitVec.toInt_eq_toNat_cond, BitVec.toNat_add] at hc ⊢
  split_ifs at hc ⊢ <;> omega

lemma shifts_differ : ∀ c : Byte, c + 32 ≠ c + 162 ∧ c + 162 ≠ c := by
  intro c
  constructor <;> bv_omega

lemma editRaw_miscased (h : Miscased l c) : editRaw l (mapped l) q c ≠ editRaw l (cooked l) q c := by
  obtain ⟨hflag, hupper⟩ := h
  have h13 : c ≠ 13 := by
    rintro rfl
    exact absurd hupper (by simp [isupper])
  have h10 : c ≠ 10 := by
    rintro rfl
    exact absurd hupper (by simp [isupper])
  have hmap : mapped l c = some (c + 162) := by
    have hlow : tolower l c = c + 162 := if_pos hupper
    unfold mapped
    simp only [if_neg h13, h10, false_and, if_false, hflag, if_true, hlow]
  by_cases hletter : 65 ≤ c.toInt ∧ c.toInt ≤ 90
  · have hcook : cooked l c = some (c + 32) := by
      rw [cooked, if_neg h13, if_neg fun h => h10 h.1, if_pos ⟨hflag, hletter⟩]
    rw [editRaw, editRaw, hmap, hcook]
    exact (edit_ne (letter_shifted c hletter) (shifts_differ c).1).symm
  · have hcook : cooked l c = some c := by
      rw [cooked, if_neg h13, if_neg fun h => h10 h.1, if_neg fun h => hletter h.2]
    rw [editRaw, editRaw, hmap, hcook]
    refine edit_ne ?_ (shifts_differ c).2
    by_contra hpos
    rw [isupper, if_pos (by omega)] at hupper
    exact hletter (by simpa using hupper)

end Characters

section Turning

variable {l : Line} {t u v r : TtyStruct} {c : Byte} {p : Option Pending} {d : Driver} {m n : ℕ} {bytes : List Byte}
  {write : TtyStruct → Except Fault TtyStruct}

lemma held_unput (h : t.secondary.Inside ttyBufSize) (hne : t.secondary.head ≠ t.secondary.tail) :
    t.secondary.held ttyBufSize = t.unputSecondary.secondary.held ttyBufSize ++ [t.lastSecondary] := by
  unfold TtyStruct.unputSecondary TtyStruct.lastSecondary
  exact h.held_back hne

lemma open_iff (h : t.secondary.Inside ttyBufSize) : Open l (t.secondary.held ttyBufSize) ↔ ¬lineStart l t := by
  unfold lineStart
  by_cases hempty : t.secondary.head = t.secondary.tail
  · rw [h.held_eq_nil hempty]
    simp [Open, hempty]
  · rw [held_unput h hempty]
    simp [Open, endsLine, hempty]

/-- A turn without what goes out for the echo. -/
lemma beginByte_edit (hcanon : l.termios.icanon = true) (h : t.secondary.Inside ttyBufSize)
    (hroom : t.secondary.size ttyBufSize ≠ ttyBufSize - 1) (hbegin : beginByte l c t = (u, p)) :
    (∃ k b, u = { t with data := k, stopped := b }) ∧
      (p.elim t fun a => a.finish t).secondary.held ttyBufSize =
        editRaw l (mapped l) (t.secondary.held ttyBufSize) c := by
  unfold beginByte at hbegin
  unfold editRaw
  cases hm : mapped l c with
  | none =>
    rw [hm] at hbegin
    obtain ⟨rfl, rfl⟩ := Prod.mk.inj hbegin
    exact ⟨⟨t.data, t.stopped, rfl⟩, rfl⟩
  | some e =>
    rw [hm] at hbegin
    simp only [hcanon, true_and] at hbegin
    rw [Option.elim_some, edit]
    by_cases herase : isChar e l.termios.verase
    · rw [if_pos herase] at hbegin ⊢
      obtain ⟨rfl, rfl⟩ := Prod.mk.inj hbegin
      refine ⟨⟨t.data, t.stopped, rfl⟩, ?_⟩
      by_cases hstart : lineStart l t
      · rw [if_pos hstart, if_neg (by rw [open_iff h]; exact not_not.mpr hstart)]
        rfl
      · have hne : t.secondary.head ≠ t.secondary.tail := fun hempty => hstart (Or.inl hempty)
        rw [if_neg hstart, if_pos ((open_iff h).mpr hstart), held_unput h hne, List.dropLast_concat]
        rfl
    rw [if_neg herase] at hbegin ⊢
    by_cases hstop : isChar e l.termios.vstop
    · rw [if_pos hstop] at hbegin
      rw [if_pos (Or.inl hstop)]
      obtain ⟨rfl, rfl⟩ := Prod.mk.inj hbegin
      exact ⟨⟨t.data, true, rfl⟩, rfl⟩
    rw [if_neg hstop] at hbegin
    by_cases hgo : isChar e l.termios.vstart
    · rw [if_pos hgo] at hbegin
      rw [if_pos (Or.inr hgo)]
      obtain ⟨rfl, rfl⟩ := Prod.mk.inj hbegin
      exact ⟨⟨t.data, false, rfl⟩, rfl⟩
    rw [if_neg hgo] at hbegin
    rw [if_neg (not_or.mpr ⟨hstop, hgo⟩)]
    by_cases hintr : ¬l.termios.isig ∧ isChar e l.termios.vintr
    · rw [if_pos hintr] at hbegin ⊢
      obtain ⟨rfl, rfl⟩ := Prod.mk.inj hbegin
      exact ⟨⟨t.data, t.stopped, rfl⟩, rfl⟩
    · rw [if_neg hintr] at hbegin ⊢
      obtain ⟨rfl, rfl⟩ := Prod.mk.inj hbegin
      exact ⟨⟨_, t.stopped, rfl⟩, h.held_push hroom e⟩

/-- Without a query the loop of `con_write` is over the queue that it has found. -/
lemma conLoop_unasked (hw : t.Wired) (hon : t.console.OnScreen) (hbytes : t.writeQ.held ttyBufSize = bytes)
    (hask : ¬Asked t.place bytes) :
    ∃ r, conLoop l write n bytes.length t = .ok r ∧ t.SameInput r ∧ r.Wired ∧ r.console.OnScreen := by
  induction bytes generalizing t with
  | nil => exact ⟨t, rfl, ⟨rfl, rfl, rfl, rfl⟩, hw, hon⟩
  | cons c cs ih =>
    have hne : t.writeQ.head ≠ t.writeQ.tail := by
      intro hempty
      rw [hw.writeQ.held_eq_nil hempty] at hbytes
      cases hbytes
    rw [hw.writeQ.held_pop hne] at hbytes
    obtain ⟨rfl, hrest⟩ := List.cons.inj hbytes
    obtain ⟨s, htake, _, hon', hnext⟩ := conTake_ok_of_onScreen (l := l) hon
    obtain ⟨hquery, hask'⟩ := not_or.mp hask
    have hplace : (t.getWrite s).place = Console.escNext t.place (t.writeQ.cell t.writeQ.tail) := hnext
    obtain ⟨r, hr, hsame, hwired, hscreen⟩ := ih ((kept_wired l).conTake t _ hw htake) hon' hrest (by rwa [hplace])
    have hno : ¬atQuery t := hquery
    refine ⟨r, ?_, ⟨hsame.readQ, hsame.secondary, hsame.data, hsame.stopped⟩, hwired, hscreen⟩
    rw [List.length_cons, conLoop, htake, Except.bind, if_neg hno]
    exact hr

lemma write_unasked (hn : 0 < n) (hw : t.Wired) (hon : t.console.OnScreen)
    (hask : d = .conWrite → ¬Asked t.place (t.writeQ.held ttyBufSize)) :
    ∃ r, d.write l n t = .ok r ∧ t.SameInput r ∧ r.Wired ∧ r.console.OnScreen := by
  cases d with
  | rsWrite => exact ⟨t, rfl, ⟨rfl, rfl, rfl, rfl⟩, hw, hon⟩
  | conWrite =>
    obtain ⟨n, rfl⟩ := Nat.exists_eq_succ_of_ne_zero hn.ne'
    have hloop : ∃ r, conLoop l (conWrite l n) n (t.writeQ.held ttyBufSize).length t = .ok r ∧ t.SameInput r ∧
        r.Wired ∧ r.console.OnScreen := conLoop_unasked hw hon rfl (hask rfl)
    rw [Ring.length_held] at hloop
    exact hloop

lemma finish_cooks (a : Pending) : Cooks a.finish := by
  cases a with
  | erase => exact Or.inl rfl
  | put c => exact Or.inr ⟨c, rfl⟩

lemma finish_secondary (a : Pending) (h : u.secondary = t.secondary) :
    (a.finish u).secondary = (a.finish t).secondary := by
  cases a with
  | erase =>
    change ({ u.secondary with head := (u.secondary.head + (ttyBufSize - 1)) % ttyBufSize } : Ring Byte) = _
    rw [h]
    rfl
  | put c =>
    change u.secondary.push ttyBufSize c = _
    rw [h]
    rfl

lemma finish_console (a : Pending) (t : TtyStruct) :
    (a.finish t).console = t.console ∧ (a.finish t).readQ = t.readQ := by
  obtain ⟨q, hq⟩ := cooks_eq (finish_cooks a) t
  rw [hq]
  exact ⟨rfl, rfl⟩

/-- What a turn does if its echo is not answered. -/
theorem copyByte_unasked (hcanon : l.termios.icanon = true) (hn : 0 < n) (hw : t.Wired) (hon : t.console.OnScreen)
    (hgo : ¬t.Ended) (hask : ¬Answers l d t) :
    ∃ v, copyByte l (d.write l n) t.next t.getRead = .ok v ∧ v.Wired ∧ v.console.OnScreen ∧
      v.readQ = t.readQ.pop ttyBufSize ∧
      v.secondary.held ttyBufSize = editRaw l (mapped l) (t.secondary.held ttyBufSize) t.next := by
  obtain ⟨_, hroom⟩ := not_or.mp hgo
  have hread := (kept_wired l).getRead t hw
  obtain ⟨u, p, hbegin⟩ : ∃ u p, beginByte l t.next t.getRead = (u, p) := ⟨_, _, rfl⟩
  obtain ⟨⟨k, b, rfl⟩, hheld⟩ := beginByte_edit hcanon hread.secondary hroom hbegin
  have hu := (kept_wired l).stopped _ b ((kept_wired l).data t.getRead k hread)
  rw [copyByte_begin, hbegin]
  cases p with
  | none => exact ⟨_, rfl, hu, hon, rfl, hheld⟩
  | some a =>
    have hfinish : ∀ s : TtyStruct, s.readQ = t.readQ.pop ttyBufSize → s.secondary = t.secondary → s.Wired →
        s.console.OnScreen → ∃ v, (Except.ok s : Except Fault TtyStruct).map a.finish = .ok v ∧ v.Wired ∧
          v.console.OnScreen ∧ v.readQ = t.readQ.pop ttyBufSize ∧
          v.secondary.held ttyBufSize = editRaw l (mapped l) (t.secondary.held ttyBufSize) t.next := by
      intro s hpop hsecondary hs hscreen
      obtain ⟨hconsole, hqueue⟩ := finish_console a s
      refine ⟨a.finish s, rfl, (kept_wired l).cook a.finish s (finish_cooks a) hs, ?_, ?_, ?_⟩
      · rwa [hconsole]
      · rw [hqueue, hpop]
      · rw [finish_secondary (t := t.getRead) a hsecondary]
        exact hheld
    dsimp only
    by_cases hecho : l.termios.echo = true
    · rw [if_pos hecho, echoWrite]
      have hput := (kept_wired l).putWrites (a.echo l t.getRead) hu
      have hsome : (a.echo l t.getRead).foldl TtyStruct.putWrite { t.getRead with data := k, stopped := b } ∈
          echoing l t := by
        rw [echoing, hbegin]
        simp [hecho]
      have hkeep := putWrites_eq (a.echo l t.getRead) { t.getRead with data := k, stopped := b }
      have hscreen : ((a.echo l t.getRead).foldl TtyStruct.putWrite
          { t.getRead with data := k, stopped := b }).console.OnScreen := by
        rw [hkeep]
        exact hon
      obtain ⟨s, hs, hsame, hwired, hscreen'⟩ := write_unasked (l := l) (d := d) hn hput hscreen
        fun hd hasked => hask ⟨hd, _, hsome, hasked⟩
      rw [hs]
      rw [hkeep] at hsame
      exact hfinish s hsame.readQ hsame.secondary hwired hscreen'
    · rw [if_neg hecho]
      exact hfinish _ rfl rfl hu hon

/-- The echo of no turn is answered. -/
def Unanswered (l : Line) (d : Driver) (n : ℕ) (t : TtyStruct) : Prop :=
  ∀ u, Turns l (d.write l n) t u → ¬u.Ended → ¬Answers l d u

/-- What a terminal at the head of the loop has. -/
lemma Turns.kept (h : Turns l (d.write l n) t u) (hcanon : l.termios.icanon = true) (hn : 0 < n) (hw : t.Wired)
    (hon : t.console.OnScreen) (hquiet : Unanswered l d n t) : u.Wired ∧ u.console.OnScreen := by
  induction h with
  | start => exact ⟨hw, hon⟩
  | turn hturns hgo hcopy ih =>
    obtain ⟨hwu, honu⟩ := ih
    obtain ⟨v, hv, hwired, hscreen, _⟩ := copyByte_unasked hcanon hn hwu honu hgo (hquiet _ hturns hgo)
    rw [hcopy] at hv
    obtain rfl := Except.ok.inj hv
    exact ⟨hwired, hscreen⟩

/-- The next turn takes one character, and edits by it. -/
lemma Turns.step (h : Turns l (d.write l n) t u) (hcanon : l.termios.icanon = true) (hn : 0 < n) (hw : t.Wired)
    (hon : t.console.OnScreen) (hquiet : Unanswered l d n t) (hgo : ¬u.Ended) :
    ∃ v, copyByte l (d.write l n) u.next u.getRead = .ok v ∧
      u.readQ.held ttyBufSize = u.next :: v.readQ.held ttyBufSize ∧
      v.secondary.held ttyBufSize = editRaw l (mapped l) (u.secondary.held ttyBufSize) u.next := by
  obtain ⟨hwu, honu⟩ := h.kept hcanon hn hw hon hquiet
  obtain ⟨v, hv, _, _, hpop, hheld⟩ := copyByte_unasked hcanon hn hwu honu hgo (hquiet _ h hgo)
  refine ⟨v, hv, ?_, hheld⟩
  rw [hpop]
  exact hwu.readQ.held_pop (not_or.mp hgo).1

lemma Turns.ends (h : Turns l (d.write l n) t u) (hcanon : l.termios.icanon = true) (hn : 0 < n) (hw : t.Wired)
    (hon : t.console.OnScreen) (hquiet : Unanswered l d n t) (hm : u.readQ.size ttyBufSize < m) :
    ∃ r, copyToCooked l (d.write l n) m u = .ok r ∧ Turns l (d.write l n) t r ∧ r.Ended := by
  induction m generalizing u with
  | zero => exact absurd hm (Nat.not_lt_zero _)
  | succ m ih =>
    rw [copyToCooked]
    by_cases hend : u.Ended
    · exact ⟨u, if_pos hend, h, hend⟩
    · obtain ⟨v, hv, hheld, _⟩ := h.step hcanon hn hw hon hquiet hend
      have hlength := congrArg List.length hheld
      rw [List.length_cons, Ring.length_held, Ring.length_held] at hlength
      obtain ⟨r, hr, hturns, hended⟩ := ih (h.turn hend hv) (by omega)
      have hgo : ¬(u.readQ.head = u.readQ.tail ∨ u.secondary.size ttyBufSize = ttyBufSize - 1) := hend
      have hcopy : copyByte l (d.write l n) (u.readQ.cell u.readQ.tail) u.getRead = .ok v := hv
      refine ⟨r, ?_, hturns, hended⟩
      rw [if_neg hgo, hcopy]
      exact hr

/-- In canonical mode, and where no echo is answered, a call comes back when the read queue is empty or the secondary
queue is full; and at each turn the secondary queue is the edited one, with the characters that are gone from the read
queue, if and only if no character that it comes to is in the wrong case. -/
theorem edits_iff (hcanon : l.termios.icanon = true) (hw : t.Wired) (hon : t.console.OnScreen) (hn : 0 < n)
    (hm : t.readQ.size ttyBufSize < m) (hquiet : Unanswered l d n t) :
    ∃ r, copyToCooked l (d.write l n) m t = .ok r ∧ Turns l (d.write l n) t r ∧ r.Ended ∧
      ((∀ u, Turns l (d.write l n) t u → Edited l t u) ↔
        ∀ u, Turns l (d.write l n) t u → ¬u.Ended → ¬Miscased l u.next) := by
  obtain ⟨r, hr, hturns, hended⟩ := Turns.ends .start hcanon hn hw hon hquiet hm
  refine ⟨r, hr, hturns, hended, ?_⟩
  constructor
  · intro hall u hu hgo hcase
    obtain ⟨v, hv, hheld, hstep⟩ := hu.step hcanon hn hw hon hquiet hgo
    obtain ⟨w, hconsumed, hedit⟩ := hall u hu
    obtain ⟨w', hconsumed', hedit'⟩ := hall v (hu.turn hgo hv)
    have hsame : w' = w ++ [u.next] := by
      rw [hheld, hconsumed', List.append_cons] at hconsumed
      exact List.append_cancel_right hconsumed
    rw [hsame, List.foldl_append, List.foldl_cons, List.foldl_nil, ← hedit, hstep] at hedit'
    exact editRaw_miscased hcase hedit'
  · intro hcased u hu
    induction hu with
    | start => exact ⟨[], rfl, rfl⟩
    | @turn u v hu hgo hcopy ih =>
      obtain ⟨w, hconsumed, hedit⟩ := ih
      obtain ⟨v', hv, hheld, hstep⟩ := hu.step hcanon hn hw hon hquiet hgo
      rw [hcopy] at hv
      obtain rfl := Except.ok.inj hv
      refine ⟨w ++ [u.next], ?_, ?_⟩
      · rw [hconsumed, hheld, List.append_assoc, List.singleton_append]
      · rw [hstep, hedit, List.foldl_append, editRaw, mapped_of_cased (hcased _ hu hgo)]
        rfl

end Turning

/-- The characters for editing are different ones, of 7 bits, and none is a newline. -/
structure Termios.Edits (s : Termios) : Prop where
  icanon : s.icanon = true
  distinct : [s.verase, s.vstop, s.vstart, s.vintr, s.veof].Nodup
  range : ∀ c ∈ [s.verase, s.vstop, s.vstart, s.vintr, s.veof], c.toNat < 128 ∧ c ≠ 10

/-- A terminal with `bytes` in its read queue and `output` in its write queue. -/
def typedTty (bytes output : List Byte) : TtyStruct :=
  { consoleTty output with readQ := bytes.foldl (Ring.push ttyBufSize) ⟨fun _ => 0, 0, 0⟩ }

lemma typedTty_ready (bytes output : List Byte) :
    (typedTty bytes output).Wired ∧ (typedTty bytes output).console.OnScreen := by
  have hready := consoleTty_ready output
  exact ⟨⟨emptyRing_inside.pushes bytes, hready.wired.writeQ, hready.wired.secondary⟩, hready.onScreen⟩

def upperLine : Line := { quietLine with termios := { quietLine.termios with iuclc := true } }

/-- `A` with `IUCLC`, which becomes 227 and not `a`; and `Z` behind an `ESC`, with the answer in front of it. -/
theorem lines_misedited :
    (¬∀ l m n t r, l.termios.Edits → t.Wired → t.console.OnScreen →
      copyToCooked l (Driver.rsWrite.write l n) m t = .ok r → Edited l t r) ∧
    ¬∀ l m n t r, l.termios.Edits → t.Wired → t.console.OnScreen →
      copyToCooked l (Driver.conWrite.write l n) m t = .ok r → Edited l t r := by
  constructor
  · intro hall
    obtain ⟨hw, hon⟩ := typedTty_ready [65] []
    obtain ⟨r, hr, hread, hheld⟩ : ∃ r, copyToCooked upperLine (Driver.rsWrite.write upperLine 1) 2 (typedTty [65] []) =
        .ok r ∧ r.readQ.held ttyBufSize = [] ∧ r.secondary.held ttyBufSize = [227] := ⟨_, rfl, rfl, rfl⟩
    obtain ⟨w, hconsumed, hedit⟩ := hall upperLine 2 1 _ r ⟨rfl, by decide, by decide⟩ hw hon hr
    have htyped : (typedTty [65] []).readQ.held ttyBufSize = [65] := rfl
    rw [hread, htyped, List.append_nil] at hconsumed
    rw [hheld, ← hconsumed] at hedit
    exact absurd hedit (by decide)
  · intro hall
    obtain ⟨hw, hon⟩ := typedTty_ready [90] [27]
    obtain ⟨r, hr, hread, hheld⟩ : ∃ r, copyToCooked consoleLine (Driver.conWrite.write consoleLine 12) 12
        (typedTty [90] [27]) = .ok r ∧ r.readQ.held ttyBufSize = [] ∧
          r.secondary.held ttyBufSize = [27, 91, 63, 49, 59, 50, 99, 90] := ⟨_, rfl, rfl, rfl⟩
    obtain ⟨w, hconsumed, hedit⟩ := hall consoleLine 12 12 _ r ⟨rfl, by decide, by decide⟩ hw hon hr
    have htyped : (typedTty [90] [27]).readQ.held ttyBufSize = [90] := rfl
    rw [hread, htyped, List.append_nil] at hconsumed
    rw [hheld, ← hconsumed] at hedit
    exact absurd hedit (by decide)

/-- On a serial line no echo is answered: `A` and an erase character. -/
theorem edits_serial : ∃ r, copyToCooked upperLine (Driver.rsWrite.write upperLine 1) 3 (typedTty [65, 127] []) = .ok r ∧
    Turns upperLine (Driver.rsWrite.write upperLine 1) (typedTty [65, 127] []) r ∧ r.Ended ∧
      ((∀ u, Turns upperLine (Driver.rsWrite.write upperLine 1) (typedTty [65, 127] []) u →
          Edited upperLine (typedTty [65, 127] []) u) ↔
        ∀ u, Turns upperLine (Driver.rsWrite.write upperLine 1) (typedTty [65, 127] []) u → ¬u.Ended →
          ¬Miscased upperLine u.next) :=
  edits_iff rfl (typedTty_ready _ _).1 (typedTty_ready _ _).2 (by decide) (by decide)
    fun _ _ _ hask => absurd hask.1 (by decide)

end Devos.Tty
