import Devos.Tty.Queues
import Mathlib.Data.List.Count

/-! What `con_write` takes from its queue: every character once and in order, as long as no query with
characters behind it is answered aloud. -/

namespace Devos.Tty

open Loops

structure TtyStruct.Wired (t : TtyStruct) : Prop where
  readQ : t.readQ.Inside ttyBufSize
  writeQ : t.writeQ.Inside ttyBufSize
  secondary : t.secondary.Inside ttyBufSize

def TtyStruct.Drained (t : TtyStruct) : Prop := t.writeQ.head = t.writeQ.tail

/-- `copy_to_cooked` drops the character, or takes it for a command, without an echo. -/
def silent (l : Line) (t : TtyStruct) (c : Byte) : Prop :=
  match mapped l c with
  | none => True
  | some c =>
    if l.termios.icanon ∧ isChar c l.termios.verase then lineStart l t
    else l.termios.icanon ∧ isChar c l.termios.vstop ∨ l.termios.icanon ∧ isChar c l.termios.vstart ∨
      ¬l.termios.isig ∧ isChar c l.termios.vintr

section Bytes

variable {l : Line} {t r : TtyStruct} {c : Byte} {write : TtyStruct → Except Fault TtyStruct} {n nr : ℕ}

/-- What is done to the secondary queue for a character that is not dropped. -/
def Cooks (g : TtyStruct → TtyStruct) : Prop := g = TtyStruct.unputSecondary ∨ ∃ c, g = (TtyStruct.putSecondary · c)

/-- The echo of a character of the read queue. -/
def EchoOf (l : Line) (c : Byte) (cs : List Byte) : Prop :=
  (∃ d, cs = erasedEcho d) ∨ ∃ d, mapped l c = some d ∧ cs = echoed l d

lemma copyByte_cases (l : Line) (c : Byte) (t : TtyStruct) :
    (silent l t c ∧ ∃ b, ∀ write, copyByte l write c t = .ok { t with stopped := b }) ∨
      (¬silent l t c ∧ ∃ cs k g, EchoOf l c cs ∧ Cooks g ∧ ∀ write, copyByte l write c t =
        (if l.termios.echo then echoWrite write cs { t with data := k } else .ok { t with data := k }).map g) := by
  unfold copyByte silent
  cases hd : mapped l c with
  | none => exact Or.inl ⟨trivial, t.stopped, fun _ => rfl⟩
  | some d =>
    dsimp only
    by_cases herase : l.termios.icanon ∧ isChar d l.termios.verase
    · simp only [if_pos herase]
      by_cases hstart : lineStart l t
      · simp only [if_pos hstart]
        exact Or.inl ⟨hstart, t.stopped, fun _ => rfl⟩
      · simp only [if_neg hstart]
        exact Or.inr ⟨hstart, _, t.data, _, Or.inl ⟨_, rfl⟩, Or.inl rfl, fun _ => rfl⟩
    · simp only [if_neg herase]
      by_cases hstop : l.termios.icanon ∧ isChar d l.termios.vstop
      · simp only [if_pos hstop]
        exact Or.inl ⟨Or.inl hstop, true, fun _ => rfl⟩
      simp only [if_neg hstop]
      by_cases hgo : l.termios.icanon ∧ isChar d l.termios.vstart
      · simp only [if_pos hgo]
        exact Or.inl ⟨Or.inr (Or.inl hgo), false, fun _ => rfl⟩
      simp only [if_neg hgo]
      by_cases hintr : ¬l.termios.isig ∧ isChar d l.termios.vintr
      · simp only [if_pos hintr]
        exact Or.inl ⟨Or.inr (Or.inr hintr), t.stopped, fun _ => rfl⟩
      simp only [if_neg hintr]
      have hheard : ¬(l.termios.icanon ∧ isChar d l.termios.vstop ∨ l.termios.icanon ∧ isChar d l.termios.vstart ∨
          ¬l.termios.isig ∧ isChar d l.termios.vintr) := by
        rintro (h | h | h)
        · exact hstop h
        · exact hgo h
        · exact hintr h
      refine Or.inr ⟨hheard, echoed l d, if d = 10 ∨ isChar d l.termios.veof then (t.data + 1) % 2 ^ 32 else t.data,
        (TtyStruct.putSecondary · d), Or.inr ⟨d, hd, rfl⟩, Or.inr ⟨d, rfl⟩, fun _ => ?_⟩
      by_cases hline : d = 10 ∨ isChar d l.termios.veof
      · simp only [if_pos hline]
      · simp only [if_neg hline]

/-- What each access to the queues keeps, and with them the whole of a run. -/
structure Kept (l : Line) (I : TtyStruct → Prop) : Prop where
  getRead : ∀ t, I t → I t.getRead
  putRead : ∀ t c, I t → I (t.putRead c)
  putWrite : ∀ t c, I t → I (t.putWrite c)
  cook : ∀ g t, Cooks g → I t → I (g t)
  stopped : ∀ t b, I t → I { t with stopped := b }
  data : ∀ t k, I t → I { t with data := k }
  conTake : ∀ t r, I t → conTake l t = .ok r → I r

variable {I : TtyStruct → Prop}

lemma Kept.putWrites (hI : Kept l I) (cs : List Byte) (h : I t) : I (cs.foldl TtyStruct.putWrite t) := by
  induction cs generalizing t with
  | nil => exact h
  | cons c cs ih => exact ih (hI.putWrite t c h)

lemma Kept.putReads (hI : Kept l I) (cs : List Byte) (h : I t) : I (cs.foldl TtyStruct.putRead t) := by
  induction cs generalizing t with
  | nil => exact h
  | cons c cs ih => exact ih (hI.putRead t c h)

lemma Kept.copyByte (hI : Kept l I) (hwrite : ∀ t r, I t → write t = .ok r → I r) (h : I t)
    (hr : copyByte l write c t = .ok r) : I r := by
  rcases copyByte_cases l c t with ⟨_, b, hb⟩ | ⟨_, cs, k, g, _, hg, hb⟩
  · obtain rfl := Except.ok.inj ((hb write).symm.trans hr)
    exact hI.stopped t b h
  · obtain ⟨u, hu, rfl⟩ := map_eq_ok ((hb write).symm.trans hr)
    apply hI.cook g u hg
    split_ifs at hu
    · exact hwrite _ u (hI.putWrites cs (hI.data t k h)) hu
    · obtain rfl := Except.ok.inj hu
      exact hI.data t k h

lemma Kept.copyToCooked (hI : Kept l I) (hwrite : ∀ t r, I t → write t = .ok r → I r) (h : I t)
    (hr : copyToCooked l write n t = .ok r) : I r := by
  induction n generalizing t with
  | zero => cases hr
  | succ n ih =>
    rw [Tty.copyToCooked] at hr
    split_ifs at hr
    · obtain rfl := Except.ok.inj hr
      exact h
    · obtain ⟨u, hu, hr⟩ := bind_eq_ok hr
      exact ih (hI.copyByte hwrite (hI.getRead t h) hu) hr

lemma Kept.conLoop (hI : Kept l I) (hwrite : ∀ t r, I t → write t = .ok r → I r) (h : I t)
    (hr : conLoop l write n nr t = .ok r) : I r := by
  induction nr generalizing t with
  | zero =>
    obtain rfl := Except.ok.inj hr
    exact h
  | succ nr ih =>
    obtain ⟨u, hu, hr⟩ := bind_eq_ok hr
    obtain ⟨v, hv, hu⟩ := bind_eq_ok hu
    have hI' := hI.conTake t v h hv
    apply ih _ hr
    split_ifs at hu
    · exact hI.copyToCooked hwrite (hI.putReads response hI') hu
    · obtain rfl := Except.ok.inj hu
      exact hI'

theorem Kept.conWrite (hI : Kept l I) (n : ℕ) {t r : TtyStruct} (h : I t) (hr : conWrite l n t = .ok r) : I r := by
  induction n generalizing t r with
  | zero => cases hr
  | succ n ih => exact hI.conLoop (fun _ _ => ih) h hr

lemma conTake_ok (hr : conTake l t = .ok r) :
    ∃ s, t.console.conByte l.settings (t.writeQ.cell t.writeQ.tail) = .ok s ∧
      r = t.getWrite s := by
  obtain ⟨s, hs, rfl⟩ := map_eq_ok hr
  exact ⟨s, hs, rfl⟩

lemma kept_starved (l : Line) : Kept l (TtyStruct.starved · = true) where
  getRead _ h := h
  putRead _ _ h := h
  putWrite _ _ h := h
  cook g t hg h := by
    rcases hg with hg | ⟨c, hg⟩
    · subst hg
      unfold TtyStruct.unputSecondary
      exact h
    · subst hg
      exact h
  stopped _ _ h := h
  data _ _ h := h
  conTake t r h hr := by
    obtain ⟨s, _, rfl⟩ := conTake_ok hr
    simp [TtyStruct.getWrite, h]

lemma kept_wired (l : Line) : Kept l TtyStruct.Wired where
  getRead _ h := ⟨h.readQ.pop, h.writeQ, h.secondary⟩
  putRead _ c h := ⟨h.readQ.push c, h.writeQ, h.secondary⟩
  putWrite _ c h := ⟨h.readQ, h.writeQ.push c, h.secondary⟩
  cook g t hg h := by
    rcases hg with hg | ⟨c, hg⟩
    · subst hg
      unfold TtyStruct.unputSecondary
      exact ⟨h.readQ, h.writeQ, ⟨Nat.mod_lt _ (Nat.succ_pos _), h.secondary.tail_lt⟩⟩
    · subst hg
      exact ⟨h.readQ, h.writeQ, h.secondary.push c⟩
  stopped _ _ h := ⟨h.readQ, h.writeQ, h.secondary⟩
  data _ _ h := ⟨h.readQ, h.writeQ, h.secondary⟩
  conTake t r h hr := by
    obtain ⟨s, _, rfl⟩ := conTake_ok hr
    exact ⟨h.readQ, h.writeQ.pop, h.secondary⟩

end Bytes

section Draining

variable {l : Line} {t r : TtyStruct} {c : Byte} {write : TtyStruct → Except Fault TtyStruct} {n nr : ℕ}

/-- Writes that leave nothing in the write queue, unless something was taken from it when it was empty. -/
structure Drains (write : TtyStruct → Except Fault TtyStruct) : Prop where
  wired : ∀ t r, t.Wired → write t = .ok r → r.Wired
  starved : ∀ t r, t.starved = true → write t = .ok r → r.starved = true
  drained : ∀ t r, t.Wired → write t = .ok r → r.starved = true ∨ r.Drained

lemma cooks_writeQ {g : TtyStruct → TtyStruct} (hg : Cooks g) (t : TtyStruct) :
    (g t).writeQ = t.writeQ ∧ (g t).starved = t.starved := by
  rcases hg with hg | ⟨c, hg⟩
  · subst hg
    unfold TtyStruct.unputSecondary
    exact ⟨rfl, rfl⟩
  · subst hg
    exact ⟨rfl, rfl⟩

lemma copyByte_heard (hw : Drains write) (ht : t.Wired) (hecho : l.termios.echo = true) (hc : ¬silent l t c)
    (hr : copyByte l write c t = .ok r) : r.starved = true ∨ r.Drained := by
  rcases copyByte_cases l c t with ⟨hs, _⟩ | ⟨_, cs, k, g, _, hg, hb⟩
  · exact absurd hs hc
  · obtain ⟨u, hu, rfl⟩ := map_eq_ok ((hb write).symm.trans hr)
    rw [if_pos hecho] at hu
    have ht' := (kept_wired l).putWrites cs ((kept_wired l).data t k ht)
    obtain ⟨hq, hs⟩ := cooks_writeQ hg u
    rw [TtyStruct.Drained, hq, hs]
    exact hw.drained _ u ht' hu

lemma copyByte_writeQ (hw : Drains write) (ht : t.Wired) (hr : copyByte l write c t = .ok r) :
    r.starved = true ∨ r.writeQ = t.writeQ ∨ r.Drained := by
  rcases copyByte_cases l c t with ⟨_, b, hb⟩ | ⟨hc, cs, k, g, _, hg, hb⟩
  · obtain rfl := Except.ok.inj ((hb write).symm.trans hr)
    exact Or.inr (Or.inl rfl)
  · by_cases hecho : l.termios.echo = true
    · rcases copyByte_heard hw ht hecho hc hr with hs | hd
      · exact Or.inl hs
      · exact Or.inr (Or.inr hd)
    · obtain ⟨u, hu, rfl⟩ := map_eq_ok ((hb write).symm.trans hr)
      rw [if_neg hecho] at hu
      obtain rfl := Except.ok.inj hu
      exact Or.inr (Or.inl (cooks_writeQ hg _).1)

lemma copyToCooked_writeQ (hw : Drains write) (ht : t.Wired) (hr : copyToCooked l write n t = .ok r) :
    r.starved = true ∨ r.writeQ = t.writeQ ∨ r.Drained := by
  induction n generalizing t with
  | zero => cases hr
  | succ n ih =>
    rw [copyToCooked] at hr
    split_ifs at hr
    · obtain rfl := Except.ok.inj hr
      exact Or.inr (Or.inl rfl)
    · obtain ⟨u, hu, hr⟩ := bind_eq_ok hr
      have ht' := (kept_wired l).getRead t ht
      have hu' := (kept_wired l).copyByte hw.wired ht' hu
      rcases copyByte_writeQ hw ht' hu with hs | hq | hd
      · exact Or.inl ((kept_starved l).copyToCooked hw.starved hs hr)
      · rcases ih hu' hr with hs | hq' | hd
        · exact Or.inl hs
        · exact Or.inr (Or.inl (hq'.trans hq))
        · exact Or.inr (Or.inr hd)
      · rcases ih hu' hr with hs | hq' | hd'
        · exact Or.inl hs
        · exact Or.inr (Or.inr (by rw [TtyStruct.Drained, hq']; exact hd))
        · exact Or.inr (Or.inr hd')

lemma conTake_starves (ht : t.Drained) (hr : conTake l t = .ok r) : r.starved = true := by
  obtain ⟨s, _, rfl⟩ := conTake_ok hr
  have heq : t.writeQ.head = t.writeQ.tail := ht
  simp [TtyStruct.getWrite, heq]

lemma conLoop_starves (hw : Drains write) (ht : t.starved = true ∨ t.Drained)
    (hr : conLoop l write n (nr + 1) t = .ok r) : r.starved = true := by
  obtain ⟨u, hu, hr⟩ := bind_eq_ok hr
  obtain ⟨v, hv, hu⟩ := bind_eq_ok hu
  have hs : v.starved = true := by
    rcases ht with hs | hd
    · exact (kept_starved l).conTake t v hs hv
    · exact conTake_starves hd hv
  apply (kept_starved l).conLoop hw.starved _ hr
  split_ifs at hu
  · exact (kept_starved l).copyToCooked hw.starved ((kept_starved l).putReads response hs) hu
  · obtain rfl := Except.ok.inj hu
    exact hs

lemma putReads_writeQ (cs : List Byte) (t : TtyStruct) : (cs.foldl TtyStruct.putRead t).writeQ = t.writeQ := by
  induction cs generalizing t with
  | nil => rfl
  | cons c cs ih => rw [List.foldl_cons, ih]; rfl

lemma conLoop_drains (hw : Drains write) (ht : t.Wired) (hnr : t.writeQ.size ttyBufSize = nr)
    (hr : conLoop l write n nr t = .ok r) : r.starved = true ∨ r.Drained := by
  induction nr generalizing t with
  | zero =>
    obtain rfl := Except.ok.inj hr
    exact Or.inr (ht.writeQ.size_eq_zero.mp hnr)
  | succ nr ih =>
    have hne : t.writeQ.head ≠ t.writeQ.tail := by
      intro heq
      rw [ht.writeQ.size_eq_zero.mpr heq] at hnr
      omega
    have hpop := ht.writeQ.size_pop hne
    obtain ⟨u, hu, hr⟩ := bind_eq_ok hr
    obtain ⟨v, hv, hu⟩ := bind_eq_ok hu
    have hv' := (kept_wired l).conTake t v ht hv
    obtain ⟨s, _, rfl⟩ := conTake_ok hv
    split_ifs at hu
    · have hu' := (kept_wired l).copyToCooked hw.wired ((kept_wired l).putReads response hv') hu
      rcases copyToCooked_writeQ hw ((kept_wired l).putReads response hv') hu with hs | hq | hd
      · exact Or.inl ((kept_starved l).conLoop hw.starved hs hr)
      · apply ih hu' _ hr
        rw [hq, putReads_writeQ, TtyStruct.getWrite]
        dsimp only
        omega
      · cases nr with
        | zero =>
          obtain rfl := Except.ok.inj hr
          exact Or.inr hd
        | succ nr => exact Or.inl (conLoop_starves hw (Or.inr hd) hr)
    · obtain rfl := Except.ok.inj hu
      apply ih hv' _ hr
      rw [TtyStruct.getWrite]
      dsimp only
      omega

theorem conWrite_drains (l : Line) (n : ℕ) : Drains (conWrite l n) := by
  induction n with
  | zero =>
    constructor
    · exact fun t r _ h => by cases h
    · exact fun t r _ h => by cases h
    · exact fun t r _ h => by cases h
  | succ n ih =>
    refine ⟨fun t r => (kept_wired l).conWrite (n + 1), fun t r => (kept_starved l).conWrite (n + 1), ?_⟩
    exact fun t r ht hr => conLoop_drains ih ht rfl hr

end Draining

section Queries

variable {l : Line} {t r : TtyStruct} {c : Byte} {write : TtyStruct → Except Fault TtyStruct} {n nr : ℕ}

/-- A read queue with the answer to a query behind what it held. -/
def answered (q : Ring Byte) : Ring Byte := response.foldl (Ring.push ttyBufSize) q

def emptied (q : Ring Byte) : Ring Byte := { q with tail := q.head }

lemma emptied_eq {q : Ring Byte} (h : q.head = q.tail) : emptied q = q := by
  obtain ⟨cell, head, tail⟩ := q
  obtain rfl : head = tail := h
  rfl

lemma putReads_eq (cs : List Byte) (t : TtyStruct) :
    cs.foldl TtyStruct.putRead t = { t with readQ := cs.foldl (Ring.push ttyBufSize) t.readQ } := by
  induction cs generalizing t with
  | nil => rfl
  | cons c cs ih => rw [List.foldl_cons, ih]; rfl

def TtyStruct.answer (t : TtyStruct) : TtyStruct := { t with readQ := answered t.readQ }

lemma TtyStruct.Wired.answer (h : t.Wired) : t.answer.Wired := ⟨h.readQ.pushes response, h.writeQ, h.secondary⟩

lemma respond_eq (t : TtyStruct) : respond l write n t = copyToCooked l write n t.answer := by
  unfold respond
  rw [putReads_eq]
  rfl

/-- No query with characters behind it is answered aloud: `p` is the place in a sequence, `q` the read queue
and the list what is still to be taken. -/
def Quiet (S : Byte → Prop) : EscState × ℕ → Ring Byte → List Byte → Prop
  | _, _, [] => True
  | p, q, c :: cs =>
    if p.1 = .s1 ∧ c = 90 then
      cs = [] ∨ (∀ d ∈ (answered q).held ttyBufSize, S d) ∧
        Quiet S (Console.escNext p c) (emptied (answered q)) cs
    else Quiet S (Console.escNext p c) q cs

lemma quiet_query {S : Byte → Prop} {p : EscState × ℕ} {q : Ring Byte} {cs : List Byte} (h : p.1 = .s1 ∧ c = 90) :
    Quiet S p q (c :: cs) ↔ cs = [] ∨ (∀ d ∈ (answered q).held ttyBufSize, S d) ∧
      Quiet S (Console.escNext p c) (emptied (answered q)) cs := by
  rw [Quiet, if_pos h]

lemma quiet_other {S : Byte → Prop} {p : EscState × ℕ} {q : Ring Byte} {cs : List Byte} (h : ¬(p.1 = .s1 ∧ c = 90)) :
    Quiet S p q (c :: cs) ↔ Quiet S (Console.escNext p c) q cs := by
  rw [Quiet, if_neg h]

lemma silent_eq {t' : TtyStruct} (h : t'.secondary = t.secondary) : silent l t' = silent l t := by
  funext c
  unfold silent lineStart TtyStruct.lastSecondary
  rw [h]

lemma silent_congr {t' : TtyStruct} (h : t'.secondary = t.secondary) : silent l t' c ↔ silent l t c := by
  rw [silent_eq h]

/-- The read queue copied without an echo. -/
def TtyStruct.hush (t : TtyStruct) (b : Bool) : TtyStruct := { t with readQ := emptied t.readQ, stopped := b }

lemma TtyStruct.Wired.hush (h : t.Wired) (b : Bool) : (t.hush b).Wired :=
  ⟨⟨h.readQ.head_lt, h.readQ.head_lt⟩, h.writeQ, h.secondary⟩

variable (write) in
lemma copyToCooked_silent (ht : t.Wired)
    (hs : ∀ c ∈ t.readQ.held ttyBufSize, silent l t c ∧ t.secondary.size ttyBufSize ≠ ttyBufSize - 1) (n : ℕ) :
    ∃ b, copyToCooked l write n t = if t.readQ.size ttyBufSize < n then .ok (t.hush b) else .error .hang := by
  induction n generalizing t with
  | zero => exact ⟨true, by rw [if_neg (Nat.not_lt_zero _)]; rfl⟩
  | succ n ih =>
    by_cases hempty : t.readQ.head = t.readQ.tail
    · refine ⟨t.stopped, ?_⟩
      rw [copyToCooked, if_pos (Or.inl hempty), ht.readQ.size_eq_zero.mpr hempty, if_pos (Nat.succ_pos n),
        TtyStruct.hush, emptied_eq hempty]
    · have hheld := ht.readQ.held_pop hempty
      rw [hheld] at hs
      have hsize := ht.readQ.size_pop hempty
      obtain ⟨hfirst, hroom⟩ := hs _ (List.mem_cons_self ..)
      rcases copyByte_cases l (t.readQ.cell t.readQ.tail) t.getRead with ⟨_, b, hb⟩ | ⟨hc, _⟩
      · obtain ⟨b', hb'⟩ := ih (t := { t.getRead with stopped := b })
          ((kept_wired l).stopped _ b ((kept_wired l).getRead t ht))
          (fun c hc => ⟨(silent_congr rfl).mpr (hs c (List.mem_cons_of_mem _ hc)).1, hroom⟩)
        refine ⟨b', ?_⟩
        have hcount : t.readQ.size ttyBufSize < n + 1 ↔ (t.readQ.pop ttyBufSize).size ttyBufSize < n := by omega
        rw [copyToCooked, if_neg (not_or.mpr ⟨hempty, hroom⟩), hb write, Except.bind, hb']
        simp only [hcount]
        rfl
      · exact absurd ((silent_congr rfl).mpr hfirst) hc

end Queries

section Starving

variable {l : Line} {t r : TtyStruct} {n : ℕ}

lemma copyToCooked_heard {write : TtyStruct → Except Fault TtyStruct} (hw : Drains write) (ht : t.Wired)
    (hroom : t.secondary.size ttyBufSize ≠ ttyBufSize - 1) (hecho : l.termios.echo = true)
    (hs : ∃ c ∈ t.readQ.held ttyBufSize, ¬silent l t c) (hr : copyToCooked l write n t = .ok r) :
    r.starved = true ∨ r.Drained := by
  induction n generalizing t with
  | zero => cases hr
  | succ n ih =>
    obtain ⟨c, hc, hloud⟩ := hs
    have hne : t.readQ.head ≠ t.readQ.tail := by
      intro hempty
      rw [ht.readQ.held_eq_nil hempty] at hc
      cases hc
    rw [ht.readQ.held_pop hne] at hc
    rw [copyToCooked, if_neg (not_or.mpr ⟨hne, hroom⟩)] at hr
    obtain ⟨u, hu, hr⟩ := bind_eq_ok hr
    have ht' := (kept_wired l).getRead t ht
    have hu' := (kept_wired l).copyByte hw.wired ht' hu
    by_cases hfirst : silent l t (t.readQ.cell t.readQ.tail)
    · rcases copyByte_cases l (t.readQ.cell t.readQ.tail) t.getRead with ⟨_, b, hb⟩ | ⟨hloud', _⟩
      · obtain rfl := Except.ok.inj ((hb write).symm.trans hu)
        apply ih hu' hroom _ hr
        rcases List.mem_cons.mp hc with rfl | hc
        · exact absurd hfirst hloud
        · exact ⟨c, hc, fun h => hloud ((silent_congr rfl).mp h)⟩
      · exact absurd ((silent_congr rfl).mpr hfirst) hloud'
    · rcases copyByte_heard hw ht' hecho (fun h => hfirst ((silent_congr rfl).mp h)) hu with hs | hd
      · exact Or.inl ((kept_starved l).copyToCooked hw.starved hs hr)
      · rcases copyToCooked_writeQ hw hu' hr with hs | hq | hd'
        · exact Or.inl hs
        · exact Or.inr (by rw [TtyStruct.Drained, hq]; exact hd)
        · exact Or.inr hd'

/-- The place of the console in a sequence. -/
def TtyStruct.place (t : TtyStruct) : EscState × ℕ := (t.console.state, t.console.npar)

lemma conTake_ok_of_onScreen (h : t.console.OnScreen) :
    ∃ s, conTake l t = .ok (t.getWrite s) ∧
      t.console.conByte l.settings (t.writeQ.cell t.writeQ.tail) = .ok s ∧ s.OnScreen ∧
      (s.state, s.npar) = Console.escNext t.place (t.writeQ.cell t.writeQ.tail) := by
  obtain ⟨s, hs, hon, hnext⟩ := Console.conByte_follows (c := t.writeQ.cell t.writeQ.tail) (q := l.settings) h
  refine ⟨s, ?_, hs, hon, hnext⟩
  unfold conTake
  rw [hs]
  rfl

/-- Where a query with characters behind it is answered aloud, something is taken from the empty queue. -/
lemma conLoop_query {bytes : List Byte} (ht : t.Wired) (hon : t.console.OnScreen)
    (hroom : t.secondary.size ttyBufSize ≠ ttyBufSize - 1) (hecho : l.termios.echo = true)
    (hbytes : t.writeQ.held ttyBufSize = bytes) (hloud : ¬Quiet (silent l t) t.place t.readQ bytes)
    (hr : conLoop l (conWrite l n) n bytes.length t = .ok r) : r.starved = true := by
  have hw := conWrite_drains l n
  induction bytes generalizing t with
  | nil => exact absurd trivial hloud
  | cons c cs ih =>
    have hne : t.writeQ.head ≠ t.writeQ.tail := by
      intro hempty
      rw [ht.writeQ.held_eq_nil hempty] at hbytes
      cases hbytes
    rw [ht.writeQ.held_pop hne] at hbytes
    obtain ⟨rfl, hrest⟩ := List.cons.inj hbytes
    obtain ⟨s, htake, _, hon', hnext⟩ := conTake_ok_of_onScreen (l := l) hon
    have ht' := (kept_wired l).conTake t _ ht htake
    obtain ⟨u, hu, hr⟩ := bind_eq_ok hr
    rw [htake, Except.bind] at hu
    by_cases hquery : atQuery t
    · rw [if_pos hquery, respond_eq] at hu
      have hplace : t.place.1 = .s1 ∧ t.writeQ.cell t.writeQ.tail = 90 := hquery
      rw [quiet_query hplace, not_or, not_and_or] at hloud
      obtain ⟨hmore, hloud⟩ := hloud
      have hans := ht'.answer
      have hsame : silent l (t.getWrite s).answer = silent l t := silent_eq rfl
      by_cases hsilent : ∀ d ∈ (answered t.readQ).held ttyBufSize, silent l t d
      · obtain ⟨b, hb⟩ := copyToCooked_silent (conWrite l n) hans
          (by rw [hsame]; exact fun d hd => ⟨hsilent d hd, hroom⟩) n
        rw [hb] at hu
        split_ifs at hu
        obtain rfl := Except.ok.inj hu
        refine ih ?_ ?_ ?_ ?_ ?_ hr
        · exact hans.hush b
        · exact hon'
        · exact hroom
        · exact hrest
        · have hhush : silent l ((t.getWrite s).answer.hush b) = silent l t := silent_eq rfl
          rw [hhush]
          have hquiet := hloud.resolve_left (not_not.mpr hsilent)
          rw [← hnext] at hquiet
          exact hquiet
      · rw [← hsame] at hsilent
        have hloud' : ∃ d ∈ (t.getWrite s).answer.readQ.held ttyBufSize, ¬silent l (t.getWrite s).answer d := by
          by_contra hno
          apply hsilent
          intro d hd
          by_contra hd'
          exact hno ⟨d, hd, hd'⟩
        have hheard := copyToCooked_heard hw hans hroom hecho hloud' hu
        obtain ⟨d, ds, rfl⟩ := List.exists_cons_of_ne_nil hmore
        exact conLoop_starves hw hheard hr
    · rw [if_neg hquery] at hu
      have hplace : ¬(t.place.1 = .s1 ∧ t.writeQ.cell t.writeQ.tail = 90) := hquery
      rw [quiet_other hplace] at hloud
      obtain rfl := Except.ok.inj hu
      apply ih ht' hon' hroom hrest _ hr
      have hkept : silent l (t.getWrite s) = silent l t := silent_eq rfl
      rw [hkept]
      rw [← hnext] at hloud
      exact hloud

end Starving

section Potential

variable {l : Line} {t r : TtyStruct} {n : ℕ} {c : Byte} {cs : List Byte}

/-- Characters of the read queue whose echo may bring ESC to the console; those of the answer do not. -/
def strangers (q : Ring Byte) : ℕ := (q.held ttyBufSize).countP fun c => c ∉ response

/-- The number of `ESC` there can still be at the console, the pending one included. -/
def TtyStruct.escapes (t : TtyStruct) : ℕ :=
  strangers t.readQ + (t.writeQ.held ttyBufSize).count 27 + if t.console.state = .s1 then 1 else 0

/-- What bounds the depth to which answers and their echo call each other: a query takes an `ESC`, and what it puts
into the read queue brings no other. -/
def TtyStruct.potential (t : TtyStruct) : ℕ := ttyBufSize * t.escapes + t.readQ.size ttyBufSize

lemma strangers_push {q : Ring Byte} (h : q.Inside ttyBufSize) (hc : c ∈ response) :
    strangers (q.push ttyBufSize c) ≤ strangers q := by
  unfold strangers
  rcases h.held_push_cases c with heq | heq
  · rw [heq, List.countP_append]
    simp [hc]
  · rw [heq]
    exact Nat.zero_le _

lemma strangers_pushes {q : Ring Byte} (h : q.Inside ttyBufSize) (hcs : ∀ c ∈ cs, c ∈ response) :
    strangers (cs.foldl (Ring.push ttyBufSize) q) ≤ strangers q := by
  induction cs generalizing q with
  | nil => exact le_refl _
  | cons c cs ih =>
    have hc := hcs c (List.mem_cons_self ..)
    exact (ih (h.push c) fun d hd => hcs d (List.mem_cons_of_mem _ hd)).trans (strangers_push h hc)

lemma escapes_answer (h : t.Wired) : t.answer.escapes ≤ t.escapes :=
  Nat.add_le_add_right (Nat.add_le_add_right (strangers_pushes h.readQ fun _ hc => hc) _) _

lemma potential_answer (h : t.Wired) : t.answer.potential < t.potential + ttyBufSize := by
  have hescapes := escapes_answer h
  have hsize : t.answer.readQ.size ttyBufSize < ttyBufSize := Ring.size_lt (Nat.succ_pos _) _
  unfold TtyStruct.potential
  dsimp only [ttyBufSize] at hsize ⊢
  omega

lemma potential_hush (h : t.Wired) (v : Bool) : (t.hush v).potential ≤ t.potential := by
  have hwired := (h.hush v).readQ
  have hsize : (t.hush v).readQ.size ttyBufSize = 0 := hwired.size_eq_zero.mpr rfl
  have hnone : strangers (t.hush v).readQ = 0 := by
    unfold strangers
    rw [hwired.held_eq_nil rfl]
    rfl
  have hescapes : (t.hush v).escapes ≤ t.escapes := by
    unfold TtyStruct.escapes
    rw [hnone]
    exact Nat.add_le_add_right (Nat.add_le_add_right (Nat.zero_le _) _) _
  unfold TtyStruct.potential
  rw [hsize]
  exact Nat.add_le_add (Nat.mul_le_mul_left _ hescapes) (Nat.zero_le _)

lemma potential_getRead (h : t.Wired) (hne : t.readQ.head ≠ t.readQ.tail) :
    t.getRead.potential + 1 + ttyBufSize * (if t.readQ.cell t.readQ.tail ∉ response then 1 else 0) = t.potential := by
  have hsize : t.getRead.readQ.size ttyBufSize + 1 = t.readQ.size ttyBufSize := h.readQ.size_pop hne
  have hescapes : t.getRead.escapes + (if t.readQ.cell t.readQ.tail ∉ response then 1 else 0) = t.escapes := by
    unfold TtyStruct.escapes strangers
    rw [h.readQ.held_pop hne, List.countP_cons]
    simp only [decide_eq_true_eq]
    unfold TtyStruct.getRead
    dsimp only
    omega
  unfold TtyStruct.potential
  dsimp only [ttyBufSize] at hsize ⊢
  omega

lemma putWrites_eq (cs : List Byte) (t : TtyStruct) :
    cs.foldl TtyStruct.putWrite t =
      { t with writeQ := cs.foldl (Ring.push ttyBufSize) t.writeQ, put := t.put ++ cs } := by
  induction cs generalizing t with
  | nil => rw [List.foldl_nil, List.foldl_nil, List.append_nil]
  | cons c cs ih =>
    rw [List.foldl_cons, ih, TtyStruct.putWrite, List.foldl_cons, List.append_assoc, List.singleton_append]

lemma potential_putWrites (h : t.Wired) (hroom : t.writeQ.size ttyBufSize + cs.length ≤ ttyBufSize - 1) :
    (cs.foldl TtyStruct.putWrite t).potential = t.potential + ttyBufSize * cs.count 27 := by
  have hheld := h.writeQ.held_pushes hroom
  rw [putWrites_eq]
  unfold TtyStruct.potential TtyStruct.escapes
  dsimp only
  rw [hheld, List.count_append]
  dsimp only [ttyBufSize]
  omega

lemma parNext_ne (npar : ℕ) (c : Byte) : (Console.parNext npar c).1 ≠ .s1 := by
  unfold Console.parNext
  split_ifs <;> simp

lemma escNext_eq (p : EscState × ℕ) (c : Byte) : (Console.escNext p c).1 = .s1 ↔ p.1 = .s0 ∧ c = 27 := by
  unfold Console.escNext
  cases hp : p.1 with
  | s0 =>
    by_cases hc : c = 27
    · simp [hc]
    · simp only [hc, and_false, if_false, reduceCtorEq]
  | s1 => dsimp only; split_ifs <;> simp
  | s2 =>
    dsimp only
    split_ifs
    · simp
    · simp [parNext_ne]
  | s3 => simp [parNext_ne]

lemma escapes_getWrite (h : t.Wired) (hne : t.writeQ.head ≠ t.writeQ.tail) {s : Console}
    (hnext : (s.state, s.npar) = Console.escNext t.place (t.writeQ.cell t.writeQ.tail)) :
    (t.getWrite s).escapes + (if t.console.state = .s1 then 1 else 0) ≤ t.escapes := by
  have hstate : s.state = .s1 ↔ t.console.state = .s0 ∧ t.writeQ.cell t.writeQ.tail = 27 := by
    have hplace := escNext_eq t.place (t.writeQ.cell t.writeQ.tail)
    rw [← hnext] at hplace
    exact hplace
  unfold TtyStruct.escapes TtyStruct.getWrite
  dsimp only
  rw [h.writeQ.held_pop hne, List.count_cons]
  simp only [beq_iff_eq, hstate]
  by_cases hs : t.console.state = .s1
  · rw [if_pos hs, if_neg (by rw [hs]; simp)]
    omega
  · rw [if_neg hs]
    by_cases hc : t.writeQ.cell t.writeQ.tail = 27
    · rw [if_pos hc]
      split_ifs <;> omega
    · rw [if_neg hc, if_neg (fun h => hc h.2)]
      omega

lemma potential_getWrite (h : t.Wired) (hne : t.writeQ.head ≠ t.writeQ.tail) {s : Console}
    (hnext : (s.state, s.npar) = Console.escNext t.place (t.writeQ.cell t.writeQ.tail)) :
    (t.getWrite s).potential + ttyBufSize * (if t.console.state = .s1 then 1 else 0) ≤ t.potential := by
  have hescapes := escapes_getWrite h hne hnext
  have hsize : (t.getWrite s).readQ.size ttyBufSize = t.readQ.size ttyBufSize := rfl
  unfold TtyStruct.potential
  dsimp only [ttyBufSize] at hsize ⊢
  omega

end Potential

section Echoes

variable {l : Line} {c : Byte} {cs : List Byte}

/-- At most two characters, of which only the last can end a query. -/
def Short (cs : List Byte) : Prop := cs = [] ∨ (∃ a, cs = [a]) ∨ ∃ a b, a ≠ 90 ∧ cs = [a, b]

lemma Short.length_le (h : Short cs) : cs.length ≤ 2 := by
  rcases h with rfl | ⟨a, rfl⟩ | ⟨a, b, _, rfl⟩ <;> simp

lemma erasedEcho_short (d : Byte) : Short (erasedEcho d) ∧ (erasedEcho d).count 27 = 0 := by
  unfold erasedEcho
  split_ifs
  · exact ⟨Or.inr (Or.inr ⟨127, 127, by decide, rfl⟩), rfl⟩
  · exact ⟨Or.inr (Or.inl ⟨127, rfl⟩), rfl⟩

lemma echoed_short (l : Line) (d : Byte) : Short (echoed l d) ∧ (echoed l d).count 27 ≤ 1 := by
  unfold echoed
  split_ifs with hline hcontrol hctl
  · exact ⟨Or.inr (Or.inr ⟨10, 13, by decide, rfl⟩), by decide⟩
  · refine ⟨Or.inr (Or.inr ⟨94, d + 64, by decide, rfl⟩), ?_⟩
    rw [List.count_cons_of_ne (by decide)]
    exact List.count_le_length
  · exact ⟨Or.inl rfl, Nat.zero_le _⟩
  · exact ⟨Or.inr (Or.inl ⟨d, rfl⟩), List.count_le_length⟩

lemma mapped_response (hc : c ∈ response) : mapped l c = some c := by
  have hlow : tolower l c = c := by
    unfold tolower isupper
    simp only [response, List.mem_cons, List.not_mem_nil, or_false] at hc
    rcases hc with rfl | rfl | rfl | rfl | rfl | rfl | rfl <;> simp
  have h13 : c ≠ 13 := by
    rintro rfl
    exact absurd hc (by decide)
  have h10 : c ≠ 10 := by
    rintro rfl
    exact absurd hc (by decide)
  unfold mapped
  dsimp only
  rw [if_neg h13, if_neg fun h => h10 h.1, hlow]
  split_ifs <;> rfl

/-- `ESC` itself is echoed as two other characters. -/
lemma echoed_response (hc : c ∈ response) : (echoed l c).count 27 = 0 := by
  unfold echoed
  simp only [response, List.mem_cons, List.not_mem_nil, or_false] at hc
  rcases hc with rfl | rfl | rfl | rfl | rfl | rfl | rfl
  · cases hctl : l.termios.echoctl <;> simp
  all_goals simp

lemma EchoOf.short (h : EchoOf l c cs) : Short cs ∧ cs.count 27 ≤ if c ∉ response then 1 else 0 := by
  rcases h with ⟨d, rfl⟩ | ⟨d, hd, rfl⟩
  · obtain ⟨hshort, hcount⟩ := erasedEcho_short d
    exact ⟨hshort, by rw [hcount]; exact Nat.zero_le _⟩
  · obtain ⟨hshort, hcount⟩ := echoed_short l d
    refine ⟨hshort, ?_⟩
    by_cases hc : c ∈ response
    · rw [mapped_response hc] at hd
      obtain rfl := Option.some.inj hd
      rw [echoed_response hc]
      exact Nat.zero_le _
    · rw [if_pos hc]
      exact hcount

end Echoes

section Runs

variable {l : Line} {t r : TtyStruct} {b : List Byte} {s₀ : Console} {m n : ℕ}

/-- Nothing has been taken from an empty queue, what was put into the queue after `b` is there or has been taken, in
this order, and the console shows what was taken. -/
structure Sound (l : Line) (b : List Byte) (s₀ : Console) (t : TtyStruct) : Prop where
  wired : t.Wired
  starved : t.starved = false
  balance : t.took ++ t.writeQ.held ttyBufSize = b ++ t.put
  onScreen : t.console.OnScreen
  shown : Console.conWrite (t.took.map fun c => (l.settings, c)) s₀ = .ok t.console

/-- Steps that touch nothing but the input side. -/
lemma Sound.input (h : Sound l b s₀ t) (hr : r.Wired) (hq : r.writeQ = t.writeQ) (hc : r.console = t.console)
    (htook : r.took = t.took) (hput : r.put = t.put) (hs : r.starved = t.starved) : Sound l b s₀ r := by
  refine ⟨hr, hs.trans h.starved, ?_, ?_, ?_⟩
  · rw [htook, hq, hput]
    exact h.balance
  · rw [hc]
    exact h.onScreen
  · rw [htook, hc]
    exact h.shown

lemma Sound.getRead (h : Sound l b s₀ t) : Sound l b s₀ t.getRead :=
  h.input ((kept_wired l).getRead t h.wired) rfl rfl rfl rfl rfl

lemma Sound.stopped (h : Sound l b s₀ t) (v : Bool) : Sound l b s₀ { t with stopped := v } :=
  h.input ((kept_wired l).stopped t v h.wired) rfl rfl rfl rfl rfl

lemma Sound.data (h : Sound l b s₀ t) (k : ℕ) : Sound l b s₀ { t with data := k } :=
  h.input ((kept_wired l).data t k h.wired) rfl rfl rfl rfl rfl

lemma Sound.answer (h : Sound l b s₀ t) : Sound l b s₀ t.answer :=
  h.input h.wired.answer rfl rfl rfl rfl rfl

lemma Sound.hush (h : Sound l b s₀ t) (v : Bool) : Sound l b s₀ (t.hush v) :=
  h.input (h.wired.hush v) rfl rfl rfl rfl rfl

lemma cooks_eq {g : TtyStruct → TtyStruct} (hg : Cooks g) (t : TtyStruct) : ∃ q, g t = { t with secondary := q } := by
  rcases hg with rfl | ⟨c, rfl⟩
  · exact ⟨_, rfl⟩
  · exact ⟨_, rfl⟩

lemma Sound.cook (h : Sound l b s₀ t) {g : TtyStruct → TtyStruct} (hg : Cooks g) : Sound l b s₀ (g t) := by
  have hr := (kept_wired l).cook g t hg h.wired
  obtain ⟨q, hq⟩ := cooks_eq hg t
  rw [hq] at hr ⊢
  exact h.input hr rfl rfl rfl rfl rfl

lemma cooks_potential {g : TtyStruct → TtyStruct} (hg : Cooks g) (t : TtyStruct) : (g t).potential = t.potential := by
  obtain ⟨q, hq⟩ := cooks_eq hg t
  rw [hq]
  rfl

lemma cooks_drained {g : TtyStruct → TtyStruct} (hg : Cooks g) (h : t.Drained) : (g t).Drained := by
  obtain ⟨q, hq⟩ := cooks_eq hg t
  rw [hq]
  exact h

lemma Sound.putWrites (h : Sound l b s₀ t) (hd : t.Drained) {cs : List Byte} (hcs : cs.length ≤ 2) :
    Sound l b s₀ (cs.foldl TtyStruct.putWrite t) ∧
      (cs.foldl TtyStruct.putWrite t).writeQ.held ttyBufSize = cs ∧
      (cs.foldl TtyStruct.putWrite t).potential = t.potential + ttyBufSize * cs.count 27 := by
  have hsize := h.wired.writeQ.size_eq_zero.mpr hd
  have hroom : t.writeQ.size ttyBufSize + cs.length ≤ ttyBufSize - 1 := by
    dsimp only [ttyBufSize] at hsize ⊢
    omega
  have hheld := h.wired.writeQ.held_pushes hroom
  have hempty := h.wired.writeQ.held_eq_nil hd
  have hbalance := h.balance
  have hwired := (kept_wired l).putWrites cs h.wired
  refine ⟨?_, ?_, potential_putWrites h.wired hroom⟩
  · rw [putWrites_eq] at hwired ⊢
    refine ⟨hwired, h.starved, ?_, h.onScreen, h.shown⟩
    rw [hempty, List.append_nil] at hbalance
    dsimp only
    rw [hheld, hempty, List.nil_append, hbalance, List.append_assoc]
  · rw [putWrites_eq]
    dsimp only
    rw [hheld, hempty, List.nil_append]

/-- Writes that take what a short echo has put into the queue. -/
def Takes (l : Line) (b : List Byte) (s₀ : Console) (m : ℕ) (write : TtyStruct → Except Fault TtyStruct) : Prop :=
  ∀ t, Sound l b s₀ t → Short (t.writeQ.held ttyBufSize) → t.potential < m →
    ∃ r, write t = .ok r ∧ Sound l b s₀ r ∧ r.Drained ∧ r.potential ≤ t.potential

variable {write : TtyStruct → Except Fault TtyStruct}

lemma copyByte_sound (hw : Takes l b s₀ m write) (h : Sound l b s₀ t) (hd : t.Drained)
    (hne : t.readQ.head ≠ t.readQ.tail) (hm : t.potential ≤ m) :
    ∃ r, copyByte l write (t.readQ.cell t.readQ.tail) t.getRead = .ok r ∧ Sound l b s₀ r ∧ r.Drained ∧
      r.potential < t.potential := by
  have hread := potential_getRead h.wired hne
  rcases copyByte_cases l (t.readQ.cell t.readQ.tail) t.getRead with ⟨_, v, hv⟩ | ⟨_, cs, k, g, hecho, hg, hv⟩
  · refine ⟨_, hv write, h.getRead.stopped v, hd, ?_⟩
    change t.getRead.potential < t.potential
    omega
  · rw [hv write]
    by_cases hloud : l.termios.echo = true
    · obtain ⟨hshort, hcount⟩ := hecho.short
      obtain ⟨hsound, hheld, hpot⟩ := (h.getRead.data k).putWrites hd hshort.length_le
      have hmul := Nat.mul_le_mul_left ttyBufSize hcount
      change _ = t.getRead.potential + _ at hpot
      obtain ⟨r, hr, hrs, hrd, hrp⟩ := hw _ hsound (by rw [hheld]; exact hshort) (by omega)
      rw [if_pos hloud, echoWrite, hr]
      refine ⟨_, rfl, hrs.cook hg, cooks_drained hg hrd, ?_⟩
      rw [cooks_potential hg]
      omega
    · rw [if_neg hloud]
      refine ⟨_, rfl, (h.getRead.data k).cook hg, cooks_drained hg hd, ?_⟩
      rw [cooks_potential hg]
      change t.getRead.potential < t.potential
      omega

lemma copyToCooked_sound (hw : Takes l b s₀ m write) (h : Sound l b s₀ t) (hd : t.Drained) (hn : t.potential < n)
    (hm : t.potential ≤ m) :
    ∃ r, copyToCooked l write n t = .ok r ∧ Sound l b s₀ r ∧ r.Drained ∧ r.potential ≤ t.potential := by
  induction n generalizing t with
  | zero => omega
  | succ n ih =>
    rw [copyToCooked]
    split_ifs with hexit
    · exact ⟨t, rfl, h, hd, le_refl _⟩
    · obtain ⟨u, hu, hsound, hdrained, hpot⟩ := copyByte_sound hw h hd (fun hempty => hexit (Or.inl hempty)) hm
      obtain ⟨r, hr, hrs, hrd, hrp⟩ := ih hsound hdrained (by omega) (by omega)
      rw [hu]
      exact ⟨r, hr, hrs, hrd, by omega⟩

lemma Sound.getWrite (h : Sound l b s₀ t) (hne : t.writeQ.head ≠ t.writeQ.tail) {s : Console} (hon : s.OnScreen)
    (hs : t.console.conByte l.settings (t.writeQ.cell t.writeQ.tail) = .ok s) (hr : (t.getWrite s).Wired) :
    Sound l b s₀ (t.getWrite s) := by
  refine ⟨hr, ?_, ?_, hon, ?_⟩
  · have hfalse : (t.writeQ.head == t.writeQ.tail) = false := by simpa using hne
    unfold TtyStruct.getWrite
    dsimp only
    rw [h.starved, hfalse]
    rfl
  · have hbalance := h.balance
    rw [h.wired.writeQ.held_pop hne] at hbalance
    unfold TtyStruct.getWrite
    dsimp only
    rw [List.append_assoc, List.singleton_append]
    exact hbalance
  · unfold TtyStruct.getWrite
    dsimp only
    rw [List.map_append, Console.conWrite_append, h.shown, Except.bind, List.map_singleton, Console.conWrite, hs]
    rfl

/-- A run over a queue without a query that is answered aloud before other characters. -/
lemma conLoop_sound (hw : Takes l b s₀ n (conWrite l n)) {bytes : List Byte} {S : Byte → Prop}
    (hS : ∀ d, S d → silent l t d ∧ t.secondary.size ttyBufSize ≠ ttyBufSize - 1) (h : Sound l b s₀ t)
    (hbytes : t.writeQ.held ttyBufSize = bytes) (hquiet : Quiet S t.place t.readQ bytes) (hn : t.potential ≤ n) :
    ∃ r, conLoop l (conWrite l n) n bytes.length t = .ok r ∧ Sound l b s₀ r ∧ r.Drained ∧
      r.potential ≤ t.potential := by
  induction bytes generalizing t with
  | nil =>
    have hsize : t.writeQ.size ttyBufSize = 0 := by rw [← Ring.length_held, hbytes]; rfl
    exact ⟨t, rfl, h, h.wired.writeQ.size_eq_zero.mp hsize, le_refl _⟩
  | cons c cs ih =>
    have hne : t.writeQ.head ≠ t.writeQ.tail := by
      intro hempty
      rw [h.wired.writeQ.held_eq_nil hempty] at hbytes
      cases hbytes
    rw [h.wired.writeQ.held_pop hne] at hbytes
    obtain ⟨rfl, hrest⟩ := List.cons.inj hbytes
    obtain ⟨s, htake, hs, hon, hnext⟩ := conTake_ok_of_onScreen (l := l) h.onScreen
    have ht' := h.getWrite hne hon hs ((kept_wired l).conTake t _ h.wired htake)
    have hpot := potential_getWrite h.wired hne hnext
    rw [List.length_cons, conLoop, htake, Except.bind]
    by_cases hquery : atQuery t
    · have hplace : t.place.1 = .s1 ∧ t.writeQ.cell t.writeQ.tail = 90 := hquery
      rw [quiet_query hplace] at hquiet
      rw [if_pos hquery, respond_eq]
      rw [if_pos hquery.1] at hpot
      have hans := potential_answer ht'.wired
      have hfuel : (t.getWrite s).answer.potential < n := by omega
      rcases hquiet with rfl | ⟨hsilent, hquiet⟩
      · have hdrained : (t.getWrite s).answer.Drained := by
          apply ht'.wired.writeQ.size_eq_zero.mp
          rw [← Ring.length_held]
          exact congrArg List.length hrest
        obtain ⟨r, hr, hrs, hrd, hrp⟩ := copyToCooked_sound hw ht'.answer hdrained hfuel (by omega)
        rw [hr]
        exact ⟨r, rfl, hrs, hrd, by omega⟩
      · have hsame : silent l (t.getWrite s).answer = silent l t := silent_eq rfl
        obtain ⟨v, hv⟩ := copyToCooked_silent (conWrite l n) ht'.answer.wired
          (by rw [hsame]; exact fun d hd => hS d (hsilent d hd)) n
        have hsize : (t.getWrite s).answer.readQ.size ttyBufSize < n := by
          unfold TtyStruct.potential at hfuel
          omega
        rw [hv, if_pos hsize]
        have hhush := potential_hush ht'.answer.wired v
        have hsilent' : silent l ((t.getWrite s).answer.hush v) = silent l t := silent_eq rfl
        rw [← hnext] at hquiet
        obtain ⟨r, hr, hrs, hrd, hrp⟩ := ih (t := (t.getWrite s).answer.hush v) (by rw [hsilent']; exact hS)
          (ht'.answer.hush v) hrest hquiet (by omega)
        exact ⟨r, hr, hrs, hrd, by omega⟩
    · have hplace : ¬(t.place.1 = .s1 ∧ t.writeQ.cell t.writeQ.tail = 90) := hquery
      rw [quiet_other hplace, ← hnext] at hquiet
      rw [if_neg hquery]
      have hsilent' : silent l (t.getWrite s) = silent l t := silent_eq rfl
      obtain ⟨r, hr, hrs, hrd, hrp⟩ := ih (t := t.getWrite s) (by rw [hsilent']; exact hS) ht' hrest hquiet (by omega)
      exact ⟨r, hr, hrs, hrd, by omega⟩

lemma quiet_short {p : EscState × ℕ} {q : Ring Byte} {cs : List Byte} (h : Short cs) :
    Quiet (fun _ => False) p q cs := by
  have hlast : ∀ p q a, Quiet (fun _ => False) p q [a] := by
    intro p q a
    by_cases hquery : p.1 = .s1 ∧ a = 90
    · exact (quiet_query hquery).mpr (Or.inl rfl)
    · exact (quiet_other hquery).mpr trivial
  rcases h with rfl | ⟨a, rfl⟩ | ⟨a, c, ha, rfl⟩
  · trivial
  · exact hlast p q a
  · exact (quiet_other fun hquery => ha hquery.2).mpr (hlast _ _ _)

theorem conWrite_takes (l : Line) (b : List Byte) (s₀ : Console) (n : ℕ) : Takes l b s₀ n (conWrite l n) := by
  induction n with
  | zero => exact fun t _ _ hpot => absurd hpot (Nat.not_lt_zero _)
  | succ n ih =>
    intro t h hshort hpot
    obtain ⟨r, hr, hrs, hrd, hrp⟩ := conLoop_sound ih (S := fun _ => False) (fun _ hf => hf.elim) h rfl
      (quiet_short hshort) (by omega)
    rw [Ring.length_held] at hr
    exact ⟨r, hr, hrs, hrd, hrp⟩

/-- Nothing that is copied can be echoed. -/
def Mum (l : Line) (t : TtyStruct) : Prop :=
  l.termios.echo = false ∨ t.secondary.size ttyBufSize = ttyBufSize - 1

variable (write) in
lemma copyToCooked_mum (h : Sound l b s₀ t) (hmum : Mum l t) (hn : t.readQ.size ttyBufSize < n) :
    ∃ r, copyToCooked l write n t = .ok r ∧ Sound l b s₀ r ∧ Mum l r ∧ r.writeQ = t.writeQ := by
  induction n generalizing t with
  | zero => omega
  | succ n ih =>
    rw [copyToCooked]
    split_ifs with hexit
    · exact ⟨t, rfl, h, hmum, rfl⟩
    · obtain ⟨hne, hroom⟩ := not_or.mp hexit
      have hecho := hmum.resolve_right hroom
      have hsize := h.wired.readQ.size_pop hne
      have hnext : ∃ u, copyByte l write (t.readQ.cell t.readQ.tail) t.getRead = .ok u ∧ Sound l b s₀ u ∧
          u.writeQ = t.writeQ ∧ u.readQ = t.getRead.readQ := by
        rcases copyByte_cases l (t.readQ.cell t.readQ.tail) t.getRead with ⟨_, v, hv⟩ | ⟨_, cs, k, g, _, hg, hv⟩
        · exact ⟨_, hv write, h.getRead.stopped v, rfl, rfl⟩
        · rw [hv write, hecho]
          obtain ⟨q, hq⟩ := cooks_eq hg { t.getRead with data := k }
          refine ⟨_, rfl, (h.getRead.data k).cook hg, ?_, ?_⟩
          · rw [hq]
            rfl
          · rw [hq]
      obtain ⟨u, hu, hsound, hq, hread⟩ := hnext
      have hsize' : u.readQ.size ttyBufSize < n := by
        rw [hread]
        change (t.readQ.pop ttyBufSize).size ttyBufSize < n
        omega
      obtain ⟨r, hr, hrs, hrm, hrq⟩ := ih hsound (Or.inl hecho) hsize'
      rw [hu]
      exact ⟨r, hr, hrs, hrm, hrq.trans hq⟩

variable (write) in
lemma conLoop_mum (hn : ttyBufSize ≤ n) {bytes : List Byte} (h : Sound l b s₀ t) (hmum : Mum l t)
    (hbytes : t.writeQ.held ttyBufSize = bytes) :
    ∃ r, conLoop l write n bytes.length t = .ok r ∧ Sound l b s₀ r ∧ r.Drained := by
  induction bytes generalizing t with
  | nil =>
    have hsize : t.writeQ.size ttyBufSize = 0 := by rw [← Ring.length_held, hbytes]; rfl
    exact ⟨t, rfl, h, h.wired.writeQ.size_eq_zero.mp hsize⟩
  | cons c cs ih =>
    have hne : t.writeQ.head ≠ t.writeQ.tail := by
      intro hempty
      rw [h.wired.writeQ.held_eq_nil hempty] at hbytes
      cases hbytes
    rw [h.wired.writeQ.held_pop hne] at hbytes
    obtain ⟨rfl, hrest⟩ := List.cons.inj hbytes
    obtain ⟨s, htake, hs, hon, _⟩ := conTake_ok_of_onScreen (l := l) h.onScreen
    have ht' := h.getWrite hne hon hs ((kept_wired l).conTake t _ h.wired htake)
    rw [List.length_cons, conLoop, htake, Except.bind]
    by_cases hquery : atQuery t
    · have hsize : (t.getWrite s).answer.readQ.size ttyBufSize < n :=
        Nat.lt_of_lt_of_le (Ring.size_lt (Nat.succ_pos _) _) hn
      obtain ⟨u, hu, hus, hum, huq⟩ := copyToCooked_mum write ht'.answer hmum hsize
      rw [if_pos hquery, respond_eq, hu]
      exact ih hus hum (by rw [huq]; exact hrest)
    · rw [if_neg hquery]
      exact ih ht' hmum hrest

end Runs

section Claim

variable {l : Line} {t : TtyStruct}

/-- What the kernel keeps about the queues and the console, and nothing recorded yet. -/
structure TtyStruct.Ready (t : TtyStruct) : Prop where
  wired : t.Wired
  onScreen : t.console.OnScreen
  took : t.took = []
  put : t.put = []
  starved : t.starved = false

/-- A call comes back, with every character of the queue on the console once and in order, those that came into the
queue meanwhile behind the others, none taken from an empty queue and none left. -/
def ConsumedOnce (l : Line) (t : TtyStruct) : Prop :=
  ∃ n r, conWrite l n t = .ok r ∧ r.starved = false ∧ r.took = t.writeQ.held ttyBufSize ++ r.put ∧
    Console.conWrite (r.took.map fun c => (l.settings, c)) t.console = .ok r.console ∧ r.writeQ.head = r.writeQ.tail

/-- No echo, no room for a character to be copied, or every query with characters behind it finds only characters
that are dropped. -/
def Unheard (l : Line) (t : TtyStruct) : Prop :=
  Mum l t ∨ Quiet (silent l t) t.place t.readQ (t.writeQ.held ttyBufSize)

lemma TtyStruct.Ready.sound (h : t.Ready) : Sound l (t.writeQ.held ttyBufSize) t.console t := by
  refine ⟨h.wired, h.starved, ?_, h.onScreen, ?_⟩
  · rw [h.took, h.put, List.nil_append, List.append_nil]
  · rw [h.took]
    rfl

lemma consumedOnce_of_run (n : ℕ)
    (h : ∃ r, conWrite l n t = .ok r ∧ Sound l (t.writeQ.held ttyBufSize) t.console r ∧ r.Drained) :
    ConsumedOnce l t := by
  obtain ⟨r, hr, hs, hd⟩ := h
  refine ⟨n, r, hr, hs.starved, ?_, hs.shown, hd⟩
  have hbalance := hs.balance
  rwa [hs.wired.writeQ.held_eq_nil hd, List.append_nil] at hbalance

lemma consumedOnce_of_mum (h : t.Ready) (hmum : Mum l t) : ConsumedOnce l t := by
  apply consumedOnce_of_run (ttyBufSize + 1)
  obtain ⟨r, hr, hrs, hrd⟩ := conLoop_mum (conWrite l ttyBufSize) (le_refl _) h.sound hmum rfl
  rw [Ring.length_held] at hr
  exact ⟨r, hr, hrs, hrd⟩

lemma consumedOnce_of_unheard (h : t.Ready) (hu : Unheard l t) : ConsumedOnce l t := by
  rcases hu with hmum | hquiet
  · exact consumedOnce_of_mum h hmum
  · by_cases hroom : t.secondary.size ttyBufSize = ttyBufSize - 1
    · exact consumedOnce_of_mum h (Or.inr hroom)
    · apply consumedOnce_of_run (t.potential + 1)
      obtain ⟨r, hr, hrs, hrd, _⟩ := conLoop_sound (conWrite_takes l _ t.console t.potential)
        (fun d hd => ⟨hd, hroom⟩) h.sound rfl hquiet (le_refl _)
      rw [Ring.length_held] at hr
      exact ⟨r, hr, hrs, hrd⟩

lemma not_consumedOnce (h : t.Ready) (hu : ¬Unheard l t) : ¬ConsumedOnce l t := by
  rintro ⟨n, r, hr, hs, _⟩
  obtain ⟨hmum, hloud⟩ := not_or.mp hu
  obtain ⟨hecho, hroom⟩ := not_or.mp hmum
  cases n with
  | zero => cases hr
  | succ n =>
    rw [conWrite, ← Ring.length_held] at hr
    have hstarved := conLoop_query h.wired h.onScreen hroom (Bool.eq_true_of_not_eq_false hecho) rfl hloud hr
    rw [hs] at hstarved
    cases hstarved

theorem consumedOnce_iff (h : t.Ready) : ConsumedOnce l t ↔ Unheard l t := by
  constructor
  · intro hc
    by_contra hu
    exact not_consumedOnce h hu hc
  · exact consumedOnce_of_unheard h

end Claim

/-- The first terminal of `tty_table`, with `bytes` written to it. -/
def consoleLine : Line where
  termios := ⟨false, false, false, false, true, false, true, true, 3, 4, 127, 17, 19⟩
  visible := true
  overlay := noOverlay
  upperBefore := fun _ => false

def consoleTty (bytes : List Byte) : TtyStruct where
  readQ := ⟨fun _ => 0, 0, 0⟩
  writeQ := bytes.foldl (Ring.push ttyBufSize) ⟨fun _ => 0, 0, 0⟩
  secondary := ⟨fun _ => 0, 0, 0⟩
  data := 0
  stopped := false
  console := Console.conInit 0 0 fun _ => 0
  took := []
  put := []
  starved := false

lemma emptyRing_inside : Ring.Inside ttyBufSize (⟨fun _ => 0, 0, 0⟩ : Ring Byte) := ⟨Nat.succ_pos _, Nat.succ_pos _⟩

lemma consoleTty_ready (bytes : List Byte) : (consoleTty bytes).Ready := by
  have hon : (Console.conInit 0 0 fun _ => 0).OnScreen := Console.conInit_onScreen (by decide) (by decide) _
  exact ⟨⟨emptyRing_inside, emptyRing_inside.pushes bytes, emptyRing_inside⟩, hon, rfl, rfl, rfl⟩

/-- `ESC Z` and a letter. -/
theorem consumedOnce_query : ¬ConsumedOnce consoleLine (consoleTty [27, 90, 88]) := by
  have hsize : Ring.size ttyBufSize (⟨fun _ => 0, 0, 0⟩ : Ring Byte) = 0 := rfl
  have hheld : (consoleTty [27, 90, 88]).writeQ.held ttyBufSize = [27, 90, 88] :=
    emptyRing_inside.held_pushes (by rw [hsize]; decide)
  have hanswer : (answered (consoleTty [27, 90, 88]).readQ).held ttyBufSize = response :=
    emptyRing_inside.held_pushes (by rw [hsize]; decide)
  apply not_consumedOnce (consoleTty_ready _)
  rintro ((hecho | hfull) | hquiet)
  · cases hecho
  · exact absurd hfull (by decide)
  · rw [hheld, quiet_other (by decide), quiet_query (by decide), hanswer] at hquiet
    rcases hquiet with hlast | ⟨hsilent, _⟩
    · cases hlast
    · have hmark := hsilent 63 (by decide)
      rw [silent, mapped_response (by decide)] at hmark
      exact absurd hmark (by decide)

theorem consumedOnce_query_last :
    ConsumedOnce consoleLine (consoleTty [88, 27, 90]) ↔ Unheard consoleLine (consoleTty [88, 27, 90]) :=
  consumedOnce_iff (consoleTty_ready _)

end Devos.Tty
