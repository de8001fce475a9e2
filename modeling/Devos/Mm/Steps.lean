import Devos.Mm.Exact
import Devos.Mm.Views

/-! Each step of the machine keeps the counts, but for the page that a fault can lose. -/

namespace Devos.Mm

open Runs RefCount Kernel Pages

namespace Machine

section Settle

variable {s s' : Machine} {c : Fin 64} {t : Task} {m : Pages} {b : Bool} {a : ℕ}

/-- Process 0 is in the memory of the kernel, and may write it. -/
lemma Sound.kernel_place (h : Sound s) (hp : Placed 0 t) (ha : a < t.dataLimit) :
    a / 4096 < 160 ∧ s.pages.walk (t.place a) = some (a / 4096) ∧ writable (s.pages.entry (t.place a)) := by
  obtain ⟨hrow, _⟩ := hp.row_place ha
  rw [hp.first rfl] at ha
  have hfst : (t.place a).1 = 0 := by
    apply Fin.ext
    rw [hrow, Fin.val_zero, Fin.val_zero]
    omega
  have hsnd : (t.place a).2.val = a / 4096 := by
    have hval : (t.place a).2.val = (t.dataBase + a) / 2 ^ 12 % 1024 := rfl
    rw [hval, hp.dataBase, Fin.val_zero]
    omega
  have hdir := h.counted.kernel_dir (d := 0) (by decide)
  rw [if_pos (by decide), Fin.val_zero, Nat.add_zero] at hdir
  have hframe := (link_eq_some.mp hdir).2
  refine ⟨by omega, ?_, ?_⟩
  · rw [Pages.walk, hfst, Fin.val_zero, hdir, ← hsnd]
    exact h.counted.kernel_link _
  · have hmap := h.counted.kernel_map 0 (by decide) _ (t.place a).2.isLt
    rw [Nat.mul_zero, Nat.zero_add, Nat.add_zero] at hmap
    rw [entry, hfst, Fin.val_zero, hframe, hmap]
    exact writable_full _

lemma Placed.high {i : Fin 64} (hp : Placed i t) (hi : i ≠ 0) (ha : a < t.dataLimit) : 16 ≤ (t.place a).1.val := by
  have hpos : i.val ≠ 0 := fun hv => hi (Fin.ext hv)
  rw [(hp.row_place ha).1]
  omega

/-- An entry that the processor reads for a place of a process. -/
lemma entry_of_mapped {x : Place} {p : ℕ} (hx : 16 ≤ x.1.val) (hp : m.mapped x = some p) :
    ∃ t, m.table x.1 = some t ∧ m.link t x.2 = some p ∧ m.entry x = Longs.long m.mem t x.2 ∧
      frame (Longs.long m.mem 0 x.1) = t := by
  obtain ⟨t, ht, hl⟩ := mapped_eq_some.mp hp
  rw [link_of_table hx] at ht
  have hframe := (link_eq_some.mp ht).2
  rw [entry, hframe]
  exact ⟨t, by rw [link_of_table hx, ht], hl, rfl, rfl⟩

lemma Sound.alive_covers (h : Sound s) (ht : s.task c = some t) (halive : t.phase = .alive) (ha : a < t.dataLimit) :
    s.Covers (t.place a).1 :=
  ⟨c, t, ht, halive, ((h.placed c t ht).row_place ha).2⟩

lemma Sound.verified (h : Sound s) (hv : Verified s.owners s.pages m) : Sound { s with pages := m } :=
  h.setPages hv.counted hv.lost fun d p hd => h.covered d p (by rw [← hv.tables]; exact hd)

lemma Sound.filled (h : Sound s) (ht : s.task c = some t) (halive : t.phase = .alive) (ha : a < t.dataLimit)
    (hf : Filled s.owners (t.place a).1 (t.place a).2 s.pages m) : Sound { s with pages := m } := by
  apply h.setPages hf.counted hf.only.lost
  intro d p hd
  by_cases hdd : d = (t.place a).1
  · rw [hdd]
    exact h.alive_covers ht halive ha
  · refine h.covered d p ?_
    rw [← hf.only.table]
    · exact hd
    · exact fun e he => hdd (congrArg Prod.fst he)

/-- A page that `do_no_page` has taken and forgotten is one more page that something has. -/
lemma Sound.lose {p : ℕ} (h : Sound s) (hc : Counted (add s.owners p) m) (hon : Only nowhere nowhere s.pages m) :
    Sound { s with pages := { m with lost := p :: s.pages.lost } } := by
  refine ⟨?_, h.placed, ?_, h.unused⟩
  · have howners : ({ s with pages := { m with lost := p :: s.pages.lost } } : Machine).owners = add s.owners p := by
      funext q
      have hlost : ({ s with pages := { m with lost := p :: s.pages.lost } } : Machine).pages.lost =
        p :: s.pages.lost := rfl
      have htask : ({ s with pages := { m with lost := p :: s.pages.lost } } : Machine).taskPage = s.taskPage := rfl
      have hpipe : ({ s with pages := { m with lost := p :: s.pages.lost } } : Machine).pipePage = s.pipePage := rfl
      unfold add owners
      rw [hlost, htask, hpipe, List.count_cons]
      simp only [beq_iff_eq, eq_comm (a := q)]
      omega
    rw [howners]
    exact hc.setLost _
  · intro d q hd
    refine h.covered d q ?_
    rw [← hon.table_eq]
    exact hd

end Settle

/-- A fault or `verify_area` shows more of the pages at most, opens places, and may end with `do_exit`. Only under `L`
does it lose a page. -/
structure Answered (L : Prop) (s : Machine) (c : Fin 64) (t : Task) (m : Pages) (s' : Machine) : Prop where
  sound : Sound { s with pages := m }
  reveals : Reveals s.pages m
  opens : ∀ x, Open s.pages x → Open m x
  lost : m.lost = s.pages.lost ∨ L
  result : s' = { s with pages := m } ∨ ({ s with pages := m } : Machine).beginExit c t = .ok s'

section Answers

variable {s s' : Machine} {c : Fin 64} {t : Task} {m : Pages} {L : Prop} {a : ℕ}

lemma Answered.sound_after (h : Answered L s c t m s') (ht : s.task c = some t) :
    Sound s' ∧ (s'.pages.lost = s.pages.lost ∨ L) := by
  rcases h.result with rfl | hexit
  · exact ⟨h.sound, h.lost⟩
  · obtain ⟨hs, hon, _⟩ := h.sound.beginExit ht hexit
    exact ⟨hs, by rw [hon.lost]; exact h.lost⟩

lemma settle_eq {b : Bool} (hs : s.settle c t (m, b) = .ok s') :
    s' = { s with pages := m } ∨ ({ s with pages := m } : Machine).beginExit c t = .ok s' := by
  rw [Machine.settle] at hs
  split_ifs at hs
  · exact Or.inl (Except.ok.inj hs).symm
  · exact Or.inr hs

lemma Sound.noPage (h : Sound s) (ht : s.task c = some t) (halive : t.phase = .alive) (ha : a < t.dataLimit)
    (hwalk : s.pages.walk (t.place a) = none)
    (hs : s.settle c t (s.pages.doNoPage (t.place a).1 (t.place a).2) = .ok s') :
    ∃ m, Answered (s.pages.free = 1 ∧ s.pages.table (t.place a).1 = none) s c t m s' := by
  have hp := h.placed c t ht
  have hc : c ≠ 0 := by
    rintro rfl
    obtain ⟨_, he, _⟩ := h.kernel_place hp ha
    rw [hwalk] at he
    cases he
  have hd := hp.high hc ha
  have hnone : s.pages.mapped ((t.place a).1, (t.place a).2) = none := by
    rw [Prod.mk.eta, ← walk_eq_mapped hd]
    exact hwalk
  rcases h.counted.doNoPage hd hnone with ⟨m, hrun, hf⟩ | ⟨hrun, _⟩ | ⟨m, p, hrun, hfree, htable, _, hc, hon⟩
  · rw [hrun] at hs
    exact ⟨m, h.filled ht halive ha hf, hf.reveals hnone, hf.opens, Or.inl hf.only.lost, settle_eq hs⟩
  · rw [hrun] at hs
    exact ⟨s.pages, h, Reveals.refl _, fun _ hx => hx, Or.inl rfl, settle_eq hs⟩
  · rw [hrun] at hs
    have hreveals : Reveals s.pages m := hon.reveals
    have hopens : ∀ x, Open s.pages x → Open m x := fun x hx => hx.only hon id id
    exact ⟨{ m with lost := p :: s.pages.lost }, h.lose hc hon, hreveals, hopens, Or.inr ⟨hfree, htable⟩, settle_eq hs⟩

lemma Sound.wpPage {p : ℕ} (h : Sound s) (ht : s.task c = some t) (ha : a < t.dataLimit)
    (hwalk : s.pages.walk (t.place a) = some p) (hw : ¬writable (s.pages.entry (t.place a)))
    (hs : s.settle c t (s.pages.doWpPage (t.place a).1 (t.place a).2) = .ok s') : ∃ m, Answered False s c t m s' := by
  have hp := h.placed c t ht
  have hc : c ≠ 0 := by
    rintro rfl
    obtain ⟨_, _, he⟩ := h.kernel_place hp ha
    exact hw he
  have hd := hp.high hc ha
  have hmapped : s.pages.mapped (t.place a) = some p := by rw [← walk_eq_mapped hd, hwalk]
  obtain ⟨u, hu, hl, _, hframe⟩ := entry_of_mapped hd hmapped
  rw [Pages.doWpPage, hframe] at hs
  rcases h.counted.unWpPage hu hl with ⟨m, hrun, hun⟩ | ⟨hrun, _⟩
  · rw [hrun] at hs
    have hv := hun.verified hmapped
    exact ⟨m, h.verified hv, hv.reveals, hv.opens, Or.inl hv.lost, settle_eq hs⟩
  · rw [hrun] at hs
    exact ⟨s.pages, h, Reveals.refl _, fun _ hx => hx, Or.inl rfl, settle_eq hs⟩

lemma Sound.verifyKilled {b : Bool} {base addr : ℕ} {size : ℤ} (h : Sound s)
    (hrun : s.pages.verifyArea base addr size = (m, b)) (hs : s.settle c t (m, b) = .ok s') :
    Answered False s c t m s' := by
  obtain ⟨m', b', hrun', hv, _⟩ := h.counted.verifyFrom (areaTurns addr size) (addr / 4096 * 4096 + base)
  rw [Pages.verifyArea, hrun'] at hrun
  obtain ⟨rfl, rfl⟩ := Prod.mk.inj hrun
  exact ⟨h.verified hv, hv.reveals, hv.opens, Or.inl hv.lost, settle_eq hs⟩

lemma Sound.open_of_writable {p : ℕ} (h : Sound s) (ht : s.task c = some t) (hc : c ≠ 0) (ha : a < t.dataLimit)
    (hwalk : s.pages.walk (t.place a) = some p) (hw : writable (s.pages.entry (t.place a))) : Open s.pages (t.place a) := by
  have hd := (h.placed c t ht).high hc ha
  have hmapped : s.pages.mapped (t.place a) = some p := by rw [← walk_eq_mapped hd, hwalk]
  obtain ⟨u, hu, _, hentry, _⟩ := entry_of_mapped hd hmapped
  intro u' hu' _
  rw [hu, Option.some.injEq] at hu'
  rw [← hu', ← hentry]
  exact hw

/-- A store through an entry that may be written, of a process that is not in the kernel's memory. -/
lemma Sound.store {p : ℕ} {b : Byte} (h : Sound s) (ht : s.task c = some t) (hc : c ≠ 0) (ha : a < t.dataLimit)
    (hwalk : s.pages.walk (t.place a) = some p) (hopen : Open s.pages (t.place a)) :
    ∃ q, Counted s.owners (s.pages.store (t.place a) (a % 4096) b) ∧
      Only (only (t.place a).1 (t.place a).2) nowhere s.pages (s.pages.store (t.place a) (a % 4096) b) ∧
      s.pages.mapped (t.place a) = some q ∧ lowMem ≤ q ∧
      (s.pages.store (t.place a) (a % 4096) b).table = s.pages.table ∧
      (s.pages.store (t.place a) (a % 4096) b).mapped = s.pages.mapped ∧
      (∀ x, Open s.pages x → Open (s.pages.store (t.place a) (a % 4096) b) x) ∧
      (s.pages.store (t.place a) (a % 4096) b).mem q = Function.update (s.pages.mem q) (a % 4096) b := by
  have hd := (h.placed c t ht).high hc ha
  have hmapped : s.pages.mapped (t.place a) = some p := by rw [← walk_eq_mapped hd, hwalk]
  obtain ⟨u, hu, hl, hentry, _⟩ := entry_of_mapped hd hmapped
  have hw : writable (Longs.long s.pages.mem u (t.place a).2) := hopen u hu (link_eq_some.mp hl).1
  obtain ⟨hcount, hon, hlo, htable, hsame, htables, hmem⟩ := h.counted.store hu hl hw (a % 4096) b
  refine ⟨p, hcount, hon, hmapped, hlo, htable, hsame, ?_, hmem⟩
  intro x hx u' hu' hp
  rw [htable] at hu'
  rw [Longs.long_congr (htables u' x.1 hu')] at hp ⊢
  exact hx u' hu' hp

end Answers

/-- The events that no process 0 and no unverified store of the kernel has a part in. -/
def Tame (s : Machine) : Event → Prop
  | .store c _ _ => c ≠ 0
  | .kernelStore c a _ => c ≠ 0 ∧ ∀ t, s.task c = some t → Open s.pages (t.place a)
  | _ => True

/-- A fault takes the last page, and there is none for the page table. -/
def Losing (s : Machine) : Event → Prop
  | .noPage c a => s.pages.free = 1 ∧ ∀ t, s.task c = some t → s.pages.table (t.place a).1 = none
  | _ => False

theorem Sound.step {s s' : Machine} {e : Event} (h : Sound s) (htame : Tame s e) (hs : MachineStep s e s') :
    Sound s' ∧ (s'.pages.lost = s.pages.lost ∨ Losing s e) := by
  have hcalm : ∀ {s'}, Calm s s' → Sound s' ∧ (s'.pages.lost = s.pages.lost ∨ Losing s e) :=
    fun hc => ⟨hc.sound, Or.inl hc.only.lost⟩
  cases hs with
  | @fork c nr pid t s₁ r ht halive hnr hfree hrun =>
    rcases copyProcess_spec h pid ht hnr hfree with ⟨m, hrun', hun, _⟩ | ⟨s₂, hrun', hf, _⟩
    · rw [hrun', Except.ok.injEq, Prod.mk.injEq] at hrun
      obtain ⟨rfl, _⟩ := hrun
      have hsound : Sound { s with pages := m } := by
        apply h.setPages hun.counted hun.only.lost
        intro d p hd
        by_cases hrow : rows (16 * nr.val) (tablesFor t.dataLimit) (d, 0)
        · rw [hun.gone d hrow] at hd
          cases hd
        · exact h.covered d p (by rw [← hun.only.table fun _ => hrow]; exact hd)
      exact ⟨(hsound.enter c).enter nr, Or.inl hun.only.lost⟩
    · rw [hrun', Except.ok.injEq, Prod.mk.injEq] at hrun
      obtain ⟨rfl, _⟩ := hrun
      exact ⟨(hf.sound.enter c).enter nr, Or.inl hf.only.lost⟩
  | beginExit ht _ hrun =>
    obtain ⟨hs, hon, _⟩ := h.beginExit ht hrun
    exact ⟨hs, Or.inl hon.lost⟩
  | close ht _ hrun => exact hcalm (h.sysClose ht hrun)
  | endExit ht hphase _ hrun => exact hcalm (h.endExit ht hphase hrun)
  | wait _ _ hu _ hphase hrun =>
    apply hcalm (h.release hu _ hrun)
    rw [hphase]
    rintro ⟨⟩
  | @noPage c t a _ ht halive ha hwalk hrun =>
    obtain ⟨m, hans⟩ := h.noPage ht halive ha hwalk hrun
    refine (hans.sound_after ht).imp id (Or.imp id ?_)
    rintro ⟨hfree, htable⟩
    refine ⟨hfree, ?_⟩
    intro u hu
    obtain rfl := Option.some.inj (ht.symm.trans hu)
    exact htable
  | wpPage ht _ ha hwalk hw hrun =>
    obtain ⟨m, hans⟩ := h.wpPage ht ha hwalk hw hrun
    exact (hans.sound_after ht).imp id (Or.imp id False.elim)
  | pipe ht _ hk => exact hcalm (h.sysPipe ht hk)
  | enter => exact ⟨h.enter _, Or.inl rfl⟩
  | @verify c t addr size m _ _ hrun =>
    have hans := h.verifyKilled (c := c) (t := t) hrun rfl
    exact ⟨⟨hans.sound.counted, hans.sound.placed, hans.sound.covered, hans.sound.unused⟩,
      hans.lost.imp id False.elim⟩
  | verifyKilled ht _ hrun hset => exact ((h.verifyKilled hrun hset).sound_after ht).imp id (Or.imp id False.elim)
  | @store c t a b p ht _ ha hwalk hw =>
    obtain ⟨q, hc, hon, _, _, htable, _⟩ := h.store (b := b) ht htame ha hwalk (h.open_of_writable ht htame ha hwalk hw)
    exact ⟨h.setPages hc hon.lost fun d p hd => h.covered d p (by rw [← htable]; exact hd), Or.inl hon.lost⟩
  | @kernelStore c t a b p ht _ ha hwalk =>
    obtain ⟨q, hc, hon, _, _, htable, _⟩ := h.store (b := b) ht htame.1 ha hwalk (htame.2 t ht)
    exact ⟨h.setPages hc hon.lost fun d p hd => h.covered d p (by rw [← htable]; exact hd), Or.inl hon.lost⟩

end Machine

end Devos.Mm
