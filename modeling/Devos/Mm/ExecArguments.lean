import Devos.Mm.Unsharing
import Devos.Fs.ExecArgs

/-! `fs/exec.c`, `count` and `copy_strings` over the pages of memory: the reads through `%fs` may take page faults, and
the copies go to pages that are in no table. -/

namespace Devos.Mm

open Longs RefCount Machine Pages
open Fs (pageSize maxArgPages subU)

namespace Task

variable (t : Task)

/-- A byte of the data segment. The access is made again after a page fault. It is `none` where the call does not come
back: from the limit on, and when there is no memory for the page. -/
def getFsByte (a : ℕ) (m : Pages) : Option (Pages × Byte) :=
  if t.dataLimit ≤ a then none
  else
    match m.walk (t.place a) with
    | some p => some (m, m.mem p (a % pageSize))
    | none =>
      match m.doNoPage (t.place a).1 (t.place a).2 with
      | (m, true) => (m.walk (t.place a)).map fun p => (m, m.mem p (a % pageSize))
      | (_, false) => none

/-- `n` bytes as a number, the lowest first. -/
def getFsBytes : ℕ → ℕ → Pages → Option (Pages × ℕ)
  | 0, _, m => some (m, 0)
  | n + 1, a, m => (t.getFsByte a m).bind fun (m, b) =>
    (getFsBytes n (a + 1) m).map fun (m, v) => (m, b.toNat + 256 * v)

def getFsLong (a : ℕ) (m : Pages) : Option (Pages × ℕ) := t.getFsBytes 4 a m

/-- The loop of `count`, which the limit of the segment ends. -/
def countFrom : ℕ → ℕ → Pages → Option (Pages × ℕ)
  | 0, _, _ => none
  | n + 1, a, m => (t.getFsLong a m).bind fun (m, v) =>
    if v = 0 then some (m, 0) else (countFrom n (a + 4) m).map fun (m, i) => (m, i + 1)

def count (argv : ℕ) (m : Pages) : Option (Pages × ℕ) :=
  if argv = 0 then some (m, 0) else t.countFrom t.dataLimit argv m

/-- `do { len++; } while (get_fs_byte(tmp++))` -/
def lengthFrom : ℕ → ℕ → Pages → Option (Pages × ℕ)
  | 0, _, _ => none
  | n + 1, a, m => (t.getFsByte a m).bind fun (m, b) =>
    if b = 0 then some (m, 1) else (lengthFrom n (a + 1) m).map fun (m, len) => (m, len + 1)

end Task

/-- The memory and `page`. -/
structure ArgPool where
  pages : Pages
  page : Fin maxArgPages → Option ℕ

namespace ArgPool

/-- Pages from `i` on, up to one that is there already or to the last of `n`; `false` when no page is free. -/
def take : ℕ → ℕ → ArgPool → ArgPool × Bool
  | 0, _, s => (s, true)
  | n + 1, i, s =>
    if (s.page (Fin.ofNat maxArgPages i)).isSome then (s, true)
    else
      match s.pages.getFreePage with
      | none => (s, false)
      | some (p, m) => take n (i + 1) ⟨m, Function.update s.page (Fin.ofNat maxArgPages i) (some p)⟩

/-- A byte at `p` of the pages; without a page there the kernel panics. -/
def putByte (p : ℕ) (b : Byte) (s : ArgPool) : Option ArgPool :=
  if maxArgPages ≤ p / pageSize then none
  else (s.page (Fin.ofNat maxArgPages (p / pageSize))).map fun q =>
    { s with pages.mem := Function.update s.pages.mem q (Function.update (s.pages.mem q) (p % pageSize) b) }

variable (t : Task)

/-- The loop that copies the `n` bytes from `tmp` on to the place below `p`, the last one first. -/
def copyBytes (tmp : ℕ) : ℕ → ℕ → ArgPool → Option ArgPool
  | 0, _, s => some s
  | n + 1, p, s => (t.getFsByte (tmp + n) s.pages).bind fun (m, b) =>
    ({ s with pages := m }.putByte (subU p 1) b).bind (copyBytes tmp n (subU p 1))

/-- The `len` bytes from `tmp` on, which begin in the page `i`; no place for the next string without a page. -/
def copyFrom (tmp len i p : ℕ) (s : ArgPool) : Option (ArgPool × Option ℕ) :=
  match s.take (maxArgPages - i) i with
  | (s, false) => some (s, none)
  | (s, true) => (s.copyBytes t tmp len p).map (·, some (subU p len))

/-- A turn of the loop of `copy_strings`, for the string at `tmp`. The test for `p-len < 0` is left out, since no
unsigned number is. -/
def copyString (tmp p : ℕ) (s : ArgPool) : Option (ArgPool × Option ℕ) :=
  if tmp = 0 then none
  else (t.lengthFrom t.dataLimit tmp s.pages).bind fun (m, len) =>
    { s with pages := m }.copyFrom t tmp len (subU p len / pageSize) p

def copyStrings (argv : ℕ) : ℕ → ℕ → ArgPool → Option (ArgPool × ℕ)
  | 0, p, s => some (s, p)
  | argc + 1, p, s => (t.getFsLong (argv + 4 * argc) s.pages).bind fun (m, tmp) =>
    ({ s with pages := m }.copyString t tmp p).bind fun (s, p) => p.elim (some (s, 0)) (copyStrings argv argc · s)

/-- `for (i=0 ; i<MAX_ARG_PAGES ; i++) free_page(page[i]);` -/
def freeAll (s : ArgPool) : Except Fault Pages :=
  Loops.forLoopE (fun i => freePage ((s.page (Fin.ofNat maxArgPages i)).getD 0)) s.pages maxArgPages

end ArgPool

/-- The bytes at a place, which are zeros as long as there is no page. -/
def Pages.look (m : Pages) (x : Place) : ℕ → Byte := (m.walk x).elim (fun _ => 0) m.mem

/-- What is in the tables stays there, and what the processes can read stays as it is, but in the page directory. New
tables are for the directory entries in `R`. -/
structure Undisturbed (R : Fin 1024 → Prop) (m m' : Pages) : Prop where
  entries : ∀ x : Place, 16 ≤ x.1.val → ∀ w, m.mapping x = some w → present w → m'.mapping x = some w
  looks : ∀ x : Place, 16 ≤ x.1.val → m.walk x ≠ some 0 → m'.walk x ≠ some 0 ∧ m'.look x = m.look x
  low : ∀ p, p ≠ 0 → p < lowMem → m'.mem p = m.mem p
  tables : ∀ d p, m'.table d = some p → m.table d = some p ∨ R d
  lost : m'.lost = m.lost

section Reading

variable {R : Fin 1024 → Prop} {m m' m'' : Pages} {D : Place → Prop} {own : ℕ → ℕ} {d e : Fin 1024}

lemma Undisturbed.refl (m : Pages) : Undisturbed R m m :=
  ⟨fun _ _ _ hw _ => hw, fun _ _ hx => ⟨hx, rfl⟩, fun _ _ _ => rfl, fun _ _ hd => Or.inl hd, rfl⟩

lemma Undisturbed.trans (h : Undisturbed R m m') (h' : Undisturbed R m' m'') : Undisturbed R m m'' := by
  constructor
  · exact fun x hx w hw hp => h'.entries x hx w (h.entries x hx w hw hp) hp
  · intro x hx hne
    obtain ⟨hne', hlook⟩ := h.looks x hx hne
    obtain ⟨hne'', hlook'⟩ := h'.looks x hx hne'
    exact ⟨hne'', hlook'.trans hlook⟩
  · exact fun p hp hlo => (h'.low p hp hlo).trans (h.low p hp hlo)
  · intro d p hd
    rcases h'.tables d p hd with hd' | hR
    · exact h.tables d p hd'
    · exact Or.inr hR
  · exact h'.lost.trans h.lost

/-- Only places change that had no page, and they get zeros. -/
lemma Pages.Only.undisturbed (h : Only D nowhere m m') (hR : ∀ d e, D (d, e) → R d)
    (hD : ∀ x, D x → m.mapped x = none ∧ ∃ p, m'.mapped x = some p ∧ lowMem ≤ p ∧ ∀ o, m'.mem p o = 0) :
    Undisturbed R m m' := by
  constructor
  · intro x hx w hw hp
    rw [mapping_eq hx] at hw ⊢
    obtain ⟨t, ht, hl⟩ := Option.map_eq_some_iff.mp hw
    have hout : ¬D x := by
      intro hDx
      have hnone := (hD x hDx).1
      rw [mapped_of_table ht, link, hl, if_pos hp] at hnone
      cases hnone
    obtain ⟨ht', hl'⟩ := h.words x t hout id ht
    rw [ht', Option.map_some, hl', hl]
  · intro x hx hne
    rw [look, look, walk_eq_mapped hx, walk_eq_mapped hx] at *
    by_cases hDx : D x
    · obtain ⟨hnone, p, hp, hlo, hzero⟩ := hD x hDx
      rw [hp, hnone]
      refine ⟨?_, funext hzero⟩
      rintro ⟨⟩
      exact absurd hlo (by decide)
    · rw [h.mapped x hDx]
      refine ⟨hne, ?_⟩
      cases hp : m.mapped x with
      | none => rfl
      | some p =>
        have hzero : p ≠ 0 := by
          rintro rfl
          exact hne hp
        by_cases hlo : lowMem ≤ p
        · exact h.data x p hDx hp hlo
        · exact h.low p hzero (not_le.mp hlo)
  · exact h.low
  · intro d p hd
    by_cases hRd : R d
    · exact Or.inr hRd
    · rw [h.table fun e hDe => hRd (hR d e hDe)] at hd
      exact Or.inl hd
  · exact h.lost

lemma Pages.Only.undisturbed_nowhere (h : Only nowhere nowhere m m') : Undisturbed R m m' :=
  h.undisturbed (fun _ _ => False.elim) fun _ => False.elim

lemma Pages.Filled.undisturbed (h : Filled own d e m m') (hnone : m.mapped (d, e) = none) (hR : R d) :
    Undisturbed R m m' := by
  apply h.only.undisturbed
  · intro d' e' hD
    obtain rfl : d' = d := congrArg Prod.fst hD
    exact hR
  · intro x hD
    obtain rfl : x = (d, e) := hD
    obtain ⟨_, p, _, hp, hlo, _, hzero⟩ := h.fresh
    exact ⟨hnone, p, hp, hlo, hzero⟩

/-- The directory entries of a segment. -/
def Task.Segment (c : Fin 64) (t : Task) (d : Fin 1024) : Prop := rows (16 * c.val) (tablesFor t.dataLimit) (d, 0)

/-- A read of the caller's memory, with the faults that it takes. -/
def Reads {α : Type} (R : Fin 1024 → Prop) (f : Pages → Option (Pages × α)) : Prop :=
  ∀ (own : ℕ → ℕ) (m m' : Pages) (v : α), Counted own m → f m = some (m', v) → Counted own m' ∧ Undisturbed R m m'

variable {α β : Type} {f : Pages → Option (Pages × α)} {v : α}

lemma Reads.pure (v : α) : Reads R fun m => some (m, v) := by
  intro own m m' v' h hf
  obtain ⟨rfl, _⟩ := Prod.mk.inj (Option.some.inj hf)
  exact ⟨h, .refl m⟩

lemma Reads.none : Reads (α := α) R fun _ => none := by
  rintro own m m' v h ⟨⟩

lemma Reads.bind {g : α → Pages → Option (Pages × β)} (hf : Reads R f) (hg : ∀ v, Reads R (g v)) :
    Reads R fun m => (f m).bind fun r => g r.2 r.1 := by
  intro own m m'' v h hr
  obtain ⟨⟨m', w⟩, hfm, hgm⟩ := Option.bind_eq_some_iff.mp hr
  obtain ⟨hc, hu⟩ := hf own m m' w h hfm
  obtain ⟨hc', hu'⟩ := hg w own m' m'' v hc hgm
  exact ⟨hc', hu.trans hu'⟩

lemma Reads.map (hf : Reads R f) (g : α → β) : Reads R fun m => (f m).map fun r => (r.1, g r.2) := by
  intro own m m' v h hr
  obtain ⟨⟨m₁, w⟩, hfm, heq⟩ := Option.map_eq_some_iff.mp hr
  obtain ⟨rfl, _⟩ := Prod.mk.inj heq
  exact hf own m m₁ w h hfm

lemma Reads.ite {P : Prop} [Decidable P] {g : Pages → Option (Pages × α)} (hf : Reads R f) (hg : Reads R g) :
    Reads R fun m => if P then f m else g m := by
  split_ifs
  · exact hf
  · exact hg

end Reading

section Faults

variable {c : Fin 64} {t : Task} (hp : Placed c t)
include hp

/-- A read leaves a page at its place: the one that was there, or a fresh one. -/
lemma Machine.Placed.getFsByte_cases {own : ℕ → ℕ} {m m' : Pages} {a : ℕ} {b : Byte} (h : Counted own m)
    (hr : t.getFsByte a m = some (m', b)) : a < t.dataLimit ∧ (∃ p, m'.walk (t.place a) = some p) ∧
      (m' = m ∨ m.mapped (t.place a) = none ∧ Filled own (t.place a).1 (t.place a).2 m m') := by
  rw [Task.getFsByte] at hr
  split_ifs at hr with ha
  refine ⟨not_le.mp ha, ?_⟩
  cases hwalk : m.walk (t.place a) with
  | some p =>
    rw [hwalk] at hr
    obtain ⟨rfl, _⟩ := Prod.mk.inj (Option.some.inj hr)
    exact ⟨⟨p, hwalk⟩, Or.inl rfl⟩
  | none =>
    have hhigh : 16 ≤ (t.place a).1.val := by
      rcases place_certain h hp (not_le.mp ha) with hhigh | ⟨p, _, hsome⟩
      · exact hhigh
      · cases hwalk.symm.trans hsome
    have hnone : m.mapped ((t.place a).1, (t.place a).2) = none := by
      rw [Prod.mk.eta, ← walk_eq_mapped hhigh, hwalk]
    rw [hwalk] at hr
    dsimp only at hr
    rcases h.doNoPage hhigh hnone with ⟨m₁, hrun, hf⟩ | ⟨hrun, _⟩ | ⟨m₁, p, hrun, _⟩
    · rw [hrun] at hr
      obtain ⟨p, hwalk', heq⟩ := Option.map_eq_some_iff.mp hr
      obtain ⟨rfl, _⟩ := Prod.mk.inj heq
      exact ⟨⟨p, hwalk'⟩, Or.inr ⟨hnone, hf⟩⟩
    · rw [hrun] at hr
      cases hr
    · rw [hrun] at hr
      cases hr

lemma Machine.Placed.getFsByte (a : ℕ) : Reads (t.Segment c) (t.getFsByte a) := by
  intro own m m' b h hr
  obtain ⟨ha, _, rfl | ⟨hnone, hf⟩⟩ := hp.getFsByte_cases h hr
  · exact ⟨h, .refl _⟩
  · exact ⟨hf.counted, hf.undisturbed hnone (hp.row_place ha).2⟩

lemma Machine.Placed.getFsBytes (n a : ℕ) : Reads (t.Segment c) (t.getFsBytes n a) := by
  induction n generalizing a with
  | zero => exact .pure 0
  | succ n ih => exact (hp.getFsByte a).bind fun b => (ih (a + 1)).map fun v => b.toNat + 256 * v

lemma Machine.Placed.getFsLong (a : ℕ) : Reads (t.Segment c) (t.getFsLong a) := hp.getFsBytes 4 a

lemma Machine.Placed.countFrom (n a : ℕ) : Reads (t.Segment c) (t.countFrom n a) := by
  induction n generalizing a with
  | zero => exact .none
  | succ n ih => exact (hp.getFsLong a).bind fun v => .ite (P := v = 0) (.pure 0) ((ih (a + 4)).map fun i => i + 1)

lemma Machine.Placed.count (argv : ℕ) : Reads (t.Segment c) (t.count argv) :=
  .ite (.pure 0) (hp.countFrom t.dataLimit argv)

lemma Machine.Placed.lengthFrom (n a : ℕ) : Reads (t.Segment c) (t.lengthFrom n a) := by
  induction n generalizing a with
  | zero => exact .none
  | succ n ih => exact (hp.getFsByte a).bind fun b => .ite (P := b = 0) (.pure 1) ((ih (a + 1)).map fun len => len + 1)

end Faults

/-- The owners of pages, with the pages for the arguments. -/
def held (own : ℕ → ℕ) (page : Fin maxArgPages → Option ℕ) (p : ℕ) : ℕ := own p + refs page p

/-- Each page for the arguments is counted for them alone, and the caller sees nothing of it. -/
structure Copying (R : Fin 1024 → Prop) (own : ℕ → ℕ) (m₀ : Pages) (s : ArgPool) : Prop where
  counted : Counted (held own s.page) s.pages
  same : Undisturbed R m₀ s.pages

section Pools

variable {R : Fin 1024 → Prop} {own : ℕ → ℕ} {m₀ m : Pages} {s s' : ArgPool} {page : Fin maxArgPages → Option ℕ}
  {j : Fin maxArgPages} {p q : ℕ}

lemma held_empty (own : ℕ → ℕ) : held own (fun _ => none) = own := by
  funext p
  have hzero : refs (fun _ : Fin maxArgPages => none) p = 0 := refs_eq_zero fun _ => by rintro ⟨⟩
  rw [held, hzero, Nat.add_zero]

lemma held_set (h : page j = none) : held own (Function.update page j (some p)) = add (held own page) p := by
  funext q
  rw [held, refs_set h p q, add, held, Nat.add_assoc]

lemma held_clear (h : page j = some p) : held own page = add (held own (Function.update page j none)) p := by
  funext q
  rw [held, ← refs_clear h q, add, held, Nat.add_assoc]

lemma held_ne_zero (h : page j = some p) : held own page p ≠ 0 := by
  have hpos := refs_pos h
  unfold held
  omega

lemma Copying.read {α : Type} {f : Pages → Option (Pages × α)} {v : α} (h : Copying R own m₀ s) (hf : Reads R f)
    (hr : f s.pages = some (m, v)) : Copying R own m₀ { s with pages := m } := by
  obtain ⟨hc, hu⟩ := hf _ _ _ _ h.counted hr
  exact ⟨hc, h.same.trans hu⟩

lemma Copying.take (h : Copying R own m₀ s) (n i : ℕ) : Copying R own m₀ (s.take n i).1 := by
  induction n generalizing s i with
  | zero => exact h
  | succ n ih =>
    rw [ArgPool.take]
    split_ifs with hsome
    · exact h
    · cases hg : s.pages.getFreePage with
      | none => exact h
      | some r =>
        obtain ⟨p, m⟩ := r
        obtain ⟨hc, hon, _⟩ := h.counted.getFreePage hg
        have hnone := Option.not_isSome_iff_eq_none.mp hsome
        refine ih ⟨?_, h.same.trans hon.undisturbed_nowhere⟩ (i + 1)
        dsimp only
        rw [held_set hnone]
        exact hc

lemma Copying.putByte {b : Byte} (h : Copying R own m₀ s) (hr : s.putByte p b = some s') :
    Copying R own m₀ s' ∧ s'.page = s.page ∧ ∃ j, (s.page j).isSome := by
  rw [ArgPool.putByte] at hr
  split_ifs at hr
  obtain ⟨q, hq, rfl⟩ := Option.map_eq_some_iff.mp hr
  have hheld : held own s.page q ≠ 0 := held_ne_zero hq
  obtain ⟨hlo, _⟩ := h.counted.own_range q hheld
  obtain ⟨hmapped, htable, _⟩ := h.counted.of_own hheld
  obtain ⟨hc, _⟩ := h.counted.touch hlo (fun d => table_ne_of_refs htable)
    (Function.update (s.pages.mem q) (p % pageSize) b)
  refine ⟨⟨hc, h.same.trans (Only.undisturbed_nowhere (Only.of_mem ?_ rfl))⟩, rfl, ⟨_, by rw [hq]; rfl⟩⟩
  intro r hr'
  apply Function.update_of_ne
  rintro rfl
  rcases hr' with hr' | ⟨x, hx⟩ | ⟨d, hd⟩
  · omega
  · exact ne_of_refs hmapped hx
  · exact table_ne_of_refs htable hd

/-- The free pages that are taken stay where they are put. -/
lemma take_grows (n i : ℕ) (h : (s.page j).isSome) : ((s.take n i).1.page j).isSome := by
  induction n generalizing s i with
  | zero => exact h
  | succ n ih =>
    rw [ArgPool.take]
    split_ifs with hsome
    · exact h
    · cases hg : s.pages.getFreePage with
      | none => exact h
      | some r =>
        apply ih (i + 1)
        dsimp only
        by_cases hj : j = Fin.ofNat maxArgPages i
        · rw [hj, Function.update_self]
          rfl
        · rw [Function.update_of_ne hj]
          exact h

/-- What a part of `copy_strings` has done: pages stay, and where it has copied a byte there is one. -/
structure Progress (R : Fin 1024 → Prop) (own : ℕ → ℕ) (m₀ : Pages) (P : Prop) (s s' : ArgPool) : Prop where
  copying : Copying R own m₀ s'
  grows : ∀ j, (s.page j).isSome → (s'.page j).isSome
  taken : P → ∃ j, (s'.page j).isSome

lemma Progress.refl {P : Prop} (h : Copying R own m₀ s) (hP : ¬P) : Progress R own m₀ P s s :=
  ⟨h, fun _ hj => hj, fun hp => absurd hp hP⟩

lemma Progress.trans {P P' P'' : Prop} {s'' : ArgPool} (h : Progress R own m₀ P s s') (h' : Progress R own m₀ P' s' s'')
    (hP : P'' → P ∨ P') : Progress R own m₀ P'' s s'' := by
  refine ⟨h'.copying, fun j hj => h'.grows j (h.grows j hj), fun hp => ?_⟩
  rcases hP hp with hp | hp
  · obtain ⟨j, hj⟩ := h.taken hp
    exact ⟨j, h'.grows j hj⟩
  · exact h'.taken hp

variable {c : Fin 64} {t : Task} {tmp argv : ℕ} (hp : Placed c t)
include hp

lemma Copying.copyBytes {n : ℕ} (h : Copying (t.Segment c) own m₀ s) (hr : s.copyBytes t tmp n p = some s') :
    Progress (t.Segment c) own m₀ (0 < n) s s' := by
  induction n generalizing s p with
  | zero =>
    obtain rfl := Option.some.inj hr
    exact .refl h (lt_irrefl 0)
  | succ n ih =>
    obtain ⟨⟨m, b⟩, hread, hr⟩ := Option.bind_eq_some_iff.mp hr
    obtain ⟨s₁, hput, hr⟩ := Option.bind_eq_some_iff.mp hr
    obtain ⟨h₁, hpage, htaken⟩ := (h.read (hp.getFsByte (tmp + n)) hread).putByte hput
    have hfirst : Progress (t.Segment c) own m₀ True s s₁ := by
      refine ⟨h₁, fun j hj => ?_, fun _ => ?_⟩
      · rw [hpage]
        exact hj
      · rw [hpage]
        exact htaken
    exact hfirst.trans (ih h₁ hr) fun _ => Or.inl trivial

omit hp in
lemma lengthFrom_pos {n a len : ℕ} {m' : Pages} (h : t.lengthFrom n a m = some (m', len)) : 0 < len := by
  cases n with
  | zero => cases h
  | succ n =>
    obtain ⟨⟨m₁, b⟩, _, h⟩ := Option.bind_eq_some_iff.mp h
    dsimp only at h
    split_ifs at h
    · obtain ⟨_, rfl⟩ := Prod.mk.inj (Option.some.inj h)
      exact Nat.one_pos
    · obtain ⟨⟨m₂, k⟩, _, heq⟩ := Option.map_eq_some_iff.mp h
      obtain ⟨_, rfl⟩ := Prod.mk.inj heq
      exact Nat.succ_pos k

lemma Copying.copyFrom {len i : ℕ} {r : Option ℕ} (h : Copying (t.Segment c) own m₀ s) (hlen : 0 < len)
    (hr : s.copyFrom t tmp len i p = some (s', r)) : Progress (t.Segment c) own m₀ r.isSome s s' := by
  rw [ArgPool.copyFrom] at hr
  have h₁ := h.take (maxArgPages - i) i
  have hgrows : ∀ j, (s.page j).isSome → ((s.take (maxArgPages - i) i).1.page j).isSome :=
    fun j hj => take_grows (maxArgPages - i) i hj
  cases htake : s.take (maxArgPages - i) i with
  | mk s₁ b =>
    rw [htake] at hr h₁ hgrows
    cases b with
    | false =>
      obtain ⟨rfl, rfl⟩ := Prod.mk.inj (Option.some.inj hr)
      exact ⟨h₁, hgrows, by rintro ⟨⟩⟩
    | true =>
      obtain ⟨s₂, hcopy, heq⟩ := Option.map_eq_some_iff.mp hr
      obtain ⟨rfl, rfl⟩ := Prod.mk.inj heq
      have htaken : Progress (t.Segment c) own m₀ False s s₁ := ⟨h₁, hgrows, False.elim⟩
      exact htaken.trans (h₁.copyBytes hp hcopy) fun _ => Or.inr hlen

lemma Copying.copyString {r : Option ℕ} (h : Copying (t.Segment c) own m₀ s)
    (hr : s.copyString t tmp p = some (s', r)) : Progress (t.Segment c) own m₀ r.isSome s s' := by
  rw [ArgPool.copyString] at hr
  split_ifs at hr
  obtain ⟨⟨m, len⟩, hread, hr⟩ := Option.bind_eq_some_iff.mp hr
  have hcopied := (h.read (hp.lengthFrom t.dataLimit tmp) hread).copyFrom hp (lengthFrom_pos hread) hr
  exact ⟨hcopied.copying, hcopied.grows, hcopied.taken⟩

lemma Copying.copyStrings {argc p' : ℕ} (h : Copying (t.Segment c) own m₀ s)
    (hr : s.copyStrings t argv argc p = some (s', p')) : Progress (t.Segment c) own m₀ (0 < argc ∧ p' ≠ 0) s s' := by
  induction argc generalizing s p with
  | zero =>
    obtain ⟨rfl, _⟩ := Prod.mk.inj (Option.some.inj hr)
    exact .refl h fun hlt => lt_irrefl 0 hlt.1
  | succ argc ih =>
    obtain ⟨⟨m, tmp⟩, hread, hr⟩ := Option.bind_eq_some_iff.mp hr
    obtain ⟨⟨s₁, r⟩, hstring, hr⟩ := Option.bind_eq_some_iff.mp hr
    have h₁ := (h.read (hp.getFsLong (argv + 4 * argc)) hread).copyString hp hstring
    have hfirst : Progress (t.Segment c) own m₀ r.isSome s s₁ := ⟨h₁.copying, h₁.grows, h₁.taken⟩
    cases r with
    | none =>
      obtain ⟨rfl, rfl⟩ := Prod.mk.inj (Option.some.inj hr)
      exact ⟨h₁.copying, h₁.grows, fun hne => absurd rfl hne.2⟩
    | some p₁ => exact hfirst.trans (ih h₁.copying hr) fun _ => Or.inl rfl

omit hp in
/-- All pages for the arguments are given back. -/
lemma Copying.freeAll (h : Copying R own m₀ s) : ∃ m, s.freeAll = .ok m ∧ Counted own m ∧ Undisturbed R m₀ m := by
  have hloop : ∃ m, s.freeAll = .ok m ∧
      Counted (held own fun j => if j.val < maxArgPages then none else s.page j) m ∧ Undisturbed R m₀ m := by
    apply Loops.forLoopE_induction
      (P := fun i m => Counted (held own fun j => if j.val < i then none else s.page j) m ∧ Undisturbed R m₀ m)
    · exact ⟨h.counted, h.same⟩
    · rintro i m hi ⟨hc, hu⟩
      have hval : (Fin.ofNat maxArgPages i).val = i := Nat.mod_eq_of_lt hi
      have hnext : (fun j : Fin maxArgPages => if j.val < i + 1 then none else s.page j) =
          Function.update (fun j : Fin maxArgPages => if j.val < i then none else s.page j)
            (Fin.ofNat maxArgPages i) none := by
        funext j
        by_cases hj : j = Fin.ofNat maxArgPages i
        · rw [hj, Function.update_self, if_pos (by omega)]
        · have hne : j.val ≠ i := fun hv => hj (Fin.ext (hv.trans hval.symm))
          rw [Function.update_of_ne hj]
          by_cases hlt : j.val < i
          · rw [if_pos hlt, if_pos (by omega)]
          · rw [if_neg hlt, if_neg (by omega)]
      have hat : (fun j : Fin maxArgPages => if j.val < i then none else s.page j) (Fin.ofNat maxArgPages i) =
          s.page (Fin.ofNat maxArgPages i) := if_neg (by omega)
      rw [hnext]
      cases hpage : s.page (Fin.ofNat maxArgPages i) with
      | none =>
        have hkeep := Function.update_eq_self (Fin.ofNat maxArgPages i)
          (fun j : Fin maxArgPages => if j.val < i then none else s.page j)
        dsimp only at hat hkeep
        rw [hat, hpage] at hkeep
        rw [hkeep]
        exact ⟨m, if_pos (by decide), hc, hu⟩
      | some p =>
        rw [hpage] at hat
        rw [held_clear hat] at hc
        obtain ⟨m', hfree, hc', hon⟩ := hc.freePage_own
        exact ⟨m', hfree, hc', hu.trans hon.undisturbed_nowhere⟩
  obtain ⟨m, hm, hc, hu⟩ := hloop
  have hall : (fun j : Fin maxArgPages => if j.val < maxArgPages then none else s.page j) = fun _ => none :=
    funext fun j => if_pos j.isLt
  rw [hall, held_empty] at hc
  exact ⟨m, hm, hc, hu⟩

end Pools

end Devos.Mm
