import Devos.Mm.Isolation

/-! What `verify_area` does to the pages that it comes to, and to no others. -/

namespace Devos.Mm

open Longs RefCount Machine

namespace Pages

/-- What the tables have for a place: nothing without a table, else the entry. -/
def mapping (m : Pages) (x : Place) : Option ℕ := if present (long m.mem 0 x.1) then some (m.entry x) else none

/-- The test of `write_verify`: there is a page, and it cannot be written. -/
def ReadOnly (m : Pages) (x : Place) : Prop :=
  present (long m.mem 0 x.1) ∧ present (m.entry x) ∧ ¬writable (m.entry x)

instance (m : Pages) (x : Place) : Decidable (m.ReadOnly x) := inferInstanceAs (Decidable (_ ∧ _ ∧ _))

/-- The byte that is read at a place. -/
def byteAt (m : Pages) (x : Place) (o : ℕ) : Option Byte := (m.walk x).map fun p => m.mem p o

/-- The places that the loop comes to and finds read-only. -/
def readOnlyTurns (m : Pages) (n start : ℕ) : ℕ :=
  (List.range n).countP fun k => m.ReadOnly (placeOf (start + 4096 * k))

/-- What `write_verify` of a place has done, or a run of it. -/
structure Kept (own : ℕ → ℕ) (W : Place → Prop) (m m' : Pages) : Prop where
  counted : Counted own m'
  walks : ∀ x, (m'.walk x).isSome = (m.walk x).isSome
  opened : ∀ x, W x → ¬m'.ReadOnly x
  kept : ∀ x, ¬m.ReadOnly x → ¬m'.ReadOnly x
  mapping : ∀ x, ¬(W x ∧ m.ReadOnly x) → m'.mapping x = m.mapping x
  bytes : ∀ x o, (16 ≤ x.1.val ∨ ∃ p < lowMem, m.walk x = some p) → m'.byteAt x o = m.byteAt x o

section Steps

variable {m m' m'' : Pages} {own : ℕ → ℕ} {W W' : Place → Prop} {x : Place} {d e : Fin 1024} {t p q n start : ℕ}

lemma readOnly_iff : m.ReadOnly x ↔ ∃ w, m.mapping x = some w ∧ present w ∧ ¬writable w := by
  unfold ReadOnly mapping
  split_ifs with h <;> simp [h]

lemma readOnly_congr (h : m'.mapping x = m.mapping x) : m'.ReadOnly x ↔ m.ReadOnly x := by
  rw [readOnly_iff, readOnly_iff, h]

lemma mapping_eq (hx : 16 ≤ x.1.val) : m.mapping x = (m.table x.1).map fun t => long m.mem t x.2 := by
  rw [link_of_table hx, link, mapping, entry]
  split_ifs <;> rfl

/-- The kernel's part of the tables is the same in all states. -/
lemma Counted.mapping_kernel (h : Counted own m) (hx : x.1.val < 16) :
    m.mapping x = if x.1.val < 2 then some (full (1024 * x.1.val + x.2.val)) else none := by
  have hk := h.kernel x.1 hx
  rw [mapping, entry, hk]
  by_cases hlow : x.1.val < 2
  · rw [if_pos hlow, if_pos (present_full _), if_pos hlow, frame_full, h.kernel_map x.1 hlow x.2 x.2.isLt]
  · rw [if_neg hlow, if_neg hlow, if_neg (by decide)]

lemma Counted.readOnly_high (h : Counted own m) (hx : m.ReadOnly x) : 16 ≤ x.1.val := by
  by_contra hlow
  obtain ⟨w, hw, _, hno⟩ := readOnly_iff.mp hx
  rw [h.mapping_kernel (not_le.mp hlow)] at hw
  split_ifs at hw
  exact hno (Option.some.inj hw ▸ writable_full _)

lemma walk_eq (m : Pages) (x : Place) :
    m.walk x = (m.mapping x).bind fun w => if present w then some (frame w) else none := by
  rw [walk, link, mapping, entry]
  split_ifs <;> rfl

lemma Counted.walk_kernel (h : Counted own m) (h' : Counted own m') (hx : x.1.val < 16) : m'.walk x = m.walk x := by
  rw [walk_eq, walk_eq, h.mapping_kernel hx, h'.mapping_kernel hx]

lemma Kept.refl (h : Counted own m) (hW : ∀ x, W x → ¬m.ReadOnly x) : Kept own W m m :=
  ⟨h, fun _ => rfl, hW, fun _ hx => hx, fun _ _ => rfl, fun _ _ _ => rfl⟩

lemma Kept.trans (hm : Counted own m) (h : Kept own W m m') (h' : Kept own W' m' m'') :
    Kept own (fun x => W x ∨ W' x) m m'' := by
  refine ⟨h'.counted, fun x => (h'.walks x).trans (h.walks x), ?_, fun x hx => h'.kept x (h.kept x hx), ?_, ?_⟩
  · rintro x (hx | hx)
    · exact h'.kept x (h.opened x hx)
    · exact h'.opened x hx
  · intro x hx
    have hfirst : ¬(W x ∧ m.ReadOnly x) := fun hw => hx ⟨Or.inl hw.1, hw.2⟩
    have hsecond : ¬(W' x ∧ m'.ReadOnly x) := by
      rintro ⟨hw, hro⟩
      exact hx ⟨Or.inr hw, by_contra fun hno => h.kept x hno hro⟩
    exact (h'.mapping x hsecond).trans (h.mapping x hfirst)
  · intro x o hx
    refine (h'.bytes x o ?_).trans (h.bytes x o hx)
    by_cases hhigh : 16 ≤ x.1.val
    · exact Or.inl hhigh
    · rw [hm.walk_kernel h.counted (not_le.mp hhigh)]
      exact hx

/-- The pages of the kernel stay as they are. -/
lemma unWpPage_low (ht : lowMem ≤ t) (hq : q < lowMem) (e : ℕ) (m : Pages) : (m.unWpPage t e).1.mem q = m.mem q := by
  have hqt : q ≠ t := by omega
  rw [Pages.unWpPage]
  dsimp only
  by_cases halone : lowMem ≤ frame (long m.mem t e) ∧ m.memMap (frame (long m.mem t e)) = 1
  · rw [if_pos halone]
    exact setLong_of_ne hqt
  · rw [if_neg halone]
    cases hg : m.getFreePage with
    | none => rfl
    | some r =>
      obtain ⟨p, m₁⟩ := r
      obtain ⟨hlo, _, _, rfl⟩ := getFreePage_eq_some hg
      have hqp : q ≠ p := by omega
      have hset : ∀ m₂ : Pages, m₂.mem q = m.mem q →
          ((m₂.setEntry t e (full p)).copyPage (frame (long m.mem t e)) p).mem q = m.mem q := by
        intro m₂ hm₂
        unfold copyPage setEntry
        dsimp only
        rw [Function.update_of_ne hqp, setLong_of_ne hqt, hm₂]
      apply hset
      split_ifs <;> exact Function.update_of_ne hqp _ _

/-- It takes one free page at most. -/
lemma unWpPage_free (e : ℕ) (hcount : lowMem ≤ frame (long m.mem t e) → m.memMap (frame (long m.mem t e)) ≠ 0) :
    m.free ≤ (m.unWpPage t e).1.free + 1 := by
  rw [Pages.unWpPage]
  dsimp only
  generalize frame (long m.mem t e) = old at *
  by_cases halone : lowMem ≤ old ∧ m.memMap old = 1
  · rw [if_pos halone]
    exact Nat.le_succ _
  · rw [if_neg halone]
    cases hg : m.getFreePage with
    | none => exact Nat.le_succ _
    | some r =>
      obtain ⟨p, m₁⟩ := r
      have hfree := free_getFreePage hg
      obtain ⟨_, _, hp, rfl⟩ := getFreePage_eq_some hg
      dsimp only at hfree ⊢
      rw [← hfree]
      apply le_of_eq
      refine congrArg (· + 1) (free_congr fun r => ?_).symm
      split_ifs with hlo
      · have hused := hcount hlo
        have hold : old ≠ p := by
          rintro rfl
          exact hused hp
        have htwo : m.memMap old ≠ 1 := fun hone => halone ⟨hlo, hone⟩
        change Function.update (Function.update m.memMap p 1) old (Function.update m.memMap p 1 old - 1) r = 0 ↔
          Function.update m.memMap p 1 r = 0
        by_cases hr : r = old
        · rw [hr, Function.update_self, Function.update_of_ne hold]
          omega
        · rw [Function.update_of_ne hr]
      · exact Iff.rfl

/-- At a place that is read-only `write_verify` is `un_wp_page`, and at any other it does nothing. -/
lemma writeVerify_eq (d e : Fin 1024) : m.writeVerify d e =
    if m.ReadOnly (d, e) then m.unWpPage (frame (long m.mem 0 d)) e else (m, true) := by
  rw [Pages.writeVerify]
  by_cases hpr : present (long m.mem 0 d)
  · rw [if_pos hpr]
    dsimp only
    by_cases hro : present (long m.mem (frame (long m.mem 0 d)) e) ∧ ¬writable (long m.mem (frame (long m.mem 0 d)) e)
    · rw [if_pos hro, if_pos ⟨hpr, hro⟩]
    · rw [if_neg hro, if_neg fun h => hro h.2]
  · rw [if_neg hpr, if_neg fun h => hpr h.1]

/-- A place that has got a page of its own. -/
lemma Unshared.kept (h : Counted own m) (hun : Unshared own d e q m m') (hd : 16 ≤ d.val) (hq : m.mapped (d, e) = some q)
    (hro : m.ReadOnly (d, e)) (hlow : ∀ q < lowMem, m'.mem q = m.mem q) : Kept own (· = (d, e)) m m' := by
  obtain ⟨t, p, ht, hp, hlo, hw, hmem⟩ := hun.same
  have hclosed : ¬m'.ReadOnly (d, e) := by
    intro hro
    obtain ⟨w, hmap, _, hno⟩ := readOnly_iff.mp hro
    rw [mapping_eq hd, ht] at hmap
    exact hno (Option.some.inj hmap ▸ hw)
  have hother : ∀ x, x ≠ (d, e) → m'.mapping x = m.mapping x := by
    intro x hx
    by_cases hhigh : 16 ≤ x.1.val
    · rw [mapping_eq hhigh, mapping_eq hhigh]
      cases hu : m.table x.1 with
      | none =>
        rw [hun.tables, hu]
        rfl
      | some u =>
        obtain ⟨hu', hlong⟩ := hun.only.words x u hx id hu
        rw [hu', Option.map_some, Option.map_some, hlong]
    · rw [h.mapping_kernel (not_le.mp hhigh), hun.counted.mapping_kernel (not_le.mp hhigh)]
  have hwalk : m.walk (d, e) = some q ∧ m'.walk (d, e) = some p := by
    rw [walk_eq_mapped hd, walk_eq_mapped hd]
    exact ⟨hq, hp⟩
  refine ⟨hun.counted, ?_, ?_, ?_, ?_, ?_⟩
  · intro x
    by_cases hxe : x = (d, e)
    · rw [hxe, hwalk.1, hwalk.2]
      rfl
    · rw [walk_eq, walk_eq, hother x hxe]
  · rintro x rfl
    exact hclosed
  · intro x hx
    by_cases hxe : x = (d, e)
    · rw [hxe]
      exact hclosed
    · rwa [readOnly_congr (hother x hxe)]
  · intro x hx
    exact hother x fun hxe => hx ⟨hxe, hxe ▸ hro⟩
  · intro x o hx
    by_cases hxe : x = (d, e)
    · rw [hxe, byteAt, byteAt, hwalk.1, hwalk.2, Option.map_some, Option.map_some, hmem]
    · have hsame : m'.walk x = m.walk x := by rw [walk_eq, walk_eq, hother x hxe]
      rw [byteAt, byteAt, hsame]
      cases hr : m.walk x with
      | none => rfl
      | some r =>
        have hpage : m'.mem r = m.mem r := by
          by_cases hrlow : r < lowMem
          · exact hlow r hrlow
          · rcases hx with hhigh | ⟨r', hr', hwalk'⟩
            · exact hun.only.data x r hxe (by rw [← walk_eq_mapped hhigh, hr]) (not_lt.mp hrlow)
            · rw [hr] at hwalk'
              exact absurd (Option.some.inj hwalk' ▸ hr') hrlow
        rw [Option.map_some, Option.map_some, hpage]

/-- `write_verify` of a place that is read-only, unless there is no page left. -/
lemma Counted.writeVerify_kept (h : Counted own m) (d e : Fin 1024) :
    (∃ m', m.writeVerify d e = (m', true) ∧ Kept own (· = (d, e)) m m' ∧
      m.free ≤ m'.free + if m.ReadOnly (d, e) then 1 else 0) ∨
    m.writeVerify d e = (m, false) ∧ m.ReadOnly (d, e) ∧ m.free = 0 := by
  rw [writeVerify_eq]
  by_cases hro : m.ReadOnly (d, e)
  · have hd := h.readOnly_high hro
    have ht : m.table d = some (frame (long m.mem 0 d)) := by
      rw [link_of_table hd, link, if_pos hro.1]
    have hq : m.link (frame (long m.mem 0 d)) e = some (frame (long m.mem (frame (long m.mem 0 d)) e)) := if_pos hro.2.1
    have hx : m.mapped (d, e) = some (frame (long m.mem (frame (long m.mem 0 d)) e)) := by rw [mapped_of_table ht, hq]
    rw [if_pos hro, if_pos hro]
    rcases h.unWpPage ht hq with ⟨m', hrun, hun⟩ | ⟨hrun, hfree⟩
    · have hlow : ∀ q < lowMem, m'.mem q = m.mem q := by
        intro q hq'
        have hkeep := unWpPage_low (h.table_range d _ ht).1 hq' e m
        rwa [hrun] at hkeep
      have hfree := unWpPage_free (m := m) (t := frame (long m.mem 0 d)) e fun hlo => ne_of_gt (h.pos hx hlo)
      rw [hrun] at hfree
      exact Or.inl ⟨m', hrun, hun.kept h hd hx hro hlow, hfree⟩
    · exact Or.inr ⟨hrun, hro, hfree⟩
  · rw [if_neg hro, if_neg hro]
    refine Or.inl ⟨m, rfl, .refl h ?_, Nat.le_add_right _ _⟩
    rintro x rfl
    exact hro

lemma readOnlyTurns_succ (m : Pages) (n start : ℕ) : m.readOnlyTurns (n + 1) start =
    m.readOnlyTurns n (start + 4096) + if m.ReadOnly (placeOf start) then 1 else 0 := by
  have hshift : ∀ k, start + 4096 * (k + 1) = start + 4096 + 4096 * k := by omega
  rw [readOnlyTurns, List.range_succ_eq_map, List.countP_cons, List.countP_map]
  simp only [Function.comp_def, hshift, Nat.mul_zero, Nat.add_zero, decide_eq_true_eq, Nat.succ_eq_add_one]
  rfl

lemma readOnlyTurns_mono (h : ∀ x, ¬m.ReadOnly x → ¬m'.ReadOnly x) (n start : ℕ) :
    m'.readOnlyTurns n start ≤ m.readOnlyTurns n start := by
  apply List.countP_mono_left
  intro k _ hk
  rw [decide_eq_true_eq] at hk ⊢
  by_contra hno
  exact h _ hno hk

/-- The loop of `verify_area`, which comes back if there is a free page for each place that it finds read-only. -/
lemma Counted.verifyFrom_kept (h : Counted own m) (n start : ℕ) :
    (m.readOnlyTurns n start ≤ m.free → (m.verifyFrom n start).2 = true) ∧
      ((m.verifyFrom n start).2 = true →
        Kept own (fun x => ∃ k < n, placeOf (start + 4096 * k) = x) m (m.verifyFrom n start).1) := by
  induction n generalizing m start with
  | zero =>
    refine ⟨fun _ => rfl, fun _ => .refl h ?_⟩
    rintro x ⟨k, hk, _⟩
    exact absurd hk (Nat.not_lt_zero k)
  | succ n ih =>
    rw [readOnlyTurns_succ]
    rcases h.writeVerify_kept (placeOf start).1 (placeOf start).2 with ⟨m₁, hw, hk, hfree⟩ | ⟨hw, hro, hfree⟩
    · have hrun : m.verifyFrom (n + 1) start = m₁.verifyFrom n (start + 4096) := by rw [Pages.verifyFrom, hw]
      have hmono := readOnlyTurns_mono hk.kept n (start + 4096)
      obtain ⟨hback, hkept⟩ := ih hk.counted (start + 4096)
      rw [hrun]
      refine ⟨fun hle => hback ?_, fun hend => ?_⟩
      · rw [Prod.mk.eta] at hfree
        omega
      · have hW : (fun x => ∃ k < n + 1, placeOf (start + 4096 * k) = x) =
            fun x => x = placeOf start ∨ ∃ k < n, placeOf (start + 4096 + 4096 * k) = x := by
          funext x
          rw [eq_iff_iff]
          constructor
          · rintro ⟨k, hk, rfl⟩
            cases k with
            | zero => exact Or.inl rfl
            | succ k => exact Or.inr ⟨k, by omega, congrArg placeOf (by omega)⟩
          · rintro (rfl | ⟨k, hk, rfl⟩)
            · exact ⟨0, Nat.succ_pos n, rfl⟩
            · exact ⟨k + 1, by omega, congrArg placeOf (by omega)⟩
        rw [hW]
        exact hk.trans h (hkept hend)
    · rw [Pages.verifyFrom, hw]
      refine ⟨fun hle => ?_, fun hend => by cases hend⟩
      rw [Prod.mk.eta] at hro
      rw [if_pos hro] at hle
      omega

end Steps

/-- The addresses of the area that are in the data segment. -/
def InArea (t : Task) (addr : ℕ) (size : ℤ) (a : ℕ) : Prop := addr ≤ a ∧ (a : ℤ) < addr + size ∧ a < t.dataLimit

/-- The area can be written, by its process alone where it could not be written before; nothing else is different. -/
structure Unshares (i : Fin 64) (t : Task) (addr : ℕ) (size : ℤ) (m m' : Pages) : Prop where
  writable : ∀ a, InArea t addr size a → ¬m'.ReadOnly (t.place a)
  alone : ∀ a, InArea t addr size a → m.ReadOnly (t.place a) → ∀ p, m'.walk (t.place a) = some p → lowMem ≤ p →
    ∀ y, m'.mapped y = some p → y = t.place a
  contents : ∀ a < t.dataLimit, m'.byteAt (t.place a) (a % 4096) = m.byteAt (t.place a) (a % 4096)
  others : ∀ x : Place, x.1.val / 16 ≠ i.val → m'.mapping x = m.mapping x

/-- The sum of `size` and the offset in the page is an `int`, and no page of another process is read-only that the
addresses come to, those past the segment as well; or it is not, and no page of the area is read-only. -/
def Confined (i : Fin 64) (t : Task) (addr : ℕ) (size : ℤ) (m : Pages) : Prop :=
  if size + (addr % 4096 : ℕ) < 2 ^ 31 then
    ∀ a, addr ≤ a → (a : ℤ) < addr + size → (t.place a).1.val / 16 ≠ i.val → ¬m.ReadOnly (t.place a)
  else ∀ a, InArea t addr size a → ¬m.ReadOnly (t.place a)

section Areas

variable {m : Pages} {own : ℕ → ℕ} {i : Fin 64} {t : Task} {addr a : ℕ} {size : ℤ}

lemma areaTurns_overflow (hsize : size < 2 ^ 31) (h : ¬size + (addr % 4096 : ℕ) < 2 ^ 31) : areaTurns addr size = 0 := by
  have hmod : Int.bmod (size + (addr % 4096 : ℕ)) (2 ^ 32) = size + (addr % 4096 : ℕ) - 2 ^ 32 := by
    have hoff : addr % 4096 < 4096 := Nat.mod_lt _ (by decide)
    rw [Int.bmod_def, Int.emod_eq_of_lt (by omega) (by omega), if_neg (by omega)]
    rfl
  rw [areaTurns, hmod]
  omega

/-- Each turn of the loop is for an address. -/
lemma turn_within (hbase : t.dataBase % 4096 = 0) (hsize : 0 < size) (hint : size + (addr % 4096 : ℕ) < 2 ^ 31) (k : ℕ)
    (hk : k < areaTurns addr size) :
    ∃ a, addr ≤ a ∧ (a : ℤ) < addr + size ∧ placeOf (addr / 4096 * 4096 + t.dataBase + 4096 * k) = t.place a := by
  have hmod : Int.bmod (size + (addr % 4096 : ℕ)) (2 ^ 32) = size + (addr % 4096 : ℕ) :=
    Int.bmod_eq_of_le_mul_two (by omega) (by omega)
  rw [areaTurns, hmod] at hk
  by_cases hfirst : k = 0
  · exact ⟨addr, le_refl _, by omega, placeOf_congr (by omega)⟩
  · refine ⟨addr / 4096 * 4096 + 4096 * k, by omega, by omega, placeOf_congr (by omega)⟩

/-- The pages of a data segment are in the tables of its process, or are the kernel's. -/
lemma place_certain (h : Counted own m) (hp : Placed i t) (ha : a < t.dataLimit) :
    16 ≤ (t.place a).1.val ∨ ∃ p < lowMem, m.walk (t.place a) = some p := by
  by_cases hi : i = 0
  · subst hi
    have hrow := (hp.row_place ha).1
    rw [hp.first rfl] at ha
    rw [Fin.val_zero] at hrow
    have hsnd : (t.place a).2.val = a / 4096 := by
      have hval : (t.place a).2.val = (t.dataBase + a) / 2 ^ 12 % 1024 := rfl
      rw [hval, hp.dataBase, Fin.val_zero]
      omega
    refine Or.inr ⟨a / 4096, by dsimp only [lowMem]; omega, ?_⟩
    rw [walk_eq, h.mapping_kernel (by omega), if_pos (by omega), Option.bind_some, if_pos (present_full _), frame_full,
      hsnd]
    exact congrArg some (by omega)
  · exact Or.inl (hp.high hi ha)

/-- A page that can be written has one place. -/
lemma Counted.alone {x y : Place} {p : ℕ} (h : Counted own m) (hx : 16 ≤ x.1.val) (hro : ¬m.ReadOnly x)
    (hwalk : m.walk x = some p) (hy : m.mapped y = some p) : y = x := by
  rw [walk_eq_mapped hx] at hwalk
  obtain ⟨u, hu, hl⟩ := mapped_eq_some.mp hwalk
  have hw : writable (long m.mem u x.2) := by
    by_contra hno
    refine hro (readOnly_iff.mpr ⟨_, ?_, (link_eq_some.mp hl).1, hno⟩)
    rw [mapping_eq hx, hu, Option.map_some]
  obtain ⟨hlo, hone⟩ := h.writes x u p hu hl hw
  exact h.once hlo hone hy hwalk

/-- For every address and size, and every state of the tables: `verify_area` comes back with a free page for each place
that it finds read-only; and where it comes back it has made the area its process's own, and nothing else, if and only
if the area is confined. -/
theorem unshares_iff (h : Counted own m) (hp : Placed i t) (addr : ℕ) (hsize : 0 < size ∧ size < 2 ^ 31) :
    (m.readOnlyTurns (areaTurns addr size) (addr / 4096 * 4096 + t.dataBase) ≤ m.free →
      (m.verifyArea t.dataBase addr size).2 = true) ∧
    ((m.verifyArea t.dataBase addr size).2 = true →
      (Unshares i t addr size m (m.verifyArea t.dataBase addr size).1 ↔ Confined i t addr size m)) := by
  obtain ⟨hback, hkept⟩ := h.verifyFrom_kept (areaTurns addr size) (addr / 4096 * 4096 + t.dataBase)
  refine ⟨hback, fun hend => ?_⟩
  have hk := hkept hend
  change Unshares i t addr size m (m.verifyFrom (areaTurns addr size) (addr / 4096 * 4096 + t.dataBase)).1 ↔ _
  by_cases hint : size + (addr % 4096 : ℕ) < 2 ^ 31
  · rw [Confined, if_pos hint]
    have hbase : t.dataBase % 4096 = 0 := by
      rw [hp.dataBase]
      omega
    constructor
    · intro hun a hlo hhi hother hro
      have hsame := hun.others _ hother
      have hin : Within (addr, size) a := ⟨hlo, hhi, hint⟩
      exact hk.opened _ (hin.turn hbase) ((readOnly_congr hsame).mpr hro)
    · intro hcon
      have hopen : ∀ a, InArea t addr size a →
          ¬(m.verifyFrom (areaTurns addr size) (addr / 4096 * 4096 + t.dataBase)).1.ReadOnly (t.place a) := by
        intro a ha
        have hin : Within (addr, size) a := ⟨ha.1, ha.2.1, hint⟩
        exact hk.opened _ (hin.turn hbase)
      refine ⟨hopen, ?_, fun a ha => hk.bytes _ _ (place_certain h hp ha), ?_⟩
      · intro a ha hro p hwalk hlo y hy
        exact hk.counted.alone (h.readOnly_high hro) (hopen a ha) hwalk hy
      · intro x hx
        apply hk.mapping
        rintro ⟨⟨k, hlt, rfl⟩, hro⟩
        obtain ⟨a, hlo, hhi, hplace⟩ := turn_within hbase hsize.1 hint k hlt
        rw [hplace] at hx hro
        exact hcon a hlo hhi hx hro
  · have hnone := areaTurns_overflow hsize.2 hint
    rw [Confined, if_neg hint, hnone]
    constructor
    · exact fun hun a ha => hun.writable a ha
    · exact fun hcon => ⟨hcon, fun a ha hro => absurd hro (hcon a ha), fun _ _ => rfl, fun _ _ => rfl⟩

end Areas

/-- The child of process 0 gives an area whose size and offset in the page are `2^31`: the page of the kernel that it
has in common with its parent stays read-only. -/
theorem overflow_unshares_nothing : ¬∀ (own : ℕ → ℕ) (m : Pages) (i : Fin 64) (t : Task) (addr : ℕ) (size : ℤ),
    Counted own m → Placed i t → 0 < size ∧ size < 2 ^ 31 → (m.verifyArea t.dataBase addr size).2 = true →
    Unshares i t addr size m (m.verifyArea t.dataBase addr size).1 := by
  intro hall
  obtain ⟨s₁, u, _, hf, hchild, _, hlimit, hdir, hmapped⟩ := booted_fork
  have hsize : (0 : ℤ) < 2 ^ 31 - 1 ∧ (2 ^ 31 - 1 : ℤ) < 2 ^ 31 := by decide
  have hnone : areaTurns 409601 (2 ^ 31 - 1) = 0 := areaTurns_overflow hsize.2 (by decide)
  have hsame : s₁.pages.verifyArea u.dataBase 409601 (2 ^ 31 - 1) = (s₁.pages, true) := by
    rw [Pages.verifyArea, hnone]
    rfl
  have hplaced := hf.sound.placed 1 u hchild
  have hback : (s₁.pages.verifyArea u.dataBase 409601 (2 ^ 31 - 1)).2 = true := by rw [hsame]
  have hun := hall _ s₁.pages 1 u 409601 (2 ^ 31 - 1) hf.sound.counted hplaced hsize hback
  have hin : InArea u 409601 (2 ^ 31 - 1) 409601 := ⟨le_refl _, by decide, by rw [hlimit]; decide⟩
  have hplace : u.place 409601 = u.place 409600 := by
    have hbase := hplaced.dataBase
    exact placeOf_congr (by omega)
  obtain ⟨p, htable, hlink⟩ := mapped_eq_some.mp hmapped
  refine hun.writable 409601 hin (readOnly_iff.mpr ⟨long s₁.pages.mem p (u.place 409600).2, ?_,
    (link_eq_some.mp hlink).1, ?_⟩)
  · rw [hsame, hplace, mapping_eq (by omega), htable, Option.map_some]
  · intro hw
    have hlow := (hf.sound.counted.writes _ p _ htable hlink hw).1
    revert hlow
    decide

/-- Both conditions can be met: process 1 has pages of its own, as in `counted_crowded`. -/
theorem unshares_crowded :
    (crowdedPages.readOnlyTurns (areaTurns 0 4097) (0 / 4096 * 4096 + (plainTask 1 513 0x4000000).dataBase) ≤
        crowdedPages.free →
      (crowdedPages.verifyArea (plainTask 1 513 0x4000000).dataBase 0 4097).2 = true) ∧
    ((crowdedPages.verifyArea (plainTask 1 513 0x4000000).dataBase 0 4097).2 = true →
      (Unshares 1 (plainTask 1 513 0x4000000) 0 4097 crowdedPages
          (crowdedPages.verifyArea (plainTask 1 513 0x4000000).dataBase 0 4097).1 ↔
        Confined 1 (plainTask 1 513 0x4000000) 0 4097 crowdedPages)) :=
  unshares_iff counted_crowded (placed_plainTask (by decide) (by decide)) 0 ⟨by decide, by decide⟩

end Pages

end Devos.Mm
