import Devos.Mm.Counting

/-! What `head.s` does to the first pages before it turns paging on, and that processes can start from there. -/

namespace Devos.Mm

open Runs Loops Longs Pages

/-- `stosl`, without its step. -/
def stosl (m : Memory) (edi eax : ℕ) : Memory := setLong m (edi / 4096) (edi % 4096 / 4) eax

/-- `rep;stosl` upwards. -/
def repStosl (eax : ℕ) : ℕ → ℕ → Memory → Memory
  | 0, _, m => m
  | n + 1, edi, m => repStosl eax n (edi + 4) (stosl m edi eax)

/-- A turn of the loop that fills the page tables backwards, with `%edi` and `%eax`. -/
def fillBack (s : ℕ × ℤ × Memory) : Pass (ℕ × ℤ × Memory) Memory :=
  let m := stosl s.2.2 s.1 s.2.1.toNat
  let eax := s.2.1 - 0x1000
  if 0 ≤ eax then .again (s.1 - 4, eax, m) else .leave m

/-- `setup_paging` up to its loop: `pg_dir` is at 0, `pg0` at 0x1000 and `pg1` at 0x2000. -/
def pageDirectory (m : Memory) : Memory :=
  stosl (stosl (repStosl 0 (1024 * 3) 0 m) 0 (0x1000 + 7)) 4 (0x2000 + 7)

section Fill

variable {m : Memory} {k p i n edi : ℕ}

lemma long_stosl (edi eax p i : ℕ) (hi : i < 1024) (heax : eax < 2 ^ 32) (halign : edi % 4 = 0) :
    long (stosl m edi eax) p i = if 4096 * p + 4 * i = edi then eax else long m p i := by
  split_ifs with h
  · subst h
    rw [stosl, show (4096 * p + 4 * i) / 4096 = p by omega, show (4096 * p + 4 * i) % 4096 / 4 = i by omega,
      long_setLong_self heax]
  · exact long_setLong_of_ne (by omega)

lemma long_repStosl (eax : ℕ) (hi : i < 1024) (heax : eax < 2 ^ 32) (halign : edi % 4 = 0) :
    long (repStosl eax n edi m) p i =
      if edi ≤ 4096 * p + 4 * i ∧ 4096 * p + 4 * i < edi + 4 * n then eax else long m p i := by
  induction n generalizing edi m with
  | zero => rw [repStosl, if_neg (by omega)]
  | succ n ih =>
    rw [repStosl, ih (by omega), long_stosl _ _ _ _ hi heax halign]
    split_ifs <;> omega

lemma long_pageDirectory (hp : p < 3) (hi : i < 1024) :
    long (pageDirectory m) p i = if p = 0 ∧ i < 2 then full (1 + i) else 0 := by
  rw [pageDirectory, long_stosl _ _ _ _ hi (by decide) (by decide), long_stosl _ _ _ _ hi (by decide) (by decide),
    long_repStosl 0 hi (by decide) (by decide), if_pos (c := 0 ≤ _ ∧ _) (by omega)]
  unfold full
  split_ifs <;> omega

/-- After `k` turns the last `k` entries of the two tables are there. -/
structure FilledBack (m₀ : Memory) (k : ℕ) (s : ℕ × ℤ × Memory) : Prop where
  edi : s.1 + 4 * k = 0x2ffc
  eax : s.2.1 = 0x7ff007 - 0x1000 * k
  lt : k < 2048
  mem : ∀ p < 3, ∀ i < 1024, long s.2.2 p i =
    if 1024 + 2048 - k ≤ 1024 * p + i then full (1024 * p + i - 1024) else long m₀ p i

variable {m₀ : Memory} {s s' : ℕ × ℤ × Memory}

lemma filled_mem (h : FilledBack m₀ k s) (hp : p < 3) (hi : i < 1024) :
    long (stosl s.2.2 s.1 s.2.1.toNat) p i =
      if 1024 + 2047 - k ≤ 1024 * p + i then full (1024 * p + i - 1024) else long m₀ p i := by
  have hedi := h.edi
  have heax := h.eax
  have hlt := h.lt
  have hword : s.2.1.toNat < 2 ^ 32 := by omega
  have halign : s.1 % 4 = 0 := by omega
  rw [long_stosl _ _ _ _ hi hword halign, h.mem p hp i hi]
  unfold full
  split_ifs <;> omega

lemma FilledBack.again (h : FilledBack m₀ k s) (hk : k < 2047) :
    ∃ s', fillBack s = .again s' ∧ FilledBack m₀ (k + 1) s' := by
  have hedi := h.edi
  have heax := h.eax
  refine ⟨(s.1 - 4, s.2.1 - 0x1000, stosl s.2.2 s.1 s.2.1.toNat), if_pos (by omega), ?_⟩
  refine ⟨by dsimp only; omega, by dsimp only; push_cast; omega, by omega, fun p hp i hi => ?_⟩
  dsimp only
  rw [filled_mem h hp hi]
  split_ifs <;> omega

lemma FilledBack.leave (h : FilledBack m₀ 2047 s) : ∃ m, fillBack s = .leave m ∧
    ∀ p < 3, ∀ i < 1024, long m p i = if 1 ≤ p then full (1024 * (p - 1) + i) else long m₀ p i := by
  have heax := h.eax
  refine ⟨stosl s.2.2 s.1 s.2.1.toNat, if_neg (by omega), fun p hp i hi => ?_⟩
  rw [filled_mem h hp hi]
  by_cases hpos : 1 ≤ p
  · rw [if_pos (by omega), if_pos hpos, show 1024 * p + i - 1024 = 1024 * (p - 1) + i by omega]
  · rw [if_neg (by omega), if_neg hpos]

/-- The loop ends when the tables are full. -/
lemma fillBack_returns (m : Memory) : ∃ m', Returns fillBack (0x2ffc, 0x7ff007, m) m' ∧
    ∀ p < 3, ∀ i < 1024, long m' p i = if 1 ≤ p then full (1024 * (p - 1) + i) else long m p i := by
  have hrun : ∀ j k s, j + k = 2047 → FilledBack m k s → ∃ m', Returns fillBack s m' ∧
      ∀ p < 3, ∀ i < 1024, long m' p i = if 1 ≤ p then full (1024 * (p - 1) + i) else long m p i := by
    intro j
    induction j with
    | zero =>
      intro k s hk h
      obtain rfl : k = 2047 := by omega
      obtain ⟨m', hb, hm'⟩ := h.leave
      exact ⟨m', returns_leave hb, hm'⟩
    | succ j ih =>
      intro k s hk h
      obtain ⟨s', hb, h'⟩ := h.again (by omega)
      obtain ⟨m', hm', hlongs⟩ := ih (k + 1) s' (by omega) h'
      exact ⟨m', hm'.again hb, hlongs⟩
  refine hrun 2047 0 _ rfl ⟨rfl, rfl, by decide, fun p hp i hi => ?_⟩
  rw [if_neg (by omega)]

end Fill

section Startup

variable {m : Memory}

/-- `INIT_TASK` -/
def initTask : Task := { Machine.plainTask 0 0 0xA0000 with father := -1 }

/-- Task 0 alone, with nothing open and nothing in `mem_map`. -/
def startMachine (m : Memory) : Machine :=
  { Machine.booted with
    task := fun i => if i = 0 then some initTask else none
    pages := ⟨fun _ => 0, m, []⟩ }

/-- Whatever memory holds, the words that `setup_paging` leaves in the first three pages map the first 8Mb to
themselves, and are what the processes can start from. -/
theorem setup_paging (m : Memory) : ∃ m',
    Returns fillBack (0x2ffc, 0x7ff007, pageDirectory m) m' ∧
    (∀ a < 0x800000, entry (startMachine m').pages (placeOf a) = full (a / 4096)) ∧ machine.init (startMachine m') := by
  obtain ⟨m', hm', hlongs⟩ := fillBack_returns (pageDirectory m)
  have hdirectory : ∀ d < 1024, long m' 0 d = if d < 2 then full (1 + d) else 0 := by
    intro d hd
    rw [hlongs 0 (by decide) d hd, if_neg (by decide), long_pageDirectory (by decide) hd]
    exact if_congr (by simp) rfl rfl
  have hidentity : ∀ d < 2, ∀ e < 1024, long m' (1 + d) e = full (1024 * d + e) := by
    intro d hd e he
    rw [hlongs (1 + d) (by omega) e he, if_pos (by omega), Nat.add_sub_cancel_left]
  refine ⟨m', hm', fun a ha => ?_, Machine.Booted.init ⟨fun _ => rfl, hdirectory, hidentity, rfl, ?_,
    fun i hi => if_neg hi, fun _ => rfl, fun _ => rfl⟩⟩
  · have hd : (placeOf a).1.val = a / 2 ^ 22 := Nat.mod_eq_of_lt (by omega)
    have he : (placeOf a).2.val = a / 2 ^ 12 % 1024 := rfl
    have hframe : frame (full (1 + a / 2 ^ 22)) = 1 + a / 2 ^ 22 := by
      unfold frame full
      omega
    change long m' (frame (long m' 0 (placeOf a).1)) (placeOf a).2 = _
    rw [hd, he, hdirectory _ (by omega), if_pos (by omega), hframe, hidentity _ (by omega) _ (Nat.mod_lt _ (by decide))]
    congr 1
    omega
  · intro t ht
    have hsome : some initTask = some t := ht
    obtain rfl := Option.some.inj hsome
    exact ⟨rfl, rfl, le_refl _, by decide, fun _ => rfl⟩

end Startup

end Devos.Mm
