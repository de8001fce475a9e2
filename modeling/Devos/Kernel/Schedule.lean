import Devos.Kernel.Keys

/-! The scan of the task table at the head of `schedule`, and whose keys it clears. -/

namespace Devos.Kernel

open Loops Security

abbrev nrTasks : ℕ := 64

def sigalrm : ℕ := 14
def taskRunning : ℤ := 0
def taskInterruptible : ℤ := 1

structure TaskStruct where
  state : ℤ
  signal : BitVec 32
  alarm : ℤ
  key : CString
  hKey : HKey
  kTimeout : ℤ

structure TaskTable where
  task : Fin nrTasks → Option TaskStruct
  current : Fin nrTasks
  encryptionKey : CString
  hKey : HKey
  jiffies : ℤ

namespace TaskTable

def modify (s : TaskTable) (i : Fin nrTasks) (f : TaskStruct → TaskStruct) : TaskTable :=
  { s with task := Function.update s.task i ((s.task i).map f) }

def sysKeyclear (s : TaskTable) (globFlag : ℤ) : TaskTable :=
  if globFlag = kGlobal then { s with encryptionKey := .empty, hKey := Sys.clearHash s.hKey }
  else s.modify s.current (fun t => { t with key := .empty, hKey := Sys.clearHash t.hKey })

def alarmed (s : TaskTable) (i : Fin nrTasks) : Bool :=
  (s.task i).any (fun t => t.alarm ≠ 0 ∧ t.alarm < s.jiffies)

def timedOut (s : TaskTable) (i : Fin nrTasks) : Bool :=
  (s.task i).any (fun t => t.kTimeout ≠ 0 ∧ t.kTimeout < s.jiffies)

def ringAlarm (s : TaskTable) (i : Fin nrTasks) : TaskTable :=
  if s.alarmed i then
    s.modify i (fun t => { t with signal := t.signal ||| (1 <<< (sigalrm - 1)), alarm := 0 })
  else s

-- the timer is the one of task `i`, but `sys_keyclear` clears the key of `current`
def expireLocal (s : TaskTable) (i : Fin nrTasks) : TaskTable :=
  if s.timedOut i then (s.sysKeyclear kLocal).modify i (fun t => { t with kTimeout := 0 }) else s

def expireGlobal (s : TaskTable) : TaskTable :=
  if s.timedOut 0 then (s.sysKeyclear kGlobal).modify 0 (fun t => { t with kTimeout := 0 }) else s

def wake (s : TaskTable) (i : Fin nrTasks) : TaskTable :=
  s.modify i (fun t =>
    if t.signal ≠ 0 ∧ t.state = taskInterruptible then { t with state := taskRunning } else t)

def visit (s : TaskTable) (i : Fin nrTasks) : TaskTable :=
  if (s.task i).isSome then ((s.ringAlarm i).expireLocal i).expireGlobal.wake i else s

/-- `for(p = &LAST_TASK ; p > &FIRST_TASK ; --p)`, which leaves `task[0]` out. -/
def checkTimers (s : TaskTable) : TaskTable :=
  forLoop 0 (nrTasks - 1) (fun k s => s.visit (Fin.ofNat nrTasks (nrTasks - 1 - k))) s

def session (s : TaskTable) (i : Fin nrTasks) : Option (CString × ℤ) :=
  (s.task i).map (fun t => (t.key, t.kTimeout))

section Visit

variable {s : TaskTable} {i : Fin nrTasks}

lemma session_modify (f : TaskStruct → TaskStruct) (g : CString × ℤ → CString × ℤ)
    (h : ∀ t, ((f t).key, (f t).kTimeout) = g (t.key, t.kTimeout)) (j : Fin nrTasks) :
    (s.modify i f).session j = if j = i then (s.session j).map g else s.session j := by
  by_cases hj : j = i
  · subst hj
    simp only [session, modify, Function.update_self, Option.map_map, if_pos]
    congr 1
    funext t
    exact h t
  · simp only [session, modify, Function.update_of_ne hj, if_neg hj]

lemma session_modify_same (f : TaskStruct → TaskStruct)
    (h : ∀ t, (f t).key = t.key ∧ (f t).kTimeout = t.kTimeout) (j : Fin nrTasks) :
    (s.modify i f).session j = s.session j := by
  have hid : ∀ t, ((f t).key, (f t).kTimeout) = id (t.key, t.kTimeout) := by
    intro t
    rw [(h t).1, (h t).2, id]
  rw [session_modify f id hid, Option.map_id, id, ite_self]

lemma timedOut_eq : s.timedOut i = (s.session i).any (fun p => p.2 ≠ 0 ∧ p.2 < s.jiffies) := by
  rw [timedOut, session]
  cases s.task i <;> rfl

lemma isSome_eq : (s.task i).isSome = (s.session i).isSome := by
  rw [session, Option.isSome_map]

/-- What the loop reads and writes of the keys. -/
structure Same (s s' : TaskTable) : Prop where
  session : ∀ j, s'.session j = s.session j
  encryptionKey : s'.encryptionKey = s.encryptionKey
  jiffies : s'.jiffies = s.jiffies
  current : s'.current = s.current

lemma same_ringAlarm : Same s (s.ringAlarm i) := by
  rw [ringAlarm]
  split
  · exact ⟨session_modify_same _ (fun _ => ⟨rfl, rfl⟩), rfl, rfl, rfl⟩
  · exact ⟨fun _ => rfl, rfl, rfl, rfl⟩

lemma same_wake : Same s (s.wake i) := by
  refine ⟨session_modify_same _ (fun t => ?_), rfl, rfl, rfl⟩
  split <;> exact ⟨rfl, rfl⟩

lemma Same.timedOut {s' : TaskTable} (h : Same s s') : s'.timedOut i = s.timedOut i := by
  rw [timedOut_eq, timedOut_eq, h.session, h.jiffies]

lemma session_expireLocal (j : Fin nrTasks) :
    (s.expireLocal i).session j = (s.session j).map fun p =>
      (if s.timedOut i ∧ j = s.current then .empty else p.1, if s.timedOut i ∧ j = i then 0 else p.2) := by
  rw [expireLocal]
  by_cases h : s.timedOut i = true
  · have hlocal : s.sysKeyclear kLocal =
        s.modify s.current (fun t => { t with key := .empty, hKey := Sys.clearHash t.hKey }) := rfl
    rw [if_pos h, session_modify _ (fun p => (p.1, 0)) (fun _ => rfl), hlocal,
      session_modify _ (fun p => (.empty, p.2)) (fun _ => rfl)]
    cases s.session j with
    | none => simp
    | some p =>
      simp only [h, true_and]
      split_ifs <;> rfl
  · rw [if_neg h]
    cases s.session j <;> simp [h]

lemma expireLocal_rest : (s.expireLocal i).encryptionKey = s.encryptionKey ∧
    (s.expireLocal i).jiffies = s.jiffies ∧ (s.expireLocal i).current = s.current := by
  rw [expireLocal]
  split <;> exact ⟨rfl, rfl, rfl⟩

lemma session_expireGlobal (j : Fin nrTasks) :
    s.expireGlobal.session j = (s.session j).map fun p =>
      (p.1, if s.timedOut 0 ∧ j = 0 then 0 else p.2) := by
  rw [expireGlobal]
  by_cases h : s.timedOut 0 = true
  · rw [if_pos h, session_modify _ (fun p => (p.1, 0)) (fun _ => rfl)]
    change (if j = 0 then (s.session j).map _ else s.session j) = _
    cases s.session j with
    | none => simp
    | some p => by_cases hj : j = 0 <;> simp [h, hj]
  · rw [if_neg h]
    cases s.session j <;> simp [h]

lemma expireGlobal_rest :
    s.expireGlobal.encryptionKey = (if s.timedOut 0 then .empty else s.encryptionKey) ∧
    s.expireGlobal.jiffies = s.jiffies ∧ s.expireGlobal.current = s.current := by
  rw [expireGlobal]
  split <;> exact ⟨rfl, rfl, rfl⟩

lemma timedOut_zero_expireLocal (hi : i ≠ 0) : (s.expireLocal i).timedOut 0 = s.timedOut 0 := by
  rw [timedOut_eq, timedOut_eq, session_expireLocal, expireLocal_rest.2.1, Option.any_map]
  have h₀ : ¬ (s.timedOut i ∧ 0 = i) := fun h => hi h.2.symm
  simp only [if_neg h₀]

lemma visit_none (h : (s.task i).isSome = false) : s.visit i = s := by
  rw [visit, h]
  exact if_neg Bool.false_ne_true

lemma session_visit (hi : i ≠ 0) (h : (s.task i).isSome = true) (j : Fin nrTasks) :
    (s.visit i).session j = (s.session j).map fun p =>
      (if s.timedOut i ∧ j = s.current then .empty else p.1,
        if (s.timedOut i ∧ j = i) ∨ (s.timedOut 0 ∧ j = 0) then 0 else p.2) := by
  have ha : Same s (s.ringAlarm i) := same_ringAlarm
  rw [visit, if_pos h, same_wake.session, session_expireGlobal, session_expireLocal, ha.session,
    timedOut_zero_expireLocal hi, ha.timedOut, ha.timedOut, ha.current, Option.map_map]
  congr 1
  funext p
  simp only [Function.comp_apply, Prod.mk.injEq, true_and]
  split_ifs <;> first | rfl | (exfalso; tauto)

lemma visit_rest (hi : i ≠ 0) (h : (s.task i).isSome = true) :
    (s.visit i).encryptionKey = (if s.timedOut 0 then .empty else s.encryptionKey) ∧
    (s.visit i).jiffies = s.jiffies ∧ (s.visit i).current = s.current := by
  have ha : Same s (s.ringAlarm i) := same_ringAlarm
  have hw := same_wake (s := ((s.ringAlarm i).expireLocal i).expireGlobal) (i := i)
  obtain ⟨hk, hj, hc⟩ := expireGlobal_rest (s := (s.ringAlarm i).expireLocal i)
  obtain ⟨hk', hj', hc'⟩ := expireLocal_rest (s := s.ringAlarm i) (i := i)
  rw [visit, if_pos h, hw.encryptionKey, hw.jiffies, hw.current, hk, hj, hc, hk', hj', hc',
    timedOut_zero_expireLocal hi, ha.timedOut, ha.encryptionKey, ha.jiffies, ha.current]
  exact ⟨rfl, rfl, rfl⟩

end Visit

/-- The tasks from `m` on have been visited. -/
structure Scanned (s₀ : TaskTable) (m : ℕ) (s : TaskTable) : Prop where
  jiffies : s.jiffies = s₀.jiffies
  current : s.current = s₀.current
  session : ∀ j, s.session j = (s₀.session j).map fun p =>
    (if (∃ i : Fin nrTasks, m ≤ i ∧ s₀.timedOut i) ∧ j = s₀.current then .empty else p.1,
      if s₀.timedOut j ∧ (m ≤ j ∨ j = 0 ∧ ∃ i : Fin nrTasks, m ≤ i ∧ (s₀.task i).isSome) then 0 else p.2)
  encryptionKey : s.encryptionKey =
    if s₀.timedOut 0 ∧ ∃ i : Fin nrTasks, m ≤ i ∧ (s₀.task i).isSome then .empty else s₀.encryptionKey

section Scan

variable {s₀ s : TaskTable} {m : ℕ}

lemma scanned_start (s₀ : TaskTable) : Scanned s₀ nrTasks s₀ := by
  have hnone : ∀ P : Fin nrTasks → Prop, ¬ ∃ i : Fin nrTasks, nrTasks ≤ i ∧ P i :=
    fun _ ⟨i, hi, _⟩ => absurd i.isLt (not_lt.mpr hi)
  refine ⟨rfl, rfl, fun j => ?_, ?_⟩
  · have hj : ¬ nrTasks ≤ j := not_le.mpr j.isLt
    simp only [hnone, hj, false_and, and_false, or_self, if_false]
    rw [Option.map_id']
  · rw [if_neg (fun h => hnone _ h.2)]

lemma Scanned.timedOut (hs : Scanned s₀ m s) (j : Fin nrTasks) :
    s.timedOut j = true ↔
      s₀.timedOut j = true ∧ ¬ (m ≤ j ∨ j = 0 ∧ ∃ i : Fin nrTasks, m ≤ i ∧ (s₀.task i).isSome) := by
  have h₀ : s₀.timedOut j = (s₀.session j).any (fun p => p.2 ≠ 0 ∧ p.2 < s₀.jiffies) := timedOut_eq
  rw [timedOut_eq, hs.session, hs.jiffies, Option.any_map]
  by_cases hd : s₀.timedOut j = true ∧
      (m ≤ j ∨ j = 0 ∧ ∃ i : Fin nrTasks, m ≤ i ∧ (s₀.task i).isSome)
  · simp only [if_pos hd]
    refine iff_of_false ?_ (fun h => h.2 hd.2)
    cases s₀.session j <;> simp
  · simp only [if_neg hd]
    rw [h₀] at hd ⊢
    exact ⟨fun h => ⟨h, fun h' => hd ⟨h, h'⟩⟩, fun h => h.1⟩

lemma exists_from (M : Fin nrTasks) (P : Fin nrTasks → Prop) :
    (∃ i : Fin nrTasks, M.val ≤ i ∧ P i) ↔ P M ∨ ∃ i : Fin nrTasks, M.val + 1 ≤ i ∧ P i := by
  constructor
  · rintro ⟨i, hi, hP⟩
    rcases Nat.lt_or_eq_of_le hi with hlt | heq
    · exact Or.inr ⟨i, hlt, hP⟩
    · exact Or.inl (Fin.ext heq ▸ hP)
  · rintro (hP | ⟨i, hi, hP⟩)
    · exact ⟨M, le_refl _, hP⟩
    · exact ⟨i, Nat.le_of_succ_le hi, hP⟩

lemma le_iff_eq_or_lt (M j : Fin nrTasks) : M.val ≤ j ↔ j = M ∨ M.val + 1 ≤ j := by
  rw [Fin.ext_iff]
  omega

lemma scanned_visit {M : Fin nrTasks} (hM : M ≠ 0) (hs : Scanned s₀ (M + 1) s) :
    Scanned s₀ M (s.visit M) := by
  have hsome : (s.task M).isSome = (s₀.task M).isSome := by
    rw [isSome_eq, isSome_eq, hs.session, Option.isSome_map]
  have hlocal : s.timedOut M = true ↔ s₀.timedOut M = true := by
    rw [hs.timedOut]
    refine and_iff_left ?_
    rintro (h | ⟨h, _⟩)
    · exact absurd h (Nat.not_succ_le_self _)
    · exact hM h
  have hE := exists_from M (fun i => s₀.timedOut i = true)
  have hS := exists_from M (fun i => (s₀.task i).isSome = true)
  by_cases h : (s₀.task M).isSome = true
  · have hglobal : s.timedOut 0 = true ↔
        s₀.timedOut 0 = true ∧ ¬ ∃ i : Fin nrTasks, M.val + 1 ≤ i ∧ (s₀.task i).isSome = true := by
      rw [hs.timedOut, or_iff_right (by simp), and_iff_right rfl]
    have hany : ∃ i : Fin nrTasks, M.val ≤ i ∧ (s₀.task i).isSome = true := ⟨M, le_refl _, h⟩
    obtain ⟨hk, hj, hc⟩ := visit_rest hM (hsome.trans h)
    refine ⟨hj.trans hs.jiffies, hc.trans hs.current, fun j => ?_, ?_⟩
    · rw [session_visit hM (hsome.trans h), hs.session, Option.map_map, hs.current]
      congr 1
      funext p
      rw [Function.comp_apply, Prod.mk.injEq]
      dsimp only
      rw [← ite_or, ← ite_or]
      constructor
      · exact if_congr (by rw [hE, hlocal, or_and_right]) rfl rfl
      · refine if_congr ?_ rfl rfl
        constructor
        · rintro ((⟨ht, rfl⟩ | ⟨ht, rfl⟩) | ⟨ht, hle | hz⟩)
          · exact ⟨hlocal.mp ht, Or.inl (le_refl _)⟩
          · exact ⟨(hglobal.mp ht).1, Or.inr ⟨rfl, hany⟩⟩
          · exact ⟨ht, Or.inl (Nat.le_of_succ_le hle)⟩
          · exact ⟨ht, Or.inr ⟨hz.1, hany⟩⟩
        · rintro ⟨ht, hle | ⟨rfl, _⟩⟩
          · rcases (le_iff_eq_or_lt M j).mp hle with rfl | hlt
            · exact Or.inl (Or.inl ⟨hlocal.mpr ht, rfl⟩)
            · exact Or.inr ⟨ht, Or.inl hlt⟩
          · by_cases hA : ∃ i : Fin nrTasks, M.val + 1 ≤ i ∧ (s₀.task i).isSome = true
            · exact Or.inr ⟨ht, Or.inr ⟨rfl, hA⟩⟩
            · exact Or.inl (Or.inr ⟨hglobal.mpr ⟨ht, hA⟩, rfl⟩)
    · rw [hk, hs.encryptionKey, ← ite_or]
      refine if_congr ?_ rfl rfl
      rw [hglobal, and_iff_left hany]
      constructor
      · rintro (ht | ht) <;> exact ht.1
      · intro ht
        by_cases hA : ∃ i : Fin nrTasks, M.val + 1 ≤ i ∧ (s₀.task i).isSome = true
        · exact Or.inr ⟨ht, hA⟩
        · exact Or.inl ⟨ht, hA⟩
  · have hfalse : (s₀.task M).isSome = false := Bool.eq_false_of_not_eq_true h
    have hquiet : ¬ s₀.timedOut M = true := by
      rw [TaskTable.timedOut, Option.not_isSome_iff_eq_none.mp h]
      exact Bool.false_ne_true
    rw [or_iff_right hquiet] at hE
    rw [or_iff_right h] at hS
    rw [visit_none (hsome.trans hfalse)]
    refine ⟨hs.jiffies, hs.current, fun j => ?_, ?_⟩
    · rw [hs.session]
      congr 1
      funext p
      rw [Prod.mk.injEq]
      refine ⟨if_congr (and_congr_left' hE.symm) rfl rfl, if_congr (and_congr_right fun ht => ?_) rfl rfl⟩
      refine or_congr ?_ (and_congr_right' hS.symm)
      rw [le_iff_eq_or_lt, or_iff_right]
      rintro rfl
      exact hquiet ht
    · rw [hs.encryptionKey]
      exact if_congr (and_congr_right' hS.symm) rfl rfl

lemma one_le_iff (i : Fin nrTasks) : 1 ≤ i.val ↔ i ≠ 0 := by
  rw [Ne, Fin.ext_iff]
  exact Nat.one_le_iff_ne_zero

lemma scanned_checkTimers (s : TaskTable) : Scanned s 1 s.checkTimers := by
  have hall : Scanned s (nrTasks - (nrTasks - 1)) s.checkTimers := by
    refine forLoop_induction (P := fun k s' => Scanned s (nrTasks - k) s') (Nat.zero_le _)
      (scanned_start s) ?_
    intro k s' _ hk hs
    have hval : (Fin.ofNat nrTasks (nrTasks - 1 - k)).val = nrTasks - 1 - k := by
      rw [Fin.ofNat]
      exact Nat.mod_eq_of_lt (by omega)
    have hM : Fin.ofNat nrTasks (nrTasks - 1 - k) ≠ 0 := by
      rw [← one_le_iff, hval]
      omega
    have hstep : Scanned s (Fin.ofNat nrTasks (nrTasks - 1 - k)).val
        (s'.visit (Fin.ofNat nrTasks (nrTasks - 1 - k))) := by
      apply scanned_visit hM
      rwa [hval, show nrTasks - 1 - k + 1 = nrTasks - k by omega]
    rw [hval] at hstep
    exact (show nrTasks - 1 - k = nrTasks - (k + 1) by omega) ▸ hstep
  exact hall

lemma session_eq_some {p : CString × ℤ} {j : Fin nrTasks} :
    s.session j = some p ↔ ∃ t, s.task j = some t ∧ t.key = p.1 ∧ t.kTimeout = p.2 := by
  rw [session, Option.map_eq_some_iff]
  exact exists_congr fun t => and_congr_right' Prod.ext_iff

lemma checkTimers_task {j : Fin nrTasks} {t : TaskStruct} (ht : s.task j = some t) :
    ∃ t', s.checkTimers.task j = some t' ∧
      t'.key = (if (∃ i, i ≠ 0 ∧ s.timedOut i) ∧ j = s.current then .empty else t.key) ∧
      t'.kTimeout =
        if s.timedOut j ∧ (j ≠ 0 ∨ j = 0 ∧ ∃ i, i ≠ 0 ∧ (s.task i).isSome) then 0 else t.kTimeout := by
  have hj : s.session j = some (t.key, t.kTimeout) := session_eq_some.mpr ⟨t, ht, rfl, rfl⟩
  have hs := (scanned_checkTimers s).session j
  rw [hj] at hs
  simp only [one_le_iff, Option.map_some] at hs
  exact session_eq_some.mp hs

lemma checkTimers_encryptionKey (s : TaskTable) : s.checkTimers.encryptionKey =
    if s.timedOut 0 ∧ ∃ i, i ≠ 0 ∧ (s.task i).isSome then .empty else s.encryptionKey := by
  rw [(scanned_checkTimers s).encryptionKey]
  simp only [one_le_iff]

end Scan

/-- Every session that has timed out is over, the others and the global key are as they should be. -/
def ExpiryRight (s s' : TaskTable) : Prop :=
  (∀ i t, s.task i = some t → ∃ t', s'.task i = some t' ∧
    if s.timedOut i then t'.key = .empty ∧ t'.kTimeout = 0 else t'.key = t.key) ∧
  s'.encryptionKey = if s.timedOut 0 then .empty else s.encryptionKey

def Keyless (s : TaskTable) (i : Fin nrTasks) : Prop := ∀ t, s.task i = some t → t.key = .empty

/-- Only the current task's session, or one without a key, has timed out, and the current task has not
got a key that is still good; the global timer has not run out, or there is another task and
`task[0]` loses its own key as well. -/
def HitsItself (s : TaskTable) : Prop :=
  (∀ i, i ≠ 0 → s.timedOut i → i = s.current ∨ s.Keyless i) ∧
  ((∃ i, i ≠ 0 ∧ s.timedOut i) → s.timedOut s.current ∨ s.Keyless s.current) ∧
  (s.timedOut 0 → (∃ i, i ≠ 0 ∧ (s.task i).isSome) ∧
    (s.Keyless 0 ∨ s.current = 0 ∧ ∃ i, i ≠ 0 ∧ s.timedOut i))

section Right

variable {s : TaskTable} {i : Fin nrTasks}

lemma task_of_timedOut (h : s.timedOut i = true) : ∃ t, s.task i = some t ∧ t.kTimeout ≠ 0 := by
  rw [timedOut, Option.any_eq_true] at h
  obtain ⟨t, ht, hk⟩ := h
  exact ⟨t, ht, (of_decide_eq_true hk).1⟩

lemma ends_iff {t t' : TaskStruct} (ht : s.task i = some t) (h : s.timedOut i = true)
    (hk : t'.key = if (∃ j, j ≠ 0 ∧ s.timedOut j) ∧ i = s.current then .empty else t.key)
    (hτ : t'.kTimeout =
      if s.timedOut i ∧ (i ≠ 0 ∨ i = 0 ∧ ∃ j, j ≠ 0 ∧ (s.task j).isSome) then 0 else t.kTimeout) :
    (t'.key = .empty ∧ t'.kTimeout = 0) ↔
      ((∃ j, j ≠ 0 ∧ s.timedOut j) ∧ i = s.current ∨ s.Keyless i) ∧
        (i = 0 → ∃ j, j ≠ 0 ∧ (s.task j).isSome) := by
  have hne : t.kTimeout ≠ 0 := by
    obtain ⟨u, hu, hne⟩ := task_of_timedOut h
    rw [ht] at hu
    cases hu
    exact hne
  have hless : s.Keyless i ↔ t.key = .empty := by
    refine ⟨fun hh => hh t ht, fun hh u hu => ?_⟩
    rw [ht] at hu
    cases hu
    exact hh
  rw [hk, hτ, hless]
  refine and_congr ?_ ?_
  · split_ifs with hc
    · exact iff_of_true rfl (Or.inl hc)
    · exact (or_iff_right hc).symm
  · split_ifs with hc
    · exact iff_of_true rfl fun h₀ => hc.2.elim (fun hn => absurd h₀ hn) And.right
    · refine iff_of_false hne fun hh => hc ⟨h, ?_⟩
      by_cases h₀ : i = 0
      · exact Or.inr ⟨h₀, hh h₀⟩
      · exact Or.inl h₀

lemma kept_iff {t t' : TaskStruct} (ht : s.task i = some t)
    (hk : t'.key = if (∃ j, j ≠ 0 ∧ s.timedOut j) ∧ i = s.current then .empty else t.key) :
    t'.key = t.key ↔ ((∃ j, j ≠ 0 ∧ s.timedOut j) → i = s.current → s.Keyless i) := by
  have hless : s.Keyless i ↔ t.key = .empty := by
    refine ⟨fun hh => hh t ht, fun hh u hu => ?_⟩
    rw [ht] at hu
    cases hu
    exact hh
  rw [hk, hless]
  split_ifs with hc
  · exact ⟨fun h _ _ => h.symm, fun h => (h hc.1 hc.2).symm⟩
  · exact iff_of_true rfl fun h₁ h₂ => absurd ⟨h₁, h₂⟩ hc

end Right

/-- The scan ends the sessions that have timed out, and no others, exactly when those that have are
the current task's own. -/
theorem expiryRight_iff (s : TaskTable) : ExpiryRight s s.checkTimers ↔ HitsItself s := by
  have hkeys : s.checkTimers.encryptionKey = (if s.timedOut 0 then .empty else s.encryptionKey) ↔
      (s.timedOut 0 → (∃ i, i ≠ 0 ∧ (s.task i).isSome) ∨ s.encryptionKey = .empty) := by
    rw [checkTimers_encryptionKey]
    by_cases h₀ : s.timedOut 0 = true
    · by_cases hany : ∃ i, i ≠ 0 ∧ (s.task i).isSome = true
      · rw [if_pos ⟨h₀, hany⟩, if_pos h₀]
        exact iff_of_true rfl fun _ => Or.inl hany
      · rw [if_neg (fun h => hany h.2), if_pos h₀]
        exact ⟨fun h _ => Or.inr h, fun h => (h h₀).resolve_left hany⟩
    · rw [if_neg (fun h => h₀ h.1), if_neg h₀]
      exact iff_of_true rfl fun h => absurd h h₀
  constructor
  · rintro ⟨hright, hglobal⟩
    have hends : ∀ i, s.timedOut i = true →
        ((∃ j, j ≠ 0 ∧ s.timedOut j) ∧ i = s.current ∨ s.Keyless i) ∧
          (i = 0 → ∃ j, j ≠ 0 ∧ (s.task j).isSome) := by
      intro i h
      obtain ⟨t, ht, _⟩ := task_of_timedOut h
      obtain ⟨t', ht', hk, hτ⟩ := checkTimers_task ht
      obtain ⟨u, hu, hr⟩ := hright i t ht
      rw [ht'] at hu
      cases hu
      rw [if_pos h] at hr
      exact (ends_iff ht h hk hτ).mp hr
    refine ⟨fun i hi h => ?_, fun hex => ?_, fun h => ?_⟩
    · exact ((hends i h).1).imp_left And.right
    · by_cases hc : s.timedOut s.current = true
      · exact Or.inl hc
      · refine Or.inr fun t ht => ?_
        obtain ⟨t', ht', hk, _⟩ := checkTimers_task ht
        obtain ⟨u, hu, hr⟩ := hright _ t ht
        rw [ht'] at hu
        cases hu
        rw [if_neg hc] at hr
        exact (kept_iff ht hk).mp hr hex rfl t ht
    · obtain ⟨hl, hr⟩ := hends 0 h
      exact ⟨hr rfl, hl.symm.imp_right fun hc => ⟨hc.2.symm, hc.1⟩⟩
  · rintro ⟨hothers, hcurrent, hglobal⟩
    refine ⟨fun i t ht => ?_, hkeys.mpr fun h => Or.inl (hglobal h).1⟩
    obtain ⟨t', ht', hk, hτ⟩ := checkTimers_task ht
    refine ⟨t', ht', ?_⟩
    by_cases h : s.timedOut i = true
    · rw [if_pos h]
      refine (ends_iff ht h hk hτ).mpr ⟨?_, ?_⟩
      · by_cases h₀ : i = 0
        · subst h₀
          exact ((hglobal h).2).symm.imp_left fun hc => ⟨hc.2, hc.1.symm⟩
        · exact (hothers i h₀ h).imp_left fun hc => ⟨⟨i, h₀, h⟩, hc⟩
      · rintro rfl
        exact (hglobal h).1
    · rw [if_neg h]
      refine (kept_iff ht hk).mpr fun hex hc => ?_
      rcases hcurrent hex with hh | hh
      · exact absurd (hc ▸ hh) h
      · exact hc ▸ hh

/-- Task 1's session has timed out while task 2 runs. -/
def staleTable : TaskTable where
  task i := if i = 1 then some ⟨0, 0, 0, keyAB, anyHKey, 1⟩
    else if i.val < 3 then some ⟨0, 0, 0, .empty, anyHKey, 0⟩ else none
  current := 2
  encryptionKey := .empty
  hKey := anyHKey
  jiffies := 2

theorem expiry_misses : ¬ ∀ s : TaskTable, ExpiryRight s s.checkTimers := by
  intro h
  have ht : staleTable.task 1 = some ⟨0, 0, 0, keyAB, anyHKey, 1⟩ := rfl
  obtain ⟨t', ht', hk, _⟩ := checkTimers_task ht
  obtain ⟨u, hu, hr⟩ := (h staleTable).1 1 _ ht
  rw [ht'] at hu
  cases hu
  have hout : staleTable.timedOut 1 = true := rfl
  have hcur : ¬ (1 : Fin nrTasks) = staleTable.current := by decide
  rw [if_pos hout] at hr
  rw [if_neg (fun hc => hcur hc.2), hr.1] at hk
  exact absurd hk (by decide)

end TaskTable

end Devos.Kernel
