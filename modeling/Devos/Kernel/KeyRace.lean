import Devos.Kernel.Keys

/-! Which key a block goes through when several processes share `key_to_use`. -/

namespace Devos.Kernel

open Security Runs

variable {n : ℕ}

def RightKey (s : Sys n) (t : Task) : Prop :=
  s.deref s.keyToUse = some (s.effective t) ∧ (s.effective t).strlen ≠ 0

/-- The last assignment of `key_to_use` was made by a process without a key of its own, the global
key is still set, and `p` has no other key of its own; or it was made by a process that had a key of
its own and still has one, and that process is `p` or has the same key. -/
def Settled (s : Sys n) (p : Fin n) (t : Task) : Prop :=
  ∃ a, s.assigned = some a ∧
    if a.hadOwn then
      ∃ u, s.task a.process = some u ∧ u.key.strlen ≠ 0 ∧ (a.process = p ∨ u.key = s.effective t)
    else s.encryptionKey.strlen ≠ 0 ∧ (t.key.strlen = 0 ∨ t.key = s.encryptionKey)

def Assignment.ptr (a : Assignment n) : KeyPtr n := if a.hadOwn then .own a.process else .global

def Recorded (s : Sys n) : Prop :=
  s.keyToUse = (s.assigned.map Assignment.ptr).getD .null ∧ s.hashToUse = s.keyToUse

section Steps

variable {s : Sys n} {p : Fin n} {t : Task}

lemma recorded_assign (s : Sys n) (p : Fin n) (t : Task) : Recorded (s.assign p t) := by
  refine ⟨?_, rfl⟩
  by_cases h : t.key.strlen = 0 <;> simp [Sys.assign, Sys.ownPtr, Assignment.ptr, h]

lemma recorded_setKey (hs : Recorded s) (key : CString) (globKey : ℤ) :
    Recorded (s.setKey p t key globKey) := by
  unfold Sys.setKey
  split
  · split
    · exact recorded_assign _ _ _
    · exact recorded_assign _ _ _
  · exact hs

lemma recorded_clearKey (hs : Recorded s) (globFlag : ℤ) : Recorded (s.clearKey p t globFlag) := by
  unfold Sys.clearKey
  split
  · exact hs
  · exact hs

lemma recorded_checkTimeouts (hs : Recorded s) : Recorded (s.checkTimeouts p t) := by
  have hlocal : Recorded (if ∃ q, s.Expired q then s.clearKey p t kLocal else s) := by
    split
    · exact recorded_clearKey hs kLocal
    · exact hs
  unfold Sys.checkTimeouts
  dsimp only
  split
  · exact hlocal
  · exact hlocal

lemma recorded_startCipher (s : Sys n) (p : Fin n) (t : Task) (a : Activity) :
    Recorded (startCipher s p t a) := by
  unfold startCipher
  split
  · exact recorded_assign s p t
  · exact recorded_assign s p t

lemma recorded_step {e : Event n} {s' : Sys n} (hs : Recorded s) (h : Step s e s') : Recorded s' := by
  cases h with
  | keyset => exact recorded_setKey hs _ _
  | keyclear => exact recorded_clearKey hs _
  | keygen => exact recorded_setKey hs _ _
  | encr => exact recorded_startCipher _ _ _ _
  | decr => exact recorded_startCipher _ _ _ _
  | read => exact hs
  | write => exact hs
  | block =>
    split
    · exact hs
    · exact hs
  | finish => exact hs
  | schedule => exact recorded_checkTimeouts hs
  | tick => exact hs
  | exit => exact hs
  | release => exact hs

end Steps

lemma recorded_of_reach {ok : Sys n → Event n → Prop} {s : Sys n} (h : (keySystem n).Reach ok s) :
    Recorded s := by
  refine System.Reach.invariant ?_ ?_ h
  · rintro s rfl
    exact ⟨rfl, rfl⟩
  · intro s e s' hs _ hstep
    exact recorded_step hs hstep

lemma effective_own {s : Sys n} {t : Task} (h : t.key.strlen ≠ 0) : s.effective t = t.key := by
  rw [Sys.effective, if_neg h]

lemma effective_global {s : Sys n} {t : Task} (h : t.key.strlen = 0) :
    s.effective t = s.encryptionKey := by
  rw [Sys.effective, if_pos h]

lemma rightKey_iff {s : Sys n} (hs : Recorded s) {p : Fin n} {t : Task} (hp : s.task p = some t) :
    RightKey s t ↔ Settled s p t := by
  have hptr := hs.1
  cases ha : s.assigned with
  | none =>
    rw [ha] at hptr
    refine iff_of_false ?_ ?_
    · rintro ⟨hd, _⟩
      rw [hptr] at hd
      cases hd
    · rintro ⟨a, ha', _⟩
      rw [ha] at ha'
      cases ha'
  | some a =>
    rw [ha] at hptr
    change s.keyToUse = a.ptr at hptr
    have hsettled : Settled s p t ↔ if a.hadOwn then
        ∃ u, s.task a.process = some u ∧ u.key.strlen ≠ 0 ∧ (a.process = p ∨ u.key = s.effective t)
        else s.encryptionKey.strlen ≠ 0 ∧ (t.key.strlen = 0 ∨ t.key = s.encryptionKey) := by
      rw [Settled, ha]
      constructor
      · rintro ⟨b, hb, h⟩
        cases hb
        exact h
      · exact fun h => ⟨a, rfl, h⟩
    rw [hsettled, RightKey, hptr, Assignment.ptr]
    cases hown : a.hadOwn with
    | true =>
      simp only [if_true, Sys.deref, Option.map_eq_some_iff]
      constructor
      · rintro ⟨⟨u, hu, hkey⟩, hne⟩
        exact ⟨u, hu, by rwa [hkey], Or.inr hkey⟩
      · rintro ⟨u, hu, hne, hq | hkey⟩
        · rw [hq, hp] at hu
          cases hu
          rw [effective_own hne]
          exact ⟨⟨t, by rw [hq, hp], rfl⟩, hne⟩
        · exact ⟨⟨u, hu, hkey⟩, by rwa [← hkey]⟩
    | false =>
      simp only [Bool.false_eq_true, if_false, Sys.deref, Option.some.injEq]
      by_cases h₀ : t.key.strlen = 0
      · rw [effective_global h₀]
        exact ⟨fun h => ⟨h.2, Or.inl h₀⟩, fun h => ⟨rfl, h.1⟩⟩
      · rw [effective_own h₀]
        constructor
        · rintro ⟨he, _⟩
          exact ⟨by rwa [he], Or.inr he.symm⟩
        · rintro ⟨_, h | h⟩
          · exact absurd h h₀
          · exact ⟨h.symm, h₀⟩

def KeysRight (s : Sys n) : Prop :=
  ∀ p t inTable, s.task p = some t → s.transforms p t inTable = true → RightKey s t

def KeysSettled (s : Sys n) : Prop :=
  ∀ p t inTable, s.task p = some t → s.transforms p t inTable = true → Settled s p t

/-- In every state of every run the blocks go through the right keys exactly when the last
assignment of `key_to_use` still fits each process in the middle of a transfer. -/
theorem keysRight_iff (s : Sys n) (hs : (keySystem n).Reach (fun _ _ => True) s) :
    KeysRight s ↔ KeysSettled s :=
  forall_congr' fun _ => forall_congr' fun _ => forall_congr' fun _ =>
    forall_congr' fun hp => imp_congr_right fun _ => rightKey_iff (recorded_of_reach hs) hp

def keyCD : CString := ⟨[0x63, 0x64], by decide⟩

def readerSys : Sys 2 :=
  ((booted 2).setKey 0 keyless keyAB kLocal).setActivity 0 .reading

lemma readerSys_reach : (keySystem 2).Reach (fun _ _ => True) readerSys := by
  have h₁ : (keySystem 2).Reach (fun _ _ => True) ((booted 2).setKey 0 keyless keyAB kLocal) :=
    .next (.start rfl) trivial (Step.keyset rfl rfl (by decide))
  exact .next h₁ trivial (Step.read rfl rfl)

theorem keysRight_readerSys : KeysRight readerSys := by
  refine (keysRight_iff readerSys readerSys_reach).mpr ?_
  intro p t inTable hp ht
  match p with
  | 0 =>
    cases hp
    exact ⟨⟨0, true⟩, rfl, _, rfl, by decide, Or.inl rfl⟩
  | 1 => cases ht

def racedSys : Sys 2 := readerSys.setKey 1 keyless keyCD kLocal

theorem keys_race : ¬ ∀ (n : ℕ) (s : Sys n), (keySystem n).Reach (fun _ _ => True) s → KeysRight s := by
  intro h
  have hreach : (keySystem 2).Reach (fun _ _ => True) racedSys :=
    .next readerSys_reach trivial (Step.keyset rfl rfl (by decide))
  have hright := (h 2 racedSys hreach 0 _ true rfl rfl).1
  have hkeys : keyCD = keyAB := Option.some.inj hright
  exact absurd hkeys (by decide)

end Devos.Kernel
