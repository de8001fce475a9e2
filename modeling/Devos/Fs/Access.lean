import Devos.Fs.WriteAccess

/-! `sys_access` beside `permission`. -/

namespace Devos.Fs

open Loops

def mayRead : Word := 4

namespace Store

variable (s : Store)

def namei (c : Caller) (busy : Word → Word → Bool) (pathname : List Byte) : Except Fault (Store × Option Word) :=
  (s.getDir c busy pathname).bind fun r =>
    match r with
    | (s, none) => .ok (s, none)
    | (s, some dir) =>
      if basename pathname = [] then .ok (s, some dir)
      else
        match findEntry s.volume (s.inodes dir) (basename pathname) with
        | .error f => .error f
        | .ok none => (s.iput busy dir).map fun s => (s, none)
        | .ok (some (block, k)) =>
          let n := entryInode (s.volume.data block) k
          (s.iput busy dir).map fun s => (s.iget n, some n)

end Store

/-- `res` in `sys_access`, before the bits behind it are cut off. -/
def accessBits (c : Caller) (iMode uid : Word) (gid : Byte) : Word :=
  let res := iMode &&& 0o777
  let res := if c.superUser then (if res &&& 0o111 ≠ 0 then 0o777 else 0o666) else res
  if c.euid = uid then res >>> 6
  else if c.egid.toNat = gid.toNat then res >>> 6   -- the bits of the group are those from 3 on
  else res

def accessMask (mode : BitVec 32) : Word := (mode &&& 7).setWidth 16

-- the owner and the group are read after the reference has gone back
def Store.sysAccess (s : Store) (c : Caller) (busy : Word → Word → Bool) (filename : List Byte) (mode : BitVec 32) :
    Except Fault (Store × ℤ) :=
  let mask := accessMask mode
  (s.namei c busy filename).bind fun r =>
    match r with
    | (s, none) => .ok (s, -eacces)
    | (s, some n) =>
      let iMode := (s.inodes n).iMode
      (s.iput busy n).map fun s =>
        (s, if accessBits c iMode (s.iUid n) (s.iGid n) &&& 7 &&& mask = mask then 0 else -eacces)

def Within (m bits : Word) : Prop := m &&& bits = m

instance (m bits : Word) : Decidable (Within m bits) := inferInstanceAs (Decidable (_ = _))

/-- Of a file with links the rights `m` are judged by the same bits of the mode, or by bits that make no
difference to them; of a file without links, whose owner is wiped with its last reference, nothing is promised. -/
def Store.AccessSound (s : Store) (c : Caller) (n m : Word) : Prop :=
  let mode := (s.inodes n).iMode
  if s.iNlinks n = 0 then
    m ≠ 0 → ¬ Within m (accessBits c mode (if s.iCount n = 1 then 0 else s.iUid n) (if s.iCount n = 1 then 0 else s.iGid n))
  else if c.euid = s.iUid n then True
  else if c.uid = s.iUid n then
    c.egid.toNat = (s.iGid n).toNat ∨ (Within m mode → Within m (mode >>> 6))
  else if c.egid.toNat = (s.iGid n).toNat then Within m (mode >>> 6) → Within m (mode >>> 3)
  else if c.gid.toNat = (s.iGid n).toNat then Within m mode → Within m (mode >>> 3)
  else True

instance (s : Store) (c : Caller) (n m : Word) : Decidable (s.AccessSound c n m) := by
  unfold Store.AccessSound
  infer_instance

section Bits

variable {m x : Word} {mode : BitVec 32} {i : ℕ}

lemma accessMask_bit (i : ℕ) (mode : BitVec 32) : (accessMask mode).getLsbD i = (decide (i < 3) && mode.getLsbD i) := by
  have hseven : (7 : BitVec 32) = BitVec.setWidth 32 (BitVec.allOnes 3) := by decide
  simp only [accessMask, hseven, BitVec.getLsbD_setWidth, BitVec.getLsbD_and, BitVec.getLsbD_allOnes]
  by_cases hi : i < 3
  · simp [hi, show i < 16 by omega, show i < 32 by omega]
  · simp [hi]

lemma within_iff : Within m x ↔ ∀ i, m.getLsbD i = true → x.getLsbD i = true := by
  constructor
  · intro h i hi
    rw [← h, BitVec.getLsbD_and, Bool.and_eq_true] at hi
    exact hi.2
  · intro h
    apply BitVec.eq_of_getLsbD_eq
    intro i _
    rw [BitVec.getLsbD_and]
    cases hm : m.getLsbD i with
    | false => rfl
    | true => exact h i hm

lemma within_zero : Within m 0 ↔ m = 0 := by
  have hand : m &&& 0 = 0 := BitVec.and_zero
  rw [Within, hand]
  exact eq_comm

lemma and_bit (hi : i < 3) : x &&& BitVec.twoPow 16 i ≠ 0 ↔ x.getLsbD i = true := by
  have hpow : ∀ i, i < 3 → BitVec.twoPow 16 i ≠ 0 := by decide
  rw [BitVec.and_twoPow]
  split
  · exact iff_of_true (hpow i hi) ‹_›
  · exact iff_of_false (fun h => h rfl) ‹_›

lemma mem_rights : m ∈ [mayExec, mayWrite, mayRead] ↔ ∃ i, i < 3 ∧ m = BitVec.twoPow 16 i := by
  have hexec : mayExec = BitVec.twoPow 16 0 := by decide
  have hwrite : mayWrite = BitVec.twoPow 16 1 := by decide
  have hread : mayRead = BitVec.twoPow 16 2 := by decide
  rw [hexec, hwrite, hread]
  simp only [List.mem_cons, List.not_mem_nil, or_false]
  constructor
  · rintro (h | h | h)
    · exact ⟨0, by decide, h⟩
    · exact ⟨1, by decide, h⟩
    · exact ⟨2, by decide, h⟩
  · rintro ⟨i, hi, h⟩
    obtain rfl | rfl | rfl : i = 0 ∨ i = 1 ∨ i = 2 := by omega
    · exact .inl h
    · exact .inr (.inl h)
    · exact .inr (.inr h)

/-- Asked for one at a time, the rights of the mask are those that `x` has together. -/
lemma granted_iff (mode : BitVec 32) (x : Word) :
    (∀ m ∈ [mayExec, mayWrite, mayRead], accessMask mode &&& m ≠ 0 → x &&& m &&& 7 ≠ 0) ↔ Within (accessMask mode) x := by
  have hseven : ∀ i, i < 3 → BitVec.twoPow 16 i &&& 7 = BitVec.twoPow 16 i := by decide
  rw [within_iff]
  constructor
  · intro h i hm
    have hi : i < 3 := by
      rw [accessMask_bit, Bool.and_eq_true, decide_eq_true_eq] at hm
      exact hm.1
    have hx := h _ (mem_rights.mpr ⟨i, hi, rfl⟩) ((and_bit hi).mpr hm)
    rw [BitVec.and_assoc, hseven i hi] at hx
    exact (and_bit hi).mp hx
  · intro h m hm hmask
    obtain ⟨i, hi, rfl⟩ := mem_rights.mp hm
    rw [BitVec.and_assoc, hseven i hi]
    exact (and_bit hi).mpr (h i ((and_bit hi).mp hmask))

lemma accessed_iff (mode : BitVec 32) (x : Word) : x &&& 7 &&& accessMask mode = accessMask mode ↔ Within (accessMask mode) x := by
  have hmask : 7 &&& accessMask mode = accessMask mode := by
    rw [BitVec.and_comm]
    apply within_iff.mpr
    intro i hi
    rw [accessMask_bit, Bool.and_eq_true, decide_eq_true_eq] at hi
    have hbits : ∀ i, i < 3 → (7 : Word).getLsbD i = true := by decide
    exact hbits i hi.1
  rw [BitVec.and_assoc, hmask, BitVec.and_comm]
  exact Iff.rfl

lemma within_shift (mode : BitVec 32) (x : Word) (hi : i ≤ 6) :
    Within (accessMask mode) ((x &&& 0o777) >>> i) ↔ Within (accessMask mode) (x >>> i) := by
  have hbits : ∀ j, j < 9 → (0o777 : Word).getLsbD j = true := by decide
  simp only [within_iff, BitVec.getLsbD_ushiftRight, BitVec.getLsbD_and]
  refine forall_congr' fun j => imp_congr_right fun hj => ?_
  rw [accessMask_bit, Bool.and_eq_true, decide_eq_true_eq] at hj
  rw [hbits (i + j) (by omega), Bool.and_true]

end Bits

section Access

variable {s s₁ s' : Store} {c : Caller} {busy : Word → Word → Bool} {n : Word} {filename : List Byte} {mode : BitVec 32}
  {r : ℤ}

/-- `iput` wipes the owner of a file without links with its last reference. -/
lemma iput_owner (h : s.iput busy n = .ok s') :
    s'.iUid n = (if s.iNlinks n = 0 ∧ s.iCount n = 1 then 0 else s.iUid n) ∧
      s'.iGid n = (if s.iNlinks n = 0 ∧ s.iCount n = 1 then 0 else s.iGid n) := by
  rw [Store.iput] at h
  split_ifs at h with h₀ h₁ hlinks
  · cases h
    have hcount : s.iCount n ≠ 1 := by omega
    simp [Store.setCount, hcount]
  · obtain ⟨r, _, h⟩ := bind_eq_ok h
    obtain ⟨d, _, rfl⟩ := map_eq_ok h
    have hcount : s.iCount n = 1 := by omega
    simp [Store.wipe, hlinks, hcount]
  · cases h
    have hlast : ¬ (s.iNlinks n = 0 ∧ s.iCount n = 1) := fun hh => hlinks hh.1
    rw [if_neg hlast, if_neg hlast]
    exact ⟨rfl, rfl⟩

lemma permission_eq (s : Store) (c : Caller) (n m : Word) :
    s.permission c n m = (if s.iNlinks n = 0 then 0 else s.modeFor c n) &&& m &&& 7 := by
  rw [Store.permission]
  split_ifs
  · simp
  · rfl

lemma within_access (hsuper : ¬ c.superUser) (mode : BitVec 32) (iMode uid : Word) (gid : Byte) :
    Within (accessMask mode) (accessBits c iMode uid gid) ↔
      Within (accessMask mode) (if c.euid = uid ∨ c.egid.toNat = gid.toNat then iMode >>> 6 else iMode) := by
  have hsix := within_shift mode iMode (i := 6) le_rfl
  have hzero := within_shift mode iMode (i := 0) (Nat.zero_le _)
  simp only [BitVec.ushiftRight_zero] at hzero
  rw [accessBits, if_neg hsuper]
  by_cases hu : c.euid = uid
  · simpa [hu] using hsix
  · by_cases hg : c.egid.toNat = gid.toNat
    · simpa [hu, hg] using hsix
    · simpa [hu, hg] using hzero

lemma sysAccess_value (hn : s.namei c busy filename = .ok (s₁, some n)) (hr : s.sysAccess c busy filename mode = .ok (s', r)) :
    s₁.iput busy n = .ok s' ∧
      (r = 0 ↔ Within (accessMask mode) (accessBits c (s₁.inodes n).iMode (s'.iUid n) (s'.iGid n))) := by
  rw [Store.sysAccess, hn] at hr
  obtain ⟨s₂, hput, hr⟩ := map_eq_ok hr
  cases hr
  refine ⟨hput, ?_⟩
  rw [← accessed_iff]
  split_ifs with h
  · exact iff_of_true rfl h
  · exact iff_of_false (by decide) h

end Access

theorem access_agrees_iff {s s₁ s' : Store} {c : Caller} {busy : Word → Word → Bool} {n : Word} {filename : List Byte}
    {mode : BitVec 32} {r : ℤ} (hsuper : ¬ c.superUser) (hn : s.namei c busy filename = .ok (s₁, some n))
    (hr : s.sysAccess c busy filename mode = .ok (s', r)) :
    (r = 0 → ∀ m ∈ [mayExec, mayWrite, mayRead], accessMask mode &&& m ≠ 0 → s₁.permission c n m ≠ 0) ↔
      s₁.AccessSound c n (accessMask mode) := by
  obtain ⟨hput, hzero⟩ := sysAccess_value hn hr
  obtain ⟨huid, hgid⟩ := iput_owner hput
  simp only [permission_eq, granted_iff, hzero, Store.AccessSound]
  by_cases hlinks : s₁.iNlinks n = 0
  · simp only [hlinks, true_and] at huid hgid
    simp only [hlinks, if_true, within_zero, huid, hgid]
    exact not_imp_not.symm
  · simp only [hlinks, false_and, if_false] at huid hgid
    simp only [hlinks, if_false, huid, hgid, within_access hsuper, Store.modeFor, if_neg hsuper]
    by_cases heuid : c.euid = s₁.iUid n
    · simp [heuid]
    · by_cases huid : c.uid = s₁.iUid n
      · by_cases hegid : c.egid.toNat = (s₁.iGid n).toNat
        · simp [heuid, huid, hegid]
        · simp [heuid, huid, hegid]
      · by_cases hegid : c.egid.toNat = (s₁.iGid n).toNat
        · simp [heuid, huid, hegid]
        · by_cases hgid : c.gid.toNat = (s₁.iGid n).toNat
          · simp [heuid, huid, hegid, hgid]
          · simp [heuid, huid, hegid, hgid]

/-- The guest may read what all may read. -/
theorem access_agrees_read :
    ∃ s₁ s', guestStore.namei guest (fun _ _ => false) [120] = .ok (s₁, some 7) ∧
      guestStore.sysAccess guest (fun _ _ => false) [120] 4 = .ok (s', 0) ∧
      ∀ m ∈ [mayExec, mayWrite, mayRead], accessMask 4 &&& m ≠ 0 → s₁.permission guest 7 m ≠ 0 :=
  ⟨((guestStore.iget 1).setCount 1 2).iget 7, _, rfl, rfl,
    (@access_agrees_iff guestStore _ _ guest (fun _ _ => false) 7 [120] 4 0 (by decide) rfl rfl).mpr (by decide) rfl⟩

/-- A file of another user, whose group the guest is in; only the owner may do anything. -/
def privateStore : Store :=
  { guestStore with
    inodes n := ⟨if n = 1 then 0o040555 else 0o100700, if n = 1 then 16 else 1024, guestZones n, n⟩
    iGid _ := 5 }

/-- `access` promises to read, and `permission` refuses it. -/
theorem access_promises_refused :
    ¬ guest.superUser ∧ ∃ s₁ s', privateStore.namei guest (fun _ _ => false) [120] = .ok (s₁, some 7) ∧
      privateStore.sysAccess guest (fun _ _ => false) [120] 4 = .ok (s', 0) ∧ s₁.permission guest 7 mayRead = 0 :=
  ⟨by decide, _, _, rfl, rfl, rfl⟩

end Devos.Fs
