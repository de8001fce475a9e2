import Devos.Fs.Links
import Devos.Fs.OwnWrites

/-! `permission`, `iget`, `iput` and `open_namei` on a disk. -/

namespace Devos.Fs

open Loops

/-- What the calls read of the task that makes them. -/
structure Caller where
  uid : Word
  euid : Word
  gid : Word
  egid : Word
  umask : Word
  root : Word
  pwd : Word

/-- A disk with the rest of its inodes; `iCount` counts the references to each. -/
structure Store extends Disk where
  iUid : Word → Word
  iGid : Word → Byte
  iCount : Word → ℕ

def oAccmode : Word := 3
def oWronly : Word := 1
def oCreat : Word := 0o100
def oExcl : Word := 0o200
def oTrunc : Word := 0o1000
def oAppend : Word := 0o2000

def mayExec : Word := 1
def mayWrite : Word := 2

-- `"\004\002\006\377"[(x)&O_ACCMODE]`, with a signed `char`
def accMode (flag : Word) : Word :=
  if flag &&& oAccmode = 0 then 4 else if flag &&& oAccmode = 1 then 2 else if flag &&& oAccmode = 2 then 6 else -1

def truncFlag (flag : Word) : Word :=
  if flag &&& oTrunc ≠ 0 ∧ flag &&& oAccmode = 0 then flag ||| oWronly else flag

def Caller.superUser (c : Caller) : Prop := ¬ (c.uid ≠ 0 ∧ c.euid ≠ 0)

instance (c : Caller) : Decidable c.superUser := inferInstanceAs (Decidable (¬ _))

namespace Store

variable (s : Store)

def modeFor (c : Caller) (n : Word) : Word :=
  let mode := (s.inodes n).iMode
  if c.superUser then 0o777
  else if c.uid = s.iUid n ∨ c.euid = s.iUid n then mode >>> 6
  else if c.gid.toNat = (s.iGid n).toNat ∨ c.egid.toNat = (s.iGid n).toNat then mode >>> 3
  else mode

def permission (c : Caller) (n mask : Word) : Word :=
  if s.iNlinks n = 0 then 0 else s.modeFor c n &&& mask &&& 7

def setInode (n : Word) (v : Volume) (inode : MInode) : Store := { s with toDevice := s.toDevice.put n v inode }

def setCount (n : Word) (count : ℕ) : Store := { s with iCount := Function.update s.iCount n count }

-- `memset`
def wipe (n mode : Word) (links : Byte) (count : ℕ) : Store :=
  { s.setInode n s.volume ⟨mode, 0, fun _ => 0, n⟩ with
    iNlinks := Function.update s.iNlinks n links
    iUid := Function.update s.iUid n 0
    iGid := Function.update s.iGid n 0
    iCount := Function.update s.iCount n count }

def iget (n : Word) : Store := s.setCount n (s.iCount n + 1)

/-- `busy n` tells which blocks are held while inode `n` is truncated. -/
def iput (busy : Word → Word → Bool) (n : Word) : Except Fault Store :=
  if s.iCount n = 0 then .error .panic
  else if 1 < s.iCount n then .ok (s.setCount n (s.iCount n - 1))
  else if s.iNlinks n = 0 then
    (truncate (busy n) s.volume (s.inodes n)).bind fun r =>
      ((s.setInode n r.1 r.2).toDisk.freeInode n).map fun d => wipe { s with toDisk := d } n 0 0 0
  else .ok (s.setCount n 0)

def Searchable (c : Caller) (inode : Word) : Prop :=
  sIsDir (s.inodes inode).iMode = true ∧ s.permission c inode mayExec ≠ 0

instance (c : Caller) (inode : Word) : Decidable (s.Searchable c inode) := inferInstanceAs (Decidable (_ ∧ _))

/-- The loop of `get_dir`, at an inode whose reference is held, with the names that remain. -/
def walk (c : Caller) (busy : Word → Word → Bool) (s : Store) (inode : Word) :
    List (List Byte) → Except Fault (Store × Option Word)
  | [] => if s.Searchable c inode then .ok (s, some inode) else (s.iput busy inode).map fun s => (s, none)
  | name :: names =>
    if s.Searchable c inode then
      match findEntry s.volume (s.inodes inode) name with
      | .error f => .error f
      | .ok none => (s.iput busy inode).map fun s => (s, none)
      | .ok (some (block, k)) =>
        let n := entryInode (s.volume.data block) k
        (s.iput busy inode).bind fun s => walk c busy (s.iget n) n names
    else (s.iput busy inode).map fun s => (s, none)

-- every name but the last is one of a directory to go through
def getDir (c : Caller) (busy : Word → Word → Bool) (pathname : List Byte) : Except Fault (Store × Option Word) :=
  if s.iCount c.root = 0 ∨ s.iCount c.pwd = 0 then .error .panic
  else
    match pathname with
    | [] => .ok (s, none)
    | 47 :: rest => walk c busy (s.iget c.root) c.root (rest.splitOn 47).dropLast
    | rest => walk c busy (s.iget c.pwd) c.pwd (rest.splitOn 47).dropLast

def basename (pathname : List Byte) : List Byte := (pathname.splitOn 47).getLastD []

/-- `new_inode`, with the mode that `open_namei` gives the inode. -/
def newInode (mode : Word) : Option (Word × Store) :=
  s.toDisk.newInode.map fun r => (r.1, wipe { s with toDisk := r.2 } r.1 mode 1 1)

-- `open_namei` when the directory has no entry of that name
def openAbsent (c : Caller) (busy : Word → Word → Bool) (dir : Word) (name : List Byte) (flag mode : Word) :
    Except Fault (Store × Except ℤ Word) :=
  if flag &&& oCreat = 0 then (s.iput busy dir).map fun s => (s, .error (-enoent))
  else if s.permission c dir mayWrite = 0 then (s.iput busy dir).map fun s => (s, .error (-eacces))
  else
    match s.newInode mode with
    | none => (s.iput busy dir).map fun s => (s, .error (-enospc))
    | some (n, s) =>
      match addEntry s.volume (s.inodes dir) name with
      | .error f => .error f
      | .ok (none, v, d) =>
        let s := s.setInode dir v d
        (iput { s with iNlinks := Function.update s.iNlinks n (s.iNlinks n - 1) } busy n).bind fun s =>
          (s.iput busy dir).map fun s => (s, .error (-enospc))
      | .ok (some p, _) =>
        let s := s.setInode dir (p.volume.put p.block ((p.volume.data p.block).setWord (8 * p.k) n)) p.dir
        (s.iput busy dir).map fun s => (s, .ok n)

-- and when its entry names inode `n`
def openFound (c : Caller) (busy : Word → Word → Bool) (dir n flag : Word) : Except Fault (Store × Except ℤ Word) :=
  (s.iput busy dir).bind fun s =>
    if flag &&& oExcl ≠ 0 then .ok (s, .error (-eexist))
    else
      let s := s.iget n
      if sIsDir (s.inodes n).iMode = true ∧ flag &&& oAccmode ≠ 0 ∨ s.permission c n (accMode flag) ≠ accMode flag then
        (s.iput busy n).map fun s => (s, .error (-eperm))
      else if flag &&& oTrunc ≠ 0 then
        (truncate (busy n) s.volume (s.inodes n)).map fun r => (s.setInode n r.1 r.2, .ok n)
      else .ok (s, .ok n)

def openNamei (c : Caller) (busy : Word → Word → Bool) (pathname : List Byte) (flag mode : Word) :
    Except Fault (Store × Except ℤ Word) :=
  let flag := truncFlag flag
  let mode := mode &&& 0o777 &&& ~~~c.umask ||| iRegular
  (s.getDir c busy pathname).bind fun r =>
    match r with
    | (s, none) => .ok (s, .error (-enoent))
    | (s, some dir) =>
      if basename pathname = [] then
        if flag &&& (oAccmode ||| oCreat ||| oTrunc) = 0 then .ok (s, .ok dir)
        else (s.iput busy dir).map fun s => (s, .error (-eisdir))
      else
        match findEntry s.volume (s.inodes dir) (basename pathname) with
        | .error f => .error f
        | .ok none => s.openAbsent c busy dir (basename pathname) flag mode
        | .ok (some (block, k)) => s.openFound c busy dir (entryInode (s.volume.data block) k) flag

end Store

/-- The disk has one owner for each block, and file `t` is on it. -/
structure Store.Allotted (t : Word) (s : Store) : Prop where
  owned : Owned s.toDevice
  imap : s.imap t.toNat = true
  nInodes_lt : s.nInodes < 65536

/-- What a call leaves of file `t` that it does not write to. -/
structure Store.Kept (t : Word) (s s' : Store) : Prop where
  allotted : s'.Allotted t
  same : SameFile t s.toDevice s'.toDevice
  links : s'.iNlinks t = s.iNlinks t
  uid : s'.iUid t = s.iUid t
  gid : s'.iGid t = s.iGid t

/-- File `t` outlasts the release of the references in the list. -/
def Store.Outlasts (t : Word) (held : List Word) (s : Store) : Prop :=
  s.iNlinks t ≠ 0 ∨ held.count t < s.iCount t

section Kept

variable {s s' s'' : Store} {t n : Word} {held : List Word} {c : Caller} {busy : Word → Word → Bool}

lemma Store.Allotted.kept (h : s.Allotted t) : s.Kept t s := ⟨h, .refl t _, rfl, rfl, rfl⟩

lemma Store.Kept.trans (h : s.Kept t s') (h' : s'.Kept t s'') : s.Kept t s'' :=
  ⟨h'.allotted, h.same.trans h'.same, h'.links.trans h.links, h'.uid.trans h.uid, h'.gid.trans h.gid⟩

lemma Store.Kept.permission (h : s.Kept t s') (c : Caller) (mask : Word) :
    s'.permission c t mask = s.permission c t mask := by
  simp only [Store.permission, Store.modeFor, h.links, h.uid, h.gid, h.same.inode]

lemma Store.Kept.outlasts (h : s.Kept t s') (hcount : s'.iCount t = s.iCount t) (ho : s.Outlasts t held) :
    s'.Outlasts t held := by
  rw [Store.Outlasts, h.links, hcount]
  exact ho

lemma kept_setCount (h : s.Allotted t) (n : Word) (k : ℕ) : s.Kept t (s.setCount n k) :=
  ⟨⟨h.owned, h.imap, h.nInodes_lt⟩, ⟨rfl, fun _ _ => rfl⟩, rfl, rfl, rfl⟩

lemma kept_iget (h : s.Allotted t) (n : Word) : s.Kept t (s.iget n) := kept_setCount h n _

lemma iget_outlasts (h : s.Outlasts t held) (n : Word) : (s.iget n).Outlasts t (n :: held) := by
  refine h.imp_right fun hlt => ?_
  change _ < Function.update s.iCount n (s.iCount n + 1) t
  rw [List.count_cons]
  by_cases hn : n = t
  · rw [← hn, Function.update_self, hn]
    simpa using hlt
  · rw [Function.update_of_ne (Ne.symm hn)]
    simpa [hn] using hlt

lemma outlasts_cons (hn : n ≠ t) (h : s.Outlasts t held) : s.Outlasts t (n :: held) := by
  refine h.imp_right fun hlt => ?_
  rwa [List.count_cons_of_ne hn]

lemma kept_setInode (h : s.Allotted t) {v : Volume} {inode : MInode}
    (ho : Owned (s.toDevice.put n v inode)) (hsame : SameFile t s.toDevice (s.toDevice.put n v inode)) :
    s.Kept t (s.setInode n v inode) :=
  ⟨⟨ho, h.imap, h.nInodes_lt⟩, hsame, rfl, rfl, rfl⟩

lemma kept_writes (h : s.Allotted t) (hn : n ≠ t) (hplain : ¬ (s.inodes n).special) {v : Volume} {inode : MInode}
    (hw : OwnWrites s.volume (s.inodes n) v inode) : s.Kept t (s.setInode n v inode) := by
  obtain ⟨howned, _, hsame⟩ := OwnWrites.frame h.owned hplain hw
  exact kept_setInode h howned (hsame t hn.symm)

lemma kept_links (h : s.Allotted t) (hn : n ≠ t) (links : Byte) :
    s.Kept t { s with iNlinks := Function.update s.iNlinks n links } :=
  ⟨⟨h.owned, h.imap, h.nInodes_lt⟩, .refl t _, Function.update_of_ne hn.symm _ _, rfl, rfl⟩

lemma kept_truncate (h : s.Allotted t) (hn : n ≠ t) {v : Volume} {inode : MInode}
    (ht : truncate (busy n) s.volume (s.inodes n) = .ok (v, inode)) : s.Kept t (s.setInode n v inode) := by
  obtain ⟨v', inode', ht', howned⟩ := h.owned.truncates (busy n) n
  rw [ht] at ht'
  cases ht'
  exact kept_setInode h howned ((h.owned.truncate_freed ht).sameFile hn.symm inode)

lemma toNat_ne (hn : n ≠ t) : t.toNat ≠ n.toNat := fun h => hn (BitVec.eq_of_toNat_eq h.symm)

lemma kept_wipe (h : s.Allotted t) (hn : n ≠ t) {d : Disk} {v : Volume} (inode : MInode) (b : Bool)
    (hfreed : Freed s.volume (Blocks s.volume (s.inodes n).blocks) v)
    (hd : d = { s.toDisk with
      toDevice := s.toDevice.put n v inode, imap := Function.update s.imap n.toNat b })
    (mode : Word) (links : Byte) (count : ℕ) :
    s.Kept t (Store.wipe { s with toDisk := d } n mode links count) := by
  have hdev : (Store.wipe { s with toDisk := d } n mode links count).toDevice =
      s.toDevice.put n v ⟨mode, 0, fun _ => 0, n⟩ := by
    rw [hd]
    exact put_put _ _ _ _ _ _
  refine ⟨⟨?_, ?_, ?_⟩, ?_, ?_, ?_, ?_⟩
  · rw [hdev]
    exact h.owned.wiped hfreed fun _ => rfl
  · rw [hd]
    exact (Function.update_of_ne (toNat_ne hn) _ _).trans h.imap
  · rw [hd]
    exact h.nInodes_lt
  · rw [hdev]
    exact hfreed.sameFile hn.symm _
  · rw [hd]
    exact Function.update_of_ne hn.symm _ _
  · exact Function.update_of_ne hn.symm _ _
  · exact Function.update_of_ne hn.symm _ _

/-- Only the release of the last reference to an unlinked file touches it. -/
lemma iput_frame (h : s.Allotted t) (hlast : n = t → s.Outlasts t [t]) (hs : s.iput busy n = .ok s') :
    s.Kept t s' ∧ s'.iCount t = if n = t then s.iCount t - 1 else s.iCount t := by
  have hset : ∀ k, (n = t → k = s.iCount t - 1) →
      Function.update s.iCount n k t = if n = t then s.iCount t - 1 else s.iCount t := by
    intro k hk
    by_cases hn : n = t
    · rw [hn, Function.update_self, if_pos rfl, hk hn]
    · rw [Function.update_of_ne (Ne.symm hn), if_neg hn]
  rw [Store.iput] at hs
  split at hs
  · cases hs
  · split at hs
    · cases hs
      exact ⟨kept_setCount h n _, hset _ fun hn => by rw [hn]⟩
    · rename_i h₀ h₁
      split at hs
      · rename_i hlinks
        have hn : n ≠ t := by
          rintro rfl
          rcases hlast rfl with hl | hlt
          · exact hl hlinks
          · rw [List.count_singleton_self] at hlt
            exact h₁ hlt
        obtain ⟨r, ht, hs⟩ := bind_eq_ok hs
        obtain ⟨d, hd, rfl⟩ := map_eq_ok hs
        refine ⟨kept_wipe h hn r.2 false (h.owned.truncate_freed ht) ?_ 0 0 0, hset 0 fun he => absurd he hn⟩
        rw [Disk.freeInode] at hd
        split at hd
        · cases hd
        · split at hd
          · cases hd
          · cases hd
            rfl
      · cases hs
        refine ⟨kept_setCount h n _, hset 0 ?_⟩
        rintro rfl
        omega

/-- A file that outlasts all references is untouched when one of them goes back. -/
lemma iput_kept (h : s.Allotted t) (ho : s.Outlasts t (n :: held)) (hs : s.iput busy n = .ok s') :
    s.Kept t s' ∧ s'.Outlasts t held := by
  have hheld : (n :: held).count t = held.count t + if n = t then 1 else 0 := by
    rw [List.count_cons]
    simp
  have hlast : n = t → s.Outlasts t [t] := by
    intro hn
    refine ho.imp_right fun hlt => ?_
    rw [hheld, if_pos hn] at hlt
    rw [List.count_singleton_self]
    omega
  obtain ⟨hk, hcount⟩ := iput_frame h hlast hs
  refine ⟨hk, ho.imp (fun hl => by rwa [hk.links]) fun hlt => ?_⟩
  rw [hheld] at hlt
  rw [hcount]
  split at hlt
  next hn =>
    rw [if_pos hn]
    omega
  next hn =>
    rw [if_neg hn]
    omega

lemma walk_kept {names : List (List Byte)} {r : Option Word} (h : s.Allotted t)
    (ho : s.Outlasts t (n :: held)) (hs : Store.walk c busy s n names = .ok (s', r)) :
    s.Kept t s' ∧ s'.Outlasts t (r.toList ++ held) ∧ ∀ dir, r = some dir → sIsDir (s'.inodes dir).iMode = true := by
  induction names generalizing s n with
  | nil =>
    rw [Store.walk] at hs
    split at hs
    · rename_i hdir
      cases hs
      refine ⟨h.kept, ho, fun dir he => ?_⟩
      cases he
      exact hdir.1
    · obtain ⟨s₁, hput, he⟩ := map_eq_ok hs
      cases he
      obtain ⟨hk, ho'⟩ := iput_kept h ho hput
      exact ⟨hk, ho', fun dir he => (by cases he)⟩
  | cons name names ih =>
    rw [Store.walk] at hs
    split at hs
    · cases hfind : findEntry s.volume (s.inodes n) name with
      | error f =>
        rw [hfind] at hs
        cases hs
      | ok found =>
        rw [hfind] at hs
        cases found with
        | none =>
          obtain ⟨s₁, hput, he⟩ := map_eq_ok hs
          cases he
          obtain ⟨hk, ho'⟩ := iput_kept h ho hput
          exact ⟨hk, ho', fun dir he => (by cases he)⟩
        | some p =>
          obtain ⟨s₁, hput, hnext⟩ := bind_eq_ok hs
          obtain ⟨hk, ho'⟩ := iput_kept h ho hput
          have hget := kept_iget hk.allotted (entryInode (s.volume.data p.1) p.2)
          obtain ⟨hk', hend⟩ := ih hget.allotted (iget_outlasts ho' _) hnext
          exact ⟨(hk.trans hget).trans hk', hend⟩
    · obtain ⟨s₁, hput, he⟩ := map_eq_ok hs
      cases he
      obtain ⟨hk, ho'⟩ := iput_kept h ho hput
      exact ⟨hk, ho', fun dir he => (by cases he)⟩

lemma getDir_kept {pathname : List Byte} {r : Option Word} (h : s.Allotted t) (ho : s.Outlasts t [])
    (hs : s.getDir c busy pathname = .ok (s', r)) :
    s.Kept t s' ∧ s'.Outlasts t r.toList ∧ ∀ dir, r = some dir → sIsDir (s'.inodes dir).iMode = true := by
  have hwalk : ∀ n names, Store.walk c busy (s.iget n) n names = .ok (s', r) →
      s.Kept t s' ∧ s'.Outlasts t r.toList ∧ ∀ dir, r = some dir → sIsDir (s'.inodes dir).iMode = true := by
    intro n names hw
    have hget := kept_iget h n
    obtain ⟨hk, ho', hdir⟩ := walk_kept hget.allotted (iget_outlasts ho n) hw
    rw [List.append_nil] at ho'
    exact ⟨hget.trans hk, ho', hdir⟩
  unfold Store.getDir at hs
  split at hs
  · cases hs
  · split at hs
    · cases hs
      exact ⟨h.kept, ho, fun dir he => (by cases he)⟩
    · exact hwalk _ _ hs
    · exact hwalk _ _ hs

lemma newInode_kept {mode : Word} (h : s.Allotted t) (hs : s.newInode mode = some (n, s')) :
    n ≠ t ∧ s.Kept t s' ∧ s'.iCount t = s.iCount t ∧
      ∀ m, s'.inodes m = s.inodes m ∨ (s'.inodes m).iMode = mode := by
  obtain ⟨⟨n', d⟩, hd, he⟩ := Option.map_eq_some_iff.mp hs
  cases he
  rw [Disk.newInode] at hd
  split at hd
  · cases hd
  · rename_i j hj
    split at hd
    · cases hd
    · rename_i hle
      cases hd
      have hfree : s.imap j = false := by simpa using List.find?_some hj
      have hlt := h.nInodes_lt
      have hval : (BitVec.ofNat 16 j).toNat = j := by
        rw [BitVec.toNat_ofNat]
        omega
      have hn : BitVec.ofNat 16 j ≠ t := by
        intro hn
        rw [← hval, hn, h.imap] at hfree
        cases hfree
      have hself : s.toDevice.put (BitVec.ofNat 16 j) s.volume (s.inodes (BitVec.ofNat 16 j)) = s.toDevice :=
        put_self _ _
      refine ⟨hn, kept_wipe h hn (s.inodes (BitVec.ofNat 16 j)) true (.refl s.volume _) ?_ mode 1 1, ?_, ?_⟩
      · rw [hself, hval]
      · exact Function.update_of_ne hn.symm _ _
      · intro m
        by_cases hm : m = BitVec.ofNat 16 j
        · refine Or.inr ?_
          rw [hm]
          change (Function.update s.inodes (BitVec.ofNat 16 j) _ (BitVec.ofNat 16 j)).iMode = mode
          rw [Function.update_self]
        · exact Or.inl (Function.update_of_ne hm _ _)

end Kept

/-- Whether `open` has been asked for the right to write. -/
def AsksWrite (flag : Word) : Prop := flag &&& oAccmode ≠ 0 ∨ flag &&& oTrunc ≠ 0

section Denied

variable {s : Store} {c : Caller} {n : Word} {flag : Word}

lemma truncFlag_read (h : truncFlag flag &&& oAccmode = 0) : truncFlag flag = flag ∧ ¬ AsksWrite flag := by
  by_cases hset : flag &&& oTrunc ≠ 0 ∧ flag &&& oAccmode = 0
  · rw [truncFlag, if_pos hset, BitVec.and_or_distrib_right, hset.2] at h
    exact absurd h (by decide)
  · rw [truncFlag, if_neg hset] at h ⊢
    refine ⟨rfl, ?_⟩
    rintro (hacc | htrunc)
    · exact hacc h
    · exact hset ⟨htrunc, h⟩

lemma bits_of_mask {x a b : Word} (h : x &&& a &&& 7 = b) (k : Word) : x &&& (a &&& 7 &&& k) = b &&& k := by
  rw [← h]
  simp only [BitVec.and_assoc]

/-- Without the right to write, only a flag that asks to read alone is granted. -/
lemma accMode_denied (hd : s.permission c n mayWrite = 0)
    (h : s.permission c n (accMode flag) = accMode flag) : flag &&& oAccmode = 0 := by
  by_contra hread
  have hcases : accMode flag = mayWrite ∨ accMode flag = 6 ∨ accMode flag = -1 := by
    rw [accMode, if_neg hread]
    split
    · exact Or.inl rfl
    · split
      · exact Or.inr (Or.inl rfl)
      · exact Or.inr (Or.inr rfl)
  rcases hcases with hm | hm | hm
  · rw [hm, hd] at h
    exact absurd h (by decide)
  · rw [hm] at h
    rw [Store.permission] at h hd
    split at h
    · exact absurd h (by decide)
    · rename_i hlinks
      rw [if_neg hlinks] at hd
      have htwo := (bits_of_mask h 2).symm.trans (bits_of_mask hd 2)
      exact absurd htwo (by decide)
  · rw [hm] at h
    rw [Store.permission] at h
    split at h
    · exact absurd h (by decide)
    · have height := bits_of_mask h 8
      rw [show (-1 : Word) &&& 7 &&& 8 = 0#16 by decide, BitVec.and_zero] at height
      exact absurd height (by decide)

end Denied

/-- What `open_namei` leaves of a file that the caller may not write to, and of the references to it. -/
structure Opening (t : Word) (flag : Word) (s s' : Store) (r : Except ℤ Word) : Prop where
  kept : s.Kept t s'
  outlasts : s'.Outlasts t r.toOption.toList
  readOnly : r = .ok t → ¬ AsksWrite flag

section Opening

variable {s s' : Store} {t n dir : Word} {c : Caller} {busy : Word → Word → Bool} {flag mode : Word}
  {name : List Byte} {r : Except ℤ Word}

/-- A call that fails gives back the directory. -/
lemma opening_refused {e : ℤ} (h : s.Allotted t) (ho : s.Outlasts t [dir])
    (hs : (s.iput busy dir).map (fun s => (s, (.error e : Except ℤ Word))) = .ok (s', r)) :
    Opening t flag s s' r := by
  obtain ⟨s₁, hput, he⟩ := map_eq_ok hs
  cases he
  obtain ⟨hk, ho'⟩ := iput_kept h ho hput
  exact ⟨hk, ho', fun he => (by cases he)⟩

lemma Opening.after {s₀ : Store} (h : s₀.Kept t s) (ho : Opening t flag s s' r) : Opening t flag s₀ s' r :=
  ⟨h.trans ho.kept, ho.outlasts, ho.readOnly⟩

lemma openFound_opening (h : s.Allotted t) (ho : s.Outlasts t [dir])
    (hd : s.permission c t mayWrite = 0) (hs : s.openFound c busy dir n (truncFlag flag) = .ok (s', r)) :
    Opening t flag s s' r := by
  obtain ⟨s₁, hput, hs⟩ := bind_eq_ok hs
  obtain ⟨hk, ho'⟩ := iput_kept h ho hput
  refine Opening.after hk ?_
  split at hs
  · cases hs
    exact ⟨hk.allotted.kept, ho', fun he => (by cases he)⟩
  · have hget := kept_iget hk.allotted n
    have hgot := iget_outlasts ho' n
    refine Opening.after hget ?_
    dsimp only at hs
    split at hs
    · exact opening_refused hget.allotted hgot hs
    · rename_i hgo
      have hmode : (s₁.iget n).permission c n (accMode (truncFlag flag)) = accMode (truncFlag flag) := by
        by_contra hne
        exact hgo (Or.inr hne)
      have hread : n = t → truncFlag flag = flag ∧ ¬ AsksWrite flag := by
        rintro rfl
        have hdenied : (s₁.iget n).permission c n mayWrite = 0 := by
          rw [hget.permission, hk.permission, hd]
        exact truncFlag_read (accMode_denied hdenied hmode)
      split at hs
      · rename_i htrunc
        have hn : n ≠ t := by
          intro hn
          obtain ⟨hsame, hno⟩ := hread hn
          rw [hsame] at htrunc
          exact hno (Or.inr htrunc)
        obtain ⟨⟨v, inode⟩, ht, he⟩ := map_eq_ok hs
        cases he
        have hcut := kept_truncate hget.allotted hn ht
        exact ⟨hcut, hcut.outlasts rfl hgot, fun he => absurd (Except.ok.inj he) hn⟩
      · cases hs
        exact ⟨hget.allotted.kept, hgot, fun he => (hread (Except.ok.inj he)).2⟩

lemma openAbsent_opening (h : s.Allotted t) (ho : s.Outlasts t [dir]) (hdir : sIsDir (s.inodes dir).iMode = true)
    (hmode : sIsReg mode = true) (hd : s.permission c t mayWrite = 0)
    (hs : s.openAbsent c busy dir name flag mode = .ok (s', r)) (flag' : Word) : Opening t flag' s s' r := by
  rw [Store.openAbsent] at hs
  split at hs
  · exact opening_refused h ho hs
  · split at hs
    · exact opening_refused h ho hs
    · rename_i hwrite
      have hne : dir ≠ t := by
        rintro rfl
        exact hwrite hd
      cases hnew : s.newInode mode with
      | none =>
        rw [hnew] at hs
        exact opening_refused h ho hs
      | some p =>
        obtain ⟨n, s₁⟩ := p
        obtain ⟨hn, hk, hcount, hinodes⟩ := newInode_kept h hnew
        have ho₁ := hk.outlasts hcount ho
        have hplain : ¬ (s₁.inodes dir).special := by
          rcases hinodes dir with he | he
          · rw [he]
            exact not_special (Or.inr hdir)
          · exact not_special (Or.inl (by rwa [he]))
        have hc := hk.allotted.owned.consistent dir
        rw [blocks_of_plain hplain] at hc
        have hadd : AddResultOwn s₁.volume (s₁.inodes dir) (addEntry s₁.volume (s₁.inodes dir) name) :=
          addEntry_own hc
        refine Opening.after hk ?_
        rw [hnew] at hs
        dsimp only at hs
        split at hs
        · cases hs
        · rename_i v d he
          have hwrote := kept_writes hk.allotted hne hplain (hadd _ _ _ he).1
          have hlinks := kept_links hwrote.allotted hn (s₁.iNlinks n - 1)
          obtain ⟨s₂, hput, hs⟩ := bind_eq_ok hs
          have ho₂ := hlinks.outlasts rfl (hwrote.outlasts rfl ho₁)
          obtain ⟨hk₂, ho₂⟩ := iput_kept hlinks.allotted (outlasts_cons hn ho₂) hput
          exact Opening.after ((hwrote.trans hlinks).trans hk₂) (opening_refused hk₂.allotted ho₂ hs)
        · rename_i p w he
          obtain ⟨v, d⟩ := w
          have hown := (hadd _ _ _ he).2 p rfl
          have hwrote := kept_writes hk.allotted hne hplain (hown.writes.put_block hown.block
            ((p.volume.data p.block).setWord (8 * p.k) n))
          obtain ⟨s₂, hput, he⟩ := map_eq_ok hs
          cases he
          obtain ⟨hk₂, ho₂⟩ := iput_kept hwrote.allotted (hwrote.outlasts rfl ho₁) hput
          exact ⟨hwrote.trans hk₂, outlasts_cons hn ho₂, fun he => absurd (Except.ok.inj he) hn⟩

lemma isReg_of_mode (mode mask : Word) : sIsReg (mode &&& 0o777 &&& mask ||| iRegular) = true := by
  have hmask : mode &&& 0o777 &&& mask &&& sIfmt = mode &&& mask &&& (0o777 &&& sIfmt) := by ac_rfl
  rw [sIsReg, decide_eq_true_eq, BitVec.and_or_distrib_right, hmask,
    show (0o777 : Word) &&& sIfmt = 0#16 by decide, BitVec.and_zero, BitVec.zero_or]
  decide

/-- Whatever the path and the flags, `open` changes nothing of a file that the caller may not write to, and
opens it to read alone. -/
lemma openNamei_opening {pathname : List Byte} (h : s.Allotted t) (ho : s.Outlasts t [])
    (hd : s.permission c t mayWrite = 0) (hs : s.openNamei c busy pathname flag mode = .ok (s', r)) :
    Opening t flag s s' r := by
  obtain ⟨⟨s₁, found⟩, hdir, hs⟩ := bind_eq_ok hs
  obtain ⟨hk, ho', hisDir⟩ := getDir_kept h ho hdir
  refine Opening.after hk ?_
  have hd' : s₁.permission c t mayWrite = 0 := by rw [hk.permission, hd]
  cases found with
  | none =>
    cases hs
    exact ⟨hk.allotted.kept, ho', fun he => (by cases he)⟩
  | some dir =>
    dsimp only at hs
    split at hs
    · split at hs
      · rename_i hflag
        cases hs
        refine ⟨hk.allotted.kept, ho', fun _ => (truncFlag_read ?_).2⟩
        have hmask : oAccmode = (oAccmode ||| oCreat ||| oTrunc) &&& oAccmode := by decide
        rw [hmask, ← BitVec.and_assoc, hflag]
        exact BitVec.zero_and
      · exact opening_refused hk.allotted ho' hs
    · cases hfind : findEntry s₁.volume (s₁.inodes dir) (Store.basename pathname) with
      | error f =>
        rw [hfind] at hs
        cases hs
      | ok found =>
        rw [hfind] at hs
        cases found with
        | none =>
          exact openAbsent_opening hk.allotted ho' (hisDir dir rfl) (isReg_of_mode _ _) hd' hs flag
        | some p => exact openFound_opening hk.allotted ho' hd' hs

end Opening

end Devos.Fs
