import Devos.Security.EncryptDirectory
import Mathlib.Data.Set.Card

/-! Which directory trees `encrypt_directory` encrypts completely. -/

namespace Devos.Security

open Loops LinearProbing Fs

section Tree

variable (c : EncrCall) (v : Volume)

/-- Entry `k` of directory `d`, in whichever block it is. -/
def entryOf (d : Word) (k : ℕ) : DirEntry :=
  dirEntry (v.data (zoneAt v (c.inodes d) (k / dirEntriesPerBlock))) (k % dirEntriesPerBlock)

structure Live (d : Word) (k : ℕ) : Prop where
  -- `.` and `..` come first
  two_le : 2 ≤ k
  size : 16 * k < (c.inodes d).iSize
  allocated : Allocated v (c.inodes d) (k / dirEntriesPerBlock)
  inode : (entryOf c v d k).inode ≠ 0
  name : (entryOf c v d k).name ≠ hiddenMark

inductive Reachable : Word → Prop
  | target : Reachable c.target
  | entry {d k} : Reachable d → c.isDir d → Live c v d k → Reachable (entryOf c v d k).inode

/-- An entry of the first block with no free entry before it. -/
structure Passed (d : Word) (k : ℕ) : Prop where
  two_le : 2 ≤ k
  lt : k < dirEntriesPerBlock
  inode : ∀ j, 2 ≤ j → j ≤ k → (entryOf c v d j).inode ≠ 0
  name : (entryOf c v d k).name ≠ hiddenMark

inductive Scanned : Word → Prop
  | target : Scanned c.target
  | entry {d k} : Scanned d → c.isDir d → Passed c v d k → Scanned (entryOf c v d k).inode

def Closed (d : Word) : Prop :=
  v.readable (c.dirBlock d) = true ∧ ∃ k, 2 ≤ k ∧ k < dirEntriesPerBlock ∧ (entryOf c v d k).inode = 0

/-- The directories among the entries of `d` below `k`, the last one first. -/
def subdirs (d : Word) : ℕ → List Word
  | 0 => []
  | k + 1 =>
    if 2 ≤ k ∧ (entryOf c v d k).name ≠ hiddenMark ∧ c.isDir (entryOf c v d k).inode then
      (entryOf c v d k).inode :: subdirs d k
    else subdirs d k

/-- `d` is scanned while the directories of the list wait: earlier siblings of `d` and of those above it. -/
inductive Waiting : Word → List Word → Prop
  | target : Waiting c.target []
  | entry {d k stack} : Waiting d stack → c.isDir d → Passed c v d k → c.isDir (entryOf c v d k).inode →
      Waiting (entryOf c v d k).inode (subdirs c v d k ++ stack)

def HasSlots (d : Word) (stack : List Word) : Prop :=
  ∀ k, Passed c v d k → c.inUse d (subdirs c v d k ++ stack) < nrInode

/-- A tree of regular files and directories in which nothing is encrypted, and a table with room for it. -/
structure PlainTree (table : HashTable) : Prop where
  wellFormed : WellFormed c.toRequest v
  isDir : c.isDir c.target
  blocks : ∀ n, Reachable c v n → c.HasBlocks n
  first : ∀ d, Reachable c v d → c.isDir d → c.dirBlock d ≠ 0
  beyond : ∀ d, Reachable c v d → c.isDir d → ∀ k, k < dirEntriesPerBlock →
    (c.inodes d).iSize ≤ 16 * k → (entryOf c v d k).inode = 0
  top : ∀ d k, Reachable c v d → c.isDir d → Live c v d k → (entryOf c v d k).inode ≠ c.target
  once : ∀ d k d' k', Reachable c v d → Reachable c v d' → c.isDir d → c.isDir d' → Live c v d k →
    Live c v d' k' → c.isDir (entryOf c v d k).inode →
    (entryOf c v d k).inode = (entryOf c v d' k').inode → d = d' ∧ k = k'
  plain : ∀ n, Reachable c v n → ¬ Stored table n
  room : (entries table : ℕ∞) + {n | Reachable c v n}.encard ≤ tableSize

/-- Every file is in the table, and all its blocks are encrypted, each of them once. -/
def Complete (s : Sweep) : Prop :=
  ∀ n, Reachable c v n → Stored s.table n ∧ ∀ i, Allocated v (c.inodes n) i →
    s.log.count (zoneAt v (c.inodes n) i) = 1 ∧
      encryptBlock c.key.toCString (c.scratch n i) (v.data (zoneAt v (c.inodes n) i))
        (v.data (zoneAt v (c.inodes n) i)) = .ok (s.volume.data (zoneAt v (c.inodes n) i))

/-- Whatever can be reached is reached before the first free entries, and every directory that is scanned
has one in its first block, which can be read; there are inodes in memory for the walk; and no file has a
hole or an unreadable block before an allocated one. -/
structure Sweepable : Prop where
  scanned : ∀ n, Reachable c v n → Scanned c v n
  closed : ∀ d, Scanned c v d → c.isDir d → Closed c v d
  slots : ∀ d stack, Waiting c v d stack → HasSlots c v d stack
  whole : ∀ n, Reachable c v n → ∀ i, Allocated v (c.inodes n) i → ∀ j, j ≤ i → Mapped v (c.inodes n) j

end Tree

section Entries

variable {c : EncrCall} {v : Volume} {table : HashTable} {d n : Word} {k : ℕ} {stack : List Word}

lemma entryOf_first (hk : k < dirEntriesPerBlock) : entryOf c v d k = dirEntry (v.data (c.dirBlock d)) k := by
  rw [entryOf, Nat.div_eq_of_lt hk, Nat.mod_eq_of_lt hk]
  rfl

lemma PlainTree.live (ht : PlainTree c v table) (hd : Reachable c v d) (hdir : c.isDir d) (hk : Passed c v d k) :
    Live c v d k where
  two_le := hk.two_le
  size := by
    by_contra hge
    exact hk.inode k hk.two_le le_rfl (ht.beyond d hd hdir k hk.lt (not_lt.mp hge))
  allocated := by
    rw [Nat.div_eq_of_lt hk.lt]
    exact ⟨by decide, ht.first d hd hdir⟩
  inode := hk.inode k hk.two_le le_rfl
  name := hk.name

lemma PlainTree.reachable (ht : PlainTree c v table) (h : Scanned c v n) : Reachable c v n := by
  induction h with
  | target => exact .target
  | entry _ hdir hk ih => exact .entry ih hdir (ht.live ih hdir hk)

lemma PlainTree.ne_zero (ht : PlainTree c v table) (h : Reachable c v n) : n ≠ 0 := by
  cases h with
  | target => exact ht.wellFormed.target_ne
  | entry _ _ hk => exact hk.inode

lemma Waiting.scanned (h : Waiting c v d stack) : Scanned c v d := by
  induction h with
  | target => exact .target
  | entry _ hdir hk _ ih => exact .entry ih hdir hk

/-- So the condition on the inodes in memory is asked of every directory that is scanned. -/
lemma Scanned.waiting (h : Scanned c v n) (hn : c.isDir n) : ∃ stack, Waiting c v n stack := by
  induction h with
  | target => exact ⟨[], .target⟩
  | entry _ hdir hk ih =>
    obtain ⟨stack, hs⟩ := ih hdir
    exact ⟨_, .entry hs hdir hk hn⟩

lemma PlainTree.waiting_unique (ht : PlainTree c v table) {stack' : List Word} (h : Waiting c v d stack)
    (h' : Waiting c v d stack') : stack = stack' := by
  induction h generalizing stack' with
  | target =>
    generalize hd : c.target = d at h'
    cases h' with
    | target => rfl
    | entry hs hdir hk _ =>
      have hr := ht.reachable hs.scanned
      exact absurd hd.symm (ht.top _ _ hr hdir (ht.live hr hdir hk))
  | @entry d k stack hs hdir hk hsub ih =>
    have hr := ht.reachable hs.scanned
    have hl := ht.live hr hdir hk
    generalize hn : (entryOf c v d k).inode = n at h'
    cases h' with
    | target => exact absurd hn (ht.top _ _ hr hdir hl)
    | entry hs' hdir' hk' _ =>
      have hr' := ht.reachable hs'.scanned
      obtain ⟨rfl, rfl⟩ := ht.once _ _ _ _ hr hr' hdir hdir' hl (ht.live hr' hdir' hk') hsub hn
      rw [ih hs']

lemma mem_subdirs : n ∈ subdirs c v d k ↔ ∃ j, 2 ≤ j ∧ j < k ∧ (entryOf c v d j).name ≠ hiddenMark ∧
    c.isDir (entryOf c v d j).inode ∧ (entryOf c v d j).inode = n := by
  induction k with
  | zero => exact iff_of_false List.not_mem_nil fun ⟨j, _, hj, _⟩ => absurd hj (Nat.not_lt_zero j)
  | succ k ih =>
    have hstep : (∃ j, 2 ≤ j ∧ j < k + 1 ∧ (entryOf c v d j).name ≠ hiddenMark ∧
        c.isDir (entryOf c v d j).inode ∧ (entryOf c v d j).inode = n) ↔
        (2 ≤ k ∧ (entryOf c v d k).name ≠ hiddenMark ∧ c.isDir (entryOf c v d k).inode) ∧
          (entryOf c v d k).inode = n ∨ n ∈ subdirs c v d k := by
      rw [ih]
      constructor
      · rintro ⟨j, h₂, hj, hname, hdir, he⟩
        rcases Nat.lt_succ_iff_lt_or_eq.mp hj with hj | rfl
        · exact Or.inr ⟨j, h₂, hj, hname, hdir, he⟩
        · exact Or.inl ⟨⟨h₂, hname, hdir⟩, he⟩
      · rintro (⟨⟨h₂, hname, hdir⟩, he⟩ | ⟨j, h₂, hj, hname, hdir, he⟩)
        · exact ⟨k, h₂, Nat.lt_succ_self k, hname, hdir, he⟩
        · exact ⟨j, h₂, hj.trans (Nat.lt_succ_self k), hname, hdir, he⟩
    rw [hstep, subdirs]
    split_ifs with h
    · rw [List.mem_cons, eq_comm, and_iff_right h]
    · rw [or_iff_right fun hx => h hx.1]

/-- The entries of the block up to `k` are in use. -/
def Occupied (c : EncrCall) (v : Volume) (d : Word) (k : ℕ) : Prop :=
  k ≤ dirEntriesPerBlock ∧ ∀ j, 2 ≤ j → j < k → (entryOf c v d j).inode ≠ 0

lemma Occupied.passed (h : Occupied c v d k) {j : ℕ} (h₂ : 2 ≤ j) (hj : j < k)
    (hname : (entryOf c v d j).name ≠ hiddenMark) : Passed c v d j :=
  ⟨h₂, hj.trans_le h.1, fun i hi hij => h.2 i hi (hij.trans_lt hj), hname⟩

lemma Occupied.mono (h : Occupied c v d (k + 1)) : Occupied c v d k :=
  ⟨(Nat.le_succ k).trans h.1, fun j h₂ hj => h.2 j h₂ (hj.trans (Nat.lt_succ_self k))⟩

lemma Occupied.subdir (h : Occupied c v d k) (hn : n ∈ subdirs c v d k) :
    ∃ j, j < k ∧ Passed c v d j ∧ c.isDir (entryOf c v d j).inode ∧ (entryOf c v d j).inode = n := by
  obtain ⟨j, h₂, hj, hname, hdir, he⟩ := mem_subdirs.mp hn
  exact ⟨j, hj, h.passed h₂ hj hname, hdir, he⟩

lemma subdirs_suffix {e : Word} {rest : List Word} (h : (e :: rest) <:+ subdirs c v d k ++ stack) :
    (e :: rest) <:+ stack ∨ ∃ j, 2 ≤ j ∧ j < k ∧ (entryOf c v d j).name ≠ hiddenMark ∧
      c.isDir (entryOf c v d j).inode ∧ (entryOf c v d j).inode = e ∧ rest = subdirs c v d j ++ stack := by
  induction k with
  | zero => exact Or.inl h
  | succ k ih =>
    have hmore : (e :: rest) <:+ subdirs c v d k ++ stack → (e :: rest) <:+ stack ∨ ∃ j, 2 ≤ j ∧ j < k + 1 ∧
        (entryOf c v d j).name ≠ hiddenMark ∧ c.isDir (entryOf c v d j).inode ∧
        (entryOf c v d j).inode = e ∧ rest = subdirs c v d j ++ stack := by
      intro hs
      exact (ih hs).imp_right fun ⟨j, h₂, hj, hrest⟩ => ⟨j, h₂, hj.trans (Nat.lt_succ_self k), hrest⟩
    rw [subdirs] at h
    split_ifs at h with hk
    · rw [List.cons_append, List.suffix_cons_iff] at h
      rcases h with h | h
      · cases h
        exact Or.inr ⟨k, hk.1, Nat.lt_succ_self k, hk.2.1, hk.2.2, rfl, rfl⟩
      · exact hmore h
    · exact hmore h

lemma PlainTree.subdirs_nodup (ht : PlainTree c v table) (hd : Reachable c v d) (hdir : c.isDir d)
    (hk : Occupied c v d k) : (subdirs c v d k).Nodup := by
  induction k with
  | zero => exact List.nodup_nil
  | succ k ih =>
    rw [subdirs]
    split_ifs with h
    · refine List.nodup_cons.mpr ⟨fun hin => ?_, ih hk.mono⟩
      obtain ⟨j, hj, hp, hsub, he⟩ := hk.mono.subdir hin
      have hpk := hk.passed h.1 (Nat.lt_succ_self k) h.2.1
      have := (ht.once d j d k hd hd hdir hdir (ht.live hd hdir hp) (ht.live hd hdir hpk) hsub he).2
      omega
    · exact ih hk.mono

lemma PlainTree.waiting_isDir (ht : PlainTree c v table) (h : Waiting c v d stack) : c.isDir d := by
  cases h with
  | target => exact ht.isDir
  | entry _ _ _ hdir => exact hdir

lemma PlainTree.room_for (ht : PlainTree c v table) {done : Finset Word} (hdone : ∀ m ∈ done, Reachable c v m)
    (hn : Reachable c v n) (hnot : n ∉ done) : entries table + done.card < tableSize := by
  have hsub : ((insert n done : Finset Word) : Set Word) ⊆ {n | Reachable c v n} := by
    intro m hm
    rcases Finset.mem_insert.mp (Finset.mem_coe.mp hm) with rfl | hm
    · exact hn
    · exact hdone m hm
  have hcard := Set.encard_le_encard hsub
  rw [Set.encard_coe_eq_coe_finsetCard, Finset.card_insert_of_notMem hnot] at hcard
  have hall : ((entries table + (done.card + 1) : ℕ) : ℕ∞) ≤ (tableSize : ℕ) :=
    le_trans (by rw [Nat.cast_add]; exact add_le_add le_rfl hcard) ht.room
  have := Nat.cast_le.mp hall
  omega

end Entries

section Scan

variable {c : EncrCall} {v : Volume} {table : HashTable} {d n : Word} {k : ℕ} {stack : List Word}
  {done done₀ : Finset Word} {w : Sweep × ℕ}

/-- A directory whose scan begins. -/
structure Opened (c : EncrCall) (v : Volume) (d : Word) (stack : List Word) (done : Finset Word) : Prop where
  waiting : Waiting c v d stack
  isDir : c.isDir d
  fresh : d ∉ done
  sound : ∀ n ∈ done, Scanned c v n
  nodup : stack.Nodup
  apart : ∀ j, Passed c v d j → c.isDir (entryOf c v d j).inode → (entryOf c v d j).inode ∉ stack

/-- Its scan at entry `w.2`. -/
structure Scanning (c : EncrCall) (table : HashTable) (v : Volume) (d : Word) (stack : List Word)
    (done₀ : Finset Word) (w : Sweep × ℕ) (done : Finset Word) : Prop where
  two_le : 2 ≤ w.2
  occupied : Occupied c v d w.2
  pending : w.1.stack = subdirs c v d w.2 ++ stack
  swept : Swept c table v done w.1
  sub : done₀ ⊆ done
  new : ∀ n ∈ done, n ∈ done₀ ∨ ¬ c.isDir n ∧ ∃ j, j < w.2 ∧ Passed c v d j ∧ (entryOf c v d j).inode = n
  files : ∀ j, j < w.2 → Passed c v d j → ¬ c.isDir (entryOf c v d j).inode → (entryOf c v d j).inode ∈ done
  slots : ∀ j, j < w.2 → Passed c v d j → c.inUse d (subdirs c v d j ++ stack) < nrInode

lemma Opened.nodup_with (ho : Opened c v d stack done₀) (ht : PlainTree c v table) (hk : Occupied c v d k) :
    (subdirs c v d k ++ stack).Nodup := by
  refine List.nodup_append'.mpr ⟨ht.subdirs_nodup (ht.reachable ho.waiting.scanned) ho.isDir hk, ho.nodup, ?_⟩
  intro n hn hin
  obtain ⟨j, _, hp, hdir, rfl⟩ := hk.subdir hn
  exact ho.apart j hp hdir hin

lemma length_le_inUse (c : EncrCall) (d : Word) {l : List Word} (h : l.Nodup) : l.length ≤ c.inUse d l := by
  rw [← List.toFinset_card_of_nodup h, EncrCall.inUse]
  refine (Finset.card_le_card ?_).trans (Nat.le_add_right _ _)
  exact (Finset.subset_insert _ _).trans Finset.subset_union_right

lemma Scanning.sound (ho : Opened c v d stack done₀) (hs : Scanning c table v d stack done₀ w done) :
    ∀ n ∈ done, Scanned c v n := by
  intro n hn
  rcases hs.new n hn with hn | ⟨_, j, _, hp, rfl⟩
  · exact ho.sound n hn
  · exact .entry ho.waiting.scanned ho.isDir hp

lemma Scanning.fresh (ho : Opened c v d stack done₀) (hs : Scanning c table v d stack done₀ w done) : d ∉ done := by
  intro hd
  rcases hs.new d hd with hd | ⟨hdir, _⟩
  · exact ho.fresh hd
  · exact hdir ho.isDir

lemma Scanning.advance {s : Sweep} (hs : Scanning c table v d stack done₀ (s, k) done)
    (hk : k < dirEntriesPerBlock) (hne : (entryOf c v d k).inode ≠ 0) {s' : Sweep} {done' : Finset Word}
    (hstack : s'.stack = subdirs c v d (k + 1) ++ stack) (hswept : Swept c table v done' s') (hsub : done ⊆ done')
    (hnew : ∀ n ∈ done', n ∈ done ∨ Passed c v d k ∧ ¬ c.isDir n ∧ (entryOf c v d k).inode = n)
    (hfile : Passed c v d k → ¬ c.isDir (entryOf c v d k).inode → (entryOf c v d k).inode ∈ done')
    (hslot : Passed c v d k → c.inUse d (subdirs c v d k ++ stack) < nrInode) :
    Scanning c table v d stack done₀ (s', k + 1) done' where
  two_le := hs.two_le.trans (Nat.le_succ k)
  occupied := by
    refine ⟨hk, fun j h₂ hj => ?_⟩
    rcases Nat.lt_succ_iff_lt_or_eq.mp hj with hj | rfl
    · exact hs.occupied.2 j h₂ hj
    · exact hne
  pending := hstack
  swept := hswept
  sub := hs.sub.trans hsub
  new n hn := by
    rcases hnew n hn with hn | ⟨hp, hdir, he⟩
    · exact (hs.new n hn).imp_right fun ⟨hdir, j, hj, hp⟩ => ⟨hdir, j, hj.trans (Nat.lt_succ_self k), hp⟩
    · exact Or.inr ⟨hdir, k, Nat.lt_succ_self k, hp, he⟩
  files j hj hp hdir := by
    rcases Nat.lt_succ_iff_lt_or_eq.mp hj with hj | rfl
    · exact hsub (hs.files j hj hp hdir)
    · exact hfile hp hdir
  slots j hj hp := by
    rcases Nat.lt_succ_iff_lt_or_eq.mp hj with hj | rfl
    · exact hs.slots j hj hp
    · exact hslot hp

lemma scanBody_cases (ht : PlainTree c v table) (ho : Opened c v d stack done₀)
    (hs : Scanning c table v d stack done₀ w done) :
    (∃ w' done', c.scanBody d w = .again w' ∧ w'.2 = w.2 + 1 ∧ w.2 < dirEntriesPerBlock ∧
        Scanning c table v d stack done₀ w' done') ∨
      (c.scanBody d w = .leave (.ok w.1) ∧ w.2 < dirEntriesPerBlock ∧ (entryOf c v d w.2).inode = 0) ∨
      ∃ f, c.scanBody d w = .leave (.error f) ∧
        ((∀ j, 2 ≤ j → j < dirEntriesPerBlock → (entryOf c v d j).inode ≠ 0) ∨ ¬ HasSlots c v d stack) := by
  obtain ⟨s, k⟩ := w
  have hd := ht.reachable ho.waiting.scanned
  by_cases hk : dirEntriesPerBlock ≤ k
  · refine Or.inr (Or.inr ⟨.overrun, if_pos hk, Or.inl fun j h₂ hj => ?_⟩)
    exact hs.occupied.2 j h₂ (hj.trans_le hk)
  have hlt := not_le.mp hk
  have hread : dirEntry (s.volume.data (c.dirBlock d)) k = entryOf c v d k := by
    rw [entryOf_first hlt, hs.swept.data_eq ht.wellFormed (ht.blocks d hd) (hs.fresh ho) (ht.first d hd ho.isDir)]
  by_cases hz : (entryOf c v d k).inode = 0
  · exact Or.inr (Or.inl ⟨EncrCall.scanBody_end hlt hread hz, hlt, hz⟩)
  by_cases hname : (entryOf c v d k).name = hiddenMark
  · have hnot : ¬ Passed c v d k := fun hp => hp.name hname
    have hsame : subdirs c v d (k + 1) = subdirs c v d k := if_neg fun h => h.2.1 hname
    have hvisit : c.visit d (entryOf c v d k) s = .ok s := if_pos hname
    refine Or.inl ⟨_, done, EncrCall.scanBody_ok hlt hread hz hvisit, rfl, hlt, hs.advance hlt hz ?_ hs.swept
      (Finset.Subset.refl _) (fun n hn => Or.inl hn) (fun hp => absurd hp hnot) (fun hp => absurd hp hnot)⟩
    rw [hsame]
    exact hs.pending
  have hp : Passed c v d k := by
    refine ⟨hs.two_le, hlt, fun j h₂ hj => ?_, hname⟩
    rcases Nat.lt_or_eq_of_le hj with hj | rfl
    · exact hs.occupied.2 j h₂ hj
    · exact hz
  by_cases hslot : nrInode ≤ c.inUse d s.stack
  · have hvisit : c.visit d (entryOf c v d k) s = .error .panic := by
      rw [EncrCall.visit, if_neg hname, if_pos hslot]
    refine Or.inr (Or.inr ⟨.panic, EncrCall.scanBody_error hlt hread hz hvisit, Or.inr fun hall => ?_⟩)
    have := hall k hp
    rw [← hs.pending] at this
    exact absurd hslot (not_le.mpr this)
  have hroom : Passed c v d k → c.inUse d (subdirs c v d k ++ stack) < nrInode := fun _ => by
    rw [← hs.pending]
    exact not_le.mp hslot
  by_cases hdir : c.isDir (entryOf c v d k).inode
  · have hpushed : subdirs c v d (k + 1) = (entryOf c v d k).inode :: subdirs c v d k :=
      if_pos ⟨hs.two_le, hname, hdir⟩
    have hshort : s.stack.length < stackSize := by
      have hlen : s.stack.length ≤ c.inUse d s.stack :=
        length_le_inUse c d ((congrArg List.Nodup hs.pending).mpr (ho.nodup_with ht hs.occupied))
      have : nrInode = 32 := rfl
      have : stackSize = 100 := rfl
      omega
    have hvisit : c.visit d (entryOf c v d k) s = .ok { s with stack := (entryOf c v d k).inode :: s.stack } := by
      rw [EncrCall.visit, if_neg hname, if_neg hslot, if_pos hdir, if_pos hshort]
    refine Or.inl ⟨_, done, EncrCall.scanBody_ok hlt hread hz hvisit, rfl, hlt, hs.advance hlt hz ?_
      (hs.swept.congr _) (Finset.Subset.refl _) (fun n hn => Or.inl hn) (fun _ hn => absurd hdir hn) hroom⟩
    rw [hpushed]
    exact congrArg (List.cons _) hs.pending
  · have hsame : subdirs c v d (k + 1) = subdirs c v d k := if_neg fun h => hdir h.2.2
    have hn := Reachable.entry hd ho.isDir (ht.live hd ho.isDir hp)
    obtain ⟨s', hhand, hstack, hswept⟩ := hs.swept.hand ht.wellFormed hz (ht.blocks _ hn) (ht.plain _ hn)
      (fun hnot => ht.room_for (fun m hm => ht.reachable (hs.sound ho m hm)) hn hnot)
    have hvisit : c.visit d (entryOf c v d k) s = .ok s' := by
      rw [EncrCall.visit, if_neg hname, if_neg hslot, if_neg hdir, hhand]
    refine Or.inl ⟨_, _, EncrCall.scanBody_ok hlt hread hz hvisit, rfl, hlt, hs.advance hlt hz ?_ hswept
      (Finset.subset_insert _ _) ?_ (fun _ _ => Finset.mem_insert_self _ _) hroom⟩
    · rw [hsame, hstack]
      exact hs.pending
    · intro n hn
      rcases Finset.mem_insert.mp hn with rfl | hn
      · exact Or.inr ⟨hp, hdir, rfl⟩
      · exact Or.inl hn

lemma scan_cases (ht : PlainTree c v table) (ho : Opened c v d stack done₀) {s : Sweep} (hstack : s.stack = stack)
    (hs : Swept c table v done₀ s) :
    (∃ s' k done, c.scan d s = .ok s' ∧ k < dirEntriesPerBlock ∧ (entryOf c v d k).inode = 0 ∧
        Scanning c table v d stack done₀ (s', k) done) ∨
      ∃ f, c.scan d s = .error f ∧
        ((∀ j, 2 ≤ j → j < dirEntriesPerBlock → (entryOf c v d j).inode ≠ 0) ∨ ¬ HasSlots c v d stack) := by
  have hstart : Scanning c table v d stack done₀ (s, 2) done₀ :=
    { two_le := le_rfl
      occupied := ⟨show 2 ≤ 64 by omega, fun j h₂ hj => absurd h₂ (not_le.mpr hj)⟩
      pending := hstack
      swept := hs
      sub := Finset.Subset.refl _
      new := fun n hn => Or.inl hn
      files := fun j hj hp => absurd hp.two_le (not_le.mpr hj)
      slots := fun j hj hp => absurd hp.two_le (not_le.mpr hj) }
  have hends : ∃ r, iterate (c.scanBody d) dirEntriesPerBlock (s, 2) = some r := by
    refine iterate_of_variant (fun w => ∃ done, Scanning c table v d stack done₀ w done)
      (fun w => dirEntriesPerBlock - w.2) ?_ ⟨done₀, hstart⟩ (show 64 - 2 < 64 by omega)
    rintro w w' ⟨done, hw⟩ hb
    rcases scanBody_cases ht ho hw with ⟨w₁, done₁, h, hk, hlt, hw₁⟩ | ⟨h, _⟩ | ⟨_, h, _⟩
    all_goals
      rw [h] at hb
      cases hb
    exact ⟨⟨done₁, hw₁⟩, by rw [hk]; omega⟩
  obtain ⟨r, hr⟩ := hends
  rw [EncrCall.scan, hr, Option.getD_some]
  refine iterate_invariant (fun w => ∃ done, Scanning c table v d stack done₀ w done)
    (Q := fun r => (∃ s' k done, r = .ok s' ∧ k < dirEntriesPerBlock ∧ (entryOf c v d k).inode = 0 ∧
        Scanning c table v d stack done₀ (s', k) done) ∨ ∃ f, r = .error f ∧
        ((∀ j, 2 ≤ j → j < dirEntriesPerBlock → (entryOf c v d j).inode ≠ 0) ∨ ¬ HasSlots c v d stack))
    ?_ ?_ ⟨done₀, hstart⟩ hr
  · rintro w w' ⟨done, hw⟩ hb
    rcases scanBody_cases ht ho hw with ⟨w₁, done₁, h, _, _, hw₁⟩ | ⟨h, _⟩ | ⟨_, h, _⟩
    all_goals
      rw [h] at hb
      cases hb
    exact ⟨done₁, hw₁⟩
  · rintro w r ⟨done, hw⟩ hb
    rcases scanBody_cases ht ho hw with ⟨w₁, done₁, h, _⟩ | ⟨h, hlt, hz⟩ | ⟨f, h, hf⟩
    all_goals
      rw [h] at hb
      cases hb
    · exact Or.inl ⟨w.1, w.2, done, rfl, hlt, hz, hw⟩
    · exact Or.inr ⟨f, rfl, hf⟩

end Scan

section Walk

variable {c : EncrCall} {v : Volume} {table : HashTable} {d n : Word} {stack : List Word}
  {done : Finset Word} {s : Sweep}

/-- The walk between two directories: what has been handed over is closed up to the stack. -/
structure Walking (c : EncrCall) (table : HashTable) (v : Volume) (done : Finset Word) (s : Sweep) : Prop where
  swept : Swept c table v done s
  sound : ∀ n ∈ done, Scanned c v n
  waiting : ∀ d rest, (d :: rest) <:+ s.stack → Waiting c v d rest
  nodup : s.stack.Nodup
  fresh : ∀ d ∈ s.stack, d ∉ done
  top : c.target ∈ done ∨ c.target ∈ s.stack
  parent : ∀ n, c.isDir n → n ∈ done ∨ n ∈ s.stack →
    n = c.target ∨ ∃ d ∈ done, c.isDir d ∧ ∃ k, Passed c v d k ∧ (entryOf c v d k).inode = n
  opened : ∀ d ∈ done, c.isDir d → Closed c v d ∧ ∃ rest, Waiting c v d rest ∧ HasSlots c v d rest
  kids : ∀ d ∈ done, c.isDir d → ∀ k, Passed c v d k →
    (entryOf c v d k).inode ∈ done ∨ (entryOf c v d k).inode ∈ s.stack

variable (c table v) in
lemma walking_start : Walking c table v ∅ ⟨table, v, [], [c.target]⟩ where
  swept := swept_start c table v _
  sound _ h := absurd h (Finset.notMem_empty _)
  waiting d rest h := by
    rcases List.suffix_cons_iff.mp h with h | h
    · cases h
      exact .target
    · cases List.suffix_nil.mp h
  nodup := List.nodup_singleton _
  fresh _ _ := Finset.notMem_empty _
  top := Or.inr (List.mem_singleton_self _)
  parent n _ h := Or.inl (h.elim (fun h => absurd h (Finset.notMem_empty _)) List.mem_singleton.mp)
  opened _ h := absurd h (Finset.notMem_empty _)
  kids _ h := absurd h (Finset.notMem_empty _)

/-- The directories that an unscanned directory names have not been met. -/
lemma Walking.unseen (ht : PlainTree c v table) (hs : Walking c table v done s) (hd : Reachable c v d)
    (hdir : c.isDir d) (hfresh : d ∉ done) {j : ℕ} (hp : Passed c v d j) (hsub : c.isDir (entryOf c v d j).inode) :
    ¬ ((entryOf c v d j).inode ∈ done ∨ (entryOf c v d j).inode ∈ s.stack) := by
  intro hin
  have hl := ht.live hd hdir hp
  rcases hs.parent _ hsub hin with he | ⟨d', hd', hdir', k, hp', he⟩
  · exact ht.top d j hd hdir hl he
  · have hr := ht.reachable (hs.sound d' hd')
    have hone := (ht.once d j d' k hd hr hdir hdir' hl (ht.live hr hdir' hp') hsub he.symm).1
    exact hfresh (hone ▸ hd')

lemma Walking.open_next (ht : PlainTree c v table) (hs : Walking c table v done s) (hstack : s.stack = d :: stack) :
    Opened c v d stack done := by
  have hw : Waiting c v d stack := hs.waiting d stack (hstack ▸ List.suffix_refl _)
  have hdir := ht.waiting_isDir hw
  have hfresh : d ∉ done := hs.fresh d (hstack ▸ List.mem_cons_self)
  refine ⟨hw, hdir, hfresh, hs.sound, (List.nodup_cons.mp (hstack ▸ hs.nodup)).2, fun j hp hsub hin => ?_⟩
  exact hs.unseen ht (ht.reachable hw.scanned) hdir hfresh hp hsub (Or.inr (hstack ▸ List.mem_cons_of_mem _ hin))

lemma Walking.stack_isDir (ht : PlainTree c v table) (hs : Walking c table v done s) (hn : n ∈ s.stack) :
    c.isDir n := by
  obtain ⟨before, rest, hsplit⟩ := List.append_of_mem hn
  exact ht.waiting_isDir (hs.waiting n rest ⟨before, hsplit.symm⟩)

lemma Scanning.old_dir {w : Sweep × ℕ} {done' : Finset Word} (hu : Scanning c table v d stack done w done')
    (hdir : c.isDir n) (hn : n ∈ insert d done') : n = d ∨ n ∈ done := by
  rcases Finset.mem_insert.mp hn with rfl | hn
  · exact Or.inl rfl
  · exact Or.inr ((hu.new n hn).resolve_right fun h => h.1 hdir)

lemma Scanning.kid {w : Sweep × ℕ} {done' : Finset Word} (hu : Scanning c table v d stack done w done') {j : ℕ}
    (hj : j < w.2) (hp : Passed c v d j) :
    (entryOf c v d j).inode ∈ insert d done' ∨ (entryOf c v d j).inode ∈ subdirs c v d w.2 ++ stack := by
  by_cases hdir : c.isDir (entryOf c v d j).inode
  · exact Or.inr (List.mem_append_left _ (mem_subdirs.mpr ⟨j, hp.two_le, hj, hp.name, hdir, rfl⟩))
  · exact Or.inl (Finset.mem_insert_of_mem (hu.files j hj hp hdir))

/-- The scan of `d` has come to its end, and `d` itself has been handed over. -/
lemma Walking.next (ht : PlainTree c v table) (hs : Walking c table v done s) (hstack : s.stack = d :: stack)
    (hread : v.readable (c.dirBlock d) = true) {u s' : Sweep} {k : ℕ} {done' : Finset Word}
    (hk : k < dirEntriesPerBlock) (hz : (entryOf c v d k).inode = 0)
    (hu : Scanning c table v d stack done (u, k) done') (hpending : s'.stack = u.stack)
    (hswept : Swept c table v (insert d done') s') : Walking c table v (insert d done') s' := by
  have ho := hs.open_next ht hstack
  have hd := ht.reachable ho.waiting.scanned
  have hsound := hu.sound ho
  have hpending : s'.stack = subdirs c v d k ++ stack := hpending.trans hu.pending
  have hpassed : ∀ j, Passed c v d j → j < k := by
    intro j hj
    by_contra hge
    exact hj.inode k hu.two_le (not_lt.mp hge) hz
  have hold : ∀ n, n ∈ done → n ∈ insert d done' := fun n hn => Finset.mem_insert_of_mem (hu.sub hn)
  have hbefore : ∀ n, n ∈ done ∨ n ∈ s.stack → n ∈ insert d done' ∨ n ∈ s'.stack := by
    rintro n (hn | hn)
    · exact Or.inl (hold n hn)
    · rw [hstack] at hn
      rcases List.mem_cons.mp hn with rfl | hn
      · exact Or.inl (Finset.mem_insert_self _ _)
      · exact Or.inr (hpending ▸ List.mem_append_right _ hn)
  have hparent : ∀ n, c.isDir n → n ∈ insert d done' ∨ n ∈ s'.stack →
      n = c.target ∨ ∃ d' ∈ insert d done', c.isDir d' ∧ ∃ j, Passed c v d' j ∧ (entryOf c v d' j).inode = n := by
    intro n hdir hn
    have hup : n ∈ done ∨ n ∈ s.stack → n = c.target ∨
        ∃ d' ∈ insert d done', c.isDir d' ∧ ∃ j, Passed c v d' j ∧ (entryOf c v d' j).inode = n := by
      intro hn
      exact (hs.parent n hdir hn).imp_right fun ⟨d', hd', h⟩ => ⟨d', hold d' hd', h⟩
    rcases hn with hn | hn
    · rcases hu.old_dir hdir hn with rfl | hn
      · exact hup (Or.inr (hstack ▸ List.mem_cons_self))
      · exact hup (Or.inl hn)
    · rw [hpending] at hn
      rcases List.mem_append.mp hn with hn | hn
      · obtain ⟨j, _, hp, _, he⟩ := hu.occupied.subdir hn
        exact Or.inr ⟨d, Finset.mem_insert_self _ _, ho.isDir, j, hp, he⟩
      · exact hup (Or.inr (hstack ▸ List.mem_cons_of_mem _ hn))
  refine ⟨hswept, ?_, ?_, ?_, ?_, hbefore _ hs.top, hparent, ?_, ?_⟩
  · intro n hn
    rcases Finset.mem_insert.mp hn with rfl | hn
    · exact ho.waiting.scanned
    · exact hsound n hn
  · intro e rest hsuf
    rw [hpending] at hsuf
    rcases subdirs_suffix hsuf with hsuf | ⟨j, h₂, hj, hname, hdir, rfl, rfl⟩
    · exact hs.waiting e rest (hstack ▸ hsuf.trans (List.suffix_cons _ _))
    · exact .entry ho.waiting ho.isDir (hu.occupied.passed h₂ hj hname) hdir
  · rw [hpending]
    exact ho.nodup_with ht hu.occupied
  · intro e he hin
    rw [hpending] at he
    rcases List.mem_append.mp he with he | he
    · obtain ⟨j, _, hp, hdir, rfl⟩ := hu.occupied.subdir he
      refine hs.unseen ht hd ho.isDir ho.fresh hp hdir ?_
      rcases hu.old_dir hdir hin with hself | hin
      · exact Or.inr (by rw [hself, hstack]; exact List.mem_cons_self)
      · exact Or.inl hin
    · have hes : e ∈ s.stack := hstack ▸ List.mem_cons_of_mem _ he
      rcases hu.old_dir (hs.stack_isDir ht hes) hin with hself | hin
      · have hnodup := hs.nodup
        rw [hstack] at hnodup
        exact (List.nodup_cons.mp hnodup).1 (hself ▸ he)
      · exact hs.fresh e hes hin
  · intro n hn hdir
    rcases hu.old_dir hdir hn with rfl | hn
    · exact ⟨⟨hread, k, hu.two_le, hk, hz⟩, stack, ho.waiting, fun j hj => hu.slots j (hpassed j hj) hj⟩
    · exact hs.opened n hn hdir
  · intro n hn hdir j hj
    rcases hu.old_dir hdir hn with rfl | hn
    · rw [hpending]
      exact hu.kid (hpassed j hj) hj
    · exact hbefore _ (hs.kids n hn hdir j hj)

lemma round_cases (ht : PlainTree c v table) (hs : Walking c table v done s) (hstack : s.stack = d :: stack) :
    (∃ s' done', c.round s = .again s' ∧ Walking c table v done' s' ∧ done.card < done'.card) ∨
      ∃ f, c.round s = .leave (.error f) ∧ ¬ Sweepable c v := by
  have ho := hs.open_next ht hstack
  have hd := ht.reachable ho.waiting.scanned
  by_cases hread : s.volume.readable (c.dirBlock d) = false
  · refine Or.inr ⟨.badPointer, EncrCall.round_unreadable hstack hread, fun hw => ?_⟩
    have := (hw.closed d ho.waiting.scanned ho.isDir).1
    rw [← hs.swept.readable, hread] at this
    cases this
  rcases scan_cases ht ho (s := { s with stack := stack }) rfl (hs.swept.congr stack) with
    ⟨u, K, done₁, hscan, hK, hz, hu⟩ | ⟨f, hscan, hf⟩
  swap
  · refine Or.inr ⟨f, EncrCall.round_error hstack hread hscan, fun hw => ?_⟩
    rcases hf with hall | hslots
    · obtain ⟨-, k, h₂, hk, hz⟩ := hw.closed d ho.waiting.scanned ho.isDir
      exact hall k h₂ hk hz
    · exact hslots (hw.slots d stack ho.waiting)
  have hsound₁ := hu.sound ho
  have hfresh₁ := hu.fresh ho
  obtain ⟨s', hhand, hstack', hswept'⟩ := hu.swept.hand ht.wellFormed (ht.ne_zero hd) (ht.blocks d hd) (ht.plain d hd)
    (fun hnot => ht.room_for (fun m hm => ht.reachable (hsound₁ m hm)) hd hnot)
  refine Or.inl ⟨s', insert d done₁, EncrCall.round_ok hstack hread hscan hhand, ?_, ?_⟩
  swap
  · rw [Finset.card_insert_of_notMem hfresh₁]
    exact Nat.lt_succ_of_le (Finset.card_le_card hu.sub)
  · have hopen : v.readable (c.dirBlock d) = true := by
      rw [← hs.swept.readable]
      exact (Bool.not_eq_false _).mp hread
    exact hs.next ht hstack hopen hK hz hu hstack' hswept'

lemma Walking.all_done (hs : Walking c table v done s) (hempty : s.stack = []) (h : Scanned c v n) : n ∈ done := by
  induction h with
  | target =>
    refine hs.top.resolve_right fun hin => ?_
    rw [hempty] at hin
    cases hin
  | entry _ hdir hk ih =>
    refine (hs.kids _ ih hdir _ hk).resolve_right fun hin => ?_
    rw [hempty] at hin
    cases hin

lemma Walking.complete_iff (ht : PlainTree c v table) (hs : Walking c table v done s) (hempty : s.stack = []) :
    Complete c v s ↔ Sweepable c v := by
  constructor
  · intro hall
    have hdone : ∀ n, Reachable c v n → n ∈ done := fun n hn =>
      (hs.swept.stored n (ht.ne_zero hn) (hall n hn).1).resolve_left (ht.plain n hn)
    refine ⟨fun n hn => hs.sound n (hdone n hn), ?_, ?_, ?_⟩
    · intro d hd hdir
      exact (hs.opened d (hs.all_done hempty hd) hdir).1
    · intro d stack hw
      obtain ⟨-, stack', hw', hslots⟩ := hs.opened d (hs.all_done hempty hw.scanned) (ht.waiting_isDir hw)
      exact ht.waiting_unique hw hw' ▸ hslots
    · intro n hn i hi
      by_contra hnot
      have hone := ((hall n hn).2 i hi).1
      rw [hs.swept.never n (hdone n hn) i hi hnot] at hone
      cases hone
  · intro hw n hn
    have hin := hs.all_done hempty (hw.scanned n hn)
    obtain ⟨z, hz⟩ := hs.swept.found n hin
    exact ⟨⟨z, ((found_iff (ht.ne_zero hn)).mp hz).1⟩, fun i hi => hs.swept.once n hin i hi (hw.whole n hn i hi)⟩

lemma rounds_cases (ht : PlainTree c v table) {passes : ℕ} {r : Except Fault Sweep}
    (hr : iterate c.round passes ⟨table, v, [], [c.target]⟩ = some r) :
    (∃ s done, r = .ok s ∧ Walking c table v done s ∧ s.stack = []) ∨ ∃ f, r = .error f ∧ ¬ Sweepable c v := by
  refine iterate_invariant (fun s => ∃ done, Walking c table v done s)
    (Q := fun r => (∃ s done, r = .ok s ∧ Walking c table v done s ∧ s.stack = []) ∨
      ∃ f, r = .error f ∧ ¬ Sweepable c v) ?_ ?_ ⟨∅, walking_start c v table⟩ hr
  · rintro s s' ⟨done, hs⟩ hb
    cases hstack : s.stack with
    | nil =>
      rw [EncrCall.round, hstack] at hb
      cases hb
    | cons d stack =>
      rcases round_cases ht hs hstack with ⟨s₁, done₁, h, hs₁, _⟩ | ⟨f, h, _⟩
      all_goals
        rw [h] at hb
        cases hb
      exact ⟨done₁, hs₁⟩
  · rintro s r ⟨done, hs⟩ hb
    cases hstack : s.stack with
    | nil =>
      rw [EncrCall.round, hstack] at hb
      cases hb
      exact Or.inl ⟨s, done, rfl, hs, hstack⟩
    | cons d stack =>
      rcases round_cases ht hs hstack with ⟨s₁, done₁, h, _⟩ | ⟨f, h, hf⟩
      all_goals
        rw [h] at hb
        cases hb
      exact Or.inr ⟨f, rfl, hf⟩

lemma entries_le (t : HashTable) : entries t ≤ tableSize := by
  rw [entries]
  exact (Finset.card_le_univ _).trans_eq (Finset.card_fin _)

/-- Each round fills a slot of the table. -/
lemma rounds_end (ht : PlainTree c v table) :
    ∃ r, iterate c.round (tableSize + 1) ⟨table, v, [], [c.target]⟩ = some r := by
  refine iterate_of_variant (fun s => ∃ done, Walking c table v done s) (fun s => tableSize - entries s.table) ?_
    ⟨∅, walking_start c v table⟩ (Nat.lt_succ_of_le (Nat.sub_le _ _))
  rintro s s' ⟨done, hs⟩ hb
  cases hstack : s.stack with
  | nil =>
    rw [EncrCall.round, hstack] at hb
    cases hb
  | cons d stack =>
    rcases round_cases ht hs hstack with ⟨s₁, done₁, h, hs₁, hcard⟩ | ⟨f, h, _⟩
    all_goals
      rw [h] at hb
      cases hb
    refine ⟨⟨done₁, hs₁⟩, ?_⟩
    have hle := entries_le s'.table
    rw [hs₁.swept.filled] at hle ⊢
    rw [hs.swept.filled]
    omega

/-- `encrypt_directory` encrypts a plain tree completely exactly when the tree is sweepable. -/
lemma complete_iff (ht : PlainTree c v table) :
    (∃ passes s, c.encryptDirectory passes table v = .ok s ∧ Complete c v s) ↔ Sweepable c v := by
  have hroom := ht.room_for (fun _ hm => absurd hm (Finset.notMem_empty _)) .target (Finset.notMem_empty _)
  have hfree := entries_lt_iff.mp hroom
  have hsearch : searchFunc table c.target = some errNotFnd := by
    obtain ⟨f, hf⟩ := hfree
    rcases found_or_missing (t := table) ht.wellFormed.target_ne ⟨f, Or.inr hf⟩ with ⟨z, hz⟩ | ⟨w, hw⟩
    · exact absurd ⟨z, ((found_iff ht.wellFormed.target_ne).mp hz).1⟩ (ht.plain _ .target)
    · exact searchFunc_missing ht.wellFormed.target_ne hw
  have hrun : ∀ passes, c.encryptDirectory passes table v =
      (iterate c.round passes ⟨table, v, [], [c.target]⟩).getD (.error .hang) := by
    intro passes
    rw [EncrCall.encryptDirectory, hsearch]
    exact if_neg (not_not.mpr rfl)
  constructor
  · rintro ⟨passes, s, hs, hall⟩
    rw [hrun] at hs
    cases hr : iterate c.round passes ⟨table, v, [], [c.target]⟩ with
    | none =>
      rw [hr] at hs
      cases hs
    | some r =>
      rw [hr, Option.getD_some] at hs
      rcases rounds_cases ht hr with ⟨s', done, he, hs', hempty⟩ | ⟨f, he, _⟩
      all_goals
        rw [hs] at he
        cases he
      exact (hs'.complete_iff ht hempty).mp hall
  · intro hw
    obtain ⟨r, hr⟩ := rounds_end ht
    rcases rounds_cases ht hr with ⟨s, done, rfl, hs, hempty⟩ | ⟨f, _, hnot⟩
    · refine ⟨tableSize + 1, s, ?_, (hs.complete_iff ht hempty).mpr hw⟩
      rw [hrun, hr]
      rfl
    · exact absurd hw hnot

end Walk

/-- `encrypt_directory` comes back with every reachable file encrypted completely exactly when every one of
them is found by the pointer that runs until the first free entry of a first block, and the directories, the
files and the inodes in memory let the walk get that far. -/
theorem encryptDirectory_complete_iff (c : EncrCall) (table : HashTable) (v : Volume) (ht : PlainTree c v table) :
    (∃ passes s, c.encryptDirectory passes table v = .ok s ∧ Complete c v s) ↔ Sweepable c v :=
  complete_iff ht

/-- Entry `k` of directory 1 is file 7, the entries between it and `..` have been deleted. -/
def gapBlock (k : ℕ) : Block :=
  let b := (Block.zero.setWord 0 1).setByte 2 46
  let b := ((b.setWord 8 1).setByte 18 46).setByte 19 46
  (b.setWord (8 * k) 7).setByte (16 * k + 2) 97

def gapVolume (k : ℕ) : Volume := fullVolume fun z => if z = 5 then gapBlock k else Block.zero

def gapInode (k : ℕ) (n : Word) : MInode :=
  ⟨if n = 1 then 0o040755 else 0o100644, if n = 1 then 16 * (k + 1) else 1024,
    firstZone (if n = 1 then 5 else if n = 7 then 6 else 0), n⟩

def gapCall (k : ℕ) : EncrCall where
  direction := .encr
  inodes := gapInode k
  target := 1
  key := sampleKey
  hashToUse := anyHKey
  scratch _ _ := Block.zero
  held := {1}
  others := 0

def GapEntries (k : ℕ) : Prop :=
  ∀ j : Fin 64, 2 ≤ j.val → (dirEntry (gapBlock k) j).inode = (if j.val = k then 7 else 0) ∧
    (dirEntry (gapBlock k) j).name = if j.val = k then 97 else 0

instance (k : ℕ) : Decidable (GapEntries k) := inferInstanceAs (Decidable (∀ _, _))

section Gap

variable {k : ℕ} {n : Word}

lemma gap_consistent (n : Word) : Consistent (gapVolume k) ((gapCall k).inodes n) := by
  have hinj := firstZone_injective (if n = 1 then 5 else if n = 7 then 6 else 0)
  have hd := consistent_direct (fun z => if z = 5 then gapBlock k else Block.zero) n 1024 rfl rfl hinj
  exact ⟨hd.firstDataZone_pos, hd.nZones_lt, hd.zmap_zero, hd.used, hd.distinct⟩

lemma gap_isDir : (gapCall k).isDir n ↔ n = 1 := by
  change sIsDir (if n = 1 then 0o040755 else 0o100644) = true ↔ n = 1
  split_ifs with h
  · exact iff_of_true (by decide) h
  · exact iff_of_false (by decide) h

lemma gap_hasBlocks (n : Word) : (gapCall k).HasBlocks n := by
  change sIsReg (if n = 1 then 0o040755 else 0o100644) = true ∨ sIsDir (if n = 1 then 0o040755 else 0o100644) = true
  split_ifs
  · exact Or.inr (by decide)
  · exact Or.inl (by decide)

lemma gap_wellFormed : WellFormed (gapCall k).toRequest (gapVolume k) where
  target_ne := by
    change (1 : Word) ≠ 0
    decide
  number _ := rfl
  consistent n _ := gap_consistent n
  unshared n m r r' _ _ h₀ he := by
    have hn : refAt (gapVolume k) (gapInode k n) r = if n = 1 then 5 else if n = 7 then 6 else 0 :=
      (refAt_firstZone rfl h₀).2
    have hm : refAt (gapVolume k) (gapInode k m) r' = if m = 1 then 5 else if m = 7 then 6 else 0 :=
      (refAt_firstZone rfl (he ▸ h₀)).2
    have hz : (if n = 1 then (5 : Word) else if n = 7 then 6 else 0) = if m = 1 then 5 else if m = 7 then 6 else 0 :=
      hn.symm.trans (he.trans hm)
    have hne : (if n = 1 then (5 : Word) else if n = 7 then 6 else 0) ≠ 0 := fun h => h₀ (hn.trans h)
    split_ifs at hz hne
    all_goals first
      | exact absurd hz (by decide)
      | exact absurd rfl hne
      | simp_all
  device n h := absurd (gap_hasBlocks n) h

lemma gap_entry (hg : GapEntries k) {j : ℕ} (h₂ : 2 ≤ j) (hj : j < dirEntriesPerBlock) :
    (entryOf (gapCall k) (gapVolume k) 1 j).inode = (if j = k then 7 else 0) ∧
      (entryOf (gapCall k) (gapVolume k) 1 j).name = if j = k then 97 else 0 := by
  rw [entryOf_first hj]
  exact hg ⟨j, hj⟩ h₂

lemma gap_live (hg : GapEntries k) (hk : k < dirEntriesPerBlock) {j : ℕ}
    (hl : Live (gapCall k) (gapVolume k) 1 j) : j = k := by
  have hsize : 16 * j < 16 * (k + 1) := hl.size
  have hj : j < dirEntriesPerBlock := by omega
  by_contra hne
  have hz := (gap_entry hg hl.two_le hj).1
  rw [if_neg hne] at hz
  exact hl.inode hz

lemma gap_reachable (hg : GapEntries k) (h₂ : 2 ≤ k) (hk : k < dirEntriesPerBlock)
    (h : Reachable (gapCall k) (gapVolume k) n) : n = 1 ∨ n = 7 := by
  cases h with
  | target => exact Or.inl rfl
  | entry hd hdir hl =>
    rw [gap_isDir] at hdir
    subst hdir
    have hj := gap_live hg hk hl
    subst hj
    exact Or.inr ((gap_entry hg h₂ hk).1.trans (if_pos rfl))

lemma gap_live_file (hg : GapEntries k) (h₂ : 2 ≤ k) (hk : k < dirEntriesPerBlock) :
    Live (gapCall k) (gapVolume k) 1 k ∧ (entryOf (gapCall k) (gapVolume k) 1 k).inode = 7 := by
  obtain ⟨hi, hn⟩ := gap_entry hg h₂ hk
  rw [if_pos rfl] at hi hn
  refine ⟨⟨h₂, show 16 * k < 16 * (k + 1) by omega, ?_, ?_, ?_⟩, hi⟩
  · rw [Nat.div_eq_of_lt hk]
    exact ⟨by decide, show (5 : Word) ≠ 0 by decide⟩
  · rw [hi]
    decide
  · rw [hn]
    decide

lemma gap_reachable_file (hg : GapEntries k) (h₂ : 2 ≤ k) (hk : k < dirEntriesPerBlock) :
    Reachable (gapCall k) (gapVolume k) 7 := by
  obtain ⟨hl, hi⟩ := gap_live_file hg h₂ hk
  exact hi ▸ .entry .target (gap_isDir.mpr rfl) hl

lemma gap_plainTree (hg : GapEntries k) (h₂ : 2 ≤ k) (hk : k < dirEntriesPerBlock) :
    PlainTree (gapCall k) (gapVolume k) emptyTable where
  wellFormed := gap_wellFormed
  isDir := gap_isDir.mpr rfl
  blocks n _ := gap_hasBlocks n
  first d _ hdir := by
    rw [gap_isDir] at hdir
    subst hdir
    exact show (5 : Word) ≠ 0 by decide
  beyond d _ hdir j hj hsize := by
    rw [gap_isDir] at hdir
    subst hdir
    have hle : 16 * (k + 1) ≤ 16 * j := hsize
    rw [(gap_entry hg (by omega) hj).1, if_neg (by omega)]
  top d j _ hdir hl := by
    rw [gap_isDir] at hdir
    subst hdir
    have hj := gap_live hg hk hl
    subst hj
    rw [(gap_live_file hg h₂ hk).2]
    exact show (7 : Word) ≠ 1 by decide
  once d j d' j' _ _ hdir hdir' hl hl' _ _ := by
    rw [gap_isDir] at hdir hdir'
    subst hdir hdir'
    exact ⟨rfl, (gap_live hg hk hl).trans (gap_live hg hk hl').symm⟩
  plain n hn := by
    rintro ⟨z, hz⟩
    have hn₀ : n = 0 := hz.symm
    rcases gap_reachable hg h₂ hk hn with h | h
    all_goals exact absurd (h.symm.trans hn₀) (by decide)
  room := by
    have hsub : {n | Reachable (gapCall k) (gapVolume k) n} ⊆ {1, 7} := fun n hn => gap_reachable hg h₂ hk hn
    rw [entries_empty, Nat.cast_zero, zero_add]
    refine (Set.encard_le_encard hsub).trans ((Set.encard_insert_le _ _).trans ?_)
    rw [Set.encard_singleton]
    exact_mod_cast show 1 + 1 ≤ tableSize by decide

lemma gapEntries_two : GapEntries 2 := by decide +kernel

lemma gapEntries_three : GapEntries 3 := by decide +kernel

lemma gap_sweepable : Sweepable (gapCall 2) (gapVolume 2) where
  scanned n hn := by
    rcases gap_reachable gapEntries_two le_rfl (by decide) hn with rfl | rfl
    · exact .target
    · obtain ⟨hl, hi⟩ := gap_live_file gapEntries_two le_rfl (by decide)
      refine hi ▸ .entry .target (gap_isDir.mpr rfl) ⟨le_rfl, by decide, fun j h₂ hj => ?_, hl.name⟩
      have : j = 2 := by omega
      subst this
      exact hl.inode
  closed d _ hdir := by
    rw [gap_isDir] at hdir
    subst hdir
    refine ⟨rfl, 3, by decide, by decide, ?_⟩
    exact (gap_entry gapEntries_two (by decide) (by decide)).1
  slots d stack hw j hj := by
    have hd : d = 1 ∧ stack = [] := by
      cases hw with
      | target => exact ⟨rfl, rfl⟩
      | entry hs hdir hk hsub =>
        rw [gap_isDir] at hdir
        subst hdir
        have hr := (gap_plainTree gapEntries_two le_rfl (by decide)).live .target (gap_isDir.mpr rfl) hk
        have hj := gap_live gapEntries_two (by decide) hr
        subst hj
        rw [(gap_live_file gapEntries_two le_rfl (by decide)).2, gap_isDir] at hsub
        exact absurd hsub (by decide)
    obtain ⟨rfl, rfl⟩ := hd
    have hr := (gap_plainTree gapEntries_two le_rfl (by decide)).live .target (gap_isDir.mpr rfl) hj
    have hj := gap_live gapEntries_two (by decide) hr
    subst hj
    have hnone : subdirs (gapCall 2) (gapVolume 2) 1 2 = [] := rfl
    rw [hnone]
    decide
  whole n _ i hi j hj := by
    have hr : blockRef i = .zone 0 := (refAt_firstZone rfl hi.2).1
    have hi₀ : i = 0 := blockRef_injective hi.1 (by decide) hr
    have hj₀ : j = 0 := by omega
    subst hi₀ hj₀
    exact ⟨trivial, hi.2, rfl⟩

lemma gap_scanned (h : Scanned (gapCall 3) (gapVolume 3) n) : n = 1 := by
  cases h with
  | target => rfl
  | entry _ hdir hk =>
    rw [gap_isDir] at hdir
    subst hdir
    exact absurd (gap_entry gapEntries_three le_rfl (by decide)).1 (hk.inode 2 le_rfl hk.two_le)

end Gap

theorem encryptDirectory_complete_noGap :
    ∃ passes s, (gapCall 2).encryptDirectory passes emptyTable (gapVolume 2) = .ok s ∧
      Complete (gapCall 2) (gapVolume 2) s :=
  (encryptDirectory_complete_iff _ _ _ (gap_plainTree gapEntries_two le_rfl (by decide))).mpr gap_sweepable

/-- A file behind a deleted entry is left out. -/
theorem encryptDirectory_stops_at_gap :
    PlainTree (gapCall 3) (gapVolume 3) emptyTable ∧
      ¬ ∃ passes s, (gapCall 3).encryptDirectory passes emptyTable (gapVolume 3) = .ok s ∧
        Complete (gapCall 3) (gapVolume 3) s := by
  have ht := gap_plainTree gapEntries_three (by decide) (by decide)
  refine ⟨ht, fun h => ?_⟩
  have hw := (complete_iff ht).mp h
  have h₁ := gap_scanned (hw.scanned 7 (gap_reachable_file gapEntries_three (by decide) (by decide)))
  exact absurd h₁ (by decide)

end Devos.Security
