import Devos.Fs.Links
import Mathlib.Data.Set.Card

/-! The link counts of a consistent file system are the numbers of its entries. -/

namespace Devos.Fs

namespace Tree

variable (s : Tree)

/-- The live entries that name inode `n`. -/
def names (n : Word) : Set (Word × ℕ) := {p | s.Live p.1 ∧ s.named p.1 p.2 = n}

def IsSubdir (d : Word) (k : ℕ) : Prop := 2 ≤ k ∧ s.named d k ≠ 0 ∧ s.isDir (s.named d k) = true

def subdirs (d : Word) : Set ℕ := {k | s.IsSubdir d k}

end Tree

/-- A consistent file system: the counts are right, every entry names an inode that is allocated, and
the directories are a tree under `root`. -/
structure Truthful (root : Word) (s : Tree) : Prop where
  zero : s.imap 0 = true ∧ s.isDir 0 = false ∧ s.opens 0 = 0
  top : s.Live root
  allotted : ∀ d k, s.Live d → s.imap (s.named d k) = true
  files : ∀ n, n ≠ 0 → s.imap n = true → s.isDir n = false → (s.names n).encard = (s.iNlinks n).toNat
  dirs : ∀ d, s.Live d → ((s.iNlinks d).toNat : ℕ∞) = 2 + (s.subdirs d).encard
  dot : ∀ d, s.Live d → s.named d 0 = d
  parent : ∀ d, s.Live d → s.Live (s.named d 1) ∧
    (d = root ∧ s.named d 1 = root ∨ d ≠ root ∧ ∃ k, 2 ≤ k ∧ s.named (s.named d 1) k = d)
  below : ∀ d k, s.Live d → s.IsSubdir d k → s.Live (s.named d k) ∧ s.named d k ≠ root
  once : ∀ d k d' k', s.Live d → s.Live d' → s.IsSubdir d k → s.IsSubdir d' k' →
    s.named d k = s.named d' k' → d = d' ∧ k = k'

section Entries

variable {s : Tree} {d d' n : Word} {j k : ℕ}

lemma Tree.Live.imap (h : s.Live d) : s.imap d = true := h.1

lemma Tree.Live.isDir (h : s.Live d) : s.isDir d = true := h.2.1

lemma named_setEntry (hk : k ≤ s.size d) (e : Entry) (d' : Word) (j : ℕ) :
    (s.setEntry d k e).named d' j = if d' = d ∧ j = k then e.inode else s.named d' j := by
  simp only [Tree.named, Tree.setEntry]
  by_cases hd : d' = d
  · subst hd
    simp only [Function.update_self, true_and]
    by_cases hj : j = k
    · subst hj
      rw [if_pos (by omega), if_pos rfl, Function.update_self]
    · rw [if_neg hj, Function.update_of_ne hj]
      by_cases hlt : j < s.size d'
      · rw [if_pos (by omega), if_pos hlt]
      · rw [if_neg (by omega), if_neg hlt]
  · simp only [Function.update_of_ne hd, hd, false_and, if_false]

lemma findEntry_some {name : List Byte} (h : s.findEntry d name = some k) :
    k < s.size d ∧ (s.entry d k).inode ≠ 0 ∧ s.named d k = (s.entry d k).inode := by
  rw [Tree.findEntry] at h
  split at h
  · cases h
  · have hlt := List.mem_range.mp (List.mem_of_find?_eq_some h)
    have hp := List.find?_some h
    exact ⟨hlt, (of_decide_eq_true hp).1, if_pos hlt⟩

lemma freeEntry_spec (s : Tree) (d : Word) :
    s.freeEntry d ≤ s.size d ∧ s.named d (s.freeEntry d) = 0 := by
  rw [Tree.freeEntry]
  cases h : (List.range (s.size d)).find? fun k => decide ((s.entry d k).inode = 0) with
  | none => exact ⟨le_rfl, if_neg (lt_irrefl _)⟩
  | some k =>
    have hlt := List.mem_range.mp (List.mem_of_find?_eq_some h)
    refine ⟨hlt.le, ?_⟩
    have hp := List.find?_some h
    rw [Option.getD_some, Tree.named, if_pos hlt]
    exact of_decide_eq_true hp

lemma newInode_some (h : s.newInode = some n) : s.imap n = false := by
  rw [Tree.newInode] at h
  split at h
  · cases h
  · rename_i j hj
    split at h
    · cases h
    · cases h
      simpa using List.find?_some hj

end Entries

section Truthful

variable {root d d' n : Word} {j k : ℕ} {s t : Tree}

lemma Truthful.live_ne_zero (h : Truthful root s) (hd : s.Live d) : d ≠ 0 := by
  rintro rfl
  exact absurd hd.isDir (by rw [h.zero.2.1]; decide)

/-- Free entries come after `.` and `..`. -/
lemma Truthful.two_le (h : Truthful root s) (hd : s.Live d) (hk : s.isDir (s.named d k) = false) : 2 ≤ k := by
  match k with
  | 0 => rw [h.dot d hd, hd.isDir] at hk; cases hk
  | 1 => rw [(h.parent d hd).1.isDir] at hk; cases hk
  | k + 2 => omega

lemma Truthful.isSubdir (h : Truthful root s) (hk : 2 ≤ k) (hdir : s.isDir (s.named d k) = true) :
    s.IsSubdir d k := by
  refine ⟨hk, fun hz => ?_, hdir⟩
  rw [hz, h.zero.2.1] at hdir
  cases hdir

lemma Truthful.unnamed (h : Truthful root s) (h₀ : n ≠ 0) (hn : s.imap n = true) (hl : s.iNlinks n = 0)
    (hd : s.Live d) : s.named d k ≠ n := by
  intro he
  cases hdir : s.isDir n with
  | true =>
    have hlive : s.Live n := by
      match k with
      | 0 => exact he ▸ (h.dot d hd).symm ▸ hd
      | 1 => exact he ▸ (h.parent d hd).1
      | k + 2 => exact he ▸ (h.below d _ hd (h.isSubdir (by omega) (by rw [he, hdir]))).1
    exact hlive.2.2 hl
  | false =>
    have hc := h.files n h₀ hn hdir
    rw [hl] at hc
    have hempty := Set.encard_eq_zero.mp hc
    exact absurd (show (d, k) ∈ s.names n from ⟨hd, he⟩) (by rw [hempty]; exact Set.notMem_empty _)

/-- The entries that count are those of live directories. -/
lemma Truthful.transfer (h : Truthful root s)
    (hzero : t.imap 0 = true ∧ t.isDir 0 = false ∧ t.opens 0 = 0)
    (hlive : ∀ d, t.Live d ↔ s.Live d)
    (hnamed : ∀ d k, s.Live d → t.named d k = s.named d k)
    (hdir : ∀ d k, s.Live d → t.isDir (s.named d k) = s.isDir (s.named d k))
    (hlinks : ∀ d, s.Live d → t.iNlinks d = s.iNlinks d)
    (himap : ∀ d k, s.Live d → t.imap (s.named d k) = true)
    (hfiles : ∀ n, n ≠ 0 → t.imap n = true → t.isDir n = false →
      (t.names n).encard = (t.iNlinks n).toNat) : Truthful root t := by
  have hsub : ∀ d k, s.Live d → (t.IsSubdir d k ↔ s.IsSubdir d k) := by
    intro d k hd
    rw [Tree.IsSubdir, Tree.IsSubdir, hnamed d k hd, hdir d k hd]
  refine ⟨hzero, (hlive _).mpr h.top, ?_, hfiles, ?_, ?_, ?_, ?_, ?_⟩
  · intro d k hd
    rw [hlive] at hd
    exact hnamed d k hd ▸ himap d k hd
  · intro d hd
    rw [hlive] at hd
    have hs : t.subdirs d = s.subdirs d := Set.ext fun k => hsub d k hd
    rw [hlinks d hd, hs]
    exact h.dirs d hd
  · intro d hd
    rw [hlive] at hd
    exact (hnamed d 0 hd).trans (h.dot d hd)
  · intro d hd
    rw [hlive] at hd
    obtain ⟨hp, hpos⟩ := h.parent d hd
    rw [hnamed d 1 hd]
    refine ⟨(hlive _).mpr hp, hpos.imp_right fun ⟨hr, k, hk, he⟩ => ⟨hr, k, hk, ?_⟩⟩
    rw [hnamed _ k hp, he]
  · intro d k hd hk
    rw [hlive] at hd
    rw [hnamed d k hd, hlive]
    exact h.below d k hd ((hsub d k hd).mp hk)
  · intro d k d' k' hd hd' hk hk' he
    rw [hlive] at hd hd'
    rw [hnamed d k hd, hnamed d' k' hd'] at he
    exact h.once d k d' k' hd hd' ((hsub d k hd).mp hk) ((hsub d' k' hd').mp hk') he

lemma Truthful.setOpens (h : Truthful root s) (h₀ : n ≠ 0) (count : ℕ) : Truthful root (s.setOpens n count) := by
  refine h.transfer ⟨h.zero.1, h.zero.2.1, ?_⟩ (fun _ => Iff.rfl) (fun _ _ _ => rfl) (fun _ _ _ => rfl)
    (fun _ _ => rfl) h.allotted h.files
  exact (Function.update_of_ne h₀.symm count s.opens).trans h.zero.2.2

lemma Truthful.hold (h : Truthful root s) (h₀ : n ≠ 0) : Truthful root (s.hold n) := h.setOpens h₀ _

/-- An inode without links is named by no live entry when `iput` gives it back. -/
lemma Truthful.iput (h : Truthful root s) (h₀ : n ≠ 0) : Truthful root (s.iput n) := by
  rw [Tree.iput]
  split
  swap
  · exact h
  · rename_i hfree
    by_cases hn : s.imap n = true
    swap
    · rw [show Function.update s.imap n false = s.imap from
        Function.update_eq_iff.mpr ⟨(Bool.not_eq_true _).mp hn |>.symm, fun _ _ => rfl⟩]
      exact h
    · have hkept : ∀ m, m ≠ n → Function.update s.imap n false m = s.imap m :=
        fun m hm => Function.update_of_ne hm _ _
      have hlive : ∀ d, Tree.Live { s with imap := Function.update s.imap n false } d ↔ s.Live d := by
        intro d
        by_cases hd : d = n
        · subst hd
          exact iff_of_false (fun hl => hl.2.2 hfree.2) (fun hl => hl.2.2 hfree.2)
        · exact and_congr_left' (by dsimp only; rw [hkept d hd])
      refine h.transfer ⟨(hkept 0 h₀.symm).trans h.zero.1, h.zero.2⟩ hlive (fun _ _ _ => rfl)
        (fun _ _ _ => rfl) (fun _ _ => rfl) ?_ ?_
      · intro d k hd
        exact (hkept _ (h.unnamed h₀ hn hfree.2 hd)).trans (h.allotted d k hd)
      · intro m hm himap hdir
        by_cases he : m = n
        · subst he
          exact absurd himap (by simp)
        · have hnames : Tree.names { s with imap := Function.update s.imap n false } m = s.names m :=
            Set.ext fun p => and_congr_left' (hlive p.1)
          rw [hnames]
          exact h.files m hm ((hkept m he).symm.trans himap) hdir

/-- An inode that is taken, whatever its directory holds, as long as it has no links. -/
lemma Truthful.fresh (h : Truthful root s) (hn : s.imap n = false)
    (himap : t.imap = Function.update s.imap n true) (hmode : ∀ m, m ≠ n → t.iMode m = s.iMode m)
    (hlinks : ∀ m, m ≠ n → t.iNlinks m = s.iNlinks m) (hl : t.iNlinks n = 0) (hopens : t.opens 0 = 0)
    (hnamed : ∀ d k, d ≠ n → t.named d k = s.named d k) : Truthful root t := by
  have hkept : ∀ m, m ≠ n → t.imap m = s.imap m := fun m hm => himap ▸ Function.update_of_ne hm _ _
  have hdir : ∀ m, m ≠ n → t.isDir m = s.isDir m := fun m hm => congrArg sIsDir (hmode m hm)
  have hne : ∀ {m}, s.imap m = true → m ≠ n := by
    rintro m hm rfl
    rw [hn] at hm
    cases hm
  have hlive : ∀ d, t.Live d ↔ s.Live d := by
    intro d
    by_cases hd : d = n
    · subst hd
      exact iff_of_false (fun h => h.2.2 hl) (fun h => hne h.imap rfl)
    · rw [Tree.Live, Tree.Live, hkept d hd, hdir d hd, hlinks d hd]
  have h₀ := hne h.zero.1
  refine h.transfer ⟨(hkept 0 h₀).trans h.zero.1, (hdir 0 h₀).trans h.zero.2.1, hopens⟩ hlive
    (fun d k hd => hnamed d k (hne hd.imap)) (fun d k hd => hdir _ (hne (h.allotted d k hd)))
    (fun d hd => hlinks d (hne hd.imap))
    (fun d k hd => (hkept _ (hne (h.allotted d k hd))).trans (h.allotted d k hd)) ?_
  intro m hm₀ him hfile
  have hnames : t.names m = s.names m := by
    refine Set.ext fun p => ?_
    constructor
    · rintro ⟨hp, he⟩
      exact ⟨(hlive p.1).mp hp, hnamed p.1 p.2 (hne ((hlive p.1).mp hp).imap) ▸ he⟩
    · rintro ⟨hp, he⟩
      exact ⟨(hlive p.1).mpr hp, (hnamed p.1 p.2 (hne hp.imap)).trans he⟩
  rw [hnames]
  by_cases hm : m = n
  · subst hm
    rw [hl]
    refine Set.encard_eq_zero.mpr (Set.eq_empty_iff_forall_notMem.mpr ?_)
    rintro p ⟨hp, he⟩
    exact hne (he ▸ h.allotted p.1 p.2 hp) rfl
  · rw [hlinks m hm]
    exact h.files m hm₀ ((hkept m hm).symm.trans him) ((hdir m hm).symm.trans hfile)

/-- The two trees differ in what entry `k` of `d` names. -/
def AgreeOff (d : Word) (k : ℕ) (s t : Tree) : Prop :=
  ∀ d' k', ¬ (d' = d ∧ k' = k) → t.named d' k' = s.named d' k'

lemma AgreeOff.symm (h : AgreeOff d k s t) : AgreeOff d k t s := fun d' k' hne => (h d' k' hne).symm

lemma AgreeOff.names_eq (h : AgreeOff d k s t) (hlive : ∀ x, t.Live x ↔ s.Live x) (hs : s.named d k ≠ n)
    (ht : t.named d k ≠ n) : t.names n = s.names n := by
  refine Set.ext fun p => and_congr (hlive p.1) ?_
  by_cases hp : p.1 = d ∧ p.2 = k
  · rw [hp.1, hp.2]
    exact iff_of_false ht hs
  · rw [h _ _ hp]

lemma AgreeOff.names_encard (h : AgreeOff d k s t) (hlive : ∀ x, t.Live x ↔ s.Live x) (hd : s.Live d)
    (hs : s.named d k ≠ n) (ht : t.named d k = n) : (t.names n).encard = (s.names n).encard + 1 := by
  have hnew : (d, k) ∉ s.names n := fun hp => hs hp.2
  have hins : t.names n = insert (d, k) (s.names n) := by
    ext p
    by_cases hp : p = (d, k)
    · subst hp
      exact iff_of_true ⟨(hlive d).mpr hd, ht⟩ (Set.mem_insert _ _)
    · have hne : ¬ (p.1 = d ∧ p.2 = k) := fun hp' => hp (Prod.ext hp'.1 hp'.2)
      rw [Set.mem_insert_iff, or_iff_right hp]
      exact and_congr (hlive p.1) (by rw [h _ _ hne])
  rw [hins, Set.encard_insert_of_notMem hnew]

/-- An entry that names file `n`, or nothing, before and after changes no other file's count. -/
lemma Truthful.reslot (h : Truthful root s) (hd : s.Live d) (hoff : AgreeOff d k s t)
    (himap : t.imap = s.imap) (hmode : t.iMode = s.iMode) (hopens : t.opens 0 = 0)
    (hn : s.imap n = true) (hfile : s.isDir n = false) (hlinks : ∀ m, m ≠ n → t.iNlinks m = s.iNlinks m)
    (hbefore : s.named d k = n ∨ s.named d k = 0) (hafter : t.named d k = n ∨ t.named d k = 0)
    (hcount : n ≠ 0 → (∀ x, t.Live x ↔ s.Live x) → (t.names n).encard = (t.iNlinks n).toNat) :
    Truthful root t := by
  have hnone : ∀ {x}, x = n ∨ x = 0 → s.isDir x = false ∧ s.imap x = true := by
    rintro x (rfl | rfl)
    · exact ⟨hfile, hn⟩
    · exact ⟨h.zero.2.1, h.zero.1⟩
  have hs := (hnone hbefore).1
  obtain ⟨ht, hin⟩ := hnone hafter
  have hk := h.two_le hd hs
  have hdir : ∀ m, t.isDir m = s.isDir m := fun m => by rw [Tree.isDir, Tree.isDir, hmode]
  have hdirs : ∀ m, s.isDir m = true → t.iNlinks m = s.iNlinks m := by
    intro m hm
    refine hlinks m ?_
    rintro rfl
    rw [hfile] at hm
    cases hm
  have hlive : ∀ x, t.Live x ↔ s.Live x := by
    intro x
    rw [Tree.Live, Tree.Live, himap, hdir]
    exact and_congr_right fun _ => and_congr_right fun hx => by rw [hdirs x hx]
  have hfiles : ∀ m, m ≠ 0 → t.imap m = true → t.isDir m = false → (t.names m).encard = (t.iNlinks m).toNat := by
    intro m hm him hmf
    by_cases he : m = n
    · subst he
      exact hcount hm hlive
    · have hother : ∀ {x}, x = n ∨ x = 0 → x ≠ m := by
        rintro x (rfl | rfl)
        · exact Ne.symm he
        · exact hm.symm
      rw [hoff.names_eq hlive (hother hbefore) (hother hafter), hlinks m he]
      exact h.files m hm (himap ▸ him) ((hdir m).symm.trans hmf)
  have hold : ∀ d' k', t.isDir (t.named d' k') = true → t.named d' k' = s.named d' k' := by
    intro d' k' hx
    refine hoff d' k' ?_
    rintro ⟨rfl, rfl⟩
    rw [hdir, ht] at hx
    cases hx
  have hsub : ∀ d' k', t.IsSubdir d' k' ↔ s.IsSubdir d' k' := by
    intro d' k'
    by_cases hp : d' = d ∧ k' = k
    · obtain ⟨rfl, rfl⟩ := hp
      refine iff_of_false (fun hx => ?_) (fun hx => ?_)
      · exact absurd hx.2.2 (by rw [hdir, ht]; decide)
      · exact absurd hx.2.2 (by rw [hs]; decide)
    · rw [Tree.IsSubdir, Tree.IsSubdir, hoff d' k' hp, hdir]
  have hlow : ∀ d' k', k' < 2 → t.named d' k' = s.named d' k' := fun d' k' hk' => hoff d' k' fun hp => by omega
  refine ⟨⟨himap ▸ h.zero.1, (hdir 0).trans h.zero.2.1, hopens⟩, (hlive _).mpr h.top, ?_, hfiles, ?_, ?_, ?_, ?_, ?_⟩
  · intro d' k' hd'
    rw [himap]
    by_cases hp : d' = d ∧ k' = k
    · rw [hp.1, hp.2]
      exact hin
    · rw [hoff d' k' hp]
      exact h.allotted d' k' ((hlive d').mp hd')
  · intro d' hd'
    rw [hlive] at hd'
    have hset : t.subdirs d' = s.subdirs d' := Set.ext fun k' => hsub d' k'
    rw [hset, hdirs d' hd'.isDir]
    exact h.dirs d' hd'
  · intro d' hd'
    exact (hlow d' 0 (by omega)).trans (h.dot d' ((hlive d').mp hd'))
  · intro d' hd'
    rw [hlive] at hd'
    obtain ⟨hp, hpos⟩ := h.parent d' hd'
    rw [hlow d' 1 (by omega)]
    refine ⟨(hlive _).mpr hp, hpos.imp_right fun ⟨hr, j, hj, he⟩ => ⟨hr, j, hj, ?_⟩⟩
    refine (hoff _ _ ?_).trans he
    rintro ⟨hx, rfl⟩
    rw [hx] at he
    rw [he, hd'.isDir] at hs
    cases hs
  · intro d' k' hd' hk'
    rw [hold d' k' hk'.2.2, hlive]
    exact h.below d' k' ((hlive d').mp hd') ((hsub d' k').mp hk')
  · intro d₁ k₁ d₂ k₂ hd₁ hd₂ h₁ h₂ he
    rw [hold _ _ h₁.2.2, hold _ _ h₂.2.2] at he
    exact h.once _ _ _ _ ((hlive _).mp hd₁) ((hlive _).mp hd₂) ((hsub _ _).mp h₁) ((hsub _ _).mp h₂) he

lemma toNat_succ {b : Byte} (h : b ≠ 255) : (b + 1).toNat = b.toNat + 1 := by
  have : b.toNat ≠ 255 := fun he => h (BitVec.eq_of_toNat_eq he)
  have := b.isLt
  rw [BitVec.toNat_add]
  change (b.toNat + 1) % 256 = _
  omega

lemma toNat_pred {b : Byte} (h : b ≠ 0) : (b - 1).toNat + 1 = b.toNat := by
  have hne : b - 1 ≠ 255 := fun he => h (by rw [← BitVec.sub_add_cancel b 1, he]; rfl)
  rw [← toNat_succ hne, BitVec.sub_add_cancel]

/-- `t` is `s` with the empty directory `n` under entry `k` of `d`. -/
structure Attached (d n : Word) (k : ℕ) (s t : Tree) : Prop where
  imap : t.imap = s.imap
  iMode : t.iMode = s.iMode
  opens : t.opens 0 = s.opens 0
  off : AgreeOff d k s t
  two_le : 2 ≤ k
  free : s.named d k = 0
  entry : t.named d k = n
  parent : s.Live d
  ne : n ≠ d
  allotted : s.imap n = true
  isDir : s.isDir n = true
  dot : s.named n 0 = n
  dotdot : s.named n 1 = d
  empty : ∀ j, 2 ≤ j → s.named n j = 0
  unlinked : s.iNlinks n = 0
  linked : t.iNlinks n = 2
  one_more : (t.iNlinks d).toNat = (s.iNlinks d).toNat + 1
  links : ∀ m, m ≠ n → m ≠ d → t.iNlinks m = s.iNlinks m

namespace Attached

variable (h : Attached d n k s t)
include h

lemma isDir_eq (m : Word) : t.isDir m = s.isDir m := by rw [Tree.isDir, Tree.isDir, h.iMode]

lemma not_live : ¬ s.Live n := fun hl => hl.2.2 h.unlinked

lemma links_of_live {x : Word} (hx : x ≠ d) (hl : s.Live x) : t.iNlinks x = s.iNlinks x :=
  h.links x (fun he => h.not_live (he ▸ hl)) hx

lemma named_low (x : Word) {j : ℕ} (hj : j < 2) : t.named x j = s.named x j := by
  refine h.off x j fun hp => ?_
  have := h.two_le
  omega

lemma named_child (j : ℕ) : t.named n j = s.named n j := h.off n j fun hp => h.ne hp.1

lemma live_iff (x : Word) : t.Live x ↔ s.Live x ∨ x = n := by
  by_cases hx : x = n
  · subst hx
    refine iff_of_true ⟨by rw [h.imap]; exact h.allotted, by rw [h.isDir_eq]; exact h.isDir, ?_⟩ (Or.inr rfl)
    rw [h.linked]
    decide
  · rw [or_iff_left hx]
    by_cases hd : x = d
    · subst hd
      refine iff_of_true ⟨by rw [h.imap]; exact h.parent.imap, by rw [h.isDir_eq]; exact h.parent.isDir, ?_⟩ h.parent
      intro hz
      have hone := h.one_more
      rw [hz] at hone
      exact absurd hone (Nat.succ_ne_zero _).symm
    · rw [Tree.Live, Tree.Live, h.imap, h.isDir_eq, h.links x hx hd]

lemma live_parent : t.Live d := (h.live_iff d).mpr (Or.inl h.parent)

lemma live_child : t.Live n := (h.live_iff n).mpr (Or.inr rfl)

lemma isSubdir_iff {x : Word} {j : ℕ} (hp : ¬ (x = d ∧ j = k)) : t.IsSubdir x j ↔ s.IsSubdir x j := by
  rw [Tree.IsSubdir, Tree.IsSubdir, h.off x j hp, h.isDir_eq]

lemma child_ne_zero (hz : s.isDir 0 = false) : n ≠ 0 := by
  rintro rfl
  rw [h.isDir] at hz
  cases hz

lemma isSubdir_self (hz : s.isDir 0 = false) : t.IsSubdir d k := by
  rw [Tree.IsSubdir, h.entry, h.isDir_eq]
  exact ⟨h.two_le, h.child_ne_zero hz, h.isDir⟩

lemma not_isSubdir : ¬ s.IsSubdir d k := fun hs => hs.2.1 h.free

lemma child_not_isSubdir (j : ℕ) : ¬ s.IsSubdir n j := fun hs => hs.2.1 (h.empty j hs.1)

lemma subdirs_of_ne {x : Word} (hx : x ≠ d) : t.subdirs x = s.subdirs x :=
  Set.ext fun _ => h.isSubdir_iff fun hp => hx hp.1

lemma subdirs_parent (hz : s.isDir 0 = false) : (t.subdirs d).encard = (s.subdirs d).encard + 1 := by
  have hins : t.subdirs d = insert k (s.subdirs d) := by
    ext j
    rw [Set.mem_insert_iff]
    by_cases hj : j = k
    · subst hj
      exact iff_of_true (h.isSubdir_self hz) (Or.inl rfl)
    · rw [or_iff_right hj]
      exact h.isSubdir_iff fun hp => hj hp.2
  have hnew : k ∉ s.subdirs d := h.not_isSubdir
  rw [hins, Set.encard_insert_of_notMem hnew]

lemma subdirs_child : s.subdirs n = ∅ := Set.eq_empty_iff_forall_notMem.mpr h.child_not_isSubdir

lemma links_of_file {m : Word} (hm : s.isDir m = false) : t.iNlinks m = s.iNlinks m := by
  refine h.links m ?_ ?_
  · rintro rfl
    rw [h.isDir] at hm
    cases hm
  · rintro rfl
    rw [h.parent.isDir] at hm
    cases hm

lemma names_eq {m : Word} (h₀ : m ≠ 0) (hm : s.isDir m = false) : t.names m = s.names m := by
  have hdir : ∀ {x}, s.isDir x = true → x ≠ m := by
    rintro x hx rfl
    rw [hm] at hx
    cases hx
  have hchild : ∀ j, s.named n j ≠ m := by
    intro j
    match j with
    | 0 => exact h.dot.trans_ne (hdir h.isDir)
    | 1 => exact h.dotdot.trans_ne (hdir h.parent.isDir)
    | j + 2 => exact (h.empty (j + 2) (by omega)).trans_ne h₀.symm
  refine Set.ext fun p => ?_
  by_cases hp : p.1 = d ∧ p.2 = k
  · refine iff_of_false (fun ht => hdir h.isDir ?_) (fun hs => h₀ ?_)
    · rw [← h.entry, ← hp.1, ← hp.2, ht.2]
    · rw [← hs.2, hp.1, hp.2, h.free]
  · by_cases hc : p.1 = n
    · refine iff_of_false (fun ht => hchild p.2 ?_) (fun hs => hchild p.2 ?_)
      · rw [← h.named_child, ← hc, ht.2]
      · rw [← hc, hs.2]
    · refine and_congr ((h.live_iff p.1).trans (or_iff_left hc)) ?_
      rw [h.off _ _ hp]

lemma truthful (hs : Truthful root s) : Truthful root t := by
  have hz := hs.zero.2.1
  have hunnamed : ∀ {x} j, s.Live x → s.named x j ≠ n :=
    fun j hx => hs.unnamed (h.child_ne_zero hz) h.allotted h.unlinked hx
  have hslot : ∀ {x j}, t.Live x → t.IsSubdir x j →
      x = d ∧ j = k ∨ s.Live x ∧ s.IsSubdir x j ∧ t.named x j = s.named x j := by
    intro x j hx hj
    by_cases hp : x = d ∧ j = k
    · exact Or.inl hp
    · rw [h.isSubdir_iff hp] at hj
      refine Or.inr ⟨((h.live_iff x).mp hx).resolve_right ?_, hj, h.off x j hp⟩
      rintro rfl
      exact h.child_not_isSubdir j hj
  refine ⟨⟨h.imap ▸ hs.zero.1, (h.isDir_eq 0).trans hz, h.opens.trans hs.zero.2.2⟩,
    (h.live_iff _).mpr (Or.inl hs.top), ?_, ?_, ?_, ?_, ?_, ?_, ?_⟩
  · intro x j hx
    rw [h.imap]
    rcases (h.live_iff x).mp hx with hx | rfl
    · by_cases hp : x = d ∧ j = k
      · rw [hp.1, hp.2, h.entry]
        exact h.allotted
      · rw [h.off x j hp]
        exact hs.allotted x j hx
    · rw [h.named_child]
      match j with
      | 0 => exact h.dot.symm ▸ h.allotted
      | 1 => exact h.dotdot.symm ▸ h.parent.imap
      | j + 2 => exact (h.empty (j + 2) (by omega)).symm ▸ hs.zero.1
  · intro m h₀ him hm
    rw [h.isDir_eq] at hm
    rw [h.names_eq h₀ hm, h.links_of_file hm]
    exact hs.files m h₀ (h.imap ▸ him) hm
  · intro x hx
    rcases (h.live_iff x).mp hx with hx | rfl
    · by_cases hd : x = d
      · subst hd
        rw [h.subdirs_parent hz, h.one_more, ← add_assoc, ← hs.dirs x hx]
        rfl
      · rw [h.subdirs_of_ne hd, h.links_of_live hd hx]
        exact hs.dirs x hx
    · rw [h.subdirs_of_ne h.ne, h.subdirs_child, h.linked, Set.encard_empty]
      rfl
  · intro x hx
    rw [h.named_low x (by omega : 0 < 2)]
    rcases (h.live_iff x).mp hx with hx | rfl
    · exact hs.dot x hx
    · exact h.dot
  · intro x hx
    rw [h.named_low x (by omega : 1 < 2)]
    rcases (h.live_iff x).mp hx with hx | rfl
    · obtain ⟨hp, hpos⟩ := hs.parent x hx
      refine ⟨(h.live_iff _).mpr (Or.inl hp), hpos.imp_right fun ⟨hr, j, hj, he⟩ => ⟨hr, j, hj, ?_⟩⟩
      refine (h.off _ _ ?_).trans he
      rintro ⟨hd, rfl⟩
      rw [hd, h.free] at he
      exact hs.live_ne_zero hx he.symm
    · rw [h.dotdot]
      refine ⟨h.live_parent, Or.inr ⟨?_, k, h.two_le, h.entry⟩⟩
      rintro rfl
      exact h.not_live hs.top
  · intro x j hx hj
    rcases hslot hx hj with ⟨rfl, rfl⟩ | ⟨hx', hj', he⟩
    · rw [h.entry]
      refine ⟨h.live_child, ?_⟩
      rintro rfl
      exact h.not_live hs.top
    · rw [he]
      obtain ⟨hl, hr⟩ := hs.below x j hx' hj'
      exact ⟨(h.live_iff _).mpr (Or.inl hl), hr⟩
  · intro x j x' j' hx hx' hj hj' he
    rcases hslot hx hj with ⟨rfl, rfl⟩ | ⟨hl, hj, hx⟩
    · rcases hslot hx' hj' with ⟨rfl, rfl⟩ | ⟨hl', -, hx'⟩
      · exact ⟨rfl, rfl⟩
      · rw [h.entry, hx'] at he
        exact absurd he.symm (hunnamed j' hl')
    · rcases hslot hx' hj' with ⟨rfl, rfl⟩ | ⟨hl', hj', hx'⟩
      · rw [h.entry, hx] at he
        exact absurd he (hunnamed j hl)
      · rw [hx, hx'] at he
        exact hs.once x j x' j' hl hl' hj hj' he

lemma truthful_without (ht : Truthful root t) : Truthful root s := by
  have hz := (h.isDir_eq 0).symm.trans ht.zero.2.1
  have hup : ∀ {x}, s.Live x → t.Live x := fun hx => (h.live_iff _).mpr (Or.inl hx)
  have hdown : ∀ {x}, t.Live x → x ≠ n → s.Live x := fun hx hn => ((h.live_iff _).mp hx).resolve_right hn
  have hentry : ∀ {x j}, s.named x j ≠ 0 → t.named x j = s.named x j := by
    intro x j hne
    refine h.off x j ?_
    rintro ⟨rfl, rfl⟩
    exact hne h.free
  have hsub : ∀ {x j}, s.IsSubdir x j → t.IsSubdir x j := by
    intro x j hj
    refine (h.isSubdir_iff ?_).mpr hj
    rintro ⟨rfl, rfl⟩
    exact h.not_isSubdir hj
  have hroot : root ≠ n := by
    rintro rfl
    obtain ⟨-, hr⟩ := ht.below d k h.live_parent (h.isSubdir_self hz)
    exact hr h.entry
  have honly : ∀ {x j}, t.Live x → t.IsSubdir x j → t.named x j = n → x = d ∧ j = k :=
    fun hx hj he => ht.once _ _ _ _ hx h.live_parent hj (h.isSubdir_self hz) (he.trans h.entry.symm)
  refine ⟨⟨h.imap ▸ ht.zero.1, hz, h.opens.symm.trans ht.zero.2.2⟩, hdown ht.top hroot, ?_, ?_, ?_, ?_, ?_, ?_, ?_⟩
  · intro x j hx
    by_cases hne : s.named x j = 0
    · rw [hne, ← h.imap]
      exact ht.zero.1
    · rw [← h.imap, ← hentry hne]
      exact ht.allotted x j (hup hx)
  · intro m h₀ him hm
    rw [← h.names_eq h₀ hm, ← h.links_of_file hm]
    exact ht.files m h₀ (h.imap.symm ▸ him) ((h.isDir_eq m).trans hm)
  · intro x hx
    have hc := ht.dirs x (hup hx)
    by_cases hd : x = d
    · subst hd
      rw [h.subdirs_parent hz, h.one_more, ← add_assoc] at hc
      exact WithTop.add_right_cancel ENat.one_ne_top hc
    · rw [h.subdirs_of_ne hd, h.links_of_live hd hx] at hc
      exact hc
  · intro x hx
    exact (h.named_low x (by omega : 0 < 2)).symm.trans (ht.dot x (hup hx))
  · intro x hx
    obtain ⟨hp, hpos⟩ := ht.parent x (hup hx)
    rw [h.named_low x (by omega : 1 < 2)] at hp hpos
    have hpn : s.named x 1 ≠ n := by
      intro he
      rcases hpos with ⟨-, hr⟩ | ⟨-, j, hj, hn⟩
      · exact hroot (hr.symm.trans he)
      · rw [he, h.named_child, h.empty j hj] at hn
        exact ht.live_ne_zero (hup hx) hn.symm
    refine ⟨hdown hp hpn, hpos.imp_right fun ⟨hr, j, hj, hn⟩ => ⟨hr, j, hj, ?_⟩⟩
    refine (h.off _ _ ?_).symm.trans hn
    rintro ⟨hd, rfl⟩
    rw [hd, h.entry] at hn
    exact h.not_live (hn ▸ hx)
  · intro x j hx hj
    have he := hentry hj.2.1
    obtain ⟨hl, hr⟩ := ht.below x j (hup hx) (hsub hj)
    rw [he] at hl hr
    refine ⟨hdown hl fun hn => ?_, hr⟩
    obtain ⟨rfl, rfl⟩ := honly (hup hx) (hsub hj) (he.trans hn)
    exact h.not_isSubdir hj
  · intro x j x' j' hx hx' hj hj' he
    rw [← hentry hj.2.1, ← hentry hj'.2.1] at he
    exact ht.once x j x' j' (hup hx) (hup hx') (hsub hj) (hsub hj') he

end Attached

/-- A name for a file, and one link more. -/
lemma Truthful.enter (h : Truthful root s) (hd : s.Live d) (h₀ : n ≠ 0) (hn : s.imap n = true)
    (hfile : s.isDir n = false) (hl : s.iNlinks n ≠ 255) (name : List Byte) :
    Truthful root ((s.enter d n name).setLinks n (s.iNlinks n + 1)) := by
  obtain ⟨hle, hfree⟩ := freeEntry_spec s d
  have hnamed := named_setEntry hle ⟨n, name.take nameLen⟩
  have hoff : AgreeOff d (s.freeEntry d) s ((s.enter d n name).setLinks n (s.iNlinks n + 1)) :=
    fun d' k' hne => (hnamed d' k').trans (if_neg hne)
  have hslot : ((s.enter d n name).setLinks n (s.iNlinks n + 1)).named d (s.freeEntry d) = n :=
    (hnamed d _).trans (if_pos ⟨rfl, rfl⟩)
  refine h.reslot hd hoff rfl rfl h.zero.2.2 hn hfile (fun m hm => Function.update_of_ne hm _ _) (Or.inr hfree)
    (Or.inl hslot) fun _ hlive => ?_
  rw [hoff.names_encard hlive hd (hfree.trans_ne h₀.symm) hslot, h.files n h₀ hn hfile]
  change ((s.iNlinks n).toNat : ℕ∞) + 1 = (Function.update s.iNlinks n (s.iNlinks n + 1) n).toNat
  rw [Function.update_self, toNat_succ hl]
  rfl

/-- A name of a file taken away, and one link less. -/
lemma Truthful.clear (h : Truthful root s) (hd : s.Live d) (hk : k < s.size d) (h₀ : s.named d k ≠ 0)
    (hfile : s.isDir (s.named d k) = false) :
    s.iNlinks (s.named d k) ≠ 0 ∧
      Truthful root ((s.clear d k).setLinks (s.named d k) (s.iNlinks (s.named d k) - 1)) := by
  generalize hn : s.named d k = n at *
  have himap := hn ▸ h.allotted d k hd
  have hl : s.iNlinks n ≠ 0 := fun hz => h.unnamed h₀ himap hz hd hn
  refine ⟨hl, ?_⟩
  have hnamed := named_setEntry hk.le { s.entry d k with inode := 0 }
  have hoff : AgreeOff d k s ((s.clear d k).setLinks n (s.iNlinks n - 1)) :=
    fun d' k' hne => (hnamed d' k').trans (if_neg hne)
  have hslot : ((s.clear d k).setLinks n (s.iNlinks n - 1)).named d k = 0 := (hnamed d k).trans (if_pos ⟨rfl, rfl⟩)
  refine h.reslot hd hoff rfl rfl h.zero.2.2 himap hfile (fun m hm => Function.update_of_ne hm _ _) (Or.inl hn)
    (Or.inr hslot) fun _ hlive => ?_
  have hcard := hoff.symm.names_encard (fun x => (hlive x).symm) ((hlive d).mpr hd) (hslot.trans_ne h₀.symm) hn
  rw [h.files n h₀ himap hfile, ← toNat_pred hl] at hcard
  change _ = ((Function.update s.iNlinks n (s.iNlinks n - 1) n).toNat : ℕ∞)
  rw [Function.update_self]
  exact (WithTop.add_right_cancel ENat.one_ne_top hcard).symm

end Truthful

end Devos.Fs
