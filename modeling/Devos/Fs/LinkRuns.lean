import Devos.Library.Runs
import Devos.Fs.LinkCounts

/-! Runs of `open`, `close`, `link`, `unlink`, `mkdir` and `rmdir`. -/

namespace Devos.Fs

open Runs

inductive NameCall where
  | opening (c : Chance) (d : Word) (name : List Byte) (creat excl : Bool) (mode : Word)
  | closing (n : Word)
  | link (c : Chance) (oldDir : Word) (oldName : List Byte) (d : Word) (name : List Byte)
  | unlink (c : Chance) (d : Word) (name : List Byte)
  | mkdir (c : Chance) (d : Word) (name : List Byte) (mode : Word)
  | rmdir (c : Chance) (d : Word) (name : List Byte)

def NameCall.run (s : Tree) : NameCall → Except Fault (ℤ × Tree)
  | .opening c d name creat excl mode => .ok (s.openNamei c d name creat excl mode)
  | .closing n => .ok (s.close n)
  | .link c oldDir oldName d name => .ok (s.sysLink c oldDir oldName d name)
  | .unlink c d name => .ok (s.sysUnlink c d name)
  | .mkdir c d name mode => s.sysMkdir c d name mode
  | .rmdir c d name => .ok (s.sysRmdir c d name)

/-- The count that the call increments has room in its byte. -/
def NameCall.Countable (s : Tree) : NameCall → Prop
  | .link c oldDir oldName _ _ => ∀ n, s.namei c oldDir oldName = some n → s.iNlinks n ≠ 255
  | .mkdir _ d _ _ => s.iNlinks d ≠ 255
  | _ => True

def nameSystem (root : Word) : System Tree NameCall where
  init := Truthful root
  step s a s' := ∃ r, a.run s = .ok (r, s')

section Calls

variable {root d n : Word} {k : ℕ} {s : Tree} {c : Chance} {name : List Byte}

lemma Truthful.new_ne_zero (h : Truthful root s) (hn : s.imap n = false) : n ≠ 0 := by
  rintro rfl
  rw [h.zero.1] at hn
  cases hn

lemma allot_setLinks (s : Tree) (n mode : Word) (links links' : Byte) :
    (s.allot n mode links).setLinks n links' = s.allot n mode links' := by
  rw [Tree.setLinks, Tree.allot, Tree.allot]
  dsimp only
  rw [Function.update_idem]

lemma named_allot (s : Tree) (mode : Word) (links : Byte) (hd : d ≠ n) (k : ℕ) :
    (s.allot n mode links).named d k = s.named d k := by
  simp only [Tree.named, Tree.allot, Function.update_of_ne hd]

lemma Truthful.allot (h : Truthful root s) (hn : s.imap n = false) (mode : Word) :
    Truthful root (s.allot n mode 0) :=
  h.fresh hn rfl (fun _ hm => Function.update_of_ne hm _ _) (fun _ hm => Function.update_of_ne hm _ _)
    (Function.update_self _ _ _) ((Function.update_of_ne (h.new_ne_zero hn).symm _ _).trans h.zero.2.2)
    (fun _ k hd => named_allot s mode 0 hd k)

/-- The new inode has one link; it has none again when `iput` gives it back. -/
lemma Truthful.drop (h : Truthful root s) (hn : s.imap n = false) (mode : Word) :
    Truthful root (((s.allot n mode 1).setLinks n ((s.allot n mode 1).iNlinks n - 1)).iput n) := by
  have hone : (s.allot n mode 1).iNlinks n - 1 = 0 := by
    rw [show (s.allot n mode 1).iNlinks n = 1 from Function.update_self _ _ _]
    rfl
  rw [hone, allot_setLinks]
  exact (h.allot hn mode).iput (h.new_ne_zero hn)

lemma Truthful.create (h : Truthful root s) (hd : s.Live d) (hn : s.imap n = false) (mode : Word) :
    Truthful root ((s.allot n (iRegular ||| mode &&& 0o777) 1).enter d n name) := by
  have hfresh := h.allot hn (iRegular ||| mode &&& 0o777)
  have hdn : d ≠ n := by
    rintro rfl
    rw [hd.imap] at hn
    cases hn
  have hlive : (s.allot n (iRegular ||| mode &&& 0o777) 0).Live d := by
    simp only [Tree.Live, Tree.isDir, Tree.allot, Function.update_of_ne hdn]
    exact hd
  have hfile : (s.allot n (iRegular ||| mode &&& 0o777) 0).isDir n = false := by
    rw [Tree.isDir, Tree.allot]
    dsimp only
    rw [Function.update_self]
    exact isDir_of_mode iRegular mode
  have hlinks : (s.allot n (iRegular ||| mode &&& 0o777) 0).iNlinks n = 0 := Function.update_self _ _ _
  have hentered := hfresh.enter hlive (h.new_ne_zero hn) (Function.update_self _ _ _) hfile
    (by rw [hlinks]; decide) name
  rw [hlinks] at hentered
  refine cast (congrArg (Truthful root) ?_) hentered
  rw [← allot_setLinks s n _ 0 1]
  rfl

lemma Truthful.openNamei (h : Truthful root s) (creat excl : Bool) (mode : Word) :
    Truthful root (s.openNamei c d name creat excl mode).2 := by
  rw [Tree.openNamei]
  by_cases hd : s.Entered c d
  swap
  · rw [if_pos hd]
    exact h
  rw [if_neg (not_not.mpr hd)]
  by_cases hname : name = []
  · rw [if_pos hname]
    split
    · exact h
    · exact h.hold (h.live_ne_zero hd.1)
  rw [if_neg hname]
  cases hf : s.findEntry d name with
  | some k =>
    have h₀ := (findEntry_some hf).2.1
    dsimp only
    split_ifs
    · exact h
    · exact h.hold h₀
    · exact h.iput h₀
  | none =>
    cases hnew : s.newInode with
    | none =>
      dsimp only
      split_ifs
      all_goals exact h
    | some n =>
      have hn := newInode_some hnew
      dsimp only
      split_ifs
      · exact (h.create hd.1 hn mode).hold (h.new_ne_zero hn)
      · exact h.drop hn _
      · exact h
      · exact h

lemma Truthful.close (h : Truthful root s) (n : Word) : Truthful root (s.close n).2 := by
  rw [Tree.close]
  split_ifs with ho
  · exact h
  · have h₀ : n ≠ 0 := by
      rintro rfl
      exact ho h.zero.2.2
    exact (h.setOpens h₀ _).iput h₀

lemma Truthful.namei (h : Truthful root s) (hn : s.namei c d name = some n) : n ≠ 0 ∧ s.imap n = true := by
  rw [Tree.namei] at hn
  split_ifs at hn with hd hname
  · cases hn
    exact ⟨h.live_ne_zero hd.1, hd.1.imap⟩
  · obtain ⟨k, hf, rfl⟩ := Option.map_eq_some_iff.mp hn
    have hk := findEntry_some hf
    exact ⟨hk.2.1, hk.2.2 ▸ h.allotted d k hd.1⟩

lemma Truthful.sysLink (h : Truthful root s) (oldDir : Word) (oldName : List Byte)
    (hroom : ∀ n, s.namei c oldDir oldName = some n → s.iNlinks n ≠ 255) :
    Truthful root (s.sysLink c oldDir oldName d name).2 := by
  rw [Tree.sysLink]
  cases hold : s.namei c oldDir oldName with
  | none => exact h
  | some n =>
    obtain ⟨h₀, himap⟩ := h.namei hold
    dsimp only
    cases s.findEntry d name with
    | some k =>
      dsimp only
      split_ifs
      all_goals exact h.iput h₀
    | none =>
      dsimp only
      split_ifs with hreg hd
      · exact h.iput h₀
      · exact (h.enter hd.1 h₀ himap (regular_not_dir hreg) (hroom n hold) name).iput h₀
      all_goals exact h.iput h₀

lemma Truthful.sysUnlink (h : Truthful root s) : Truthful root (s.sysUnlink c d name).2 := by
  rw [Tree.sysUnlink]
  split_ifs with hd
  · exact h
  · cases hf : s.findEntry d name with
    | none => exact h
    | some k =>
      obtain ⟨hk, h₀, hnamed⟩ := findEntry_some hf
      dsimp only
      rw [← hnamed] at h₀ ⊢
      split_ifs with hreg hl
      · exact absurd hl (h.clear hd.1 hk h₀ (regular_not_dir hreg)).1
      · exact (h.clear hd.1 hk h₀ (regular_not_dir hreg)).2.iput h₀
      · exact h.iput h₀
  all_goals exact h

lemma named_dots (s : Tree) (n d : Word) (h₀ : s.size n = 0) :
    (∀ x k, x ≠ n → (s.dots n d).named x k = s.named x k) ∧ (s.dots n d).named n 0 = n ∧
      (s.dots n d).named n 1 = d ∧ ∀ k, 2 ≤ k → (s.dots n d).named n k = 0 := by
  have hsize : (s.setEntry n 0 ⟨n, [46]⟩).size n = 1 := by
    rw [Tree.setEntry]
    dsimp only
    rw [Function.update_self, h₀]
    rfl
  have hsecond := named_setEntry (s := s.setEntry n 0 ⟨n, [46]⟩) hsize.ge ⟨d, [46, 46]⟩
  have hfirst := named_setEntry (s := s) (Nat.zero_le (s.size n)) ⟨n, [46]⟩
  refine ⟨fun x k hx => ?_, ?_, ?_, fun k hk => ?_⟩
  · rw [Tree.dots, hsecond, if_neg fun h => hx h.1, hfirst, if_neg fun h => hx h.1]
  · rw [Tree.dots, hsecond, if_neg fun h => Nat.zero_ne_one h.2, hfirst, if_pos ⟨rfl, rfl⟩]
  · rw [Tree.dots, hsecond, if_pos ⟨rfl, rfl⟩]
  · rw [Tree.dots, hsecond, if_neg fun h => by omega, hfirst, if_neg fun h => by omega, Tree.named, h₀]
    exact if_neg (Nat.not_lt_zero k)

/-- The new directory before its parent has the entry. -/
lemma Truthful.dots (h : Truthful root s) (hn : s.imap n = false) (mode : Word) :
    Truthful root ((s.allot n mode 0).dots n d) := by
  obtain ⟨hother, -⟩ := named_dots (s.allot n mode 0) n d (Function.update_self _ _ _)
  refine h.fresh hn rfl (fun _ hm => Function.update_of_ne hm _ _) (fun _ hm => Function.update_of_ne hm _ _)
    (Function.update_self _ _ _) ((Function.update_of_ne (h.new_ne_zero hn).symm _ _).trans h.zero.2.2)
    (fun x k hx => ?_)
  rw [hother x k hx, named_allot s mode 0 hx]

variable (name) in
/-- `add_entry` of a new directory, and the link that its `..` is. -/
lemma attached_enter (h : Truthful root s) (hd : s.Live d) (hn : s.imap n = true) (hdir : s.isDir n = true)
    (hl : s.iNlinks n = 0) (hfirst : s.named n 0 = n) (hsecond : s.named n 1 = d)
    (hempty : ∀ k, 2 ≤ k → s.named n k = 0) (hroom : s.iNlinks d ≠ 255) :
    Attached d n (s.freeEntry d) s
      (((s.setLinks n 2).enter d n name).setLinks d (((s.setLinks n 2).enter d n name).iNlinks d + 1)) := by
  obtain ⟨hle, hfree⟩ := freeEntry_spec s d
  have hnamed := named_setEntry hle ⟨n, name.take nameLen⟩
  have hne : n ≠ d := by
    rintro rfl
    exact hd.2.2 hl
  have hcount : ((s.setLinks n 2).enter d n name).iNlinks d = s.iNlinks d := Function.update_of_ne hne.symm _ _
  rw [hcount]
  have hlast : (((s.setLinks n 2).enter d n name).setLinks d (s.iNlinks d + 1)).iNlinks d = s.iNlinks d + 1 :=
    Function.update_self _ _ _
  exact
    { imap := rfl
      iMode := rfl
      opens := rfl
      off := fun x j hp => (hnamed x j).trans (if_neg hp)
      two_le := h.two_le hd (by rw [hfree]; exact h.zero.2.1)
      free := hfree
      entry := (hnamed d _).trans (if_pos ⟨rfl, rfl⟩)
      parent := hd
      ne := hne
      allotted := hn
      isDir := hdir
      dot := hfirst
      dotdot := hsecond
      empty := hempty
      unlinked := hl
      linked := (Function.update_of_ne hne _ _).trans (Function.update_self _ _ _)
      one_more := (congrArg BitVec.toNat hlast).trans (toNat_succ hroom)
      links := fun m hmn hmd => (Function.update_of_ne hmd _ _).trans (Function.update_of_ne hmn _ _) }

lemma Truthful.makeDirectory (h : Truthful root s) (hd : s.Live d) (hn : s.imap n = false) (mode : Word)
    (hroom : s.iNlinks d ≠ 255) :
    let t := ((((s.allot n 0 1).dots n d).setLinks n 2).setMode n (iDirectory ||| mode &&& 0o777)).enter d n name
    Truthful root (t.setLinks d (t.iNlinks d + 1)) := by
  intro t
  have hnew : (((s.allot n 0 1).dots n d).setLinks n 2).setMode n (iDirectory ||| mode &&& 0o777) =
      ((s.allot n (iDirectory ||| mode &&& 0o777) 0).dots n d).setLinks n 2 := by
    simp only [Tree.setLinks, Tree.setMode, Tree.dots, Tree.setEntry, Tree.allot, Function.update_idem]
  have hbase := h.dots (d := d) hn (iDirectory ||| mode &&& 0o777)
  obtain ⟨-, hfirst, hsecond, hempty⟩ :=
    named_dots (s.allot n (iDirectory ||| mode &&& 0o777) 0) n d (Function.update_self _ _ _)
  have hdn : d ≠ n := by
    rintro rfl
    rw [hd.imap] at hn
    cases hn
  have hlive : ((s.allot n (iDirectory ||| mode &&& 0o777) 0).dots n d).Live d := by
    simp only [Tree.Live, Tree.isDir, Tree.dots, Tree.setEntry, Tree.allot, Function.update_of_ne hdn]
    exact hd
  have hdir : ((s.allot n (iDirectory ||| mode &&& 0o777) 0).dots n d).isDir n = true := by
    simp only [Tree.isDir, Tree.dots, Tree.setEntry, Tree.allot, Function.update_self]
    exact isDir_of_mode iDirectory mode
  have hcount : ((s.allot n (iDirectory ||| mode &&& 0o777) 0).dots n d).iNlinks d = s.iNlinks d :=
    Function.update_of_ne hdn _ _
  have hlinks : ((s.allot n (iDirectory ||| mode &&& 0o777) 0).dots n d).iNlinks n = 0 :=
    Function.update_self _ _ _
  have hatt := attached_enter name hbase hlive (Function.update_self _ _ _) hdir hlinks hfirst hsecond hempty
    (hcount ▸ hroom)
  rw [← hnew] at hatt
  exact hatt.truthful hbase

lemma Truthful.sysMkdir (h : Truthful root s) (mode : Word) (hroom : s.iNlinks d ≠ 255) {r : ℤ} {s' : Tree}
    (hs : s.sysMkdir c d name mode = .ok (r, s')) : Truthful root s' := by
  rw [Tree.sysMkdir] at hs
  cases hf : s.findEntry d name with
  | some k =>
    rw [hf] at hs
    dsimp only at hs
    split_ifs at hs
    all_goals
      cases hs
      exact h
  | none =>
    cases hnew : s.newInode with
    | none =>
      rw [hf, hnew] at hs
      dsimp only at hs
      split_ifs at hs
      all_goals
        cases hs
        exact h
    | some n =>
      rw [hf, hnew] at hs
      have hn := newInode_some hnew
      have h₀ := h.new_ne_zero hn
      dsimp only at hs
      split_ifs at hs with hsuper hd
      · cases hs
        exact h
      · cases hs
        exact ((h.makeDirectory hd.1 hn mode hroom).iput (h.live_ne_zero hd.1)).iput h₀
      all_goals cases hs
      · exact h.drop hn 0
      all_goals exact h

lemma Truthful.two_le_of_empty (h : Truthful root s) (hd : s.Live d) (hn : s.named d k = n) (hne : n ≠ d)
    (hempty : ∀ j, 2 ≤ j → s.named n j = 0) : 2 ≤ k := by
  match k with
  | 0 => exact absurd ((h.dot d hd).symm.trans hn).symm hne
  | 1 =>
    obtain ⟨-, ⟨rfl, hr⟩ | ⟨-, j, hj, he⟩⟩ := h.parent d hd
    · exact absurd (hn.symm.trans hr) hne
    · rw [hn, hempty j hj] at he
      exact absurd he.symm (h.live_ne_zero hd)
  | k + 2 => omega

lemma Truthful.dotdot_of_subdir (h : Truthful root s) (hd : s.Live d) (hsub : s.IsSubdir d k) :
    s.named (s.named d k) 1 = d := by
  obtain ⟨hlive, hroot⟩ := h.below d k hd hsub
  obtain ⟨hp, ⟨hr, -⟩ | ⟨-, j, hj, he⟩⟩ := h.parent _ hlive
  · exact absurd hr hroot
  · exact (h.once _ _ _ _ hp hd (h.isSubdir hj (he.symm ▸ hsub.2.2)) hsub he).1

lemma Truthful.links_of_empty (h : Truthful root s) (hn : s.Live n) (hempty : ∀ j, 2 ≤ j → s.named n j = 0) :
    s.iNlinks n = 2 := by
  have hnone : s.subdirs n = ∅ := Set.eq_empty_iff_forall_notMem.mpr fun j hj => hj.2.1 (hempty j hj.1)
  have hc := h.dirs n hn
  rw [hnone, Set.encard_empty, add_zero] at hc
  exact BitVec.eq_of_toNat_eq (by exact_mod_cast hc)

lemma Truthful.three_le_links (h : Truthful root s) (hd : s.Live d) (hsub : s.IsSubdir d k) :
    3 ≤ (s.iNlinks d).toNat := by
  have hmem : {k} ⊆ s.subdirs d := Set.singleton_subset_iff.mpr hsub
  have hone := Set.encard_le_encard hmem
  rw [Set.encard_singleton] at hone
  have hthree : ((3 : ℕ) : ℕ∞) ≤ (s.iNlinks d).toNat := by
    rw [h.dirs d hd]
    exact add_le_add (le_refl (2 : ℕ∞)) hone
  exact_mod_cast hthree

lemma Truthful.detached (h : Truthful root s) (hd : s.Live d) (hk : k < s.size d)
    (hne : s.named d k ≠ d) (hdir : s.isDir (s.named d k) = true)
    (hempty : ∀ j, 2 ≤ j → s.named (s.named d k) j = 0) :
    Attached d (s.named d k) k (((s.clear d k).setLinks (s.named d k) 0).setLinks d (s.iNlinks d - 1)) s := by
  generalize hn : s.named d k = n at *
  have hnamed := named_setEntry hk.le { s.entry d k with inode := 0 }
  have htwo : 2 ≤ k := h.two_le_of_empty hd hn hne hempty
  have hsub : s.IsSubdir d k := h.isSubdir htwo (hn.symm ▸ hdir)
  obtain ⟨hlive, -⟩ := hn ▸ h.below d k hd hsub
  have hup : s.named n 1 = d := hn ▸ h.dotdot_of_subdir hd hsub
  have hchild : ∀ j, (((s.clear d k).setLinks n 0).setLinks d (s.iNlinks d - 1)).named n j = s.named n j :=
    fun j => (hnamed n j).trans (if_neg fun hp => hne hp.1)
  have hpos : s.iNlinks d ≠ 0 := hd.2.2
  have hlast : (((s.clear d k).setLinks n 0).setLinks d (s.iNlinks d - 1)).iNlinks d = s.iNlinks d - 1 :=
    Function.update_self _ _ _
  have hlinks : ∀ m, m ≠ n → m ≠ d →
      s.iNlinks m = (((s.clear d k).setLinks n 0).setLinks d (s.iNlinks d - 1)).iNlinks m := fun m hmn hmd =>
    ((Function.update_of_ne hmd _ _).trans (Function.update_of_ne hmn _ _)).symm
  have hkept : s.iNlinks d - 1 ≠ 0 := by
    intro hz
    have hparent := h.three_le_links hd hsub
    have hp := toNat_pred hpos
    rw [hz] at hp
    change 0 + 1 = _ at hp
    omega
  exact
    { imap := rfl
      iMode := rfl
      opens := rfl
      off := fun x j hp => ((hnamed x j).trans (if_neg hp)).symm
      two_le := htwo
      free := (hnamed d k).trans (if_pos ⟨rfl, rfl⟩)
      entry := hn
      parent := ⟨hd.imap, hd.isDir, by rw [hlast]; exact hkept⟩
      ne := hne
      allotted := hlive.imap
      isDir := hdir
      dot := (hchild 0).trans (h.dot n hlive)
      dotdot := (hchild 1).trans hup
      empty := fun j hj => (hchild j).trans (hempty j hj)
      unlinked := (Function.update_of_ne hne _ _).trans (Function.update_self _ _ _)
      linked := h.links_of_empty hlive hempty
      one_more := by rw [hlast, toNat_pred hpos]
      links := hlinks }

lemma emptyDir_spec (h : s.emptyDir n = true) (k : ℕ) (hk : 2 ≤ k) : s.named n k = 0 := by
  have hall := (of_decide_eq_true h).2.2.2.2.2
  rw [Tree.named]
  split_ifs with hlt
  · exact hall k hlt hk
  · rfl

lemma Truthful.sysRmdir (h : Truthful root s) : Truthful root (s.sysRmdir c d name).2 := by
  rw [Tree.sysRmdir]
  cases hf : s.findEntry d name with
  | none =>
    dsimp only
    split_ifs
    all_goals exact h
  | some k =>
    obtain ⟨hk, h₀, hnamed⟩ := findEntry_some hf
    dsimp only
    rw [← hnamed] at h₀ ⊢
    split_ifs with hsuper hd hname hwrite hne hdir hempty
    · exact h
    · exact h.iput h₀
    · have hd₀ := h.live_ne_zero hd.1
      have hatt := h.detached hd.1 hk hne hdir (emptyDir_spec hempty)
      exact ((hatt.truthful_without h).iput hd₀).iput h₀
    · exact h.iput h₀
    · exact h.iput h₀
    all_goals exact h

lemma snd_of_ok {x : ℤ × Tree} {r : ℤ} {s' : Tree} (h : (Except.ok x : Except Fault _) = .ok (r, s')) :
    x.2 = s' := congrArg Prod.snd (Except.ok.inj h)

lemma truthful_step (a : NameCall) (h : Truthful root s) (hok : a.Countable s) {r : ℤ} {s' : Tree}
    (hs : a.run s = .ok (r, s')) : Truthful root s' := by
  cases a with
  | opening c d name creat excl mode => exact snd_of_ok hs ▸ h.openNamei creat excl mode
  | closing n => exact snd_of_ok hs ▸ h.close n
  | link c oldDir oldName d name => exact snd_of_ok hs ▸ h.sysLink oldDir oldName hok
  | unlink c d name => exact snd_of_ok hs ▸ h.sysUnlink
  | mkdir c d name mode => exact h.sysMkdir mode hok hs
  | rmdir c d name => exact snd_of_ok hs ▸ h.sysRmdir

end Calls

structure LinksCount (s : Tree) : Prop where
  files : ∀ n, n ≠ 0 → s.imap n = true → sIsReg (s.iMode n) = true → (s.names n).encard = (s.iNlinks n).toNat
  dirs : ∀ d, s.Live d → ((s.iNlinks d).toNat : ℕ∞) = 2 + (s.subdirs d).encard
  -- what `iput` frees has no name
  unnamed : ∀ n, n ≠ 0 → s.imap n = true → s.iNlinks n = 0 → s.names n = ∅
  allotted : ∀ d k, s.Live d → s.imap (s.named d k) = true

/-- As long as no call increments a count of 255, the counts stay right and no live entry names an inode
that has been freed. -/
theorem links_count (root : Word) (s : Tree) (hs : (nameSystem root).Reach (fun s a => a.Countable s) s) :
    LinksCount s := by
  have h : Truthful root s := hs.invariant (I := Truthful root) (fun _ h => h) fun _ a _ h hok hr => by
    obtain ⟨_, hr⟩ := hr
    exact truthful_step a h hok hr
  exact
    { files := fun n h₀ hn hreg => h.files n h₀ hn (regular_not_dir hreg)
      dirs := h.dirs
      unnamed := fun n h₀ hn hl => Set.eq_empty_iff_forall_notMem.mpr fun p hp => h.unnamed h₀ hn hl hp.1 hp.2
      allotted := h.allotted }

/-- A root directory with `m` names of one file. -/
def linkedTree (m : ℕ) : Tree where
  iMode n := if n = 1 then 0o040755 else if n = 2 then 0o100644 else 0
  iNlinks n := if n = 1 then 2 else if n = 2 then BitVec.ofNat 8 m else 0
  imap n := decide (n = 0 ∨ n = 1 ∨ n = 2)
  imapBits := 8192
  nInodes := 1000
  opens n := if n = 1 then 2 else 0
  size n := if n = 1 then m + 2 else 0
  entry _ k :=
    if k = 0 then ⟨1, [46]⟩
    else if k = 1 then ⟨1, [46, 46]⟩
    else ⟨2, [BitVec.ofNat 8 (97 + k / 26), BitVec.ofNat 8 (97 + k % 26)]⟩

def anyone : Chance := ⟨true, fun _ => true, fun _ => true, fun _ => true, true, true⟩

section Linked

variable {m : ℕ}

lemma linked_isDir (n : Word) : (linkedTree m).isDir n = decide (n = 1) := by
  rw [Tree.isDir, linkedTree]
  dsimp only
  split_ifs with h₁ h₂
  · subst h₁
    decide
  · subst h₂
    decide
  · rw [decide_eq_false h₁]
    decide

lemma linked_imap (m : ℕ) : (linkedTree m).imap 1 = true := rfl

lemma linked_links (m : ℕ) : (linkedTree m).iNlinks 1 ≠ 0 := show (2 : Byte) ≠ 0 by decide

lemma linked_live (n : Word) : (linkedTree m).Live n ↔ n = 1 := by
  constructor
  · intro h
    exact of_decide_eq_true ((linked_isDir n).symm.trans h.isDir)
  · rintro rfl
    exact ⟨linked_imap _, linked_isDir 1, linked_links _⟩

lemma linked_named (k : ℕ) :
    (linkedTree m).named 1 k = if k < 2 then 1 else if k < m + 2 then 2 else 0 := by
  have hsize : (linkedTree m).size 1 = m + 2 := rfl
  have hentry : (linkedTree m).entry 1 k =
      if k = 0 then ⟨1, [46]⟩
      else if k = 1 then ⟨1, [46, 46]⟩
      else ⟨2, [BitVec.ofNat 8 (97 + k / 26), BitVec.ofNat 8 (97 + k % 26)]⟩ := rfl
  rw [Tree.named, hsize, hentry]
  split_ifs
  all_goals first
    | rfl
    | omega

lemma linked_not_subdir (d : Word) (hd : (linkedTree m).Live d) (k : ℕ) : ¬ (linkedTree m).IsSubdir d k := by
  rw [linked_live] at hd
  subst hd
  rintro ⟨hk, hne, hdir⟩
  rw [linked_isDir, linked_named, if_neg (by omega)] at hdir
  split_ifs at hdir
  all_goals exact absurd hdir (by decide)

lemma linked_names (n : Word) (h₁ : n ≠ 1) (h₀ : n ≠ 0) :
    ((linkedTree m).names n).encard = if n = 2 then (m : ℕ∞) else 0 := by
  by_cases hn : n = 2
  · subst hn
    have hset : (linkedTree m).names 2 = (fun k : ℕ => ((1 : Word), k)) '' (Finset.Ico 2 (m + 2) : Finset ℕ) := by
      ext ⟨d, k⟩
      rw [Set.mem_image]
      constructor
      · rintro ⟨hd, hk⟩
        rw [linked_live] at hd
        dsimp only at hd hk
        subst hd
        rw [linked_named] at hk
        refine ⟨k, ?_, rfl⟩
        rw [Finset.mem_coe, Finset.mem_Ico]
        split_ifs at hk with h₂ h₃
        · exact absurd hk (by decide)
        · omega
        · exact absurd hk (by decide)
      · rintro ⟨j, hj, he⟩
        rw [Finset.mem_coe, Finset.mem_Ico] at hj
        cases he
        refine ⟨(linked_live 1).mpr rfl, ?_⟩
        rw [linked_named, if_neg (by omega), if_pos (by omega)]
    rw [if_pos rfl, hset, Function.Injective.encard_image fun _ _ h => (Prod.ext_iff.mp h).2,
      Set.encard_coe_eq_coe_finsetCard, Nat.card_Ico, Nat.add_sub_cancel]
  · rw [if_neg hn, Set.encard_eq_zero, Set.eq_empty_iff_forall_notMem]
    rintro ⟨d, k⟩ ⟨hd, hk⟩
    rw [linked_live] at hd
    dsimp only at hd hk
    subst hd
    rw [linked_named] at hk
    split_ifs at hk
    · exact h₁ hk.symm
    · exact hn hk.symm
    · exact h₀ hk.symm

lemma linkedTree_truthful (hm : m < 256) : Truthful 1 (linkedTree m) where
  zero := ⟨rfl, linked_isDir 0, rfl⟩
  top := (linked_live 1).mpr rfl
  allotted d k hd := by
    rw [linked_live] at hd
    subst hd
    rw [linked_named]
    split_ifs
    all_goals rfl
  files n h₀ himap hfile := by
    have h₁ : n ≠ 1 := by
      rintro rfl
      exact absurd hfile (by rw [linked_isDir]; decide)
    have hlinks : (linkedTree m).iNlinks n = if n = 2 then BitVec.ofNat 8 m else 0 := if_neg h₁
    rw [linked_names n h₁ h₀, hlinks]
    split_ifs
    · rw [BitVec.toNat_ofNat, Nat.mod_eq_of_lt hm]
    · rfl
  dirs d hd := by
    have hnone : (linkedTree m).subdirs d = ∅ := Set.eq_empty_iff_forall_notMem.mpr (linked_not_subdir d hd)
    rw [linked_live] at hd
    subst hd
    rw [hnone, Set.encard_empty, add_zero]
    rfl
  dot d hd := by
    rw [linked_live] at hd
    subst hd
    rw [linked_named, if_pos (by omega)]
  parent d hd := by
    rw [linked_live] at hd
    subst hd
    have hup : (linkedTree m).named 1 1 = 1 := by rw [linked_named, if_pos (by omega)]
    rw [hup]
    exact ⟨(linked_live 1).mpr rfl, Or.inl ⟨rfl, rfl⟩⟩
  below d k hd hk := absurd hk (linked_not_subdir d hd k)
  once d k d' k' hd _ hk := absurd hk (linked_not_subdir d hd k)

end Linked

/-- The only name of the file goes, and the file with it. -/
theorem links_count_unlinked :
    ∃ s, (nameSystem 1).Reach (fun s a => a.Countable s) s ∧ s.imap 2 = false ∧ LinksCount s := by
  have hreach : (nameSystem 1).Reach (fun s a => a.Countable s) ((linkedTree 1).sysUnlink anyone 1 [97, 99]).2 :=
    .next (.start (linkedTree_truthful (m := 1) (by decide)))
      (show NameCall.Countable _ (.unlink anyone 1 [97, 99]) from trivial) ⟨_, rfl⟩
  exact ⟨_, hreach, by decide +kernel, links_count 1 _ hreach⟩

/-- The 256th name of a file wraps its count, and the file is freed. -/
theorem links_count_wraps :
    ∃ s, (nameSystem 1).Reach (fun _ _ => True) s ∧ s.Live 1 ∧ s.named 1 2 = 2 ∧ s.imap 2 = false ∧
      ¬ LinksCount s := by
  have hreach : (nameSystem 1).Reach (fun _ _ => True) ((linkedTree 255).sysLink anyone 1 [97, 99] 1 [98]).2 :=
    .next (a := .link anyone 1 [97, 99] 1 [98]) (.start (linkedTree_truthful (m := 255) (by decide))) trivial
      ⟨_, rfl⟩
  have hlive : ((linkedTree 255).sysLink anyone 1 [97, 99] 1 [98]).2.Live 1 := by decide +kernel
  have hnamed : ((linkedTree 255).sysLink anyone 1 [97, 99] 1 [98]).2.named 1 2 = 2 := by decide +kernel
  have hfreed : ((linkedTree 255).sysLink anyone 1 [97, 99] 1 [98]).2.imap 2 = false := by decide +kernel
  refine ⟨_, hreach, hlive, hnamed, hfreed, fun h => ?_⟩
  have hkept := h.allotted 1 2 hlive
  rw [hnamed, hfreed] at hkept
  cases hkept

end Devos.Fs
