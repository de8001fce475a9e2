import Devos.Security.WalkResources

/-! Which trees `encrypt_directory` and `decrypt_directory` come through: those at each of whose entries an inode is
free. -/

namespace Devos.Security

open Fs Loops InodeSlots

namespace DirTree

variable {cost : Word → ℕ} {free own base : ℕ}

/-- An inode is free at each entry of one directory, which is looked through when `held` inodes are held. -/
def ScanFits (cost : Word → ℕ) (free : ℕ) : ℕ → DirTree → Prop
  | _, nil => True
  | held, hidden _ rest => ScanFits cost free held rest
  | held, file _ rest => held < free ∧ ScanFits cost free held rest
  | held, dir e _ rest => held < free ∧ ScanFits cost free (held + cost e.inode) rest

/-- An inode is free at each entry of the directories below, of which the last comes first. -/
def DrainFits (cost : Word → ℕ) (free : ℕ) : ℕ → DirTree → Prop
  | _, nil => True
  | base, hidden _ rest => DrainFits cost free base rest
  | base, file _ rest => DrainFits cost free base rest
  | base, dir e below rest =>
    DrainFits cost free (base + cost e.inode) rest ∧ ScanFits cost free (base + cost e.inode) below ∧
      DrainFits cost free base below

lemma fits_iff {t : DirTree} :
    Fits cost free own base t ↔ ScanFits cost free (base + own) t ∧ DrainFits cost free base t := by
  induction t generalizing own base with
  | nil => exact (and_self_iff).symm
  | hidden e rest ih => exact ih
  | file e rest ih =>
    rw [Fits, ScanFits, DrainFits, ih, and_assoc]
  | dir e below rest ihbelow ihrest =>
    rw [Fits, ScanFits, DrainFits, ihbelow, ihrest, Nat.add_right_comm base (cost e.inode) own]
    tauto

lemma tops_sublist (t : DirTree) : t.tops.Sublist t.dirs := by
  induction t with
  | nil => exact List.Sublist.refl _
  | hidden e rest ih => exact ih
  | file e rest ih => exact ih
  | dir e below rest _ ih => exact (ih.trans (List.sublist_append_right _ _)).cons_cons _

end DirTree

namespace Traversal

variable {d : DirDisk} {q : Direction} {root k : Fin Fs.nrInode} {w : Traversal} {s₀ : InodeSlots} {n : Word}
  {held : List (Fin Fs.nrInode × Word)} {t : DirTree}

@[simp] lemma handFirst_inodes : (handFirst q w n).inodes = w.inodes := by cases q <;> rfl
@[simp] lemma handFirst_stack : (handFirst q w n).stack = w.stack := by cases q <;> rfl
@[simp] lemma handFirst_bCount : (handFirst q w n).bCount = w.bCount := by cases q <;> rfl
@[simp] lemma handLast_inodes : (handLast q w n).inodes = w.inodes := by cases q <;> rfl
@[simp] lemma handLast_stack : (handLast q w n).stack = w.stack := by cases q <;> rfl
@[simp] lemma handLast_bCount : (handLast q w n).bCount = w.bCount := by cases q <;> rfl

/-- Each inode is held once, so the stack cannot be full before the table is. -/
lemma push_ok (hold : Holding s₀ d.dev held w.inodes) (hlen : w.stack.length ≤ held.length) (k : Fin Fs.nrInode) :
    w.push k = .ok { w with stack := k :: w.stack } := by
  have hcard := hold.nodup.length_le_card
  rw [List.length_map, Fintype.card_fin] at hcard
  apply if_pos
  dsimp only [stackSize, Fs.nrInode] at hcard ⊢
  omega

lemma free_eq_zero {s : InodeSlots} (hold : Holding s₀ d.dev held s) (hfits : ¬s₀.costs d.dev held < s₀.free) :
    s.free = 0 := by
  have hfree := hold.free
  omega

/-- The entries of one directory: its directories are pushed, or the inodes run out. -/
lemma scan_spec (hdev : d.dev ≠ 0) (hon : t.On d) (hold : Holding s₀ d.dev held w.inodes)
    (hdirs : ∀ x ∈ held, d.isDir x.2 = true) (hfresh : ∀ x ∈ held, x.2 ∉ t.tops) (hnodup : t.tops.Nodup)
    (hlen : w.stack.length ≤ held.length) :
    (t.ScanFits (s₀.cost d.dev) s₀.free (s₀.costs d.dev held) → ∃ pushed w', scan d t.list w = .ok w' ∧
      w'.stack = pushed.map Prod.fst ++ w.stack ∧ pushed.map Prod.snd = t.tops.reverse ∧
        Holding s₀ d.dev (pushed ++ held) w'.inodes ∧ w'.bCount = w.bCount) ∧
      (¬t.ScanFits (s₀.cost d.dev) s₀.free (s₀.costs d.dev held) → scan d t.list w = .error .panic) := by
  induction t generalizing w held with
  | nil => exact ⟨fun _ => ⟨[], w, rfl, rfl, rfl, hold, rfl⟩, fun h => absurd trivial h⟩
  | hidden e rest ih =>
    rw [DirTree.list, scan, entry, if_pos hon.1]
    exact ih hon.2 hold hdirs hfresh hnodup hlen
  | file e rest ih =>
    obtain ⟨hname, hfile, hrest⟩ := hon
    have hne : ∀ x ∈ held, x.2 ≠ e.inode := by
      intro x hx heq
      have hdir := hdirs x hx
      rw [heq, hfile] at hdir
      cases hdir
    rw [DirTree.list, scan, DirTree.ScanFits]
    by_cases hfits : s₀.costs d.dev held < s₀.free
    · obtain ⟨k, s, hget, hold'⟩ := hold.iget hdev hne hfits
      obtain ⟨s', hput, hold''⟩ := hold'.iput hdev
      have hstep : w.entry d e = .ok ((w.hand e.inode).setInodes s') := by
        rw [entry, if_neg hname, hget, Except.bind]
        dsimp only
        rw [if_neg (by rw [hfile]; exact Bool.false_ne_true), hput]
        rfl
      obtain ⟨hok, herror⟩ := ih (w := (w.hand e.inode).setInodes s') hrest hold'' hdirs hfresh hnodup hlen
      rw [hstep]
      exact ⟨fun h => hok h.2, fun h => herror fun h' => h ⟨hfits, h'⟩⟩
    · rw [entry, if_neg hname, iget_panics (free_eq_zero hold hfits)]
      exact ⟨fun h => absurd h.1 hfits, fun _ => rfl⟩
  | dir e below rest _ ih =>
    obtain ⟨hname, hdir, _, _, hrest⟩ := hon
    rw [DirTree.tops, List.nodup_cons] at hnodup
    have hne : ∀ x ∈ held, x.2 ≠ e.inode := fun x hx heq => hfresh x hx (heq ▸ List.mem_cons_self)
    rw [DirTree.list, scan, DirTree.ScanFits]
    by_cases hfits : s₀.costs d.dev held < s₀.free
    · obtain ⟨k, s, hget, hold'⟩ := hold.iget hdev hne hfits
      have hpush : (w.setInodes s).push k = .ok { w with inodes := s, stack := k :: w.stack } :=
        push_ok (w := w.setInodes s) hold' (Nat.le_succ_of_le hlen) k
      have hstep : w.entry d e = .ok { w with inodes := s, stack := k :: w.stack } := by
        rw [entry, if_neg hname, hget, Except.bind]
        dsimp only
        rw [if_pos hdir, hpush]
      obtain ⟨hok, herror⟩ := ih (w := { w with inodes := s, stack := k :: w.stack }) hrest hold'
        (fun x hx => by
          rcases List.mem_cons.mp hx with rfl | hx
          · exact hdir
          · exact hdirs x hx)
        (fun x hx => by
          rcases List.mem_cons.mp hx with rfl | hx
          · exact hnodup.1
          · exact fun hmem => hfresh x hx (List.mem_cons_of_mem _ hmem))
        hnodup.2 (Nat.succ_le_succ hlen)
      rw [costs_cons, Nat.add_comm (s₀.cost d.dev e.inode)] at hok herror
      rw [hstep]
      refine ⟨fun h => ?_, fun h => herror fun h' => h ⟨hfits, h'⟩⟩
      obtain ⟨pushed, w', hrun, hstack, hpushed, hold'', hcount⟩ := hok h.2
      refine ⟨pushed ++ [(k, e.inode)], w', hrun, ?_, ?_, ?_, hcount⟩
      · rw [hstack, List.map_append, List.append_assoc]
        rfl
      · rw [List.map_append, hpushed, DirTree.tops, List.reverse_cons]
        rfl
      · rw [List.append_assoc]
        exact hold''
    · rw [entry, if_neg hname, iget_panics (free_eq_zero hold hfits)]
      exact ⟨fun h => absurd h.1 hfits, fun _ => rfl⟩

/-- A turn of the loop over the stack, for the root, whose inode the caller keeps, or for a directory that is held. -/
lemma visit_spec {own : List (Fin Fs.nrInode × Word)} (hdev : d.dev ≠ 0)
    (hown : k = root ∧ own = [] ∨ k ≠ root ∧ own = [(k, n)]) (hnum : w.inodes.iNum k = n) (hlist : d.entries n = t.list) (hon : t.On d)
    (hold : Holding s₀ d.dev (own ++ held) w.inodes) (hdirs : ∀ x ∈ own ++ held, d.isDir x.2 = true)
    (hfresh : ∀ x ∈ own ++ held, x.2 ∉ t.tops) (hnodup : t.tops.Nodup) (hlen : w.stack.length ≤ held.length) :
    (t.ScanFits (s₀.cost d.dev) s₀.free (s₀.costs d.dev (own ++ held)) → ∃ pushed w', visit d q root w k = .ok w' ∧
      w'.stack = pushed.map Prod.fst ++ w.stack ∧ pushed.map Prod.snd = t.tops.reverse ∧
        Holding s₀ d.dev (pushed ++ held) w'.inodes ∧ w'.bCount = w.bCount) ∧
      (¬t.ScanFits (s₀.cost d.dev) s₀.free (s₀.costs d.dev (own ++ held)) → visit d q root w k = .error .panic) := by
  obtain ⟨hok, herror⟩ := scan_spec (w := (handFirst q w n).bread (d.block n)) hdev hon
    (by simpa [bread] using hold) hdirs hfresh hnodup
    (by
      rw [List.length_append]
      simpa [bread] using hlen.trans (Nat.le_add_left _ _))
  rw [visit, hnum, hlist]
  refine ⟨fun hfits => ?_, fun hfits => by rw [herror hfits]; rfl⟩
  obtain ⟨pushed, w₁, hscan, hstack, hpushed, hold₁, hcount⟩ := hok hfits
  have hback : Function.update w₁.bCount (d.block n) (w₁.bCount (d.block n) - 1) = w.bCount := by
    rw [hcount, bread]
    dsimp only
    rw [handFirst_bCount, Function.update_self, Nat.add_sub_cancel, Function.update_idem, Function.update_eq_self]
  have hpos : w₁.bCount (d.block n) ≠ 0 := by
    rw [hcount, bread]
    dsimp only
    rw [Function.update_self]
    exact Nat.succ_ne_zero _
  have hrelse : (handLast q w₁ n).brelse (d.block n) = .ok { handLast q w₁ n with bCount := w.bCount } := by
    rw [brelse, handLast_bCount, if_neg hpos, hback]
  have hstack' : w₁.stack = pushed.map Prod.fst ++ w.stack := by simpa [bread] using hstack
  rw [hscan, Except.bind, hrelse, Except.bind]
  dsimp only
  rcases hown with ⟨hroot, rfl⟩ | ⟨hroot, rfl⟩
  · rw [if_pos hroot]
    refine ⟨pushed, _, rfl, ?_, hpushed, ?_, rfl⟩
    · simpa using hstack'
    · simpa using hold₁
  · rw [if_neg hroot]
    have hmiddle : (pushed ++ ([(k, n)] ++ held)).Perm ((k, n) :: (pushed ++ held)) := List.perm_middle
    obtain ⟨s, hput, hold₂⟩ := (hold₁.perm hmiddle).iput hdev
    rw [handLast_inodes, hput, Except.map]
    refine ⟨pushed, _, rfl, ?_, hpushed, hold₂, rfl⟩
    simpa [setInodes] using hstack'

lemma pass_again {stack : List (Fin Fs.nrInode)} {w' : Traversal} (hstack : w.stack = k :: stack)
    (hvisit : visit d q root { w with stack := stack } k = .ok w') : pass d q root w = .again w' := by
  rw [pass, hstack]
  dsimp only
  rw [hvisit]

lemma pass_leave {stack : List (Fin Fs.nrInode)} {e : Fault} (hstack : w.stack = k :: stack)
    (hvisit : visit d q root { w with stack := stack } k = .error e) : pass d q root w = .leave (.error e) := by
  rw [pass, hstack]
  dsimp only
  rw [hvisit]

/-- The directories pushed at one directory, and all below them: the walk comes back to the stack under them, or the
inodes run out. -/
lemma drain_spec {pushed : List (Fin Fs.nrInode × Word)} {stack : List (Fin Fs.nrInode)} (hdev : d.dev ≠ 0)
    (hon : t.On d) (hroot : s₀.Is d.dev n root) (hused : s₀.iCount root ≠ 0) (hn : n ∉ t.dirs)
    (hstack : w.stack = pushed.map Prod.fst ++ stack) (hpushed : pushed.map Prod.snd = t.tops.reverse)
    (hold : Holding s₀ d.dev (pushed ++ held) w.inodes) (hdirs : ∀ x ∈ held, d.isDir x.2 = true)
    (hfresh : ∀ x ∈ held, x.2 ∉ t.dirs) (hnodup : t.dirs.Nodup) (hlen : stack.length ≤ held.length) :
    (t.DrainFits (s₀.cost d.dev) s₀.free (s₀.costs d.dev held) → ∃ w', Passes (pass d q root) w w' ∧ w'.stack = stack ∧
      Holding s₀ d.dev held w'.inodes ∧ w'.bCount = w.bCount) ∧
      (¬t.DrainFits (s₀.cost d.dev) s₀.free (s₀.costs d.dev held) → Returns (pass d q root) w (.error .panic)) := by
  induction t generalizing w pushed held stack with
  | nil =>
    obtain rfl := List.map_eq_nil_iff.mp hpushed
    exact ⟨fun _ => ⟨w, .refl, hstack, hold, rfl⟩, fun h => absurd trivial h⟩
  | hidden e rest ih => exact ih hon.2 hn hstack hpushed hold hdirs hfresh hnodup hlen
  | file e rest ih => exact ih hon.2.2 hn hstack hpushed hold hdirs hfresh hnodup hlen
  | dir e below rest ihbelow ihrest =>
    obtain ⟨_, hdir, hlist, hbelow, hrest⟩ := hon
    rw [DirTree.dirs, List.mem_cons, List.mem_append] at hn
    rw [DirTree.dirs, List.nodup_cons, List.mem_append, List.nodup_append] at hnodup
    obtain ⟨hself, hnodupBelow, hnodupRest, _⟩ := hnodup
    have hfresh' : ∀ x ∈ held, x.2 ≠ e.inode ∧ x.2 ∉ below.dirs ∧ x.2 ∉ rest.dirs := by
      intro x hx
      have hx' := hfresh x hx
      rw [DirTree.dirs, List.mem_cons, List.mem_append] at hx'
      tauto
    rw [DirTree.tops, List.reverse_cons] at hpushed
    obtain ⟨p, p', rfl, hp, hp'⟩ := List.map_eq_append_iff.mp hpushed
    obtain ⟨⟨k, m⟩, rfl, hm⟩ := List.map_eq_singleton_iff.mp hp'
    dsimp only at hm
    subst hm
    rw [List.append_assoc] at hold
    have hdirs' : ∀ x ∈ (k, e.inode) :: held, d.isDir x.2 = true := by
      intro x hx
      rcases List.mem_cons.mp hx with rfl | hx
      · exact hdir
      · exact hdirs x hx
    obtain ⟨hok, herror⟩ := @ihrest w ((k, e.inode) :: held) p (k :: stack) hrest
      (fun h => hn (Or.inr (Or.inr h))) (by rw [hstack, List.map_append, List.append_assoc]; rfl) hp hold hdirs'
      (fun x hx => by
        rcases List.mem_cons.mp hx with rfl | hx
        · exact fun h => hself (Or.inr h)
        · exact (hfresh' x hx).2.2)
      hnodupRest (Nat.succ_le_succ hlen)
    rw [costs_cons, Nat.add_comm (s₀.cost d.dev e.inode)] at hok herror
    rw [DirTree.DrainFits]
    by_cases hfits : rest.DrainFits (s₀.cost d.dev) s₀.free (s₀.costs d.dev held + s₀.cost d.dev e.inode)
    · obtain ⟨w₁, hpasses₁, hstack₁, hold₁, hcount₁⟩ := hok hfits
      have hk := hold₁.key_held (k, e.inode) List.mem_cons_self
      have hkroot : k ≠ root := by
        rintro rfl
        exact hn (Or.inl (hroot.2.symm.trans ((hold₁.key k hused).2.symm.trans hk.2)))
      obtain ⟨hok, herror⟩ := @visit_spec _ q root _ { w₁ with stack := stack } _ _ held _ _
        hdev (Or.inr ⟨hkroot, rfl⟩) hk.2 hlist hbelow hold₁ hdirs'
        (fun x hx hmem => by
          have hmem := below.tops_sublist.subset hmem
          rcases List.mem_cons.mp hx with rfl | hx
          · exact hself (Or.inl hmem)
          · exact (hfresh' x hx).2.1 hmem)
        (hnodupBelow.sublist below.tops_sublist) hlen
      rw [List.singleton_append, costs_cons, Nat.add_comm (s₀.cost d.dev e.inode)] at hok herror
      by_cases hscan : below.ScanFits (s₀.cost d.dev) s₀.free (s₀.costs d.dev held + s₀.cost d.dev e.inode)
      · obtain ⟨pushed, w₂, hvisit, hstack₂, hpushed₂, hold₂, hcount₂⟩ := hok hscan
        have hpass : Passes (pass d q root) w w₂ := hpasses₁.tail (pass_again hstack₁ hvisit)
        obtain ⟨hok, herror⟩ := ihbelow (w := w₂) hbelow (fun h => hn (Or.inr (Or.inl h))) hstack₂ hpushed₂ hold₂ hdirs
          (fun x hx => (hfresh' x hx).2.1) hnodupBelow hlen
        refine ⟨fun h => ?_, fun h => hpass.returns (herror fun h' => h ⟨hfits, hscan, h'⟩)⟩
        obtain ⟨w₃, hpasses₃, hstack₃, hold₃, hcount₃⟩ := hok h.2.2
        exact ⟨w₃, hpass.trans hpasses₃, hstack₃, hold₃, hcount₃.trans (hcount₂.trans hcount₁)⟩
      · have hleave := returns_leave (pass_leave hstack₁ (herror hscan))
        exact ⟨fun h => absurd h.2.1 hscan, fun _ => hpasses₁.returns hleave⟩
    · exact ⟨fun h => absurd h.1 hfits, fun _ => herror hfits⟩

/-- The walk comes through, or the inodes run out. -/
lemma walk_spec (hdev : d.dev ≠ 0) (hunique : w.inodes.Unique) (hroot : w.inodes.Is d.dev n root)
    (hused : w.inodes.iCount root ≠ 0) (hlist : d.entries n = t.list) (hon : t.On d) (hnodup : (n :: t.dirs).Nodup) :
    (t.Fits (w.inodes.cost d.dev) w.inodes.free 0 0 →
      ∃ w', Returns (pass d q root) { w with stack := [root] } (.ok w') ∧ w'.inodes.iCount = w.inodes.iCount ∧ w'.bCount = w.bCount) ∧
      (¬t.Fits (w.inodes.cost d.dev) w.inodes.free 0 0 →
        Returns (pass d q root) { w with stack := [root] } (.error .panic)) := by
  rw [List.nodup_cons] at hnodup
  obtain ⟨hok, herror⟩ := @visit_spec _ q root _ { w with stack := [] } w.inodes _ [] _ _
    hdev (Or.inl ⟨rfl, rfl⟩) hroot.2 hlist hon (Holding.start hunique) (fun _ hx => absurd hx List.not_mem_nil)
    (fun _ hx => absurd hx List.not_mem_nil) (hnodup.2.sublist t.tops_sublist) (le_refl _)
  rw [DirTree.fits_iff]
  by_cases hscan : t.ScanFits (w.inodes.cost d.dev) w.inodes.free 0
  · obtain ⟨pushed, w₁, hvisit, hstack, hpushed, hold, hcount⟩ := hok hscan
    have hpass : Passes (pass d q root) { w with stack := [root] } w₁ := .single (pass_again rfl hvisit)
    obtain ⟨hok, herror⟩ := @drain_spec _ q _ _ _ _ [] _ _ _ hdev hon hroot hused hnodup.1 hstack hpushed hold
      (fun _ hx => absurd hx List.not_mem_nil) (fun _ hx => absurd hx List.not_mem_nil) hnodup.2 (le_refl _)
    refine ⟨fun h => ?_, fun h => hpass.returns (herror fun h' => h ⟨hscan, h'⟩)⟩
    obtain ⟨w₂, hpasses, hstack₂, hold₂, hcount₂⟩ := hok h.2
    have hleave : pass d q root w₂ = .leave (.ok w₂) := by
      rw [pass, hstack₂]
    exact ⟨w₂, Passes.returns (hpass.trans hpasses) (returns_leave hleave), funext hold₂.count, hcount₂.trans hcount⟩
  · exact ⟨fun h => absurd h.1 hscan, fun _ => returns_leave (pass_leave rfl (herror hscan))⟩

end Traversal

end Devos.Security
