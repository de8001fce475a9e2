import Devos.Fs.ExecArgs

/-! The limit of the arguments: `copy_strings` tests it on an unsigned number, which is never below zero. -/

namespace Devos.Fs

open Loops Longs CString

/-- The pages that the strings need. -/
def pagesFor (l : List CString) : ℕ := (size l + (pageSize - 1)) / pageSize

/-- There is room for the strings, and there are free pages. -/
def RoomFor (free : ℕ) (l : List CString) : Prop := size l ≤ pageSize * maxArgPages ∧ pagesFor l ≤ free

/-- The first string for which there is no room, if any, is within the limit and lacks a free page, and it is an
argument, or there are none; the strings go from the last of `envp` to the first of `argv`. -/
def RunsOutWell (free : ℕ) (args envs : List CString) : Prop :=
  ∀ t r, t :: r <:+ args ++ envs → RoomFor free r →
    size (t :: r) ≤ pageSize * maxArgPages ∧ (pagesFor (t :: r) ≤ free ∨ envs.length ≤ r.length ∨ args = [])

/-- Both calls of `copy_strings` come back, with everything in its place or with `p` zero. -/
def ArgumentsCopied (u : UserData) (argv envp free : ℕ) (args envs : List CString) : Prop :=
  ∃ s p, copyArguments u argv envp free = .ok (s, p, args.length, envs.length) ∧
    (p = 0 ∨ s.Filled free p (args ++ envs))

section Rooms

variable {free : ℕ} {l r args envs : List CString} {t : CString}

lemma RoomFor.of_suffix (h : RoomFor free l) (hr : r <:+ l) : RoomFor free r := by
  obtain ⟨l', rfl⟩ := hr
  have hle : size r ≤ size (l' ++ r) := by simp
  exact ⟨hle.trans h.1, (Nat.div_le_div_right (Nat.add_le_add_right hle _)).trans h.2⟩

lemma runsOutWell_of_room (h : RoomFor free (args ++ envs)) : RunsOutWell free args envs := by
  intro t r hr _
  obtain ⟨hsize, hpages⟩ := h.of_suffix hr
  exact ⟨hsize, Or.inl hpages⟩

/-- There is one string at most that is the first without room. -/
lemma runsOutWell_iff (hr : t :: r <:+ args ++ envs) (hroom : RoomFor free r) (hnone : ¬RoomFor free (t :: r)) :
    RunsOutWell free args envs ↔
      size (t :: r) ≤ pageSize * maxArgPages ∧ (envs.length ≤ r.length ∨ args = []) := by
  constructor
  · intro h
    obtain ⟨hsize, hpages⟩ := h t r hr hroom
    exact ⟨hsize, hpages.resolve_left fun hle => hnone ⟨hsize, hle⟩⟩
  · rintro ⟨hsize, hwell⟩ t' r' hr' hroom'
    by_cases hall : RoomFor free (t' :: r')
    · exact ⟨hall.1, Or.inl hall.2⟩
    · rcases Nat.le_total (t :: r).length (t' :: r').length with hle | hle
      · rcases List.suffix_cons_iff.mp (List.suffix_of_suffix_length_le hr hr' hle) with heq | hsuffix
        · obtain ⟨rfl, rfl⟩ := List.cons.inj heq
          exact ⟨hsize, Or.inr hwell⟩
        · exact absurd (hroom'.of_suffix hsuffix) hnone
      · rcases List.suffix_cons_iff.mp (List.suffix_of_suffix_length_le hr' hr hle) with heq | hsuffix
        · obtain ⟨rfl, rfl⟩ := List.cons.inj heq
          exact ⟨hsize, Or.inr hwell⟩
        · exact absurd (hroom.of_suffix hsuffix) hall

end Rooms

namespace ArgPages

variable {s s' : ArgPages} {i n b p : ℕ}

/-- There are not enough free pages. -/
lemma take_fails (hn : i + n = maxArgPages) (hb : b ≤ maxArgPages)
    (hpages : ∀ j, i ≤ j → j < maxArgPages → ((s.page j).isSome ↔ b ≤ j)) (hfree : s.free < b - i) :
    ∃ s', s.take n i = (s', false) := by
  induction n generalizing s i with
  | zero => omega
  | succ n ih =>
    have hnone : ¬(s.page i).isSome := fun h => by
      have hle := (hpages i (le_refl _) (by omega)).mp h
      omega
    rw [take, if_neg hnone]
    split_ifs with hzero
    · exact ⟨s, rfl⟩
    · apply ih (by omega)
      · intro j hj hj'
        dsimp only
        rw [Function.update_of_ne (by omega)]
        exact hpages j (by omega) hj'
      · dsimp only
        omega

/-- From `p` down the loop comes to the byte below the first. -/
lemma copyLoop_outside {f : ℕ → Byte} (hn : p < n) :
    ∃ e, forLoopE (fun k => putByte (subU p (k + 1)) (f k)) s n = .error e := by
  obtain ⟨e, he⟩ : ∃ e, forLoopE (fun k => putByte (subU p (k + 1)) (f k)) s (p + 1) = .error e := by
    have hlast : subU p (p + 1) = 2 ^ 32 - 1 := by
      rw [subU]
      omega
    rw [forLoopE]
    cases forLoopE (fun k => putByte (subU p (k + 1)) (f k)) s p with
    | error e => exact ⟨e, rfl⟩
    | ok t =>
      rw [Except.bind, hlast, putByte, if_pos (by decide)]
      exact ⟨_, rfl⟩
  exact ⟨e, forLoopE_error_of_le he hn⟩

end ArgPages

namespace UserData

variable {u : UserData} {a argv envp free p tmp : ℕ} {l r args envs : List CString} {s : ArgPages} {t : CString}

lemma strlen_lt (h : u.string a = .ok t) : t.strlen < u.limit := by
  rw [string, read_eq_iff] at h
  omega

/-- A string that is longer than what is left. -/
lemma copyString_over (hlimit : u.limit ≤ execLimit) (hne : tmp ≠ 0) (ht : u.string tmp = .ok t) (hp : p ≤ t.strlen) :
    ∃ e, copyString u tmp s p = .error e := by
  have hlen := strlen_lt ht
  dsimp only [execLimit] at hlimit
  have hi : maxArgPages - subU p (t.strlen + 1) / pageSize = 0 := by
    dsimp only [maxArgPages, pageSize]
    rw [subU]
    omega
  obtain ⟨e, he⟩ := ArgPages.copyLoop_outside (s := s) (p := p) (n := t.strlen + 1)
    (f := fun k => u.byte (tmp + (t.strlen + 1 - 1 - k))) (by omega)
  refine ⟨e, ?_⟩
  rw [copyString, if_neg hne, ht, Except.bind]
  dsimp only
  rw [hi, ArgPages.take]
  dsimp only
  rw [he, Except.map]

/-- A string for which there are not enough pages. -/
lemma copyString_noPage (h : s.Filled free p r) (hne : tmp ≠ 0) (ht : u.string tmp = .ok t)
    (hsize : size (t :: r) ≤ pageSize * maxArgPages) (hfree : free < pagesFor (t :: r)) :
    ∃ s', copyString u tmp s p = .ok (s', none) := by
  obtain ⟨hplace, hpages, hfrees, _⟩ := h
  rw [pagesFor] at hfree
  rw [size_cons] at hsize hfree
  dsimp only [pageSize, maxArgPages] at hplace hpages hfrees hsize hfree
  have hsub : subU p (t.strlen + 1) = p - (t.strlen + 1) := ArgPages.subU_of_le (by omega) (by omega)
  obtain ⟨s', htake⟩ := ArgPages.take_fails (s := s) (i := (p - (t.strlen + 1)) / pageSize)
    (n := maxArgPages - (p - (t.strlen + 1)) / pageSize) (b := p / pageSize)
    (by dsimp only [pageSize, maxArgPages]; omega) (by dsimp only [pageSize, maxArgPages]; omega)
    (fun j _ hj => hpages j hj) (by dsimp only [pageSize]; omega)
  refine ⟨s', ?_⟩
  rw [copyString, if_neg hne, ht, Except.bind]
  dsimp only
  rw [hsub, htake]

/-- What becomes of strings that do not all have room: the first of them that has none is refused, if there is still
room below the limit. -/
lemma copyStrings_short (hlimit : u.limit ≤ execLimit) (h : s.Filled free p r) (hroom : RoomFor free r)
    (hl : ∀ i (h : i < l.length), longAt u.byte (argv + 4 * i) ≠ 0 ∧ u.string (longAt u.byte (argv + 4 * i)) = .ok l[i])
    (hnone : ¬RoomFor free (l ++ r)) :
    ∃ t l', t :: l' <:+ l ∧ RoomFor free (l' ++ r) ∧ ¬RoomFor free (t :: (l' ++ r)) ∧
      (pageSize * maxArgPages < size (t :: (l' ++ r)) ∧ (∃ e, copyStrings u argv l.length s p = .error e) ∨
        size (t :: (l' ++ r)) ≤ pageSize * maxArgPages ∧ ∃ s', copyStrings u argv l.length s p = .ok (s', 0)) := by
  induction l using List.reverseRecOn generalizing s p r with
  | nil => exact absurd hroom hnone
  | append_singleton l t ih =>
    obtain ⟨hne, ht⟩ := hl l.length (by simp)
    rw [List.getElem_append_right (le_refl _), List.getElem_singleton] at ht
    rw [List.append_assoc, List.singleton_append] at hnone
    by_cases hfirst : RoomFor free (t :: r)
    · obtain ⟨s₁, hstring, hfilled⟩ := copyString_spec h hne ht hfirst.1 hfirst.2
      obtain ⟨t', l', hsuffix, hroom', hnone', hrun⟩ := ih hfilled hfirst
        (fun i hi => by
          have hi' := hl i (by rw [List.length_append]; omega)
          rw [List.getElem_append_left hi] at hi'
          exact hi') hnone
      have hstart : copyStrings u argv (l ++ [t]).length s p =
          copyStrings u argv l.length s₁ (p - (t.strlen + 1)) := by
        rw [List.length_append, List.length_singleton, copyStrings, hstring]
        rfl
      rw [hstart]
      refine ⟨t', l' ++ [t], ?_, ?_, ?_, ?_⟩
      · obtain ⟨l'', rfl⟩ := hsuffix
        exact ⟨l'', by simp⟩
      · rwa [List.append_assoc]
      · rwa [List.append_assoc]
      · rwa [List.append_assoc]
    · refine ⟨t, [], List.suffix_append _ _, hroom, hfirst, ?_⟩
      rw [List.nil_append, List.length_append, List.length_singleton, copyStrings]
      by_cases hsize : size (t :: r) ≤ pageSize * maxArgPages
      · have hfree : free < pagesFor (t :: r) := not_le.mp fun hle => hfirst ⟨hsize, hle⟩
        obtain ⟨s', hs'⟩ := copyString_noPage h hne ht hsize hfree
        exact Or.inr ⟨hsize, s', by rw [hs']; rfl⟩
      · have hplace := h.place
        rw [size_cons] at hsize
        obtain ⟨e, he⟩ := copyString_over (s := s) (p := p) hlimit hne ht (by omega)
        exact Or.inl ⟨by rw [size_cons]; omega, e, by rw [he]; rfl⟩

/-- After a call that has failed, the other one does not come back, unless it has nothing to do. -/
lemma copyStrings_zero (hlimit : u.limit ≤ execLimit)
    (hl : ∀ i (h : i < l.length), longAt u.byte (argv + 4 * i) ≠ 0 ∧ u.string (longAt u.byte (argv + 4 * i)) = .ok l[i])
    (hne : l ≠ []) : ∃ e, copyStrings u argv l.length s 0 = .error e := by
  obtain ⟨n, hn⟩ := Nat.exists_eq_succ_of_ne_zero (mt List.length_eq_zero_iff.mp hne)
  obtain ⟨htmp, ht⟩ := hl n (by omega)
  obtain ⟨e, he⟩ := copyString_over (s := s) hlimit htmp ht (Nat.zero_le _)
  exact ⟨e, by rw [hn, copyStrings, he]; rfl⟩

/-- `copy_strings` lays the strings out or refuses them just if the first that has no room is within the limit and no
string is copied after it has been refused. -/
theorem argumentsCopied_iff (hlimit : u.limit ≤ execLimit) (hargv : u.Vector argv args) (henvp : u.Vector envp envs) :
    ArgumentsCopied u argv envp free args envs ↔ RunsOutWell free args envs := by
  have hrun : copyArguments u argv envp free =
      (copyStrings u envp envs.length ⟨fun _ => none, free⟩ (pageSize * maxArgPages)).bind fun r =>
        (copyStrings u argv args.length r.1 r.2).map fun r => (r.1, r.2, args.length, envs.length) := by
    rw [copyArguments, count_eq hargv, count_eq henvp]
    rfl
  have hempty : RoomFor free [] := ⟨Nat.zero_le _, by rw [pagesFor, size_nil]; exact Nat.zero_le _⟩
  have hfails : (∀ r, copyArguments u argv envp free ≠ .ok r) → ¬ArgumentsCopied u argv envp free args envs := by
    rintro h ⟨s, p, hok, _⟩
    exact h _ hok
  unfold ArgumentsCopied
  by_cases henvs : RoomFor free envs
  · obtain ⟨s₁, hrun₁, hfilled₁⟩ := copyStrings_spec (filled_start free) henvp.pointer
      (by rw [List.append_nil]; exact henvs.1) (by rw [List.append_nil]; exact henvs.2)
    rw [List.append_nil] at hfilled₁
    by_cases hargs : RoomFor free (args ++ envs)
    · obtain ⟨s₂, hrun₂, hfilled₂⟩ := copyStrings_spec hfilled₁ hargv.pointer hargs.1 hargs.2
      refine iff_of_true ⟨s₂, _, ?_, Or.inr hfilled₂⟩ (runsOutWell_of_room hargs)
      rw [hrun, hrun₁, Except.bind]
      dsimp only
      rw [hrun₂, Except.map]
    · obtain ⟨t, l, hsuffix, hroom, hnone, hcase⟩ := copyStrings_short hlimit hfilled₁ henvs hargv.pointer hargs
      have hsuffix' : t :: (l ++ envs) <:+ args ++ envs := by
        obtain ⟨l', rfl⟩ := hsuffix
        exact ⟨l', by simp⟩
      have hwell : envs.length ≤ (l ++ envs).length := by simp
      rw [runsOutWell_iff hsuffix' hroom hnone]
      rcases hcase with ⟨hsize, e, he⟩ | ⟨hsize, s₂, hrun₂⟩
      · refine iff_of_false (hfails fun r hr => ?_) fun h => absurd h.1 (not_le.mpr hsize)
        rw [hrun, hrun₁, Except.bind] at hr
        dsimp only at hr
        rw [he] at hr
        cases hr
      · refine iff_of_true ⟨s₂, 0, ?_, Or.inl rfl⟩ ⟨hsize, Or.inl hwell⟩
        rw [hrun, hrun₁, Except.bind]
        dsimp only
        rw [hrun₂, Except.map]
  · obtain ⟨t, l, hsuffix, hroom, hnone, hcase⟩ := copyStrings_short hlimit (filled_start free) hempty henvp.pointer
      (by rwa [List.append_nil])
    rw [List.append_nil] at hroom hnone hcase
    have hshorter := hsuffix.length_le
    rw [List.length_cons] at hshorter
    rw [runsOutWell_iff (hsuffix.trans (List.suffix_append _ _)) hroom hnone]
    rcases hcase with ⟨hsize, e, he⟩ | ⟨hsize, s₁, hrun₁⟩
    · refine iff_of_false (hfails fun r hr => ?_) fun h => absurd h.1 (not_le.mpr hsize)
      rw [hrun, he] at hr
      cases hr
    · by_cases hargs : args = []
      · subst hargs
        refine iff_of_true ⟨s₁, 0, ?_, Or.inl rfl⟩ ⟨hsize, Or.inr rfl⟩
        rw [hrun, hrun₁]
        rfl
      · obtain ⟨e, he⟩ := copyStrings_zero (s := s₁) hlimit hargv.pointer hargs
        refine iff_of_false (hfails fun r hr => ?_) fun h => h.2.elim (fun hle => by omega) hargs
        rw [hrun, hrun₁, Except.bind] at hr
        dsimp only at hr
        rw [he] at hr
        cases hr

end UserData

/-- Pointers to one string of one letter, for `argv` and for `envp`. -/
def oneEach : UserData := ⟨64, fun x => if x = 8 ∨ x = 16 then 24 else if x = 24 then 97 else 0⟩

lemma oneEach_vector {a : ℕ} (ha : a = 8 ∨ a = 16) : oneEach.Vector a [⟨[97], by decide⟩] := by
  rcases ha with rfl | rfl
  · rw [UserData.Vector, if_neg (by decide)]
    refine ⟨fun i hi => ?_, by decide, by decide⟩
    obtain rfl := Nat.lt_one_iff.mp hi
    exact ⟨by decide, rfl⟩
  · rw [UserData.Vector, if_neg (by decide)]
    refine ⟨fun i hi => ?_, by decide, by decide⟩
    obtain rfl := Nat.lt_one_iff.mp hi
    exact ⟨by decide, rfl⟩

theorem argumentsCopied_oneEach : ArgumentsCopied oneEach 8 16 1 [⟨[97], by decide⟩] [⟨[97], by decide⟩] :=
  (UserData.argumentsCopied_iff (by decide) (oneEach_vector (Or.inl rfl)) (oneEach_vector (Or.inr rfl))).mpr
    (runsOutWell_of_room ⟨by decide, by decide⟩)

/-- When no page is free, the string of `envp` is refused, and that of `argv` goes where there is no page. -/
theorem strings_after_refusal : ¬∀ (u : UserData) (argv envp free : ℕ) (args envs : List CString),
    u.limit ≤ execLimit → u.Vector argv args → u.Vector envp envs → ArgumentsCopied u argv envp free args envs := by
  intro hall
  obtain ⟨s, p, hrun, _⟩ := hall oneEach 8 16 0 _ _ (by decide) (oneEach_vector (Or.inl rfl)) (oneEach_vector (Or.inr rfl))
  have herror : copyArguments oneEach 8 16 0 = .error .overrun := rfl
  rw [herror] at hrun
  cases hrun

end Devos.Fs
