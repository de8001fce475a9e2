import Devos.Strings
import Devos.Library.Longs

/-! `fs/exec.c`, the arguments of a new program: they go to pages of their own from the last byte down, the pages go
to the top of the data of the program, and a table of pointers goes below the strings. -/

namespace Devos.Fs

open Loops Longs CString

abbrev pageSize : ℕ := 4096

abbrev maxArgPages : ℕ := 32

/-- The limit of the data of a new program. -/
abbrev execLimit : ℕ := 0x4000000

/-- Where the pages for the arguments begin in the data of a new program. -/
abbrev argBase : ℕ := execLimit - pageSize * maxArgPages

/-- `a - b` of unsigned words. -/
def subU (a b : ℕ) : ℕ := (a + 2 ^ 32 - b) % 2 ^ 32

/-- The data of a process, as the accesses through `%fs` have it. -/
structure UserData where
  limit : ℕ
  byte : ℕ → Byte

namespace UserData

/-- The string at `a`. A read from the limit on does not come back. -/
def string (u : UserData) (a : ℕ) : Except Fault CString := read u.byte a (u.limit - a)

/-- The loop of `count`, with at most `n` words up to the limit. -/
def countFrom (u : UserData) : ℕ → ℕ → Except Fault ℕ
  | _, 0 => .error .overrun
  | a, n + 1 => if longAt u.byte a = 0 then .ok 0 else (u.countFrom (a + 4) n).map (· + 1)

def count (u : UserData) (argv : ℕ) : Except Fault ℕ :=
  if argv = 0 then .ok 0 else u.countFrom argv ((u.limit - argv) / 4)

end UserData

/-- The pages for the arguments, and how many pages are free. -/
structure ArgPages where
  page : ℕ → Option (ℕ → Byte)
  free : ℕ

namespace ArgPages

/-- Pages from `i` on, up to one that is there already or to the last of `n`; `false` when no page is free. -/
def take : ℕ → ℕ → ArgPages → ArgPages × Bool
  | 0, _, s => (s, true)
  | n + 1, i, s =>
    if (s.page i).isSome then (s, true)
    else if s.free = 0 then (s, false)
    else take n (i + 1) ⟨Function.update s.page i (some fun _ => 0), s.free - 1⟩

/-- A turn of the loop that copies a string. -/
def putByte (p : ℕ) (c : Byte) (s : ArgPages) : Except Fault ArgPages :=
  if maxArgPages ≤ p / pageSize then .error .overrun
  else
    match s.page (p / pageSize) with
    | none => .error .panic
    | some b => .ok { s with page := Function.update s.page (p / pageSize) (some (Function.update b (p % pageSize) c)) }

end ArgPages

/-- A turn of the loop of `copy_strings`, for the string at `tmp`; no place for the next without a page. The test for
`p-len < 0` is left out, since no unsigned number is. -/
def copyString (u : UserData) (tmp : ℕ) (s : ArgPages) (p : ℕ) : Except Fault (ArgPages × Option ℕ) :=
  if tmp = 0 then .error .panic
  else (u.string tmp).bind fun t =>
    let len := t.strlen + 1
    let i := subU p len / pageSize
    match s.take (maxArgPages - i) i with
    | (s, false) => .ok (s, none)
    | (s, true) =>
      (forLoopE (fun k => ArgPages.putByte (subU p (k + 1)) (u.byte (tmp + (len - 1 - k)))) s len).map (·, subU p len)

def copyStrings (u : UserData) (argv : ℕ) : ℕ → ArgPages → ℕ → Except Fault (ArgPages × ℕ)
  | 0, s, p => .ok (s, p)
  | argc + 1, s, p =>
    (copyString u (longAt u.byte (argv + 4 * argc)) s p).bind fun (s, p) =>
      p.elim (.ok (s, 0)) (copyStrings u argv argc s)

/-- What `do_execve` does up to the test of `p`: the pages, `p`, `argc` and `envc`. -/
def copyArguments (u : UserData) (argv envp free : ℕ) : Except Fault (ArgPages × ℕ × ℕ × ℕ) :=
  (u.count argv).bind fun argc => (u.count envp).bind fun envc =>
    (copyStrings u envp envc ⟨fun _ => none, free⟩ (pageSize * maxArgPages)).bind fun (s, p) =>
      (copyStrings u argv argc s p).map fun (s, p) => (s, p, argc, envc)

/-- What `put_page` does to the memory that the process sees. -/
def mapPage (b : Option (ℕ → Byte)) (a : ℕ) (m : ℕ → Byte) : ℕ → Byte :=
  b.elim m fun b x => if a ≤ x ∧ x < a + pageSize then b (x - a) else m x

/-- `change_ldt`; `image` is what is in memory of the program. -/
def changeLdt (page : ℕ → Option (ℕ → Byte)) (image : ℕ → Byte) : UserData where
  limit := execLimit
  byte := forLoop 0 maxArgPages
    (fun k => mapPage (page (maxArgPages - 1 - k)) (execLimit - pageSize * (k + 1))) image

namespace UserData

/-- Pointers to `n` strings from `p` on, put from `a` on, and a zero word after them; and where the strings end. -/
def putTable : ℕ → ℕ → ℕ → UserData → Except Fault (UserData × ℕ)
  | 0, p, a, u => .ok ({ u with byte := setLongAt u.byte a 0 }, p)
  | n + 1, p, a, u =>
    let u := { u with byte := setLongAt u.byte a p }
    (u.string p).bind fun t => putTable n (p + t.strlen + 1) (a + 4) u

/-- `create_tables`, and the stack pointer. -/
def createTables (p argc envc : ℕ) (u : UserData) : Except Fault (UserData × ℕ) :=
  let envp := subU (p / 4 * 4) (4 * (envc + 1))
  let argv := subU envp (4 * (argc + 1))
  let sp := subU argv 4
  (putTable argc p argv { u with byte := setLongAt u.byte sp argc }).bind fun (u, p) =>
    (putTable envc p envp u).map fun (u, _) => (u, sp)

end UserData

/-- The place of the strings in the program, its tables and its stack pointer. -/
def newStack (page : ℕ → Option (ℕ → Byte)) (p argc envc : ℕ) (image : ℕ → Byte) : Except Fault (UserData × ℕ) :=
  let u := changeLdt page image
  u.createTables (p + (u.limit - pageSize * maxArgPages)) argc envc

section Packing

variable {m m' : ℕ → Byte} {s : CString} {l r : List CString} {a a' : ℕ}

/-- The bytes of strings with their zeros. -/
def size (l : List CString) : ℕ := (l.map fun s => s.strlen + 1).sum

@[simp] lemma size_nil : size [] = 0 := rfl

@[simp] lemma size_cons : size (s :: l) = s.strlen + 1 + size l := by simp [size]

@[simp] lemma size_append : size (l ++ r) = size l + size r := by simp [size]

/-- The strings one after the other from `a` on. -/
def Packed (m : ℕ → Byte) : ℕ → List CString → Prop
  | _, [] => True
  | a, s :: l => Holds m a s ∧ Packed m (a + s.strlen + 1) l

lemma Packed.congr (h : Packed m a l) (heq : ∀ j < size l, m' (a' + j) = m (a + j)) : Packed m' a' l := by
  induction l generalizing a a' with
  | nil => trivial
  | cons s l ih =>
    rw [size_cons] at heq
    refine ⟨h.1.congr fun j hj => heq j (by omega), ih h.2 fun j hj => ?_⟩
    have hj := heq (s.strlen + 1 + j) (by omega)
    simpa only [Nat.add_assoc] using hj

lemma Packed.right (h : Packed m a (l ++ r)) : Packed m (a + size l) r := by
  induction l generalizing a with
  | nil => exact h
  | cons s l ih =>
    have hrest := ih h.2
    rwa [size_cons, ← Nat.add_assoc, ← Nat.add_assoc]

end Packing

namespace ArgPages

variable {s : ArgPages} {i n b p q x : ℕ} {c : Byte}

/-- The byte `x` of the pages. -/
def byte (s : ArgPages) (x : ℕ) : Byte := (s.page (x / pageSize)).elim 0 fun b => b (x % pageSize)

/-- A loop that begins below the pages that are there takes those up to them. -/
lemma take_spec (hn : i + n = maxArgPages) (hle : i ≤ b) (hb : b ≤ maxArgPages)
    (hpages : ∀ j, i ≤ j → j < maxArgPages → ((s.page j).isSome ↔ b ≤ j)) (hfree : b - i ≤ s.free) :
    ∃ s', s.take n i = (s', true) ∧ s'.free + (b - i) = s.free ∧
      (∀ j, (s'.page j).isSome ↔ (s.page j).isSome ∨ i ≤ j ∧ j < b) ∧
        ∀ j, (s.page j).isSome → s'.page j = s.page j := by
  induction n generalizing s i with
  | zero =>
    have hend : b = i := by omega
    subst hend
    exact ⟨s, rfl, by omega, fun j => (or_iff_left (by omega)).symm, fun _ _ => rfl⟩
  | succ n ih =>
    rw [take]
    by_cases hi : b = i
    · subst hi
      rw [if_pos ((hpages b (le_refl _) (by omega)).mpr (le_refl _))]
      exact ⟨s, rfl, by omega, fun j => (or_iff_left (by omega)).symm, fun _ _ => rfl⟩
    · have hnone : ¬(s.page i).isSome := fun h => hi (le_antisymm ((hpages i (le_refl _) (by omega)).mp h) hle)
      rw [if_neg hnone, if_neg (by omega)]
      obtain ⟨s', hrun, hfree', hsome, hsame⟩ := ih (s := ⟨Function.update s.page i (some fun _ => 0), s.free - 1⟩)
        (i := i + 1) (by omega) (by omega)
        (fun j hj hj' => by
          dsimp only
          rw [Function.update_of_ne (by omega)]
          exact hpages j (by omega) hj')
        (by dsimp only; omega)
      dsimp only at hfree' hsome hsame
      refine ⟨s', hrun, by omega, fun j => ?_, fun j hj => ?_⟩
      · rw [hsome]
        by_cases hj : j = i
        · subst hj
          rw [Function.update_self]
          exact iff_of_true (Or.inl rfl) (Or.inr ⟨le_refl _, by omega⟩)
        · rw [Function.update_of_ne hj]
          exact or_congr_right (by omega)
      · have hj' : j ≠ i := fun h => hnone (h ▸ hj)
        have hj'' := hsame j
        rw [Function.update_of_ne hj'] at hj''
        exact hj'' hj

/-- A byte goes to a page that is there. -/
lemma putByte_spec (hp : p < pageSize * maxArgPages) (hpage : (s.page (p / pageSize)).isSome) :
    ∃ s', s.putByte p c = .ok s' ∧ s'.free = s.free ∧ (∀ j, (s'.page j).isSome = (s.page j).isSome) ∧
      ∀ x, s'.byte x = if x = p then c else s.byte x := by
  obtain ⟨b, hb⟩ := Option.isSome_iff_exists.mp hpage
  refine ⟨{ s with page := Function.update s.page (p / pageSize) (some (Function.update b (p % pageSize) c)) },
    ?_, rfl, fun j => ?_, fun x => ?_⟩
  · rw [putByte, if_neg (by dsimp only [pageSize, maxArgPages] at hp ⊢; omega), hb]
  · dsimp only
    by_cases hj : j = p / pageSize
    · subst hj
      rw [Function.update_self, hb]
      rfl
    · rw [Function.update_of_ne hj]
  · by_cases hx : x / pageSize = p / pageSize
    · rw [byte, byte, hx]
      dsimp only
      rw [Function.update_self, hb, Option.elim_some, Option.elim_some, Function.update_apply]
      have hiff : x % pageSize = p % pageSize ↔ x = p := by
        dsimp only [pageSize] at hx ⊢
        omega
      simp only [hiff]
    · have hne : x ≠ p := fun h => hx (congrArg (· / pageSize) h)
      rw [byte, if_neg hne]
      dsimp only
      rw [Function.update_of_ne hx]
      rfl

lemma subU_of_le {a b : ℕ} (h : b ≤ a) (ha : a < 2 ^ 32) : subU a b = a - b := by
  rw [subU]
  omega

/-- The loop that copies `n` bytes to the place below `p`, from the last byte down. -/
lemma copyLoop_spec {f : ℕ → Byte} (hn : n ≤ p) (hp : p ≤ pageSize * maxArgPages)
    (hpages : ∀ x, p - n ≤ x → x < p → (s.page (x / pageSize)).isSome) :
    ∃ s', forLoopE (fun k => putByte (subU p (k + 1)) (f (n - 1 - k))) s n = .ok s' ∧ s'.free = s.free ∧
      (∀ j, (s'.page j).isSome = (s.page j).isSome) ∧
        ∀ x, s'.byte x = if p - n ≤ x ∧ x < p then f (x - (p - n)) else s.byte x := by
  apply forLoopE_induction (P := fun k (t : ArgPages) => t.free = s.free ∧
    (∀ j, (t.page j).isSome = (s.page j).isSome) ∧ ∀ x, t.byte x = if p - k ≤ x ∧ x < p then f (x - (p - n)) else s.byte x)
  · exact ⟨rfl, fun _ => rfl, fun x => (if_neg (by omega)).symm⟩
  · rintro k t hk ⟨hfree, hsome, hbyte⟩
    dsimp only [pageSize, maxArgPages] at hp
    have hsub : subU p (k + 1) = p - (k + 1) := subU_of_le (by omega) (by omega)
    obtain ⟨t', ht', hfree', hsome', hbyte'⟩ := putByte_spec (s := t) (p := subU p (k + 1)) (c := f (n - 1 - k))
      (by rw [hsub]; dsimp only [pageSize, maxArgPages]; omega)
      (by rw [hsub, hsome]; exact hpages _ (by omega) (by omega))
    refine ⟨t', ht', hfree'.trans hfree, fun j => (hsome' j).trans (hsome j), fun x => ?_⟩
    rw [hbyte', hbyte, hsub]
    by_cases hx : x = p - (k + 1)
    · have hplace : n - 1 - k = x - (p - n) := by omega
      rw [if_pos hx, if_pos (by omega), hplace]
    · rw [if_neg hx]
      exact if_congr (by omega) rfl rfl

/-- The pages when the strings `l` have been copied, of `free` pages that there were. -/
structure Filled (s : ArgPages) (free p : ℕ) (l : List CString) : Prop where
  place : p + size l = pageSize * maxArgPages
  pages : ∀ j < maxArgPages, (s.page j).isSome ↔ p / pageSize ≤ j
  free : s.free + (maxArgPages - p / pageSize) = free
  packed : Packed s.byte p l

end ArgPages

namespace UserData

variable {u : UserData} {a argv envp free p : ℕ} {l r args envs : List CString} {s : ArgPages} {t : CString}

/-- Pointers to the strings `l` from `a` on, and a zero word after them. -/
structure Strings (u : UserData) (a : ℕ) (l : List CString) : Prop where
  pointer : ∀ i (h : i < l.length), longAt u.byte (a + 4 * i) ≠ 0 ∧ u.string (longAt u.byte (a + 4 * i)) = .ok l[i]
  null : longAt u.byte (a + 4 * l.length) = 0
  inside : a + 4 * (l.length + 1) ≤ u.limit

/-- What `argv` and `envp` can be: nothing, or an array of strings. -/
def Vector (u : UserData) (a : ℕ) (l : List CString) : Prop := if a = 0 then l = [] else u.Strings a l

lemma countFrom_eq {k n : ℕ} (hn : k < n) (hne : ∀ i < k, longAt u.byte (a + 4 * i) ≠ 0)
    (hnull : longAt u.byte (a + 4 * k) = 0) : u.countFrom a n = .ok k := by
  induction k generalizing a n with
  | zero =>
    obtain ⟨n, rfl⟩ := Nat.exists_eq_succ_of_ne_zero (Nat.ne_of_gt hn)
    exact if_pos hnull
  | succ k ih =>
    obtain ⟨n, rfl⟩ := Nat.exists_eq_succ_of_ne_zero (Nat.ne_of_gt (Nat.zero_lt_of_lt hn))
    have hplace : ∀ i, a + 4 + 4 * i = a + 4 * (i + 1) := fun i => by omega
    have hrest := ih (a := a + 4) (n := n) (by omega)
      (fun i hi => by rw [hplace]; exact hne (i + 1) (by omega)) (by rw [hplace]; exact hnull)
    have hfirst : ¬longAt u.byte a = 0 := hne 0 (Nat.succ_pos k)
    rw [countFrom, if_neg hfirst, hrest]
    rfl

lemma count_eq (h : u.Vector a l) : u.count a = .ok l.length := by
  unfold Vector at h
  rw [count]
  split_ifs at h ⊢
  · rw [h]
    rfl
  · have hin := h.inside
    exact countFrom_eq (by omega) (fun i hi => (h.pointer i hi).1) h.null

lemma holds_of_string (h : u.string a = .ok t) : Holds u.byte a t := (read_eq_iff.mp h).2

/-- A string goes below those that are there. -/
lemma copyString_spec {tmp : ℕ} (h : s.Filled free p r) (hne : tmp ≠ 0) (ht : u.string tmp = .ok t)
    (hsize : size (t :: r) ≤ pageSize * maxArgPages) (hfree : (size (t :: r) + (pageSize - 1)) / pageSize ≤ free) :
    ∃ s', copyString u tmp s p = .ok (s', some (p - (t.strlen + 1))) ∧
      s'.Filled free (p - (t.strlen + 1)) (t :: r) := by
  obtain ⟨hplace, hpages, hfrees, hpacked⟩ := h
  rw [size_cons] at hsize hfree
  dsimp only [pageSize, maxArgPages] at hplace hpages hfrees hsize hfree
  have hsub : subU p (t.strlen + 1) = p - (t.strlen + 1) := ArgPages.subU_of_le (by omega) (by omega)
  obtain ⟨s₁, htake, hfree₁, hsome₁, hsame₁⟩ := ArgPages.take_spec (s := s) (i := (p - (t.strlen + 1)) / pageSize)
    (n := maxArgPages - (p - (t.strlen + 1)) / pageSize) (b := p / pageSize)
    (by dsimp only [pageSize, maxArgPages]; omega) (by dsimp only [pageSize]; omega)
    (by dsimp only [pageSize, maxArgPages]; omega) (fun j _ hj => hpages j hj) (by dsimp only [pageSize]; omega)
  have hthere : ∀ x, p - (t.strlen + 1) ≤ x → x < 131072 → (s₁.page (x / pageSize)).isSome := by
    intro x hlo hhi
    rw [hsome₁, hpages _ (by dsimp only [pageSize]; omega)]
    dsimp only [pageSize]
    omega
  obtain ⟨s₂, hloop, hfree₂, hsome₂, hbyte₂⟩ := ArgPages.copyLoop_spec (s := s₁) (p := p) (n := t.strlen + 1)
    (f := fun k => u.byte (tmp + k)) (by omega)
    (by dsimp only [pageSize, maxArgPages]; omega) (fun x hlo hhi => hthere x hlo (by omega))
  refine ⟨s₂, ?_, ?_, fun j hj => ?_, ?_, fun j hj => ?_, hpacked.congr fun j hj => ?_⟩
  · rw [copyString, if_neg hne, ht, Except.bind]
    dsimp only
    rw [hsub, htake]
    dsimp only
    rw [hloop, Except.map]
  · rw [size_cons]
    dsimp only [pageSize, maxArgPages]
    omega
  · rw [hsome₂, hsome₁, hpages j hj]
    dsimp only [pageSize]
    omega
  · dsimp only [pageSize, maxArgPages] at hfree₁ ⊢
    omega
  · rw [hbyte₂, if_pos (by omega), Nat.add_sub_cancel_left]
    exact holds_of_string ht j hj
  · have hcell : p - (t.strlen + 1) + t.strlen + 1 + j = p + j := by omega
    rw [hcell, hbyte₂, if_neg (by omega), ArgPages.byte, ArgPages.byte, hsame₁]
    rw [hpages _ (by dsimp only [pageSize]; omega)]
    dsimp only [pageSize]
    omega

/-- The strings go below those that are there, in their order. -/
lemma copyStrings_spec (h : s.Filled free p r)
    (hl : ∀ i (h : i < l.length), longAt u.byte (argv + 4 * i) ≠ 0 ∧ u.string (longAt u.byte (argv + 4 * i)) = .ok l[i])
    (hsize : size (l ++ r) ≤ pageSize * maxArgPages) (hfree : (size (l ++ r) + (pageSize - 1)) / pageSize ≤ free) :
    ∃ s', copyStrings u argv l.length s p = .ok (s', p - size l) ∧ s'.Filled free (p - size l) (l ++ r) := by
  induction l using List.reverseRecOn generalizing s p r with
  | nil => exact ⟨s, rfl, h⟩
  | append_singleton l t ih =>
    obtain ⟨hne, ht⟩ := hl l.length (by simp)
    rw [List.getElem_append_right (le_refl _), List.getElem_singleton] at ht
    rw [List.append_assoc, List.singleton_append] at hsize hfree ⊢
    have hpart : size (t :: r) ≤ size (l ++ t :: r) := by simp
    obtain ⟨s₁, hstring, hfilled⟩ := copyString_spec h hne ht (hpart.trans hsize)
      ((Nat.div_le_div_right (Nat.add_le_add_right hpart _)).trans hfree)
    obtain ⟨s₂, hrun, hfilled₂⟩ := ih hfilled
      (fun i hi => by
        have hi' := hl i (by rw [List.length_append]; omega)
        rw [List.getElem_append_left hi] at hi'
        exact hi') hsize hfree
    have hend : p - size (l ++ [t]) = p - (t.strlen + 1) - size l := by
      rw [size_append, size_cons, size_nil]
      omega
    rw [hend]
    refine ⟨s₂, ?_, hfilled₂⟩
    rw [List.length_append, List.length_singleton, copyStrings, hstring]
    exact hrun

section

variable {m : ℕ → Byte} {x : ℕ}

lemma mapPage_of_mem {b : ℕ → Byte} (hlo : a ≤ x) (hhi : x < a + 4096) : mapPage (some b) a m x = b (x - a) :=
  if_pos ⟨hlo, hhi⟩

lemma mapPage_of_not {b : Option (ℕ → Byte)} (h : ¬(a ≤ x ∧ x < a + 4096)) : mapPage b a m x = m x := by
  cases b with
  | none => rfl
  | some b => exact if_neg h

end

/-- The pages are at the top of the data of the program. -/
lemma changeLdt_byte {x : ℕ} (image : ℕ → Byte) (hpages : ∀ j < maxArgPages, (s.page j).isSome ↔ p / pageSize ≤ j)
    (hlo : p ≤ x) (hhi : x < pageSize * maxArgPages) : (changeLdt s.page image).byte (argBase + x) = s.byte x := by
  have hloop := @forLoop_induction _ 0 maxArgPages
    (fun k => mapPage (s.page (maxArgPages - 1 - k)) (execLimit - pageSize * (k + 1))) image
    (fun k m => ∀ x, p ≤ x → x < pageSize * maxArgPages → pageSize * maxArgPages ≤ x + pageSize * k →
      m (argBase + x) = s.byte x)
    (Nat.zero_le _) (fun x _ hhi hend => absurd hhi (not_lt.mpr hend)) (fun k m _ hk ih x hlo hhi hend => by
      dsimp only [pageSize, maxArgPages, argBase, execLimit] at *
      by_cases hx : x / 4096 = 32 - 1 - k
      · obtain ⟨b, hb⟩ := Option.isSome_iff_exists.mp ((hpages (32 - 1 - k) (by omega)).mpr (by omega))
        have hcell : 67108864 - 4096 * 32 + x - (67108864 - 4096 * (k + 1)) = x % 4096 := by omega
        rw [hb, mapPage_of_mem (by omega) (by omega), hcell, ArgPages.byte, hx, hb, Option.elim_some]
      · rw [mapPage_of_not (by omega)]
        exact ih x hlo hhi (by omega))
  exact hloop x hlo hhi (by omega)

lemma length_le_size (l : List CString) : l.length ≤ size l := by
  induction l with
  | nil => exact le_refl _
  | cons s l ih =>
    rw [List.length_cons, size_cons]
    omega

/-- A table and its strings are the same when the bytes of both are. -/
lemma Strings.congr {u' : UserData} {q : ℕ} (h : u.Strings a l) (hlimit : u'.limit = u.limit)
    (hbyte : ∀ x, a ≤ x ∧ x < a + 4 * (l.length + 1) ∨ q ≤ x → u'.byte x = u.byte x)
    (hq : ∀ i < l.length, q ≤ longAt u.byte (a + 4 * i)) :
    u'.Strings a l ∧ ∀ i < l.length, q ≤ longAt u'.byte (a + 4 * i) := by
  have hword : ∀ i ≤ l.length, longAt u'.byte (a + 4 * i) = longAt u.byte (a + 4 * i) :=
    fun i hi => longAt_congr fun j hj => hbyte _ (Or.inl (by omega))
  refine ⟨⟨fun i hi => ?_, (hword _ (le_refl _)).trans h.null, hlimit ▸ h.inside⟩, fun i hi => ?_⟩
  · obtain ⟨hne, ht⟩ := h.pointer i hi
    have hqi := hq i hi
    rw [hword i hi.le]
    refine ⟨hne, ?_⟩
    rw [string, read_eq_iff] at ht ⊢
    rw [hlimit]
    exact ⟨ht.1, ht.2.congr fun j _ => hbyte _ (Or.inr (by omega))⟩
  · rw [hword i hi.le]
    exact hq i hi

/-- A table of the strings at `p`, below them. -/
lemma putTable_spec (h : Packed u.byte p (l ++ r)) (hend : p + size (l ++ r) ≤ u.limit) (hlimit : u.limit < 2 ^ 32)
    (ha : a + 4 * (l.length + 1) ≤ p) :
    ∃ u', u.putTable l.length p a = .ok (u', p + size l) ∧ u'.limit = u.limit ∧
      (∀ x, ¬(a ≤ x ∧ x < a + 4 * (l.length + 1)) → u'.byte x = u.byte x) ∧ u'.Strings a l ∧
        ∀ i < l.length, p ≤ longAt u'.byte (a + 4 * i) := by
  induction l generalizing u p a with
  | nil =>
    rw [List.length_nil] at ha
    refine ⟨{ u with byte := setLongAt u.byte a 0 }, rfl, rfl, fun x hx => setLongAt_of_not hx, ⟨?_, ?_, ?_⟩, ?_⟩
    · exact fun i hi => absurd hi (Nat.not_lt_zero i)
    · exact longAt_setLongAt_self (by decide)
    · dsimp only
      rw [List.length_nil]
      omega
    · exact fun i hi => absurd hi (Nat.not_lt_zero i)
  | cons t l ih =>
    rw [List.length_cons] at ha
    rw [List.cons_append, size_cons] at hend
    have hsame : ∀ x, p ≤ x → setLongAt u.byte a p x = u.byte x := fun x hx => setLongAt_of_not (by omega)
    obtain ⟨hfirst, hrest⟩ : Packed (setLongAt u.byte a p) p (t :: (l ++ r)) :=
      Packed.congr h fun j _ => hsame (p + j) (by omega)
    obtain ⟨u', hrun, hlim, hframe, hstrings, habove⟩ := ih (u := { u with byte := setLongAt u.byte a p })
      (p := p + t.strlen + 1) (a := a + 4) hrest (by dsimp only; omega) hlimit (by omega)
    have hplace : ∀ i, a + 4 * (i + 1) = a + 4 + 4 * i := fun i => by omega
    have hword : longAt u'.byte a = p := by
      rw [← longAt_setLongAt_self (m := u.byte) (a := a) (w := p) (by omega)]
      exact longAt_congr fun j hj => hframe _ (by omega)
    have hstring : u'.string p = .ok t := by
      rw [string, read_eq_iff, hlim]
      exact ⟨by dsimp only; omega, hfirst.congr fun j _ => hframe _ (by omega)⟩
    refine ⟨u', ?_, hlim, fun x hx => ?_, ⟨fun i hi => ?_, ?_, ?_⟩, fun i hi => ?_⟩
    · have hread : ({ u with byte := setLongAt u.byte a p } : UserData).string p = .ok t := by
        rw [string, read_eq_iff]
        exact ⟨by dsimp only; omega, hfirst⟩
      rw [List.length_cons, putTable]
      rw [hread, Except.bind, hrun, size_cons, ← Nat.add_assoc, ← Nat.add_assoc]
    · rw [List.length_cons] at hx
      exact (hframe x (by omega)).trans (setLongAt_of_not (by omega))
    · cases i with
      | zero =>
        rw [Nat.mul_zero, Nat.add_zero, hword]
        exact ⟨by omega, hstring⟩
      | succ i =>
        rw [hplace]
        exact hstrings.pointer i (Nat.lt_of_succ_lt_succ hi)
    · rw [List.length_cons, hplace]
      exact hstrings.null
    · have hin := hstrings.inside
      rw [List.length_cons, hlim]
      dsimp only
      omega
    · cases i with
      | zero =>
        rw [Nat.mul_zero, Nat.add_zero, hword]
      | succ i =>
        have hi' := habove i (Nat.lt_of_succ_lt_succ hi)
        rw [hplace]
        omega

/-- What a program finds at the stack pointer: the number of its arguments, and pointers to them and to the strings of
its environment, with the strings beyond the pointers. -/
structure Received (u : UserData) (sp : ℕ) (args envs : List CString) : Prop where
  argc : longAt u.byte sp = args.length
  argv : u.Strings (sp + 4) args
  envp : u.Strings (sp + 4 + 4 * (args.length + 1)) envs
  argvApart : ∀ i < args.length, sp + 4 * (args.length + envs.length + 3) ≤ longAt u.byte (sp + 4 + 4 * i)
  envpApart : ∀ i < envs.length, sp + 4 * (args.length + envs.length + 3) ≤
    longAt u.byte (sp + 4 + 4 * (args.length + 1) + 4 * i)

lemma createTables_spec (h : Packed u.byte p (args ++ envs)) (hend : p + size (args ++ envs) ≤ u.limit)
    (hlimit : u.limit < 2 ^ 32) (hroom : 4 * (args.length + envs.length + 3) + 3 ≤ p) :
    ∃ u' sp, u.createTables p args.length envs.length = .ok (u', sp) ∧ Received u' sp args envs := by
  rw [size_append] at hend
  have henvp : subU (p / 4 * 4) (4 * (envs.length + 1)) = p / 4 * 4 - 4 * (envs.length + 1) :=
    ArgPages.subU_of_le (by omega) (by omega)
  obtain ⟨sp, hsp⟩ : ∃ sp, sp + 4 * (args.length + envs.length + 3) = p / 4 * 4 :=
    ⟨p / 4 * 4 - 4 * (args.length + envs.length + 3), by omega⟩
  have henvp' : p / 4 * 4 - 4 * (envs.length + 1) = sp + 4 + 4 * (args.length + 1) := by omega
  have hargv : subU (sp + 4 + 4 * (args.length + 1)) (4 * (args.length + 1)) = sp + 4 := by
    rw [ArgPages.subU_of_le (by omega) (by omega), Nat.add_sub_cancel]
  have hsp' : subU (sp + 4) 4 = sp := by
    rw [ArgPages.subU_of_le (by omega) (by omega), Nat.add_sub_cancel]
  have hpacked : Packed (setLongAt u.byte sp args.length) p (args ++ envs) :=
    h.congr fun j _ => setLongAt_of_not (by omega)
  obtain ⟨u₁, hrun₁, hlimit₁, hframe₁, hstrings₁, habove₁⟩ :=
    putTable_spec (u := { u with byte := setLongAt u.byte sp args.length }) (l := args) (r := envs) (a := sp + 4)
      hpacked (by rw [size_append]; exact hend) hlimit (by omega)
  have hrest : Packed u₁.byte (p + size args) (envs ++ []) := by
    rw [List.append_nil]
    exact hpacked.right.congr fun j _ => hframe₁ _ (by omega)
  obtain ⟨u₂, hrun₂, hlimit₂, hframe₂, hstrings₂, habove₂⟩ :=
    putTable_spec (u := u₁) (l := envs) (a := sp + 4 + 4 * (args.length + 1)) hrest
      (by rw [List.append_nil, hlimit₁]; dsimp only; omega) (by rw [hlimit₁]; exact hlimit) (by omega)
  obtain ⟨hstrings, habove⟩ := hstrings₁.congr hlimit₂ (fun x hx => hframe₂ x (by omega)) habove₁
  refine ⟨u₂, sp, ?_, ?_, hstrings, hstrings₂, fun i hi => ?_, fun i hi => ?_⟩
  · rw [createTables]
    dsimp only
    rw [henvp, henvp', hargv, hsp', hrun₁, Except.bind]
    dsimp only
    rw [hrun₂, Except.map]
  · rw [← longAt_setLongAt_self (m := u.byte) (a := sp) (w := args.length) (by omega)]
    exact longAt_congr fun j hj => (hframe₂ _ (by omega)).trans (hframe₁ _ (by omega))
  · have hi' := habove i hi
    omega
  · have hi' := habove₂ i hi
    omega

lemma Vector.pointer (h : u.Vector a l) : ∀ i (h : i < l.length), longAt u.byte (a + 4 * i) ≠ 0 ∧
    u.string (longAt u.byte (a + 4 * i)) = .ok l[i] := by
  unfold Vector at h
  split_ifs at h
  · subst h
    exact fun i hi => absurd hi (Nat.not_lt_zero i)
  · exact h.pointer

/-- No string has been copied yet. -/
lemma filled_start (free : ℕ) : (⟨fun _ => none, free⟩ : ArgPages).Filled free (pageSize * maxArgPages) [] := by
  refine ⟨rfl, fun j hj => ?_, ?_, trivial⟩
  · rw [Nat.mul_div_cancel_left _ (by decide)]
    exact iff_of_false Bool.false_ne_true (not_le.mpr hj)
  · rw [Nat.mul_div_cancel_left _ (by decide), Nat.sub_self]
    rfl

/-- A program gets the strings of `argv` and of `envp`, if they are less than the pages for them and there are free
pages enough; `image` is the program in memory. -/
theorem arguments_received (hargv : u.Vector argv args) (henvp : u.Vector envp envs)
    (hsize : size (args ++ envs) < pageSize * maxArgPages)
    (hfree : (size (args ++ envs) + (pageSize - 1)) / pageSize ≤ free) (image : ℕ → Byte) :
    ∃ s p u' sp, copyArguments u argv envp free = .ok (s, p, args.length, envs.length) ∧ p ≠ 0 ∧
      newStack s.page p args.length envs.length image = .ok (u', sp) ∧ u'.Received sp args envs := by
  have hpart : size (envs ++ []) ≤ size (args ++ envs) := by simp
  obtain ⟨s₁, hrun₁, hfilled₁⟩ := copyStrings_spec (filled_start free) henvp.pointer (hpart.trans hsize.le)
    ((Nat.div_le_div_right (Nat.add_le_add_right hpart _)).trans hfree)
  rw [List.append_nil] at hfilled₁
  obtain ⟨s₂, hrun₂, hfilled₂⟩ := copyStrings_spec hfilled₁ hargv.pointer hsize.le hfree
  generalize hp : pageSize * maxArgPages - size envs - size args = p at hrun₂ hfilled₂
  have hplace := hfilled₂.place
  have hpacked : Packed (changeLdt s₂.page image).byte (p + argBase) (args ++ envs) := by
    refine hfilled₂.packed.congr fun j hj => ?_
    rw [Nat.add_comm p argBase, Nat.add_assoc]
    exact changeLdt_byte image hfilled₂.pages (Nat.le_add_right _ _) (by omega)
  have hargc := length_le_size args
  have henvc := length_le_size envs
  rw [size_append] at hsize hplace
  dsimp only [pageSize, maxArgPages] at hsize hplace
  obtain ⟨u', sp, hrun, hreceived⟩ := createTables_spec hpacked
    (by rw [size_append]; dsimp only [changeLdt, argBase, execLimit, pageSize, maxArgPages]; omega)
    (by dsimp only [changeLdt, execLimit]; decide) (by dsimp only [argBase, execLimit, pageSize, maxArgPages]; omega)
  refine ⟨s₂, p, u', sp, ?_, by omega, hrun, hreceived⟩
  rw [copyArguments, count_eq hargv, count_eq henvp]
  dsimp only [Except.bind]
  rw [hrun₁]
  dsimp only
  rw [hrun₂, Except.map]

end UserData

/-- A pointer to the string of one letter at 16. -/
def oneArgument : UserData := ⟨64, fun x => if x = 8 then 16 else if x = 16 then 97 else 0⟩

theorem arguments_received_one : ∃ s p u' sp, copyArguments oneArgument 8 0 1 = .ok (s, p, 1, 0) ∧ p ≠ 0 ∧
    newStack s.page p 1 0 (fun _ => 0) = .ok (u', sp) ∧ u'.Received sp [⟨[97], by decide⟩] [] := by
  have hargv : oneArgument.Vector 8 [⟨[97], by decide⟩] := by
    rw [UserData.Vector, if_neg (by decide)]
    refine ⟨fun i hi => ?_, by decide, by decide⟩
    obtain rfl := Nat.lt_one_iff.mp hi
    exact ⟨by decide, rfl⟩
  have henvp : oneArgument.Vector 0 [] := by
    rw [UserData.Vector, if_pos rfl]
  exact UserData.arguments_received hargv henvp (by decide) (by decide) _

end Devos.Fs
