import Devos.Mm.Counting

/-! What a process reads is what it has stored, or what it has had from its parent: copy-on-write shows no process the
stores of another. The memory of each process, as it alone has made it, runs beside the machine. -/

namespace Devos.Mm

open Runs RefCount Longs Kernel Pages

/-- A machine, and what is known of the memory of each process. -/
structure Watched where
  machine : Machine
  view : Fin 64 → ℕ → Option Byte

namespace Machine

/-- The bytes that process `i` can read. -/
def reads (s : Machine) (i : Fin 64) (a : ℕ) : Option Byte :=
  (s.task i).bind fun t =>
    if t.phase = .alive ∧ a < t.dataLimit then
      some (((s.pages.walk (t.place a)).map fun p => s.pages.mem p (a % 4096)).getD 0)
    else none

/-- Those that are not in a page of the kernel, which all processes without a program of their own have in common. -/
def ownReads (s : Machine) (i : Fin 64) (a : ℕ) : Option Byte :=
  (s.task i).bind fun t =>
    if t.phase = .alive ∧ a < t.dataLimit then s.pages.content (t.place a) (a % 4096) else none

/-- An event at the memories of the processes. -/
def effect (s' : Machine) (view : Fin 64 → ℕ → Option Byte) : Event → Fin 64 → ℕ → Option Byte
  | .store c a b => Function.update view c (Function.update (view c) a (some b))
  | .kernelStore c a b => Function.update view c (Function.update (view c) a (some b))
  | .fork c nr _ => if (s'.task nr).isSome then Function.update view nr (view c) else view
  | _ => view

/-- The addresses that `verify_area` makes the kernel able to write; `size` and the offset are added as an `int`. -/
def Within (area : ℕ × ℤ) (a : ℕ) : Prop :=
  area.1 ≤ a ∧ (a : ℤ) < area.1 + area.2 ∧ area.2 + (area.1 % 4096 : ℕ) < 2 ^ 31

/-- The system calls store only where they have called `verify_area` before. -/
def Verifies (s : Machine) : Event → Prop
  | .kernelStore c a _ => ∃ area ∈ s.areas c, Within area a
  | _ => True

/-- Process 0 stores nothing. -/
def Outside : Event → Prop
  | .store c _ _ => c ≠ 0
  | .kernelStore c _ _ => c ≠ 0
  | _ => True

end Machine

/-- The machine with the memories of its processes, of which each byte is known from when `known` has it. -/
def watched (known : Machine → Fin 64 → ℕ → Option Byte) : System Watched Event where
  init w := machine.init w.machine ∧ w.view = known w.machine
  step w e w' :=
    MachineStep w.machine e w'.machine ∧
      w'.view = fun i a => (w'.machine.effect w.view e i a).or (known w'.machine i a)

/-- The step of an event. -/
def Watched.after (known : Machine → Fin 64 → ℕ → Option Byte) (w : Watched) (e : Event) (s' : Machine) : Watched :=
  ⟨s', fun i a => (s'.effect w.view e i a).or (known s' i a)⟩

lemma reach_after {known : Machine → Fin 64 → ℕ → Option Byte} {ok : Watched → Event → Prop} {w : Watched} {e : Event}
    {s' : Machine} (h : (watched known).Reach ok w) (hok : ok w e) (hs : MachineStep w.machine e s') :
    (watched known).Reach ok (w.after known e s') :=
  .next h hok ⟨hs, rfl⟩

namespace Machine

/-- What is known of the memory of process `i` is so, and what its system call has verified can be written. -/
structure Alone (s : Machine) (view : Fin 64 → ℕ → Option Byte) (i : Fin 64) : Prop where
  opened : ∀ t, s.task i = some t → t.phase = .alive → i ≠ 0 → ∀ area ∈ s.areas i, ∀ a < t.dataLimit, Within area a →
    Open s.pages (t.place a)
  viewed : ∀ t, s.task i = some t → t.phase = .alive → ∀ a < t.dataLimit, ∀ b, view i a = some b →
    s.pages.content (t.place a) (a % 4096) = some b

structure Isolated (s : Machine) (view : Fin 64 → ℕ → Option Byte) : Prop where
  sound : Sound s
  alone : ∀ i, Alone s view i

/-- Process `i` goes on with its memory. -/
def Follows (s s' : Machine) (i : Fin 64) : Prop :=
  ∀ t', s'.task i = some t' → t'.phase = .alive → ∃ t, s.task i = some t ∧ t.phase = .alive ∧
    t'.dataLimit = t.dataLimit ∧ t'.place = t.place ∧ ∀ a < t.dataLimit,
      (∀ b, s.pages.content (t.place a) (a % 4096) = some b → s'.pages.content (t.place a) (a % 4096) = some b) ∧
      (i ≠ 0 → s'.areas i = [] ∨ s'.areas i = s.areas i ∧ (Open s.pages (t.place a) → Open s'.pages (t.place a)))

section Following

variable {s s' s'' : Machine} {view : Fin 64 → ℕ → Option Byte} {i c : Fin 64} {t : Task} {a : ℕ} {b : Byte}

lemma Alone.follow (h : Alone s view i) (hf : Follows s s' i) : Alone s' view i := by
  constructor
  · intro t' ht' halive' hi area harea a ha hin
    obtain ⟨t, ht, halive, hlimit, hplace, hall⟩ := hf t' ht' halive'
    rw [hlimit] at ha
    rw [hplace]
    rcases (hall a ha).2 hi with hnil | ⟨hsame, hopen⟩
    · rw [hnil] at harea
      cases harea
    · rw [hsame] at harea
      exact hopen (h.opened t ht halive hi area harea a ha hin)
  · intro t' ht' halive' a ha b hb
    obtain ⟨t, ht, halive, hlimit, hplace, hall⟩ := hf t' ht' halive'
    rw [hlimit] at ha
    rw [hplace]
    exact (hall a ha).1 b (h.viewed t ht halive a ha b hb)

lemma Alone.of_view {view' : Fin 64 → ℕ → Option Byte} (h : Alone s view i) (hview : view' i = view i) : Alone s view' i :=
  ⟨h.opened, fun t ht halive a ha b hb => h.viewed t ht halive a ha b (by rw [← hview]; exact hb)⟩

lemma Isolated.follow (h : Isolated s view) (hs : Sound s') (hf : ∀ i, Follows s s' i) : Isolated s' view :=
  ⟨hs, fun i => (h.alone i).follow (hf i)⟩

/-- Nothing is certain in the memory of process 0. -/
lemma Sound.content_zero (h : Sound s) (ht : s.task 0 = some t) (ha : a < t.dataLimit) (o : ℕ) :
    s.pages.content (t.place a) o = none := by
  obtain ⟨hlt, hwalk, _⟩ := h.kernel_place (h.placed 0 t ht) ha
  rw [Pages.content, hwalk]
  exact if_pos (by dsimp only [lowMem]; omega)

lemma place_congr {t t' : Task} (hbase : t'.dataBase = t.dataBase) : t'.place = t.place := by
  funext a
  rw [Task.place, Task.place, hbase]

lemma LivesOn.follows (h : LivesOn s s') (hs : Sound s) (hreveals : Reveals s.pages s'.pages)
    (hopens : ∀ x, Open s.pages x → Open s'.pages x) (hareas : s'.areas i = s.areas i ∨ s'.areas i = []) :
    Follows s s' i := by
  intro t' ht' halive'
  obtain ⟨t, ht, halive, hbase, hlimit⟩ := h i t' ht' halive'
  refine ⟨t, ht, halive, hlimit, place_congr hbase, ?_⟩
  intro a ha
  constructor
  · intro b hb
    by_cases hi : i = 0
    · subst hi
      rw [hs.content_zero ht ha] at hb
      cases hb
    · exact hreveals _ ((hs.placed i t ht).high hi ha) _ b hb
  · intro _
    rcases hareas with hsame | hnil
    · exact Or.inr ⟨hsame, hopens _⟩
    · exact Or.inl hnil

lemma Calm.follows (h : Calm s s') (hs : Sound s) : Follows s s' i :=
  h.lives.follows hs h.only.reveals (fun _ hx => hx.only h.only id id) (Or.inl (congrFun h.areas i))

lemma Follows.trans (h : Follows s s' i) (h' : Follows s' s'' i) : Follows s s'' i := by
  intro t'' ht'' halive''
  obtain ⟨t', ht', halive', hlimit', hplace', hall'⟩ := h' t'' ht'' halive''
  obtain ⟨t, ht, halive, hlimit, hplace, hall⟩ := h t' ht' halive'
  refine ⟨t, ht, halive, hlimit'.trans hlimit, hplace'.trans hplace, ?_⟩
  intro a ha
  have hnext := hall' a (by rw [hlimit]; exact ha)
  rw [hplace] at hnext
  refine ⟨fun b hb => hnext.1 b ((hall a ha).1 b hb), ?_⟩
  intro hi
  rcases hnext.2 hi with hnil | ⟨hsame', hopen'⟩
  · exact Or.inl hnil
  · rcases (hall a ha).2 hi with hnil | ⟨hsame, hopen⟩
    · exact Or.inl (hsame'.trans hnil)
    · exact Or.inr ⟨hsame'.trans hsame, fun hx => hopen' (hopen hx)⟩

/-- A process none of whose places change. -/
lemma Follows.of_only {D W : Place → Prop} (hs : Sound s)
    (hlives : ∀ t', s'.task i = some t' → t'.phase = .alive →
      ∃ t, s.task i = some t ∧ t.phase = .alive ∧ t'.dataBase = t.dataBase ∧ t'.dataLimit = t.dataLimit)
    (hon : Only D W s.pages s'.pages)
    (hout : ∀ t, s.task i = some t → ∀ a < t.dataLimit, ¬D (t.place a) ∧ (s'.areas i = [] ∨ ¬W (t.place a)))
    (hareas : s'.areas i = s.areas i ∨ s'.areas i = []) : Follows s s' i := by
  intro t' ht' halive'
  obtain ⟨t, ht, halive, hbase, hlimit⟩ := hlives t' ht' halive'
  refine ⟨t, ht, halive, hlimit, place_congr hbase, ?_⟩
  intro a ha
  obtain ⟨hD, hW⟩ := hout t ht a ha
  constructor
  · intro b hb
    by_cases hi : i = 0
    · subst hi
      rw [hs.content_zero ht ha] at hb
      cases hb
    · rw [hon.content ((hs.placed i t ht).high hi ha) hD]
      exact hb
  · intro _
    rcases hareas with hsame | hnil
    · rcases hW with hnil | hW
      · exact Or.inl hnil
      · exact Or.inr ⟨hsame, fun hx => hx.only hon hD hW⟩
    · exact Or.inl hnil

/-- Two processes have no places in common. -/
lemma Sound.place_row {n : ℕ} (h : Sound s) (ht : s.task i = some t) (hic : i ≠ c) (hn : n ≤ 16)
    (ha : a < t.dataLimit) : ¬rows (16 * c.val) n (t.place a) := by
  intro hrow
  apply hic
  apply Fin.ext
  have hp := h.placed i t ht
  have hle := hp.tables_le
  have hown := (hp.row_place ha).2
  have h₁ := hrow.1
  have h₂ := hrow.2
  have h₃ := hown.1
  have h₄ := hown.2
  omega

lemma Sound.exit_follows {t' : Task} (h : Sound s) (ht : s.task c = some t') (hs : s.beginExit c t' = .ok s') :
    Follows s s' i := by
  obtain ⟨_, hon, hlives, hareas, hdead⟩ := h.beginExit ht hs
  by_cases hi : i = c
  · subst hi
    intro u hu halive
    exact absurd halive (hdead u hu)
  · have hle := (h.placed c t' ht).tables_le
    refine Follows.of_only h (hlives i) hon ?_ (Or.inl (congrFun hareas i))
    exact fun t ht a ha => ⟨h.place_row ht hi hle ha, Or.inr id⟩

lemma Answered.follows {L : Prop} {m : Pages} (h : Answered L s c t m s') (hs : Sound s) (ht : s.task c = some t) :
    Follows s s' i := by
  have hlives : LivesOn s { s with pages := m } := LivesOn.of_task rfl
  have hfirst : Follows s { s with pages := m } i := hlives.follows hs h.reveals h.opens (Or.inl rfl)
  rcases h.result with rfl | hexit
  · exact hfirst
  · exact hfirst.trans (h.sound.exit_follows ht hexit)

/-- A fork that fails, and one that does not for all but the child. -/
lemma Sound.fork_follows {nr : Fin 64} (h : Sound s) (ht : s.task c = some t) (hi : i ≠ nr)
    (htask : s'.task i = s.task i)
    (hon : Only (rows (16 * nr.val) (tablesFor t.dataLimit)) (rows (16 * c.val) (tablesFor t.dataLimit)) s.pages s'.pages)
    (hareas : s'.areas = s.areas) : Follows s ((s'.enter c).enter nr) i := by
  have hle := (h.placed c t ht).tables_le
  have hother : ((s'.enter c).enter nr).areas i = if i = c then [] else s.areas i := by
    change Function.update (Function.update s'.areas c []) nr [] i = _
    rw [Function.update_of_ne hi, Function.update_apply, hareas]
  refine Follows.of_only h ?_ hon ?_ ?_
  · intro t' ht' halive
    have hsame : s'.task i = some t' := ht'
    exact ⟨t', by rw [← htask, hsame], halive, rfl, rfl⟩
  · intro u hu a ha
    refine ⟨h.place_row hu hi hle ha, ?_⟩
    by_cases hic : i = c
    · exact Or.inl (by rw [hother, if_pos hic])
    · exact Or.inr (h.place_row hu hic hle ha)
  · rw [hother]
    split_ifs
    · exact Or.inr rfl
    · exact Or.inl rfl

/-- An address of a child is in the same place of its space as it is in that of the parent. -/
lemma Placed.child_place {nr : Fin 64} {u : Task} (hp : Placed c t) (hu : u.dataBase = nr.val * 0x4000000)
    (ha : a < t.dataLimit) : (u.place a).1.val = 16 * nr.val + a / 2 ^ 22 ∧ (u.place a).2 = (t.place a).2 := by
  have hlimit := hp.dataLimit
  have hlt := nr.isLt
  constructor
  · have hval : (u.place a).1.val = (u.dataBase + a) / 2 ^ 22 % 1024 := rfl
    rw [hu] at hval
    omega
  · apply Fin.ext
    have hval : (u.place a).2.val = (u.dataBase + a) / 2 ^ 12 % 1024 := rfl
    have hval' : (t.place a).2.val = (t.dataBase + a) / 2 ^ 12 % 1024 := rfl
    rw [hu] at hval
    rw [hp.dataBase] at hval'
    omega

/-- The child has the memory of its parent. -/
lemma Isolated.child {nr : Fin 64} (h : Isolated s view) (ht : s.task c = some t) (halive : t.phase = .alive)
    (hfree : s.task nr = none) (hf : Forked s c nr t s') {u : Task} (hu : u.dataBase = nr.val * 0x4000000)
    (hlimit : u.dataLimit = t.dataLimit) (hnr : nr ≠ 0) (ha : a < u.dataLimit) (hb : view c a = some b) :
    s'.pages.content (u.place a) (a % 4096) = some b := by
  rw [hlimit] at ha
  have hp := h.sound.placed c t ht
  have hbefore := (h.alone c).viewed t ht halive a ha b hb
  have hc : c ≠ 0 := by
    rintro rfl
    rw [h.sound.content_zero ht ha] at hbefore
    cases hbefore
  have hne : c ≠ nr := by
    rintro rfl
    rw [hfree] at ht
    cases ht
  have hd := hp.high hc ha
  have hrow := hp.row_place ha
  have hpos : nr.val ≠ 0 := fun hv => hnr (Fin.ext hv)
  obtain ⟨hfst, hsnd⟩ := hp.child_place hu ha
  have hcopied := hf.copied (t.place a) (u.place a) hrow.2 (by rw [hfst, hrow.1]; omega) hsnd
  rw [if_neg hc, if_pos (t.place a).2.isLt, walk_eq_mapped hd] at hcopied
  rw [Pages.content, walk_eq_mapped hd] at hbefore
  rw [Pages.content, walk_eq_mapped (by omega), hcopied]
  cases hmap : s.pages.mapped (t.place a) with
  | none =>
    rw [hmap] at hbefore
    exact hbefore
  | some p =>
    rw [hmap] at hbefore
    dsimp only at hbefore ⊢
    split_ifs at hbefore ⊢ with hlow
    rw [hf.only.data _ p (h.sound.place_row ht hne hp.tables_le ha) hmap (not_lt.mp hlow)]
    exact hbefore

lemma Isolated.fork {nr : Fin 64} (h : Isolated s view) (ht : s.task c = some t) (halive : t.phase = .alive)
    (hnr : nr ≠ 0) (hfree : s.task nr = none) {pid r : ℤ} (hrun : s.copyProcess nr t pid = .ok (s', r))
    (hs : Sound ((s'.enter c).enter nr)) :
    Isolated ((s'.enter c).enter nr) (effect ((s'.enter c).enter nr) view (.fork c nr pid)) := by
  rcases copyProcess_spec h.sound pid ht hnr hfree with ⟨m, hrun', hun, _⟩ | ⟨s₁, hrun', hf, _⟩
  · rw [hrun', Except.ok.injEq, Prod.mk.injEq] at hrun
    obtain ⟨rfl, _⟩ := hrun
    have hview : effect (({ s with pages := m }.enter c).enter nr) view (.fork c nr pid) = view :=
      if_neg (by change ¬(s.task nr).isSome = true; simp [hfree])
    rw [hview]
    refine h.follow hs ?_
    intro i
    by_cases hi : i = nr
    · intro u hu
      have hnone : s.task i = some u := hu
      rw [hi, hfree] at hnone
      cases hnone
    · exact h.sound.fork_follows ht hi rfl hun.only rfl
  · rw [hrun', Except.ok.injEq, Prod.mk.injEq] at hrun
    obtain ⟨rfl, _⟩ := hrun
    obtain ⟨u, hbase, hlimit, _, htask⟩ := hf.child
    have hself : s₁.task nr = some u := by rw [htask, Function.update_self]
    have hview : effect ((s₁.enter c).enter nr) view (.fork c nr pid) = Function.update view nr (view c) :=
      if_pos (by change (s₁.task nr).isSome = true; rw [hself]; rfl)
    rw [hview]
    refine ⟨hs, ?_⟩
    intro i
    by_cases hi : i = nr
    · subst hi
      constructor
      · intro t' _ _ _ area harea
        have hnil : ((s₁.enter c).enter i).areas i = [] := Function.update_self _ _ _
        rw [hnil] at harea
        cases harea
      · intro t' ht' _ a ha b hb
        obtain rfl : u = t' := Option.some.inj (hself.symm.trans ht')
        rw [Function.update_self] at hb
        exact h.child ht halive hfree hf hbase hlimit hnr ha hb
    · have hold : Function.update view nr (view c) i = view i := Function.update_of_ne hi _ _
      have hfollow : Follows s ((s₁.enter c).enter nr) i :=
        h.sound.fork_follows ht hi (by rw [htask, Function.update_of_ne hi]) hf.only hf.areas
      exact ((h.alone i).follow hfollow).of_view hold

lemma placeOf_congr {x y : ℕ} (h : x / 4096 = y / 4096) : placeOf x = placeOf y := by
  unfold placeOf
  apply Prod.ext
  · apply Fin.ext
    rw [Fin.val_ofNat, Fin.val_ofNat]
    omega
  · apply Fin.ext
    rw [Fin.val_ofNat, Fin.val_ofNat]
    omega

/-- The loop of `verify_area` gets to the page of each address of the area. -/
lemma Within.turn {addr base : ℕ} {size : ℤ} (h : Within (addr, size) a) (hbase : base % 4096 = 0) :
    ∃ k < areaTurns addr size, placeOf (addr / 4096 * 4096 + base + 4096 * k) = placeOf (base + a) := by
  obtain ⟨hlo, hhi, hint⟩ := h
  dsimp only at hlo hhi hint
  refine ⟨(a - addr / 4096 * 4096) / 4096, ?_, placeOf_congr (by omega)⟩
  have hmod : Int.bmod (size + (addr % 4096 : ℕ)) (2 ^ 32) = size + (addr % 4096 : ℕ) :=
    Int.bmod_eq_of_le_mul_two (by omega) (by omega)
  rw [areaTurns, hmod]
  omega

lemma Isolated.verify {addr : ℕ} {size : ℤ} {m : Pages} (h : Isolated s view) (ht : s.task c = some t)
    (hrun : s.pages.verifyArea t.dataBase addr size = (m, true))
    (hs : Sound { s with pages := m, areas := Function.update s.areas c ((addr, size) :: s.areas c) }) :
    Isolated { s with pages := m, areas := Function.update s.areas c ((addr, size) :: s.areas c) } view := by
  obtain ⟨m', b', hrun', hv, hall⟩ := h.sound.counted.verifyFrom (areaTurns addr size) (addr / 4096 * 4096 + t.dataBase)
  rw [Pages.verifyArea, hrun'] at hrun
  obtain ⟨rfl, rfl⟩ := Prod.mk.inj hrun
  refine ⟨hs, ?_⟩
  intro i
  have hlives : LivesOn s { s with pages := m' } := LivesOn.of_task rfl
  have hfollow : Follows s { s with pages := m' } i := hlives.follows h.sound hv.reveals hv.opens (Or.inl rfl)
  have hbefore := (h.alone i).follow hfollow
  refine ⟨?_, hbefore.viewed⟩
  intro t' ht' halive hi area harea a ha hin
  by_cases hic : i = c
  · subst hic
    obtain rfl : t = t' := Option.some.inj (ht.symm.trans ht')
    have hareas : area ∈ (addr, size) :: s.areas i := by
      have hself : Function.update s.areas i ((addr, size) :: s.areas i) i = (addr, size) :: s.areas i :=
        Function.update_self _ _ _
      rw [← hself]
      exact harea
    rcases List.mem_cons.mp hareas with rfl | hold
    · have hbase : t.dataBase % 4096 = 0 := by
        rw [(h.sound.placed i t ht).dataBase]
        omega
      obtain ⟨k, hk, hplace⟩ := hin.turn hbase
      have hopen := hall rfl k hk
      rw [hplace] at hopen
      exact hopen
    · exact hbefore.opened t ht' halive hi area hold a ha hin
  · have hother : Function.update s.areas c ((addr, size) :: s.areas c) i = s.areas i := Function.update_of_ne hic _ _
    exact hbefore.opened t' ht' halive hi area (by rw [← hother]; exact harea) a ha hin

lemma Placed.same_page {a' : ℕ} (hp : Placed i t) (ha : a < t.dataLimit) (ha' : a' < t.dataLimit)
    (h : t.place a' = t.place a) : a' / 4096 = a / 4096 := by
  have hlimit := hp.dataLimit
  have hlt := i.isLt
  have hfst := congrArg (fun x => x.1.val) h
  have hsnd := congrArg (fun x => x.2.val) h
  have hval : ∀ a, (t.place a).1.val = (t.dataBase + a) / 2 ^ 22 % 1024 ∧
      (t.place a).2.val = (t.dataBase + a) / 2 ^ 12 % 1024 := fun _ => ⟨rfl, rfl⟩
  rw [(hval a').1, (hval a).1, hp.dataBase] at hfst
  rw [(hval a').2, (hval a).2, hp.dataBase] at hsnd
  omega

/-- A process stores where it may, and no other sees it. -/
lemma Isolated.store {p : ℕ} (h : Isolated s view) (ht : s.task c = some t) (hc : c ≠ 0) (ha : a < t.dataLimit)
    (hwalk : s.pages.walk (t.place a) = some p) (hopen : Open s.pages (t.place a))
    (hs : Sound { s with pages := s.pages.store (t.place a) (a % 4096) b }) :
    Isolated { s with pages := s.pages.store (t.place a) (a % 4096) b }
      (Function.update view c (Function.update (view c) a (some b))) := by
  obtain ⟨q, _, hon, hq, hlo, _, hmapped, hopens, hmem⟩ := h.sound.store (b := b) ht hc ha hwalk hopen
  refine ⟨hs, ?_⟩
  intro i
  refine ⟨fun t' ht' halive hi area harea a' ha' hin =>
    hopens _ ((h.alone i).opened t' ht' halive hi area harea a' ha' hin), ?_⟩
  intro t' ht' halive a' ha' b' hb'
  have hd := (h.sound.placed c t ht).high hc ha
  by_cases hic : i = c
  · subst hic
    obtain rfl : t = t' := Option.some.inj (ht.symm.trans ht')
    rw [Function.update_self] at hb'
    by_cases hsame : t.place a' = t.place a
    · rw [hsame, content_of_mapped (p := q) hd (by rw [hmapped, hq]) hlo, hmem]
      have hpage := (h.sound.placed i t ht).same_page ha ha' hsame
      by_cases haa : a' = a
      · rw [haa, Function.update_self] at hb'
        rw [haa, Function.update_self, ← hb']
      · rw [Function.update_of_ne haa] at hb'
        have hbefore := (h.alone i).viewed t ht halive a' ha' b' hb'
        rw [hsame, content_of_mapped hd hq hlo] at hbefore
        rw [Function.update_of_ne (by omega)]
        exact hbefore
    · have hold : Function.update (view i) a (some b) a' = view i a' := by
        apply Function.update_of_ne
        rintro rfl
        exact hsame rfl
      rw [hold] at hb'
      have hbefore := (h.alone i).viewed t ht halive a' ha' b' hb'
      have hcontent := hon.content (o := a' % 4096) ((h.sound.placed i t ht).high hc ha') hsame
      exact hcontent.trans hbefore
  · rw [Function.update_of_ne hic] at hb'
    have hbefore := (h.alone i).viewed t' ht' halive a' ha' b' hb'
    have hi : i ≠ 0 := by
      rintro rfl
      rw [h.sound.content_zero ht' ha'] at hbefore
      cases hbefore
    have hne : t'.place a' ≠ t.place a := by
      intro heq
      have hp := h.sound.placed c t ht
      apply h.sound.place_row ht' hic hp.tables_le ha'
      rw [heq]
      exact (hp.row_place ha).2
    have hsame := hon.content (o := a' % 4096) ((h.sound.placed i t' ht').high hi ha') hne
    exact hsame.trans hbefore

end Following

section Runs

variable {s s' : Machine} {view : Fin 64 → ℕ → Option Byte} {i : Fin 64} {a : ℕ} {b : Byte} {e : Event}

lemma Isolated.tame (h : Isolated s view) (hverifies : Verifies s e) (houtside : Outside e) (hs : MachineStep s e s') :
    Tame s e := by
  cases hs with
  | store => exact houtside
  | @kernelStore c t a b p ht halive ha _ =>
    refine ⟨houtside, ?_⟩
    intro u hu
    obtain rfl : t = u := Option.some.inj (ht.symm.trans hu)
    obtain ⟨area, harea, hin⟩ := hverifies
    exact (h.alone c).opened t ht halive houtside area harea a ha hin
  | fork => trivial
  | beginExit => trivial
  | close => trivial
  | endExit => trivial
  | wait => trivial
  | noPage => trivial
  | wpPage => trivial
  | pipe => trivial
  | enter => trivial
  | verify => trivial
  | verifyKilled => trivial

theorem Isolated.step (h : Isolated s view) (hverifies : Verifies s e) (houtside : Outside e) (hs : MachineStep s e s') :
    Isolated s' (effect s' view e) := by
  have htame := h.tame hverifies houtside hs
  have hsound := (h.sound.step htame hs).1
  have hcalm : ∀ {s'}, Calm s s' → Isolated s' view := fun hc => h.follow hc.sound fun _ => hc.follows h.sound
  cases hs with
  | fork ht halive hnr hfree hrun => exact h.fork ht halive hnr hfree hrun hsound
  | beginExit ht _ hrun => exact h.follow hsound fun _ => h.sound.exit_follows ht hrun
  | close ht _ hrun => exact hcalm (h.sound.sysClose ht hrun)
  | endExit ht hphase _ hrun => exact hcalm (h.sound.endExit ht hphase hrun)
  | wait _ _ hu _ hphase hrun =>
    apply hcalm (h.sound.release hu _ hrun)
    rw [hphase]
    rintro ⟨⟩
  | noPage ht halive ha hwalk hrun =>
    obtain ⟨m, hans⟩ := h.sound.noPage ht halive ha hwalk hrun
    exact h.follow hsound fun _ => hans.follows h.sound ht
  | wpPage ht _ ha hwalk hw hrun =>
    obtain ⟨m, hans⟩ := h.sound.wpPage ht ha hwalk hw hrun
    exact h.follow hsound fun _ => hans.follows h.sound ht
  | pipe ht _ hk => exact hcalm (h.sound.sysPipe ht hk)
  | @enter c t ht _ =>
    refine h.follow hsound ?_
    intro i
    have hlives : LivesOn s (s.enter c) := LivesOn.of_task rfl
    refine hlives.follows h.sound (Reveals.refl _) (fun _ hx => hx) ?_
    have hareas : (s.enter c).areas i = if i = c then [] else s.areas i := Function.update_apply _ _ _ _
    rw [hareas]
    split_ifs
    · exact Or.inr rfl
    · exact Or.inl rfl
  | verify ht _ hrun => exact h.verify ht hrun hsound
  | verifyKilled ht _ hrun hset => exact h.follow hsound fun _ => (h.sound.verifyKilled hrun hset).follows h.sound ht
  | store ht _ ha hwalk hw =>
    exact h.store ht houtside ha hwalk (h.sound.open_of_writable ht houtside ha hwalk hw) hsound
  | @kernelStore c t a b p ht _ ha hwalk => exact h.store ht houtside ha hwalk (htame.2 t ht) hsound

lemma content_of_ownReads (h : s.ownReads i a = some b) : ∀ t, s.task i = some t → a < t.dataLimit →
    s.pages.content (t.place a) (a % 4096) = some b := by
  intro t ht _
  rw [ownReads, ht, Option.bind_some] at h
  split_ifs at h
  exact h

lemma ownReads_eq {t : Task} (ht : s.task i = some t) (halive : t.phase = .alive) (ha : a < t.dataLimit) :
    s.ownReads i a = s.pages.content (t.place a) (a % 4096) := by
  rw [ownReads, ht, Option.bind_some, if_pos ⟨halive, ha⟩]

lemma task_of_ownReads (h : s.ownReads i a = some b) : ∃ t, s.task i = some t ∧ t.phase = .alive ∧ a < t.dataLimit := by
  obtain ⟨t, ht, hcase⟩ := Option.bind_eq_some_iff.mp h
  split_ifs at hcase with hin
  exact ⟨t, ht, hin⟩

lemma task_of_reads (h : s.reads i a = some b) : ∃ t, s.task i = some t ∧ t.phase = .alive ∧ a < t.dataLimit := by
  obtain ⟨t, ht, hcase⟩ := Option.bind_eq_some_iff.mp h
  split_ifs at hcase with hin
  exact ⟨t, ht, hin⟩

lemma reads_of_walk {t : Task} {p : ℕ} (ht : s.task i = some t) (halive : t.phase = .alive) (ha : a < t.dataLimit)
    (hwalk : s.pages.walk (t.place a) = some p) : s.reads i a = some (s.pages.mem p (a % 4096)) := by
  rw [reads, ht, Option.bind_some, if_pos ⟨halive, ha⟩, hwalk]
  rfl

lemma Isolated.learn (h : Isolated s view) : Isolated s fun i a => (view i a).or (s.ownReads i a) := by
  refine ⟨h.sound, fun i => ⟨(h.alone i).opened, ?_⟩⟩
  intro t ht halive a ha b hb
  rcases Option.or_eq_some_iff.mp hb with hview | ⟨_, hreads⟩
  · exact (h.alone i).viewed t ht halive a ha b hview
  · exact content_of_ownReads hreads t ht ha

lemma Isolated.start (h : machine.init s) : Isolated s s.ownReads := by
  refine ⟨h.1, fun i => ⟨?_, ?_⟩⟩
  · intro t _ _ _ area harea
    rw [h.2.2 i] at harea
    cases harea
  · intro t ht _ a ha b hb
    exact content_of_ownReads hb t ht ha

end Runs

section Watching

variable {w : Watched} {i : Fin 64} {a : ℕ} {v b : Byte}

lemma Isolated.of_run (h : (watched ownReads).Reach (fun w e => Verifies w.machine e ∧ Outside e) w) :
    Isolated w.machine w.view ∧ ∀ i a v, w.machine.ownReads i a = some v → (w.view i a).isSome = true := by
  induction h with
  | start hinit =>
    rw [hinit.2]
    refine ⟨Isolated.start hinit.1, ?_⟩
    intro i a v hv
    rw [hv]
    rfl
  | next _ hok hs ih =>
    rw [hs.2]
    refine ⟨(ih.1.step hok.1 hok.2 hs.1).learn, ?_⟩
    intro i a v hv
    simp [hv]

/-- What a process reads in a page of its own is the last that it or a system call for it has stored there, or else what
its parent has had there when it forked, or what the page has been filled with. -/
theorem memories_isolated (h : (watched ownReads).Reach (fun w e => Verifies w.machine e ∧ Outside e) w) :
    (w.machine.ownReads i a = some v → w.view i a = some v) ∧
      (w.machine.reads i a = some v → w.view i a = some b → v = b) := by
  obtain ⟨hisolated, hknown⟩ := Isolated.of_run h
  constructor
  · intro hv
    obtain ⟨b, hb⟩ := Option.isSome_iff_exists.mp (hknown i a v hv)
    obtain ⟨t, ht, halive, ha⟩ := task_of_ownReads hv
    have hcontent := (hisolated.alone i).viewed t ht halive a ha b hb
    rw [ownReads_eq ht halive ha, hcontent] at hv
    rw [hb, hv]
  · intro hv hb
    obtain ⟨t, ht, halive, ha⟩ := task_of_reads hv
    have hcontent := (hisolated.alone i).viewed t ht halive a ha b hb
    rw [reads, ht, Option.bind_some, if_pos ⟨halive, ha⟩, Option.some.injEq] at hv
    rw [Pages.content] at hcontent
    cases hwalk : w.machine.pages.walk (t.place a) with
    | none =>
      rw [hwalk] at hv hcontent
      exact hv.symm.trans (Option.some.inj hcontent)
    | some p =>
      rw [hwalk] at hv hcontent
      dsimp only at hcontent
      split_ifs at hcontent
      exact hv.symm.trans (Option.some.inj hcontent)

/-- Address 0 of process 1 is in page 516, and it may be written. -/
lemma crowded_address_zero : crowded.pages.walk ((plainTask 1 513 0x4000000).place 0) = some 516 ∧
    writable (crowded.pages.entry ((plainTask 1 513 0x4000000).place 0)) := by
  have ha : 0 < (plainTask 1 513 0x4000000).dataLimit := by
    dsimp only [plainTask]
    omega
  have hplaced := init_crowded.1.placed 1 _ task_crowded_one
  have hdir : ((plainTask 1 513 0x4000000).place 0).1.val = 16 := (hplaced.row_place ha).1
  have hentry : ((plainTask 1 513 0x4000000).place 0).2.val = 0 := by decide
  have hmapped : crowdedPages.mapped ((plainTask 1 513 0x4000000).place 0) = some 516 := by
    rw [mapped_crowded, hdir, hentry]
    rfl
  refine ⟨?_, ?_⟩
  · rw [← hmapped]
    exact walk_eq_mapped (by omega)
  · obtain ⟨t, ht, _, hlong, _⟩ := entry_of_mapped (by omega) hmapped
    rw [table_crowded, hdir, if_pos (by decide)] at ht
    obtain rfl := Option.some.inj ht
    have hword : long crowdedPages.mem 514 0 = full 516 := long_crowded (by decide) (by decide)
    rw [hentry, hword] at hlong
    have hfull : crowded.pages.entry ((plainTask 1 513 0x4000000).place 0) = full 516 := hlong
    rw [hfull]
    exact writable_full _

/-- Process 1 stores 7 at its address 0 and reads it. -/
theorem memories_isolated_store :
    ({ crowded with pages := crowded.pages.store ((plainTask 1 513 0x4000000).place 0) 0 7 } : Machine).reads 1 0 =
      some 7 := by
  have ha : 0 < (plainTask 1 513 0x4000000).dataLimit := by
    dsimp only [plainTask]
    omega
  obtain ⟨hwalk, hw⟩ := crowded_address_zero
  have hstep := MachineStep.store (b := 7) task_crowded_one rfl ha hwalk hw
  have hone : (1 : Fin 64) ≠ 0 := by decide
  have hstart : (watched ownReads).Reach (fun w e => Verifies w.machine e ∧ Outside e) ⟨crowded, crowded.ownReads⟩ :=
    .start ⟨init_crowded, rfl⟩
  have hok : Verifies crowded (.store 1 0 7) ∧ Outside (.store 1 0 7) := ⟨trivial, hone⟩
  have hreads : ∀ s : Machine, s.task 1 = some (plainTask 1 513 0x4000000) → ∃ v, s.reads 1 0 = some v := by
    intro s ht
    rw [reads, ht, Option.bind_some, if_pos ⟨rfl, ha⟩]
    exact ⟨_, rfl⟩
  obtain ⟨v, hv⟩ := hreads { crowded with pages := crowded.pages.store ((plainTask 1 513 0x4000000).place 0) 0 7 }
    task_crowded_one
  rw [hv]
  exact congrArg some ((memories_isolated (reach_after hstart hok hstep)).2 hv rfl)

end Watching

section Kernel

lemma tables_le (m : Pages) (src n : ℕ) : m.tables src n ≤ n := by
  induction n generalizing src with
  | zero => exact le_refl 0
  | succ n ih =>
    have hnext := ih (src + 1)
    rw [Pages.tables]
    split_ifs <;> omega

lemma walk_store {m : Pages} {x y : Place} {p o : ℕ} {b : Byte} (hx : m.walk x = some p) (hp : p ≠ 0)
    (hy : ∀ q, m.link 0 y.1 = some q → q ≠ p) : (m.store x o b).walk y = m.walk y ∧ (m.store x o b).mem p o = b := by
  have hstore : m.store x o b = { m with mem := Function.update m.mem p (Function.update (m.mem p) o b) } := by
    rw [Pages.store, hx]
  rw [hstore]
  constructor
  · have hdir : ({ m with mem := Function.update m.mem p (Function.update (m.mem p) o b) } : Pages).link 0 y.1 =
        m.link 0 y.1 := link_congr (Function.update_of_ne hp.symm _ _)
    rw [Pages.walk, Pages.walk, hdir]
    cases hlink : m.link 0 y.1 with
    | none => rfl
    | some q => exact link_congr (Function.update_of_ne (hy q hlink) _ _)
  · have hpage : Function.update m.mem p (Function.update (m.mem p) o b) p = Function.update (m.mem p) o b :=
      Function.update_self _ _ _
    have hbyte : Function.update m.mem p (Function.update (m.mem p) o b) p o = b := by rw [hpage, Function.update_self]
    exact hbyte

lemma free_booted : booted.pages.free = pagingPages := by
  have hall : ∀ n, Nat.count (fun i => booted.pages.memMap (lowMem + i) = 0) n = n := by
    intro n
    induction n with
    | zero => rfl
    | succ n ih =>
      have hzero : booted.pages.memMap (lowMem + n) = 0 := rfl
      rw [Nat.count_succ, ih, if_pos hzero]
  exact hall _

/-- Process 0 has made process 1: a page of the kernel is in the memory of both. -/
lemma booted_fork : ∃ s₁ u, booted.copyProcess 1 (plainTask 0 0 0xA0000) 1 = .ok (s₁, 1) ∧
    Forked booted 0 1 (plainTask 0 0 0xA0000) s₁ ∧ s₁.task 1 = some u ∧ u.phase = .alive ∧ u.dataLimit = 0xA0000 ∧
    (u.place 409600).1.val = 16 ∧ s₁.pages.mapped (u.place 409600) = some 100 := by
  have hinit := booted_booted.init
  have ht : booted.task 0 = some (plainTask 0 0 0xA0000) := rfl
  have hp := hinit.1.placed 0 _ ht
  have ha : 409600 < (plainTask 0 0 0xA0000).dataLimit := by decide
  have henough : booted.pages.tables (16 * (0 : Fin 64).val) (tablesFor 0xA0000) < booted.pages.free := by
    have hle := tables_le booted.pages (16 * (0 : Fin 64).val) (tablesFor 0xA0000)
    have hone : tablesFor 0xA0000 = 1 := by decide
    rw [free_booted]
    dsimp only [pagingPages, highMemory, lowMem]
    omega
  have hnr : (1 : Fin 64) ≠ 0 := by decide
  rcases copyProcess_spec hinit.1 1 ht hnr rfl with ⟨_, _, _, hle⟩ | ⟨s₁, hrun, hf, _⟩
  · exact absurd henough (not_lt.mpr hle)
  obtain ⟨u, hbase, hlimit, halive, htask⟩ := hf.child
  have hchild : s₁.task 1 = some u := by rw [htask, Function.update_self]
  -- the page of the kernel with number 100, at the same address of both
  obtain ⟨_, hwalk₀, _⟩ := hinit.1.kernel_place hp ha
  have hrow := hp.row_place ha
  obtain ⟨hfst, hsnd⟩ := hp.child_place hbase ha
  have hentry : (u.place 409600).2.val = 100 := by
    rw [hsnd]
    decide
  refine ⟨s₁, u, hrun, hf, hchild, halive, hlimit, hfst, ?_⟩
  rw [hf.copied _ (u.place 409600) hrow.2 (by rw [hfst, hrow.1]; omega) hsnd, hwalk₀, ← hsnd, hentry]
  rfl

/-- A page of the kernel is in the memories of process 0 and of its child, and process 0 stores to it. -/
theorem kernel_pages_shared : ¬∀ w, (watched reads).Reach (fun w e => Verifies w.machine e) w →
    ∀ i a v b, w.machine.reads i a = some v → w.view i a = some b → v = b := by
  intro hall
  have hinit := booted_booted.init
  have ht : booted.task 0 = some (plainTask 0 0 0xA0000) := rfl
  have ha : 409600 < (plainTask 0 0 0xA0000).dataLimit := by decide
  have hnr : (1 : Fin 64) ≠ 0 := by decide
  obtain ⟨s₁, u, hrun, hf, hchild, halive, hlimit, hdir, hmapped⟩ := booted_fork
  have hparent : s₁.task 0 = some (plainTask 0 0 0xA0000) := by
    obtain ⟨_, _, _, _, htask⟩ := hf.child
    rw [htask, Function.update_of_ne hnr.symm, ht]
  obtain ⟨_, hwalk, hw⟩ := hf.sound.kernel_place (hf.sound.placed 0 _ hparent) ha
  obtain ⟨_, hwalk₀, _⟩ := hinit.1.kernel_place (hinit.1.placed 0 _ ht) ha
  obtain ⟨p, htable, hlink⟩ := mapped_eq_some.mp hmapped
  have hp₁ := (hf.sound.counted.table_range _ _ htable).1
  have hstart : (watched reads).Reach (fun w e => Verifies w.machine e) ⟨booted, booted.reads⟩ := .start ⟨hinit, rfl⟩
  have hok : Verifies booted (.fork 0 1 1) := trivial
  have hfork := reach_after hstart hok (MachineStep.fork ht rfl hnr rfl hrun)
  have hstep := MachineStep.store (b := 1) (s := (s₁.enter 0).enter 1) (c := 0) hparent rfl ha hwalk hw
  have hok' : Verifies ((s₁.enter 0).enter 1) (.store 0 409600 1) := trivial
  have hreach := reach_after hfork hok' hstep
  have hold : booted.reads 0 409600 = some 0 := by
    rw [reads, ht, Option.bind_some, if_pos ⟨rfl, ha⟩, hwalk₀]
    rfl
  have hsame := hall _ hreach 1 409600 1 0 ?_ ?_
  · cases hsame
  · have hlow : (100 : ℕ) ≠ 0 := by decide
    have hpage : ∀ q, s₁.pages.link 0 (u.place 409600).1 = some q → q ≠ 100 := by
      intro q hq
      rw [← link_of_table (by omega), htable, Option.some.injEq] at hq
      dsimp only [lowMem] at hp₁
      omega
    obtain ⟨hafter, hbyte⟩ := walk_store (o := 0) (b := 1) hwalk hlow hpage
    have hread : (s₁.pages.store ((plainTask 0 0 0xA0000).place 409600) 0 1).walk (u.place 409600) = some 100 :=
      hafter.trans ((walk_eq_mapped (by omega)).trans hmapped)
    have hin : 409600 < u.dataLimit := by rw [hlimit]; exact ha
    have hvalue := reads_of_walk (s := { (s₁.enter 0).enter 1 with
      pages := s₁.pages.store ((plainTask 0 0 0xA0000).place 409600) 0 1 }) hchild halive hin hread
    exact hvalue.trans (congrArg some hbyte)
  · have hsome : ((s₁.enter 0).enter 1).task 1 = some u := hchild
    have hview : effect ((s₁.enter 0).enter 1) booted.reads (.fork 0 1 1) 1 = booted.reads 0 := by
      rw [effect, hsome, Option.isSome_some, if_pos rfl, Function.update_self]
    have hforked : (Watched.after reads ⟨booted, booted.reads⟩ (.fork 0 1 1) ((s₁.enter 0).enter 1)).view 1 409600 =
        some 0 := by
      change (effect ((s₁.enter 0).enter 1) booted.reads (.fork 0 1 1) 1 409600).or _ = some 0
      rw [hview, hold]
      rfl
    generalize Watched.after reads ⟨booted, booted.reads⟩ (.fork 0 1 1) ((s₁.enter 0).enter 1) = w₁ at hforked
    have heffect : ∀ s', effect s' w₁.view (.store 0 409600 1) 1 = w₁.view 1 :=
      fun _ => Function.update_of_ne hnr _ _
    change (effect _ w₁.view (.store 0 409600 1) 1 409600).or _ = some 0
    rw [heffect, hforked]
    rfl

end Kernel

end Machine

end Devos.Mm
