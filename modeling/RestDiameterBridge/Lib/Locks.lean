import Mathlib.Data.Set.Insert
import RestDiameterBridge.Lib.Transition

/-!
# RestDiameterBridge.Lib.Locks

Tasks that take locks and give them back.

The program of a task is a list of actions, of which the state keeps what is left to do
(`Tasks.Sound` says that it also tells which locks a task holds). A set of tasks is
deadlocked if each of them holds a lock and waits for one that another of them holds. With
two locks there is then a pair that waits for each other (`free_iff`), and `always_free_iff`
says in which steps such a pair comes about. Where all programs take the locks in one order
there is none (`always_free_of_ordered`).
-/

namespace Locks

inductive Action (κ : Type)
  | acquire (lock : κ)
  | release (lock : κ)

section
variable {κ : Type}

/-- What is done while the guard of a lock lives. -/
def guarded (lock : κ) (actions : List (Action κ)) : List (Action κ) :=
  .acquire lock :: (actions ++ [.release lock])

/-- The lock that a program asks for next. -/
def asks : List (Action κ) → Option κ
  | .acquire lock :: _ => some lock
  | _ => none

theorem eq_acquire_of_asks {actions : List (Action κ)} {k : κ} (h : asks actions = some k) :
    ∃ rest, actions = .acquire k :: rest := by
  unfold asks at h
  split at h
  · obtain rfl := Option.some.inj h
    exact ⟨_, rfl⟩
  · cases h

variable [DecidableEq κ]

/-- The program gives the lock back before it asks for it: its task holds the lock. -/
def owes : List (Action κ) → κ → Bool
  | [], _ => false
  | .acquire lock :: rest, k => if lock = k then false else owes rest k
  | .release lock :: rest, k => if lock = k then true else owes rest k

/-- Every lock that is taken is given back, and none is asked for between giving back one lock
and another. -/
def Proper : List (Action κ) → Prop
  | [] => True
  | .acquire lock :: rest => owes rest lock = true ∧ Proper rest
  | .release lock :: rest =>
      owes rest lock = false ∧ ((asks rest).isSome = true → ∀ k, owes rest k = false) ∧ Proper rest

theorem owes_of_asks {actions : List (Action κ)} {k : κ} (h : asks actions = some k) :
    owes actions k = false := by
  obtain ⟨rest, rfl⟩ := eq_acquire_of_asks h
  exact if_pos rfl

/-- A lock is only asked for by a task that holds none of a higher or the same rank. -/
def Ordered (rank : κ → Nat) : List (Action κ) → Prop
  | [] => True
  | .acquire lock :: rest =>
      (∀ k, owes (.acquire lock :: rest) k = true → rank k < rank lock) ∧ Ordered rank rest
  | .release _ :: rest => Ordered rank rest

end

/-- Who holds a lock, and what the tasks have left to do. -/
structure Tasks (κ τ : Type) where
  holder : κ → Option τ
  todo : τ → List (Action κ)

/-- A task begins a program, or does its next action. -/
inductive Label (τ ι : Type)
  | start (task : τ) (i : ι)
  | advance (task : τ)

def Label.task {τ ι : Type} : Label τ ι → τ
  | start task _ | advance task => task

namespace Tasks

section
variable {κ τ : Type} {s : Tasks κ τ}

/-- Each task of the set holds a lock and waits for one that another of them holds. -/
def Deadlocked (s : Tasks κ τ) (group : Set τ) : Prop :=
  group.Nonempty ∧ ∀ t ∈ group, (∃ k, s.holder k = some t) ∧
    ∃ k, asks (s.todo t) = some k ∧ ∃ u ∈ group, u ≠ t ∧ s.holder k = some u

/-- No set of tasks is deadlocked. -/
def Free (s : Tasks κ τ) : Prop := ∀ group, ¬s.Deadlocked group

/-- Nobody holds or does anything. -/
def idle : Tasks κ τ where
  holder _ := none
  todo _ := []

theorem free_idle : (idle : Tasks κ τ).Free := by
  intro group hdeadlocked
  obtain ⟨⟨t, ht⟩, hall⟩ := hdeadlocked
  obtain ⟨⟨k, hk⟩, -⟩ := hall t ht
  cases hk

/-- Each of the two tasks holds the lock that the other one waits for. -/
def Crossing (s : Tasks κ τ) (t u : τ) : Prop :=
  t ≠ u ∧ ∃ k l, s.holder k = some t ∧ asks (s.todo t) = some l ∧ s.holder l = some u ∧
    asks (s.todo u) = some k

theorem Crossing.symm {t u : τ} (h : s.Crossing t u) : s.Crossing u t := by
  obtain ⟨hne, k, l, hk, hl, hl', hk'⟩ := h
  exact ⟨hne.symm, l, k, hl', hk', hk, hl⟩

theorem Crossing.deadlocked {t u : τ} (h : s.Crossing t u) : s.Deadlocked {t, u} := by
  obtain ⟨hne, k, l, hk, hl, hl', hk'⟩ := h
  refine ⟨⟨t, .inl rfl⟩, ?_⟩
  rintro v (rfl | rfl)
  · exact ⟨⟨k, hk⟩, l, hl, u, .inr rfl, hne.symm, hl'⟩
  · exact ⟨⟨l, hl'⟩, k, hk', t, .inl rfl, hne, hk⟩

/-- With two locks, a deadlock is one of two tasks. -/
theorem free_iff (htwo : ∀ a b c : κ, a ≠ b → c = a ∨ c = b) :
    s.Free ↔ ∀ t u, ¬s.Crossing t u := by
  constructor
  · exact fun hfree t u hcrossing => hfree _ hcrossing.deadlocked
  · intro hnone group hdeadlocked
    obtain ⟨⟨t, ht⟩, hall⟩ := hdeadlocked
    obtain ⟨⟨k, hk⟩, l, hl, u, hu, hne, hl'⟩ := hall t ht
    obtain ⟨-, m, hm, v, -, hvu, hm'⟩ := hall u hu
    have hlk : l ≠ k := by
      rintro rfl
      exact hne (Option.some.inj (hl'.symm.trans hk))
    have hml : m ≠ l := by
      rintro rfl
      exact hvu (Option.some.inj (hm'.symm.trans hl'))
    -- the lock `u` waits for is the one `t` holds
    obtain rfl : m = k := (htwo l k m hlk).resolve_left hml
    exact hnone t u ⟨hne.symm, m, l, hk, hl, hl', hm⟩

end

section
variable {κ τ : Type} [DecidableEq κ]

/-- The tasks hold what they will give back. -/
def Sound (s : Tasks κ τ) : Prop :=
  ∀ t, Proper (s.todo t) ∧ ∀ k, s.holder k = some t ↔ owes (s.todo t) k = true

theorem sound_idle : (idle : Tasks κ τ).Sound :=
  fun _ => ⟨trivial, fun _ => iff_of_false (by simp [idle]) (by simp [idle, owes])⟩

theorem Sound.lt_of_ordered {rank : κ → Nat} {s : Tasks κ τ} (hs : s.Sound)
    (hordered : ∀ t, Ordered rank (s.todo t)) {t : τ} {k l : κ} (hk : s.holder k = some t)
    (hl : asks (s.todo t) = some l) : rank k < rank l := by
  have hnext := hordered t
  have howes := ((hs t).2 k).mp hk
  obtain ⟨rest, htodo⟩ := eq_acquire_of_asks hl
  rw [htodo] at hnext howes
  exact hnext.1 k howes

end

section
variable {κ τ ι : Type} [DecidableEq κ] [DecidableEq τ]

/-- One step. A lock is taken when nobody holds it. -/
def step (program : ι → List (Action κ)) (s : Tasks κ τ) : Label τ ι → Option (Tasks κ τ)
  | .start t i =>
      match s.todo t with
      | [] => some { s with todo := Function.update s.todo t (program i) }
      | _ :: _ => none
  | .advance t =>
      match s.todo t with
      | [] => none
      | .acquire k :: rest =>
          match s.holder k with
          | none =>
              some { holder := Function.update s.holder k (some t)
                     todo := Function.update s.todo t rest }
          | some _ => none
      | .release k :: rest =>
          some { holder := Function.update s.holder k none
                 todo := Function.update s.todo t rest }

/-- The task takes a lock, and will wait for another one whose holder waits for the lock. -/
def CrossesAt (s : Tasks κ τ) : Label τ ι → Prop
  | .start .. => False
  | .advance t =>
      ∃ k l rest u, s.todo t = .acquire k :: rest ∧ asks rest = some l ∧ s.holder l = some u ∧
        asks (s.todo u) = some k

variable {program : ι → List (Action κ)} {s s' : Tasks κ τ} {label : Label τ ι}

/-- What a step does. -/
inductive Moves (program : ι → List (Action κ)) (s : Tasks κ τ) : Label τ ι → Tasks κ τ → Prop
  | start {t : τ} {i : ι} (htodo : s.todo t = []) :
      Moves program s (.start t i) { s with todo := Function.update s.todo t (program i) }
  | acquire {t : τ} {k : κ} {rest : List (Action κ)} (htodo : s.todo t = .acquire k :: rest)
      (hfree : s.holder k = none) :
      Moves program s (.advance t)
        { holder := Function.update s.holder k (some t), todo := Function.update s.todo t rest }
  | release {t : τ} {k : κ} {rest : List (Action κ)} (htodo : s.todo t = .release k :: rest) :
      Moves program s (.advance t)
        { holder := Function.update s.holder k none, todo := Function.update s.todo t rest }

theorem moves_of_step (h : step program s label = some s') : Moves program s label s' := by
  cases label with
  | start t i =>
    simp only [step] at h
    split at h
    · rename_i htodo
      obtain rfl := Option.some.inj h
      exact .start htodo
    · cases h
  | advance t =>
    simp only [step] at h
    split at h
    · cases h
    · rename_i k rest htodo
      split at h
      · rename_i hfree
        obtain rfl := Option.some.inj h
        exact .acquire htodo hfree
      · cases h
    · rename_i k rest htodo
      obtain rfl := Option.some.inj h
      exact .release htodo

/-- A task goes on, and one lock changes hands with it. -/
theorem Sound.change (hs : s.Sound) {t : τ} {k : κ} {rest : List (Action κ)} {holder : Option τ}
    (hproper : Proper rest) (hk : ∀ u, holder = some u ↔ u = t ∧ owes rest k = true)
    (hsame : ∀ l, l ≠ k → owes rest l = owes (s.todo t) l)
    (hothers : ∀ u, u ≠ t → owes (s.todo u) k = false) :
    Sound { holder := Function.update s.holder k holder, todo := Function.update s.todo t rest } := by
  intro u
  dsimp only
  by_cases hu : u = t
  · subst hu
    rw [Function.update_self]
    refine ⟨hproper, fun l => ?_⟩
    by_cases hl : l = k
    · subst hl
      rw [Function.update_self, hk]
      exact and_iff_right rfl
    · rw [Function.update_of_ne hl, hsame l hl]
      exact (hs u).2 l
  · rw [Function.update_of_ne hu]
    refine ⟨(hs u).1, fun l => ?_⟩
    by_cases hl : l = k
    · subst hl
      rw [Function.update_self, hk, hothers u hu]
      simp [hu]
    · rw [Function.update_of_ne hl]
      exact (hs u).2 l

theorem Sound.move (hprogram : ∀ i, Proper (program i) ∧ ∀ k, owes (program i) k = false)
    (hs : s.Sound) (h : Moves program s label s') : s'.Sound := by
  cases h with
  | @start t i htodo =>
    intro u
    dsimp only
    by_cases hu : u = t
    · subst hu
      rw [Function.update_self]
      refine ⟨(hprogram i).1, fun k => ?_⟩
      rw [(hs u).2 k, htodo, (hprogram i).2 k]
      rfl
    · rw [Function.update_of_ne hu]
      exact hs u
  | @acquire t k rest htodo hfree =>
    have hproper := (hs t).1
    rw [htodo] at hproper
    refine hs.change hproper.2 (fun u => ?_) (fun l hl => ?_) (fun u _ => ?_)
    · rw [Option.some.injEq, and_iff_left hproper.1, eq_comm]
    · rw [htodo, owes, if_neg hl.symm]
    · have hheld := (hs u).2 k
      rw [hfree] at hheld
      simpa using hheld
  | @release t k rest htodo =>
    have hproper := (hs t).1
    rw [htodo] at hproper
    refine hs.change hproper.2.2 (fun u => ?_) (fun l hl => ?_) (fun u hu => ?_)
    · simp [hproper.1]
    · rw [htodo, owes, if_neg hl.symm]
    · have hheld := (hs t).2 k
      rw [htodo, owes, if_pos rfl] at hheld
      have hother := (hs u).2 k
      rw [hheld.mpr rfl] at hother
      simpa [Ne.symm hu] using hother

/-- The other tasks hold no more than before, and wait for the same. -/
theorem Moves.others (h : Moves program s label s') {u : τ} (hu : u ≠ label.task) :
    s'.todo u = s.todo u ∧ ∀ k, s'.holder k = some u → s.holder k = some u := by
  cases h with
  | start => exact ⟨Function.update_of_ne hu .., fun _ hk => hk⟩
  | @acquire t k =>
    refine ⟨Function.update_of_ne hu .., fun l hl => ?_⟩
    dsimp only at hl
    by_cases heq : l = k
    · subst heq
      rw [Function.update_self] at hl
      exact absurd (Option.some.inj hl).symm hu
    · rwa [Function.update_of_ne heq] at hl
  | @release t k =>
    refine ⟨Function.update_of_ne hu .., fun l hl => ?_⟩
    dsimp only at hl
    by_cases heq : l = k
    · subst heq
      rw [Function.update_self] at hl
      cases hl
    · rwa [Function.update_of_ne heq] at hl

/-- The task that moves comes to wait for one that waits for it only by crossing. -/
theorem Moves.crossesAt (htwo : ∀ a b c : κ, a ≠ b → c = a ∨ c = b) (hs : s.Sound)
    (h : Moves program s label s') {u : τ} (hcrossing : s'.Crossing label.task u) :
    s.CrossesAt label := by
  obtain ⟨hne, k', l, hk', hl, hl', hwaits⟩ := hcrossing
  have hothers := h.others hne.symm
  rw [hothers.1] at hwaits
  replace hl' := hothers.2 l hl'
  cases h with
  | @start t i htodo =>
    -- it holds nothing yet
    have hheld := ((hs t).2 k').mp hk'
    rw [htodo] at hheld
    cases hheld
  | @acquire t k rest htodo hfree =>
    simp only [Label.task, Function.update_self] at hl hk'
    have hlk : l ≠ k := by
      rintro rfl
      rw [hfree] at hl'
      cases hl'
    have hk'l : k' ≠ l := by
      rintro rfl
      rw [Function.update_of_ne hlk] at hk'
      exact hne (Option.some.inj (hk'.symm.trans hl'))
    obtain rfl : k' = k := (htwo l k k' hlk).resolve_left hk'l
    exact ⟨k', l, rest, u, htodo, hl, hl', hwaits⟩
  | @release t k rest htodo =>
    simp only [Label.task, Function.update_self] at hl hk'
    have hproper := (hs t).1
    rw [htodo] at hproper
    have hk'k : k' ≠ k := by
      rintro rfl
      rw [Function.update_self] at hk'
      cases hk'
    rw [Function.update_of_ne hk'k] at hk'
    have hheld := ((hs t).2 k').mp hk'
    rw [htodo, owes, if_neg hk'k.symm, hproper.2.1 (Option.isSome_of_eq_some hl) k'] at hheld
    cases hheld

/-- A step from a state without a crossing leads to one exactly if it crosses. -/
theorem exists_crossing_iff (htwo : ∀ a b c : κ, a ≠ b → c = a ∨ c = b) (hs : s.Sound)
    (hnone : ∀ t u, ¬s.Crossing t u) (h : Moves program s label s') :
    (∃ t u, s'.Crossing t u) ↔ s.CrossesAt label := by
  constructor
  · intro hexists
    obtain ⟨t, u, hcrossing⟩ := hexists
    by_cases ht : t = label.task
    · exact h.crossesAt htwo hs (ht ▸ hcrossing)
    · by_cases hu : u = label.task
      · exact h.crossesAt htwo hs (hu ▸ hcrossing.symm)
      · obtain ⟨hne, k, l, hk, hl, hl', hk'⟩ := hcrossing
        have htOthers := h.others ht
        have huOthers := h.others hu
        rw [htOthers.1] at hl
        rw [huOthers.1] at hk'
        exact absurd ⟨hne, k, l, htOthers.2 k hk, hl, huOthers.2 l hl', hk'⟩ (hnone t u)
  · intro hcrosses
    cases h with
    | start => exact hcrosses.elim
    | @acquire t k rest htodo hfree =>
      obtain ⟨k', l, rest', u, htodo', hl, hl', hwaits⟩ := hcrosses
      obtain ⟨rfl, rfl⟩ : k = k' ∧ rest = rest' := by
        simpa using htodo.symm.trans htodo'
      have hlk : l ≠ k := by
        rintro rfl
        rw [hfree] at hl'
        cases hl'
      have hut : u ≠ t := by
        rintro rfl
        have hheld := ((hs u).2 l).mp hl'
        rw [htodo, owes, if_neg hlk.symm, owes_of_asks hl] at hheld
        cases hheld
      refine ⟨t, u, hut.symm, k, l, Function.update_self .., ?_, ?_, ?_⟩
      · dsimp only
        rwa [Function.update_self]
      · dsimp only
        rwa [Function.update_of_ne hlk]
      · dsimp only
        rwa [Function.update_of_ne hut]
    | @release t k rest htodo =>
      obtain ⟨k', l, rest', u, htodo', -⟩ := hcrosses
      rw [htodo] at htodo'
      cases htodo'

/-- **Deadlocks of two locks.** No state of a run has a deadlock exactly if none of its steps
takes a lock to wait for another one whose holder waits for the first. -/
theorem always_free_iff (htwo : ∀ a b c : κ, a ≠ b → c = a ∨ c = b)
    (hprogram : ∀ i, Proper (program i) ∧ ∀ k, owes (program i) k = false)
    (run : List (Label τ ι)) :
    Transition.Always (step program) (fun _ _ t => t.Free) idle run ↔
      Transition.Always (step program) (fun s label _ => ¬s.CrossesAt label) idle run := by
  let Apart (s : Tasks κ τ) : Prop := s.Sound ∧ ∀ t u, ¬s.Crossing t u
  have hidle : Apart idle := by
    refine ⟨sound_idle, fun t u hcrossing => ?_⟩
    obtain ⟨-, k, -, hk, -⟩ := hcrossing
    cases hk
  have hfree : ∀ {s s' : Tasks κ τ} {label : Label τ ι}, Apart s → step program s label = some s' →
      ((∀ t u, ¬s'.Crossing t u) ↔ ¬s.CrossesAt label) := by
    intro s s' label hs hstep
    rw [← exists_crossing_iff htwo hs.1 hs.2 (moves_of_step hstep)]
    simp only [not_exists]
  refine Transition.always_congr (I := Apart) ?_ ?_ hidle
  · intro s label s' hs hno hstep
    exact ⟨hs.1.move hprogram (moves_of_step hstep), (hfree hs hstep).mpr hno⟩
  · intro s label s' hs hstep
    exact (free_iff htwo).trans (hfree hs hstep)

theorem ordered_move {rank : κ → Nat} (hprogram : ∀ i, Ordered rank (program i))
    (hs : ∀ t, Ordered rank (s.todo t)) (h : Moves program s label s') (t : τ) :
    Ordered rank (s'.todo t) := by
  by_cases ht : t = label.task
  · subst ht
    have hordered := hs label.task
    cases h with
    | start =>
      dsimp only [Label.task]
      rw [Function.update_self]
      exact hprogram _
    | acquire htodo =>
      dsimp only [Label.task] at hordered ⊢
      rw [htodo] at hordered
      rw [Function.update_self]
      exact hordered.2
    | release htodo =>
      dsimp only [Label.task] at hordered ⊢
      rw [htodo] at hordered
      rw [Function.update_self]
      exact hordered
  · rw [(h.others ht).1]
    exact hs t

/-- **Lock order.** Programs that take the locks in one order never deadlock. -/
theorem always_free_of_ordered (htwo : ∀ a b c : κ, a ≠ b → c = a ∨ c = b)
    (hprogram : ∀ i, Proper (program i) ∧ ∀ k, owes (program i) k = false) {rank : κ → Nat}
    (hordered : ∀ i, Ordered rank (program i)) (run : List (Label τ ι)) :
    Transition.Always (step program) (fun _ _ t => t.Free) idle run := by
  let Keeps (s : Tasks κ τ) : Prop := s.Sound ∧ ∀ t, Ordered rank (s.todo t)
  have hmove : ∀ {s s' : Tasks κ τ} {label : Label τ ι}, Keeps s →
      step program s label = some s' → Keeps s' := by
    intro s s' label hs hstep
    exact ⟨hs.1.move hprogram (moves_of_step hstep),
      ordered_move hordered hs.2 (moves_of_step hstep)⟩
  refine Transition.always_of_invariant (I := Keeps) hmove (fun hs hstep => ?_)
    ⟨sound_idle, fun _ => trivial⟩
  obtain ⟨hsound, hranks⟩ := hmove hs hstep
  rw [free_iff htwo]
  intro t u hcrossing
  obtain ⟨-, k, l, hk, hl, hl', hk'⟩ := hcrossing
  exact Nat.lt_asymm (hsound.lt_of_ordered hranks hk hl) (hsound.lt_of_ordered hranks hl' hk')

end

end Tasks

end Locks
