import RestDiameterBridge.Lib.Sweep

/-!
# RestDiameterBridge.Lib.SharedSweep

A swept store that many tasks share.

To ask whether a sweep is due, to sweep and to put something in are steps of their own here, and
other tasks take theirs between them. So a sweep that has been decided on can be waiting while
others put in more, and they do not sweep, because the next sweep has been put off already.

`Guarded` says that whoever puts something in has asked before, and swept if it was told to;
`prompt` that it has needed no longer than a `delay` for that. Then what is there when a sweep is
decided on has been put in within one window of time, and only a `delay` is left for more until
it is over: `Steps.length_le`.
-/

namespace Sweep

/-- A step on the store. -/
inductive Op (κ : Type)
  /-- Ask whether a sweep is due, with a reading of the clock. -/
  | ask (reading : Nat) (due : Bool)
  | sweep
  | put (k : κ)

/-- When steps are taken, whose they are and what they do, if anything, and the limit of what is
put in. -/
structure Steps (ε ι κ : Type) where
  time : ε → Nat
  owner : ε → ι
  op : ε → Option (Op κ)
  limit : ε → Nat

variable {ε ι κ : Type} {interval life delay reading now : Nat} {s s' : Store κ}

/-- A sweep is due, and the next one is put off. -/
structure Begins (interval reading : Nat) (s s' : Store κ) : Prop where
  due_le : s.due ≤ reading
  keys : s'.keys ⊆ s.keys
  limit : ∀ k ∈ s'.keys, s'.limit k = s.limit k
  due : s'.due = reading + interval

/-- What is past its limit goes, without asking. -/
structure Clears (now : Nat) (s s' : Store κ) : Prop where
  drops : Drops s s'
  fresh : ∀ k ∈ s'.keys, ∀ t, s'.limit k = some t → now ≤ t

namespace Steps

variable (S : Steps ε ι κ)

/-- What a step does to the store. -/
def Does (interval : Nat) (e : ε) (s s' : Store κ) : Prop :=
  match S.op e with
  | some (.ask reading true) => Begins interval reading s s'
  | some (.ask reading false) => reading < s.due ∧ Drops s s'
  | some .sweep => Clears (S.time e) s s'
  | some (.put k) => Puts k (some (S.limit e)) s s'
  | none => Drops s s'

/-- The steps have made the store out of an empty one; the last was at the given time. -/
inductive Make (interval start : Nat) : List ε → Nat → Store κ → Prop
  | nil {s : Store κ} : s.keys = [] → s.due = start + interval → Make interval start [] start s
  | snoc {events : List ε} {now : Nat} {s s' : Store κ} {e : ε} :
      Make interval start events now s → now ≤ S.time e → S.Does interval e s s' →
      Make interval start (events ++ [e]) (S.time e) s'

/-- The key that is put in. -/
def key (e : ε) : Option κ :=
  match S.op e with
  | some (.put k) => some k
  | _ => none

/-- When something was put in. -/
def putTimes (events : List ε) : List Nat := (events.filter fun e => (S.key e).isSome).map S.time

variable [DecidableEq ι]

/-- What an owner has done. -/
def own (o : ι) (events : List ε) : List (Op κ) :=
  (events.filter fun e => S.owner e = o).filterMap S.op

/-- The owner puts something in before anything is later than the limit. -/
def soon (o : ι) (limit : Nat) : List ε → Bool
  | [] => true
  | e :: events =>
      S.time e ≤ limit && (S.owner e = o && (S.key e).isSome || soon o limit events)

/-- Whoever has asked puts something in within a delay. -/
def prompt (delay : Nat) : List ε → Bool
  | [] => true
  | e :: events =>
      (match S.op e with
        | some (.ask reading _) => S.soon (S.owner e) (reading + delay) events
        | _ => true) && prompt delay events

/-- Before an owner puts something in, it asks, and sweeps if it is told to. -/
def Guarded (events : List ε) : Prop :=
  ∀ before e after, events = before ++ e :: after → (S.key e).isSome →
    ∃ reading, S.own (S.owner e) before = [.ask reading false] ∨
      S.own (S.owner e) before = [.ask reading true, .sweep]

end Steps

/-- No more than `n` of the times are within any window. -/
def Within (width n : Nat) (times : List Nat) : Prop :=
  ∀ t, (times.filter fun u => t ≤ u ∧ u ≤ t + width).length ≤ n

namespace Steps

variable {S : Steps ε ι κ} {events before middle after : List ε} {e a : ε} {k : κ} {o : ι}

theorem key_eq_some : S.key e = some k ↔ S.op e = some (.put k) := by
  unfold key
  split
  · rename_i h
    simp [h]
  · rename_i h
    simpa using fun heq => h k heq

/-! ### Promptness -/

section
variable [DecidableEq ι]

theorem own_append : S.own o (before ++ after) = S.own o before ++ S.own o after := by
  simp [own]

theorem own_cons : S.own (S.owner e) (e :: after) = (S.op e).toList ++ S.own (S.owner e) after := by
  cases h : S.op e <;> simp [own, h]

/-- What comes too late comes after the owner has put something in. -/
theorem exists_put_of_soon {limit : Nat} (h : S.soon o limit (middle ++ e :: after) = true)
    (hlate : limit < S.time e) : ∃ b ∈ middle, S.owner b = o ∧ (S.key b).isSome := by
  induction middle with
  | nil =>
    simp [soon] at h
    omega
  | cons b middle ih =>
    simp only [List.cons_append, soon, Bool.and_eq_true, Bool.or_eq_true, decide_eq_true_eq] at h
    rcases h.2 with ⟨howner, hput⟩ | hsoon
    · exact ⟨b, List.mem_cons_self, howner, hput⟩
    · obtain ⟨b', hb', hfound⟩ := ih hsoon
      exact ⟨b', List.mem_cons_of_mem _ hb', hfound⟩

theorem prompt_of_append (h : S.prompt delay (before ++ after) = true) :
    S.prompt delay after = true := by
  induction before with
  | nil => exact h
  | cons e before ih =>
    simp only [List.cons_append, prompt, Bool.and_eq_true] at h
    exact ih h.2

/-- What comes later than a delay after somebody has asked comes after that one has put something
in. -/
theorem exists_put {due : Bool} (h : S.prompt delay events = true)
    (hevents : events = before ++ a :: (middle ++ e :: after))
    (ha : S.op a = some (.ask reading due)) (hlate : reading + delay < S.time e) :
    ∃ b ∈ middle, S.owner b = S.owner a ∧ (S.key b).isSome := by
  have hrest := prompt_of_append (hevents ▸ h)
  simp only [prompt, ha, Bool.and_eq_true] at hrest
  exact exists_put_of_soon hrest.1 hlate

end

/-- The steps are in time: what is put in comes soon after it was asked whether to sweep, and a
sweep that is due is soon over. -/
structure Timely (S : Steps ε ι κ) (life delay : Nat) (events : List ε) : Prop where
  limit : ∀ e ∈ events, (S.key e).isSome → S.limit e ≤ S.time e + life
  reading : ∀ e ∈ events, ∀ r due, S.op e = some (.ask r due) → r ≤ S.time e
  asked : ∀ before e after, events = before ++ e :: after → (S.key e).isSome →
    ∃ a ∈ before, ∃ r due, S.op a = some (.ask r due) ∧ S.time e ≤ r + delay
  swept : ∀ before a middle e after r, events = before ++ a :: (middle ++ e :: after) →
    S.op a = some (.ask r true) → r + delay < S.time e → ∃ b ∈ middle, S.op b = some .sweep

theorem timely [DecidableEq ι] (hguarded : S.Guarded events) (hprompt : S.prompt delay events = true)
    (hlimit : ∀ e ∈ events, (S.key e).isSome → S.limit e ≤ S.time e + life)
    (hreading : ∀ e ∈ events, ∀ r due, S.op e = some (.ask r due) → r ≤ S.time e) :
    S.Timely life delay events := by
  refine ⟨hlimit, hreading, fun before e after hevents hput => ?_,
    fun before a middle e after r hevents ha hlate => ?_⟩
  · obtain ⟨r, hown⟩ := hguarded before e after hevents hput
    obtain ⟨due, hasked⟩ : ∃ due, Op.ask r due ∈ S.own (S.owner e) before := by
      rcases hown with hown | hown <;> exact ⟨_, by rw [hown]; exact List.mem_cons_self⟩
    obtain ⟨a, ha, hop⟩ := List.mem_filterMap.mp hasked
    obtain ⟨hmem, howner⟩ := List.mem_filter.mp ha
    refine ⟨a, hmem, r, due, hop, ?_⟩
    by_contra hlate
    obtain ⟨first, middle, rfl⟩ := List.append_of_mem hmem
    obtain ⟨b, hb, hsame, hputs⟩ := exists_put hprompt (by simpa using hevents) hop (by omega)
    -- but its owner has put nothing in before
    obtain ⟨k, hk⟩ := Option.isSome_iff_exists.mp hputs
    have hbefore : Op.put k ∈ S.own (S.owner e) (first ++ a :: middle) := by
      refine List.mem_filterMap.mpr ⟨b, List.mem_filter.mpr ⟨by simp [hb], ?_⟩, key_eq_some.mp hk⟩
      rw [hsame]
      exact howner
    rcases hown with hown | hown <;> simp [hown] at hbefore
  · obtain ⟨b, hb, hsame, hput⟩ := exists_put hprompt hevents ha hlate
    obtain ⟨first, last, rfl⟩ := List.append_of_mem hb
    obtain ⟨r', hown⟩ := hguarded (before ++ a :: first) b (last ++ e :: after) (by simp [hevents])
      hput
    rw [hsame, own_append, own_cons, ha] at hown
    have hsweep : Op.sweep ∈ S.own (S.owner a) first := by
      match S.own (S.owner a) before, hown with
      | [], hown =>
        have hrest : r = r' ∧ S.own (S.owner a) first = [.sweep] := by simpa using hown
        simp [hrest.2]
      | [_], hown => simp at hown
      | _ :: _ :: _, hown => simp at hown
    obtain ⟨c, hc, hop⟩ := List.mem_filterMap.mp hsweep
    exact ⟨c, by simp [(List.mem_filter.mp hc).1], hop⟩

theorem Timely.of_append {later : List ε} (h : S.Timely life delay (events ++ later)) :
    S.Timely life delay events where
  limit e he := h.limit e (List.mem_append_left _ he)
  reading e he := h.reading e (List.mem_append_left _ he)
  asked before e after hevents := h.asked before e (after ++ later) (by simp [hevents])
  swept before a middle e after r hevents :=
    h.swept before a middle e (after ++ later) r (by simp [hevents])

/-! ### What is held -/

/-- The last sweep to be over was decided on at `last`, and one decided on at `pending` is not. -/
structure Lags (S : Steps ε ι κ) (interval life delay : Nat) (events : List ε) (now last : Nat)
    (pending : Option Nat) (s : Store κ) : Prop where
  keys : ∀ k ∈ s.keys, ∃ e ∈ events, S.op e = some (.put k) ∧ s.limit k = some (S.limit e) ∧
    last ≤ S.time e + life ∧ (S.time e ≤ last + interval + delay ∨
      ∃ r ∈ pending, r ≤ S.time e ∧ S.time e ≤ r + delay)
  due : s.due = pending.getD last + interval
  asked : ∀ e ∈ events, ∀ r due, S.op e = some (.ask r due) → r ≤ s.due
  last_le : last ≤ now
  pending : ∀ r ∈ pending, last + interval ≤ r ∧ r ≤ now ∧ ∃ before a after,
    events = before ++ a :: after ∧ S.op a = some (.ask r true) ∧ ∀ b ∈ after, S.op b ≠ some .sweep

namespace Lags

variable {last : Nat} {pending : Option Nat}

/-- As long as a sweep is pending, its delay is not over. -/
theorem le_of_pending (h : S.Lags interval life delay events now last pending s)
    (htimely : S.Timely life delay (events ++ [e])) {r : Nat} (hr : r ∈ pending) :
    S.time e ≤ r + delay := by
  obtain ⟨-, -, before, a, after, rfl, ha, hnone⟩ := h.pending r hr
  by_contra hlate
  obtain ⟨b, hb, hsweep⟩ := htimely.swept before a after e [] r (by simp) ha (by omega)
  exact hnone b hb hsweep

/-- What was asked until now, if the store is due as before. -/
theorem asked_append (h : S.Lags interval life delay events now last pending s)
    (hdue : s'.due = s.due) (hask : ∀ r due, S.op e = some (.ask r due) → r ≤ s.due) :
    ∀ e' ∈ events ++ [e], ∀ r due, S.op e' = some (.ask r due) → r ≤ s'.due := by
  intro e' he' r due hop
  rw [hdue]
  rcases List.mem_append.mp he' with hold | hnew
  · exact h.asked e' hold r due hop
  · obtain rfl := List.mem_singleton.mp hnew
    exact hask r due hop

/-- What is pending stays so, unless a sweep comes. -/
theorem pending_append (h : S.Lags interval life delay events now last pending s)
    (hnow : now ≤ S.time e) (hsweep : S.op e = some .sweep → pending = none) :
    ∀ r ∈ pending, last + interval ≤ r ∧ r ≤ S.time e ∧ ∃ before a after,
      events ++ [e] = before ++ a :: after ∧ S.op a = some (.ask r true) ∧
        ∀ b ∈ after, S.op b ≠ some .sweep := by
  intro r hr
  obtain ⟨hlast, hle, before, a, after, rfl, ha, hnone⟩ := h.pending r hr
  refine ⟨hlast, Nat.le_trans hle hnow, before, a, after ++ [e], by simp, ha, fun b hb => ?_⟩
  rcases List.mem_append.mp hb with hold | hnew
  · exact hnone b hold
  · obtain rfl := List.mem_singleton.mp hnew
    intro hop
    rw [hsweep hop] at hr
    cases hr

/-- Keys go. -/
theorem drop (h : S.Lags interval life delay events now last pending s) (hdrops : Drops s s')
    (hnow : now ≤ S.time e) (hask : ∀ r due, S.op e = some (.ask r due) → r ≤ s.due)
    (hsweep : S.op e = some .sweep → pending = none) :
    S.Lags interval life delay (events ++ [e]) (S.time e) last pending s' := by
  refine ⟨fun k hk => ?_, hdrops.due ▸ h.due, h.asked_append hdrops.due hask,
    Nat.le_trans h.last_le hnow, h.pending_append hnow hsweep⟩
  obtain ⟨e', he', hput, hlimit, hwindow⟩ := h.keys k (hdrops.keys hk)
  exact ⟨e', List.mem_append_left _ he', hput, (hdrops.limit k hk).trans hlimit, hwindow⟩

/-- A sweep is decided on. The one before is over. -/
theorem begins {r : Nat} (h : S.Lags interval life delay events now last pending s)
    (htimely : S.Timely life delay (events ++ [e])) (hdelay : delay < interval)
    (hop : S.op e = some (.ask r true)) (hbegins : Begins interval r s s') (hnow : now ≤ S.time e) :
    S.Lags interval life delay (events ++ [e]) (S.time e) last (some r) s' := by
  have hreading : r ≤ S.time e := htimely.reading e (by simp) r true hop
  have hdue : pending.getD last + interval ≤ r := h.due ▸ hbegins.due_le
  obtain rfl : pending = none := by
    refine Option.eq_none_iff_forall_not_mem.mpr fun r' hr' => ?_
    have hle := h.le_of_pending htimely hr'
    rw [hr', Option.getD_some] at hdue
    omega
  rw [Option.getD_none] at hdue
  refine ⟨fun k hk => ?_, hbegins.due, fun e' he' r' due hop' => ?_, Nat.le_trans h.last_le hnow,
    fun r' hr' => ?_⟩
  · obtain ⟨e', he', hput, hlimit, hlife, hwindow⟩ := h.keys k (hbegins.keys hk)
    exact ⟨e', List.mem_append_left _ he', hput, (hbegins.limit k hk).trans hlimit, hlife,
      .inl (hwindow.resolve_right (by simp))⟩
  · rw [hbegins.due]
    rcases List.mem_append.mp he' with hold | hnew
    · have hle := h.asked e' hold r' due hop'
      rw [h.due, Option.getD_none] at hle
      omega
    · obtain rfl := List.mem_singleton.mp hnew
      rw [hop] at hop'
      cases hop'
      omega
  · obtain rfl := Option.some.inj hr'
    exact ⟨hdue, hreading, events, e, [], rfl, hop, by simp⟩

/-- And is over. -/
theorem clears {r : Nat} (h : S.Lags interval life delay events now last (some r) s)
    (htimely : S.Timely life delay (events ++ [e])) (hop : S.op e = some .sweep)
    (hclears : Clears (S.time e) s s') (hnow : now ≤ S.time e) :
    S.Lags interval life delay (events ++ [e]) (S.time e) r none s' := by
  obtain ⟨hlast, hr, -⟩ := h.pending r rfl
  refine ⟨fun k hk => ?_, hclears.drops.due ▸ h.due,
    h.asked_append hclears.drops.due (by simp [hop]), Nat.le_trans hr hnow, by simp⟩
  obtain ⟨e', he', hput, hlimit, -, hwindow⟩ := h.keys k (hclears.drops.keys hk)
  have hkept : s'.limit k = some (S.limit e') := (hclears.drops.limit k hk).trans hlimit
  have hfresh := hclears.fresh k hk _ hkept
  have hlife := htimely.limit e' (List.mem_append_left _ he') (by simp [key, hput])
  refine ⟨e', List.mem_append_left _ he', hput, hkept, by omega, .inl ?_⟩
  rcases hwindow with hold | ⟨r', hr', -, hnew⟩
  · omega
  · obtain rfl := Option.some.inj hr'
    omega

/-- Something is put in. If no sweep is pending, none was due a delay ago. -/
theorem put (h : S.Lags interval life delay events now last pending s)
    (htimely : S.Timely life delay (events ++ [e])) (hop : S.op e = some (.put k))
    (hputs : Puts k (some (S.limit e)) s s') (hnow : now ≤ S.time e) :
    S.Lags interval life delay (events ++ [e]) (S.time e) last pending s' := by
  have hlast := h.last_le
  refine ⟨fun k' hk' => ?_, hputs.due ▸ h.due, h.asked_append hputs.due (by simp [hop]),
    Nat.le_trans hlast hnow, h.pending_append hnow (by simp [hop])⟩
  by_cases hk : k' = k
  · subst hk
    refine ⟨e, by simp, hop, hputs.new, by omega, ?_⟩
    cases hpending : pending with
    | none =>
      obtain ⟨a, ha, r, due, hask, htime⟩ := htimely.asked events e [] rfl (by simp [key, hop])
      have hle := h.asked a ha r due hask
      rw [h.due, hpending, Option.getD_none] at hle
      exact .inl (by omega)
    | some r =>
      have hr : r ∈ pending := hpending
      have hbegun := (h.pending r hr).2.1
      exact .inr ⟨r, rfl, by omega, h.le_of_pending htimely hr⟩
  · obtain ⟨hmem, hsame⟩ := hputs.old k' hk' hk
    obtain ⟨e', he', hput, hlimit, hwindow⟩ := h.keys k' hmem
    exact ⟨e', List.mem_append_left _ he', hput, hsame.trans hlimit, hwindow⟩

/-- What is held was put in within one of two windows. -/
theorem length_le {n m : Nat} (h : S.Lags interval life delay events now last pending s)
    (hmany : Within (life + interval + delay) n (S.putTimes events))
    (hmore : Within delay m (S.putTimes events)) : s.keys.length ≤ n + m := by
  let window (t width : Nat) : List ε :=
    events.filter fun e => (S.key e).isSome && (t ≤ S.time e ∧ S.time e ≤ t + width)
  have hcount : ∀ t width, (window t width).length =
      ((S.putTimes events).filter fun u => t ≤ u ∧ u ≤ t + width).length := by
    intro t width
    simp [window, putTimes, List.filter_map, List.filter_filter, Function.comp_def, Bool.and_comm]
  have hsubset : s.keys ⊆ (window (last - life) (life + interval + delay) ++
      window (pending.getD 0) delay).filterMap S.key := by
    intro k hk
    obtain ⟨e, he, hput, -, hlife, hwindow⟩ := h.keys k hk
    have hkey : S.key e = some k := key_eq_some.mpr hput
    refine List.mem_filterMap.mpr ⟨e, List.mem_append.mpr ?_, hkey⟩
    rcases hwindow with hold | ⟨r, hr, hfrom, hto⟩
    · refine .inl (List.mem_filter.mpr ⟨he, ?_⟩)
      simp only [hkey, Option.isSome_some, Bool.true_and, decide_eq_true_eq]
      omega
    · refine .inr (List.mem_filter.mpr ⟨he, ?_⟩)
      rw [hr, Option.getD_some]
      simp [hkey, hfrom, hto]
  have hle := (List.subperm_of_subset s.nodup hsubset).length_le
  have hkeys := List.length_filterMap_le S.key
    (window (last - life) (life + interval + delay) ++ window (pending.getD 0) delay)
  rw [List.length_append, hcount, hcount] at hkeys
  have hfirst := hmany (last - life)
  have hsecond := hmore (pending.getD 0)
  omega

end Lags

/-- At every time, the store lags behind by one sweep at most. -/
theorem Make.lags {start : Nat} (h : S.Make interval start events now s)
    (htimely : S.Timely life delay events) (hdelay : delay < interval) :
    ∃ last pending, S.Lags interval life delay events now last pending s := by
  induction h with
  | nil hkeys hdue =>
    exact ⟨start, none, by simp [hkeys], hdue, by simp, Nat.le_refl _, by simp⟩
  | @snoc events now s s' e _ hnow hdoes ih =>
    obtain ⟨last, pending, hlags⟩ := ih htimely.of_append
    unfold Does at hdoes
    split at hdoes
    · rename_i r hop
      exact ⟨last, some r, hlags.begins htimely hdelay hop hdoes hnow⟩
    · rename_i r hop
      refine ⟨last, pending, hlags.drop hdoes.2 hnow (fun r' due hop' => ?_) (by simp [hop])⟩
      rw [hop] at hop'
      cases hop'
      exact Nat.le_of_lt hdoes.1
    · rename_i hop
      cases hpending : pending with
      | none =>
        exact ⟨last, none, (hpending ▸ hlags).drop hdoes.drops hnow (by simp [hop]) fun _ => rfl⟩
      | some r => exact ⟨r, none, (hpending ▸ hlags).clears htimely hop hdoes hnow⟩
    · rename_i k hop
      exact ⟨last, pending, hlags.put htimely hop hdoes hnow⟩
    · rename_i hop
      exact ⟨last, pending, hlags.drop hdoes hnow (by simp [hop]) (by simp [hop])⟩

/-- **What a shared store holds.** If no more than `n` are put in within any life, interval and
delay together, and no more than `m` within any delay, it never holds more than `n + m`. -/
theorem Make.length_le {start n m : Nat} (h : S.Make interval start events now s)
    (htimely : S.Timely life delay events) (hdelay : delay < interval)
    (hmany : Within (life + interval + delay) n (S.putTimes events))
    (hmore : Within delay m (S.putTimes events)) : s.keys.length ≤ n + m := by
  obtain ⟨last, pending, hlags⟩ := h.lags htimely hdelay
  exact hlags.length_le hmany hmore

end Steps

end Sweep
