import RestDiameterBridge.Transport.Send

/-!
# RestDiameterBridge.Transport.FailOver

Sequences of sends through one failover container.

After a send the container stores the index behind the connection that carried the
command, so the next send starts there, not at the first connection of the list.
`carrier_eq_iff` says for which sends of a sequence that makes no difference.
-/

namespace RestDiameterBridge

open Attempts

namespace FailOverConnection

/-- `n` connections of which each answers a command by its entry in `outcome`. -/
def answering {n : Nat} (outcome : Fin n → Except String Unit) :
    List (Balancers → SendOutcome (Fin n)) :=
  (List.finRange n).map fun i s => { result := outcome i, attempts := [i], state := s }

/-- One send of a sequence: the state it found, how the connections answer the command
at that moment, and what the send did. -/
structure Delivery (n : Nat) where
  before : Balancers
  outcome : Fin n → Except String Unit
  sent : SendOutcome (Fin n)

/-- Sends one after another, each command with its own outcomes. -/
def sendAll (addr : Nat) {n : Nat} :
    List (Fin n → Except String Unit) → Balancers → List (Delivery n)
  | [], _ => []
  | outcome :: outcomes, s =>
      let sent := send addr (answering outcome) s
      { before := s, outcome, sent } :: sendAll addr outcomes sent.state

namespace Delivery

variable {n : Nat}

/-- The connection that carried the command: the last one attempted by a send that
succeeded. -/
def carrier (d : Delivery n) : Option (Fin n) :=
  if d.sent.result.isOk then d.sent.attempts.getLast? else none

/-- The first connection of the list that accepts the command. -/
def firstAccepting (d : Delivery n) : Option (Fin n) :=
  (List.finRange n).find? (accepts d.outcome)

/-- The connections that accept the command lie on one side of the stored index: all
before it, or all from it on. -/
def OneSided (addr : Nat) (d : Delivery n) : Prop :=
  ∀ i j, accepts d.outcome i = true → accepts d.outcome j = true →
    ((i : Nat) < d.before.index addr % n ↔ (j : Nat) < d.before.index addr % n)

end Delivery

variable {n : Nat} {addr : Nat}

theorem length_answering (outcome : Fin n → Except String Unit) :
    (answering outcome).length = n := by
  rw [answering, List.length_map, List.length_finRange]

/-- The order in which a send attempts its connections. -/
def order (index n : Nat) : List (Fin n) :=
  (List.finRange n).map (indexAt index)

theorem order_eq_rotate (index n : Nat) : order index n = (List.finRange n).rotate index := by
  refine List.ext_getElem (by simp [order]) fun i _ hi => ?_
  simp [order, indexAt, List.getElem_rotate, Nat.add_comm]

theorem runEach_answering (outcome : Fin n → Except String Unit) :
    RunEach outcome [] (answering outcome) fun j xs => xs.map Fin.val = [j] := by
  intro j s
  obtain ⟨j, hlt⟩ := j
  have hj : j < n := by simpa [answering] using hlt
  have hget : (answering outcome).get ⟨j, hlt⟩ s =
      { result := outcome ⟨j, hj⟩, attempts := [⟨j, hj⟩], state := s } := by
    simp [answering]
  rw [hget]
  refine ⟨[⟨j, hj⟩], rfl, ?_, ?_, fun _ => .refl _ _⟩
  · rw [upTo]
    split <;> rfl
  · rw [List.any_cons, List.any_nil, Bool.or_false]
    rfl

/-- Lists that hold the attempted connection each make up the order of the attempts. -/
theorem flatten_eq_map {k : Nat} {is : List (Fin n)} {xss : List (List (Fin n))}
    (h : List.Forall₂ (fun i xs => xs.map Fin.val = [(indexAt k i : Nat)]) is xss) :
    xss.flatten = is.map (indexAt k) := by
  induction h with
  | nil => rfl
  | @cons i xs is xss hxs _ ih =>
    obtain ⟨j, rfl, hj⟩ := List.map_eq_singleton_iff.mp hxs
    rw [List.flatten_cons, ih, Fin.ext hj]
    rfl

/-- A send attempts the connections from the stored index on and round the list, up to
the first that accepts. -/
theorem send_answering (outcome : Fin n → Except String Unit) (s : Balancers) :
    RunsOver outcome [] (order (s.index addr) n) s (send addr (answering outcome) s) := by
  obtain ⟨xss, hxss, hrun⟩ :=
    send_runsOver (List.not_mem_nil (a := addr)) (runEach_answering outcome) s
  rw [length_answering] at hxss
  rwa [flatten_eq_map hxss] at hrun

theorem mem_take_finRange {m : Nat} {i : Fin n} :
    i ∈ (List.finRange n).take m ↔ (i : Nat) < m := by
  rw [List.mem_take_iff_getElem]
  simp only [List.getElem_finRange, List.length_finRange]
  constructor
  · intro h
    obtain ⟨j, hj, rfl⟩ := h
    exact (Nat.lt_min.mp hj).1
  · intro h
    exact ⟨i, Nat.lt_min.mpr ⟨h, i.isLt⟩, rfl⟩

theorem mem_drop_finRange {m : Nat} {i : Fin n} :
    i ∈ (List.finRange n).drop m ↔ m ≤ (i : Nat) := by
  rw [List.mem_drop_iff_getElem]
  simp only [List.getElem_finRange, List.length_finRange]
  constructor
  · intro h
    obtain ⟨j, hj, rfl⟩ := h
    exact Nat.le_add_right m j
  · intro h
    exact ⟨i - m, by omega, Fin.ext (by simp; omega)⟩

/-- The first acceptor in the order of the attempts is the first in list order exactly
if no acceptor lies on the other side of the start. -/
theorem find?_order_iff {p : Fin n → Bool} (index : Nat) :
    (order index n).find? p = (List.finRange n).find? p ↔
      ∀ i j : Fin n, p i = true → p j = true →
        ((i : Nat) < index % n ↔ (j : Nat) < index % n) := by
  have hsplit := List.take_append_drop (index % n) (List.finRange n)
  have hnodup : ((List.finRange n).take (index % n) ++
      (List.finRange n).drop (index % n)).Nodup := hsplit.symm ▸ List.nodup_finRange n
  have hcomm : ((List.finRange n).drop (index % n) ++
      (List.finRange n).take (index % n)).find? p = _ ↔ _ := find?_append_comm_iff hnodup
  rw [hsplit] at hcomm
  rw [order_eq_rotate, List.rotate_eq_drop_append_take_mod, List.length_finRange, hcomm]
  simp only [mem_take_finRange, mem_drop_finRange]
  constructor
  · intro h i j hi hj
    constructor
    · intro hlt
      by_contra hge
      exact h i hlt j (Nat.le_of_not_lt hge) ⟨hi, hj⟩
    · intro hlt
      by_contra hge
      exact h j hlt i (Nat.le_of_not_lt hge) ⟨hj, hi⟩
  · intro h i hi j hj hboth
    exact absurd ((h i j hboth.1 hboth.2).mp hi) (Nat.not_lt.mpr hj)

namespace Delivery

/-- The carrier is the first connection that accepts, from the stored index on and round
the list. -/
theorem carrier_send (outcome : Fin n → Except String Unit) (s : Balancers) :
    carrier { before := s, outcome, sent := send addr (answering outcome) s } =
      (order (s.index addr) n).find? (accepts outcome) := by
  have hrun : RunsOver outcome [] (order (s.index addr) n) s (send addr (answering outcome) s) :=
    send_answering outcome s
  simp only [carrier, hrun.isOk_eq]
  split
  · rename_i hany
    rw [hrun.attempts_eq, getLast?_upTo hany]
  · rename_i hnone
    refine (List.find?_eq_none.mpr fun i hi h => hnone ?_).symm
    exact List.any_eq_true.mpr ⟨i, hi, h⟩

end Delivery

theorem mem_sendAll {outcomes : List (Fin n → Except String Unit)} {s : Balancers}
    {d : Delivery n} (h : d ∈ sendAll addr outcomes s) :
    d.sent = send addr (answering d.outcome) d.before := by
  induction outcomes generalizing s with
  | nil => cases h
  | cons outcome outcomes ih =>
    rcases List.mem_cons.mp h with rfl | h
    · rfl
    · exact ih h

/-- In every sequence of sends, from whatever index it starts, a command is carried by
the first connection of the list that accepts it exactly if the accepting connections lie
on one side of the index the send found. -/
theorem carrier_eq_iff (addr : Nat) (outcomes : List (Fin n → Except String Unit))
    (s : Balancers) (d : Delivery n) (h : d ∈ sendAll addr outcomes s) :
    d.carrier = d.firstAccepting ↔ d.OneSided addr := by
  obtain ⟨before, outcome, sent⟩ := d
  obtain rfl : sent = send addr (answering outcome) before := mem_sendAll h
  rw [Delivery.carrier_send]
  exact find?_order_iff _

/-- As long as the first of two connections refuses, the second one carries every command. -/
theorem carrier_eq_iff_refused :
    ∃ d ∈ sendAll 0 (List.replicate 2 fun i : Fin 2 => if i = 0 then .error "refused" else .ok ())
        unused, d.carrier = d.firstAccepting ∧ d.carrier = some 1 ∧ d.sent.attempts = [0, 1] :=
  ⟨_, .tail _ (.head _), (carrier_eq_iff 0 (List.replicate 2 fun i : Fin 2 =>
    if i = 0 then .error "refused" else .ok ()) unused _ (.tail _ (.head _))).mpr
    (by unfold Delivery.OneSided; decide), by decide, by decide⟩

/-- Two connections that accept everything: the second command goes to the second of
them, without an attempt on the first. -/
theorem carrier_of_second_send :
    ∃ d ∈ sendAll 0 [fun _ : Fin 2 => .ok (), fun _ => .ok ()] unused,
      d.carrier = some 1 ∧ d.firstAccepting = some 0 ∧ d.sent.attempts = [1] :=
  ⟨_, .tail _ (.head _), by decide, by decide, by decide⟩

/-- In a sequence of sends every send finds an index below the number of connections. -/
theorem index_lt_of_mem_sendAll {outcomes : List (Fin n → Except String Unit)} {s : Balancers}
    {d : Delivery n} (hlt : s.index addr < n) (h : d ∈ sendAll addr outcomes s) :
    d.before.index addr < n := by
  induction outcomes generalizing s with
  | nil => cases h
  | cons outcome outcomes ih =>
    rcases List.mem_cons.mp h with rfl | h
    · exact hlt
    · refine ih ?_ h
      have hlen := length_answering outcome
      rw [send, if_neg (by omega)]
      have := sendFrom_index_lt (List.not_mem_nil (a := addr)) (runEach_answering outcome)
        (List.finRange _) (hlen.symm ▸ hlt)
      omega

end FailOverConnection

end RestDiameterBridge
