import Mathlib.Data.Nat.ModEq
import Mathlib.Data.Nat.Prime.Basic
import RestDiameterBridge.Transport.Traversal

/-!
# RestDiameterBridge.Transport.Fairness

Which leaf comes first, call after call of `get_underlying_connections`
(`src/transport/connection.rs`), in a tree of round robin containers.

Every call draws from the index of every container of the tree once, so that the containers
all move on together. A leaf comes first at the calls that are right for each of the containers
over it (`Connection.First`), which leaves it out for good where the numbers of connections of
two of them have a common factor (`fair_iff`). Nor does it help there that the containers have
been in use before (`pairwiseCoprime_of_fair`, `fair_of_coprimeWithin`).

The positions are sums of `Nat`: in the last calls before an index wraps around, 2^64 calls
after the first one, the sum leaves the `usize` (`RoundRobinConnection.rotates_iff`).
-/

namespace RestDiameterBridge

open Connection

/-! ### Trees of round robin containers -/

/-- Round robin containers over leaves. None is empty. -/
inductive Connection.RoundRobin : Connection → Prop
  | leaf (self : Handle) : RoundRobin (leaf self)
  | container (self : Handle) (connections : List Connection) : connections ≠ [] →
      (∀ c ∈ connections, RoundRobin c) → RoundRobin (container .roundRobin self connections)

/-- A tree of round robin containers: nothing is in it twice. -/
structure RoundRobinTree where
  root : Connection
  roundRobin : root.RoundRobin
  counters_nodup : root.counters.Nodup
  leaves_nodup : root.leaves.Nodup

/-- The leaf that comes first when the containers' indices are these. -/
inductive Connection.First (index : Nat → Nat) : Connection → Connection → Prop
  | leaf (self : Handle) : First index (leaf self) (leaf self)
  | container {self : Handle} {connections : List Connection} {c l : Connection} :
      connections[(index self.addr + (connections.length - 1)) % connections.length]? = some c →
      First index c l → First index (container .roundRobin self connections) l

/-- The counters have been drawn from once, and no others. -/
structure Balancers.Advanced (addrs : List Nat) (s s' : Balancers) : Prop where
  drawn : ∀ addr ∈ addrs, s'.index addr = (s.index addr + 1) % 2 ^ 64
  others : s.SameBut addrs s'

section
variable {s s₁ s' : Balancers} {addrs addrs' : List Nat} {c l l' : Connection}
  {index index' : Nat → Nat}

theorem Balancers.Advanced.append (h : s.Advanced addrs s₁) (h' : s₁.Advanced addrs' s')
    (hdisjoint : addrs'.Disjoint addrs) : s.Advanced (addrs' ++ addrs) s' where
  drawn := by
    intro addr haddr
    rcases List.mem_append.mp haddr with hlater | hbefore
    · rw [h'.drawn addr hlater, h.others addr (hdisjoint hlater)]
    · rw [h'.others addr fun hlater => hdisjoint hlater hbefore, h.drawn addr hbefore]
  others := by
    intro addr haddr
    rw [List.mem_append, not_or] at haddr
    exact (h'.others addr haddr.1).trans (h.others addr haddr.2)

theorem Balancers.Advanced.perm (h : s.Advanced addrs s') (hperm : addrs.Perm addrs') :
    s.Advanced addrs' s' where
  drawn := fun addr haddr => h.drawn addr (hperm.mem_iff.mpr haddr)
  others := h.others.mono hperm.subset

theorem Balancers.advanced_nil : s.Advanced [] s where
  drawn := nofun
  others := .refl _ _

theorem Balancers.advanced_fetchAdd {addr : Nat} : s.Advanced [addr] (s.fetchAdd addr).2 where
  drawn := by
    intro addr' haddr
    obtain rfl := List.mem_singleton.mp haddr
    exact Function.update_self ..
  others := by
    intro addr' haddr
    exact Function.update_of_ne (by simpa using haddr) ..

/-- Only the indices of its own containers count. -/
theorem Connection.First.congr (h : c.First index l)
    (hindex : ∀ addr ∈ c.counters, index' addr = index addr) : c.First index' l := by
  induction h with
  | leaf self => exact .leaf self
  | @container self connections c l hc _ ih =>
    rw [counters, List.forall_mem_cons] at hindex
    refine .container (by rwa [hindex.1]) (ih fun addr haddr => hindex.2 addr ?_)
    exact mem_countersList.mpr ⟨c, List.mem_of_getElem? hc, haddr⟩

theorem Connection.First.unique (h : c.First index l) (h' : c.First index l') : l = l' := by
  induction h with
  | leaf self =>
    cases h'
    rfl
  | container hc _ ih =>
    cases h' with
    | container hc' h' =>
      obtain rfl := Option.some.inj (hc.symm.trans hc')
      exact ih h'

theorem mem_leaves_container {kind : ContainerKind} {self : Handle} {cs : List Connection} :
    l ∈ (container kind self cs).leaves ↔ ∃ c ∈ cs, l ∈ c.leaves := by
  rw [leaves, leavesList_eq_flatMap, List.mem_flatMap]

theorem nodup_leaves_container {kind : ContainerKind} {self : Handle} {cs : List Connection} :
    (container kind self cs).leaves.Nodup ↔
      (∀ c ∈ cs, c.leaves.Nodup) ∧ cs.Pairwise (Function.onFun List.Disjoint leaves) := by
  rw [leaves, leavesList_eq_flatMap, List.nodup_flatMap]

/-- What comes first is a leaf of the tree. -/
theorem Connection.First.mem_leaves (h : c.First index l) : l ∈ c.leaves := by
  induction h with
  | leaf self => simp [leaves]
  | container hc _ ih => exact mem_leaves_container.mpr ⟨_, List.mem_of_getElem? hc, ih⟩

theorem Connection.countersList_eq_flatMap (cs : List Connection) :
    countersList cs = cs.flatMap counters := by
  induction cs with
  | nil => rfl
  | cons c cs ih => rw [countersList, ih, List.flatMap_cons]

theorem Connection.countersList_perm {cs ds : List Connection} (h : cs.Perm ds) :
    (countersList cs).Perm (countersList ds) := by
  rw [countersList_eq_flatMap, countersList_eq_flatMap]
  exact h.flatMap_right counters

@[simp] theorem Connection.countersList_concat (cs : List Connection) (c : Connection) :
    countersList (cs ++ [c]) = countersList cs ++ c.counters := by
  simp [countersList_eq_flatMap]

/-- The last connection of a rotation is the one before the index. -/
theorem getLast?_rotation {α : Type} {list : List α} (hne : list ≠ []) (index : Nat) :
    (rotation list index).getLast? = list[(index + (list.length - 1)) % list.length]? := by
  have hpos := List.length_pos_of_ne_nil hne
  rw [rotation_eq_rotate, List.getLast?_eq_getElem?, List.length_rotate,
    List.getElem?_rotate (by omega), Nat.add_comm]

/-! ### A call -/

/-- The trees at the end of the stack are taken apart from the last one on. -/
theorem checkConnections_list {cs : List Connection} (hnodup : (countersList cs).Nodup)
    (h : ∀ c ∈ cs, ∀ (s : Balancers) (checking connections : List Connection), ∃ l ls s',
      checkConnections s (checking ++ [c]) connections =
          checkConnections s' checking (connections ++ l :: ls) ∧
        c.First s.index l ∧ s.Advanced c.counters s')
    (s : Balancers) (checking connections : List Connection) : ∃ ls s',
      checkConnections s (checking ++ cs) connections =
          checkConnections s' checking (connections ++ ls) ∧
        (∀ c, cs.getLast? = some c → ∃ l, ls.head? = some l ∧ c.First s.index l) ∧
        s.Advanced (countersList cs) s' := by
  induction cs using List.reverseRecOn generalizing s connections with
  | nil => exact ⟨[], s, by simp, nofun, Balancers.advanced_nil⟩
  | append_singleton cs c ih =>
    rw [countersList_concat] at hnodup ⊢
    obtain ⟨hcs, -, hdisjoint⟩ := List.nodup_append'.mp hnodup
    -- the last tree goes first, and draws from no counter of the others
    obtain ⟨l, ls, s₁, heq, hfirst, hadvanced⟩ := h c (by simp) s (checking ++ cs) connections
    obtain ⟨ls', s', heq', -, hadvanced'⟩ :=
      ih hcs (fun d hd => h d (by simp [hd])) s₁ (connections ++ l :: ls)
    refine ⟨l :: ls ++ ls', s', ?_, ?_, hadvanced.append hadvanced' hdisjoint⟩
    · rw [← List.append_assoc, heq, heq', List.append_assoc]
    · intro d hd
      rw [List.getLast?_concat] at hd
      obtain rfl := Option.some.inj hd
      exact ⟨l, rfl, hfirst⟩

/-- A tree is replaced by its leaves, and each of its containers moves on. -/
theorem checkConnections_roundRobin (hc : c.RoundRobin) (hnodup : c.counters.Nodup)
    (s : Balancers) (checking connections : List Connection) : ∃ l ls s',
      checkConnections s (checking ++ [c]) connections =
          checkConnections s' checking (connections ++ l :: ls) ∧
        c.First s.index l ∧ s.Advanced c.counters s' := by
  induction hc generalizing s checking connections with
  | leaf self =>
    refine ⟨leaf self, [], s, checkConnections_leaf self, .leaf self, ?_⟩
    rw [counters]
    exact Balancers.advanced_nil
  | container self cs hne _ ih =>
    rw [counters, List.nodup_cons] at hnodup
    have hperm := rotation_perm cs (s.index self.addr)
    have hcounters := countersList_perm hperm
    -- the container's own counter is none of those below it
    have hself : ∀ addr ∈ countersList cs,
        (s.fetchAdd self.addr).2.index addr = s.index addr := by
      intro addr haddr
      exact Balancers.advanced_fetchAdd.others addr fun hmem =>
        hnodup.1 (List.mem_singleton.mp hmem ▸ haddr)
    have hsub : ∀ c ∈ cs, c.counters.Nodup :=
      (List.nodup_flatMap.mp (countersList_eq_flatMap cs ▸ hnodup.2)).1
    obtain ⟨ls, s', heq, hlast, hadvanced⟩ := checkConnections_list
      (hcounters.nodup_iff.mpr hnodup.2)
      (fun c hc => ih c (hperm.mem_iff.mp hc) (hsub c (hperm.mem_iff.mp hc)))
      (s.fetchAdd self.addr).2 checking connections
    have hrotation : rotation cs (s.index self.addr) ≠ [] := fun hnil =>
      hne (List.Perm.nil_eq (hnil ▸ hperm)).symm
    obtain ⟨c, hc⟩ := Option.ne_none_iff_exists'.mp (mt List.getLast?_eq_none_iff.mp hrotation)
    obtain ⟨l, hl, hfirst⟩ := hlast c hc
    obtain ⟨ls, rfl⟩ := List.head?_eq_some_iff.mp hl
    refine ⟨l, ls, s', ?_, ?_, ?_⟩
    · rw [checkConnections_container rfl, getConnections]
      exact heq
    · rw [getLast?_rotation hne] at hc
      refine .container hc (hfirst.congr fun addr haddr => (hself addr ?_).symm)
      exact mem_countersList.mpr ⟨c, List.mem_of_getElem? hc, haddr⟩
    · rw [counters]
      refine (Balancers.advanced_fetchAdd.append hadvanced ?_).perm ?_
      · intro addr haddr hmem
        obtain rfl := List.mem_singleton.mp hmem
        exact hnodup.1 (hcounters.mem_iff.mp haddr)
      · exact List.perm_append_comm.trans (hcounters.cons _)

end

/-! ### Call after call -/

/-- Nothing was sent through any container yet. -/
def Balancers.new (draws : Nat → Nat) : Balancers where
  index := fun _ => 0
  draws

/-- The indices in the tree are of the type `usize`. -/
def Balancers.Usize (s : Balancers) (t : RoundRobinTree) : Prop :=
  ∀ addr ∈ t.root.counters, s.index addr < 2 ^ 64

theorem Balancers.usize_new (t : RoundRobinTree) (draws : Nat → Nat) :
    (Balancers.new draws).Usize t := fun _ _ => Nat.two_pow_pos 64

namespace RoundRobinTree

variable {t : RoundRobinTree} {s : Balancers} {l : Connection}

/-- After `n` calls. -/
def after (t : RoundRobinTree) (s : Balancers) (n : Nat) : Balancers :=
  (fun s => (getUnderlyingConnections s t.root).2)^[n] s

/-- The leaf a request is attempted on first after `n` calls. -/
def firstAfter (t : RoundRobinTree) (s : Balancers) (n : Nat) : Option Connection :=
  (getUnderlyingConnections (t.after s n) t.root).1.head?

/-- Of so many calls in a row, each leaf comes first in one. -/
def Fair (t : RoundRobinTree) (s : Balancers) : Prop :=
  ∃ K, ∀ m, ∀ l ∈ t.root.leaves, ∃ n, m ≤ n ∧ n < m + K ∧ t.firstAfter s n = some l

theorem getUnderlyingConnections_eq (t : RoundRobinTree) (s : Balancers) :
    ∃ l, (getUnderlyingConnections s t.root).1.head? = some l ∧ t.root.First s.index l ∧
      s.Advanced t.root.counters (getUnderlyingConnections s t.root).2 := by
  obtain ⟨l, ls, s', heq, hfirst, hadvanced⟩ :=
    checkConnections_roundRobin t.roundRobin t.counters_nodup s [] []
  rw [checkConnections_nil, List.nil_append, List.nil_append] at heq
  rw [getUnderlyingConnections, heq]
  exact ⟨l, rfl, hfirst, hadvanced⟩

theorem index_after (hs : s.Usize t) (n : Nat) {addr : Nat} (haddr : addr ∈ t.root.counters) :
    (t.after s n).index addr = (s.index addr + n) % 2 ^ 64 := by
  induction n with
  | zero => exact (Nat.mod_eq_of_lt (hs addr haddr)).symm
  | succ n ih =>
    obtain ⟨-, -, -, hadvanced⟩ := t.getUnderlyingConnections_eq (t.after s n)
    rw [after, Function.iterate_succ_apply', ← after, hadvanced.drawn addr haddr, ih,
      Nat.mod_add_mod, Nat.add_assoc]

/-- All indices have gone on by the number of calls. -/
theorem firstAfter_eq (hs : s.Usize t) (n : Nat) : t.firstAfter s n = some l ↔
    t.root.First (fun addr => (s.index addr + n) % 2 ^ 64) l := by
  obtain ⟨l', hhead, hfirst, -⟩ := t.getUnderlyingConnections_eq (t.after s n)
  have hfirst' : t.root.First (fun addr => (s.index addr + n) % 2 ^ 64) l' :=
    hfirst.congr fun addr haddr => (index_after hs n haddr).symm
  rw [firstAfter, hhead, Option.some.injEq]
  constructor
  · rintro rfl
    exact hfirst'
  · exact hfirst'.unique

/-- The calls repeat themselves when the indices wrap around. -/
theorem fair_iff_forall (hs : s.Usize t) : t.Fair s ↔
    ∀ l ∈ t.root.leaves, ∃ n < 2 ^ 64,
      t.root.First (fun addr => (s.index addr + n) % 2 ^ 64) l := by
  constructor
  · rintro ⟨K, hK⟩ l hl
    obtain ⟨n, -, -, hn⟩ := hK 0 l hl
    refine ⟨n % 2 ^ 64, Nat.mod_lt _ (by decide), ?_⟩
    simp only [Nat.add_mod_mod]
    exact (firstAfter_eq hs n).mp hn
  · intro h
    refine ⟨2 ^ 64, fun m l hl => ?_⟩
    obtain ⟨n, hn, hfirst⟩ := h l hl
    -- the next number that leaves this remainder
    refine ⟨m + (n + (2 ^ 64 - m % 2 ^ 64)) % 2 ^ 64, by omega, by omega, (firstAfter_eq hs _).mpr ?_⟩
    refine hfirst.congr fun addr _ => ?_
    omega

end RoundRobinTree

/-! ### The turns of the leaves -/

/-- The calls of a connection are those whose number leaves `r` modulo `q`: the calls of the
`i`-th connection of a container are those of the container that leave `i + 1` modulo the number
of its connections. They meet only if that number is coprime to `q`. -/
inductive Connection.InTurn : Nat → Nat → Connection → Prop
  | leaf {q r : Nat} (self : Handle) : r < 2 ^ 64 → InTurn q r (leaf self)
  | container {q r : Nat} {kind : ContainerKind} {self : Handle} {connections : List Connection}
      (hcoprime : Nat.Coprime q connections.length) :
      (∀ (i : Nat) (c : Connection), connections[i]? = some c →
        InTurn (q * connections.length) (Nat.chineseRemainder hcoprime r (i + 1)) c) →
      InTurn q r (container kind self connections)

/-- Numbers that leave the same modulo `q` and all there is modulo `n`. -/
theorem coprime_of_modEq {q r n : Nat}
    (h : ∀ i < n, ∃ k, k ≡ r [MOD q] ∧ k ≡ i + 1 [MOD n]) (hn : 0 < n) : Nat.Coprime q n := by
  rcases (show n = 1 ∨ 1 < n by omega) with rfl | hlt
  · exact Nat.coprime_one_right q
  · obtain ⟨k₀, hq₀, hn₀⟩ := h 0 hn
    obtain ⟨k₁, hq₁, hn₁⟩ := h 1 hlt
    have hcommon : k₀ ≡ k₁ [MOD q.gcd n] := (hq₀.trans hq₁.symm).of_dvd (Nat.gcd_dvd_left q n)
    have htwo : 0 + 1 ≡ 1 + 1 [MOD q.gcd n] :=
      ((hn₀.of_dvd (Nat.gcd_dvd_right q n)).symm.trans hcommon).trans
        (hn₁.of_dvd (Nat.gcd_dvd_right q n))
    exact Nat.dvd_one.mp ((Nat.modEq_iff_dvd' (by omega)).mp htwo)

/-- The connection at the end of the rotation. -/
theorem mod_eq_iff_modEq {k i n : Nat} (hi : i < n) :
    (k + (n - 1)) % n = i ↔ k ≡ i + 1 [MOD n] := by
  have hsum : k + (n - 1) + 1 = k + n := by omega
  calc (k + (n - 1)) % n = i
      ↔ k + (n - 1) ≡ i [MOD n] := by rw [Nat.ModEq, Nat.mod_eq_of_lt hi]
    _ ↔ k + (n - 1) + 1 ≡ i + 1 [MOD n] :=
        ⟨fun h => h.add_right 1, fun h => Nat.ModEq.add_right_cancel' 1 h⟩
    _ ↔ k ≡ i + 1 [MOD n] := by rw [hsum, Nat.ModEq, Nat.add_mod_right, Nat.ModEq]

section
variable {q r : Nat} {self : Handle} {cs : List Connection} {c l : Connection} {index : Nat → Nat}

/-- What comes first in a container is what comes first in the connection whose turn it is. -/
theorem first_container_iff : (container .roundRobin self cs).First index l ↔
    ∃ i c, cs[i]? = some c ∧ index self.addr ≡ i + 1 [MOD cs.length] ∧ c.First index l := by
  constructor
  · intro h
    cases h with
    | @container _ _ c _ hc hfirst =>
      have hlt := (List.getElem?_eq_some_iff.mp hc).1
      exact ⟨_, c, hc, (mod_eq_iff_modEq hlt).mp rfl, hfirst⟩
  · rintro ⟨i, c, hc, hn, hfirst⟩
    have hlt := (List.getElem?_eq_some_iff.mp hc).1
    exact .container (by rwa [(mod_eq_iff_modEq hlt).mpr hn]) hfirst

/-- Something always comes first. -/
theorem Connection.RoundRobin.exists_first (hc : c.RoundRobin) (index : Nat → Nat) :
    ∃ l, c.First index l := by
  induction hc with
  | leaf self => exact ⟨_, .leaf self⟩
  | container self cs hne _ ih =>
    have hlt : (index self.addr + (cs.length - 1)) % cs.length < cs.length :=
      Nat.mod_lt _ (List.length_pos_of_ne_nil hne)
    obtain ⟨l, hl⟩ := ih _ (List.getElem_mem hlt)
    exact ⟨l, .container (List.getElem?_eq_getElem hlt) hl⟩

/-- A leaf under a connection of a container comes first when it is that connection's turn. -/
theorem first_of_mem_leaves (hnodup : (container .roundRobin self cs).leaves.Nodup) {i : Nat}
    (hc : cs[i]? = some c) (hl : l ∈ c.leaves)
    (h : (container .roundRobin self cs).First index l) :
    index self.addr ≡ i + 1 [MOD cs.length] ∧ c.First index l := by
  obtain ⟨i', c', hc', hn, hfirst⟩ := first_container_iff.mp h
  have hdisjoint := List.pairwise_iff_getElem.mp (nodup_leaves_container.mp hnodup).2
  obtain ⟨hlt, rfl⟩ := List.getElem?_eq_some_iff.mp hc
  obtain ⟨hlt', rfl⟩ := List.getElem?_eq_some_iff.mp hc'
  rcases Nat.lt_trichotomy i i' with hbefore | rfl | hafter
  · exact absurd hfirst.mem_leaves (hdisjoint i i' hlt hlt' hbefore hl)
  · exact ⟨hn, hfirst⟩
  · exact absurd hl (hdisjoint i' i hlt' hlt hafter hfirst.mem_leaves)

/-- So the calls at which the leaves come first are turns of each of the connections. -/
theorem exists_turn {P : Nat → Prop} {f : Nat → Nat → Nat} (hcs : ∀ c ∈ cs, c.RoundRobin)
    (hnodup : (container .roundRobin self cs).leaves.Nodup)
    (h : ∀ l ∈ (container .roundRobin self cs).leaves, ∃ n, P n ∧
      (container .roundRobin self cs).First (f n) l) {i : Nat} (hi : i < cs.length) :
    ∃ n, P n ∧ f n self.addr ≡ i + 1 [MOD cs.length] := by
  have hmem : cs[i] ∈ cs := List.getElem_mem hi
  obtain ⟨l, hl⟩ := (hcs _ hmem).exists_first fun _ => 0
  obtain ⟨n, hP, hfirst⟩ := h l (mem_leaves_container.mpr ⟨_, hmem, hl.mem_leaves⟩)
  exact ⟨n, hP,
    (first_of_mem_leaves hnodup (List.getElem?_eq_getElem hi) hl.mem_leaves hfirst).1⟩

/-- If each leaf comes first at some call of a tree, they all have their turns. -/
theorem inTurn_of_first (hc : c.RoundRobin) (hnodup : c.leaves.Nodup) (hr : r < q)
    (h : ∀ l ∈ c.leaves, ∃ n < 2 ^ 64, n ≡ r [MOD q] ∧ c.First (fun _ => n) l) :
    c.InTurn q r := by
  induction hc generalizing q r with
  | leaf self =>
    obtain ⟨n, hn, hmod, -⟩ := h (leaf self) (by simp [leaves])
    refine .leaf self (Nat.lt_of_le_of_lt ?_ hn)
    calc r = n % q := by rw [hmod, Nat.mod_eq_of_lt hr]
      _ ≤ n := Nat.mod_le n q
  | container self cs hne hcs ih =>
    have hpos := List.length_pos_of_ne_nil hne
    -- each connection has a leaf, so the calls of the container meet the turns of each
    have hcoprime : Nat.Coprime q cs.length := by
      refine coprime_of_modEq (r := r) (fun i hi => ?_) hpos
      obtain ⟨n, ⟨-, hmod⟩, hturn⟩ := exists_turn (P := fun n => n < 2 ^ 64 ∧ n ≡ r [MOD q])
        (f := fun n _ => n) hcs hnodup (fun l hl => by simpa [and_assoc] using h l hl) hi
      exact ⟨n, hmod, hturn⟩
    refine .container hcoprime fun i c hc => ?_
    have hmem := List.mem_of_getElem? hc
    refine ih c hmem ((nodup_leaves_container.mp hnodup).1 c hmem) ?_ fun l hl => ?_
    · exact Nat.chineseRemainder_lt_mul hcoprime _ _ (by omega) (by omega)
    · obtain ⟨n, hn, hmod, hfirst⟩ := h l (mem_leaves_container.mpr ⟨c, hmem, hl⟩)
      obtain ⟨hturn, hfirst⟩ := first_of_mem_leaves hnodup hc hl hfirst
      exact ⟨n, hn, Nat.chineseRemainder_modEq_unique hcoprime hmod hturn, hfirst⟩

/-- The turn of a leaf comes at one of the calls of the tree. -/
theorem exists_first_of_inTurn (hc : c.RoundRobin) (h : c.InTurn q r) {l : Connection}
    (hl : l ∈ c.leaves) : ∃ n < 2 ^ 64, n ≡ r [MOD q] ∧ c.First (fun _ => n) l := by
  induction hc generalizing q r with
  | leaf self =>
    cases h with
    | leaf _ hr =>
      obtain rfl : l = leaf self := by simpa [leaves] using hl
      exact ⟨r, hr, rfl, .leaf self⟩
  | container self cs _ _ ih =>
    cases h with
    | container hcoprime h =>
      obtain ⟨c, hc, hl⟩ := mem_leaves_container.mp hl
      obtain ⟨i, hi⟩ := List.mem_iff_getElem?.mp hc
      obtain ⟨n, hn, hmod, hfirst⟩ := ih c hc (h i c hi) hl
      obtain ⟨hq, hturn⟩ := (Nat.chineseRemainder hcoprime r (i + 1)).2
      exact ⟨n, hn, (hmod.of_mul_right _).trans hq,
        first_container_iff.mpr ⟨i, c, hi, (hmod.of_mul_left _).trans hturn, hfirst⟩⟩

end

/-- The numbers of connections of the containers over a leaf are coprime, and their product is no
more than the indices can count. -/
inductive Connection.CoprimeBelow : Nat → Connection → Prop
  | leaf {q : Nat} (self : Handle) : q ≤ 2 ^ 64 → CoprimeBelow q (leaf self)
  | container {q : Nat} {kind : ContainerKind} {self : Handle} {connections : List Connection} :
      connections ≠ [] → Nat.Coprime q connections.length →
      (∀ c ∈ connections, CoprimeBelow (q * connections.length) c) →
      CoprimeBelow q (container kind self connections)

/-- Then all leaves have their turns. -/
theorem Connection.CoprimeBelow.inTurn {q r : Nat} {c : Connection} (h : c.CoprimeBelow q)
    (hr : r < q) : c.InTurn q r := by
  induction h generalizing r with
  | leaf self hq => exact .leaf self (Nat.lt_of_lt_of_le hr hq)
  | container hne hcoprime _ ih =>
    have hpos := List.length_pos_of_ne_nil hne
    refine .container hcoprime fun i c hc => ih c (List.mem_of_getElem? hc) ?_
    exact Nat.chineseRemainder_lt_mul hcoprime _ _ (by omega) (by omega)

namespace RoundRobinTree

variable {t : RoundRobinTree} {draws : Nat → Nat}

/-- The indices of new containers are the number of calls. -/
theorem first_new_iff {n : Nat} {l : Connection} (hn : n < 2 ^ 64) :
    t.root.First (fun addr => ((Balancers.new draws).index addr + n) % 2 ^ 64) l ↔
      t.root.First (fun _ => n) l := by
  simp only [Balancers.new, Nat.zero_add, Nat.mod_eq_of_lt hn]

theorem inTurn_of_fair (h : t.Fair (.new draws)) : t.root.InTurn 1 0 := by
  refine inTurn_of_first t.roundRobin t.leaves_nodup Nat.one_pos fun l hl => ?_
  obtain ⟨n, hn, hfirst⟩ := (fair_iff_forall (Balancers.usize_new t draws)).mp h l hl
  exact ⟨n, hn, Nat.modEq_one, (first_new_iff hn).mp hfirst⟩

theorem fair_of_inTurn (h : t.root.InTurn 1 0) : t.Fair (.new draws) := by
  refine (fair_iff_forall (Balancers.usize_new t draws)).mpr fun l hl => ?_
  obtain ⟨n, hn, -, hfirst⟩ := exists_first_of_inTurn t.roundRobin h hl
  exact ⟨n, hn, (first_new_iff hn).mpr hfirst⟩

/-- Every leaf of a tree comes first again and again exactly if, from the root down, the number of
connections of each container is coprime to those of the containers over it and the leaves' turns
come before the indices wrap around. -/
theorem fair_iff (t : RoundRobinTree) (draws : Nat → Nat) :
    t.Fair (.new draws) ↔ t.root.InTurn 1 0 :=
  ⟨inTurn_of_fair, fair_of_inTurn⟩

end RoundRobinTree

/-! ### Containers that have been in use -/

/-- Two indices are as far apart as they were, or one of them has wrapped around. -/
theorem coprime_of_index {a b k n i : Nat}
    (h : ∀ j < n, ∃ m, (a + m) % 2 ^ 64 ≡ i + 1 [MOD k] ∧ (b + m) % 2 ^ 64 ≡ j + 1 [MOD n])
    (hn : 0 < n) : Nat.Coprime k n := by
  by_contra hnot
  obtain ⟨p, hp, hpk, hpn⟩ := Nat.Prime.not_coprime_iff_dvd.mp hnot
  obtain ⟨x, hx⟩ : ∃ x : Int, x = ((b : Int) - a) % 2 ^ 64 + i := ⟨_, rfl⟩
  have hturn : ∀ j < n, (p : Int) ∣ x - j ∨ (p : Int) ∣ x - 2 ^ 64 - j := by
    intro j hj
    obtain ⟨m, ha, hb⟩ := h j hj
    have hdvd := Int.dvd_sub (Nat.modEq_iff_dvd.mp (ha.of_dvd hpk))
      (Nat.modEq_iff_dvd.mp (hb.of_dvd hpn))
    have hcases : (((b + m) % 2 ^ 64 : Nat) : Int) - ((a + m) % 2 ^ 64 : Nat) = x - i ∨
        (((b + m) % 2 ^ 64 : Nat) : Int) - ((a + m) % 2 ^ 64 : Nat) = x - i - 2 ^ 64 := by
      omega
    refine hcases.imp (fun heq => ?_) fun heq => ?_
    · convert hdvd using 1
      push_cast at heq ⊢
      omega
    · convert hdvd using 1
      push_cast at heq ⊢
      omega
  have hsame : ∀ (y : Int) (j j' : Nat), j < j' → j' < p → (p : Int) ∣ y - j → ¬(p : Int) ∣ y - j' := by
    intro y j j' hlt hp' hj hj'
    have hle := Int.le_of_dvd (show 0 < y - j - (y - j') by omega) (Int.dvd_sub hj hj')
    omega
  have hle : p ≤ n := Nat.le_of_dvd hn hpn
  rcases (show p = 2 ∨ 2 < p by have := hp.two_le; omega) with rfl | hthree
  · have h₀ := hturn 0 (by omega)
    have h₁ := hturn 1 (by omega)
    omega
  · -- three turns and two distances
    rcases hturn 0 (by omega) with h₀ | h₀ <;> rcases hturn 1 (by omega) with h₁ | h₁ <;>
      rcases hturn 2 (by omega) with h₂ | h₂
    all_goals first
      | exact hsame _ 0 1 (by omega) (by omega) h₀ h₁
      | exact hsame _ 0 2 (by omega) (by omega) h₀ h₂
      | exact hsame _ 1 2 (by omega) (by omega) h₁ h₂

/-- The number of connections of a container is coprime to those of the containers over it. -/
inductive Connection.PairwiseCoprime : List Nat → Connection → Prop
  | leaf {ks : List Nat} (self : Handle) : PairwiseCoprime ks (leaf self)
  | container {ks : List Nat} {kind : ContainerKind} {self : Handle}
      {connections : List Connection} : (∀ k ∈ ks, Nat.Coprime k connections.length) →
      (∀ c ∈ connections, PairwiseCoprime (connections.length :: ks) c) →
      PairwiseCoprime ks (container kind self connections)

/-- A container over a connection: the index it started from, the number of its connections and
the position of the one below. -/
structure Above where
  index : Nat
  length : Nat
  position : Nat

/-- It is the turn of the connection below after so many calls. -/
def Above.Turn (x : Above) (n : Nat) : Prop :=
  (x.index + n) % 2 ^ 64 ≡ x.position + 1 [MOD x.length]

/-- If each leaf comes first at some call that is right for the containers above, the numbers of
connections are coprime. -/
theorem pairwiseCoprime_of_first {c : Connection} (index : Nat → Nat) (hc : c.RoundRobin)
    (hnodup : c.leaves.Nodup) (above : List Above)
    (h : ∀ l ∈ c.leaves, ∃ n, (∀ x ∈ above, x.Turn n) ∧
      c.First (fun addr => (index addr + n) % 2 ^ 64) l) :
    c.PairwiseCoprime (above.map Above.length) := by
  induction hc generalizing above with
  | leaf self => exact .leaf self
  | container self cs hne hcs ih =>
    refine .container (fun k hk => ?_) fun c hc => ?_
    · obtain ⟨x, hx, rfl⟩ := List.mem_map.mp hk
      refine coprime_of_index (a := x.index) (b := index self.addr) (i := x.position) (fun j hj => ?_)
        (List.length_pos_of_ne_nil hne)
      obtain ⟨n, habove, hturn⟩ := exists_turn hcs hnodup h hj
      exact ⟨n, habove x hx, hturn⟩
    · obtain ⟨i, hi⟩ := List.mem_iff_getElem?.mp hc
      refine ih c hc ((nodup_leaves_container.mp hnodup).1 c hc)
        (⟨index self.addr, cs.length, i⟩ :: above) fun l hl => ?_
      obtain ⟨n, habove, hfirst⟩ := h l (mem_leaves_container.mpr ⟨c, hc, hl⟩)
      obtain ⟨hturn, hfirst⟩ := first_of_mem_leaves hnodup hi hl hfirst
      exact ⟨n, List.forall_mem_cons.mpr ⟨hturn, habove⟩, hfirst⟩

/-- The numbers of connections of the containers over a leaf are coprime, and there is room for
their product in what is left of the calls when they are halved at each container. -/
inductive Connection.CoprimeWithin : Nat → Nat → Connection → Prop
  | leaf {L q : Nat} (self : Handle) : 0 < q → q ≤ L → CoprimeWithin L q (leaf self)
  | container {L q : Nat} {kind : ContainerKind} {self : Handle} {connections : List Connection} :
      Nat.Coprime q connections.length →
      (∀ c ∈ connections, CoprimeWithin (L / 2) (q * connections.length) c) →
      CoprimeWithin L q (container kind self connections)

/-- In one half of the calls the index does not wrap around. -/
theorem exists_unwrapped (a u : Nat) {L : Nat} (hL : L ≤ 2 ^ 64) :
    ∃ v, u ≤ v ∧ v + L / 2 ≤ u + L ∧ ∀ n, v ≤ n → n < v + L / 2 →
      (a + n) % 2 ^ 64 = (a + v) % 2 ^ 64 + (n - v) := by
  rcases Nat.le_total ((a + u) % 2 ^ 64 + L / 2) (2 ^ 64) with hfits | hwraps
  · exact ⟨u, Nat.le_refl u, by omega, fun n _ _ => by omega⟩
  · exact ⟨u + L / 2, by omega, by omega, fun n _ _ => by omega⟩

/-- The call at which it is a connection's turn, from where the index was some calls before. -/
theorem modEq_of_unwrapped {a n v r k : Nat} (hk : 0 < k) (hle : v ≤ n)
    (h : n ≡ r + v + (k - 1) * a [MOD k]) : a + (n - v) ≡ r [MOD k] := by
  have hsum : a + (r + v + (k - 1) * a) = r + v + k * a := by
    obtain ⟨p, rfl⟩ := Nat.exists_eq_succ_of_ne_zero hk.ne'
    rw [Nat.succ_sub_one, Nat.succ_mul]
    omega
  refine Nat.ModEq.add_right_cancel' v ?_
  calc a + (n - v) + v = a + n := by omega
    _ ≡ a + (r + v + (k - 1) * a) [MOD k] := h.add_left a
    _ ≡ r + v [MOD k] := by rw [hsum, Nat.ModEq, Nat.add_mul_mod_self_left]

/-- Every remainder comes up among as many numbers as the modulus. -/
theorem exists_modEq {q : Nat} (hq : 0 < q) (u r : Nat) :
    ∃ n, u ≤ n ∧ n < u + q ∧ n ≡ r [MOD q] := by
  refine ⟨u + (r + (q - 1) * u) % q, Nat.le_add_right _ _,
    Nat.add_lt_add_left (Nat.mod_lt _ hq) u, ?_⟩
  have hsum : u + (r + (q - 1) * u) = r + q * u := by
    obtain ⟨p, rfl⟩ := Nat.exists_eq_succ_of_ne_zero hq.ne'
    rw [Nat.succ_sub_one, Nat.succ_mul]
    omega
  calc u + (r + (q - 1) * u) % q ≡ u + (r + (q - 1) * u) [MOD q] := (Nat.mod_modEq _ _).add_left u
    _ ≡ r [MOD q] := by rw [hsum, Nat.ModEq, Nat.add_mul_mod_self_left]

/-- Each leaf comes first among the calls, whatever the indices are before them. -/
theorem exists_first_within {index : Nat → Nat} {L q : Nat} {c l : Connection} (hL : L ≤ 2 ^ 64)
    (hc : c.RoundRobin) (h : c.CoprimeWithin L q) (u r : Nat) (hl : l ∈ c.leaves) :
    ∃ n, u ≤ n ∧ n < u + L ∧ n ≡ r [MOD q] ∧
      c.First (fun addr => (index addr + n) % 2 ^ 64) l := by
  induction hc generalizing L q u r with
  | leaf self =>
    cases h with
    | leaf _ hq hqL =>
      obtain rfl : l = leaf self := by simpa [leaves] using hl
      obtain ⟨n, hle, hlt, hmod⟩ := exists_modEq hq u r
      exact ⟨n, hle, by omega, hmod, .leaf self⟩
  | container self cs _ _ ih =>
    cases h with
    | container hcoprime h =>
      obtain ⟨c, hc, hl⟩ := mem_leaves_container.mp hl
      obtain ⟨i, hi⟩ := List.mem_iff_getElem?.mp hc
      obtain ⟨v, hu, hv, hindex⟩ := exists_unwrapped (index self.addr) u hL
      obtain ⟨n, hle, hlt, hmod, hfirst⟩ := ih c hc (by omega) (h c hc) v
        (Nat.chineseRemainder hcoprime r
          (i + 1 + v + (cs.length - 1) * ((index self.addr + v) % 2 ^ 64))) hl
      obtain ⟨hq, hturn⟩ := (Nat.chineseRemainder hcoprime r
        (i + 1 + v + (cs.length - 1) * ((index self.addr + v) % 2 ^ 64))).2
      refine ⟨n, by omega, by omega, (hmod.of_mul_right _).trans hq,
        first_container_iff.mpr ⟨i, c, hi, ?_, hfirst⟩⟩
      rw [hindex n hle hlt]
      exact modEq_of_unwrapped (List.length_pos_of_mem hc) hle ((hmod.of_mul_left _).trans hturn)

namespace RoundRobinTree

variable {t : RoundRobinTree} {s : Balancers}

/-- Whatever the indices were before, a tree is not fair where the numbers of connections of two
containers, one of them under the other, have a common factor. -/
theorem pairwiseCoprime_of_fair (hs : s.Usize t) (h : t.Fair s) : t.root.PairwiseCoprime [] := by
  refine pairwiseCoprime_of_first s.index t.roundRobin t.leaves_nodup [] fun l hl => ?_
  obtain ⟨n, -, hfirst⟩ := (fair_iff_forall hs).mp h l hl
  exact ⟨n, nofun, hfirst⟩

/-- And it is fair where they are coprime and not too many. -/
theorem fair_of_coprimeWithin (hs : s.Usize t) (h : t.root.CoprimeWithin (2 ^ 64) 1) :
    t.Fair s := by
  refine (fair_iff_forall hs).mpr fun l hl => ?_
  obtain ⟨n, -, hn, -, hfirst⟩ := exists_first_within (Nat.le_refl _) t.roundRobin h 0 0 hl
  exact ⟨n, by omega, hfirst⟩

def handle (addr : Nat) (id : String) : Handle :=
  { addr, id, peerHost := id, peerRealm := "realm" }

/-- Two containers of two leaves each. -/
def twoByTwo : RoundRobinTree where
  root := .container .roundRobin (handle 0 "all")
    [.container .roundRobin (handle 1 "east") [.leaf (handle 3 "east1"), .leaf (handle 4 "east2")],
      .container .roundRobin (handle 2 "west") [.leaf (handle 5 "west1"), .leaf (handle 6 "west2")]]
  roundRobin := by
    refine .container _ _ (by simp) fun c hc => ?_
    rcases List.mem_pair.mp hc with rfl | rfl
    all_goals
      refine .container _ _ (by simp) fun c hc => ?_
      rcases List.mem_pair.mp hc with rfl | rfl <;> exact .leaf _
  counters_nodup := by decide
  leaves_nodup := by simp [leaves, leavesList, handle]

/-- `east2` and `west1` never come first. -/
theorem not_fair_twoByTwo : ¬twoByTwo.Fair (.new fun _ => 0) := by
  intro h
  cases inTurn_of_fair h with
  | container hroot h =>
    cases h 0 _ rfl with
    | container hchild _ => exact absurd hchild (by decide)

end RoundRobinTree

end RestDiameterBridge
