import RestDiameterBridge.Lib.Checked
import RestDiameterBridge.Stack.PeerConnections
import RestDiameterBridge.Transport.Routing

/-!
# RestDiameterBridge.Stack.ExpressionDepth

How deep the recursions over expressions go (`DiameterStack::create_connections` in
`src/stack.rs`, `create_connection_from` in `src/transport/routing_connection.rs`).

The functions of this module are given a number of calls that may be open inside each other.
A text that is its own part in lower case is parsed once more without getting shorter, and
`rank` counts that; the route builder stops at every single part. So twice the length of the
text is enough for the one, and its length for the other.
-/

namespace RestDiameterBridge

open Checked

/-! ### The characters of the parts -/

namespace LoadBalancerStrategy

/-- The parts that are cut are made of the characters of the text. -/
theorem subset_of_mem_scan (strategy rest : List Char) (index start : Nat) (level : Int)
    (values : List (List Char)) (hvalues : ∀ p ∈ values, p ⊆ strategy) :
    ∀ p ∈ (scan strategy rest index start level values).2, p ⊆ strategy := by
  induction rest generalizing index start level values with
  | nil => exact hvalues
  | cons c rest ih =>
    have hpush : ∀ part, part ⊆ strategy → ∀ p ∈ values ++ [trim part], p ⊆ strategy := by
      intro part hpart p hp
      rcases List.mem_append.mp hp with hp | hp
      · exact hvalues p hp
      · rw [List.mem_singleton.mp hp]
        exact fun d hd => hpart ((trim_sublist part).subset hd)
    simp only [scan, level_eq]
    split
    · exact ih _ _ _ _ (hpush _ fun d hd => List.mem_of_mem_drop (List.mem_of_mem_take hd))
    · split
      · exact ih _ _ _ _ (hpush _ fun d hd => List.mem_of_mem_drop hd)
      · exact ih _ _ _ _ hvalues

theorem argument_subset {strategy s : List Char} (h : argument strategy = some s) :
    s ⊆ strategy := by
  unfold argument at h
  split at h
  · cases h
  · rename_i c t heq
    split at h
    · obtain rfl := Option.some.inj h
      intro d hd
      refine (List.dropWhile_sublist (p := (· ≠ '('))).subset ?_
      rw [heq]
      exact List.mem_cons_of_mem c (List.mem_of_mem_dropLast hd)
    · cases h

/-- The parts of an expression are made of its characters in lower case. -/
theorem subset_of_fromStr {config : List Char} {strategy : LoadBalancerStrategy}
    (h : fromStr config = some (some strategy)) : ∀ p ∈ strategy.parts, p ⊆ toLowercase config := by
  have hscan := subset_of_mem_scan (toLowercase config) (toLowercase config) 0 0 0 [] (by simp)
  have harg : ∀ {kind : List Char → LoadBalancerStrategy}, (∀ s, (kind s).parts = [s]) →
      some ((argument (toLowercase config)).map kind) = some (some strategy) →
      ∀ p ∈ strategy.parts, p ⊆ toLowercase config := by
    intro kind hkind h p hp
    obtain ⟨s, hs, rfl⟩ := Option.map_eq_some_iff.mp (Option.some.inj h)
    rw [hkind, List.mem_singleton] at hp
    rw [hp]
    exact argument_subset hs
  simp only [fromStr] at h
  split at h
  · cases h
  split at h
  · cases h
  split at h
  · obtain rfl := Option.some.inj (Option.some.inj h)
    exact hscan
  split at h
  · exact harg (fun _ => rfl) h
  split at h
  · exact harg (fun _ => rfl) h
  split at h
  · exact harg (fun _ => rfl) h
  · obtain rfl := Option.some.inj (Option.some.inj h)
    exact fun p hp => List.mem_singleton.mp hp ▸ fun _ hd => hd

/-- The parts of an ASCII text are ASCII. -/
theorem ascii_of_fromStr {config : List Char} {strategy : LoadBalancerStrategy}
    (hascii : ∀ c ∈ config, c.toNat ≤ 127) (h : fromStr config = some (some strategy)) :
    ∀ p ∈ strategy.parts, ∀ c ∈ p, c.toNat ≤ 127 := by
  intro p hp c hc
  obtain ⟨d, hd, rfl⟩ := List.mem_map.mp (subset_of_fromStr h p hp hc)
  exact (toNat_lowerChar_le_iff d).mpr (.inl (hascii d hd))

theorem isSome_fromStr_of_ascii {config : List Char} (hascii : ∀ c ∈ config, c.toNat ≤ 127) :
    ∃ r, fromStr config = some r :=
  Option.isSome_iff_exists.mp ((isSome_fromStr_iff config).mpr fun c hc => .inl (hascii c hc))

end LoadBalancerStrategy

/-! ### The connections of a peer -/

namespace PeerConnection

variable (peerHost peerRealm : String)

/-- `create_connections`, with so many calls open inside each other. -/
def createConnectionsWithin : Nat → List Char → String → String → String → Nat →
    Checked (List PeerConnection × Nat)
  | 0, _, _, _, _, _ => .running
  | calls + 1, connectionUrl, keyFile, certFile, caCertFile, nextAddr =>
      match LoadBalancerStrategy.fromStr connectionUrl with
      | none => .panicked
      | some none => .done ([], nextAddr)
      | some (some (.roundRobin peers)) => do
          let conns ← createConnectionsWithin calls peers keyFile certFile caCertFile nextAddr
          .done (wrap .roundRobin peerHost peerRealm conns)
      | some (some (.failOver peers)) => do
          let conns ← createConnectionsWithin calls peers keyFile certFile caCertFile nextAddr
          .done (wrap .failOver peerHost peerRealm conns)
      | some (some (.random peers)) => do
          let conns ← createConnectionsWithin calls peers keyFile certFile caCertFile nextAddr
          .done (wrap .random peerHost peerRealm conns)
      | some (some (.value values)) =>
          if values = [connectionUrl] then
            .done (create connectionUrl peerHost peerRealm keyFile certFile caCertFile nextAddr)
          else
            values.foldlM (fun conns v => do
              let more ← createConnectionsWithin calls v certFile keyFile caCertFile conns.2
              .done (conns.1 ++ more.1, more.2)) ([], nextAddr)

section
variable {peerHost peerRealm : String} {n calls : Nat} {values : List (List Char)}
  {keyFile certFile caCertFile : String} {connectionUrl : List Char}

theorem foldlM_createEach {call : List Char → Nat → Checked (List PeerConnection × Nat)}
    (hn : ∀ p ∈ values, rank p < n)
    (h : ∀ v ∈ values, ∀ nextAddr, call v nextAddr = ofOrPanic
      (createConnections peerHost peerRealm v keyFile certFile caCertFile nextAddr))
    (conns : List PeerConnection) (nextAddr : Nat) :
    values.foldlM (fun conns v => do
        let more ← call v conns.2
        .done (conns.1 ++ more.1, more.2)) (conns, nextAddr) =
      ofOrPanic ((createEach peerHost peerRealm n values hn keyFile certFile caCertFile
        nextAddr).map fun created => (conns ++ created.1, created.2)) := by
  induction values generalizing conns nextAddr with
  | nil =>
    rw [createEach, Option.map_some, List.append_nil]
    rfl
  | cons v values ih =>
    have hrest := ih (fun p hp => hn p (List.mem_cons_of_mem v hp))
      fun w hw => h w (List.mem_cons_of_mem v hw)
    rw [createEach, List.foldlM_cons, h v List.mem_cons_self]
    cases createConnections peerHost peerRealm v keyFile certFile caCertFile nextAddr with
    | none => rfl
    | some more =>
      rw [ofOrPanic_some, done_bind, done_bind, hrest, Option.map_map]
      simp only [Function.comp_def, List.append_assoc]

/-- The calls that are open are no more than the rank of the text. -/
theorem createConnectionsWithin_eq (hcalls : rank connectionUrl < calls) (nextAddr : Nat) :
    createConnectionsWithin peerHost peerRealm calls connectionUrl keyFile certFile caCertFile
        nextAddr =
      ofOrPanic (createConnections peerHost peerRealm connectionUrl keyFile certFile caCertFile
        nextAddr) := by
  induction calls generalizing connectionUrl keyFile certFile caCertFile nextAddr with
  | zero => omega
  | succ calls ih =>
    have hargument : ∀ {strategy : LoadBalancerStrategy} {s : List Char},
        LoadBalancerStrategy.fromStr connectionUrl = some (some strategy) →
        strategy.argument? = some s → rank s < calls := by
      intro strategy s h hs
      have := rank_argument_lt h hs
      omega
    rw [createConnections]
    split
    · rw [createConnectionsWithin, ‹LoadBalancerStrategy.fromStr connectionUrl = _›]
      rfl
    · rw [createConnectionsWithin, ‹LoadBalancerStrategy.fromStr connectionUrl = _›]
      rfl
    · rename_i peers h
      rw [createConnectionsWithin, h, ← ofOrPanic_map, ← ih (hargument h rfl)]
    · rename_i peers h
      rw [createConnectionsWithin, h, ← ofOrPanic_map, ← ih (hargument h rfl)]
    · rename_i peers h
      rw [createConnectionsWithin, h, ← ofOrPanic_map, ← ih (hargument h rfl)]
    · rename_i values h
      by_cases hv : values = [connectionUrl]
      · rw [dif_pos hv, createConnectionsWithin, h]
        exact if_pos hv
      · have hlt := rank_lt_of_fromStr_value h hv
        have hwithin : createConnectionsWithin peerHost peerRealm (calls + 1) connectionUrl keyFile
            certFile caCertFile nextAddr = values.foldlM (fun conns v => do
              let more ← createConnectionsWithin peerHost peerRealm calls v certFile keyFile
                caCertFile conns.2
              .done (conns.1 ++ more.1, more.2)) ([], nextAddr) := by
          rw [createConnectionsWithin, h]
          exact if_neg hv
        rw [hwithin, dif_neg hv, foldlM_createEach hlt fun v hmem nextAddr => ih (by
          have := hlt v hmem
          omega) nextAddr]
        simp

/-- For an ASCII text the calls come to an end without a panic. -/
theorem exists_createConnectionsWithin (hascii : ∀ c ∈ connectionUrl, c.toNat ≤ 127)
    (hcalls : rank connectionUrl < calls) (nextAddr : Nat) :
    ∃ conns, createConnectionsWithin peerHost peerRealm calls connectionUrl keyFile certFile
      caCertFile nextAddr = .done conns := by
  induction calls generalizing connectionUrl keyFile certFile caCertFile nextAddr with
  | zero => omega
  | succ calls ih =>
    have hargument : ∀ {strategy : LoadBalancerStrategy} {s : List Char} (kind : ContainerKind),
        LoadBalancerStrategy.fromStr connectionUrl = some (some strategy) → strategy.parts = [s] →
        strategy.argument? = some s → ∃ conns, (do
          let conns ← createConnectionsWithin peerHost peerRealm calls s keyFile certFile
            caCertFile nextAddr
          .done (wrap kind peerHost peerRealm conns)) = Checked.done conns := by
      intro strategy s kind h hparts hs
      have hshorter := rank_argument_lt h hs
      have hpart := LoadBalancerStrategy.ascii_of_fromStr hascii h s (by simp [hparts])
      obtain ⟨conns, hconns⟩ := ih hpart (by omega) nextAddr
      exact ⟨_, by rw [hconns, done_bind]⟩
    obtain ⟨r, hr⟩ := LoadBalancerStrategy.isSome_fromStr_of_ascii hascii
    rw [createConnectionsWithin, hr]
    cases r with
    | none => exact ⟨_, rfl⟩
    | some strategy =>
      cases strategy with
      | roundRobin s => exact hargument .roundRobin hr rfl rfl
      | failOver s => exact hargument .failOver hr rfl rfl
      | random s => exact hargument .random hr rfl rfl
      | value values =>
        dsimp only
        by_cases hv : values = [connectionUrl]
        · exact ⟨_, if_pos hv⟩
        · rw [if_neg hv]
          refine exists_foldlM_eq_done (fun v hmem conns => ?_) _
          have hshorter := rank_lt_of_fromStr_value hr hv v hmem
          have hpart := LoadBalancerStrategy.ascii_of_fromStr hascii hr v hmem
          have hturn : ∃ more, createConnectionsWithin peerHost peerRealm calls v certFile keyFile
              caCertFile conns.2 = .done more := ih hpart (by omega) conns.2
          obtain ⟨more, hmore⟩ := hturn
          exact ⟨_, by rw [hmore, done_bind]⟩

end

end PeerConnection

/-! ### The containers of a route -/

/-- `create_connection_from`, with so many calls open inside each other. -/
def createConnectionFromWithin : Nat → List Char → RouteBuilder →
    Checked (Option (List Route) × RouteBuilder)
  | 0, _, _ => .running
  | calls + 1, config, b =>
      match LoadBalancerStrategy.fromStr config with
      | none => .panicked
      | some none => .done (none, b)
      | some (some (.roundRobin s)) => do
          let conns ← createConnectionFromWithin calls s b
          .done (RouteBuilder.wrap .roundRobin conns)
      | some (some (.random s)) => do
          let conns ← createConnectionFromWithin calls s b
          .done (RouteBuilder.wrap .random conns)
      | some (some (.failOver s)) => do
          let conns ← createConnectionFromWithin calls s b
          .done (RouteBuilder.wrap .failOver conns)
      | some (some (.value values)) =>
          if values.length = 1 then do
            let value ← index values 0
            .done (b.slot value)
          else do
            let r ← values.foldlM (fun r s => do
              let conns ← createConnectionFromWithin calls s r.2
              .done (r.1 ++ conns.1.getD [], conns.2)) ([], b)
            .done (some r.1, r.2)

section
variable {n calls : Nat} {values : List (List Char)} {config : List Char}

theorem foldlM_createEach {call : List Char → RouteBuilder →
      Checked (Option (List Route) × RouteBuilder)}
    (hn : ∀ p ∈ values, p.length < n)
    (h : ∀ v ∈ values, ∀ b, call v b = ofOrPanic (createConnectionFrom v b))
    (routes : List Route) (b : RouteBuilder) :
    values.foldlM (fun r s => do
        let conns ← call s r.2
        .done (r.1 ++ conns.1.getD [], conns.2)) (routes, b) =
      ofOrPanic ((createEach n values hn b).map fun r => (routes ++ r.1, r.2)) := by
  induction values generalizing routes b with
  | nil =>
    rw [createEach, Option.map_some, List.append_nil]
    rfl
  | cons v values ih =>
    have hrest := ih (fun p hp => hn p (List.mem_cons_of_mem v hp))
      fun w hw => h w (List.mem_cons_of_mem v hw)
    rw [createEach, List.foldlM_cons, h v List.mem_cons_self]
    cases createConnectionFrom v b with
    | none => rfl
    | some r =>
      rw [ofOrPanic_some, done_bind, done_bind, hrest, Option.map_map]
      simp only [Function.comp_def, List.append_assoc]

/-- The calls that are open are no more than the characters of the text. -/
theorem createConnectionFromWithin_eq (hcalls : config.length < calls) (b : RouteBuilder) :
    createConnectionFromWithin calls config b = ofOrPanic (createConnectionFrom config b) := by
  induction calls generalizing config b with
  | zero => omega
  | succ calls ih =>
    have hargument : ∀ {strategy : LoadBalancerStrategy} {s : List Char},
        LoadBalancerStrategy.fromStr config = some (some strategy) →
        strategy.argument? = some s → s.length < calls := by
      intro strategy s h hs
      have := LoadBalancerStrategy.length_argument_lt_of_fromStr h hs
      omega
    rw [createConnectionFrom]
    split
    · rw [createConnectionFromWithin, ‹LoadBalancerStrategy.fromStr config = _›]
      rfl
    · rw [createConnectionFromWithin, ‹LoadBalancerStrategy.fromStr config = _›]
      rfl
    · rename_i s h
      rw [createConnectionFromWithin, h, ← ofOrPanic_map, ← ih (hargument h rfl)]
    · rename_i s h
      rw [createConnectionFromWithin, h, ← ofOrPanic_map, ← ih (hargument h rfl)]
    · rename_i s h
      rw [createConnectionFromWithin, h, ← ofOrPanic_map, ← ih (hargument h rfl)]
    · rename_i values h
      by_cases hl : values.length = 1
      · rw [dif_pos hl, createConnectionFromWithin, h]
        dsimp only
        rw [if_pos hl, index_of_lt, done_bind, ofOrPanic_some]
      · have hlt := LoadBalancerStrategy.length_lt_of_fromStr_value h hl
        have hwithin : createConnectionFromWithin (calls + 1) config b = (do
            let r ← values.foldlM (fun r s => do
              let conns ← createConnectionFromWithin calls s r.2
              .done (r.1 ++ conns.1.getD [], conns.2)) ([], b)
            .done (some r.1, r.2)) := by
          rw [createConnectionFromWithin, h]
          exact if_neg hl
        rw [hwithin, dif_neg hl, foldlM_createEach hlt fun v hmem b => ih (by
          have := hlt v hmem
          omega) b]
        cases createEach config.length values hlt b <;> simp

theorem exists_createConnectionFromWithin (hascii : ∀ c ∈ config, c.toNat ≤ 127)
    (hcalls : config.length < calls) (b : RouteBuilder) :
    ∃ r, createConnectionFromWithin calls config b = .done r := by
  induction calls generalizing config b with
  | zero => omega
  | succ calls ih =>
    have hargument : ∀ {strategy : LoadBalancerStrategy} {s : List Char} (kind : ContainerKind),
        LoadBalancerStrategy.fromStr config = some (some strategy) → strategy.parts = [s] →
        strategy.argument? = some s → ∃ r, (do
          let conns ← createConnectionFromWithin calls s b
          .done (RouteBuilder.wrap kind conns)) = Checked.done r := by
      intro strategy s kind h hparts hs
      have hshorter := LoadBalancerStrategy.length_argument_lt_of_fromStr h hs
      have hpart := LoadBalancerStrategy.ascii_of_fromStr hascii h s (by simp [hparts])
      obtain ⟨conns, hconns⟩ := ih hpart (by omega) b
      exact ⟨_, by rw [hconns, done_bind]⟩
    obtain ⟨r, hr⟩ := LoadBalancerStrategy.isSome_fromStr_of_ascii hascii
    rw [createConnectionFromWithin, hr]
    cases r with
    | none => exact ⟨_, rfl⟩
    | some strategy =>
      cases strategy with
      | roundRobin s => exact hargument .roundRobin hr rfl rfl
      | failOver s => exact hargument .failOver hr rfl rfl
      | random s => exact hargument .random hr rfl rfl
      | value values =>
        dsimp only
        by_cases hl : values.length = 1
        · rw [if_pos hl, index_of_lt (by omega), done_bind]
          exact ⟨_, rfl⟩
        · rw [if_neg hl]
          have hlt := LoadBalancerStrategy.length_lt_of_fromStr_value hr hl
          have hloop : ∃ r, values.foldlM (fun r s => do
              let conns ← createConnectionFromWithin calls s r.2
              .done (r.1 ++ conns.1.getD [], conns.2)) ([], b) = Checked.done r := by
            refine exists_foldlM_eq_done (fun v hmem r => ?_) _
            have hshorter := hlt v hmem
            have hpart := LoadBalancerStrategy.ascii_of_fromStr hascii hr v hmem
            obtain ⟨conns, hconns⟩ := ih hpart (by omega) r.2
            exact ⟨_, by rw [hconns, done_bind]⟩
          obtain ⟨r, hr⟩ := hloop
          exact ⟨_, by rw [hr, done_bind]⟩

end

/-- **The recursions over expressions end.** On an ASCII text neither panics, and no more calls
are ever open inside each other than its length allows. -/
theorem recursions_end (peerHost peerRealm keyFile certFile caCertFile : String) (nextAddr : Nat)
    (b : RouteBuilder) {text : List Char} (hascii : ∀ c ∈ text, c.toNat ≤ 127) :
    (∃ conns, PeerConnection.createConnections peerHost peerRealm text keyFile certFile caCertFile
        nextAddr = some conns ∧
      ∀ calls, 2 * text.length + 2 ≤ calls →
        PeerConnection.createConnectionsWithin peerHost peerRealm calls text keyFile certFile
          caCertFile nextAddr = .done conns) ∧
      ∃ r, createConnectionFrom text b = some r ∧
        ∀ calls, text.length + 1 ≤ calls → createConnectionFromWithin calls text b = .done r := by
  have hrank : rank text < 2 * text.length + 2 := by
    unfold rank
    split <;> omega
  constructor
  · obtain ⟨conns, hdone⟩ : ∃ conns, PeerConnection.createConnectionsWithin peerHost peerRealm
        (2 * text.length + 2) text keyFile certFile caCertFile nextAddr = .done conns :=
      PeerConnection.exists_createConnectionsWithin hascii hrank nextAddr
    have hconns := hdone.symm.trans (PeerConnection.createConnectionsWithin_eq hrank nextAddr)
    have hsome := eq_some_of_ofOrPanic hconns.symm
    refine ⟨conns, hsome, fun calls hcalls => ?_⟩
    rw [PeerConnection.createConnectionsWithin_eq (by omega), hsome, ofOrPanic_some]
  · obtain ⟨r, hdone⟩ := exists_createConnectionFromWithin hascii (Nat.lt_succ_self text.length) b
    have hr := hdone.symm.trans (createConnectionFromWithin_eq (Nat.lt_succ_self text.length) b)
    have hsome := eq_some_of_ofOrPanic hr.symm
    refine ⟨r, hsome, fun calls hcalls => ?_⟩
    rw [createConnectionFromWithin_eq hcalls, hsome, ofOrPanic_some]

/-- A text in upper case, with empty parts, spaces and parentheses in the wrong order. -/
theorem recursions_end_misordered :
    (∃ conns, PeerConnection.createConnectionsWithin "h" "r" 20 ")A;; (;B".toList "" "" "" 0 =
      .done conns) ∧
      ∃ r, createConnectionFromWithin 10 ")A;; (;B".toList { nextAddr := 1, slots := ∅ } =
        .done r := by
  have hascii : ∀ c ∈ ")A;; (;B".toList, c.toNat ≤ 127 := by simp
  obtain ⟨hconns, hroutes⟩ := recursions_end "h" "r" "" "" "" 0 { nextAddr := 1, slots := ∅ } hascii
  obtain ⟨conns, -, hconns⟩ := hconns
  obtain ⟨r, -, hroutes⟩ := hroutes
  exact ⟨⟨conns, hconns 20 (by decide)⟩, ⟨r, hroutes 10 (by decide)⟩⟩

end RestDiameterBridge
