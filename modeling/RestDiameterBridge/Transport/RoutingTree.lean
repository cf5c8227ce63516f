import RestDiameterBridge.Transport.Routing

/-!
# RestDiameterBridge.Transport.RoutingTree

Route expressions as trees (`RoutingConnection::create_connection_from` in
`src/transport/routing_connection.rs` on what `LoadBalancerStrategy::from_str` in
`src/stack.rs` makes of a text).

A `StrategyTree` is what an expression means: strategies over one or more expressions, down
to the names of peers. `createConnectionFrom_print` says that its text, with the keywords in
any letter case, is turned into containers of the same shape, whose slots are filed under
the names of the leaves in their order. The parser cuts a text only where its level is 0,
and a printed tree is `Nested`, so the cuts are those between siblings.
-/

namespace RestDiameterBridge

open LoadBalancerStrategy Nesting

/-- A name that can stand in an expression. -/
structure LeafName where
  text : List Char
  ne_nil : text ≠ []
  lower : toLowercase text = text
  ascii : ∀ c ∈ text, c.toNat ≤ 127
  plain : ∀ c ∈ text, c ≠ '(' ∧ c ≠ ')' ∧ c ≠ ';'
  trimmed : trim text = text

/-- An expression: a name, or a strategy over one or more expressions. -/
inductive StrategyTree
  | leaf (name : LeafName)
  | node (kind : ContainerKind) (child : StrategyTree) (children : List StrategyTree)

namespace StrategyTree

/-- The keyword of a strategy. -/
def keyword : ContainerKind → List Char
  | .roundRobin => "roundrobin".toList
  | .failOver => "failover".toList
  | .random => "random".toList

/-- A strategy around a text. -/
def enclose (kind : ContainerKind) (body : List Char) : List Char :=
  keyword kind ++ '(' :: (body ++ [')'])

mutual
/-- The text of an expression. -/
def print : StrategyTree → List Char
  | leaf name => name.text
  | node kind child children => enclose kind (print child ++ printRest children)
/-- The texts of the further children of a strategy. -/
def printRest : List StrategyTree → List Char
  | [] => []
  | t :: ts => ';' :: (print t ++ printRest ts)
end

mutual
/-- The names of the leaves. -/
def leaves : StrategyTree → List String
  | leaf name => [String.ofList name.text]
  | node _ child children => child.leaves ++ leavesList children
/-- The names of the leaves of several expressions. -/
def leavesList : List StrategyTree → List String
  | [] => []
  | t :: ts => t.leaves ++ leavesList ts
end

/-! ### Texts of trees -/

theorem ascii_keyword (kind : ContainerKind) : ∀ c ∈ keyword kind, c.toNat ≤ 127 := by
  have hall : (keyword kind).all (·.toNat ≤ 127) = true := by cases kind <;> decide
  simpa using hall

/-- The keywords are plain text. -/
theorem plain_keyword (kind : ContainerKind) : ∀ c ∈ keyword kind, c ≠ '(' ∧ c ≠ ')' ∧ c ≠ ';' := by
  have hall : (keyword kind).all (fun c => c != '(' && c != ')' && c != ';') = true := by
    cases kind <;> decide
  simpa [and_assoc] using hall

theorem paren_keyword (kind : ContainerKind) : ∀ c ∈ keyword kind, paren c = 0 := by
  intro c hc
  obtain ⟨hopen, hclose, -⟩ := plain_keyword kind c hc
  rw [paren, if_neg hopen, if_neg hclose]

theorem nested_enclose (kind : ContainerKind) {body : List Char} (h : Nested paren body) :
    Nested paren (enclose kind body) :=
  (nested_of_weightless (paren_keyword kind)).append (h.bracket rfl rfl)

/-- The semicolons inside a strategy do not separate. -/
theorem shields_enclose (kind : ContainerKind) {body : List Char} (h : Nested paren body) :
    Shields paren (· = ';') 0 (enclose kind body) := by
  have hkeyword : Shields paren (· = ';') 0 (keyword kind) :=
    shields_of_forall fun c hc => (plain_keyword kind c hc).2.2
  rw [enclose, shields_append_iff, depth_of_weightless (paren_keyword kind)]
  refine ⟨hkeyword, by simp [paren], ?_⟩
  rw [shields_append_iff]
  refine ⟨shields_of_pos (by decide) h.depth_nonneg, ?_⟩
  simp [Shields, h.depth_eq]

theorem ascii_enclose (kind : ContainerKind) {body : List Char} (h : ∀ c ∈ body, c.toNat ≤ 127) :
    ∀ c ∈ enclose kind body, c.toNat ≤ 127 := by
  have hopen : '('.toNat ≤ 127 := by decide
  have hclose : ')'.toNat ≤ 127 := by decide
  simp only [enclose, List.forall_mem_append, List.forall_mem_cons]
  exact ⟨ascii_keyword kind, hopen, h, hclose, by simp⟩

mutual
theorem nested_print (t : StrategyTree) : Nested paren t.print := by
  match t with
  | leaf name =>
    refine nested_of_weightless fun c hc => ?_
    obtain ⟨hopen, hclose, -⟩ := name.plain c hc
    rw [paren, if_neg hopen, if_neg hclose]
  | node kind child children =>
    exact nested_enclose kind ((nested_print child).append (nested_printRest children))
theorem nested_printRest (ts : List StrategyTree) : Nested paren (printRest ts) := by
  match ts with
  | [] => exact nested_of_weightless (by simp [printRest])
  | t :: ts =>
    have hsep : Nested paren [';'] := nested_of_weightless (by simp [paren])
    exact hsep.append ((nested_print t).append (nested_printRest ts))
end

/-- No semicolon in the text of a tree separates. -/
theorem shields_print (t : StrategyTree) : Shields paren (· = ';') 0 t.print := by
  match t with
  | leaf name => exact shields_of_forall fun c hc => (name.plain c hc).2.2
  | node kind child children =>
    exact shields_enclose kind ((nested_print child).append (nested_printRest children))

mutual
theorem ascii_print (t : StrategyTree) : ∀ c ∈ t.print, c.toNat ≤ 127 := by
  match t with
  | leaf name => exact name.ascii
  | node kind child children =>
    refine ascii_enclose kind ?_
    rw [List.forall_mem_append]
    exact ⟨ascii_print child, ascii_printRest children⟩
theorem ascii_printRest (ts : List StrategyTree) : ∀ c ∈ printRest ts, c.toNat ≤ 127 := by
  match ts with
  | [] => simp [printRest]
  | t :: ts =>
    have hsep : ';'.toNat ≤ 127 := by decide
    simp only [printRest, List.forall_mem_append, List.forall_mem_cons]
    exact ⟨hsep, ascii_print t, ascii_printRest ts⟩
end

mutual
theorem toLowercase_print (t : StrategyTree) : toLowercase t.print = t.print := by
  match t with
  | leaf name => exact name.lower
  | node kind child children =>
    have hkeyword : (keyword kind).map lowerChar = keyword kind := by cases kind <;> decide
    have hchild := toLowercase_print child
    have hchildren := toLowercase_printRest children
    rw [toLowercase] at hchild hchildren
    simp only [print, enclose, toLowercase, List.map_append, List.map_cons, List.map_nil, hkeyword,
      hchild, hchildren]
    rfl
theorem toLowercase_printRest (ts : List StrategyTree) :
    toLowercase (printRest ts) = printRest ts := by
  match ts with
  | [] => rfl
  | t :: ts =>
    have hchild := toLowercase_print t
    have hchildren := toLowercase_printRest ts
    rw [toLowercase] at hchild hchildren
    simp only [printRest, toLowercase, List.map_append, List.map_cons, hchild, hchildren]
    rfl
end

theorem trim_of_ends {c d : Char} {s : List Char} (hc : isWhitespace c = false)
    (hd : isWhitespace d = false) : trim (c :: (s ++ [d])) = c :: (s ++ [d]) := by
  have hback : (c :: (s ++ [d])).reverse = d :: (c :: s).reverse := by simp
  rw [trim, List.dropWhile_cons_of_neg (by simp [hc]), hback,
    List.dropWhile_cons_of_neg (by simp [hd]), ← hback, List.reverse_reverse]

theorem trim_print (t : StrategyTree) : trim t.print = t.print := by
  match t with
  | leaf name => exact name.trimmed
  | node kind child children =>
    obtain ⟨c, rest, hkeyword, hc⟩ :
        ∃ c rest, keyword kind = c :: rest ∧ isWhitespace c = false := by
      cases kind <;> exact ⟨_, _, rfl, rfl⟩
    have hprint : (node kind child children).print =
        c :: ((rest ++ '(' :: (print child ++ printRest children)) ++ [')']) := by
      simp [print, enclose, hkeyword]
    rw [hprint]
    exact trim_of_ends hc (by decide)

theorem print_ne_nil (t : StrategyTree) : t.print ≠ [] := by
  match t with
  | leaf name => exact name.ne_nil
  | node kind child children => simp [print, enclose]

/-! ### Scanning -/

section
variable {strategy p rest : List Char} {index start : Nat} {level : Int} {values : List (List Char)}

/-- The loop cuts nothing where the text has no separator, unless it is the last part of a
list. -/
theorem scan_of_shields (h : Shields paren (· = ';') level p) (hlast : rest ≠ [] ∨ start = 0)
    (hindex : index + (p ++ rest).length = strategy.length) :
    scan strategy (p ++ rest) index start level values =
      scan strategy rest (index + p.length) start (level + depth paren p) values := by
  induction p generalizing index level with
  | nil => simp
  | cons c p ih =>
    obtain ⟨hsep, hrest⟩ := h
    rw [List.cons_append, List.length_cons] at hindex
    have hnot : ¬(level + paren c = 0 ∧ strategy.length ≤ index + 1 ∧ 0 < start) := by
      intro hall
      obtain ⟨-, hend, hstart⟩ := hall
      have := List.length_pos_iff.mpr (hlast.resolve_right (by omega))
      rw [List.length_append] at hindex
      omega
    simp only [List.cons_append, scan, level_eq]
    rw [if_neg fun hcut => hsep hcut.1 hcut.2, if_neg hnot, ih hrest (by omega), depth_cons,
      List.length_cons, Int.add_assoc, Nat.add_assoc, Nat.add_comm 1]

/-- The last part of a list is what is left of the text. -/
theorem scan_last (h : Shields paren (· = ';') 0 p) (hdepth : depth paren p = 0) (hne : p ≠ [])
    (hstart : 0 < start) (hindex : index + p.length = strategy.length) :
    scan strategy p index start 0 values = (0, values ++ [trim (strategy.drop start)]) := by
  obtain ⟨q, c, rfl⟩ := (List.eq_nil_or_concat p).resolve_left hne
  rw [List.concat_eq_append] at h hdepth hindex ⊢
  obtain ⟨hq, hc, -⟩ := shields_append_iff.mp h
  have hlevel : 0 + depth paren q + paren c = 0 := by
    rw [depth_append, depth_cons, depth_nil] at hdepth
    omega
  rw [scan_of_shields hq (.inl (by simp)) hindex]
  rw [List.length_append, List.length_singleton] at hindex
  simp only [scan, level_eq]
  rw [if_neg fun hcut => hc hlevel hcut.2, if_pos ⟨hlevel, by omega, hstart⟩, hlevel]

/-- A separator on the outermost level ends a part. -/
theorem scan_cut {pre : List Char} (h : Shields paren (· = ';') 0 p) (hdepth : depth paren p = 0)
    (htrim : trim p = p) (hstrategy : strategy = pre ++ (p ++ ';' :: rest)) :
    scan strategy (p ++ ';' :: rest) pre.length pre.length 0 values =
      scan strategy rest (pre ++ (p ++ [';'])).length (pre ++ (p ++ [';'])).length 0
        (values ++ [p]) := by
  have hpart : (strategy.drop pre.length).take (pre.length + p.length - pre.length) = p := by
    rw [hstrategy, List.drop_left, Nat.add_sub_cancel_left, List.take_left]
  rw [scan_of_shields h (.inl (by simp)) (by simp [hstrategy]), hdepth]
  simp only [scan, level_eq]
  rw [if_pos ⟨by simp [paren], trivial⟩, hpart, htrim]
  simp [paren, Nat.add_assoc]

end

/-- The parts of a list of trees, read from behind a separator. -/
theorem scan_printRest (t : StrategyTree) (ts : List StrategyTree) {pre strategy : List Char}
    (values : List (List Char)) (hpre : pre ≠ [])
    (hstrategy : strategy = pre ++ (t.print ++ printRest ts)) :
    scan strategy (t.print ++ printRest ts) pre.length pre.length 0 values =
      (0, values ++ (t :: ts).map print) := by
  induction ts generalizing t pre values with
  | nil =>
    rw [printRest, List.append_nil] at hstrategy ⊢
    rw [scan_last (shields_print t) (nested_print t).depth_eq (print_ne_nil t)
      (List.length_pos_iff.mpr hpre) (by rw [hstrategy, List.length_append]), hstrategy,
      List.drop_left, trim_print]
    rfl
  | cons t' ts ih =>
    rw [printRest] at hstrategy ⊢
    rw [scan_cut (shields_print t) (nested_print t).depth_eq (trim_print t) hstrategy,
      ih t' _ (by simp) (by simp [hstrategy])]
    simp

/-- A text without separators is not a list. -/
theorem scan_whole {strategy : List Char} (h : Shields paren (· = ';') 0 strategy)
    (hdepth : depth paren strategy = 0) : scan strategy strategy 0 0 0 [] = (0, []) := by
  have hscan := @scan_of_shields strategy strategy [] 0 0 0 [] h (.inr rfl) (by simp)
  rw [List.append_nil, hdepth] at hscan
  exact hscan

/-! ### Parsing -/

section
variable {text strategy : List Char}

theorem not_any_of_ascii (h : ∀ c ∈ strategy, c.toNat ≤ 127) :
    ¬strategy.any (127 < ·.toNat) = true := by
  simpa using h

/-- A name. -/
theorem fromStr_leaf {name : LeafName} (htext : toLowercase text = name.text) :
    fromStr text = some (some (.value [name.text])) := by
  have hstarts : ∀ prefixes : List String, (∀ p ∈ prefixes, '(' ∈ p.toList) →
      startsWithOneOf name.text prefixes = false := by
    intro prefixes hopen
    refine Bool.eq_false_iff.mpr fun hstarts => ?_
    exact (name.plain _ (mem_of_startsWithOneOf hopen hstarts)).1 rfl
  have hscan : scan name.text name.text 0 0 0 [] = (0, []) :=
    scan_whole (shields_print (leaf name)) (nested_print (leaf name)).depth_eq
  simp only [fromStr, htext]
  rw [if_neg (not_any_of_ascii name.ascii), hscan, hstarts _ (by decide), hstarts _ (by decide),
    hstarts _ (by decide)]
  simp

/-- A strategy around a nested text. -/
theorem fromStr_enclose {kind : ContainerKind} {body : List Char}
    (htext : toLowercase text = enclose kind body) (hascii : ∀ c ∈ body, c.toNat ≤ 127)
    (hbody : Nested paren body) : fromStr text = some (some (.container kind body)) := by
  have hscan := scan_whole (shields_enclose kind hbody) (nested_enclose kind hbody).depth_eq
  have hargument : argument (enclose kind body) = some body := by
    rw [enclose, argument_append (by cases kind <;> decide)]
    simp
  have hclose : (enclose kind body).getLast? = some ')' := by
    rw [enclose, ← List.cons_append, ← List.append_assoc, List.getLast?_concat]
  simp only [fromStr, htext]
  rw [if_neg (not_any_of_ascii (ascii_enclose kind hascii)), hscan, hargument, hclose]
  cases kind with
  | _ => rfl

/-- A list of at least two trees. -/
theorem fromStr_list {t t' : StrategyTree} {ts : List StrategyTree}
    (htext : toLowercase text = t.print ++ printRest (t' :: ts)) :
    fromStr text = some (some (.value ((t :: t' :: ts).map print))) := by
  have hascii : ∀ c ∈ t.print ++ printRest (t' :: ts), c.toNat ≤ 127 := by
    rw [List.forall_mem_append]
    exact ⟨ascii_print t, ascii_printRest _⟩
  have hscan : scan (t.print ++ printRest (t' :: ts)) (t.print ++ printRest (t' :: ts)) 0 0 0 [] =
      (0, (t :: t' :: ts).map print) := by
    rw [printRest]
    refine (@scan_cut _ t.print (t'.print ++ printRest ts) [] [] (shields_print t)
      (nested_print t).depth_eq (trim_print t) rfl).trans ?_
    exact scan_printRest t' ts _ (by simp) (by simp)
  simp only [fromStr, htext]
  rw [if_neg (not_any_of_ascii hascii), hscan]
  simp

end

/-! ### The containers -/

/-- The containers have the shape of the tree. -/
inductive Mirrors : StrategyTree → Route → Prop
  | slot (name : LeafName) (self : Handle) : Mirrors (.leaf name) (.slot self)
  | container (kind : ContainerKind) (self : Handle) {child : StrategyTree}
      {children : List StrategyTree} {routes : List Route}
      (h : List.Forall₂ Mirrors (child :: children) routes) :
      Mirrors (.node kind child children) (.container kind self routes)

/-- File slots under names, one after another. -/
def fileAll (slots : AList fun _ : String => Nat) (entries : List (String × Nat)) :
    AList fun _ : String => Nat :=
  entries.foldl (fun slots entry => slots.insert entry.1 entry.2) slots

/-- The containers between two states of the builder are those of the trees: of the same
shape, with a slot of its own for each leaf, filed under the name of the leaf. -/
structure Builds (ts : List StrategyTree) (b : RouteBuilder) (routes : List Route)
    (b' : RouteBuilder) : Prop where
  mirrors : List.Forall₂ Mirrors ts routes
  le : b.nextAddr ≤ b'.nextAddr
  fresh : ∀ a ∈ Route.slotsList routes, b.nextAddr ≤ a ∧ a < b'.nextAddr
  nodup : (Route.slotsList routes).Nodup
  filed : ∃ entries, entries.map Prod.fst = leavesList ts ∧
    entries.map Prod.snd = Route.slotsList routes ∧ b'.slots = fileAll b.slots entries

section
variable {b b₁ b' : RouteBuilder} {t : StrategyTree} {ts : List StrategyTree} {route : Route}
  {routes : List Route} {text : List Char}

theorem builds_nil (b : RouteBuilder) : Builds [] b [] b where
  mirrors := .nil
  le := Nat.le_refl _
  fresh := by simp [Route.slotsList]
  nodup := List.nodup_nil
  filed := ⟨[], rfl, rfl, rfl⟩

theorem Builds.cons (h : Builds [t] b [route] b₁) (hs : Builds ts b₁ routes b') :
    Builds (t :: ts) b (route :: routes) b' where
  mirrors := .cons (List.forall₂_cons.mp h.mirrors).1 hs.mirrors
  le := Nat.le_trans h.le hs.le
  fresh a ha := by
    have hle := h.le
    have hle' := hs.le
    rw [Route.slotsList, List.mem_append] at ha
    rcases ha with ha | ha
    · have := h.fresh a (by simpa [Route.slotsList] using ha)
      omega
    · have := hs.fresh a ha
      omega
  nodup := by
    have hnodup := h.nodup
    rw [Route.slotsList, Route.slotsList, List.append_nil] at hnodup
    rw [Route.slotsList, List.nodup_append']
    refine ⟨hnodup, hs.nodup, fun a ha ha' => ?_⟩
    have := h.fresh a (by simpa [Route.slotsList] using ha)
    have := hs.fresh a ha'
    omega
  filed := by
    obtain ⟨entries, hnames, hslots, hfiled⟩ := h.filed
    obtain ⟨entries', hnames', hslots', hfiled'⟩ := hs.filed
    refine ⟨entries ++ entries', ?_, ?_, ?_⟩
    · rw [List.map_append, hnames, hnames']
      simp [leavesList]
    · rw [List.map_append, hslots, hslots']
      simp [Route.slotsList]
    · rw [hfiled', hfiled, fileAll, fileAll, fileAll, List.foldl_append]

theorem builds_slot (b : RouteBuilder) (name : LeafName) :
    Builds [leaf name] b [.slot (b.handle .roundRobin)] (b.slot name.text).2 where
  mirrors := .cons (.slot name _) .nil
  le := Nat.le_succ _
  fresh := by simp [Route.slotsList, Route.slots, RouteBuilder.handle, RouteBuilder.slot]
  nodup := by simp [Route.slotsList, Route.slots]
  filed := ⟨[(String.ofList name.text, b.nextAddr)], rfl, rfl, rfl⟩

/-- A container around what was built. -/
theorem Builds.wrap {child : StrategyTree} {children : List StrategyTree} (kind : ContainerKind)
    (h : Builds (child :: children) b routes b₁) :
    Builds [node kind child children] b [.container kind (b₁.handle kind) routes]
      { b₁ with nextAddr := b₁.nextAddr + 1 } where
  mirrors := .cons (.container kind _ h.mirrors) .nil
  le := Nat.le_succ_of_le h.le
  fresh a ha := by
    have := h.fresh a (by simpa [Route.slotsList, Route.slots] using ha)
    exact ⟨this.1, Nat.lt_succ_of_lt this.2⟩
  nodup := by simpa [Route.slotsList, Route.slots] using h.nodup
  filed := by simpa [Route.slotsList, Route.slots, leavesList, leaves] using h.filed

/-- A strategy builds its container around what its children build. -/
theorem createConnectionFrom_enclose {kind : ContainerKind} {child : StrategyTree}
    {children : List StrategyTree} (htext : toLowercase text = (node kind child children).print)
    (h : ∃ routes b', createConnectionFrom (child.print ++ printRest children) b =
      some (some routes, b') ∧ Builds (child :: children) b routes b') :
    ∃ route b', createConnectionFrom text b = some (some [route], b') ∧
      Builds [node kind child children] b [route] b' := by
  have hbody := (nested_print child).append (nested_printRest children)
  have hascii : ∀ c ∈ child.print ++ printRest children, c.toNat ≤ 127 := by
    rw [List.forall_mem_append]
    exact ⟨ascii_print child, ascii_printRest children⟩
  obtain ⟨routes, b₁, hcreate, hbuilds⟩ := h
  refine ⟨_, _, ?_, hbuilds.wrap kind⟩
  rw [createConnectionFrom_of_container (fromStr_enclose htext hascii hbody), hcreate]
  rfl

end

mutual
theorem exists_builds (t : StrategyTree) {text : List Char} (htext : toLowercase text = t.print)
    (b : RouteBuilder) :
    ∃ route b', createConnectionFrom text b = some (some [route], b') ∧
      Builds [t] b [route] b' := by
  match t with
  | leaf name =>
    refine ⟨_, _, ?_, builds_slot b name⟩
    rw [createConnectionFrom_of_single (fromStr_leaf htext) rfl]
    rfl
  | node kind child [] =>
    refine createConnectionFrom_enclose htext ?_
    rw [printRest, List.append_nil]
    obtain ⟨route, b', hcreate, hbuilds⟩ := exists_builds child (toLowercase_print child) b
    exact ⟨[route], b', hcreate, hbuilds⟩
  | node kind child (child' :: children) =>
    refine createConnectionFrom_enclose htext ?_
    have hlower : toLowercase (child.print ++ printRest (child' :: children)) =
        child.print ++ printRest (child' :: children) := by
      have hchild := toLowercase_print child
      have hchildren := toLowercase_printRest (child' :: children)
      rw [toLowercase] at hchild hchildren ⊢
      rw [List.map_append, hchild, hchildren]
    have hvalues := fromStr_list hlower
    obtain ⟨route, b₁, hcreate, hbuilds⟩ := exists_builds child (toLowercase_print child) b
    obtain ⟨routes, b', heach, hrest⟩ := exists_builds_createEach (child' :: children) _
      (fun p hp => length_lt_of_fromStr_value hvalues (by simp) p (List.mem_cons_of_mem _ hp)) b₁
    refine ⟨route :: routes, b', ?_, hbuilds.cons hrest⟩
    rw [createConnectionFrom_of_values hvalues (by simp)]
    simp only [List.map_cons, createEach, hcreate] at heach ⊢
    rw [heach]
    rfl
theorem exists_builds_createEach (ts : List StrategyTree) (n : Nat)
    (hn : ∀ p ∈ ts.map print, p.length < n) (b : RouteBuilder) :
    ∃ routes b', createEach n (ts.map print) hn b = some (routes, b') ∧ Builds ts b routes b' := by
  match ts with
  | [] =>
    refine ⟨[], b, ?_, builds_nil b⟩
    simp only [List.map_nil, createEach]
  | t :: ts =>
    obtain ⟨route, b₁, hcreate, hbuilds⟩ := exists_builds t (toLowercase_print t) b
    obtain ⟨routes, b', heach, hrest⟩ :=
      exists_builds_createEach ts n (fun p hp => hn p (List.mem_cons_of_mem _ hp)) b₁
    refine ⟨route :: routes, b', ?_, hbuilds.cons hrest⟩
    simp only [List.map_cons, createEach, hcreate, heach]
    rfl
end

/-- **Parsing and printing.** The text of a tree, with the keywords in any letter case, is
turned into the containers of the tree. -/
theorem createConnectionFrom_print (t : StrategyTree) {text : List Char}
    (htext : toLowercase text = t.print) (b : RouteBuilder) :
    ∃ route b', createConnectionFrom text b = some (some [route], b') ∧
      Builds [t] b [route] b' :=
  exists_builds t htext b

/-- A tree with single children, and strategies at both ends of a list. -/
def sample : StrategyTree :=
  let name : LeafName :=
    { text := "a@x.com".toList, ne_nil := by decide, lower := by decide, ascii := by simp
      plain := by simp, trimmed := by decide }
  .node .roundRobin (.node .failOver (.leaf name) [.leaf name])
    [.leaf name, .node .random (.node .failOver (.leaf name) []) []]

theorem createConnectionFrom_print_sample :
    ∃ route b', createConnectionFrom
      "RoundRobin(FAILOVER(a@x.com;a@x.com);a@x.com;random(failOver(a@x.com)))".toList
        { nextAddr := 1, slots := ∅ } = some (some [route], b') ∧
      Builds [sample] { nextAddr := 1, slots := ∅ } [route] b' :=
  createConnectionFrom_print sample (by decide) _

end StrategyTree

end RestDiameterBridge
