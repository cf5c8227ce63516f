import Mathlib.Data.List.Infix
import RestDiameterBridge.Lib.Nesting
import RestDiameterBridge.Lib.OrPanic

/-!
# RestDiameterBridge.LoadBalancerStrategy

The load-balancing expressions of the configuration (`LoadBalancerStrategy` in
`src/stack.rs`): `roundrobin(..)`, `failover(..)`, `random(..)`, and lists separated by
semicolons.

Expressions are handled as lists of characters. The source lower-cases an expression
first and then indexes its characters by byte position, so it panics on what is not
ASCII by then.

`length_lt_of_fromStr` says that every part of an expression is shorter than the
expression, which is what the recursions over expressions terminate by, and
`parsesNested_iff` on which expressions the parser refuses just those whose parentheses are
not properly nested.
-/

namespace RestDiameterBridge

/-! ### Letter case

Only characters whose converted form is ASCII can be told apart by the code, which
compares with ASCII text; every other non-ASCII character is kept. -/

/-- The character in lower case. The Kelvin sign is the one non-ASCII character that
becomes ASCII. -/
def lowerChar (c : Char) : Char := if c = '\u212A' then 'k' else c.toLower

/-- `str::to_lowercase`. -/
def toLowercase (s : List Char) : List Char := s.map lowerChar

/-- The character in upper case. -/
def upperChar (c : Char) : List Char :=
  match c with
  | '\u00DF' => ['S', 'S']
  | '\u0131' => ['I']
  | '\u017F' => ['S']
  | '\uFB00' => ['F', 'F']
  | '\uFB01' => ['F', 'I']
  | '\uFB02' => ['F', 'L']
  | '\uFB03' => ['F', 'F', 'I']
  | '\uFB04' => ['F', 'F', 'L']
  | '\uFB05' => ['S', 'T']
  | '\uFB06' => ['S', 'T']
  | c => [c.toUpper]

/-- `str::to_uppercase`. -/
def toUppercase (s : List Char) : List Char := s.flatMap upperChar

/-- The white space of Unicode. -/
def isWhitespace (c : Char) : Bool :=
  c = ' ' || ('\t' ≤ c && c ≤ '\r') || c = '\u0085' || c = '\u00A0' || c = '\u1680' ||
    ('\u2000' ≤ c && c ≤ '\u200A') || c = '\u2028' || c = '\u2029' || c = '\u202F' ||
    c = '\u205F' || c = '\u3000'

/-- `str::trim`. -/
def trim (s : List Char) : List Char :=
  ((s.dropWhile isWhitespace).reverse.dropWhile isWhitespace).reverse

theorem trim_sublist (s : List Char) : (trim s).Sublist s := by
  have hback := (List.dropWhile_sublist (p := isWhitespace)
    (l := (s.dropWhile isWhitespace).reverse)).reverse
  rw [List.reverse_reverse] at hback
  exact hback.trans (List.dropWhile_sublist _)

theorem length_trim_le (s : List Char) : (trim s).length ≤ s.length := (trim_sublist s).length_le

/-- A load-balancing expression, one level parsed. -/
inductive LoadBalancerStrategy
  | roundRobin (s : List Char)
  | failOver (s : List Char)
  | random (s : List Char)
  | value (values : List (List Char))
  deriving Repr, DecidableEq

namespace LoadBalancerStrategy

/-- The loop of `from_str`, from the character at `index` on: the nesting level at the
end and the parts cut at semicolons outside parentheses. The level is an `i32`, of which an
expression shorter than 2^31 characters cannot run out. -/
def scan (strategy : List Char) :
    List Char → Nat → Nat → Int → List (List Char) → Int × List (List Char)
  | [], _, _, level, values => (level, values)
  | c :: rest, index, start, level, values =>
      let level := if c = '(' then level + 1 else if c = ')' then level - 1 else level
      if level = 0 ∧ c = ';' then
        let part := (strategy.drop start).take (index - start)
        scan strategy rest (index + 1) (index + 1) level (values ++ [trim part])
      else if level = 0 ∧ strategy.length ≤ index + 1 ∧ 0 < start then
        scan strategy rest (index + 1) start level (values ++ [trim (strategy.drop start)])
      else scan strategy rest (index + 1) start level values

/-- Does the expression start with one of the prefixes? -/
def startsWithOneOf (v : List Char) (prefixes : List String) : Bool :=
  prefixes.any fun p => p.toList.isPrefixOf v

/-- What stands behind the first opening parenthesis, without a final closing one. -/
def argument (strategy : List Char) : Option (List Char) :=
  match strategy.dropWhile (· ≠ '(') with
  | [] => none
  | _ :: s => if s.getLast? = some ')' then some s.dropLast else none

/-- Parse one level of an expression. There is no result on unbalanced parentheses. -/
def fromStr (strategy : List Char) : OrPanic (Option LoadBalancerStrategy) :=
  let strategy := toLowercase strategy
  if strategy.any (127 < ·.toNat) then none
  else
    let (level, values) := scan strategy strategy 0 0 0 []
    if level ≠ 0 then some none
    else if values ≠ [] then some (some (.value values))
    else if startsWithOneOf strategy ["round-robin(", "rr(", "roundrobin("] &&
        strategy.getLast? = some ')' then
      some ((argument strategy).map .roundRobin)
    else if startsWithOneOf strategy ["failover(", "fo(", "fail-over("] &&
        strategy.getLast? = some ')' then
      some ((argument strategy).map .failOver)
    else if startsWithOneOf strategy ["random(", "rand("] &&
        strategy.getLast? = some ')' then
      some ((argument strategy).map .random)
    else some (some (.value [strategy]))

/-! ### The parts of an expression are shorter -/

theorem length_argument_lt {strategy s : List Char} (h : argument strategy = some s) :
    s.length < strategy.length := by
  have hdrop := (List.dropWhile_sublist (p := (· ≠ '(')) (l := strategy)).length_le
  unfold argument at h
  split at h
  · cases h
  · rename_i c t heq
    rw [heq, List.length_cons] at hdrop
    split at h
    · obtain rfl := Option.some.inj h
      rw [List.length_dropLast]
      omega
    · cases h

theorem length_lt_of_mem_scan (strategy rest : List Char) (index start : Nat) (level : Int)
    (values : List (List Char)) (hindex : index + rest.length = strategy.length)
    (hvalues : ∀ p ∈ values, p.length < strategy.length) :
    ∀ p ∈ (scan strategy rest index start level values).2, p.length < strategy.length := by
  induction rest generalizing index start level values with
  | nil => simpa [scan] using hvalues
  | cons c rest ih =>
    rw [List.length_cons] at hindex
    have hpush : ∀ part : List Char, part.length < strategy.length →
        ∀ p ∈ values ++ [trim part], p.length < strategy.length := by
      intro part hpart p hp
      rcases List.mem_append.mp hp with hp | hp
      · exact hvalues p hp
      · have := length_trim_le part
        rw [List.mem_singleton.mp hp]
        omega
    simp only [scan]
    -- how the level changes does not matter, only where the cuts are
    generalize (if c = '(' then level + 1 else if c = ')' then level - 1 else level) = level'
    by_cases hcut : level' = 0 ∧ c = ';'
    · rw [if_pos hcut]
      refine ih _ _ _ _ (by omega) (hpush _ ?_)
      rw [List.length_take, List.length_drop]
      omega
    · rw [if_neg hcut]
      -- the last part, if a `;` has been seen before it
      by_cases hlast : level' = 0 ∧ strategy.length ≤ index + 1 ∧ 0 < start
      · rw [if_pos hlast]
        refine ih _ _ _ _ (by omega) (hpush _ ?_)
        rw [List.length_drop]
        omega
      · rw [if_neg hlast]
        exact ih _ _ _ _ (by omega) hvalues

/-- The expressions directly inside an expression. -/
def parts : LoadBalancerStrategy → List (List Char)
  | roundRobin s | failOver s | random s => [s]
  | value values => values

/-- The argument of a container. -/
def argument? : LoadBalancerStrategy → Option (List Char)
  | roundRobin s | failOver s | random s => some s
  | value _ => none

/-- Every part of an expression is shorter than it, but for an expression that is a
single name, which is its own part. -/
theorem length_lt_of_fromStr {config : List Char} {strategy : LoadBalancerStrategy}
    (h : fromStr config = some (some strategy)) :
    strategy = .value [toLowercase config] ∨
      ∀ p ∈ strategy.parts, p.length < config.length := by
  have hlen : (toLowercase config).length = config.length := by
    rw [toLowercase, List.length_map]
  have hscan := length_lt_of_mem_scan (toLowercase config) (toLowercase config) 0 0 0 []
    (Nat.zero_add _) (by simp)
  have harg : ∀ {kind : List Char → LoadBalancerStrategy}, (∀ s, (kind s).parts = [s]) →
      some ((argument (toLowercase config)).map kind) = some (some strategy) →
      ∀ p ∈ strategy.parts, p.length < config.length := by
    intro kind hkind h p hp
    obtain ⟨s, hs, rfl⟩ := Option.map_eq_some_iff.mp (Option.some.inj h)
    rw [hkind, List.mem_singleton] at hp
    rw [hp, ← hlen]
    exact length_argument_lt hs
  simp only [fromStr] at h
  split at h
  · cases h
  split at h
  · cases h
  split at h
  · obtain rfl := Option.some.inj (Option.some.inj h)
    exact .inr fun p hp => hlen ▸ hscan p hp
  split at h
  · exact .inr (harg (fun _ => rfl) h)
  split at h
  · exact .inr (harg (fun _ => rfl) h)
  split at h
  · exact .inr (harg (fun _ => rfl) h)
  · exact .inl (Option.some.inj (Option.some.inj h)).symm

/-- The argument of a container is shorter than the expression. -/
theorem length_argument_lt_of_fromStr {config s : List Char} {strategy : LoadBalancerStrategy}
    (h : fromStr config = some (some strategy)) (hs : strategy.argument? = some s) :
    s.length < config.length := by
  cases strategy with
  | value values => cases hs
  | _ =>
    obtain rfl := Option.some.inj hs
    rcases length_lt_of_fromStr h with heq | hlt
    · cases heq
    · exact hlt _ (List.mem_singleton_self _)

/-- The parts of a list that is not a single name are shorter than it. -/
theorem length_lt_of_fromStr_value {config : List Char} {values : List (List Char)}
    (h : fromStr config = some (some (.value values))) (hl : values.length ≠ 1) :
    ∀ p ∈ values, p.length < config.length := by
  rcases length_lt_of_fromStr h with heq | hlt
  · cases heq
    exact absurd rfl hl
  · exact hlt

/-! ### Nesting -/

/-- What a character adds to the level. -/
def paren (c : Char) : Int := if c = '(' then 1 else if c = ')' then -1 else 0

theorem level_eq (level : Int) (c : Char) :
    (if c = '(' then level + 1 else if c = ')' then level - 1 else level) = level + paren c := by
  unfold paren
  split
  · rfl
  · split
    · rfl
    · exact (Int.add_zero level).symm

/-- The level at the end is what the text opens and does not close. -/
theorem level_scan (strategy rest : List Char) (index start : Nat) (level : Int)
    (values : List (List Char)) :
    (scan strategy rest index start level values).1 = level + Nesting.depth paren rest := by
  induction rest generalizing index start level values with
  | nil => simp [scan]
  | cons c rest ih =>
    rw [Nesting.depth_cons, ← Int.add_assoc]
    simp only [scan, level_eq]
    split
    · exact ih ..
    · split
      · exact ih ..
      · exact ih ..

theorem toNat_toLower (c : Char) :
    c.toLower.toNat = if 65 ≤ c.toNat ∧ c.toNat ≤ 90 then c.toNat + 32 else c.toNat := by
  have hle : c.val ≥ 'A'.val ∧ c.val ≤ 'Z'.val ↔ 65 ≤ c.toNat ∧ c.toNat ≤ 90 := Iff.rfl
  unfold Char.toLower
  split
  · rename_i h
    rw [if_pos (hle.mp h)]
    have := hle.mp h
    show (c.val + ('a'.val - 'A'.val)).toNat = c.toNat + 32
    rw [UInt32.toNat_add]
    show (c.toNat + 32) % 2 ^ 32 = c.toNat + 32
    omega
  · rename_i h
    rw [if_neg (mt hle.mpr h)]

/-- Letter case does not matter to parentheses. -/
theorem paren_lowerChar (c : Char) : paren (lowerChar c) = paren c := by
  have hparen : ∀ d : Char, paren d = if d.toNat = 40 then 1 else if d.toNat = 41 then -1 else 0 := by
    intro d
    simp only [paren, ← Char.toNat_inj]
    rfl
  rw [lowerChar]
  split
  · rename_i h
    rw [h]
    rfl
  · rw [hparen, hparen, toNat_toLower]
    split
    · rw [if_neg (by omega), if_neg (by omega), if_neg (by omega), if_neg (by omega)]
    · rfl

/-- What is ASCII in lower case is ASCII, or the Kelvin sign. -/
theorem toNat_lowerChar_le_iff (c : Char) :
    (lowerChar c).toNat ≤ 127 ↔ c.toNat ≤ 127 ∨ c = '\u212A' := by
  rw [lowerChar]
  split
  · rename_i h
    exact iff_of_true (by decide) (.inr h)
  · rename_i h
    rw [toNat_toLower, or_iff_left h]
    split <;> omega

/-- The text is indexed safely exactly if it is ASCII in lower case. -/
theorem isSome_fromStr_iff (strategy : List Char) :
    (fromStr strategy).isSome ↔ ∀ c ∈ strategy, c.toNat ≤ 127 ∨ c = '\u212A' := by
  have hascii : (toLowercase strategy).any (127 < ·.toNat) = true ↔
      ¬∀ c ∈ strategy, c.toNat ≤ 127 ∨ c = '\u212A' := by
    simp only [toLowercase, List.any_map, List.any_eq_true, Function.comp_apply, decide_eq_true_eq,
      ← Nat.not_le, toNat_lowerChar_le_iff, not_forall, exists_prop]
  unfold fromStr
  simp only
  split
  · rename_i h
    exact iff_of_false (by simp) (hascii.mp h)
  · rename_i h
    refine iff_of_true ?_ (not_not.mp (mt hascii.mpr h))
    repeat' split
    all_goals rfl

theorem argument_append {pre s : List Char} (h : '(' ∉ pre) :
    argument (pre ++ '(' :: s) = if s.getLast? = some ')' then some s.dropLast else none := by
  have hdrop : (pre ++ '(' :: s).dropWhile (· ≠ '(') = '(' :: s := by
    rw [List.dropWhile_append_of_pos]
    · rfl
    · intro c hc
      simpa using fun heq : c = '(' => h (heq ▸ hc)
  unfold argument
  rw [hdrop]

/-- An opening parenthesis and a final closing one enclose an argument. -/
theorem isSome_argument {strategy : List Char} (hopen : '(' ∈ strategy)
    (hclose : strategy.getLast? = some ')') : (argument strategy).isSome := by
  obtain ⟨pre, s, rfl, hpre⟩ := List.eq_append_cons_of_mem hopen
  rw [argument_append hpre]
  cases s with
  | nil => simp at hclose
  | cons d s =>
    rw [List.getLast?_append_cons, List.getLast?_cons_cons] at hclose
    rw [if_pos hclose]
    rfl

theorem mem_of_startsWithOneOf {v : List Char} {prefixes : List String}
    (hopen : ∀ p ∈ prefixes, '(' ∈ p.toList) (h : startsWithOneOf v prefixes = true) : '(' ∈ v := by
  obtain ⟨p, hp, hprefix⟩ := List.any_eq_true.mp h
  exact (List.isPrefixOf_iff_prefix.mp hprefix).subset (hopen p hp)

/-- A text is refused for the level at its end and for nothing else. -/
theorem fromStr_eq_none_iff {strategy : List Char} (h : (fromStr strategy).isSome) :
    fromStr strategy = some none ↔ Nesting.depth paren strategy ≠ 0 := by
  have hlevel : (scan (toLowercase strategy) (toLowercase strategy) 0 0 0 []).1 =
      Nesting.depth paren strategy := by
    rw [level_scan, Int.zero_add, toLowercase, Nesting.depth_map paren_lowerChar]
  have hargument : ∀ {prefixes : List String} (kind : List Char → LoadBalancerStrategy),
      (∀ p ∈ prefixes, '(' ∈ p.toList) →
      (startsWithOneOf (toLowercase strategy) prefixes &&
        (toLowercase strategy).getLast? = some ')') = true →
      some ((argument (toLowercase strategy)).map kind) ≠ some none := by
    intro prefixes kind hopen hboth
    rw [Bool.and_eq_true, decide_eq_true_eq] at hboth
    have hsome := isSome_argument (mem_of_startsWithOneOf hopen hboth.1) hboth.2
    obtain ⟨s, hs⟩ := Option.isSome_iff_exists.mp hsome
    simp [hs]
  rw [← hlevel]
  unfold fromStr at h ⊢
  simp only at h ⊢
  split
  · rename_i hpanic
    rw [if_pos hpanic] at h
    cases h
  · split
    · rename_i hne
      exact iff_of_true rfl hne
    · rename_i heq
      refine iff_of_false ?_ heq
      split
      · simp
      split
      · rename_i hstarts
        exact hargument _ (by decide) hstarts
      split
      · rename_i hstarts
        exact hargument _ (by decide) hstarts
      split
      · rename_i hstarts
        exact hargument _ (by decide) hstarts
      · simp

/-- The parser does not panic on the text, and refuses it exactly if its parentheses are not
properly nested. -/
structure ParsesNested (strategy : List Char) : Prop where
  isSome : (fromStr strategy).isSome
  eq_none_iff : fromStr strategy = some none ↔ ¬Nesting.Nested paren strategy

/-- **Nesting of expressions.** All is well with a text exactly if it is ASCII, up to the
Kelvin sign, which lower-cases to `k`, and the parentheses that close more than had been
opened in front of them, if there are any, show in the totals. -/
theorem parsesNested_iff (strategy : List Char) :
    ParsesNested strategy ↔ (∀ c ∈ strategy, c.toNat ≤ 127 ∨ c = '\u212A') ∧
      (Nesting.depth paren strategy = 0 → ∀ p, p <+: strategy → 0 ≤ Nesting.depth paren p) := by
  rw [← isSome_fromStr_iff]
  constructor
  · intro hparses
    refine ⟨hparses.isSome, fun hdepth => ?_⟩
    have hnested : Nesting.Nested paren strategy := by
      by_contra hnot
      exact (fromStr_eq_none_iff hparses.isSome).mp (hparses.eq_none_iff.mpr hnot) hdepth
    exact hnested.depth_nonneg
  · intro hboth
    obtain ⟨hsome, hnonneg⟩ := hboth
    refine ⟨hsome, ?_⟩
    rw [fromStr_eq_none_iff hsome]
    exact not_congr ⟨fun hdepth => ⟨hdepth, hnonneg hdepth⟩, fun hnested => hnested.depth_eq⟩

/-- A letter with an accent brings the parser down, and a closing parenthesis in front of the
opening one goes unnoticed. -/
theorem not_parsesNested_accent :
    fromStr ['\u00E9'] = none ∧ fromStr ")(".toList = some (some (.value [")(".toList])) ∧
      ¬Nesting.Nested paren ")(".toList ∧ ¬∀ strategy, ParsesNested strategy := by
  refine ⟨by decide, by decide, ?_, ?_⟩
  · intro hnested
    exact absurd (hnested.depth_nonneg [')'] (List.prefix_append [')'] ['('])) (by decide)
  · intro hall
    exact absurd (hall ['\u00E9']).isSome (by decide)

end LoadBalancerStrategy

end RestDiameterBridge
