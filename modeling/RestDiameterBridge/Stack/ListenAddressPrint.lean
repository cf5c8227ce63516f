import RestDiameterBridge.Lib.Latest
import RestDiameterBridge.Lib.Separators
import RestDiameterBridge.Stack.ListenAddress

/-!
# RestDiameterBridge.Stack.ListenAddressPrint

Addresses are read back from their text (`ListenAddress::from_str` in `src/stack.rs`).

The text is cut at five kinds of separators. `fromStr_print` says that the cuts do not get in
each other's way: no `?` and no second `://` arises where pieces meet, and the last colon is the
one in front of the port, whatever colons the hosts contain.
-/

namespace RestDiameterBridge

open Separators

/-! ### Cutting -/

section
variable {c : Char} {separator s before after : List Char}

/-- The first occurrence is the one behind a text without its first character. -/
theorem splitOnce_append (h : c ∉ before) :
    splitOnce (c :: separator) (before ++ (c :: separator ++ after)) = some (before, after) := by
  induction before with
  | nil =>
    have hprefix : (c :: separator).isPrefixOf (c :: (separator ++ after)) = true :=
      List.isPrefixOf_iff_prefix.mpr (List.prefix_append _ after)
    rw [List.nil_append, List.cons_append, splitOnce, if_pos hprefix]
    simp
  | cons d before ih =>
    rw [List.mem_cons, not_or] at h
    have hprefix : (c :: separator).isPrefixOf (d :: (before ++ (c :: separator ++ after))) =
        false := by
      simp [List.isPrefixOf, h.1]
    rw [List.cons_append, splitOnce, hprefix, ih h.2]
    rfl

theorem splitOnce_eq_none (h : ¬separator <:+: s) : splitOnce separator s = none := by
  induction s with
  | nil =>
    rw [splitOnce, if_neg]
    rintro rfl
    exact h (List.infix_refl [])
  | cons d s ih =>
    rw [List.infix_cons_iff, not_or] at h
    rw [splitOnce, if_neg, ih h.2]
    · rfl
    · rw [List.isPrefixOf_iff_prefix]
      exact h.1

/-- The last occurrence is the one in front of a text without the character. -/
theorem rsplitOnce_append (h : c ∉ after) :
    rsplitOnce c (before ++ c :: after) = some (before, after) := by
  have hskip : ∀ d ∈ after.reverse, decide (d ≠ c) = true := by
    intro d hd
    rw [decide_eq_true_eq]
    rintro rfl
    exact h (List.mem_reverse.mp hd)
  have hreverse : (before ++ c :: after).reverse = after.reverse ++ c :: before.reverse := by simp
  unfold rsplitOnce
  rw [hreverse, List.dropWhile_append_of_pos hskip, List.takeWhile_append_of_pos hskip]
  simp

end

/-! ### Numbers -/

section
variable {bits n : Nat} {digits : List Char}

theorem le_ofDigitChars (digits : List Char) (n : Nat) : n ≤ Nat.ofDigitChars 10 digits n := by
  induction digits generalizing n with
  | nil => simp
  | cons c digits ih =>
    rw [Nat.ofDigitChars_cons]
    have := ih (10 * n + (c.toNat - '0'.toNat))
    omega

theorem parseDigits_eq (hdigits : ∀ c ∈ digits, c.isDigit = true)
    (hlt : Nat.ofDigitChars 10 digits n < 2 ^ bits) :
    parseDigits bits digits n = .ok (Nat.ofDigitChars 10 digits n) := by
  induction digits generalizing n with
  | nil => simp [parseDigits]
  | cons c digits ih =>
    rw [Nat.ofDigitChars_cons] at hlt ⊢
    have hle := le_ofDigitChars digits (10 * n + (c.toNat - '0'.toNat))
    rw [parseDigits, hdigits c List.mem_cons_self]
    simp only [Bool.not_true, Bool.false_eq_true, if_false]
    rw [if_neg (by omega), ih (fun d hd => hdigits d (List.mem_cons_of_mem c hd)) hlt]

/-- A number is read back from its digits. -/
theorem parseUnsigned_toDigits (hlt : n < 2 ^ bits) :
    parseUnsigned bits (Nat.toDigits 10 n) = .ok n := by
  have hdigits : ∀ c ∈ Nat.toDigits 10 n, c.isDigit = true :=
    fun c hc => Nat.isDigit_of_mem_toDigits (by decide) (by decide) hc
  have hread : parseDigits bits (Nat.toDigits 10 n) 0 = .ok _ :=
    parseDigits_eq hdigits (by simpa using hlt)
  rw [Nat.ofDigitChars_ten_toDigits] at hread
  have hne : Nat.toDigits 10 n ≠ [] := Nat.toDigits_ne_nil
  have hfirst : ∀ d rest, Nat.toDigits 10 n = d :: rest → d.isDigit = true :=
    fun d rest h => hdigits d (h ▸ List.mem_cons_self)
  -- the text is not empty, and does not start with a sign
  unfold parseUnsigned
  split
  · rename_i heq
    exact absurd heq hne
  · rename_i heq
    exact absurd (hfirst '+' _ heq) (by decide)
  · rename_i heq
    exact absurd (hfirst '-' _ heq) (by decide)
  · exact absurd (hfirst '+' _ ‹_›) (by decide)
  · exact hread

end

/-! ### Parameters -/

namespace ListenParameters

/-- A parameter as text. -/
def printParameter (p : Sigma fun _ : List Char => List Char) : List Char := p.1 ++ '=' :: p.2

/-- Can the text stand in a parameter? -/
def Plain (s : List Char) : Prop := '&' ∉ s ∧ '=' ∉ s ∧ '?' ∉ s

section
variable {entries : List (Sigma fun _ : List Char => List Char)}

theorem splitOn_printParameter {p : Sigma fun _ : List Char => List Char} (hkey : '=' ∉ p.1)
    (hvalue : '=' ∉ p.2) : (printParameter p).splitOn '=' = [p.1, p.2] := by
  rw [printParameter, List.splitOn_append_cons_self_of_not_mem hkey, List.splitOn_eq_singleton hvalue]

theorem not_mem_printParameter {p : Sigma fun _ : List Char => List Char} {c : Char}
    (hne : c ≠ '=') (hkey : c ∉ p.1) (hvalue : c ∉ p.2) : c ∉ printParameter p := by
  simp [printParameter, hne, hkey, hvalue]

/-- The parameters are inserted one after another. -/
theorem fromStr_print_eq (hne : entries ≠ []) (hplain : ∀ p ∈ entries, Plain p.1 ∧ Plain p.2) :
    (fromStr (['&'].intercalate (entries.map printParameter))).parameters =
      entries.foldl (fun parameters p => parameters.insert p.1 p.2) ∅ := by
  have hamp : ∀ l ∈ entries.map printParameter, '&' ∉ l := by
    intro l hl
    obtain ⟨p, hp, rfl⟩ := List.mem_map.mp hl
    exact not_mem_printParameter (by decide) (hplain p hp).1.1 (hplain p hp).2.1
  unfold fromStr
  rw [List.splitOn_intercalate _ hamp (by simpa using hne)]
  dsimp only
  rw [List.foldl_map]
  refine List.foldl_ext _ _ _ fun parameters p hp => ?_
  rw [splitOn_printParameter (hplain p hp).1.2.1 (hplain p hp).2.2.1]

/-- Every parameter is read back. -/
theorem lookup_fromStr_print {parameters : AList fun _ : List Char => List Char}
    (hne : parameters.entries ≠ [])
    (hplain : ∀ p ∈ parameters.entries, Plain p.1 ∧ Plain p.2) (key : List Char) :
    (fromStr (['&'].intercalate (parameters.entries.map printParameter))).parameters.lookup key =
      parameters.lookup key := by
  rw [fromStr_print_eq hne hplain]
  have hfold : ((parameters.entries.foldl (fun m p => m.insert p.1 p.2)
      (∅ : AList fun _ : List Char => List Char)).lookup key).map (Sigma.mk key) =
        (Latest.latest Sigma.fst key parameters.entries).or none := by
    refine Latest.lookup_foldl (fun m k => (AList.lookup k m).map (Sigma.mk k)) ?_ _ ∅ key
    intro m p k
    by_cases hk : k = p.1
    · subst hk
      simp
    · simp [hk, AList.lookup_insert_ne hk]
  rw [Option.or_none] at hfold
  refine Option.ext fun value => ?_
  have hpair : ∀ o : Option (List Char),
      o = some value ↔ o.map (Sigma.mk (β := fun _ : List Char => List Char) key) =
        some ⟨key, value⟩ := by
    intro o
    cases o <;> simp
  rw [hpair, hfold, Latest.latest_of_nodup parameters.nodupKeys, and_iff_left rfl]
  exact AList.mem_lookup_iff.symm

end

end ListenParameters

namespace ListenAddress

/-- The address as text. -/
def print (protocol : List Char) (hosts : List (List Char)) (port : Nat)
    (parameters : AList fun _ : List Char => List Char) : List Char :=
  let mainPart := protocol ++ ("://".toList ++
    ([','].intercalate hosts ++ ':' :: Nat.toDigits 10 port))
  if parameters.entries = [] then mainPart
  else mainPart ++ '?' ::
    ['&'].intercalate (parameters.entries.map ListenParameters.printParameter)

section
variable {protocol : List Char} {hosts : List (List Char)} {port : Nat}
  {parameters : AList fun _ : List Char => List Char}

theorem not_mem_toDigits {c : Char} (hc : c.isDigit = false) (n : Nat) : c ∉ Nat.toDigits 10 n := by
  intro hmem
  exact absurd (Nat.isDigit_of_mem_toDigits (by decide) (by decide) hmem) (by simp [hc])

/-- The hosts and the port are cut apart, and the protocol from both. -/
theorem splits_print (port : Nat) (hprotocol : ':' ∉ protocol)
    (hhosts : ∀ h ∈ hosts, ¬"://".toList <:+: h) :
    let rest := [','].intercalate hosts ++ ':' :: Nat.toDigits 10 port
    splitOnce "://".toList (protocol ++ ("://".toList ++ rest)) = some (protocol, rest) ∧
      splitOnce "://".toList rest = none ∧
      rsplitOnce ':' rest = some ([','].intercalate hosts, Nat.toDigits 10 port) := by
  intro rest
  refine ⟨splitOnce_append hprotocol, splitOnce_eq_none fun hin => ?_,
    rsplitOnce_append (not_mem_toDigits (by decide) port)⟩
  have hslash : '/' ∉ ':' :: Nat.toDigits 10 port := by
    rw [List.mem_cons, not_or]
    exact ⟨by decide, not_mem_toDigits (by decide) port⟩
  -- the separator ends with a slash, so it would end in front of the port
  have hend : [':', '/'] ++ ['/'] <:+: [','].intercalate hosts ++ ':' :: Nat.toDigits 10 port := hin
  have hfront : "://".toList <:+: [','].intercalate hosts := infix_of_append hslash hend
  exact not_infix_intercalate (by decide) (by decide) hhosts hfront

theorem not_mem_mainPart (port : Nat) (hprotocol : '?' ∉ protocol) (hhosts : ∀ h ∈ hosts, '?' ∉ h) :
    '?' ∉ protocol ++ ("://".toList ++ ([','].intercalate hosts ++
      ':' :: Nat.toDigits 10 port)) := by
  have hjoined : '?' ∉ [','].intercalate hosts := by
    intro hmem
    rcases mem_of_mem_intercalate hmem with heq | ⟨h, hh, hin⟩
    · exact absurd heq (by decide)
    · exact hhosts h hh hin
  have hdigits := not_mem_toDigits (c := '?') (by decide) port
  simp [hprotocol, hjoined, hdigits]

/-- What stands in front of the question mark is read back. -/
theorem fromStr_of_parts {address : List Char} {parts : List (List Char)}
    (haddress : address.splitOn '?' = (protocol ++ ("://".toList ++ ([','].intercalate hosts ++
      ':' :: Nat.toDigits 10 port))) :: parts)
    (hprotocol : ':' ∉ protocol) (hne : hosts ≠ []) (hport : port < 2 ^ 16)
    (hhosts : ∀ h ∈ hosts, trim h = h ∧ ',' ∉ h ∧ ¬"://".toList <:+: h) :
    fromStr address =
      .ok ⟨protocol, hosts, port, parts[0]?.map ListenParameters.fromStr⟩ := by
  obtain ⟨hfirst, hnone, hlast⟩ := splits_print port hprotocol fun h hh => (hhosts h hh).2.2
  have hcut : ([','].intercalate hosts).splitOn ',' = hosts :=
    List.splitOn_intercalate ',' (fun h hh => (hhosts h hh).2.1) hne
  have htrim : hosts.map trim = hosts :=
    (List.map_congr_left fun h hh => (hhosts h hh).1).trans (List.map_id hosts)
  unfold fromStr
  dsimp only
  rw [haddress, List.headD_cons, hfirst]
  dsimp only
  rw [hnone, hlast]
  dsimp only
  rw [hcut, htrim, parseUnsigned_toDigits hport]
  rfl

end

/-- **Addresses are read back.** The text of a protocol, hosts, a port and parameters is read as
just these; without parameters there are none. -/
theorem fromStr_print (protocol : List Char) (hosts : List (List Char)) (port : UInt16)
    (parameters : AList fun _ : List Char => List Char)
    (hprotocol : ∀ c ∈ protocol, c ≠ ':' ∧ c ≠ '/' ∧ c ≠ '?') (hne : hosts ≠ [])
    (hhosts : ∀ h ∈ hosts, trim h = h ∧ ',' ∉ h ∧ '?' ∉ h ∧ ¬"://".toList <:+: h)
    (hparameters : ∀ p ∈ parameters.entries,
      ListenParameters.Plain p.1 ∧ ListenParameters.Plain p.2) :
    ∃ address, fromStr (print protocol hosts port.toNat parameters) = .ok address ∧
      address.protocol = protocol ∧ address.hosts = hosts ∧ address.port = port.toNat ∧
      (parameters = ∅ → address.parameters = none) ∧
      (parameters ≠ ∅ → ∃ p, address.parameters = some p ∧
        ∀ key, p.parameters.lookup key = parameters.lookup key) := by
  have hempty : parameters = ∅ ↔ parameters.entries = [] := AList.ext_iff
  have hcolon : ':' ∉ protocol := fun hmem => (hprotocol _ hmem).1 rfl
  have hmain := not_mem_mainPart port.toNat (fun hmem => (hprotocol '?' hmem).2.2 rfl)
    fun h hh => (hhosts h hh).2.2.1
  have hparts : ∀ h ∈ hosts, trim h = h ∧ ',' ∉ h ∧ ¬"://".toList <:+: h :=
    fun h hh => ⟨(hhosts h hh).1, (hhosts h hh).2.1, (hhosts h hh).2.2.2⟩
  unfold print
  dsimp only
  by_cases hnone : parameters.entries = []
  · rw [if_pos hnone]
    refine ⟨_, fromStr_of_parts (List.splitOn_eq_singleton hmain) hcolon hne port.toNat_lt hparts,
      rfl, rfl, rfl, fun _ => rfl, fun hsome => ?_⟩
    exact absurd (hempty.mpr hnone) hsome
  · have hquery : '?' ∉ ['&'].intercalate
        (parameters.entries.map ListenParameters.printParameter) := by
      intro hmem
      rcases mem_of_mem_intercalate hmem with heq | ⟨l, hl, hin⟩
      · exact absurd heq (by decide)
      · obtain ⟨p, hp, rfl⟩ := List.mem_map.mp hl
        exact ListenParameters.not_mem_printParameter (by decide) (hparameters p hp).1.2.2
          (hparameters p hp).2.2.2 hin
    have hcut := List.splitOn_append_cons_self_of_not_mem hmain
      (['&'].intercalate (parameters.entries.map ListenParameters.printParameter))
    rw [List.splitOn_eq_singleton hquery] at hcut
    rw [if_neg hnone]
    refine ⟨_, fromStr_of_parts hcut hcolon hne port.toNat_lt hparts, rfl, rfl, rfl,
      fun hsome => absurd (hempty.mp hsome) hnone, fun _ => ⟨_, rfl, ?_⟩⟩
    exact ListenParameters.lookup_fromStr_print hnone hparameters

/-- Two IPv6 hosts and two parameters. -/
theorem fromStr_print_sctp :
    ∃ address, fromStr
        "sctp://[2001:db8::1],[2001:db8::2]:5868?stream_id=1&ppid=46".toList = .ok address ∧
      address.hosts = ["[2001:db8::1]".toList, "[2001:db8::2]".toList] ∧ address.port = 5868 := by
  obtain ⟨address, haddress, -, hhosts, hport, -⟩ := fromStr_print "sctp".toList
    ["[2001:db8::1]".toList, "[2001:db8::2]".toList] 5868
    (((∅ : AList _).insert "ppid".toList "46".toList).insert "stream_id".toList "1".toList)
    (by simp) (by simp) (by decide) (by simp [ListenParameters.Plain])
  exact ⟨address, haddress, hhosts, hport⟩

end ListenAddress

end RestDiameterBridge
