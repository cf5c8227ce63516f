import Mathlib.Algebra.Group.Int.Defs
import Mathlib.Data.List.Sort
import Mathlib.Data.String.Basic

/-!
# RestDiameterBridge.Lib.Json

JSON values whose objects are ordered maps, as lists of members sorted by name.

`Json.insert` overwrites what a name had, `Json.collect` gathers values of one name in
an array. `slots` lists the values an object has room for: an array counts with each of
its elements. Collecting always adds a slot (`slots_collect`); inserting does so for a
new name only (`insertAll_subperm_iff`). `get_collectAll` says what a name has afterwards.
-/

/-- A JSON number: an integer, or a double. -/
inductive JsonNumber
  | int (value : Int)
  | float (value : Float)

/-- The number as a `u64`, if it is one. -/
def JsonNumber.asU64 : JsonNumber → Option UInt64
  | int value => if 0 ≤ value ∧ value < 2 ^ 64 then some value.toNat.toUInt64 else none
  | float _ => none

/-- The number, if it is an `i64`. -/
def JsonNumber.asI64 : JsonNumber → Option Int
  | int value => if -2 ^ 63 ≤ value ∧ value < 2 ^ 63 then some value else none
  | float _ => none

/-- The number as a double. -/
def JsonNumber.asF64 : JsonNumber → Float
  | int value => Float.ofInt value
  | float value => value

/-- A JSON value. -/
inductive Json
  | null
  | bool (value : Bool)
  | number (value : JsonNumber)
  | string (value : String)
  | array (values : List Json)
  | object (members : List (String × Json))

namespace Json

/-- Induction over objects in objects. -/
@[elab_as_elim] theorem objectInduction {motive : Json → Prop} (value : Json)
    (object : ∀ obj, (∀ m ∈ obj, motive m.2) → motive (.object obj))
    (other : ∀ value, (∀ obj, value ≠ .object obj) → motive value) : motive value := by
  induction hn : sizeOf value using Nat.strongRecOn generalizing value with
  | ind n ih =>
    cases value with
    | object obj =>
      refine object obj fun m hm => ih (sizeOf m.2) ?_ m.2 rfl
      have hmem := List.sizeOf_lt_of_mem hm
      obtain ⟨name, value⟩ := m
      simp only [Json.object.sizeOf_spec, Prod.mk.sizeOf_spec] at hn hmem ⊢
      omega
    | _ => exact other _ (by simp)

/-- Is the value an array? -/
def isArray : Json → Bool
  | array _ => true
  | _ => false

/-- `null` for an absent value. -/
def ofOption (value : Option Json) : Json := value.getD .null

/-- An integer. -/
def ofInt (value : Int) : Json := .number (.int value)

/-- A double: `null` unless it is finite. -/
def ofFloat (value : Float) : Json := if value.isFinite then .number (.float value) else .null

@[simp] theorem isArray_ofInt (value : Int) : (ofInt value).isArray = false := rfl

@[simp] theorem isArray_ofFloat (value : Float) : (ofFloat value).isArray = false := by
  unfold ofFloat
  split <;> rfl

theorem isArray_ofOption {α : Type} {value : Option α} {f : α → Json}
    (hf : ∀ v, (f v).isArray = false) : (ofOption (value.map f)).isArray = false := by
  cases value with
  | none => rfl
  | some v => exact hf v

/-- The value as a `u64`, if it is one. -/
def asU64 : Json → Option UInt64
  | number num => num.asU64
  | _ => none

/-- The value as a text. -/
def asStr : Json → Option String
  | string s => some s
  | _ => none

/-- The value as a truth value. -/
def asBool : Json → Option Bool
  | bool b => some b
  | _ => none

/-- The values one stands for: those of an array, or itself. -/
def items : Json → List Json
  | array values => values
  | value => [value]

/-- The value of a name. -/
def get (members : List (String × Json)) (name : String) : Option Json :=
  (members.find? (·.1 = name)).map Prod.snd

/-- Put the value under a name: over the value it had, or as a new member. -/
def insert (members : List (String × Json)) (name : String) (value : Json) :
    List (String × Json) :=
  if (get members name).isSome then
    members.map fun m => if m.1 = name then (name, value) else m
  else members.orderedInsert (fun m m' => m.1 ≤ m'.1) (name, value)

/-- Put the value under a name, next to those it already has. -/
def collect (members : List (String × Json)) (name : String) (value : Json) :
    List (String × Json) :=
  match get members name with
  | some (array values) => insert members name (array (values ++ [value]))
  | some old => insert members name (array [old, value])
  | none => insert members name value

/-- What a name stands for that has these values. -/
def gather : List Json → Option Json
  | [] => none
  | [value] => some value
  | values => some (array values)

/-- The values of one member: those of an array one by one. -/
def memberSlots : String × Json → List (String × Json)
  | (name, array values) => values.map (name, ·)
  | (name, value) => [(name, value)]

/-- The values of all members. -/
def slots (members : List (String × Json)) : List (String × Json) := members.flatMap memberSlots

section
variable {members : List (String × Json)} {name : String} {value old : Json}

theorem get_eq_none : get members name = none ↔ name ∉ members.map Prod.fst := by
  rw [get, Option.map_eq_none_iff, List.find?_eq_none]
  simp only [decide_eq_true_eq, List.mem_map, not_exists, not_and]

theorem memberSlots_of_not_array (h : value.isArray = false) :
    memberSlots (name, value) = [(name, value)] := by
  cases value <;> first | rfl | cases h

theorem memberSlots_eq (m : String × Json) : memberSlots m = m.2.items.map (m.1, ·) := by
  obtain ⟨name, value⟩ := m
  cases value <;> rfl

theorem perm_insert_of_none (value : Json) (h : get members name = none) :
    (insert members name value).Perm ((name, value) :: members) := by
  rw [insert, h]
  exact List.perm_orderedInsert _ _ _

/-- A name that occurs once splits the members around it. -/
theorem exists_of_get_eq_some (hnodup : (members.map Prod.fst).Nodup)
    (h : get members name = some old) :
    ∃ before after, members = before ++ (name, old) :: after ∧
      ∀ value, insert members name value = before ++ (name, value) :: after := by
  obtain ⟨⟨name', old'⟩, hfind, hold⟩ := Option.map_eq_some_iff.mp h
  obtain rfl : old' = old := hold
  obtain rfl : name' = name := by simpa using List.find?_some hfind
  obtain ⟨before, after, rfl⟩ := List.append_of_mem (List.mem_of_find?_eq_some hfind)
  refine ⟨before, after, rfl, fun value => ?_⟩
  rw [List.map_append, List.nodup_append] at hnodup
  obtain ⟨-, hafter, hdisj⟩ := hnodup
  have hkeep : ∀ l : List (String × Json), name' ∉ l.map Prod.fst →
      (l.map fun m => if m.1 = name' then (name', value) else m) = l := by
    intro l hl
    refine (List.map_congr_left fun m hm => if_neg fun heq => hl ?_).trans (List.map_id l)
    exact heq ▸ List.mem_map_of_mem hm
  have hb : name' ∉ before.map Prod.fst := fun hm => hdisj _ hm _ List.mem_cons_self rfl
  have ha : name' ∉ after.map Prod.fst := (List.nodup_cons.mp hafter).1
  have hpresent : (get (before ++ (name', old') :: after) name').isSome = true := by rw [h]; rfl
  rw [insert, if_pos hpresent, List.map_append, List.map_cons, hkeep _ hb, hkeep _ ha]
  simp

theorem nodup_insert (hnodup : (members.map Prod.fst).Nodup) :
    ((insert members name value).map Prod.fst).Nodup := by
  cases h : get members name with
  | none =>
    rw [((perm_insert_of_none value h).map Prod.fst).nodup_iff, List.map_cons, List.nodup_cons]
    exact ⟨get_eq_none.mp h, hnodup⟩
  | some old =>
    obtain ⟨before, after, rfl, hinsert⟩ := exists_of_get_eq_some hnodup h
    rw [hinsert]
    simpa using hnodup

theorem nodup_collect (name : String) (value : Json) (hnodup : (members.map Prod.fst).Nodup) :
    ((collect members name value).map Prod.fst).Nodup := by
  unfold collect
  split <;> exact nodup_insert hnodup

/-- Collecting a value makes room for it beside everything that was there. -/
theorem slots_collect (name : String) (hnodup : (members.map Prod.fst).Nodup)
    (hvalue : value.isArray = false) :
    (slots (collect members name value)).Perm (slots members ++ [(name, value)]) := by
  cases h : get members name with
  | none =>
    rw [collect, h]
    have hperm := (perm_insert_of_none value h).flatMap_right memberSlots
    rw [List.flatMap_cons, memberSlots_of_not_array hvalue] at hperm
    exact hperm.trans List.perm_append_comm
  | some old =>
    obtain ⟨before, after, rfl, hinsert⟩ := exists_of_get_eq_some hnodup h
    -- the member's value changes in place, so its slots grow in the middle
    have hslots : ∀ v, memberSlots (name, v) = memberSlots (name, old) ++ [(name, value)] →
        (slots (before ++ (name, v) :: after)).Perm
          (slots (before ++ (name, old) :: after) ++ [(name, value)]) := by
      intro v hv
      simp only [slots, List.flatMap_append, List.flatMap_cons, hv, List.append_assoc]
      exact (List.perm_append_comm.append_left _).append_left _
    rw [collect, h]
    split
    · rename_i values heq
      obtain rfl := Option.some.inj heq
      rw [hinsert]
      exact hslots _ (by simp [memberSlots])
    · rename_i old' hold heq
      obtain rfl := Option.some.inj heq
      rw [hinsert]
      have holdarray : old.isArray = false := by
        cases old <;> first | rfl | exact absurd rfl (hold _)
      exact hslots _ (by rw [memberSlots_of_not_array holdarray]; rfl)
    · rename_i heq
      cases heq

end

/-- Where names are distinct, the value of a name is the one it stands with. -/
theorem get_eq_some_iff (hnodup : (members.map Prod.fst).Nodup) :
    get members name = some value ↔ (name, value) ∈ members := by
  constructor
  · intro h
    obtain ⟨before, after, rfl, -⟩ := exists_of_get_eq_some hnodup h
    simp
  · intro hmem
    cases hget : get members name with
    | none => exact absurd (List.mem_map_of_mem hmem) (get_eq_none.mp hget)
    | some old =>
      obtain ⟨before, after, rfl, -⟩ := exists_of_get_eq_some hnodup hget
      rw [List.map_append, List.map_cons, List.nodup_append, List.nodup_cons] at hnodup
      obtain ⟨-, ⟨hafter, -⟩, hdisj⟩ := hnodup
      rcases List.mem_append.mp hmem with hin | hin
      · exact absurd rfl (hdisj _ (List.mem_map_of_mem hin) name List.mem_cons_self)
      · rcases List.mem_cons.mp hin with heq | hin
        · rw [(Prod.mk.inj heq).2]
        · exact absurd (List.mem_map_of_mem hin) hafter

/-- Inserting a value leaves the other names theirs. -/
theorem get_insert_of_ne {other : String} (hnodup : (members.map Prod.fst).Nodup)
    (hne : other ≠ name) : get (insert members name value) other = get members other := by
  have hmem : ∀ v, (other, v) ∈ insert members name value ↔ (other, v) ∈ members := by
    intro v
    cases h : get members name with
    | none =>
      rw [(perm_insert_of_none value h).mem_iff, List.mem_cons, or_iff_right]
      exact fun heq => hne (Prod.mk.inj heq).1
    | some old =>
      obtain ⟨before, after, rfl, hinsert⟩ := exists_of_get_eq_some hnodup h
      simp [hinsert, hne]
  refine Option.ext fun v => ?_
  rw [get_eq_some_iff (nodup_insert hnodup), get_eq_some_iff hnodup, hmem]

theorem get_insert_self (hnodup : (members.map Prod.fst).Nodup) :
    get (insert members name value) name = some value := by
  rw [get_eq_some_iff (nodup_insert hnodup)]
  cases h : get members name with
  | none => exact (perm_insert_of_none value h).mem_iff.mpr List.mem_cons_self
  | some old =>
    obtain ⟨before, after, rfl, hinsert⟩ := exists_of_get_eq_some hnodup h
    simp [hinsert]

/-- One more value under a name. -/
theorem get_collect_self {values : List Json} (hnodup : (members.map Prod.fst).Nodup)
    (hvalues : ∀ v ∈ values, v.isArray = false) (hget : get members name = gather values) :
    get (collect members name value) name = gather (values ++ [value]) := by
  unfold collect
  rw [hget]
  match values with
  | [] => exact get_insert_self hnodup
  | [old] =>
    have hold : old.isArray = false := hvalues old List.mem_cons_self
    cases old with
    | array _ => cases hold
    | _ => exact get_insert_self hnodup
  | first :: second :: rest => exact get_insert_self hnodup

theorem get_collect_of_ne {other : String} (hnodup : (members.map Prod.fst).Nodup)
    (hne : other ≠ name) : get (collect members name value) other = get members other := by
  unfold collect
  split <;> exact get_insert_of_ne hnodup hne

/-- Reading the members one by one, of which those of one name change a part of the result. -/
theorem foldlM_get {β γ : Type} {f : β → String × Json → Option β} (name : String) (g : β → γ)
    (u : Json → γ → γ)
    (h : ∀ b m b', f b m = some b' → g b' = if m.1 = name then u m.2 (g b) else g b)
    (hnodup : (members.map Prod.fst).Nodup) {b b' : β} (hfold : members.foldlM f b = some b') :
    g b' = match get members name with
      | some v => u v (g b)
      | none => g b := by
  induction members generalizing b with
  | nil =>
    obtain rfl := Option.some.inj hfold
    rfl
  | cons m members ih =>
    rw [List.foldlM_cons] at hfold
    obtain ⟨b₁, hstep, hrest⟩ := Option.bind_eq_some_iff.mp hfold
    obtain ⟨hnot, hnodup⟩ := List.nodup_cons.mp hnodup
    have hfirst := h b m b₁ hstep
    rw [ih hnodup hrest]
    by_cases hname : m.1 = name
    · subst hname
      have hnone : get members m.1 = none := get_eq_none.mpr hnot
      have hsome : get (m :: members) m.1 = some m.2 := by simp [get]
      rw [hnone, hsome]
      simpa using hfirst
    · have hskip : get (m :: members) name = get members name := by simp [get, hname]
      rw [hskip]
      rw [if_neg hname] at hfirst
      rw [hfirst]

/-! ### Many members -/

/-- Insert several members, one after another. -/
def insertAll (members : List (String × Json)) (new : List (String × Json)) :
    List (String × Json) :=
  new.foldl (fun members m => insert members m.1 m.2) members

/-- Collect several members, one after another. -/
def collectAll (members : List (String × Json)) (new : List (String × Json)) :
    List (String × Json) :=
  new.foldl (fun members m => collect members m.1 m.2) members

section
variable {members new : List (String × Json)}

theorem get_collectAll_of_not_mem {name : String} (hnodup : (members.map Prod.fst).Nodup)
    (hnot : name ∉ new.map Prod.fst) : get (collectAll members new) name = get members name := by
  induction new generalizing members with
  | nil => rfl
  | cons m new ih =>
    rw [List.map_cons, List.mem_cons, not_or] at hnot
    rw [collectAll, List.foldl_cons]
    exact (ih (nodup_collect m.1 m.2 hnodup) hnot.2).trans (get_collect_of_ne hnodup hnot.1)

theorem get_insertAll_of_not_mem {name : String} (hnodup : (members.map Prod.fst).Nodup)
    (hnot : name ∉ new.map Prod.fst) : get (insertAll members new) name = get members name := by
  induction new generalizing members with
  | nil => rfl
  | cons m new ih =>
    rw [List.map_cons, List.mem_cons, not_or] at hnot
    rw [insertAll, List.foldl_cons]
    exact (ih (nodup_insert hnodup) hnot.2).trans (get_insert_of_ne hnodup hnot.1)

theorem nodup_collectAll (hnodup : (members.map Prod.fst).Nodup) :
    ((collectAll members new).map Prod.fst).Nodup := by
  induction new generalizing members with
  | nil => exact hnodup
  | cons m new ih => exact ih (nodup_collect m.1 m.2 hnodup)

/-- What values of a name that has none yet are collected to, is read back under the name:
one value as it is, several as an array. -/
theorem get_collectAll {name : String} (hnodup : (members.map Prod.fst).Nodup)
    (hnot : name ∉ members.map Prod.fst) (hnew : ∀ m ∈ new, m.2.isArray = false) :
    get (collectAll members new) name = gather ((new.filter (·.1 = name)).map Prod.snd) := by
  suffices h : ∀ values, (∀ v ∈ values, v.isArray = false) → get members name = gather values →
      get (collectAll members new) name =
        gather (values ++ (new.filter (·.1 = name)).map Prod.snd) from
    h [] (by simp) (get_eq_none.mpr hnot)
  clear hnot
  -- by induction on the values to come: `values` are those collected so far
  induction new generalizing members with
  | nil =>
    intro values _ hget
    simpa [collectAll] using hget
  | cons m new ih =>
    intro values hvalues hget
    obtain ⟨hm, hnew⟩ := List.forall_mem_cons.mp hnew
    have hnodup' := nodup_collect m.1 m.2 hnodup
    rw [collectAll, List.foldl_cons]
    by_cases hname : m.1 = name
    · subst hname
      have hstep : get (collect members m.1 m.2) m.1 = gather (values ++ [m.2]) :=
        get_collect_self hnodup hvalues hget
      have hvalues' : ∀ v ∈ values ++ [m.2], v.isArray = false := by
        simpa [or_imp, forall_and] using ⟨hvalues, hm⟩
      refine (ih hnodup' hnew _ hvalues' hstep).trans ?_
      simp
    · have hstep : get (collect members m.1 m.2) name = gather values :=
        (get_collect_of_ne hnodup (Ne.symm hname)).trans hget
      refine (ih hnodup' hnew _ hvalues hstep).trans ?_
      simp [hname]

/-- No collected value is lost, nor any that was there before. -/
theorem slots_collectAll (hnodup : (members.map Prod.fst).Nodup)
    (hnew : ∀ m ∈ new, m.2.isArray = false) :
    (slots (collectAll members new)).Perm (slots members ++ new) := by
  induction new generalizing members with
  | nil => simp [collectAll]
  | cons m new ih =>
    have hstep := slots_collect m.1 hnodup (hnew m List.mem_cons_self)
    have hrest := ih (nodup_collect m.1 m.2 hnodup)
      fun m' hm' => hnew m' (List.mem_cons_of_mem _ hm')
    refine hrest.trans ((hstep.append_right new).trans ?_)
    rw [List.append_assoc]
    rfl

/-- Inserted values are the members, in any order, if all names are new. -/
theorem perm_insertAll (hnew : ((members ++ new).map Prod.fst).Nodup) :
    (insertAll members new).Perm (members ++ new) := by
  induction new generalizing members with
  | nil => simp [insertAll]
  | cons m new ih =>
    have hnone : get members m.1 = none := by
      rw [get_eq_none]
      intro hmem
      rw [List.map_append, List.nodup_append] at hnew
      exact hnew.2.2 _ hmem _ List.mem_cons_self rfl
    have hperm : (insert members m.1 m.2).Perm (members ++ [m]) :=
      (perm_insert_of_none m.2 hnone).trans (List.perm_append_singleton m members).symm
    have hnodup : ((insert members m.1 m.2 ++ new).map Prod.fst).Nodup := by
      rw [((hperm.append_right new).map Prod.fst).nodup_iff, List.append_assoc]
      exact hnew
    refine (ih hnodup).trans ((hperm.append_right new).trans ?_)
    rw [List.append_assoc]
    rfl

theorem nodup_insertAll (hnodup : (members.map Prod.fst).Nodup) :
    ((insertAll members new).map Prod.fst).Nodup := by
  induction new generalizing members with
  | nil => exact hnodup
  | cons m new ih => exact ih (nodup_insert hnodup)

theorem mem_insert {name : String} {value : Json} {m : String × Json}
    (h : m ∈ insert members name value) : m ∈ members ∨ m = (name, value) := by
  unfold insert at h
  split at h
  · obtain ⟨m', hm', rfl⟩ := List.mem_map.mp h
    split
    · exact .inr rfl
    · exact .inl hm'
  · exact (List.mem_cons.mp ((List.perm_orderedInsert _ _ _).mem_iff.mp h)).symm

theorem mem_insertAll {m : String × Json} (h : m ∈ insertAll members new) :
    m ∈ members ∨ m ∈ new := by
  induction new generalizing members with
  | nil => exact .inl h
  | cons m' new ih =>
    rcases ih h with h | h
    · rcases mem_insert h with h | rfl
      · exact .inl h
      · exact .inr List.mem_cons_self
    · exact .inr (List.mem_cons_of_mem _ h)

theorem slots_of_not_array (h : ∀ m ∈ members, m.2.isArray = false) : slots members = members := by
  induction members with
  | nil => rfl
  | cons m members ih =>
    rw [slots, List.flatMap_cons, memberSlots_of_not_array (h m List.mem_cons_self)]
    exact congrArg (m :: ·) (ih fun m' hm' => h m' (List.mem_cons_of_mem _ hm'))

/-- Inserting into an empty object loses no value exactly if the names are distinct. -/
theorem insertAll_subperm_iff (hnew : ∀ m ∈ new, m.2.isArray = false) :
    new.Subperm (slots (insertAll [] new)) ↔ (new.map Prod.fst).Nodup := by
  have harray : ∀ m ∈ insertAll [] new, m.2.isArray = false := by
    intro m hm
    rcases mem_insertAll hm with hm | hm
    · cases hm
    · exact hnew m hm
  rw [slots_of_not_array harray]
  constructor
  · intro hexists
    obtain ⟨l, hperm, hsub⟩ := hexists
    have hnodup : ((insertAll [] new).map Prod.fst).Nodup := nodup_insertAll List.nodup_nil
    rw [← (hperm.map Prod.fst).nodup_iff]
    exact hnodup.sublist (hsub.map Prod.fst)
  · intro hnodup
    have hperm : (insertAll [] new).Perm ([] ++ new) := perm_insertAll hnodup
    exact hperm.symm.subperm

/-- A name behind all others is appended. -/
theorem insert_of_forall_lt {name : String} {value : Json} (h : ∀ m ∈ members, m.1 < name) :
    insert members name value = members ++ [(name, value)] := by
  have hnone : get members name = none := by
    rw [get_eq_none]
    intro hmem
    obtain ⟨m, hm, heq⟩ := List.mem_map.mp hmem
    exact (h m hm).ne heq
  rw [insert, hnone]
  show List.orderedInsert (fun m m' => m.1 ≤ m'.1) (name, value) members = _
  clear hnone
  induction members with
  | nil => rfl
  | cons m members ih =>
    rw [List.forall_mem_cons] at h
    rw [List.orderedInsert, if_neg (not_le_of_gt h.1), ih h.2]
    rfl

/-- Members in the order of their names are inserted as they stand. -/
theorem insertAll_of_pairwise (h : ((members ++ new).map Prod.fst).Pairwise (· < ·)) :
    insertAll members new = members ++ new := by
  induction new generalizing members with
  | nil => simp [insertAll]
  | cons m new ih =>
    have hlast : insert members m.1 m.2 = members ++ [m] := by
      refine insert_of_forall_lt fun m' hm' => ?_
      rw [List.map_append, List.pairwise_append] at h
      exact h.2.2 _ (List.mem_map_of_mem hm') _ List.mem_cons_self
    rw [insertAll, List.foldl_cons, hlast]
    have hrest : insertAll (members ++ [m]) new = members ++ [m] ++ new := ih (by simpa using h)
    rw [insertAll, List.append_assoc] at hrest
    exact hrest

end

end Json
