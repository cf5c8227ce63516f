import RestDiameterBridge.Lib.OrPanic

/-!
# RestDiameterBridge.Lib.Checked

Runs in which every read of a buffer is checked against the buffer, and every loop and
recursion is given a number of turns.

A run is shown to stay inside its buffers and to end by showing what it is done with: the
outcomes `outOfRange` and `running` are then excluded.
-/

/-- What a run comes to. -/
inductive Checked (α : Type)
  | done (a : α)
  /-- It panics for another reason than a read. -/
  | panicked
  /-- It reads outside of a buffer. -/
  | outOfRange
  /-- It has used up its turns. -/
  | running
  deriving Repr, DecidableEq

namespace Checked

variable {α β : Type}

/-- Go on with the value, if there is one. -/
def andThen : Checked α → (α → Checked β) → Checked β
  | .done a, f => f a
  | .panicked, _ => .panicked
  | .outOfRange, _ => .outOfRange
  | .running, _ => .running

instance : Monad Checked where
  pure := .done
  bind := andThen

@[simp] theorem done_bind (a : α) (f : α → Checked β) : (done a >>= f) = f a := rfl
@[simp] theorem panicked_bind (f : α → Checked β) : (panicked >>= f) = panicked := rfl

instance : LawfulMonad Checked :=
  .mk' Checked (fun x => by cases x <;> rfl) (fun _ _ => rfl) fun x _ _ => by cases x <;> rfl

/-! ### Reads -/

/-- `l[i]`. -/
def index (l : List α) (i : Nat) : Checked α :=
  match l[i]? with
  | some a => .done a
  | none => .outOfRange

/-- `[l[i], …, l[i + n - 1]]`: `n` reads, one after another. -/
def indices (l : List α) (i : Nat) : Nat → Checked (List α)
  | 0 => .done []
  | n + 1 => do
      let a ← index l i
      let as ← indices l (i + 1) n
      .done (a :: as)

/-- `&l[start..]`. -/
def sliceFrom (l : List α) (start : Nat) : Checked (List α) :=
  if start ≤ l.length then .done (l.drop start) else .outOfRange

/-- `&l[start..stop]`. -/
def slice (l : List α) (start stop : Nat) : Checked (List α) :=
  if start ≤ stop ∧ stop ≤ l.length then .done ((l.take stop).drop start) else .outOfRange

section
variable {l : List α} {i n start stop : Nat}

theorem index_of_lt (h : i < l.length) : index l i = .done l[i] := by
  rw [index, List.getElem?_eq_getElem h]

theorem indices_of_le (h : i + n ≤ l.length) : indices l i n = .done ((l.drop i).take n) := by
  induction n generalizing i with
  | zero => rfl
  | succ n ih =>
    have hi : i < l.length := by omega
    rw [indices, index_of_lt hi, done_bind, ih (by omega), done_bind,
      List.drop_eq_getElem_cons hi, List.take_succ_cons]

theorem sliceFrom_of_le (h : start ≤ l.length) : sliceFrom l start = .done (l.drop start) :=
  if_pos h

theorem slice_of_le (hstart : start ≤ stop) (hstop : stop ≤ l.length) :
    slice l start stop = .done ((l.take stop).drop start) :=
  if_pos ⟨hstart, hstop⟩

end

/-! ### Panics -/

/-- A run without reads. -/
def ofOrPanic : OrPanic α → Checked α
  | some a => .done a
  | none => .panicked

@[simp] theorem ofOrPanic_some (a : α) : ofOrPanic (some a) = .done a := rfl
@[simp] theorem ofOrPanic_none : ofOrPanic (none : OrPanic α) = .panicked := rfl

theorem eq_some_of_ofOrPanic {r : OrPanic α} {a : α} (h : ofOrPanic r = .done a) : r = some a := by
  cases r with
  | none => cases h
  | some b => rw [Checked.done.inj h]

theorem ofOrPanic_map (r : OrPanic α) (f : α → β) :
    (ofOrPanic r >>= fun a => .done (f a)) = ofOrPanic (r.map f) := by
  cases r <;> rfl

/-- A loop over a list reads nothing if no turn does. -/
theorem mapM_ofOrPanic {f : α → Checked β} {g : α → OrPanic β} {as : List α}
    (h : ∀ a ∈ as, f a = ofOrPanic (g a)) : as.mapM f = ofOrPanic (as.mapM g) := by
  induction as with
  | nil => rfl
  | cons a as ih =>
    have htail := ih fun b hb => h b (List.mem_cons_of_mem _ hb)
    rw [List.mapM_cons, List.mapM_cons, h a List.mem_cons_self, htail]
    cases g a with
    | none => rfl
    | some b => cases as.mapM g <;> rfl

/-- A loop is done if every turn of it is. -/
theorem exists_foldlM_eq_done {f : β → α → Checked β} {as : List α}
    (h : ∀ a ∈ as, ∀ b, ∃ b', f b a = .done b') (b : β) : ∃ b', as.foldlM f b = .done b' := by
  induction as generalizing b with
  | nil => exact ⟨b, rfl⟩
  | cons a as ih =>
    obtain ⟨b₁, hstep⟩ := h a List.mem_cons_self b
    rw [List.foldlM_cons, hstep, done_bind]
    exact ih (fun a' ha' => h a' (List.mem_cons_of_mem _ ha')) b₁

end Checked
