/-!
# RestDiameterBridge.Lib.Program

Sequential programs that call their surroundings: an `async fn` cut at its awaits.

A `Program` either returns or makes a call and goes on with whatever reply it gets, so
one program stands for its runs under all replies. `Follows` judges a program against a
protocol, a relation that says which calls are allowed in which protocol state and where
a reply leads. It is composed along `bind` (`Follows.bind`) and read off one step at a
time by whoever runs the program (`follows_call`). `Reaches` follows one run of a program
by its trace, the calls made so far with the replies they got. `runWith` runs a program
against a handler, which replies to the calls out of a state of its own.
-/

/-- A program making calls `c : Call`, each answered by a `Reply c`. -/
inductive Program (Call : Type) (Reply : Call → Type) (α : Type)
  | ret (a : α)
  | call (c : Call) (next : Reply c → Program Call Reply α)

namespace Program

variable {Call : Type} {Reply : Call → Type} {α β : Type}

/-- Run `p`, then `f` on its result. -/
def bind (p : Program Call Reply α) (f : α → Program Call Reply β) : Program Call Reply β :=
  match p with
  | ret a => f a
  | call c next => call c fun r => (next r).bind f

instance : Monad (Program Call Reply) where
  pure := ret
  bind := bind

/-- Sequences may be grouped either way. -/
theorem bind_assoc {γ : Type} (p : Program Call Reply α) (f : α → Program Call Reply β)
    (g : β → Program Call Reply γ) : (p >>= f) >>= g = p >>= fun a => f a >>= g := by
  induction p with
  | ret a => rfl
  | call c next ih => exact congrArg (call c) (funext fun r => ih r)

/-- The program that makes one call and returns its reply. -/
def perform (c : Call) : Program Call Reply (Reply c) := call c ret

/-! ### Running a program -/

/-- The result of the program where `handle` replies to its calls, and the state behind it. -/
def runWith {S : Type} (handle : S → (c : Call) → Reply c × S) : Program Call Reply α → S → α × S
  | ret a, s => (a, s)
  | call c next, s => (next (handle s c).1).runWith handle (handle s c).2

section
variable {S : Type} {handle : S → (c : Call) → Reply c × S} {s : S}

/-- The second program starts in the state behind the first one. -/
theorem runWith_bind {p : Program Call Reply α} {f : α → Program Call Reply β} :
    (p >>= f).runWith handle s =
      (f (p.runWith handle s).1).runWith handle (p.runWith handle s).2 := by
  induction p generalizing s with
  | ret a => rfl
  | call c next ih => exact ih (handle s c).1

end

/-! ### Which calls a program makes -/

/-- Every call the program makes, under any replies, is allowed. -/
def Uses (allowed : Call → Prop) : Program Call Reply α → Prop
  | ret _ => True
  | call c next => allowed c ∧ ∀ r, (next r).Uses allowed

theorem Uses.bind {allowed : Call → Prop} {p : Program Call Reply α}
    {f : α → Program Call Reply β} (hp : p.Uses allowed) (hf : ∀ a, (f a).Uses allowed) :
    (p >>= f).Uses allowed := by
  induction p with
  | ret a => exact hf a
  | call c next ih => exact ⟨hp.1, fun r => ih r (hp.2 r)⟩

/-! ### Protocols -/

/-- From protocol state `s` the program makes only calls the protocol allows, whatever
the replies, and returns in a state that satisfies `post`. -/
def Follows {S : Type} (protocol : S → (c : Call) → Reply c → S → Prop) (post : S → α → Prop) :
    S → Program Call Reply α → Prop
  | s, ret a => post s a
  | s, call c next => ∀ r, ∃ s', protocol s c r s' ∧ Follows protocol post s' (next r)

section
variable {S : Type} {protocol : S → (c : Call) → Reply c → S → Prop} {post : S → α → Prop}
  {s : S}

theorem follows_call {c : Call} {next : Reply c → Program Call Reply α} :
    Follows protocol post s (call c next) ↔
      ∀ r, ∃ s', protocol s c r s' ∧ Follows protocol post s' (next r) := Iff.rfl

/-- Sequencing: the second program starts where the first one ends. -/
theorem Follows.bind {p : Program Call Reply α} {f : α → Program Call Reply β}
    {post' : S → β → Prop} (hp : Follows protocol post s p)
    (hf : ∀ s a, post s a → Follows protocol post' s (f a)) :
    Follows protocol post' s (p >>= f) := by
  induction p generalizing s with
  | ret a => exact hf s a hp
  | call c next ih =>
    intro r
    obtain ⟨s', hstep, hnext⟩ := hp r
    exact ⟨s', hstep, ih r hnext⟩

/-- A program that follows a part of the protocol. -/
theorem Follows.embed {T : Type} {inner : T → (c : Call) → Reply c → T → Prop}
    {post' : T → α → Prop} {t : T} {p : Program Call Reply α} (embed : T → S)
    (hp : Follows inner post' t p)
    (hstep : ∀ t c r t', inner t c r t' → protocol (embed t) c r (embed t')) :
    Follows protocol (fun s a => ∃ t, s = embed t ∧ post' t a) (embed t) p := by
  induction p generalizing t with
  | ret a => exact ⟨t, rfl, hp⟩
  | call c next ih =>
    intro r
    obtain ⟨t', hinner, hnext⟩ := hp r
    exact ⟨embed t', hstep t c r t' hinner, ih r hnext⟩

/-- A program all of whose calls leave the protocol state as it is. -/
theorem Uses.follows {p : Program Call Reply α} {allowed : Call → Prop} (hp : p.Uses allowed)
    (hstay : ∀ c, allowed c → ∀ r, protocol s c r s) :
    Follows protocol (fun s' _ => s' = s) s p := by
  induction p with
  | ret a => rfl
  | call c next ih =>
    intro r
    exact ⟨s, hstay c hp.1 r, ih r (hp.2 r)⟩

end

/-! ### Traces -/

/-- Making the calls of the trace, with their replies, leads from `p` to `q`. -/
inductive Reaches : Program Call Reply α → List (Sigma Reply) → Program Call Reply α → Prop
  | refl (p : Program Call Reply α) : Reaches p [] p
  | cons {c : Call} {next : Reply c → Program Call Reply α} {r : Reply c}
      {trace : List (Sigma Reply)} {q : Program Call Reply α} :
      Reaches (next r) trace q → Reaches (call c next) (⟨c, r⟩ :: trace) q

section
variable {p q : Program Call Reply α} {trace : List (Sigma Reply)} {allowed : Call → Prop}

theorem reaches_ret {a : α} : Reaches (ret a) trace q ↔ trace = [] ∧ q = ret a := by
  constructor
  · intro h
    cases h
    exact ⟨rfl, rfl⟩
  · intro h
    obtain ⟨rfl, rfl⟩ := h
    exact .refl _

theorem reaches_call {c : Call} {next : Reply c → Program Call Reply α} :
    Reaches (call c next) trace q ↔ (trace = [] ∧ q = call c next) ∨
      ∃ r rest, trace = ⟨c, r⟩ :: rest ∧ Reaches (next r) rest q := by
  constructor
  · intro h
    cases h with
    | refl => exact .inl ⟨rfl, rfl⟩
    | cons hrest => exact .inr ⟨_, _, rfl, hrest⟩
  · intro h
    rcases h with ⟨rfl, rfl⟩ | ⟨r, rest, rfl, hrest⟩
    · exact .refl _
    · exact .cons hrest

/-- A call with its reply, and a run of what follows. -/
theorem exists_reaches_call {c : Call} {next : Reply c → Program Call Reply α} {r : Reply c}
    (h : ∃ q, Reaches (next r) trace q) : ∃ q, Reaches (call c next) (⟨c, r⟩ :: trace) q := by
  obtain ⟨q, hq⟩ := h
  exact ⟨q, .cons hq⟩

/-- One more call. -/
theorem Reaches.snoc {c : Call} {next : Reply c → Program Call Reply α}
    (h : Reaches p trace (call c next)) (r : Reply c) :
    Reaches p (trace ++ [⟨c, r⟩]) (next r) := by
  generalize hq : call c next = q at h
  induction h with
  | refl p =>
    subst hq
    exact .cons (.refl _)
  | cons _ ih => exact .cons (ih hq)

/-- A run of a sequence to its end is one of the first part, and one of the second. -/
theorem Reaches.bind_ret {β : Type} {f : α → Program Call Reply β} {b : β}
    (h : Reaches (p >>= f) trace (ret b)) :
    ∃ first second a, trace = first ++ second ∧ Reaches p first (ret a) ∧
      Reaches (f a) second (ret b) := by
  induction p generalizing trace with
  | ret a => exact ⟨[], trace, a, rfl, .refl _, h⟩
  | call c next ih =>
    rcases reaches_call.mp h with ⟨-, heq⟩ | ⟨r, rest, rfl, hrest⟩
    · cases heq
    · obtain ⟨first, second, a, rfl, hfirst, hsecond⟩ := ih r hrest
      exact ⟨_, second, a, rfl, .cons hfirst, hsecond⟩

/-- And one after the other is a run of the sequence. -/
theorem Reaches.bind {β : Type} {f : α → Program Call Reply β} {q : Program Call Reply β} {a : α}
    {first second : List (Sigma Reply)} (hp : Reaches p first (ret a))
    (hf : Reaches (f a) second q) : Reaches (p >>= f) (first ++ second) q := by
  generalize hr : ret a = r at hp
  induction hp with
  | refl =>
    subst hr
    exact hf
  | cons _ ih => exact .cons (ih hr)

/-- Every call of a run is one the program may make. -/
theorem Uses.of_mem (hp : p.Uses allowed) (h : Reaches p trace q) : ∀ e ∈ trace, allowed e.1 := by
  induction h with
  | refl => exact fun e he => absurd he List.not_mem_nil
  | cons _ ih =>
    intro e he
    rcases List.mem_cons.mp he with rfl | he
    · exact hp.1
    · exact ih (hp.2 _) e he

theorem Uses.mono {allowed' : Call → Prop} (hp : p.Uses allowed)
    (h : ∀ c, allowed c → allowed' c) : p.Uses allowed' := by
  induction p with
  | ret a => exact trivial
  | call c next ih => exact ⟨h c hp.1, fun r => ih r (hp.2 r)⟩

end

/-- The protocol along a trace. -/
inductive Path {S : Type} (protocol : S → (c : Call) → Reply c → S → Prop) :
    S → List (Sigma Reply) → S → Prop
  | refl (s : S) : Path protocol s [] s
  | cons {s s' s'' : S} {c : Call} {r : Reply c} {trace : List (Sigma Reply)} :
      protocol s c r s' → Path protocol s' trace s'' → Path protocol s (⟨c, r⟩ :: trace) s''

section
variable {S : Type} {protocol : S → (c : Call) → Reply c → S → Prop} {post : S → α → Prop}
  {s s' : S} {trace : List (Sigma Reply)}

theorem path_nil : Path protocol s [] s' ↔ s' = s := by
  constructor
  · intro h
    cases h
    rfl
  · intro h
    subst h
    exact .refl _

theorem path_cons {e : Sigma Reply} :
    Path protocol s (e :: trace) s' ↔ ∃ t, protocol s e.1 e.2 t ∧ Path protocol t trace s' := by
  constructor
  · intro h
    cases h with
    | cons hstep hrest => exact ⟨_, hstep, hrest⟩
  · intro h
    obtain ⟨t, hstep, hrest⟩ := h
    exact .cons hstep hrest

/-- A program that follows the protocol takes it along its trace. -/
theorem Follows.path {p q : Program Call Reply α} (hp : Follows protocol post s p)
    (h : Reaches p trace q) : ∃ s', Path protocol s trace s' ∧ Follows protocol post s' q := by
  induction h generalizing s with
  | refl => exact ⟨s, .refl s, hp⟩
  | @cons c next r trace q _ ih =>
    obtain ⟨s₁, hstep, hnext⟩ := hp r
    obtain ⟨s₂, hpath, hq⟩ := ih hnext
    exact ⟨s₂, .cons hstep hpath, hq⟩

/-- What holds of every call the protocol allows. -/
theorem Path.forall_mem {allowed : Sigma Reply → Prop} (h : Path protocol s trace s')
    (hstep : ∀ s c r s', protocol s c r s' → allowed ⟨c, r⟩) : ∀ e ∈ trace, allowed e := by
  induction h with
  | refl => exact fun e he => absurd he List.not_mem_nil
  | cons hfirst _ ih => exact List.forall_mem_cons.mpr ⟨hstep _ _ _ _ hfirst, ih⟩

/-- What every call keeps of the protocol state and the calls so far. -/
theorem Path.keeps {Q : S → List (Sigma Reply) → Prop} {before : List (Sigma Reply)}
    (h : Path protocol s trace s')
    (hstep : ∀ s before c r s', protocol s c r s' → Q s before → Q s' (before ++ [⟨c, r⟩]))
    (hs : Q s before) : Q s' (before ++ trace) := by
  induction h generalizing before with
  | refl => rwa [List.append_nil]
  | cons hfirst _ ih =>
    rw [List.append_cons]
    exact ih (hstep _ _ _ _ _ hfirst hs)

/-- Where a part of the protocol is one of its own, a path is in it at first, and may leave it. -/
theorem Path.within {T : Type} {inner : T → (c : Call) → Reply c → T → Prop} {embed : T → S}
    {leaves : T → (c : Call) → Reply c → S → Prop} {t : T} (h : Path protocol (embed t) trace s')
    (hstep : ∀ t c r u, protocol (embed t) c r u →
      (∃ t', inner t c r t' ∧ u = embed t') ∨ leaves t c r u) :
    ∃ before after t', trace = before ++ after ∧ Path inner t before t' ∧
      ((after = [] ∧ s' = embed t') ∨
        ∃ c r u rest, after = ⟨c, r⟩ :: rest ∧ leaves t' c r u ∧ Path protocol u rest s') := by
  induction trace generalizing t with
  | nil => exact ⟨[], [], t, rfl, .refl t, .inl ⟨rfl, path_nil.mp h⟩⟩
  | cons e trace ih =>
    obtain ⟨u, hfirst, hrest⟩ := path_cons.mp h
    rcases hstep t e.1 e.2 u hfirst with ⟨t', hinner, rfl⟩ | hleaves
    · obtain ⟨before, after, t'', rfl, hbefore, hafter⟩ := ih hrest
      exact ⟨e :: before, after, t'', rfl, .cons hinner hbefore, hafter⟩
    · exact ⟨[], e :: trace, t, rfl, .refl t, .inr ⟨e.1, e.2, u, trace, rfl, hleaves, hrest⟩⟩

/-- A trace can be cut in two. -/
theorem Path.of_append {before after : List (Sigma Reply)}
    (h : Path protocol s (before ++ after) s') :
    ∃ t, Path protocol s before t ∧ Path protocol t after s' := by
  induction before generalizing s with
  | nil => exact ⟨s, .refl s, h⟩
  | cons e before ih =>
    obtain ⟨t, hstep, hrest⟩ := path_cons.mp h
    obtain ⟨u, hbefore, hafter⟩ := ih hrest
    exact ⟨u, .cons hstep hbefore, hafter⟩

end

end Program
