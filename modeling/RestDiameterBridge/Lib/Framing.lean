import Mathlib.Data.List.Basic

/-!
# RestDiameterBridge.Lib.Framing

Length-prefixed framing of a symbol stream, and a reader that is fed the stream in
arbitrary pieces.

A `Framing` reads a frame's length off a fixed-size header and decodes whole frames.
`drain` takes frames off the front of a buffer for as long as they decode; `feed` is
the read loop around it: append a chunk, drain, keep what is left.

* `feed_flatten_append` — a stream made of decodable frames is delivered frame by frame,
  however it is cut, and the incomplete end stays in the buffer;
* `complete_drain_iff` — `drain` leaves a complete frame behind exactly where an
  undecodable frame sits in front of one (`Blocked`): the reader takes the bad frame
  off and stops.
-/

/-- A framing of streams of `σ` into messages of `α`. -/
structure Framing (σ α : Type) where
  /-- Symbols of the header. -/
  headerLen : Nat
  /-- The frame length a header declares. -/
  frameLen : List σ → Nat
  /-- The message of a whole frame, if it is well formed. -/
  decode : List σ → Option α
  headerLen_pos : 0 < headerLen
  /-- The declared length only depends on the header. -/
  frameLen_append : ∀ {s : List σ} (t : List σ), headerLen ≤ s.length →
    frameLen (s ++ t) = frameLen s
  /-- Nothing shorter than a header decodes. -/
  headerLen_le : ∀ {f : List σ} {a : α}, decode f = some a → headerLen ≤ f.length

namespace Framing

variable {σ α : Type} (F : Framing σ α)

/-- The buffer holds a header and all symbols the header declares. -/
def Complete (s : List σ) : Prop := F.headerLen ≤ s.length ∧ F.frameLen s ≤ s.length

instance (s : List σ) : Decidable (F.Complete s) := inferInstanceAs (Decidable (_ ∧ _))

/-- A decodable frame and its message. -/
structure IsFrame (f : List σ) (a : α) : Prop where
  length : F.frameLen f = f.length
  decode : F.decode f = some a

variable {F}

theorem IsFrame.headerLen_le {f : List σ} {a : α} (h : F.IsFrame f a) :
    F.headerLen ≤ f.length := F.headerLen_le h.decode

theorem IsFrame.complete_append {f : List σ} {a : α} (h : F.IsFrame f a) (t : List σ) :
    F.Complete (f ++ t) := by
  have hle := h.headerLen_le
  refine ⟨by rw [List.length_append]; omega, ?_⟩
  rw [F.frameLen_append t hle, h.length, List.length_append]
  omega

theorem not_complete_nil : ¬F.Complete [] := by
  intro h
  have := F.headerLen_pos
  simp only [Complete, List.length_nil] at h
  omega

/-- More symbols behind it do not make a buffer incomplete. -/
theorem Complete.append {s : List σ} (h : F.Complete s) (t : List σ) : F.Complete (s ++ t) := by
  obtain ⟨hheader, hlen⟩ := h
  refine ⟨by rw [List.length_append]; omega, ?_⟩
  rw [F.frameLen_append t hheader, List.length_append]
  omega

/-- A proper prefix of a frame is not complete. -/
theorem IsFrame.not_complete_of_prefix {f p t : List σ} {a : α} (h : F.IsFrame f a)
    (hf : f = p ++ t) (hlt : p.length < f.length) : ¬F.Complete p := by
  intro hboth
  obtain ⟨hheader, hlen⟩ := hboth
  have := F.frameLen_append t hheader
  rw [← hf, h.length] at this
  omega

/-- The frame in front of a complete buffer, where it decodes. -/
theorem isFrame_take {s : List σ} {a : α} (hc : F.Complete s)
    (hd : F.decode (s.take (F.frameLen s)) = some a) : F.IsFrame (s.take (F.frameLen s)) a := by
  have hlen : (s.take (F.frameLen s)).length = F.frameLen s := by
    rw [List.length_take]; exact Nat.min_eq_left hc.2
  refine ⟨?_, hd⟩
  have := F.frameLen_append (s.drop (F.frameLen s)) (F.headerLen_le hd)
  rw [List.take_append_drop] at this
  rw [hlen, ← this]

/-! ### Reading one frame -/

variable (F)

/-- Take the frame in front of the buffer off it, if it is complete. A frame that does
not decode is taken off as well, and yields nothing. -/
def read (s : List σ) : Option α × List σ :=
  if F.Complete s then (F.decode (s.take (F.frameLen s)), s.drop (F.frameLen s)) else (none, s)

variable {F}

theorem read_of_not_complete {s : List σ} (h : ¬F.Complete s) : F.read s = (none, s) :=
  if_neg h

theorem read_of_complete {s : List σ} (h : F.Complete s) :
    F.read s = (F.decode (s.take (F.frameLen s)), s.drop (F.frameLen s)) :=
  if_pos h

theorem read_frame_append {f : List σ} {a : α} (h : F.IsFrame f a) (t : List σ) :
    F.read (f ++ t) = (some a, t) := by
  have hlen : F.frameLen (f ++ t) = f.length := by
    rw [F.frameLen_append t h.headerLen_le, h.length]
  rw [read_of_complete (h.complete_append t), hlen, List.take_left' rfl, List.drop_left' rfl,
    h.decode]

/-- A successful read takes a frame off the front. -/
theorem read_eq_some {s r : List σ} {a : α} (h : F.read s = (some a, r)) :
    ∃ f, s = f ++ r ∧ F.IsFrame f a := by
  by_cases hc : F.Complete s
  · rw [read_of_complete hc, Prod.mk.injEq] at h
    exact ⟨s.take (F.frameLen s), by rw [← h.2, List.take_append_drop], isFrame_take hc h.1⟩
  · rw [read_of_not_complete hc] at h
    cases h

theorem length_read_lt {s r : List σ} {a : α} (h : F.read s = (some a, r)) :
    r.length < s.length := by
  obtain ⟨f, rfl, hf⟩ := read_eq_some h
  have := F.headerLen_pos
  have := hf.headerLen_le
  rw [List.length_append]
  omega

/-! ### Draining the buffer -/

variable (F)

/-- Read frames until a read yields nothing. -/
def drain (s : List σ) : List α × List σ :=
  match _h : F.read s with
  | (some a, r) => (a :: (drain r).1, (drain r).2)
  | (none, r) => ([], r)
termination_by s.length
decreasing_by all_goals exact length_read_lt _h

variable {F}

theorem drain_of_some {s r : List σ} {a : α} (h : F.read s = (some a, r)) :
    F.drain s = (a :: (F.drain r).1, (F.drain r).2) := by
  rw [drain]
  split
  · rename_i a' r' h'
    obtain ⟨ha, rfl⟩ := Prod.mk.inj (h.symm.trans h')
    obtain rfl := Option.some.inj ha
    rfl
  · rename_i r' h'
    rw [h] at h'
    cases h'

theorem drain_of_none {s r : List σ} (h : F.read s = (none, r)) : F.drain s = ([], r) := by
  rw [drain]
  split
  · rename_i a' r' h'
    rw [h] at h'
    cases h'
  · rename_i r' h'
    obtain ⟨-, rfl⟩ := Prod.mk.inj (h.symm.trans h')
    rfl

theorem drain_of_not_complete {s : List σ} (h : ¬F.Complete s) : F.drain s = ([], s) :=
  drain_of_none (read_of_not_complete h)

theorem drain_frame_append {f : List σ} {a : α} (h : F.IsFrame f a) (t : List σ) :
    F.drain (f ++ t) = (a :: (F.drain t).1, (F.drain t).2) :=
  drain_of_some (read_frame_append h t)

/-- Frames in front of the buffer are drained in order. -/
theorem drain_flatten_append {fs : List (List σ)} {as : List α}
    (h : List.Forall₂ F.IsFrame fs as) (t : List σ) :
    F.drain (fs.flatten ++ t) = (as ++ (F.drain t).1, (F.drain t).2) := by
  induction h with
  | nil => simp
  | cons hf _ ih =>
    rw [List.flatten_cons, List.append_assoc, drain_frame_append hf, ih]
    rfl

/-- Draining a prefix of a stream of frames with an incomplete end: what it delivers and what
it leaves are a split of the stream at a frame boundary. -/
theorem drain_prefix {fs : List (List σ)} {as : List α} (h : List.Forall₂ F.IsFrame fs as)
    {rest : List σ} (hrest : ¬F.Complete rest) {p q : List σ} (hpq : p ++ q = fs.flatten ++ rest) :
    ∃ fs' as', List.Forall₂ F.IsFrame fs' as' ∧ (F.drain p).1 ++ as' = as ∧
      (F.drain p).2 ++ q = fs'.flatten ++ rest ∧ ¬F.Complete (F.drain p).2 := by
  induction h generalizing p with
  | nil =>
    rw [List.flatten_nil, List.nil_append] at hpq
    have hnc : ¬F.Complete p := fun hp => hrest (hpq ▸ hp.append q)
    rw [drain_of_not_complete hnc]
    exact ⟨[], [], .nil, rfl, hpq, hnc⟩
  | @cons f a fs as hf hfs ih =>
    rw [List.flatten_cons, List.append_assoc] at hpq
    rcases List.append_eq_append_iff.mp hpq with ⟨t, hft, hqt⟩ | ⟨p', rfl, hq⟩
    · -- the prefix ends inside the first frame, or at its end
      by_cases hlt : p.length < f.length
      · have hnc := hf.not_complete_of_prefix hft hlt
        rw [drain_of_not_complete hnc]
        exact ⟨f :: fs, a :: as, .cons hf hfs, rfl,
          by rw [hpq, List.flatten_cons, List.append_assoc], hnc⟩
      · obtain rfl : t = [] := by
          have := congrArg List.length hft
          rw [List.length_append] at this
          exact List.length_eq_zero_iff.mp (by omega)
        rw [List.append_nil] at hft
        subst hft
        obtain ⟨fs', as', h1, h2, h3, h4⟩ := ih (p := []) (by simpa using hqt)
        have hdrain := drain_frame_append hf []
        rw [List.append_nil] at hdrain
        rw [hdrain]
        exact ⟨fs', as', h1, by rw [List.cons_append, h2], h3, h4⟩
    -- the prefix goes on past the first frame
    · obtain ⟨fs', as', h1, h2, h3, h4⟩ := ih hq.symm
      rw [drain_frame_append hf]
      exact ⟨fs', as', h1, by rw [List.cons_append, h2], h3, h4⟩

/-! ### Feeding the stream in pieces -/

variable (F)

/-- The read loop: append a chunk to the buffer, drain it, go on with what is left. -/
def feed (buffer : List σ) : List (List σ) → List α × List σ
  | [] => ([], buffer)
  | chunk :: chunks =>
      let (as, rest) := F.drain (buffer ++ chunk)
      let (bs, rest') := feed rest chunks
      (as ++ bs, rest')

variable {F}

/-- **A stream of frames is delivered in order, however it is cut**: if the buffer and
the chunks make up decodable frames and an incomplete end, feeding the chunks yields exactly
the messages of the frames and leaves the end. -/
theorem feed_flatten_append {fs : List (List σ)} {as : List α} (h : List.Forall₂ F.IsFrame fs as)
    {rest : List σ} (hrest : ¬F.Complete rest) {buffer : List σ} (hb : ¬F.Complete buffer)
    {chunks : List (List σ)} (hc : buffer ++ chunks.flatten = fs.flatten ++ rest) :
    F.feed buffer chunks = (as, rest) := by
  induction chunks generalizing buffer fs as with
  | nil =>
    rw [List.flatten_nil, List.append_nil] at hc
    cases h with
    | nil => rw [feed, hc]; rfl
    | cons hf _ =>
      rw [List.flatten_cons, List.append_assoc] at hc
      exact absurd (hc ▸ hf.complete_append _) hb
  | cons chunk chunks ih =>
    rw [List.flatten_cons, ← List.append_assoc] at hc
    obtain ⟨fs', as', h', has, hrest', hnc⟩ := drain_prefix h hrest hc
    rw [feed]
    simp only [ih h' hnc hrest', has]

/-- A stream of frames only is delivered down to an empty buffer. -/
theorem feed_flatten {fs : List (List σ)} {as : List α} (h : List.Forall₂ F.IsFrame fs as)
    {buffer : List σ} (hb : ¬F.Complete buffer) {chunks : List (List σ)}
    (hc : buffer ++ chunks.flatten = fs.flatten) : F.feed buffer chunks = (as, []) :=
  feed_flatten_append h not_complete_nil hb (hc.trans (List.append_nil _).symm)

/-! ### What an undecodable frame leaves behind -/

variable (F)

/-- Somewhere in the buffer, behind decodable frames only, an undecodable frame sits in
front of a complete one. -/
def Blocked (s : List σ) : Prop :=
  ∃ fs as rest, s = fs.flatten ++ rest ∧ List.Forall₂ F.IsFrame fs as ∧ F.Complete rest ∧
    F.decode (rest.take (F.frameLen rest)) = none ∧ F.Complete (rest.drop (F.frameLen rest))

variable {F}

/-- The buffer is drained down to an incomplete frame exactly if it is not blocked. -/
theorem complete_drain_iff (s : List σ) : F.Complete (F.drain s).2 ↔ F.Blocked s := by
  constructor
  · intro h
    induction hn : s.length using Nat.strongRecOn generalizing s with
    | ind n ih =>
      cases hr : F.read s with
      | mk o r =>
        cases o with
        | some a =>
          rw [drain_of_some hr] at h
          obtain ⟨fs, as, rest, hs, hfs, hrest⟩ :=
            ih r.length (hn ▸ length_read_lt hr) r h rfl
          obtain ⟨f, rfl, hf⟩ := read_eq_some hr
          exact ⟨f :: fs, a :: as, rest, by rw [hs, List.flatten_cons, List.append_assoc],
            .cons hf hfs, hrest⟩
        | none =>
          rw [drain_of_none hr] at h
          by_cases hc : F.Complete s
          · rw [read_of_complete hc, Prod.mk.injEq] at hr
            exact ⟨[], [], s, rfl, .nil, hc, hr.1, hr.2 ▸ h⟩
          · rw [read_of_not_complete hc, Prod.mk.injEq] at hr
            exact absurd (hr.2 ▸ h) hc
  · intro hexists
    obtain ⟨fs, as, rest, rfl, hfs, hc, hd, hnext⟩ := hexists
    rw [drain_flatten_append hfs, drain_of_none (by rw [read_of_complete hc, hd])]
    exact hnext

end Framing
