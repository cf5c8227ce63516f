import RestDiameterBridge.Transport.RedirectCaches

/-!
# RestDiameterBridge.Transport.RedirectCoverage

Which requests a cached redirect is used for.

An answer names its scope by its Redirect-Host-Usage, relative to the request it answers. The
caches take the scope from the answer, which repeats the application id, the Session-Id and
the User-Name of the request but not its destination; so the usages that go by realm or host
are never found again (`covers_iff`).
-/

namespace RestDiameterBridge

open Expiry

/-- The answer repeats what it does of the request. -/
structure Command.Echoes (answer request : Command) : Prop where
  applicationId : answer.applicationId = request.applicationId
  sessionId : answer.getSessionId = request.getSessionId
  userName : answer.getUserName = request.getUserName
  destinationHost : answer.getDestinationHost = none
  destinationRealm : answer.getDestinationRealm = none

/-- A request is in the scope of the usage, relative to the one that was redirected. -/
def RedirectHostUsage.InScope (redirected request : Command) : RedirectHostUsage → Prop
  | dontCache => False
  | allSession =>
      redirected.getSessionId.isSome ∧ request.getSessionId = redirected.getSessionId
  | allRealm =>
      redirected.getDestinationRealm.isSome ∧
        request.getDestinationRealm = redirected.getDestinationRealm
  | realmAndApplication =>
      (redirected.getDestinationRealm.isSome ∧
        request.getDestinationRealm = redirected.getDestinationRealm) ∧
      request.applicationId = redirected.applicationId
  | allApplication => request.applicationId = redirected.applicationId
  | allHost =>
      redirected.getDestinationHost.isSome ∧
        request.getDestinationHost = redirected.getDestinationHost
  | allUser => redirected.getUserName.isSome ∧ request.getUserName = redirected.getUserName

/-- Where the caches put the answer. -/
def Command.redirectKey (answer : Command) : Option (RedirectLevel × String) :=
  (answer.redirectEntry 0).bind fun (usage, _) => usage.key answer

/-- The call leaves alone what is cached of the answer. -/
def RedirectCall.Spares (answer : Command) : RedirectCall → Prop
  | addRedirect later => ∀ key, answer.redirectKey = some key → later.redirectKey ≠ some key
  | getRedirect _ => True

/-- The redirect of the answer, cached at `now`, has not expired. -/
def Command.Unexpired (answer : Command) (now t : Nat) : Prop :=
  ∀ seconds, answer.getRedirectMaxCacheTime = some seconds → t < now + 1000 * seconds.toNat

namespace RedirectCaches

/-- The caches and the clock after calls. -/
def after (c : RedirectCaches) (now : Nat) : List (Nat × RedirectCall) → RedirectCaches × Nat
  | [] => (c, now)
  | (elapsed, .addRedirect answer) :: calls =>
      (c.addRedirect (now + elapsed) answer).after (now + elapsed) calls
  | (elapsed, .getRedirect request) :: calls =>
      (c.getRedirect (now + elapsed) request).2.after (now + elapsed) calls

/-- Whatever was cached before and is called afterwards, every request in the scope of the
answer to `redirected` is redirected until the answer expires or another replaces it. -/
def Covers (usage : RedirectHostUsage) (redirected answer : Command) : Prop :=
  ∀ (c : RedirectCaches) (now : Nat) (calls : List (Nat × RedirectCall)) (elapsed : Nat)
    (request : Command), (∀ call ∈ calls, call.2.Spares answer) → usage.InScope redirected request →
    answer.Unexpired now (((c.addRedirect now answer).after now calls).2 + elapsed) →
    (((c.addRedirect now answer).after now calls).1.getRedirect
      (((c.addRedirect now answer).after now calls).2 + elapsed) request).1.isSome

/-- The usage does not go by the destination, or there is none to go by. -/
def GoesByAnswer (redirected : Command) : RedirectHostUsage → Prop
  | .allRealm | .realmAndApplication => redirected.getDestinationRealm = none
  | .allHost => redirected.getDestinationHost = none
  | _ => True

section
variable {c : RedirectCaches} {now t : Nat} {answer request redirected : Command}
  {key : RedirectLevel × String} {entry : RedirectEntry} {usage : RedirectHostUsage}
  {calls : List (Nat × RedirectCall)}

theorem le_after : now ≤ (c.after now calls).2 := by
  induction calls generalizing c now with
  | nil => exact Nat.le_refl now
  | cons call calls ih =>
    obtain ⟨elapsed, call⟩ := call
    cases call <;> exact (Nat.le_add_right now elapsed).trans ih

theorem redirectKey_eq_of_added {answer : Command} (h : added answer now = some (key, entry)) :
    answer.redirectKey = some key := by
  unfold added Command.redirectEntry at h
  unfold Command.redirectKey Command.redirectEntry
  dsimp only at h ⊢
  split at h
  · cases h
  · split at h
    · cases h
    · rename_i hhosts husage
      obtain ⟨key', hkey', heq⟩ := Option.map_eq_some_iff.mp h
      cases heq
      rw [if_neg hhosts, if_neg husage]
      exact hkey'

theorem added_of_redirectEntry (h : answer.redirectEntry now = some (usage, entry)) :
    added answer now = (usage.key answer).map fun key => (key, entry) := by
  rw [added, h]
  rfl

theorem fresh_of_le {e : RedirectEntry} {t t' : Nat} (hle : t ≤ t') (h : e.isExpired t' = false) :
    e.isExpired t = false := by
  by_contra hexpired
  rw [Bool.not_eq_false] at hexpired
  rw [isExpired_mono e t t' hle hexpired] at h
  cases h

/-- What is cached stays until it expires or is replaced. -/
theorem find_after (hfound : c.find key = some entry) (hkey : answer.redirectKey = some key)
    (hspares : ∀ call ∈ calls, call.2.Spares answer) (ht : (c.after now calls).2 ≤ t)
    (hfresh : entry.isExpired t = false) : (c.after now calls).1.find key = some entry := by
  induction calls generalizing c now with
  | nil => exact hfound
  | cons call calls ih =>
    obtain ⟨elapsed, call⟩ := call
    have hrest : ∀ call ∈ calls, call.2.Spares answer :=
      fun call hcall => hspares call (List.mem_cons_of_mem _ hcall)
    have hthis := hspares _ List.mem_cons_self
    cases call with
    | addRedirect later =>
      refine ih ?_ hrest ht
      have hnow : entry.isExpired (now + elapsed) = false := fresh_of_le (le_after.trans ht) hfresh
      have hkept : (c.removeExpired (now + elapsed)).find key = some entry :=
        sheds_removeExpired.eq_some hfound hnow
      rw [addRedirect_eq]
      split
      · rename_i key' entry' hadded
        have hne : key ≠ key' := fun heq =>
          hthis key hkey (heq ▸ redirectKey_eq_of_added hadded)
        rw [find_insert, Function.update_of_ne hne]
        exact hkept
      · exact hkept
    | getRedirect request =>
      refine ih ?_ hrest ht
      have hnow : entry.isExpired (now + elapsed) = false := fresh_of_le (le_after.trans ht) hfresh
      exact (lookupFirst_spec _ _ _).2.eq_some hfound hnow

/-- A request finds something if one of its keys has a live entry. -/
theorem isSome_getRedirect (hfound : c.find key = some entry) (hfresh : entry.isExpired now = false)
    (hmem : key ∈ request.redirectKeys) : (c.getRedirect now request).1.isSome := by
  rw [getRedirect, (lookupFirst_spec _ _ _).1, List.findSome?_isSome_iff]
  exact ⟨key, hmem, by rw [live_of_fresh hfound hfresh]; rfl⟩

/-- A redirect to be cached. -/
theorem redirectEntry_eq (husage : answer.getRedirectHostUsage = some usage)
    (hcache : usage ≠ .dontCache) (hhosts : answer.getRedirectHosts ≠ some []) (now : Nat) :
    ∃ entry, answer.redirectEntry now = some (usage, entry) ∧
      ∀ t, answer.Unexpired now t → entry.isExpired t = false := by
  have hnonempty : ((answer.getAvps AvpCode.redirectHost.asU32).filterMap Avp.asUtf8String).isEmpty =
      false := by
    rw [List.isEmpty_eq_false_iff]
    intro hnil
    exact hhosts (congrArg some hnil)
  unfold Command.redirectEntry
  dsimp only
  rw [hnonempty, husage, Option.getD_some, if_neg (by simp), if_neg hcache]
  refine ⟨_, rfl, fun t ht => ?_⟩
  unfold RedirectEntry.isExpired
  split
  · rename_i expiresAt hexpires
    obtain ⟨seconds, hseconds, rfl⟩ := Option.map_eq_some_iff.mp hexpires
    have := ht seconds hseconds
    exact decide_eq_false (by omega)
  · rfl

/-- Where the answer is put, the requests in its scope look. -/
theorem exists_key (hechoes : answer.Echoes redirected) (hgoes : GoesByAnswer redirected usage)
    (hscope : usage.InScope redirected request) :
    ∃ key, usage.key answer = some key ∧ key ∈ request.redirectKeys := by
  cases usage with
  | dontCache => exact hscope.elim
  | allSession =>
    obtain ⟨sessionId, hid⟩ := Option.isSome_iff_exists.mp hscope.1
    refine ⟨(.session, sessionId), ?_, ?_⟩
    · simp [RedirectHostUsage.key, hechoes.sessionId, hid]
    · simp [Command.redirectKeys, hscope.2, hid]
  | allApplication =>
    refine ⟨(.application, s!"{answer.applicationId}"), rfl, ?_⟩
    have happ : request.applicationId = redirected.applicationId := hscope
    simp [Command.redirectKeys, hechoes.applicationId, happ]
  | allUser =>
    obtain ⟨user, huser⟩ := Option.isSome_iff_exists.mp hscope.1
    refine ⟨(.user, user), ?_, ?_⟩
    · simp [RedirectHostUsage.key, hechoes.userName, huser]
    · simp [Command.redirectKeys, hscope.2, huser]
  -- by the destination, which the request does not have
  | allRealm =>
    have hnone : redirected.getDestinationRealm = none := hgoes
    rw [RedirectHostUsage.InScope, hnone] at hscope
    exact absurd hscope.1 (by simp)
  | realmAndApplication =>
    have hnone : redirected.getDestinationRealm = none := hgoes
    rw [RedirectHostUsage.InScope, hnone] at hscope
    exact absurd hscope.1.1 (by simp)
  | allHost =>
    have hnone : redirected.getDestinationHost = none := hgoes
    rw [RedirectHostUsage.InScope, hnone] at hscope
    exact absurd hscope.1 (by simp)

theorem covers_of_goesByAnswer (hechoes : answer.Echoes redirected)
    (husage : answer.getRedirectHostUsage = some usage) (hcache : usage ≠ .dontCache)
    (hhosts : answer.getRedirectHosts ≠ some []) (hgoes : GoesByAnswer redirected usage) :
    Covers usage redirected answer := by
  intro c now calls elapsed request hspares hscope hunexpired
  obtain ⟨key, hkey, hmem⟩ := exists_key hechoes hgoes hscope
  obtain ⟨entry, hentry, hfresh⟩ := redirectEntry_eq husage hcache hhosts now
  have hadded : added answer now = some (key, entry) := by
    rw [added_of_redirectEntry hentry, hkey]
    rfl
  have hfound : (c.addRedirect now answer).find key = some entry := by
    rw [addRedirect_eq, hadded]
    dsimp only
    rw [find_insert, Function.update_self]
  refine isSome_getRedirect ?_ (hfresh _ hunexpired) hmem
  exact find_after hfound (redirectKey_eq_of_added hadded) hspares (Nat.le_add_right _ elapsed)
    (hfresh _ hunexpired)

/-- Usages that go by the destination put the answer nowhere. -/
theorem key_eq_none (hechoes : answer.Echoes redirected) (hgoes : ¬GoesByAnswer redirected usage) :
    usage.key answer = none ∧ usage.InScope redirected redirected := by
  cases usage with
  | allRealm =>
    simp only [RedirectHostUsage.key, hechoes.destinationRealm, Option.map_none, true_and]
    exact ⟨Option.isSome_iff_ne_none.mpr hgoes, rfl⟩
  | realmAndApplication =>
    simp only [RedirectHostUsage.key, hechoes.destinationRealm, Option.map_none, true_and]
    exact ⟨⟨Option.isSome_iff_ne_none.mpr hgoes, rfl⟩, rfl⟩
  | allHost =>
    simp only [RedirectHostUsage.key, hechoes.destinationHost, Option.map_none, true_and]
    exact ⟨Option.isSome_iff_ne_none.mpr hgoes, rfl⟩
  | _ => exact absurd trivial hgoes

/-- New caches with such an answer redirect nothing. -/
theorem getRedirect_of_key_eq_none (husage : answer.getRedirectHostUsage = some usage)
    (hkey : usage.key answer = none) (request : Command) :
    (((new 0).addRedirect 0 answer).getRedirect 0 request).1 = none := by
  have hsame : (new 0).addRedirect 0 answer = new 0 := by
    have hadded : added answer 0 = none := by
      rw [added, Option.bind_eq_none_iff]
      intro cached hcached
      unfold Command.redirectEntry at hcached
      dsimp only at hcached
      split at hcached
      · cases hcached
      · split at hcached
        · cases hcached
        · cases hcached
          rw [husage, Option.getD_some]
          show (usage.key answer).map _ = none
          rw [hkey, Option.map_none]
    rw [addRedirect_eq, hadded]
    rfl
  rw [hsame, getRedirect, (lookupFirst_spec _ _ _).1, List.findSome?_eq_none_iff]
  intro key _
  rw [live_of_none rfl]
  rfl

end

/-- **Which redirects are found again.** An answer that repeats the application id, the
Session-Id and the User-Name of its request but not its destination redirects every request
in its scope until it expires exactly if its usage goes by these (session, application or
user), the request it answers has no such destination, or it expires at once. -/
theorem covers_iff {usage : RedirectHostUsage} {redirected answer : Command}
    (hechoes : answer.Echoes redirected) (husage : answer.getRedirectHostUsage = some usage)
    (hcache : usage ≠ .dontCache) (hhosts : answer.getRedirectHosts ≠ some []) :
    Covers usage redirected answer ↔
      GoesByAnswer redirected usage ∨ answer.getRedirectMaxCacheTime = some 0 := by
  constructor
  · intro hcovers
    by_contra hneither
    obtain ⟨hgoes, htime⟩ := not_or.mp hneither
    obtain ⟨hkey, hscope⟩ := key_eq_none hechoes hgoes
    have hunexpired : answer.Unexpired 0 0 := by
      intro seconds hseconds
      have hne : seconds ≠ 0 := fun hzero => htime (hzero ▸ hseconds)
      have hpos : 0 < seconds.toNat := UInt32.pos_iff_ne_zero.mpr hne
      omega
    -- the redirected request itself is in the scope, and the new caches have nothing for it
    have hsome := hcovers (new 0) 0 [] 0 redirected (by simp) hscope hunexpired
    have hnone := getRedirect_of_key_eq_none husage hkey redirected
    simp only [after, Nat.add_zero, hnone] at hsome
    cases hsome
  · intro hor
    rcases hor with hgoes | htime
    · exact covers_of_goesByAnswer hechoes husage hcache hhosts hgoes
    · intro c now calls elapsed request _ _ hunexpired
      have hlt := hunexpired 0 htime
      have hle : now ≤ ((c.addRedirect now answer).after now calls).2 := le_after
      rw [UInt32.toNat_zero] at hlt
      omega

/-- A request of a session, for a realm. -/
def redirectedRequest : Command :=
  { code := 272, flags := 0xC0, applicationId := 4, hopByHopId := 1, endToEndId := 1
    avps := [Avp.fromUtf8String AvpCode.sessionId.asU32 0x40 none "node;1",
      Avp.fromUtf8String AvpCode.destinationRealm.asU32 0x40 none "test.com"] }

/-- Its answer, which redirects to another host. -/
def redirectAnswer (usage : UInt32) : Command :=
  { code := 272, flags := 0x40, applicationId := 4, hopByHopId := 1, endToEndId := 1
    avps := [Avp.fromUtf8String AvpCode.sessionId.asU32 0x40 none "node;1",
      Avp.fromUtf8String AvpCode.redirectHost.asU32 0x40 none "other.test.com",
      Avp.fromUnsigned32 AvpCode.redirectHostUsage.asU32 0x40 none usage] }

theorem echoes_redirectAnswer (usage : UInt32) : (redirectAnswer usage).Echoes redirectedRequest :=
  ⟨rfl, rfl, rfl, rfl, rfl⟩

theorem getRedirectHostUsage_redirectAnswer (usage : UInt32) :
    (redirectAnswer usage).getRedirectHostUsage = RedirectHostUsage.fromU32 usage := by
  have husage : ((redirectAnswer usage).getAvp AvpCode.redirectHostUsage.asU32).bind
      Avp.asUnsigned32 = some usage := by
    show Avp.asUnsigned32 (Avp.fromUnsigned32 AvpCode.redirectHostUsage.asU32 0x40 none usage) = _
    simp [Avp.asUnsigned32, Avp.fromUnsigned32, Avp.new]
  rw [Command.getRedirectHostUsage, husage, Option.bind_some]

theorem getRedirectHosts_redirectAnswer (usage : UInt32) :
    (redirectAnswer usage).getRedirectHosts ≠ some [] := by
  intro h
  have hmem : "other.test.com" ∈ ([] : List String) := by
    rw [← Option.some.inj h, List.mem_filterMap]
    exact ⟨_, List.mem_singleton_self _, Avp.asUtf8String_fromUtf8String _ _ _ _⟩
  cases hmem

/-- A redirect for the session is used for the whole session. -/
theorem covers_iff_allSession :
    Covers .allSession redirectedRequest (redirectAnswer 1) :=
  (covers_iff (echoes_redirectAnswer 1) (getRedirectHostUsage_redirectAnswer 1) (by decide)
    (getRedirectHosts_redirectAnswer 1)).mpr (.inl trivial)

/-- A redirect for the realm is not even used for the same request. -/
theorem not_covers_allRealm :
    RedirectHostUsage.InScope redirectedRequest redirectedRequest .allRealm ∧
      (((new 0).addRedirect 0 (redirectAnswer 2)).getRedirect 0 redirectedRequest).1 = none ∧
      ¬Covers .allRealm redirectedRequest (redirectAnswer 2) := by
  have hrealm : redirectedRequest.getDestinationRealm = some "test.com" :=
    Avp.asUtf8String_fromUtf8String AvpCode.destinationRealm.asU32 0x40 none "test.com"
  have hscope : RedirectHostUsage.InScope redirectedRequest redirectedRequest .allRealm :=
    ⟨by rw [hrealm]; rfl, rfl⟩
  have hnone : (((new 0).addRedirect 0 (redirectAnswer 2)).getRedirect 0 redirectedRequest).1 = none :=
    getRedirect_of_key_eq_none (getRedirectHostUsage_redirectAnswer 2) rfl _
  refine ⟨hscope, hnone, fun hcovers => ?_⟩
  have hsome := hcovers (new 0) 0 [] 0 redirectedRequest (by simp) hscope fun _ h => by cases h
  simp only [after, Nat.add_zero, hnone] at hsome
  cases hsome

end RedirectCaches

end RestDiameterBridge
