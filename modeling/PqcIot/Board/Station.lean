import Mathlib.Data.List.Induction
import PqcIot.Board.Wifi

/-!
# What the Wi-Fi station guarantees

Invariants of `wifi_sta.c`, in every run, however the two tasks interleave and whatever events
arrive.

* `retries_bounded` — the connection attempts, and when the station gives up;
* `wifiStaStart_verdict` — what the result of `wifi_sta_start` says;
* `exists_wait` — the same for any program that waits for the bits.
-/

namespace PqcIot

open Effects
open scoped List

namespace Board

variable {E : Signature} {α : Type}

/-! ## Retries -/

/-- `esp_wifi_connect` is called. -/
def Label.connects : Label E → Bool
  | .connect => true
  | _ => false

/-- The station has started. -/
def Label.starts : Label E → Bool
  | .dispatch .staStart => true
  | _ => false

/-- The connection is lost, or has failed. -/
def Label.disconnects : Label E → Bool
  | .dispatch .staDisconnected => true
  | _ => false

/-- `s_attempts` is reset. -/
def Label.resets : Label E → Bool
  | .resetAttempts => true
  | _ => false

/-- The handler is on its way to `esp_wifi_connect`. -/
def Handler.pending : Handler → ℕ
  | .delaying | .connecting => 1
  | .idle | .failing | .resetting | .joining => 0

/-- More than `MAX_ATTEMPTS` disconnections without an address in between. -/
def GivesUp (ls : List (Label E)) : Prop :=
  (∀ l ∈ ls, l.resets = false) ∧ maxAttempts < ls.countP Label.disconnects

/-- `s_attempts` counts disconnections since the last reset, up to `MAX_ATTEMPTS`. -/
structure Retries (ls : List (Label E)) (s : Station E α) : Prop where
  attempts_le : s.sAttempts ≤ maxAttempts
  since : ∃ before after, ls = before ++ after ∧ (∀ l ∈ after, l.resets = false) ∧
    s.sAttempts ≤ after.countP Label.disconnects ∧
    (s.handler = .failing → maxAttempts < after.countP Label.disconnects)

theorem retries_start (main : Prog (wifi.sum E) α) : Retries [] (Station.start main) :=
  ⟨Nat.zero_le _, [], [], rfl, List.forall_mem_nil _, Nat.le_refl _, nofun⟩

section Step

variable {ls : List (Label E)} {s t : Station E α} {l : Label E}

/-- A statement that has nothing to do with the attempts. -/
private theorem Retries.quiet (h : Retries ls s) (hresets : l.resets = false)
    (hattempts : t.sAttempts = s.sAttempts)
    (hfailing : t.handler = .failing → s.handler = .failing) :
    Retries (ls ++ [l]) t := by
  obtain ⟨before, after, rfl, hafter, hsince, hfail⟩ := h.since
  refine ⟨hattempts ▸ h.attempts_le, before, after ++ [l], (List.append_assoc ..), ?_, ?_, ?_⟩
  · rw [List.forall_mem_append, List.forall_mem_singleton]
    exact ⟨hafter, hresets⟩
  · rw [List.countP_append, hattempts]
    exact hsince.trans (Nat.le_add_right _ _)
  · intro ht
    rw [List.countP_append]
    exact (hfail (hfailing ht)).trans_le (Nat.le_add_right _ _)

/-- A call changes the handlers that are registered and the event group, and nothing else. -/
theorem Station.answer_fields (s : Station E α) (main : Prog (wifi.sum E) α)
    (e : Event (wifi.sum E)) : (s.answer main e).sAttempts = s.sAttempts ∧
      (s.answer main e).handler = s.handler ∧ (s.answer main e).wait = s.wait ∧
      (s.answer main e).main = main := by
  unfold answer
  split <;> exact ⟨rfl, rfl, rfl, rfl⟩

/-- A handler starts: it connects, or counts a disconnection and connects again, or gives up. -/
private theorem Retries.dispatch (h : Retries ls s) (event : WifiEvent) :
    Retries (ls ++ [.dispatch event]) (s.dispatch event) := by
  cases event with
  | staStart => exact h.quiet rfl rfl nofun
  | staDisconnected =>
    obtain ⟨before, after, rfl, hafter, hsince, -⟩ := h.since
    have hafter' : ∀ l ∈ after ++ [Label.dispatch (E := E) .staDisconnected], l.resets = false := by
      rw [List.forall_mem_append, List.forall_mem_singleton]
      exact ⟨hafter, rfl⟩
    have hdisconnects : (after ++ [Label.dispatch (E := E) .staDisconnected]).countP
        Label.disconnects = after.countP Label.disconnects + 1 := List.countP_append ..
    rw [Station.dispatch]
    split
    · next hlt =>
      refine ⟨hlt, before, _, List.append_assoc .., hafter', ?_, nofun⟩
      rw [hdisconnects]
      exact Nat.succ_le_succ hsince
    · next hge =>
      -- All attempts are used up; with this one there are more disconnections than attempts.
      refine ⟨h.attempts_le, before, _, List.append_assoc .., hafter', ?_, fun _ => ?_⟩
      · rw [hdisconnects]
        exact hsince.trans (Nat.le_succ _)
      · rw [hdisconnects]
        omega
  | gotIp => exact h.quiet rfl rfl nofun
  | other => exact h.quiet rfl rfl id

/-- What one statement preserves. -/
theorem Retries.step (h : Retries ls s) (hstep : Station.Step s l t) : Retries (ls ++ [l]) t := by
  cases hstep with
  | call a hmain hwait =>
    obtain ⟨hattempts, hhandler, -⟩ := s.answer_fields _ _
    exact h.quiet rfl hattempts fun hf => hhandler ▸ hf
  | pass | block | expire | giveUp | resume => exact h.quiet rfl rfl id
  | dispatch event hidle hregistered => exact h.dispatch event
  | delayed | connect | setFailed | setConnected => exact h.quiet rfl rfl nofun
  | resetAttempts =>
    exact ⟨Nat.zero_le _, ls ++ [.resetAttempts], [], (List.append_nil _).symm,
      List.forall_mem_nil _, Nat.le_refl _, nofun⟩

/-- A call of `esp_wifi_connect` has been pending, and is due to a start or to an attempt. -/
theorem Station.Step.connects_le (hstep : Station.Step s l t) (hl : l.resets = false) :
    [l].countP Label.connects + t.handler.pending + s.sAttempts ≤
      [l].countP Label.starts + t.sAttempts + s.handler.pending := by
  -- Each call of `esp_wifi_connect` is paid for by a start or an attempt.
  cases hstep with
  | call a hmain hwait =>
    obtain ⟨hattempts, hhandler, -⟩ := s.answer_fields _ _
    rw [hattempts, hhandler]
    exact (Nat.add_right_comm ..).le
  | pass | block | expire | giveUp | resume => exact (Nat.add_right_comm ..).le
  | dispatch event hidle hregistered =>
    cases event with
    | staStart =>
      rw [hidle]
      show 0 + 1 + s.sAttempts ≤ 1 + s.sAttempts + 0
      omega
    | staDisconnected =>
      rw [hidle, Station.dispatch]
      split
      · show 0 + 1 + s.sAttempts ≤ 0 + (s.sAttempts + 1) + 0
        omega
      · exact Nat.le_refl _
    | gotIp =>
      rw [hidle]
      exact Nat.le_refl _
    | other => exact (Nat.add_right_comm ..).le
  | delayed hhandler =>
    rw [hhandler]
    exact (Nat.add_right_comm ..).le
  | connect hhandler =>
    rw [hhandler]
    show 1 + 0 + s.sAttempts ≤ 0 + s.sAttempts + 1
    omega
  | setFailed hhandler | setConnected hhandler =>
    rw [hhandler]
    exact Nat.le_refl _
  | resetAttempts => cases hl

/-- Without a reset in between, there are at most as many calls as starts and attempts. -/
theorem connects_le (h : Steps Station.Step s ls t) (hls : ∀ l ∈ ls, l.resets = false) :
    ls.countP Label.connects + t.handler.pending + s.sAttempts ≤
      ls.countP Label.starts + t.sAttempts + s.handler.pending := by
  induction h with
  | nil s => exact (Nat.add_right_comm ..).le
  | @cons s t u l ls hstep _ ih =>
    rw [List.forall_mem_cons] at hls
    have hfirst := hstep.connects_le hls.1
    have hrest := ih hls.2
    rw [← List.singleton_append, List.countP_append, List.countP_append]
    omega

end Step

/-! ## The calls of the task -/

/-- The calls of the task. -/
def mainLog (ls : List (Label E)) : List (Event (wifi.sum E)) :=
  ls.filterMap fun
    | .call e => some e
    | _ => none

@[simp]
theorem mainLog_append (ls ls' : List (Label E)) :
    mainLog (ls ++ ls') = mainLog ls ++ mainLog ls' :=
  List.filterMap_append ..

theorem mem_mainLog {ls : List (Label E)} {e : Event (wifi.sum E)} :
    e ∈ mainLog ls ↔ .call e ∈ ls := by
  rw [mainLog, List.mem_filterMap]
  refine ⟨?_, fun h => ⟨_, h, rfl⟩⟩
  rintro ⟨l, hl, he⟩
  cases l with
  | call e' =>
    cases he
    exact hl
  | block | expire | dispatch | delayed | connect | setFailed | resetAttempts | setConnected =>
    cases he

/-! ## The bits -/

/-- `BIT_CONNECTED` is set. -/
def Label.joins : Label E → Bool
  | .setConnected => true
  | _ => false

/-- `BIT_FAILED` is set. -/
def Label.fails : Label E → Bool
  | .setFailed => true
  | _ => false

/-- `s_events` gets a new value. -/
def Label.creates : Label E → Bool
  | .call ⟨.inl .xEventGroupCreate, _⟩ => true
  | _ => false

/-- What a statement does to the event group. -/
def Label.update : Label E → Option Bits → Option Bits
  | .call ⟨.inl .xEventGroupCreate, true⟩, _ => some ⟨false, false⟩
  | .call ⟨.inl .xEventGroupCreate, false⟩, _ => none
  | .setConnected, some bits => some { bits with connected := true }
  | .setFailed, some bits => some { bits with failed := true }
  | _, events => events

/-- The event group after some statements. -/
def eventsAfter (ls : List (Label E)) : Option Bits :=
  ls.foldl (fun events l => l.update events) none

@[simp]
theorem eventsAfter_concat (ls : List (Label E)) (l : Label E) :
    eventsAfter (ls ++ [l]) = l.update (eventsAfter ls) := List.foldl_append ..

/-- A statement that creates no group and sets no bit leaves it as it is. -/
theorem Label.update_eq {l : Label E} (hcreates : l.creates = false) (hjoins : l.joins = false)
    (hfails : l.fails = false) (events : Option Bits) : l.update events = events := by
  unfold update
  split
  · cases hcreates
  · cases hcreates
  · cases hjoins
  · cases hfails
  · rfl

/-- As long as there is no other group, nothing clears a bit. -/
private theorem foldl_update {ls : List (Label E)} (hls : ∀ l ∈ ls, l.creates = false)
    (bits : Bits) :
    ls.foldl (fun events l => l.update events) (some bits) =
      some ⟨bits.connected || ls.any Label.joins, bits.failed || ls.any Label.fails⟩ := by
  induction ls generalizing bits with
  | nil => simp only [List.foldl_nil, List.any_nil, Bool.or_false]
  | cons l ls ih =>
    rw [List.forall_mem_cons] at hls
    have hupdate : l.update (some bits) =
        some ⟨bits.connected || l.joins, bits.failed || l.fails⟩ := by
      cases l with
      | setConnected => simp only [Label.update, Label.joins, Label.fails, Bool.or_true,
        Bool.or_false]
      | setFailed => simp only [Label.update, Label.joins, Label.fails, Bool.or_true, Bool.or_false]
      | call | block | expire | dispatch | delayed | connect | resetAttempts =>
        rw [Label.update_eq hls.1 rfl rfl]
        simp only [Label.joins, Label.fails, Bool.or_false]
    rw [List.foldl_cons, hupdate, ih hls.2, List.any_cons, List.any_cons, Bool.or_assoc,
      Bool.or_assoc]

/-- The bits that have been set since the group was created. -/
theorem eventsAfter_created (before : List (Label E)) {after : List (Label E)}
    (hafter : ∀ l ∈ after, l.creates = false) :
    eventsAfter (before ++ .call ⟨.inl .xEventGroupCreate, true⟩ :: after) =
      some ⟨after.any Label.joins, after.any Label.fails⟩ := by
  rw [eventsAfter, List.foldl_append, List.foldl_cons]
  exact (foldl_update hafter ⟨false, false⟩).trans (by simp only [Bool.false_or])

/-- There is a group after a statement that creates it, or if there has been one. -/
theorem Label.update_cases {l : Label E} {events : Option Bits} {bits : Bits}
    (h : l.update events = some bits) : l = .call ⟨.inl .xEventGroupCreate, true⟩ ∨
      l.creates = false ∧ ∃ bits', events = some bits' := by
  cases l with
  | call e =>
    rcases e with ⟨o | o, a⟩
    · cases o with
      | xEventGroupCreate =>
        cases a with
        | true => exact .inl rfl
        | false => cases h
      | esp | xEventGroupWaitBits | abort => exact .inr ⟨rfl, bits, h⟩
    · exact .inr ⟨rfl, bits, h⟩
  | setFailed | setConnected =>
    cases events with
    | none => cases h
    | some bits' => exact .inr ⟨rfl, bits', rfl⟩
  | block | expire | dispatch | delayed | connect | resetAttempts => exact .inr ⟨rfl, bits, h⟩

/-- There is a group only if it has been created. -/
theorem exists_created {ls : List (Label E)} {bits : Bits} (h : eventsAfter ls = some bits) :
    ∃ before after, ls = before ++ .call ⟨.inl .xEventGroupCreate, true⟩ :: after ∧
      ∀ l ∈ after, l.creates = false := by
  induction ls using List.reverseRecOn generalizing bits with
  | nil => cases h
  | append_singleton ls l ih =>
    rw [eventsAfter_concat] at h
    rcases Label.update_cases h with rfl | ⟨hcreates, bits', hbefore⟩
    · exact ⟨ls, [], rfl, List.forall_mem_nil _⟩
    · -- The group has been there before.
      obtain ⟨before, after, rfl, hafter⟩ := ih hbefore
      refine ⟨before, after ++ [l], List.append_assoc .., ?_⟩
      rw [List.forall_mem_append, List.forall_mem_singleton]
      exact ⟨hafter, hcreates⟩

/-- What leads to `BIT_CONNECTED`. -/
def addressSteps : List (Label E) :=
  [.call ⟨.inl (.esp .registerIpEvent), EspErr.ok⟩, .dispatch .gotIp, .resetAttempts, .setConnected]

/-- The bits are those that have been set, `BIT_CONNECTED` when there is an address and `BIT_FAILED`
when all attempts are used up; the task is woken with the bits of one moment of its wait. -/
structure Flags (ls : List (Label E)) (s : Station E α) : Prop where
  events : s.sEvents = eventsAfter ls
  registered : s.onIpEvent = true → addressSteps.take 1 <+ ls
  resetting : s.handler = .resetting → addressSteps.take 2 <+ ls
  joining : s.handler = .joining → addressSteps.take 3 <+ ls
  connected : ∀ bits, s.sEvents = some bits → bits.connected = true → addressSteps <+ ls
  failed : ∀ bits, s.sEvents = some bits → bits.failed = true →
    ∃ before after rest, ls = before ++ after ++ rest ∧ GivesUp after
  waiting : s.wait ≠ .idle → ∃ k, s.main = .op (.inl .xEventGroupWaitBits) k
  woken : ∀ bits, s.wait = .woken bits → bits ≠ ⟨false, false⟩ ∧
    ∃ m, m <+: ls ∧ mainLog m = mainLog ls ∧ eventsAfter m = some bits
  expired : s.wait = .expired → .expire ∈ ls

theorem flags_start (main : Prog (wifi.sum E) α) : Flags [] (Station.start main) :=
  ⟨rfl, nofun, nofun, nofun, nofun, nofun, fun h => absurd rfl h, nofun, nofun⟩

section Step

variable {ls : List (Label E)} {s t : Station E α} {l : Label E}

/-- A statement that sets no bit. -/
private theorem Flags.quiet (h : Flags ls s) (hevents : t.sEvents = l.update s.sEvents)
    (hbits : ∀ bits, t.sEvents = some bits → bits = ⟨false, false⟩ ∨ s.sEvents = some bits)
    (hregistered : t.onIpEvent = true → addressSteps.take 1 <+ ls ++ [l])
    (hresetting : t.handler = .resetting → addressSteps.take 2 <+ ls ++ [l])
    (hjoining : t.handler = .joining → addressSteps.take 3 <+ ls ++ [l])
    (hwaiting : t.wait ≠ .idle → ∃ k, t.main = .op (.inl .xEventGroupWaitBits) k)
    (hwoken : ∀ bits, t.wait = .woken bits → s.wait = .woken bits ∧ mainLog [l] = [])
    (hexpired : t.wait = .expired → .expire ∈ ls ++ [l]) : Flags (ls ++ [l]) t := by
  refine ⟨?_, hregistered, hresetting, hjoining, fun bits hb hc => ?_, fun bits hb hf => ?_,
    hwaiting, fun bits hw => ?_, hexpired⟩
  · rw [hevents, h.events, eventsAfter_concat]
  · rcases hbits bits hb with rfl | hb
    · cases hc
    · exact (h.connected bits hb hc).trans (List.sublist_append_left _ _)
  · rcases hbits bits hb with rfl | hb
    · cases hf
    · obtain ⟨before, after, rest, rfl, hgives⟩ := h.failed bits hb hf
      exact ⟨before, after, rest ++ [l], List.append_assoc .., hgives⟩
  · obtain ⟨hw, hlog⟩ := hwoken bits hw
    obtain ⟨hne, m, hm, hmain, hb⟩ := h.woken bits hw
    refine ⟨hne, m, hm.trans (List.prefix_append _ _), ?_, hb⟩
    rw [hmain, mainLog_append, hlog, List.append_nil]

/-- A handler is registered by a call. -/
theorem Station.onIpEvent_answer {main : Prog (wifi.sum E) α} {e : Event (wifi.sum E)}
    (h : (s.answer main e).onIpEvent = true) :
    s.onIpEvent = true ∨ e = ⟨.inl (.esp .registerIpEvent), EspErr.ok⟩ := by
  unfold answer at h
  split at h
  · exact .inl h
  · exact .inr rfl
  · exact .inl h
  · exact .inl h
  · exact .inl h

/-- A call may change `s_events`. -/
theorem Station.sEvents_answer (s : Station E α) (main : Prog (wifi.sum E) α)
    (e : Event (wifi.sum E)) : (s.answer main e).sEvents = (Label.call e).update s.sEvents := by
  rcases e with ⟨o | o, a⟩
  · cases o with
    | xEventGroupCreate => cases a <;> rfl
    | esp call => cases call <;> cases a <;> rfl
    | xEventGroupWaitBits | abort => rfl
  · rfl

/-- A call sets no bit. -/
theorem Label.update_call {e : Event (wifi.sum E)} {events : Option Bits} {bits : Bits}
    (h : (Label.call e).update events = some bits) :
    bits = ⟨false, false⟩ ∨ events = some bits := by
  unfold update at h
  split at h
  · exact .inl (Option.some.inj h).symm
  · cases h
  · next heq => cases heq
  · next heq => cases heq
  · exact .inr h

/-- Who waits is woken with the new bits. -/
theorem Wait.wake_eq_woken {wait : Wait} {bits bits' : Bits}
    (h : wait.wake bits = .woken bits') : bits' = bits ∨ wait = .woken bits' := by
  cases wait with
  | blocked =>
    cases h
    exact .inl rfl
  | idle | expired | woken _ => exact .inr h

theorem Wait.wake_eq_expired {wait : Wait} {bits : Bits} (h : wait.wake bits = .expired) :
    wait = .expired := by
  cases wait with
  | blocked => cases h
  | idle | expired | woken _ => exact h

/-- Who does not wait is not woken. -/
theorem Wait.wake_ne_idle {wait : Wait} {bits : Bits} (h : wait.wake bits ≠ .idle) :
    wait ≠ .idle := by
  rintro rfl
  exact h rfl

/-- A statement of the event task that sets a bit: the task is woken with the bits of this
moment. -/
private theorem Flags.set (h : Flags ls s) {bits : Bits}
    (hupdate : l.update s.sEvents = some bits) (hne : bits ≠ ⟨false, false⟩)
    (hlog : mainLog [l] = [])
    (hconnected : bits.connected = true → addressSteps <+ ls ++ [l])
    (hfailed : bits.failed = true →
      ∃ before after rest, ls ++ [l] = before ++ after ++ rest ∧ GivesUp after) :
    Flags (ls ++ [l]) { s with
      handler := .idle
      sEvents := some bits
      wait := s.wait.wake bits } := by
  have hevents : eventsAfter (ls ++ [l]) = some bits := by
    rw [eventsAfter_concat, ← h.events, hupdate]
  refine ⟨hevents.symm, fun hr => ?_, nofun, nofun, ?_, ?_, fun hw => ?_, fun bits' hw => ?_,
    fun hw => ?_⟩
  · exact (h.registered hr).trans (List.sublist_append_left _ _)
  · rintro bits' ⟨⟩
    exact hconnected
  · rintro bits' ⟨⟩
    exact hfailed
  · exact h.waiting (Wait.wake_ne_idle hw)
  · -- A task that waits is woken by these bits; one that was awake keeps its own.
    rcases Wait.wake_eq_woken hw with rfl | hw
    · exact ⟨hne, _, List.prefix_rfl, rfl, hevents⟩
    · obtain ⟨hne', m, hm, hmain, hbits⟩ := h.woken _ hw
      refine ⟨hne', m, hm.trans (List.prefix_append _ _), ?_, hbits⟩
      rw [hmain, mainLog_append, hlog, List.append_nil]
  · exact List.mem_append_left _ (h.expired (Wait.wake_eq_expired hw))

/-- A task that makes another call is not in its wait. -/
theorem Flags.wait_eq (h : Flags ls s) {o : (wifi.sum E).Op}
    {k : (wifi.sum E).Ans o → Prog (wifi.sum E) α} (hmain : s.main = .op o k)
    (hwait : o ≠ .inl .xEventGroupWaitBits) : s.wait = .idle := by
  by_contra hne
  obtain ⟨k', hmain'⟩ := h.waiting hne
  rw [hmain] at hmain'
  cases hmain'
  exact hwait rfl

/-- What one statement preserves. -/
theorem Flags.step (h : Flags ls s) (hretries : Retries ls s) (hstep : Station.Step s l t) :
    Flags (ls ++ [l]) t := by
  have hmono {sub : List (Label E)} (hsub : sub <+ ls) : sub <+ ls ++ [l] :=
    hsub.trans (List.sublist_append_left _ _)
  have hlast {sub : List (Label E)} (hsub : sub <+ ls) : sub ++ [l] <+ ls ++ [l] :=
    hsub.append (List.Sublist.refl _)
  have hregistered := fun hr => hmono (h.registered hr)
  have hresetting := fun hh => hmono (h.resetting hh)
  have hjoining := fun hh => hmono (h.joining hh)
  have hexpired := fun hw => List.mem_append_left [l] (h.expired hw)
  have hold : ∀ bits, s.sEvents = some bits → bits = ⟨false, false⟩ ∨ s.sEvents = some bits :=
    fun _ => .inr
  -- Only the last two statements set a bit; the others keep what is known or learn of an event.
  cases hstep with
  | @call o k a hmain hwait =>
    obtain ⟨-, hhandler, hwait', -⟩ := s.answer_fields (k a) ⟨o, a⟩
    have hevents := s.sEvents_answer (k a) ⟨o, a⟩
    have hidle : (s.answer (k a) ⟨o, a⟩).wait = .idle := hwait'.trans (h.wait_eq hmain hwait)
    refine h.quiet hevents (fun bits hb => Label.update_call (hevents ▸ hb)) (fun hr => ?_)
      (hhandler ▸ hresetting) (hhandler ▸ hjoining) (fun hne => absurd hidle hne)
      (fun _ hw => by rw [hidle] at hw; cases hw) (fun hw => by rw [hidle] at hw; cases hw)
    -- The handler is registered already, or by this very call.
    rcases Station.onIpEvent_answer hr with hr | he
    · exact hregistered hr
    · rw [he]
      exact List.sublist_append_right _ _
  | pass hmain hidle =>
    exact h.quiet rfl hold hregistered hresetting hjoining (fun hne => absurd hidle hne)
      (fun _ hw => by rw [hidle] at hw; cases hw) hexpired
  | block hmain =>
    exact h.quiet rfl hold hregistered hresetting hjoining (fun _ => ⟨_, hmain⟩) nofun nofun
  | expire hwait =>
    refine h.quiet rfl hold hregistered hresetting hjoining (fun _ => h.waiting ?_) nofun fun _ =>
      List.mem_append_right _ List.mem_cons_self
    rw [hwait]
    exact nofun
  | giveUp | resume =>
    exact h.quiet rfl hold hregistered hresetting hjoining (absurd rfl) nofun nofun
  | dispatch event hidle hevent =>
    have hwoken : ∀ bits, s.wait = .woken bits →
        s.wait = .woken bits ∧ mainLog [Label.dispatch (E := E) event] = [] := fun _ hw => ⟨hw, rfl⟩
    cases event with
    | staStart => exact h.quiet rfl hold hregistered nofun nofun h.waiting hwoken hexpired
    | staDisconnected =>
      rw [Station.dispatch]
      split
      · exact h.quiet rfl hold hregistered nofun nofun h.waiting hwoken hexpired
      · exact h.quiet rfl hold hregistered nofun nofun h.waiting hwoken hexpired
    | gotIp =>
      exact h.quiet rfl hold hregistered (fun _ => hlast (h.registered hevent)) nofun h.waiting
        hwoken hexpired
    | other => exact h.quiet rfl hold hregistered hresetting hjoining h.waiting hwoken hexpired
  | delayed | connect =>
    exact h.quiet rfl hold hregistered nofun nofun h.waiting (fun _ hw => ⟨hw, rfl⟩) hexpired
  | resetAttempts hhandler =>
    exact h.quiet rfl hold hregistered nofun (fun _ => hlast (h.resetting hhandler)) h.waiting
      (fun _ hw => ⟨hw, rfl⟩) hexpired
  | @setFailed bits hhandler hevents =>
    -- `BIT_FAILED`: the attempts were counted since the last address.
    obtain ⟨before, after, hsplit, hafter, -, hfailing⟩ := hretries.since
    refine h.set (by rw [hevents]; rfl) (by simp) rfl
      (fun hc => hmono (h.connected bits hevents hc)) fun _ => ?_
    exact ⟨before, after, [.setFailed], by rw [hsplit], hafter, hfailing hhandler⟩
  | @setConnected bits hhandler hevents =>
    refine h.set (by rw [hevents]; rfl) (by simp) rfl (fun _ => hlast (h.joining hhandler))
      fun hf => ?_
    -- `BIT_CONNECTED`: what was known of the other bit stays.
    obtain ⟨before, after, rest, hsplit, hgives⟩ := h.failed bits hevents hf
    exact ⟨before, after, rest ++ [.setConnected], by rw [hsplit, List.append_assoc], hgives⟩

/-- The answer of `xEventGroupWaitBits` are the bits of a moment of the wait at which one was set,
or those at the end of the time. -/
theorem Flags.answered (h : Flags ls s) {bits : Bits}
    (hstep : Station.Step s (.call ⟨.inl .xEventGroupWaitBits, bits⟩) t) :
    ∃ m, m <+: ls ∧ mainLog m = mainLog ls ∧ eventsAfter m = some bits ∧
      (bits = ⟨false, false⟩ → .expire ∈ m) := by
  cases hstep with
  | call a hmain hwait => exact absurd rfl hwait
  | pass hmain hwait hevents hbits =>
    exact ⟨ls, List.prefix_rfl, rfl, h.events ▸ hevents, fun hnone => absurd hnone hbits⟩
  | giveUp hmain hwait hevents =>
    exact ⟨ls, List.prefix_rfl, rfl, h.events ▸ hevents, fun _ => h.expired hwait⟩
  | resume hmain hwait =>
    obtain ⟨hne, m, hm, hlog, hbits⟩ := h.woken bits hwait
    exact ⟨m, hm, hlog, hbits, fun hnone => absurd hnone hne⟩

end Step

/-! ## Runs -/

section Runs

variable {main : Prog (wifi.sum E) α} {ls : List (Label E)} {s t : Station E α} {l : Label E}

/-- The task goes on with its calls only. -/
theorem Station.Step.main_run (hstep : Station.Step s l t) :
    Prog.Run s.main (mainLog [l]) t.main := by
  cases hstep with
  | call a hmain hwait =>
    obtain ⟨-, -, -, hanswer⟩ := s.answer_fields _ _
    rw [hmain, hanswer]
    exact .cons (.nil _)
  | pass hmain hwait hbits =>
    rw [hmain]
    exact .cons (.nil _)
  | giveUp hmain hwait =>
    rw [hmain]
    exact .cons (.nil _)
  | resume hmain hwait =>
    rw [hmain]
    exact .cons (.nil _)
  | dispatch event hidle hevent =>
    -- A handler does not touch the task.
    have hmain : (s.dispatch event).main = s.main := by
      cases event with
      | staStart | gotIp | other => rfl
      | staDisconnected =>
        rw [Station.dispatch]
        split <;> rfl
    rw [hmain]
    exact .nil _
  | block | expire | delayed | connect | setFailed | resetAttempts | setConnected => exact .nil _

/-- What holds along every run. -/
theorem station_invariants (h : Steps Station.Step (Station.start main) ls t) :
    Retries ls t ∧ Flags ls t ∧ Prog.Run main (mainLog ls) t.main := by
  refine h.invariant_trace (I := fun ls s => Retries ls s ∧ Flags ls s ∧
    Prog.Run main (mainLog ls) s.main) ?_ ⟨retries_start main, flags_start main, .nil main⟩
  rintro ls s l t ⟨hretries, hflags, hrun⟩ hstep
  refine ⟨hretries.step hstep, hflags.step hretries hstep, ?_⟩
  rw [mainLog_append]
  exact hrun.trans hstep.main_run

/-- The bits that the task has got, and the moment of its wait that they are of. -/
theorem exists_wait (h : Steps Station.Step (Station.start main) ls t) {bits : Bits}
    (hwait : ⟨.inl .xEventGroupWaitBits, bits⟩ ∈ mainLog ls) :
    ∃ before after m, ls = before ++ .call ⟨.inl .xEventGroupWaitBits, bits⟩ :: after ∧
      m <+: before ∧ mainLog m = mainLog before ∧ eventsAfter m = some bits ∧
      (bits = ⟨false, false⟩ → .expire ∈ m) ∧
      (bits.connected = true → addressSteps <+ m) ∧
      (bits.failed = true →
        ∃ first since rest, m = first ++ since ++ rest ∧ GivesUp since) := by
  obtain ⟨before, after, rfl⟩ := List.append_of_mem (mem_mainLog.mp hwait)
  obtain ⟨s, hbefore, hafter⟩ := h.split
  cases hafter with
  | cons hstep _ =>
    obtain ⟨-, hflags, -⟩ := station_invariants hbefore
    obtain ⟨m, ⟨rest, rfl⟩, hlog, hbits, hexpire⟩ := hflags.answered hstep
    -- At that moment the invariants have held, too.
    obtain ⟨u, hm, -⟩ := hbefore.split
    obtain ⟨-, hmoment, -⟩ := station_invariants hm
    have hevents := hmoment.events.trans hbits
    exact ⟨_, after, m, rfl, List.prefix_append _ _, hlog, hbits, hexpire,
      hmoment.connected _ hevents, hmoment.failed _ hevents⟩

/-- `BIT_CONNECTED` is set in an event group. -/
theorem exists_created_of_joins (h : Steps Station.Step (Station.start main) ls t)
    (hjoins : .setConnected ∈ ls) :
    ∃ before after, ls = before ++ .call ⟨.inl .xEventGroupCreate, true⟩ :: after ∧
      .setConnected ∈ after := by
  obtain ⟨first, rest, rfl⟩ := List.append_of_mem hjoins
  obtain ⟨s, hfirst, hrest⟩ := h.split
  cases hrest with
  | cons hstep _ =>
    cases hstep with
    | setConnected hhandler hevents =>
      obtain ⟨-, hflags, -⟩ := station_invariants hfirst
      obtain ⟨before, after, rfl, -⟩ := exists_created (hflags.events ▸ hevents)
      exact ⟨before, after ++ .setConnected :: rest, by simp, by simp⟩

/-- `wifi_sta_is_connected` looks at the event group that is there now. -/
theorem wifiStaIsConnected_iff (h : Steps Station.Step (Station.start main) ls t) :
    wifiStaIsConnected t = true ↔
      ∃ before after, ls = before ++ .call ⟨.inl .xEventGroupCreate, true⟩ :: after ∧
        (∀ l ∈ after, l.creates = false) ∧ .setConnected ∈ after := by
  obtain ⟨-, hflags, -⟩ := station_invariants h
  have hjoins (after : List (Label E)) :
      after.any Label.joins = true ↔ .setConnected ∈ after := by
    rw [List.any_eq_true]
    refine ⟨?_, fun h => ⟨_, h, rfl⟩⟩
    rintro ⟨l, hl, hjoins⟩
    cases l with
    | setConnected => exact hl
    | call | block | expire | dispatch | delayed | connect | setFailed | resetAttempts =>
      cases hjoins
  -- The bits are those set since the group was last created.
  rw [wifiStaIsConnected, hflags.events]
  constructor
  · intro hconnected
    cases hevents : eventsAfter ls with
    | none =>
      rw [hevents] at hconnected
      cases hconnected
    | some bits =>
      obtain ⟨before, after, rfl, hafter⟩ := exists_created hevents
      rw [eventsAfter_created before hafter] at hconnected
      exact ⟨before, after, rfl, hafter, (hjoins after).mp hconnected⟩
  · rintro ⟨before, after, rfl, hafter, hmem⟩
    rw [eventsAfter_created before hafter]
    exact (hjoins after).mpr hmem

/-- The event groups that the task has created. -/
theorem countP_creates (ls : List (Label E)) :
    ls.countP Label.creates = (mainLog ls).countP fun e => (Label.call e).creates := by
  rw [mainLog, List.countP_filterMap]
  refine List.countP_congr fun l _ => ?_
  cases l with
  | call e => exact Iff.rfl
  | block | expire | dispatch | delayed | connect | setFailed | resetAttempts | setConnected =>
    exact Iff.rfl

/-- `wifi_sta_start` creates one event group. -/
theorem created_once {ssid password : List UInt8} {flash : List (Event (wifi.sum E))} {bits : Bits}
    {before after : List (Label E)}
    (hlog : mainLog ls = flash ++ [⟨.inl .xEventGroupCreate, true⟩] ++ radioLog ssid password ++
      [⟨.inl .xEventGroupWaitBits, bits⟩])
    (hflash : FlashLog flash)
    (hls : ls = before ++ .call ⟨.inl .xEventGroupCreate, true⟩ :: after) :
    ∀ l ∈ before, l.creates = false := by
  have hcount : ls.countP Label.creates = 1 := by
    have hzero : flash.countP (fun e => (Label.call e).creates) = 0 := by
      rw [List.countP_eq_zero]
      intro e he
      obtain ⟨call, err, rfl⟩ := hflash e he
      exact Bool.false_ne_true
    rw [countP_creates, hlog, List.countP_append, List.countP_append, List.countP_append, hzero]
    rfl
  rw [hls, List.countP_append, List.countP_cons_of_pos rfl] at hcount
  intro l hl
  have hnone : before.countP Label.creates = 0 := by omega
  exact Bool.of_not_eq_true (List.countP_eq_zero.mp hnone l hl)

/-- As long as `wifi_sta_start` sees no address, there has been none: the event group is the
first. -/
theorem not_joins (h : Steps Station.Step (Station.start main) ls t) {ssid password : List UInt8}
    {flash : List (Event (wifi.sum E))} {bits bits' : Bits} {m rest : List (Label E)}
    (hlog : mainLog ls = flash ++ [⟨.inl .xEventGroupCreate, true⟩] ++ radioLog ssid password ++
      [⟨.inl .xEventGroupWaitBits, bits'⟩])
    (hflash : FlashLog flash) (hls : ls = m ++ rest) (hbits : eventsAfter m = some bits)
    (hc : bits.connected = false) : .setConnected ∉ m := by
  intro hmem
  obtain ⟨before, after, rfl, hafter⟩ := exists_created hbits
  rw [eventsAfter_created before hafter] at hbits
  obtain rfl := Option.some.inj hbits
  rw [List.append_assoc, List.cons_append] at hls
  have honce := created_once hlog hflash hls
  rcases List.mem_append.mp hmem with hmem | hmem
  · obtain ⟨_, hrun, -⟩ := (hls ▸ h).split
    obtain ⟨first, second, rfl, -⟩ := exists_created_of_joins hrun hmem
    have hfalse := honce _ (List.mem_append_right _ List.mem_cons_self)
    cases hfalse
  · rcases List.mem_cons.mp hmem with heq | hmem
    · cases heq
    · have htrue : after.any Label.joins = true := List.any_eq_true.mpr ⟨_, hmem, rfl⟩
      exact Bool.noConfusion (hc.symm.trans htrue)

/-- What `wifi_sta_start` returns, however the two tasks interleave and whatever events arrive:
`ESP_OK` only if `on_ip_event` was registered and an address has arrived and been recorded since;
`ESP_FAIL` only if until some moment of the wait there was none, and by then either the time was
over or the retries were used up; and otherwise `ESP_ERR_NO_MEM`, when there was no event group. -/
theorem wifiStaStart_verdict (ssid password : List UInt8) {ls : List (Label E)}
    {t : Station E EspErr} {err : EspErr}
    (hsteps : Steps Station.Step (Station.start (wifiStaStart ssid password)) ls t)
    (hret : t.main = .ret err) :
    (err = .ok ∧ addressSteps <+ ls) ∨
      (err = .fail ∧ ∃ before after bits m,
        ls = before ++ .call ⟨.inl .xEventGroupWaitBits, bits⟩ :: after ∧
        m <+: before ∧ mainLog m = mainLog before ∧ .setConnected ∉ m ∧ (.expire ∈ m ∨
          ∃ first since rest, m = first ++ since ++ rest ∧ GivesUp since)) ∨
      (err = .noMem ∧ .call ⟨.inl .xEventGroupCreate, false⟩ ∈ ls) := by
  obtain ⟨-, -, hrun⟩ := station_invariants hsteps
  rw [hret] at hrun
  obtain ⟨log, hlog, flash, hflash, houtcome⟩ := (spec_wifiStaStart (φ := fun _ _ => True) (h := [])
    ssid password fun _ _ => trivial).ret_of_run hrun
  rw [List.nil_append] at hlog
  rcases houtcome with ⟨rfl, rfl⟩ | ⟨bits, rfl, rfl⟩
  · -- There is no event group.
    refine .inr (.inr ⟨rfl, mem_mainLog.mp ?_⟩)
    rw [hlog]
    exact List.mem_append_right _ List.mem_cons_self
  · -- The wait has returned some bits, which were there at one moment of it.
    have hwait : ⟨.inl .xEventGroupWaitBits, bits⟩ ∈ mainLog ls := by
      rw [hlog]
      exact List.mem_append_right _ List.mem_cons_self
    obtain ⟨before, after, m, hls, ⟨rest, rfl⟩, hmain, hbits, hexpire, hconnected, hfailed⟩ :=
      exists_wait hsteps hwait
    cases hc : bits.connected with
    | true =>
      refine .inl ⟨rfl, (hconnected hc).trans ?_⟩
      rw [hls, List.append_assoc]
      exact List.sublist_append_left _ _
    | false =>
      refine .inr (.inl ⟨rfl, _, after, bits, m, hls, List.prefix_append _ _, hmain,
        fun hmem => ?_, ?_⟩)
      · exact not_joins hsteps hlog hflash (hls.trans (by rw [List.append_assoc])) hbits hc hmem
      · cases hf : bits.failed with
        | true => exact .inr (hfailed hf)
        | false => exact .inl (hexpire (by cases bits; cases hc; cases hf; rfl))

end Runs

/-! ### Two runs -/

/-- A task that does nothing else. -/
abbrev noCalls : Signature := ⟨Empty, fun _ => Empty⟩

/-- The calls of `wifi_sta_start` up to its wait. -/
def startupLog (ssid password : List UInt8) : List (Event (wifi.sum E)) :=
  [espOk .nvsFlashInit, ⟨.inl .xEventGroupCreate, true⟩] ++ radioLog ssid password

/-- A program that starts the station is in its wait, with both handlers registered and a new event
group. -/
theorem steps_startup (ssid password : List UInt8) (f : EspErr → Prog (wifi.sum E) α)
    {s : Station E α} (hmain : s.main = wifiStaStart ssid password >>= f) :
    Steps Station.Step s ((startupLog ssid password).map .call) { s with
      main := .op (.inl .xEventGroupWaitBits) fun bits => f (if bits.connected then .ok else .fail)
      onWifiEvent := true
      onIpEvent := true
      sEvents := some ⟨false, false⟩ } := by
  cases s
  subst hmain
  unfold startupLog radioLog
  iterate 10 refine .cons (.call _ rfl nofun) ?_
  exact .nil _

/-- A station that loses its first connection, and gets an address with the second one. -/
theorem wifiStaStart_verdict_reconnected :
    ∃ (ls : List (Label noCalls)) (t : Station noCalls EspErr),
      Steps Station.Step (Station.start (wifiStaStart [0x61] [0x62])) ls t ∧ t.main = .ret .ok ∧
      addressSteps <+ ls := by
  have hstartup := steps_startup (E := noCalls) [0x61] [0x62] .ret
    (s := .start (wifiStaStart [0x61] [0x62])) (Prog.bind_ret _).symm
  have hsteps := hstartup.append <| .cons (.dispatch .staStart rfl rfl) <| .cons (.connect rfl) <|
    .cons (.block rfl rfl rfl) <| .cons (.dispatch .staDisconnected rfl rfl) <|
    .cons (.delayed rfl) <| .cons (.connect rfl) <| .cons (.dispatch .gotIp rfl rfl) <|
    .cons (.resetAttempts rfl) <| .cons (.setConnected rfl rfl) <| .cons (.resume rfl rfl) <| .nil _
  refine ⟨_, _, hsteps, rfl, ?_⟩
  rcases wifiStaStart_verdict _ _ hsteps rfl with ⟨-, hsub⟩ | ⟨hfail, -⟩ | hfail
  · exact hsub
  · cases hfail
  · cases hfail.1

end Board

end PqcIot
