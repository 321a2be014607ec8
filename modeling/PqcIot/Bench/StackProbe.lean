import PqcIot.Effects.Transition

/-!
# Stack figures

`bench_stack_usage` and `stack_probe_task` of `bench.c` as a transition system: one task makes
calls, each of which creates a probe task, and all of them share `s_probe_op`, `s_probe_result` and
one notification. A probe task that outlives the call that has created it writes its figure into a
later one.

* `late_figure_returned` — a figure is returned for another operation;
* `figures_belong` — every figure belongs to its operation as long as no probe task writes one while
  a call for another operation is under way; this is so if no probe task is at work when a call
  begins (`onTime_of_settled`), and otherwise the wrong figure may be returned
  (`late_figure_reported`).
-/

namespace PqcIot

open Effects

namespace Bench

variable {Op : Type}

/-- `STACK_PROBE_BYTES`. -/
def stackProbeBytes : UInt32 := 64 * 1024

/-- `STACK_PROBE_MIN_HEADROOM`. -/
def stackProbeMinHeadroom : UInt32 := 2048

/-! ## The system -/

/-- Where `stack_probe_task` is. -/
inductive Probe (Op : Type) where
  | created
  /-- It has read `s_probe_op`, and called it. -/
  | running (op : Op)
  /-- It has taken its high-water mark. -/
  | measured (op : Op) (remaining : UInt32)
  /-- It has written `s_probe_result`. -/
  | written (op : Op) (remaining : UInt32)
  /-- It has notified the caller. -/
  | ended (op : Op) (remaining : UInt32)
  deriving DecidableEq, Repr

/-- Where `bench_stack_usage(op)` is. -/
inductive Caller (Op : Type) where
  /-- No call is under way. -/
  | idle
  /-- `s_probe_op` is set. -/
  | opSet (op : Op)
  /-- `s_probe_result` is reset. -/
  | resultReset (op : Op)
  /-- `s_probe_caller` is set. -/
  | callerSet (op : Op)
  /-- The probe task is created, and the caller is in `ulTaskNotifyTake`. -/
  | waiting (op : Op)
  /-- `ulTaskNotifyTake` has returned. -/
  | woken (op : Op)
  deriving DecidableEq, Repr

/-- The globals, the notification value of the caller, all tasks, and what the calls so far have
returned. `s_probe_caller` is always the one task that makes the calls. -/
structure State (Op : Type) where
  probeOp : Option Op
  probeResult : UInt32
  notified : ℕ
  caller : Caller Op
  probes : List (Probe Op)
  returned : List (Op × UInt32)

/-- Before the first call. -/
def State.start : State Op := ⟨none, 0, 0, .idle, [], []⟩

/-- What `stack_probe_task` writes. -/
def figure (remaining : UInt32) : UInt32 :=
  -- So close to the end of the stack, the true peak may have been clipped.
  if remaining < stackProbeMinHeadroom then 0 else stackProbeBytes - remaining

/-- Statements of the caller and of the probe tasks, by their number. -/
inductive Action (Op : Type) where
  | setOp (op : Op)
  | resetResult
  | setCaller
  | create
  | createFails
  | take
  | timeout
  | return
  | start (i : ℕ)
  | measure (i : ℕ) (remaining : UInt32)
  | write (i : ℕ)
  | notify (i : ℕ)

/-- One statement is executed. -/
inductive Step : State Op → Action Op → State Op → Prop
  | setOp {s : State Op} (op : Op) : s.caller = .idle →
      Step s (.setOp op) { s with probeOp := some op, caller := .opSet op }
  | resetResult {s : State Op} {op : Op} : s.caller = .opSet op →
      Step s .resetResult { s with probeResult := 0, caller := .resultReset op }
  | setCaller {s : State Op} {op : Op} : s.caller = .resultReset op →
      Step s .setCaller { s with caller := .callerSet op }
  | create {s : State Op} {op : Op} : s.caller = .callerSet op →
      Step s .create { s with caller := .waiting op, probes := s.probes ++ [.created] }
  -- Without a task there is no figure.
  | createFails {s : State Op} {op : Op} : s.caller = .callerSet op →
      Step s .createFails { s with caller := .idle, returned := s.returned ++ [(op, 0)] }
  /-- The notification value is cleared (`pdTRUE`). -/
  | take {s : State Op} {op : Op} : s.caller = .waiting op → 0 < s.notified →
      Step s .take { s with notified := 0, caller := .woken op }
  /-- The 20 s are over. -/
  | timeout {s : State Op} {op : Op} : s.caller = .waiting op → s.notified = 0 →
      Step s .timeout { s with caller := .woken op }
  | return {s : State Op} {op : Op} : s.caller = .woken op →
      Step s .return
        { s with caller := .idle, returned := s.returned ++ [(op, s.probeResult)] }
  -- The task reads `s_probe_op` when it begins, not when it is created.
  | start {s : State Op} {i : ℕ} {op : Op} : s.probes[i]? = some .created → s.probeOp = some op →
      Step s (.start i) { s with probes := s.probes.set i (.running op) }
  | measure {s : State Op} {i : ℕ} {op : Op} (remaining : UInt32) :
      s.probes[i]? = some (.running op) →
      Step s (.measure i remaining) { s with probes := s.probes.set i (.measured op remaining) }
  -- Whichever call is under way by then, if any.
  | write {s : State Op} {i : ℕ} {op : Op} {remaining : UInt32} :
      s.probes[i]? = some (.measured op remaining) →
      Step s (.write i) { s with
        probeResult := figure remaining
        probes := s.probes.set i (.written op remaining) }
  | notify {s : State Op} {i : ℕ} {op : Op} {remaining : UInt32} :
      s.probes[i]? = some (.written op remaining) →
      Step s (.notify i) { s with
        notified := s.notified + 1
        probes := s.probes.set i (.ended op remaining) }

/-! ## Figures and operations -/

/-- The operation that a probe task has run to its end, and its high-water mark. -/
def Probe.mark : Probe Op → Option (Op × UInt32)
  | .created | .running _ => none
  | .measured op remaining | .written op remaining | .ended op remaining => some (op, remaining)

/-- The operation that a probe task is at: it has begun, and its figure is not written. -/
def Probe.busy : Probe Op → Option Op
  | .running op | .measured op _ => some op
  | .created | .written _ _ | .ended _ _ => none

/-- The call under way, from the reset of `s_probe_result` on. -/
def Caller.current : Caller Op → Option Op
  | .idle | .opSet _ => none
  | .resultReset op | .callerSet op | .waiting op | .woken op => some op

/-- A figure is zero, or comes from the high-water mark of a task that has run the operation. -/
def Belongs (probes : List (Probe Op)) (op : Op) (value : UInt32) : Prop :=
  value = 0 ∨ ∃ probe ∈ probes, ∃ remaining, probe.mark = some (op, remaining) ∧
    value = stackProbeBytes - remaining

/-- Every call has returned a figure of its operation. -/
def Honest (s : State Op) : Prop := ∀ r ∈ s.returned, Belongs s.probes r.1 r.2

/-- No figure is written into a call for another operation. -/
def OnTime (s : State Op) (a : Action Op) : Prop :=
  ∀ i op remaining op', a = .write i → s.probes[i]? = some (.measured op remaining) →
    s.caller.current = some op' → op = op' ∨ figure remaining = 0

/-- Figures stay with their operation as the tasks go on. -/
theorem Belongs.set {probes : List (Probe Op)} {op : Op} {value : UInt32} {i : ℕ}
    {old new : Probe Op} (h : Belongs probes op value) (hold : probes[i]? = some old)
    (hmark : ∀ m, old.mark = some m → new.mark = some m) :
    Belongs (probes.set i new) op value := by
  rcases h with h | ⟨probe, hmem, remaining, hprobe, hvalue⟩
  · exact .inl h
  · obtain ⟨j, hj⟩ := List.mem_iff_getElem?.mp hmem
    by_cases hij : i = j
    · subst hij
      rw [hold] at hj
      cases hj
      have hlt : i < probes.length := (List.getElem?_eq_some_iff.mp hold).1
      exact .inr ⟨new, List.mem_set hlt _, remaining, hmark _ hprobe, hvalue⟩
    · have hmem' : probe ∈ probes.set i new :=
        List.mem_iff_getElem?.mpr ⟨j, by rw [List.getElem?_set_ne hij, hj]⟩
      exact .inr ⟨probe, hmem', remaining, hprobe, hvalue⟩

theorem Belongs.append {probes : List (Probe Op)} {op : Op} {value : UInt32}
    (h : Belongs probes op value) (more : List (Probe Op)) : Belongs (probes ++ more) op value :=
  h.imp_right fun ⟨probe, hmem, hprobe⟩ => ⟨probe, List.mem_append_left _ hmem, hprobe⟩

/-- A task that has run the operation leaves a figure of it. -/
theorem belongs_figure {probes : List (Probe Op)} {probe : Probe Op} {op : Op} {remaining : UInt32}
    (hmem : probe ∈ probes) (hmark : probe.mark = some (op, remaining)) :
    Belongs probes op (figure remaining) := by
  rw [figure]
  split
  · exact .inl rfl
  · exact .inr ⟨probe, hmem, remaining, hmark, rfl⟩

/-- All figures belong to their operations, the one that is yet to be returned among them. -/
structure Sound (s : State Op) : Prop where
  honest : Honest s
  current : ∀ op, s.caller.current = some op → Belongs s.probes op s.probeResult

theorem sound_start : Sound (State.start : State Op) := ⟨nofun, nofun⟩

/-- A probe task goes on, and writes nothing. -/
private theorem Sound.set {s : State Op} {i : ℕ} {old : Probe Op} (h : Sound s)
    (hold : s.probes[i]? = some old) (new : Probe Op) (notified : ℕ)
    (hmark : ∀ m, old.mark = some m → new.mark = some m) :
    Sound { s with notified, probes := s.probes.set i new } :=
  ⟨fun r hr => (h.honest r hr).set hold hmark, fun op hop => (h.current op hop).set hold hmark⟩

/-- What one statement preserves. -/
theorem Sound.step {s t : State Op} {a : Action Op} (h : Sound s) (hstep : Step s a t)
    (htime : OnTime s a) : Sound t := by
  cases hstep with
  | setOp op hcaller => exact ⟨h.honest, nofun⟩
  | resetResult hcaller => exact ⟨h.honest, fun _ _ => .inl rfl⟩
  | setCaller hcaller =>
    refine ⟨h.honest, fun op hop => h.current op ?_⟩
    rw [hcaller]
    exact hop
  | create hcaller =>
    refine ⟨fun r hr => (h.honest r hr).append _, fun op hop => (h.current op ?_).append _⟩
    rw [hcaller]
    exact hop
  | createFails hcaller =>
    refine ⟨fun r hr => ?_, nofun⟩
    rcases List.mem_append.mp hr with hr | hr
    · exact h.honest r hr
    · obtain rfl := List.mem_singleton.mp hr
      exact .inl rfl
  | take hcaller hnotified =>
    refine ⟨h.honest, fun op hop => h.current op ?_⟩
    rw [hcaller]
    exact hop
  | timeout hcaller hnotified =>
    refine ⟨h.honest, fun op hop => h.current op ?_⟩
    rw [hcaller]
    exact hop
  | @«return» op hcaller =>
    refine ⟨fun r hr => ?_, nofun⟩
    rcases List.mem_append.mp hr with hr | hr
    · exact h.honest r hr
    · obtain rfl := List.mem_singleton.mp hr
      exact h.current op (by rw [hcaller]; rfl)
  | start hprobe hop => exact h.set hprobe _ _ nofun
  | measure remaining hprobe => exact h.set hprobe _ _ nofun
  | @write i op remaining hprobe =>
    have hset := h.set hprobe (.written op remaining) s.notified fun _ hm => hm
    refine ⟨hset.honest, fun op' hop' => ?_⟩
    -- The figure is of the operation of the call, or it is zero.
    have hlt : i < s.probes.length := (List.getElem?_eq_some_iff.mp hprobe).1
    rcases htime i op remaining op' rfl hprobe hop' with rfl | hzero
    · exact belongs_figure (List.mem_set hlt _) rfl
    · exact .inl hzero
  | notify hprobe => exact h.set hprobe _ _ fun _ hm => hm

/-- Figures belong to their operations in every run in which none is written into a call for another
operation. -/
theorem figures_belong {s : State Op} {as : List (Action Op)}
    (hsteps : Steps (fun s a t => Step s a t ∧ OnTime s a) .start as s) : Honest s :=
  (hsteps.invariant (fun _ _ _ h hstep => h.step hstep.1 hstep.2) sound_start).honest

/-- A run of two calls, the first of which has waited for 20 s in vain. -/
theorem late_figure_returned :
    ∃ (as : List (Action Bool)) (s : State Bool), Steps Step .start as s ∧
      s.returned = [(false, 0), (true, stackProbeBytes - 10000)] ∧ ¬ Honest s := by
  -- The probe task of the first call is still at its operation when the second call begins.
  have hfirst : Steps Step State.start
      [.setOp false, .resetResult, .setCaller, .create, .start 0, .timeout, .return]
      ⟨some false, 0, 0, .idle, [.running false], [(false, 0)]⟩ :=
    .cons (.setOp false rfl) <| .cons (.resetResult rfl) <| .cons (.setCaller rfl) <|
      .cons (.create rfl) <| .cons (.start rfl rfl) <| .cons (.timeout rfl rfl) <|
      .cons (.return rfl) <| .nil _
  have hsecond : Steps Step
      (⟨some false, 0, 0, .idle, [.running false], [(false, 0)]⟩ : State Bool)
      [.setOp true, .resetResult, .setCaller, .create, .measure 0 10000, .write 0, .notify 0, .take,
        .return]
      ⟨some true, stackProbeBytes - 10000, 0, .idle, [.ended false 10000, .created],
        [(false, 0), (true, stackProbeBytes - 10000)]⟩ :=
    .cons (.setOp true rfl) <| .cons (.resetResult rfl) <| .cons (.setCaller rfl) <|
      .cons (.create rfl) <| .cons (.measure 10000 rfl) <| .cons (.write rfl) <|
      .cons (.notify rfl) <| .cons (.take rfl (by decide)) <| .cons (.return rfl) <| .nil _
  refine ⟨_, _, hfirst.append hsecond, rfl, fun hhonest => ?_⟩
  rcases hhonest _ (.tail _ (.head _)) with hzero | ⟨probe, hmem, remaining, hmark, -⟩
  · exact absurd hzero (by decide)
  · simp only [List.mem_cons, List.not_mem_nil, or_false] at hmem
    rcases hmem with rfl | rfl
    · cases hmark
    · cases hmark

/-! ## Late figures -/

/-- A call that is under way can return what is in `s_probe_result`. -/
theorem exists_return {s : State Op} {op : Op} (h : s.caller.current = some op) :
    ∃ as t, Steps Step s as t ∧ t.returned = s.returned ++ [(op, s.probeResult)] := by
  obtain ⟨probeOp, result, notified, caller, probes, returned⟩ := s
  have hwoken : ∀ notified probes, ∃ as t,
      Steps Step ⟨probeOp, result, notified, .woken op, probes, returned⟩ as t ∧
        t.returned = returned ++ [(op, result)] := fun _ _ =>
    ⟨_, _, .single (.return rfl), rfl⟩
  -- A call that waits takes the notification, or times out.
  have hwaiting : ∀ probes, ∃ as t,
      Steps Step ⟨probeOp, result, notified, .waiting op, probes, returned⟩ as t ∧
        t.returned = returned ++ [(op, result)] := by
    intro probes
    rcases Nat.eq_zero_or_pos notified with hzero | hpos
    · obtain ⟨as, t, hsteps, ht⟩ := hwoken notified probes
      exact ⟨_, t, .cons (.timeout rfl hzero) hsteps, ht⟩
    · obtain ⟨as, t, hsteps, ht⟩ := hwoken 0 probes
      exact ⟨_, t, .cons (.take rfl hpos) hsteps, ht⟩
  cases caller with
  | idle => cases h
  | opSet _ => cases h
  | resultReset _ =>
    cases h
    obtain ⟨as, t, hsteps, ht⟩ := hwaiting (probes ++ [.created])
    exact ⟨_, t, .cons (.setCaller rfl) (.cons (.create rfl) hsteps), ht⟩
  | callerSet _ =>
    cases h
    obtain ⟨as, t, hsteps, ht⟩ := hwaiting (probes ++ [.created])
    exact ⟨_, t, .cons (.create rfl) hsteps, ht⟩
  | waiting _ =>
    cases h
    exact hwaiting probes
  | woken _ =>
    cases h
    exact hwoken notified probes

/-- A figure that is written into a call for another operation can be returned by it. -/
theorem late_figure_reported {s t : State Op} {i : ℕ} {op op' : Op} {remaining : UInt32}
    (hprobe : s.probes[i]? = some (.measured op remaining)) (hcall : s.caller.current = some op')
    (hstep : Step s (.write i) t) :
    ∃ as u, Steps Step t as u ∧ u.returned = s.returned ++ [(op', figure remaining)] := by
  cases hstep with
  | write hprobe' =>
    rw [hprobe] at hprobe'
    cases hprobe'
    exact exists_return hcall

/-- No call begins while a probe task is at another operation. -/
def Settled (s : State Op) (a : Action Op) : Prop :=
  ∀ op, a = .setOp op → ∀ probe ∈ s.probes, ∀ op', probe.busy = some op' → op' = op

/-- The call under way, from its first statement on. -/
def Caller.call : Caller Op → Option Op
  | .idle => none
  | .opSet op | .resultReset op | .callerSet op | .waiting op | .woken op => some op

theorem Caller.call_of_current {caller : Caller Op} {op : Op} (h : caller.current = some op) :
    caller.call = some op := by
  cases caller with
  | idle => cases h
  | opSet _ => cases h
  | resultReset _ => exact h
  | callerSet _ => exact h
  | waiting _ => exact h
  | woken _ => exact h

/-- During a call, probe tasks are at its operation only. -/
def InCall (s : State Op) : Prop :=
  ∀ op, s.caller.call = some op →
    s.probeOp = some op ∧ ∀ probe ∈ s.probes, ∀ op', probe.busy = some op' → op' = op

/-- A probe task goes on: it begins with the operation of the call, stays with its own, or is
done. -/
private theorem InCall.set {s : State Op} {i : ℕ} {old : Probe Op} (h : InCall s)
    (hold : s.probes[i]? = some old) (new : Probe Op) (result : UInt32) (notified : ℕ)
    (hbusy : new.busy = s.probeOp ∨ new.busy = old.busy ∨ new.busy = none) :
    InCall { s with probeResult := result, notified, probes := s.probes.set i new } := by
  intro op hop
  obtain ⟨hprobeOp, hall⟩ := h op hop
  refine ⟨hprobeOp, fun probe hmem op' hop' => ?_⟩
  rcases List.mem_or_eq_of_mem_set hmem with hmem | rfl
  · exact hall probe hmem op' hop'
  · rcases hbusy with hnew | hnew | hnew
    · rw [hnew, hprobeOp] at hop'
      exact (Option.some.inj hop').symm
    · exact hall old (List.mem_of_getElem? hold) op' (hnew ▸ hop')
    · rw [hnew] at hop'
      cases hop'

/-- The caller goes on with its call. -/
private theorem InCall.goOn {s : State Op} {op : Op} (h : InCall s)
    (hcall : s.caller.call = some op)
    (caller : Caller Op) (hcaller : caller.call = some op) (result : UInt32) (notified : ℕ) :
    InCall { s with caller, probeResult := result, notified } := by
  intro op' hop'
  obtain rfl := Option.some.inj (hcaller.symm.trans hop')
  exact h op hcall

private theorem InCall.step {s t : State Op} {a : Action Op} (h : InCall s) (hstep : Step s a t)
    (hsettled : Settled s a) : InCall t := by
  cases hstep with
  | setOp op hcaller =>
    rintro _ ⟨⟩
    exact ⟨rfl, hsettled op rfl⟩
  | resetResult hcaller => exact h.goOn (by rw [hcaller]; rfl) _ rfl _ _
  | setCaller hcaller => exact h.goOn (by rw [hcaller]; rfl) _ rfl _ _
  | @create op hcaller =>
    intro op' hop'
    obtain ⟨hprobeOp, hall⟩ := h.goOn (by rw [hcaller]; rfl) (.waiting op) rfl s.probeResult
      s.notified op' hop'
    refine ⟨hprobeOp, fun probe hmem => ?_⟩
    rcases List.mem_append.mp hmem with hmem | hmem
    · exact hall probe hmem
    · -- The new task has not begun.
      obtain rfl := List.mem_singleton.mp hmem
      exact nofun
  | createFails hcaller => exact nofun
  | take hcaller hnotified => exact h.goOn (by rw [hcaller]; rfl) _ rfl _ _
  | timeout hcaller hnotified => exact h.goOn (by rw [hcaller]; rfl) _ rfl _ _
  | «return» hcaller => exact nofun
  | start hprobe hop => exact h.set hprobe _ _ _ (.inl hop.symm)
  | measure remaining hprobe => exact h.set hprobe _ _ _ (.inr (.inl rfl))
  | write hprobe => exact h.set hprobe _ _ _ (.inr (.inr rfl))
  | notify hprobe => exact h.set hprobe _ _ _ (.inr (.inr rfl))

/-- If no call begins while a probe task is at another operation, then no figure is written into a
call for another one. -/
theorem onTime_of_settled {s : State Op} {as : List (Action Op)}
    (hsteps : Steps (fun s a t => Step s a t ∧ Settled s a) .start as s) :
    Steps (fun s a t => Step s a t ∧ OnTime s a) .start as s := by
  refine hsteps.mono_invariant (I := InCall) (fun _ _ _ h hstep => h.step hstep.1 hstep.2) ?_ nofun
  rintro s a t hin ⟨hstep, -⟩
  refine ⟨hstep, fun i op remaining op' _ hprobe hcall => .inl ?_⟩
  exact (hin op' (Caller.call_of_current hcall)).2 _ (List.mem_of_getElem? hprobe) op rfl

/-- A call whose probe task finishes in time returns its figure. -/
theorem figures_belong_in_time : ∃ (as : List (Action Bool)) (s : State Bool),
    Steps Step .start as s ∧ s.returned = [(true, stackProbeBytes - 10000)] ∧ Honest s := by
  have hsteps : Steps (fun s a t => Step s a t ∧ Settled s a) State.start
      [.setOp true, .resetResult, .setCaller, .create, .start 0, .measure 0 10000, .write 0,
        .notify 0, .take, .return]
      ⟨some true, stackProbeBytes - 10000, 0, .idle, [.ended true 10000],
        [(true, stackProbeBytes - 10000)]⟩ :=
    .cons ⟨.setOp true rfl, fun _ _ _ hmem => nomatch hmem⟩ <| .cons ⟨.resetResult rfl, nofun⟩ <|
      .cons ⟨.setCaller rfl, nofun⟩ <| .cons ⟨.create rfl, nofun⟩ <|
      .cons ⟨.start rfl rfl, nofun⟩ <| .cons ⟨.measure 10000 rfl, nofun⟩ <|
      .cons ⟨.write rfl, nofun⟩ <| .cons ⟨.notify rfl, nofun⟩ <|
      .cons ⟨.take rfl (by decide), nofun⟩ <| .cons ⟨.return rfl, nofun⟩ <| .nil _
  exact ⟨_, _, hsteps.mono fun _ _ _ h => h.1, rfl, figures_belong (onTime_of_settled hsteps)⟩

end Bench

end PqcIot
