import DisastrOS.Abstract.Families

/-!
# Leaving and being awaited

What one transition does to the processes that have left, to those that have not, and to those that
are blocked in `wait`: zombies come from `exit` and keep their exit value, and a blocked `wait`
ends only in an `exit` that wakes the parent.
-/

set_option autoImplicit false

namespace DisastrOS

namespace Model

variable {clean : Addr → Prop} {a a' : Model} {r w x z : Addr} {c : Syscall} {act : Action}

/-! ## Zombies -/

/-- The process `z` is a zombie in `a` already, and `a'` has its pid and its exit value. -/
def KeepsZombie (a a' : Model) (z : Addr) : Prop :=
  z ∈ a.procs .zombie ∧ a'.pid z = a.pid z ∧ a'.returnValue z = a.returnValue z

theorem CreateStep.keepsZombie (h : CreateStep a r a') (hP : a.ProcInv)
    (hz : z ∈ a'.procs .zombie) : KeepsZombie a a' z := by
  cases h with
  | @created x e xs es hfree _ =>
      have hz' : z ∈ a.procs .zombie := hz
      have hne : z ≠ x := by
        rintro rfl
        exact hP.free_fresh (by rw [hfree]; exact List.mem_cons_self) (Used.of_mem hz')
      exact ⟨hz', Function.update_of_ne hne .., Function.update_of_ne hne ..⟩

/-- `wait` makes no zombies, and those that it leaves keep their exit values. -/
theorem WaitStep.keepsZombie (h : WaitStep a r a') (hz : z ∈ a'.procs .zombie) :
    KeepsZombie a a' z := by
  rcases h.families with hsame | ⟨e, -, -, rfl⟩
  · have hzombies := hsame.zombies
    obtain ⟨_, _, _, _, _, _, _, _, rfl⟩ := h.eq
    exact ⟨hzombies ▸ hz, rfl, rfl⟩
  · rw [reap_eq] at hz ⊢
    exact ⟨List.mem_of_mem_erase hz, rfl, rfl⟩

/-- A zombie after an `exit` was one before, or it is the caller with the value passed. -/
theorem ExitStep.zombie_cases (h : ExitStep a r a') (hP : a.ProcInv) (hr : a.running = some r)
    (hz : z ∈ a'.procs .zombie) :
    KeepsZombie a a' z ∨ z = r ∧ a'.pid r = a.pid r ∧
      a'.returnValue r = wrapInt (a.syscallArgs r 0) := by
  have hrz : r ∉ a.procs .zombie := (hP.running_fresh hr).1 .zombie
  cases h with
  | @wakeParent init parent e _ _ _ _ _ =>
      obtain ⟨_, _, _, _, heq⟩ := exit_handOver_eq init parent e hrz
      rw [heq] at hz ⊢
      have hz' : z ∈ a.procs .zombie := hz
      have hne : z ≠ r := fun heq => hrz (heq ▸ hz')
      exact Or.inl ⟨hz', rfl, Function.update_of_ne hne ..⟩
  | @retire init parent next rest _ _ _ _ _ =>
      rcases List.mem_append.1 (show z ∈ a.procs .zombie ++ [r] from hz) with hz' | hz'
      · have hne : z ≠ r := fun heq => hrz (heq ▸ hz')
        exact Or.inl ⟨hz', rfl, Function.update_of_ne hne ..⟩
      · exact Or.inr ⟨List.mem_singleton.1 hz', rfl, Function.update_self ..⟩

/-- A zombie was a zombie before, or it has just left with the exit value it passed. -/
theorem HandlerStep.zombie_cases (h : HandlerStep clean a r c a') (hP : a.ProcInv)
    (hr : a.running = some r) (hz : z ∈ a'.procs .zombie) :
    KeepsZombie a a' z ∨
      (∃ v, c = .exit v) ∧ z = r ∧ a'.pid r = a.pid r ∧
        a'.returnValue r = wrapInt (a.syscallArgs r 0) := by
  have hrz : r ∉ a.procs .zombie := (hP.running_fresh hr).1 .zombie
  cases hp : c.onProcesses with
  | false =>
      have hsame := h.sameProcesses hp
      rw [hsame.procs] at hz
      refine Or.inl ⟨hz, by rw [hsame.pid], hsame.returnValue z ?_⟩
      exact fun heq => hrz (heq ▸ hz)
  | true =>
      cases h with
      | preempt h =>
          have hzombies := h.sameFamilies.zombies
          obtain ⟨_, _, _, _, _, _, rfl⟩ := h.eq
          exact Or.inl ⟨hzombies ▸ hz, rfl, rfl⟩
      | fork h => exact Or.inl (h.keepsZombie hP hz)
      | spawn h => exact Or.inl (h.keepsZombie hP hz)
      | wait h => exact Or.inl (h.keepsZombie hz)
      | @exit value _ h => exact (h.zombie_cases hP hr hz).imp id fun hnew => ⟨⟨value, rfl⟩, hnew⟩
      | sleep h =>
          have hzombies := h.sameFamilies.zombies
          obtain ⟨_, _, _, _, _, _, _, _, rfl⟩ := h.eq
          exact Or.inl ⟨hzombies ▸ hz, rfl, rfl⟩
      | shutdown => exact Or.inl ⟨hz, rfl, rfl⟩
      | _ => cases hp

/-! ## Processes that have not left -/

/-- Who is alive after a creation was so before, or has the next pid. -/
theorem CreateStep.alive_cases (h : CreateStep a r a') (hP : a.ProcInv) (hP' : a'.ProcInv)
    (hx : a'.Alive x) : (a.Alive x ∧ a'.pid x = a.pid x) ∨ a'.pid x = a.lastPid := by
  cases h with
  | @created y e xs es hfree _ =>
      rw [hP'.alive_iff, used_create hP hP' hfree] at hx
      obtain ⟨hused | rfl, hz⟩ := hx
      · have hne : x ≠ y := by
          rintro rfl
          exact hP.free_fresh (by rw [hfree]; exact List.mem_cons_self) hused
        exact Or.inl ⟨hP.alive_iff.2 ⟨hused, hz⟩, Function.update_of_ne hne ..⟩
      · exact Or.inr (Function.update_self ..)

/-- Who is alive after a `wait` was so before, with the same pid. -/
theorem WaitStep.alive_of (h : WaitStep a r a') (hP : a.ProcInv) (hP' : a'.ProcInv)
    (hF : a.FamInv) (hx : a'.Alive x) : a.Alive x ∧ a'.pid x = a.pid x := by
  rcases h.families with hsame | ⟨e, he, _, rfl⟩
  · exact ⟨(hsame.alive_iff hP hP').1 hx, by rw [hsame.pid]⟩
  · rw [hP'.alive_iff, used_reap hP hP' (hF.entry r e (mem_of_awaited he)).1, reap_eq] at hx
    obtain ⟨⟨hused, hne⟩, hz⟩ := hx
    refine ⟨hP.alive_iff.2 ⟨hused, fun hmem => hz ?_⟩, by rw [reap_eq]⟩
    exact (List.mem_erase_of_ne hne).2 hmem

/-- Who is alive after an `exit` was so before and is not the caller. -/
theorem ExitStep.alive_of (h : ExitStep a r a') (hP : a.ProcInv) (hP' : a'.ProcInv)
    (hr : a.running = some r) (hx : a'.Alive x) : a.Alive x ∧ a'.pid x = a.pid x ∧ x ≠ r := by
  cases h with
  | @wakeParent init parent e _ _ _ _ _ =>
      obtain ⟨_, _, _, _, heq⟩ := exit_handOver_eq init parent e ((hP.running_fresh hr).1 .zombie)
      rw [hP'.alive_iff, used_handOver hP hr hP', heq] at hx
      obtain ⟨⟨hused, hne⟩, hz⟩ := hx
      refine ⟨hP.alive_iff.2 ⟨hused, hz⟩, ?_, hne⟩
      rw [heq]
      rfl
  | @retire init parent next rest _ _ _ _ _ =>
      rw [hP'.alive_iff, hP'.used_iff] at hx
      obtain ⟨hused, hz⟩ := hx
      replace hz : x ∉ a.procs .zombie ++ [r] := hz
      rw [List.mem_append, not_or, List.mem_singleton] at hz
      exact ⟨hP.alive_iff.2 ⟨hP.used_iff.2 hused, hz.1⟩, rfl, hz.2⟩

/-- A process that is alive was alive before and has not just left, or it has just been created. -/
theorem HandlerStep.alive_cases (h : HandlerStep clean a r c a') (hP : a.ProcInv)
    (hP' : a'.ProcInv) (hr : a.running = some r) (hF : a.FamInv) (hx : a'.Alive x) :
    (a.Alive x ∧ a'.pid x = a.pid x ∧ ((∃ v, c = .exit v) → x ≠ r)) ∨
      ((Action.syscall c).creates ∧ a'.pid x = a.lastPid) := by
  have hsame : SameFamilies a a' → (∀ v, c ≠ .exit v) →
      a.Alive x ∧ a'.pid x = a.pid x ∧ ((∃ v, c = .exit v) → x ≠ r) := fun hsame hc =>
    ⟨(hsame.alive_iff hP hP').1 hx, by rw [hsame.pid], fun ⟨v, hv⟩ => absurd hv (hc v)⟩
  cases hp : c.onProcesses with
  | false =>
      refine Or.inl (hsame (h.sameProcesses hp).sameFamilies fun v hv => ?_)
      rw [hv] at hp
      cases hp
  | true =>
      cases h with
      | preempt h => exact Or.inl (hsame h.sameFamilies fun _ => nofun)
      | fork h =>
          -- only a creation adds a process, and it takes the next pid
          rcases h.alive_cases hP hP' hx with ⟨h1, h2⟩ | h2
          · exact Or.inl ⟨h1, h2, fun ⟨_, hv⟩ => nomatch hv⟩
          · exact Or.inr ⟨rfl, h2⟩
      | spawn h =>
          rcases h.alive_cases hP hP' hx with ⟨h1, h2⟩ | h2
          · exact Or.inl ⟨h1, h2, fun ⟨_, hv⟩ => nomatch hv⟩
          · exact Or.inr ⟨rfl, h2⟩
      | wait h =>
          obtain ⟨h1, h2⟩ := h.alive_of hP hP' hF hx
          exact Or.inl ⟨h1, h2, fun ⟨_, hv⟩ => nomatch hv⟩
      | exit h =>
          obtain ⟨h1, h2, h3⟩ := h.alive_of hP hP' hr hx
          exact Or.inl ⟨h1, h2, fun _ => h3⟩
      | sleep h => exact Or.inl (hsame h.sameFamilies fun _ => nofun)
      | shutdown =>
          refine Or.inl (hsame ⟨rfl, rfl, rfl, rfl, rfl, rfl, rfl, fun _ _ => rfl⟩ fun _ => nofun)
      | _ => cases hp

/-! ## Blocked processes -/

/-- The process `w` is blocked in `wait`. -/
def Blocked (a : Model) (w : Addr) : Prop :=
  w ∈ a.procs .waiting ∧ a.syscallNum w = dsosCallWait

/-- No handler changes the stored syscalls. -/
theorem HandlerStep.syscall_eq (h : HandlerStep clean a r c a') :
    a'.syscallNum = a.syscallNum ∧ a'.syscallArgs = a.syscallArgs := by
  cases hp : c.onProcesses with
  | false => exact ⟨(h.sameProcesses hp).syscallNum, (h.sameProcesses hp).syscallArgs⟩
  | true =>
      cases h with
      | preempt h =>
          obtain ⟨_, _, _, _, _, _, rfl⟩ := h.eq
          exact ⟨rfl, rfl⟩
      | fork h => cases h with | created _ _ => exact ⟨rfl, rfl⟩
      | spawn h => cases h with | created _ _ => exact ⟨rfl, rfl⟩
      | wait h =>
          obtain ⟨_, _, _, _, _, _, _, _, rfl⟩ := h.eq
          exact ⟨rfl, rfl⟩
      | exit h =>
          obtain ⟨_, _, _, _, _, _, _, _, _, _, _, _, _, rfl⟩ := h.eq
          exact ⟨rfl, rfl⟩
      | sleep h =>
          obtain ⟨_, _, _, _, _, _, _, _, rfl⟩ := h.eq
          exact ⟨rfl, rfl⟩
      | shutdown => exact ⟨rfl, rfl⟩
      | _ => cases hp

theorem Wakes.waiting_subset {woken : List Addr} (h : Wakes woken a a') :
    a'.procs .waiting ⊆ a.procs .waiting := by
  induction h with
  | stop _ => exact List.Subset.refl _
  | wake _ _ _ _ ih => exact fun x hx => List.mem_of_mem_erase (ih hx)

theorem ScheduleStep.waiting_subset (h : ScheduleStep a a') :
    a'.procs .waiting ⊆ a.procs .waiting := by
  cases h with
  | idle hw _ => exact hw.waiting_subset
  | switch hw _ _ => exact hw.waiting_subset

/-- A process blocks in `wait` or `sleep` only. -/
theorem HandlerStep.waiting_cases (h : HandlerStep clean a r c a') (hw : w ∈ a'.procs .waiting) :
    w ∈ a.procs .waiting ∨
      w = r ∧ ((∃ p result, c = .wait p result) ∨ ∃ n, c = .sleep n) := by
  have happend : w ∈ a.procs .waiting ++ [r] → w ∈ a.procs .waiting ∨ w = r := fun hmem =>
    (List.mem_append.1 hmem).imp id List.mem_singleton.1
  cases hp : c.onProcesses with
  | false => exact Or.inl ((h.sameProcesses hp).procs ▸ hw)
  | true =>
      cases h with
      | preempt h => exact Or.inl (h.waiting_subset hw)
      | fork h => cases h with | created _ _ => exact Or.inl hw
      | spawn h => cases h with | created _ _ => exact Or.inl hw
      | @wait p result _ h =>
          cases h with
          | noChildren _ => exact Or.inl hw
          | reap _ _ => exact Or.inl hw
          | block _ _ _ => exact (happend hw).imp id fun heq => ⟨heq, Or.inl ⟨p, result, rfl⟩⟩
      | exit h =>
          cases h with
          | @wakeParent init parent e _ _ _ _ _ =>
              obtain ⟨_, _, _, _, heq⟩ := handOver_eq (a.leave r init parent) r parent e
              rw [heq] at hw
              exact Or.inl (List.mem_of_mem_erase (show w ∈ (a.procs .waiting).erase parent from hw))
          | retire _ _ _ _ _ => exact Or.inl hw
      | @sleep n _ h =>
          cases h with
          | refused _ => exact Or.inl hw
          | switch _ _ _ _ _ => exact (happend hw).imp id fun heq => ⟨heq, Or.inr ⟨n, rfl⟩⟩
          | idle _ _ _ _ _ => exact (happend hw).imp id fun heq => ⟨heq, Or.inr ⟨n, rfl⟩⟩
      | shutdown => exact Or.inl hw
      | _ => cases hp

/-- Processes that timers have woken were sleeping. -/
theorem Wakes.ready_cases {woken : List Addr} (h : Wakes woken a a') (hP : a.ProcInv)
    (hT : a.TimerInv) (hx : x ∈ a'.procs .ready) :
    x ∈ a.procs .ready ∨ (x ∈ a.procs .waiting ∧ a.syscallNum x = dsosCallSleep) := by
  induction h with
  | stop _ => exact Or.inl hx
  | @wake woken a a' t ts rest ht _ hready _ ih =>
      have hmem : t ∈ a.timerList := by rw [ht]; exact List.mem_cons_self
      obtain ⟨hwait, hsleep⟩ := hT.sleeping t hmem
      rcases ih (hP.wake hwait hready) (hT.wake hP ht) hx with hx | ⟨hx, hnum⟩
      · have hx' : x ∈ woken ++ a.timerPcb t :: rest := hx
        rw [List.mem_append, List.mem_cons] at hx'
        rcases hx' with hx' | rfl | hx'
        · exact Or.inl (by rw [hready]; exact List.mem_append_left _ hx')
        · exact Or.inr ⟨hwait, hsleep⟩
        · exact Or.inl (by rw [hready]; exact List.mem_append_right _ hx')
      · exact Or.inr ⟨List.mem_of_mem_erase (show x ∈ (a.procs .waiting).erase _ from hx), hnum⟩

/-- The scheduler does not resume processes that are blocked in `wait`. -/
theorem ScheduleStep.not_resumed (h : ScheduleStep a a') (hP : a.ProcInv) (hT : a.TimerInv)
    (hw : a.Blocked w) : a'.running ≠ some w := by
  obtain ⟨hwait, hnum⟩ := hw
  have hrun : a.running ≠ some w := fun heq => (hP.running_fresh heq).1 .waiting hwait
  cases h with
  | idle hwakes _ =>
      obtain ⟨_, _, _, _, _, rfl⟩ := hwakes.eq
      exact hrun
  | @switch a₁ r next rest hwakes hr hready =>
      rintro ⟨⟩
      rcases hwakes.ready_cases hP hT (by rw [hready]; exact List.mem_cons_self) with hx | ⟨-, hx⟩
      · have := (hP.waiting w).2 hwait
        rw [hP.ready w hx] at this
        cases this
      · rw [hnum] at hx
        exact absurd hx (by decide)

/-- A process that is blocked in `wait` is resumed by an `exit` that wakes it, and not otherwise. -/
theorem HandlerStep.resumed (h : HandlerStep clean a r c a') (hP : a.ProcInv) (hT : a.TimerInv)
    (hw : a.Blocked w) (hw' : a'.running = some w) :
    ∃ init e v, c = .exit v ∧ a.initPcb = some init ∧ r ≠ init ∧ a.parent r = some w ∧
      a.awaits w (a.pid r) ∧
      ((a.leave r init w).children w).find? (fun e => a.pid (a.ptrPcb e) = a.pid r) = some e ∧
      a' = (a.leave r init w).handOver r w e := by
  obtain ⟨hwait, hnum⟩ := hw
  have hne : a.running ≠ some w := fun heq => (hP.running_fresh heq).1 .waiting hwait
  have hready : w ∉ a.procs .ready := fun hmem => by
    have := (hP.waiting w).2 hwait
    rw [hP.ready w hmem] at this
    cases this
  -- a process that is switched to comes from the ready list, and `w` is not on it
  have hhead : ∀ {next : Addr} {rest : List Addr}, a.procs .ready = next :: rest → next ≠ w :=
    fun heq hnext => hready (by rw [heq, hnext]; exact List.mem_cons_self)
  cases hp : c.onProcesses with
  | false => exact absurd ((h.sameProcesses hp).running ▸ hw') hne
  | true =>
      cases h with
      | preempt h => exact absurd hw' (h.not_resumed hP hT ⟨hwait, hnum⟩)
      | fork h => cases h with | created _ _ => exact absurd hw' hne
      | spawn h => cases h with | created _ _ => exact absurd hw' hne
      | wait h =>
          cases h with
          | noChildren _ => exact absurd hw' hne
          | reap _ _ =>
              rw [reap_eq] at hw'
              exact absurd hw' hne
          | block _ _ hnext => exact absurd (Option.some.inj hw') (hhead hnext)
      | @exit v _ h =>
          cases h with
          | @wakeParent init parent e hinit hri hparent hawaits hfind =>
              obtain ⟨_, _, _, _, heq⟩ := handOver_eq (a.leave r init parent) r parent e
              rw [heq] at hw'
              obtain rfl : parent = w := Option.some.inj hw'
              exact ⟨init, e, v, rfl, hinit, hri, hparent, hawaits, hfind, rfl⟩
          | retire _ _ _ _ hnext => exact absurd (Option.some.inj hw') (hhead hnext)
      | sleep h =>
          cases h with
          | refused _ => exact absurd hw' hne
          | switch _ _ _ _ hnext => exact absurd (Option.some.inj hw') (hhead hnext)
          | idle _ _ _ _ _ => cases hw'
      | shutdown => exact absurd hw' hne
      | _ => cases hp

/-! ## The system -/

/-- A process becomes a zombie by calling `exit`, and its exit value is what it passed. -/
theorem Step.zombie_cases (h : Step clean a act a') (hI : a.Inv) (hz : z ∈ a'.procs .zombie) :
    KeepsZombie a a' z ∨
      ∃ v, act = .syscall (.exit v) ∧ a.running = some z ∧ a'.pid z = a.pid z ∧
        a'.returnValue z = v.toInt := by
  cases h with
  | tick _ hs =>
      have hzombies := hs.sameFamilies.zombies
      obtain ⟨_, _, _, _, _, _, rfl⟩ := hs.eq
      exact Or.inl ⟨hzombies ▸ hz, rfl, rfl⟩
  | @syscall r c _ hr hs =>
      rcases hs.zombie_cases (hI.enter hr c).proc hr hz with hkeep | ⟨⟨v, rfl⟩, rfl, hpid, hvalue⟩
      · exact Or.inl hkeep
      · refine Or.inr ⟨v, rfl, hr, hpid, ?_⟩
        rw [hvalue]
        simp only [enter, Function.update_self, storeArgs_apply]
        exact wrapInt_toInt v
  | store _ => exact Or.inl ⟨hz, rfl, rfl⟩

/-- Nobody comes back to life: who is alive was so before, or is new with the next pid. -/
theorem Step.alive_cases (h : Step clean a act a') (hI : a.Inv) (hI' : a'.Inv) (hF : a.FamInv)
    (hx : a'.Alive x) :
    (a.Alive x ∧ a'.pid x = a.pid x ∧
      ((∃ v, act = .syscall (.exit v)) → a.running ≠ some x)) ∨
      (act.creates ∧ a'.pid x = a.lastPid) := by
  cases h with
  | tick _ hs =>
      have hsame : SameFamilies a a' := { hs.sameFamilies with }
      exact Or.inl ⟨(hsame.alive_iff hI.proc hI'.proc).1 hx, by rw [hsame.pid], nofun⟩
  | @syscall r c _ hr hs =>
      have hI₁ := hI.enter hr c
      have hsame := sameFamilies_enter a r c
      rcases hs.alive_cases hI₁.proc hI'.proc hr
        (hsame.famInv hF hI.proc hI₁.proc hI.kid) hx with ⟨halive, hpid, hne⟩ | hnew
      · refine Or.inl ⟨(hsame.alive_iff hI.proc hI₁.proc).1 halive, hpid, ?_⟩
        rintro ⟨v, hv⟩ heq
        exact hne ⟨v, by simpa using hv⟩ (Option.some.inj (heq.symm.trans hr))
      · exact Or.inr hnew
  | store _ => exact Or.inl ⟨hx, rfl, nofun⟩

/-- A blocked process was blocked before, or it has just called `wait`. -/
theorem Step.blocked_cases (h : Step clean a act a') (hI : a.Inv) (hw : a'.Blocked w) :
    (a.Blocked w ∧ a'.syscallArgs w = a.syscallArgs w ∧ a.running ≠ some w) ∨
      ∃ p result, act = .syscall (.wait p result) ∧ a.running = some w ∧
        a'.syscallArgs w 1 = result := by
  obtain ⟨hwait, hnum⟩ := hw
  have hne : w ∈ a.procs .waiting → a.running ≠ some w := fun hmem heq =>
    (hI.proc.running_fresh heq).1 .waiting hmem
  cases h with
  | tick _ hs =>
      have hmem := hs.waiting_subset hwait
      obtain ⟨_, _, _, _, _, _, rfl⟩ := hs.eq
      exact Or.inl ⟨⟨hmem, hnum⟩, rfl, hne hmem⟩
  | @syscall r c _ hr hs =>
      obtain ⟨hnums, hargs⟩ := hs.syscall_eq
      rcases hs.waiting_cases hwait with hmem | ⟨rfl, ⟨p, result, rfl⟩ | ⟨n, rfl⟩⟩
      · have hwr : w ≠ r := fun heq => hne hmem (by rw [hr, heq])
        refine Or.inl ⟨⟨hmem, ?_⟩, ?_, hne hmem⟩
        · rw [← hnum, hnums]
          exact (Function.update_of_ne hwr ..).symm
        · rw [hargs]
          exact Function.update_of_ne hwr ..
      · refine Or.inr ⟨p, result, rfl, hr, ?_⟩
        rw [hargs]
        simp only [enter, Function.update_self, storeArgs_apply]
        rfl
      -- the call was `sleep`, and a sleeper is not blocked in `wait`
      · rw [hnums] at hnum
        simp only [enter, Function.update_self] at hnum
        exact absurd hnum (by simp only [Syscall.num]; decide)
  | store _ => exact Or.inl ⟨⟨hwait, hnum⟩, rfl, hne hwait⟩

/-- The processes that a `wait` may hand over: the child of an entry `k` on the list of `w`, which
is freed. Either `w` collects a zombie, or the child leaves and wakes `w`. -/
inductive Collected (a : Model) (act : Action) (w z : Addr) (a' : Model) : Prop where
  | zombie {p : Int32} {result : Int} : act = .syscall (.wait p result) → a.running = some w →
      z ∈ a.procs .zombie →
      a'.ints = (if result ≠ 0 then Function.update a.ints result (a.returnValue z) else a.ints) →
      Collected a act w z a'
  | woken {v : Int32} : act = .syscall (.exit v) → a.running = some z → a.Blocked w →
      a'.ints = (if a.syscallArgs w 1 ≠ 0 then
        Function.update a.ints (a.syscallArgs w 1) v.toInt else a.ints) →
      Collected a act w z a'

/-- A `wait` that returns no error code returns the pid of a child that is freed. -/
theorem Step.wait_returns {n : Nat} (h : Step clean a act a') (hI : a.Inv) (hI' : a'.Inv)
    (hG : a.Families n) (hrun' : a'.running = some w) (hret : 0 ≤ a'.syscallRetvalue w)
    (hwait : (a.running = some w ∧ ∃ p result, act = .syscall (.wait p result)) ∨ a.Blocked w) :
    ∃ k z, k ∈ a.children w ∧ a.ptrPcb k = z ∧ a'.syscallRetvalue w = a.pid z ∧ a.Used z ∧
      ¬ a'.Used z ∧ Collected a act w z a' := by
  cases h with
  | tick _ hs =>
      rcases hwait with ⟨-, p, result, hact⟩ | hw
      · cases hact
      -- the timer wakes sleepers only, and `w` does not sleep
      · exact absurd hrun' (hs.not_resumed { hI.proc with } { hI.timer with } hw)
  | @syscall r c _ hr hs =>
      have hI₁ := hI.enter hr c
      have hF₁ : (a.enter r c).FamInv :=
        (sameFamilies_enter a r c).famInv hG.lists hI.proc hI₁.proc hI.kid
      rcases hwait with ⟨hrun, p, result, hact⟩ | ⟨hwait, hnum⟩
      · obtain rfl : w = r := Option.some.inj (hrun.symm.trans hr)
        obtain rfl : c = .wait p result := by simpa using hact
        cases hs with
        | wait hs =>
            cases hs with
            | noChildren _ =>
                rw [show ((a.enter w _).answer w dsosEWait).syscallRetvalue w = dsosEWait from
                  Function.update_self ..] at hret
                exact absurd hret (by decide)
            | @reap e he hz =>
                have hmem := mem_of_awaited he
                have hused := (hF₁.entry w e hmem).1
                refine ⟨e, a.ptrPcb e, hmem, rfl, ?_, hused, ?_,
                  .zombie rfl hr (hF₁.mem_zombies hI₁.proc hmem hz) ?_⟩
                · rw [reap_eq]
                  exact Function.update_self ..
                · exact fun hx => ((used_reap hI₁.proc hI'.proc hused).1 hx).2 rfl
                · rw [reap_eq]
                  simp only [enter, Function.update_self, storeArgs_apply]
                  rfl
            | block _ _ hnext =>
                have hready : w ∈ a.procs .ready := by
                  rw [show a.procs .ready = _ from hnext, ← Option.some.inj hrun']
                  exact List.mem_cons_self
                exact absurd hready ((hI.proc.running_fresh hr).1 .ready)
      · have hwr : w ≠ r := fun heq => (hI.proc.running_fresh hr).1 .waiting (heq ▸ hwait)
        have hblocked : (a.enter r c).Blocked w :=
          ⟨hwait, (Function.update_of_ne hwr ..).trans hnum⟩
        -- only the exit of a child that `w` awaits resumes it
        obtain ⟨init, e, v, rfl, hinit, hri, hparent, hawaits, hfind, rfl⟩ :=
          hs.resumed hI₁.proc hI₁.timer hblocked hrun'
        have hN₁ := ((sameFamilies_enter a r (.exit v)).noneNew hI.proc hI₁.proc).pidInv hG.pids
        have hentry :=
          hF₁.findsOwn hN₁ hI₁.proc hr init w e hinit hri hparent hawaits hfind
        have hmem := hF₁.leave_entry hri hentry (List.mem_of_find?_eq_some hfind)
        refine ⟨e, r, hmem, hentry, ?_, Or.inl hr, ?_, .woken rfl hr ⟨hwait, hnum⟩ ?_⟩
        · obtain ⟨_, _, _, _, heq⟩ := handOver_eq ((a.enter r (.exit v)).leave r init w) r w e
          rw [heq]
          exact Function.update_self ..
        · exact fun hx => ((used_handOver hI₁.proc hr hI'.proc).1 hx).2 rfl
        · obtain ⟨_, _, _, _, heq⟩ := exit_handOver_eq init w e
            ((hI₁.proc.running_fresh hr).1 .zombie)
          rw [heq]
          have hargs : (a.enter r (.exit v)).syscallArgs w = a.syscallArgs w :=
            Function.update_of_ne hwr ..
          have hvalue : wrapInt ((a.enter r (.exit v)).syscallArgs r 0) = v.toInt := by
            simp only [enter, Function.update_self, storeArgs_apply]
            exact wrapInt_toInt v
          simp only [hargs, hvalue]
          rfl
  | store _ =>
      rcases hwait with ⟨-, p, result, hact⟩ | ⟨hwait, -⟩
      · cases hact
      · exact absurd hwait ((hI.proc.running_fresh hrun').1 .waiting)

end Model

end DisastrOS
