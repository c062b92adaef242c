import DisastrOS.Abstract.HandOff
import DisastrOS.Abstract.Preemption
import DisastrOS.Abstract.Sessions

/-!
# Clients of a queue

A client is a process that opens a queue in one mode, uses it, closes it and exits. Each phase of a
client is a fact about the kernel that the calls of others leave alone, so the client finds at its
next call what it has left at the last one.
-/

set_option autoImplicit false

namespace DisastrOS

/-- How far a client is: it has been created, it has just got a descriptor, it has one with the
number `fd`, it has just closed it, or it has left. -/
inductive Phase where
  | started
  | opened
  | holding (fd : Int)
  | closed
  | exited
  deriving DecidableEq

namespace Model

variable {clean : Addr → Prop} {a a' : Model} {p q : Addr} {act : Action} {mode fd : Int}
  {ph : Phase} {n : Nat}

/-- The process `p` is in this phase with the queue `q`, which it opens for `mode`. It opens nothing
else, so its descriptor has the number 0. -/
def Client (a : Model) (p q : Addr) (mode : Int) : Phase → Prop
  | .started => a.Awake p ∧ a.descriptors p = [] ∧ a.lastFd p = 0
  | .opened => a.Awake p ∧ a.syscallRetvalue p = 0 ∧ a.Enrolled p q mode (.during 0)
  | .holding fd => fd = 0 ∧ a.Enrolled p q mode (.during 0)
  | .closed => a.Awake p ∧ 0 ≤ a.syscallRetvalue p
  | .exited => ¬ a.Alive p

theorem Awake.alive {x : Addr} (h : a.Awake x) : a.Alive x := h.imp id Or.inl

theorem Enrolled.alive (h : a.Enrolled p q mode (.during fd)) : a.Alive p := by
  obtain ⟨d, k, hH, -⟩ := h
  exact hH.alive

/-- A client has not left before its last phase. -/
theorem Client.alive_iff (hC : a.Client p q mode ph) : a.Alive p ↔ ph ≠ .exited := by
  cases ph with
  | started => exact iff_of_true hC.1.alive Phase.noConfusion
  | opened => exact iff_of_true hC.1.alive Phase.noConfusion
  | holding fd => exact iff_of_true hC.2.alive Phase.noConfusion
  | closed => exact iff_of_true hC.1.alive Phase.noConfusion
  | exited => exact iff_of_false hC fun h => h rfl

/-! ## What the others do -/

/-- Nobody but `p` takes descriptor numbers of `p`. -/
theorem Step.keeps_lastFd (h : Step clean a act a') (hI : a.Inv) (hI' : a'.Inv) (hD : a.Distinct)
    (hown : act.onDescriptors → a.running ≠ some p) (hp : a.Used p) :
    a'.lastFd p = a.lastFd p := by
  cases h.descriptors hI hI' hD with
  | same _ _ hsame => rw [hsame.lastFd]
  | created x _ hx =>
      rw [hx.lastFd]
      exact Function.update_of_ne (show p ≠ x from fun heq => hx.fresh (heq ▸ hp)) ..
  | opened r id type mode res d e hr hact hA =>
      have hpr : p ≠ r := fun heq => hown (by rw [hact]; rfl) (heq ▸ hr)
      rw [hA.lastFd]
      exact Function.update_of_ne hpr ..
  | closed r fd mode d _ _ _ hc => rw [hc.lastFd]
  | left r v _ _ _ hc => rw [hc.lastFd]

/-- Who has left stays away, until its block is handed out again. -/
theorem Step.stays_away (h : Step clean a act a') (hI : a.Inv) (hI' : a'.Inv) (hG : a.Families n)
    (hp : ¬ a.Alive p) (hnew : act.creates → a.Used p) : ¬ a'.Alive p := by
  intro hp'
  rcases h.alive_cases hI hI' hG.lists hp' with ⟨halive, -, -⟩ | ⟨hc, hpid⟩
  · exact hp halive
  · have hused := hnew hc
    rcases h.newcomer hI hI' with ⟨hno, -⟩ | ⟨-, r, x, hx⟩
    · rw [hno] at hc
      cases hc
    · -- the new process has another block and another pid
      have hne : p ≠ x := fun heq => hx.fresh (heq ▸ hused)
      rw [hx.pid, Function.update_of_ne hne, hG.pids.next] at hpid
      have hbound := (hG.pids.bound p hused).2
      omega

/-- A client stays in its phase while it makes no call and nobody else closes the queue in its mode.
-/
theorem Client.keep (hC : a.Client p q mode ph) (h : Step clean a act a') (hI : a.Inv)
    (hI' : a'.Inv) (hD : a.Distinct) (hG : a.Families n)
    (hcall : a.running = some p → ∀ c, act ≠ .syscall c) (hnew : act.creates → a.Used p)
    (hother : ∀ r fd mode' d, a.running = some r → act = .syscall (.closeResource fd mode') →
      a.descriptorByFd r fd.toInt = some d → a.desResource d = .mq q → mode'.toInt ≠ mode) :
    a'.Client p q mode ph := by
  have hown : act.onDescriptors → a.running ≠ some p := by
    intro hd hr
    cases act with
    | syscall c => exact hcall hr c rfl
    | tick => cases hd
    | store _ _ => cases hd
  have hawake : a.Awake p → a'.Awake p ∧ a'.syscallRetvalue p = a.syscallRetvalue p := fun hx =>
    (h.undisturbed hI hI' hx.alive hcall).awake hx
  cases ph with
  | started =>
      obtain ⟨hx, hnil, hlast⟩ := hC
      have hused := hx.alive.used
      refine ⟨(hawake hx).1, ?_, ?_⟩
      · exact (h.keeps_descriptors hI hI' hD hown (Or.inl hused)).1.trans hnil
      · exact (h.keeps_lastFd hI hI' hD hown hused).trans hlast
  | opened =>
      obtain ⟨hx, hzero, hE⟩ := hC
      obtain ⟨hx', hret⟩ := hawake hx
      exact ⟨hx', hret.trans hzero, hE.keep h hI hI' hD hown hother⟩
  | holding fd => exact ⟨hC.1, hC.2.keep h hI hI' hD hown hother⟩
  | closed =>
      obtain ⟨hx, hpos⟩ := hC
      obtain ⟨hx', hret⟩ := hawake hx
      exact ⟨hx', by rwa [hret]⟩
  | exited => exact h.stays_away hI hI' hG hC hnew

/-! ## What the client does -/

/-- Between opening and closing the client may do anything but that. -/
theorem Enrolled.uses (hE : a.Enrolled p q mode (.during fd)) (h : Step clean a act a') (hI : a.Inv)
    (hI' : a'.Inv) (hD : a.Distinct) (hquiet : act.onDescriptors = false) :
    a'.Enrolled p q mode (.during fd) := by
  refine hE.keep h hI hI' hD (fun hd => ?_) fun r fd' mode' d _ hact => ?_
  · rw [hquiet] at hd
    cases hd
  · rw [hact] at hquiet
    cases hquiet

/-- The descriptor is found when the client closes it. -/
theorem Enrolled.closes {fd mode' : Int32} (hE : a.Enrolled p q mode (.during fd.toInt))
    (h : Step clean a (.syscall (.closeResource fd mode')) a') (hr : a.running = some p) :
    a'.Client p q mode .closed := by
  obtain ⟨d, k, hH, hd⟩ := hE
  have hs := h.handler hr
  cases hs with
  | closeResource hs =>
      have hrun : a'.running = some p := hs.sameProcesses.running.trans hr
      cases hs with
      | notFound hnone => cases hd.symm.trans hnone
      | closed _ =>
          refine ⟨Or.inl hrun, ?_⟩
          rw [answer_retvalue]

/-- The client leaves. -/
theorem Step.exits {v : Int32} (h : Step clean a (.syscall (.exit v)) a') (hI : a.Inv)
    (hI' : a'.Inv) (hF : a.FamInv) (hr : a.running = some p) : ¬ a'.Alive p := by
  intro hp'
  rcases h.alive_cases hI hI' hF hp' with ⟨-, -, hne⟩ | ⟨hc, -⟩
  · exact hne ⟨v, rfl⟩ hr
  · cases hc

end Model

end DisastrOS
