import DisastrOS.Abstract.Frames
import DisastrOS.Library.ChildLists

/-!
# Families of processes

As long as pids do not wrap around, pids identify processes, and every process other than `init` has
exactly one entry on the children list of exactly one process that has not left. This is more than
`Inv` says, and `exit` and `wait` rely on it: both look up an entry by its pid.
-/

set_option autoImplicit false

namespace DisastrOS

open ChildLists

/-- The action creates a process. -/
def Action.creates : Action → Bool
  | .syscall .fork | .syscall (.spawn ..) => true
  | _ => false

namespace Model

variable {clean : Addr → Prop} {a a' : Model} {r x e init parent : Addr} {n : Nat}

/-! ## Processes in use -/

/-- A process is alive if it is in use and no zombie. -/
theorem ProcInv.alive_iff (hP : a.ProcInv) : a.Alive x ↔ a.Used x ∧ x ∉ a.procs .zombie := by
  have hnd := hP.nodup
  simp only [pcbBlocks, List.nodup_append, List.mem_append, Option.mem_toList] at hnd
  obtain ⟨-, ⟨-, ⟨-, -, hw⟩, hready⟩, hrun⟩ := hnd
  constructor
  · intro hx
    refine ⟨hx.used, fun hz => ?_⟩
    rcases hx with hx | hx | hx
    · exact hrun x hx x (Or.inr (Or.inr (Or.inl hz))) rfl
    · exact hready x hx x (Or.inr (Or.inl hz)) rfl
    · exact hw x hx x (Or.inl hz) rfl
  · rintro ⟨hx | hx | hx | hx, hz⟩
    · exact Or.inl hx
    · exact Or.inr (Or.inl hx)
    · exact Or.inr (Or.inr hx)
    · exact absurd hx hz

/-! ## The invariants -/

/-- Pids are handed out in ascending order, `n` of them so far, and identify processes. -/
structure PidInv (a : Model) (n : Nat) : Prop where
  next : a.lastPid = n
  bound : ∀ x, a.Used x → 0 ≤ a.pid x ∧ a.pid x < n
  inj : ∀ x y, a.Used x → a.Used y → a.pid x = a.pid y → x = y

/-- The children lists hold exactly one entry for every process other than `init`. -/
abbrev FamInv (a : Model) : Prop := Forest a.Used a.Alive a.initPcb a.ptrPcb a.children

/-- The parts of the state on which families depend are those of `a`. -/
structure SameFamilies (a a' : Model) : Prop where
  pid : a'.pid = a.pid
  parent : a'.parent = a.parent
  initPcb : a'.initPcb = a.initPcb
  lastPid : a'.lastPid = a.lastPid
  children : a'.children = a.children
  freePcbs : a'.freePcbs = a.freePcbs
  zombies : a'.procs .zombie = a.procs .zombie
  ptrPcb : ∀ e, e ∉ a.freePcbPtrs → a'.ptrPcb e = a.ptrPcb e

theorem SameFamilies.refl (a : Model) : SameFamilies a a :=
  ⟨rfl, rfl, rfl, rfl, rfl, rfl, rfl, fun _ _ => rfl⟩

theorem SameFamilies.used_iff (h : SameFamilies a a') (hP : a.ProcInv) (hP' : a'.ProcInv) :
    a'.Used x ↔ a.Used x := by
  rw [hP.used_iff, hP'.used_iff, h.freePcbs]

/-- The same processes are alive. -/
theorem SameFamilies.alive_iff (h : SameFamilies a a') (hP : a.ProcInv) (hP' : a'.ProcInv) :
    a'.Alive x ↔ a.Alive x := by
  rw [hP.alive_iff, hP'.alive_iff, h.used_iff hP hP', h.zombies]

theorem SameFamilies.ptrPcb_eq (h : SameFamilies a a') (hK : a.KidInv) {q : Addr}
    (he : e ∈ a.children q) : a'.ptrPcb e = a.ptrPcb e :=
  h.ptrPcb e (hK.used q e he).2

/-- No process is new. -/
structure NoneNew (a a' : Model) : Prop where
  pid : a'.pid = a.pid
  lastPid : a'.lastPid = a.lastPid
  parent : a'.parent = a.parent
  initPcb : a'.initPcb = a.initPcb
  used : ∀ x, a'.Used x → a.Used x

/-- The process `x` is new. It has the next pid and is a child of `r`. -/
structure NewChild (a : Model) (r x : Addr) (a' : Model) : Prop where
  pid : a'.pid = Function.update a.pid x a.lastPid
  lastPid : a'.lastPid = wrapInt (a.lastPid + 1)
  parent : a'.parent = Function.update a.parent x (some r)
  initPcb : a'.initPcb = a.initPcb
  fresh : ¬ a.Used x
  used : ∀ y, a'.Used y ↔ a.Used y ∨ y = x

/-- Where the families stay the same, nobody is new. -/
theorem SameFamilies.noneNew (h : SameFamilies a a') (hP : a.ProcInv) (hP' : a'.ProcInv) :
    NoneNew a a' :=
  ⟨h.pid, h.lastPid, h.parent, h.initPcb, fun _ hx => (h.used_iff hP hP').1 hx⟩

/-- Pids keep identifying processes when processes are freed. -/
theorem NoneNew.pidInv (h : NoneNew a a') (hN : a.PidInv n) : a'.PidInv n := by
  refine ⟨h.lastPid.trans hN.next, fun x hx => ?_, fun x y hx hy => ?_⟩
  · rw [h.pid]
    exact hN.bound x (h.used x hx)
  · rw [h.pid]
    exact hN.inj x y (h.used x hx) (h.used y hy)

/-- A new process gets a pid above all others, if the counter has not overflowed. -/
theorem NewChild.pidInv (h : NewChild a r x a') (hN : a.PidInv n) (hn : n + 1 < 2 ^ 31) :
    a'.PidInv (n + 1) := by
  have hpid : ∀ y, a.Used y → a'.pid y = a.pid y := fun y hy => by
    rw [h.pid]
    exact Function.update_of_ne (show y ≠ x from fun heq => h.fresh (heq ▸ hy)) ..
  have hpidx : a'.pid x = n := by
    rw [h.pid, Function.update_self, hN.next]
  constructor
  · rw [h.lastPid, hN.next, wrapInt_of_bounds (by omega) (by omega)]
    rfl
  · intro y hy
    rcases (h.used y).1 hy with hy₁ | rfl
    · rw [hpid y hy₁]
      have := hN.bound y hy₁
      omega
    · rw [hpidx]
      omega
  · intro y z hy hz heq
    rcases (h.used y).1 hy with hy₁ | rfl
    · rcases (h.used z).1 hz with hz₁ | rfl
      · rw [hpid y hy₁, hpid z hz₁] at heq
        exact hN.inj y z hy₁ hz₁ heq
      · rw [hpid y hy₁, hpidx] at heq
        have := hN.bound y hy₁
        omega
    · rcases (h.used z).1 hz with hz₁ | rfl
      · rw [hpid z hz₁, hpidx] at heq
        have := hN.bound z hz₁
        omega
      · rfl

theorem SameFamilies.famInv (h : SameFamilies a a') (hF : a.FamInv) (hP : a.ProcInv)
    (hP' : a'.ProcInv) (hK : a.KidInv) : a'.FamInv := by
  unfold FamInv
  rw [h.initPcb, h.children]
  exact hF.congr (fun _ => h.used_iff hP hP') (fun _ _ hq => (h.alive_iff hP hP').2 hq)
    fun q e he => h.ptrPcb_eq hK he

/-! ## Steps that keep the families -/

theorem Wakes.zombies {woken : List Addr} (h : Wakes woken a a') :
    a'.procs .zombie = a.procs .zombie := by
  induction h with
  | stop _ => rfl
  | wake _ _ _ _ ih => exact ih

/-- The scheduler changes who runs and who waits, but no family. -/
theorem ScheduleStep.sameFamilies (h : ScheduleStep a a') : SameFamilies a a' := by
  have hz : a'.procs .zombie = a.procs .zombie := by
    cases h with
    | idle hw _ => exact hw.zombies
    | switch hw _ _ => exact hw.zombies
  obtain ⟨_, _, _, _, _, _, rfl⟩ := h.eq
  exact ⟨rfl, rfl, rfl, rfl, rfl, rfl, hz, fun _ _ => rfl⟩

/-- Going to sleep changes no family. -/
theorem SleepStep.sameFamilies (h : SleepStep a r a') : SameFamilies a a' := by
  have hz : a'.procs .zombie = a.procs .zombie := by cases h <;> rfl
  obtain ⟨_, _, _, _, _, _, _, _, rfl⟩ := h.eq
  exact ⟨rfl, rfl, rfl, rfl, rfl, rfl, hz, fun _ _ => rfl⟩

theorem sameFamilies_enter (a : Model) (r : Addr) (c : Syscall) : SameFamilies a (a.enter r c) :=
  ⟨rfl, rfl, rfl, rfl, rfl, rfl, rfl, fun _ _ => rfl⟩

theorem SameProcesses.sameFamilies (h : SameProcesses a r a') : SameFamilies a a' :=
  ⟨h.pid, h.parent, h.initPcb, h.lastPid, h.children, h.freePcbs, by rw [h.procs], h.ptrPcb⟩

/-! ## Waiting for a process -/

/-- A process awaits the pid `n` if it is blocked in a `wait` for that child or for any. -/
theorem awaits_iff {n : Int} : a.awaits x n ↔ a.status x = .waiting ∧ a.syscallNum x = dsosCallWait ∧
    (a.syscallArgs x 0 = 0 ∨ a.syscallArgs x 0 = n) := by
  simp [PCBs.awaits]

/-- The call stored in the PCB of the running process makes nobody else wait. -/
theorem awaits_enter {n : Int} {c : Syscall} (hP : a.ProcInv) (hr : a.running = some r) :
    (a.enter r c).awaits x n ↔ a.awaits x n := by
  rw [awaits_iff, awaits_iff]
  by_cases hw : x = r
  · have hne : a.status x ≠ .waiting := fun heq =>
      (hP.running_fresh hr).1 .waiting ((hP.waiting r).1 (hw ▸ heq))
    exact iff_of_false (fun h => hne h.1) fun h => hne h.1
  · simp only [enter, Function.update_of_ne hw]

/-! ## Creation -/

/-- After a creation one more PCB is in use. -/
theorem used_create {xs es : List Addr} (hP : a.ProcInv) (hP' : (a.create r x e xs es).ProcInv)
    (hfree : a.freePcbs = x :: xs) {y : Addr} :
    (a.create r x e xs es).Used y ↔ a.Used y ∨ y = x := by
  have hx : IsBlock maxNumProcesses sizeofPCB x :=
    hP.isBlock_iff.2 (Or.inr (by rw [hfree]; exact List.mem_cons_self))
  have hnd : (x :: xs).Nodup := by
    rw [← hfree]
    have hnd := hP.nodup
    simp only [pcbBlocks, List.nodup_append] at hnd
    exact hnd.2.1.2.1.2.1.2.1
  have hxs : x ∉ xs := (List.nodup_cons.1 hnd).1
  rw [hP'.used_iff, hP.used_iff, hfree]
  show IsBlock _ _ y ∧ y ∉ xs ↔ _
  constructor
  · rintro ⟨hy, hyxs⟩
    by_cases hyx : y = x
    · exact Or.inr hyx
    · exact Or.inl ⟨hy, by simp [hyx, hyxs]⟩
  · rintro (⟨hy, hyxs⟩ | rfl)
    · exact ⟨hy, fun hmem => hyxs (List.mem_cons_of_mem _ hmem)⟩
    · exact ⟨hx, hxs⟩

theorem CreateStep.alive_mono (h : CreateStep a r a') (hP : a.ProcInv) (hP' : a'.ProcInv)
    (hx : a.Alive x) : a'.Alive x := by
  cases h with
  | created hfree _ =>
      rw [hP.alive_iff] at hx
      rw [hP'.alive_iff, used_create hP hP' hfree]
      exact ⟨Or.inl hx.1, hx.2⟩

/-- `fork` and `spawn` create one process, which is a child of the caller. -/
theorem CreateStep.newChild (h : CreateStep a r a') (hP : a.ProcInv) (hP' : a'.ProcInv) :
    ∃ x, NewChild a r x a' := by
  cases h with
  | @created x e xs es hfree _ =>
      exact ⟨x, rfl, rfl, rfl, rfl, hP.free_fresh (by rw [hfree]; exact List.mem_cons_self),
        fun y => used_create hP hP' hfree⟩

/-- The block of a new process has an empty list of children already. -/
theorem FamInv.create_children {xs es : List Addr} (hF : a.FamInv) (hx : ¬ a.Used x) :
    (a.create r x e xs es).children = Function.update a.children r (a.children r ++ [e]) := by
  have hnil : a.children x = [] := hF.eq_nil fun halive => hx halive.used
  show Function.update (Function.update a.children x []) r _ = _
  rw [← hnil, Function.update_eq_self]

/-- The new process gets its own entry on the list of its parent. -/
theorem CreateStep.famInv (h : CreateStep a r a') (hF : a.FamInv) (hP : a.ProcInv)
    (hP' : a'.ProcInv) (hK : a.KidInv) (hr : a.running = some r) : a'.FamInv := by
  cases h with
  | @created x e xs es hfree hptr =>
      have hx : ¬ a.Used x := hP.free_fresh (by rw [hfree]; exact List.mem_cons_self)
      have hxr : r ≠ x := fun heq => hx (heq ▸ Or.inl hr)
      have hxi : a.initPcb ≠ some x := by
        obtain ⟨i, hi, -, halive⟩ := hP.init
        rw [hi]
        rintro ⟨⟩
        exact hx halive.used
      have hfresh : ∀ q, e ∉ a.children q := fun q he =>
        (hK.used q e he).2 (by rw [hptr]; exact List.mem_cons_self)
      have hadd := hF.add (Or.inl hr) hx hxr hxi hfresh
      unfold FamInv
      rw [hF.create_children hx]
      exact hadd.congr (fun y => used_create hP hP' hfree)
        (fun q _ hq => (CreateStep.created hfree hptr).alive_mono hP hP' hq) fun _ _ _ => rfl

/-! ## Collecting a zombie -/

/-- Freeing the process of the entry `e` that `r` collects. -/
theorem used_reap (hP : a.ProcInv) (hP' : (a.reap r e).ProcInv) (hused : a.Used (a.ptrPcb e))
    {y : Addr} : (a.reap r e).Used y ↔ a.Used y ∧ y ≠ a.ptrPcb e := by
  have hfree : a.ptrPcb e ∉ a.freePcbs := (hP.used_iff.1 hused).2
  rw [hP'.used_iff, hP.used_iff]
  show IsBlock _ _ y ∧
    y ∉ (if a.ptrPcb e ∈ a.freePcbs then a.freePcbs else a.ptrPcb e :: a.freePcbs) ↔ _
  rw [if_neg hfree, List.mem_cons, not_or]
  tauto

/-- A member of the children lists with the status of a zombie is in the zombie list. -/
theorem FamInv.mem_zombies (hF : a.FamInv) (hP : a.ProcInv) {q : Addr} (he : e ∈ a.children q)
    (hz : a.status (a.ptrPcb e) = .zombie) : a.ptrPcb e ∈ a.procs .zombie := by
  obtain ⟨hblock, hfree⟩ := hP.used_iff.1 (hF.entry q e he).1
  exact (hP.zombie_or_free hblock hz).resolve_right hfree

/-- `wait` collects a zombie or leaves the families alone. -/
theorem WaitStep.families (h : WaitStep a r a') : SameFamilies a a' ∨
    ∃ e, a.awaited r (wrapInt (a.syscallArgs r 0)) = some e ∧ a.status (a.ptrPcb e) = .zombie ∧
      a' = a.reap r e := by
  cases h with
  | noChildren _ => exact Or.inl ⟨rfl, rfl, rfl, rfl, rfl, rfl, rfl, fun _ _ => rfl⟩
  | reap he hz => exact Or.inr ⟨_, he, hz, rfl⟩
  | block _ _ _ => exact Or.inl ⟨rfl, rfl, rfl, rfl, rfl, rfl, rfl, fun _ _ => rfl⟩

/-- `wait` collects zombies only. -/
theorem WaitStep.alive_mono (h : WaitStep a r a') (hP : a.ProcInv) (hP' : a'.ProcInv)
    (hx : a.Alive x) : a'.Alive x := by
  rcases h.families with hsame | ⟨e, -, -, rfl⟩
  · exact (hsame.alive_iff hP hP').2 hx
  · rw [reap_eq]
    exact hx

theorem WaitStep.famInv (h : WaitStep a r a') (hF : a.FamInv) (hP : a.ProcInv)
    (hP' : a'.ProcInv) (hK : a.KidInv) : a'.FamInv := by
  rcases h.families with hsame | ⟨e, he, hz, rfl⟩
  · exact hsame.famInv hF hP hP' hK
  · have hmem := mem_of_awaited he
    have hiff := fun y => used_reap (y := y) hP hP' (hF.entry r e hmem).1
    have hinit : (a.reap r e).initPcb = a.initPcb := by rw [reap_eq]
    have hptr : (a.reap r e).ptrPcb = a.ptrPcb := by rw [reap_eq]
    unfold FamInv
    rw [hinit, hptr]
    exact (hF.remove hmem).congr hiff (fun q _ hq => h.alive_mono hP hP' hq) fun _ _ _ => rfl

/-- `wait` creates nobody. -/
theorem WaitStep.noneNew (h : WaitStep a r a') (hP : a.ProcInv) (hP' : a'.ProcInv) :
    NoneNew a a' := by
  rcases h.families with hsame | ⟨e, he, hz, rfl⟩
  · exact hsame.noneNew hP hP'
  · refine ⟨by rw [reap_eq], by rw [reap_eq], by rw [reap_eq], by rw [reap_eq], fun x hx => ?_⟩
    rw [hP'.used_iff] at hx
    refine hP.used_iff.2 ⟨hx.1, fun hfree => hx.2 ?_⟩
    rw [reap_eq]
    show x ∈ (if a.ptrPcb e ∈ a.freePcbs then a.freePcbs else a.ptrPcb e :: a.freePcbs)
    split
    · exact hfree
    · exact List.mem_cons_of_mem _ hfree

/-! ## Leaving -/

/-- The children lists after the children of `r` have moved to `init`. -/
theorem FamInv.leave (hF : a.FamInv) (parent : Addr) (hP : a.ProcInv) (hinit : a.initPcb = some init)
    (hne : r ≠ init) :
    Forest a.Used (fun q => a.Alive q ∧ q ≠ r) (some init) a.ptrPcb
      (a.leave r init parent).children := by
  obtain ⟨i, hi, -, halive⟩ := hP.init
  obtain rfl : i = init := Option.some.inj (hi.symm.trans hinit)
  unfold FamInv at hF
  rw [hinit] at hF
  exact hF.handOver hne halive

/-- If `r` wakes its parent, then the entry that it looks up by its pid is its own. -/
def FindsOwn (a : Model) (r : Addr) : Prop :=
  ∀ init parent e, a.initPcb = some init → r ≠ init → a.parent r = some parent →
    a.awaits parent (a.pid r) →
    ((a.leave r init parent).children parent).find?
      (fun e => a.pid (a.ptrPcb e) = a.pid r) = some e → a.ptrPcb e = r

/-- While no two processes share a pid, the parent that waits finds the right entry. -/
theorem FamInv.findsOwn (hF : a.FamInv) (hN : a.PidInv n) (hP : a.ProcInv)
    (hr : a.running = some r) : a.FindsOwn r := by
  intro init parent e hinit hne _ _ hfind
  have hmem := List.mem_of_find?_eq_some hfind
  have hpid : a.pid (a.ptrPcb e) = a.pid r := by simpa using List.find?_some hfind
  have hused := ((hF.leave parent hP hinit hne).entry parent e hmem).1
  exact hN.inj _ _ hused (Or.inl hr) hpid

/-- The entry that a woken parent finds was on its list before. -/
theorem FamInv.leave_entry (hF : a.FamInv) (hne : r ≠ init) (hentry : a.ptrPcb e = r)
    (hmem : e ∈ (a.leave r init parent).children parent) : e ∈ a.children parent := by
  rcases ((mem_leave_children parent hne).1 hmem).2 with hmem' | ⟨-, hmem'⟩
  · exact hmem'
  · exact absurd hentry (hF.entry r e hmem').2.2

/-- Who is in use after `r` has left and its parent has been woken. -/
theorem used_handOver (hP : a.ProcInv) (hr : a.running = some r)
    (hP' : ((a.leave r init parent).handOver r parent e).ProcInv) {y : Addr} :
    ((a.leave r init parent).handOver r parent e).Used y ↔ a.Used y ∧ y ≠ r := by
  obtain ⟨_, _, _, _, heq⟩ := exit_handOver_eq init parent e ((hP.running_fresh hr).1 .zombie)
  rw [hP'.used_iff, hP.used_iff, heq]
  show IsBlock _ _ y ∧ y ∉ r :: a.freePcbs ↔ _
  rw [List.mem_cons, not_or]
  tauto

/-- Only the caller leaves in an `exit`. -/
theorem ExitStep.alive_mono (h : ExitStep a r a') (hP : a.ProcInv) (hP' : a'.ProcInv)
    (hr : a.running = some r) (hx : a.Alive x) (hne : x ≠ r) : a'.Alive x := by
  rw [hP.alive_iff] at hx
  cases h with
  | @wakeParent init parent e _ _ _ _ _ =>
      obtain ⟨_, _, _, _, heq⟩ := exit_handOver_eq init parent e ((hP.running_fresh hr).1 .zombie)
      rw [hP'.alive_iff, used_handOver hP hr hP', heq]
      exact ⟨⟨hx.1, hne⟩, hx.2⟩
  | @retire init parent next rest _ _ _ _ _ =>
      rw [hP'.alive_iff, hP'.used_iff]
      refine ⟨hP.used_iff.1 hx.1, fun hmem => ?_⟩
      rcases List.mem_append.1 hmem with hmem | hmem
      · exact hx.2 hmem
      · exact hne (List.mem_singleton.1 hmem)

/-- If the parent finds the right entry, the process that leaves takes its own one along. -/
theorem ExitStep.famInv (h : ExitStep a r a') (hF : a.FamInv) (hown : a.FindsOwn r)
    (hP : a.ProcInv) (hP' : a'.ProcInv) (hr : a.running = some r) : a'.FamInv := by
  have halive := fun q (hq : a.Alive q ∧ q ≠ r) => h.alive_mono hP hP' hr hq.1 hq.2
  cases h with
  | @wakeParent init parent e hinit hne hparent hawaits hfind =>
      -- the entry that the parent finds is the one of `r`, which is freed
      have hentry := hown init parent e hinit hne hparent hawaits hfind
      have hmem := List.mem_of_find?_eq_some hfind
      have hremove := (hF.leave parent hP hinit hne).remove hmem
      rw [hentry] at hremove
      have hiff := fun y => used_handOver (y := y) hP hr hP'
      obtain ⟨_, _, _, _, heq⟩ := exit_handOver_eq init parent e ((hP.running_fresh hr).1 .zombie)
      have hI : ((a.leave r init parent).handOver r parent e).initPcb = some init := by
        rw [heq]
        exact hinit
      have hptr : ((a.leave r init parent).handOver r parent e).ptrPcb = a.ptrPcb := by
        rw [heq]
        rfl
      have hchildren : ((a.leave r init parent).handOver r parent e).children =
          Function.update (a.leave r init parent).children parent
            (((a.leave r init parent).children parent).erase e) := by
        rw [heq]
      unfold FamInv
      rw [hI, hptr, hchildren]
      exact hremove.congr hiff (fun q _ hq => halive q hq) fun _ _ _ => rfl
  | @retire init parent next rest hinit hne _ _ _ =>
      -- a zombie is used and stays on the list of its parent
      have hiff : ∀ y, ((a.leave r init parent).retire next rest).Used y ↔ a.Used y := by
        intro y
        rw [hP'.used_iff, hP.used_iff]
        rfl
      have hI : ((a.leave r init parent).retire next rest).initPcb = some init := hinit
      unfold FamInv
      rw [hI]
      exact (hF.leave parent hP hinit hne).congr hiff (fun q _ hq => halive q hq)
        fun _ _ _ => rfl

/-- `exit` creates nobody. -/
theorem ExitStep.noneNew (h : ExitStep a r a') (hP : a.ProcInv) (hP' : a'.ProcInv)
    (hr : a.running = some r) : NoneNew a a' := by
  cases h with
  | @wakeParent init parent e _ _ _ _ _ =>
      obtain ⟨_, _, _, _, heq⟩ := exit_handOver_eq init parent e ((hP.running_fresh hr).1 .zombie)
      exact ⟨by rw [heq]; rfl, by rw [heq]; rfl, by rw [heq]; rfl, by rw [heq]; rfl,
        fun x hx => ((used_handOver hP hr hP').1 hx).1⟩
  | @retire init parent next rest _ _ _ _ _ =>
      refine ⟨rfl, rfl, rfl, rfl, fun x hx => ?_⟩
      rw [hP'.used_iff] at hx
      exact hP.used_iff.2 hx

/-! ## The system -/

theorem HandlerStep.famInv {c : Syscall} (h : HandlerStep clean a r c a') (hF : a.FamInv)
    (hown : (∃ v, c = .exit v) → a.FindsOwn r) (hI : a.Inv) (hI' : a'.Inv)
    (hr : a.running = some r) : a'.FamInv := by
  cases hp : c.onProcesses with
  | false => exact (h.sameProcesses hp).sameFamilies.famInv hF hI.proc hI'.proc hI.kid
  | true =>
      cases h with
      | preempt h => exact h.sameFamilies.famInv hF hI.proc hI'.proc hI.kid
      | fork h => exact h.famInv hF hI.proc hI'.proc hI.kid hr
      | spawn h => exact h.famInv hF hI.proc hI'.proc hI.kid hr
      | wait h => exact h.famInv hF hI.proc hI'.proc hI.kid
      | exit h => exact h.famInv hF (hown ⟨_, rfl⟩) hI.proc hI'.proc hr
      | sleep h => exact h.sameFamilies.famInv hF hI.proc hI'.proc hI.kid
      | shutdown =>
          refine SameFamilies.famInv ?_ hF hI.proc hI'.proc hI.kid
          exact ⟨rfl, rfl, rfl, rfl, rfl, rfl, rfl, fun _ _ => rfl⟩
      | _ => cases hp

/-- Every transition keeps the children lists complete, if an `exit` looks up its own entry. -/
theorem Step.famInv {act : Action} (h : Step clean a act a') (hF : a.FamInv)
    (hown : ∀ r v, a.running = some r → act = .syscall (.exit v) → a.FindsOwn r) (hI : a.Inv)
    (hI' : a'.Inv) : a'.FamInv := by
  cases h with
  | tick _ hs =>
      have hsame : SameFamilies a a' := { hs.sameFamilies with }
      exact hsame.famInv hF hI.proc hI'.proc hI.kid
  | @syscall r c _ hr hs =>
      have hI₁ := hI.enter hr c
      have hF₁ := (sameFamilies_enter a r c).famInv hF hI.proc hI₁.proc hI.kid
      refine hs.famInv hF₁ ?_ hI₁ hI' hr
      rintro ⟨v, rfl⟩ init parent e hinit hne hparent hawaits
      exact hown r v hr rfl init parent e hinit hne hparent ((awaits_enter hI.proc hr).1 hawaits)
  | @store _ address value _ =>
      have hsame : SameFamilies a { a with chars := Function.update a.chars address value } :=
        { SameFamilies.refl a with }
      exact hsame.famInv hF hI.proc hI'.proc hI.kid

/-- Who has not left has not left after the next transition, unless it is its `exit`. -/
theorem HandlerStep.alive_mono {c : Syscall} (h : HandlerStep clean a r c a') (hI : a.Inv)
    (hI' : a'.Inv) (hr : a.running = some r) (hx : a.Alive x)
    (hne : (∃ v, c = .exit v) → x ≠ r) : a'.Alive x := by
  cases hp : c.onProcesses with
  | false => exact ((h.sameProcesses hp).sameFamilies.alive_iff hI.proc hI'.proc).2 hx
  | true =>
      cases h with
      | preempt h => exact (h.sameFamilies.alive_iff hI.proc hI'.proc).2 hx
      | fork h => exact h.alive_mono hI.proc hI'.proc hx
      | spawn h => exact h.alive_mono hI.proc hI'.proc hx
      | wait h => exact h.alive_mono hI.proc hI'.proc hx
      | exit h => exact h.alive_mono hI.proc hI'.proc hr hx (hne ⟨_, rfl⟩)
      | sleep h => exact (h.sameFamilies.alive_iff hI.proc hI'.proc).2 hx
      | shutdown => exact hx
      | _ => cases hp

/-- A process stays alive until it calls `exit`. -/
theorem Step.alive_mono {act : Action} (h : Step clean a act a') (hI : a.Inv) (hI' : a'.Inv)
    (hx : a.Alive x) (hne : ∀ v, act = .syscall (.exit v) → a.running ≠ some x) :
    a'.Alive x := by
  cases h with
  | tick _ hs =>
      have hsame : SameFamilies a a' := { hs.sameFamilies with }
      exact (hsame.alive_iff hI.proc hI'.proc).2 hx
  | @syscall r c _ hr hs =>
      apply hs.alive_mono (hI.enter hr c) hI' hr hx
      rintro ⟨v, rfl⟩ rfl
      exact hne v rfl hr
  | store _ => exact hx

/-- Only `fork` and `spawn` bring a new process, a child of the caller. -/
theorem HandlerStep.newcomer {c : Syscall} (h : HandlerStep clean a r c a') (hI : a.Inv)
    (hI' : a'.Inv) (hr : a.running = some r) :
    ((Action.syscall c).creates = false ∧ NoneNew a a') ∨
      ((Action.syscall c).creates = true ∧ ∃ x, NewChild a r x a') := by
  cases hp : c.onProcesses with
  | false =>
      have hcreates : (Action.syscall c).creates = false := by
        cases c <;> first | rfl | cases hp
      exact Or.inl ⟨hcreates, (h.sameProcesses hp).sameFamilies.noneNew hI.proc hI'.proc⟩
  | true =>
      cases h with
      | preempt h => exact Or.inl ⟨rfl, h.sameFamilies.noneNew hI.proc hI'.proc⟩
      | fork h => exact Or.inr ⟨rfl, h.newChild hI.proc hI'.proc⟩
      | spawn h => exact Or.inr ⟨rfl, h.newChild hI.proc hI'.proc⟩
      | wait h => exact Or.inl ⟨rfl, h.noneNew hI.proc hI'.proc⟩
      | exit h => exact Or.inl ⟨rfl, h.noneNew hI.proc hI'.proc hr⟩
      | sleep h => exact Or.inl ⟨rfl, h.sameFamilies.noneNew hI.proc hI'.proc⟩
      | shutdown => exact Or.inl ⟨rfl, rfl, rfl, rfl, rfl, fun _ hx => hx⟩
      | _ => cases hp

/-- A transition creates no process, or the running process gets one more child. -/
theorem Step.newcomer {act : Action} (h : Step clean a act a') (hI : a.Inv) (hI' : a'.Inv) :
    (act.creates = false ∧ NoneNew a a') ∨ (act.creates = true ∧ ∃ r x, NewChild a r x a') := by
  cases h with
  | tick _ hs =>
      have hsame : SameFamilies a a' := { hs.sameFamilies with }
      exact Or.inl ⟨rfl, hsame.noneNew hI.proc hI'.proc⟩
  | @syscall r c _ hr hs =>
      rcases hs.newcomer (hI.enter hr c) hI' hr with ⟨hc, hnone⟩ | ⟨hc, x, hnew⟩
      · exact Or.inl ⟨hc, { hnone with }⟩
      · exact Or.inr ⟨hc, r, x, { hnew with }⟩
  | store _ => exact Or.inl ⟨rfl, rfl, rfl, rfl, rfl, fun _ hx => hx⟩

theorem Step.noneNew {act : Action} (h : Step clean a act a') (hI : a.Inv) (hI' : a'.Inv)
    (hc : act.creates = false) : NoneNew a a' := by
  rcases h.newcomer hI hI' with ⟨-, hnone⟩ | ⟨hcreates, -⟩
  · exact hnone
  · rw [hc] at hcreates
    cases hcreates

/-- The next pid is above all pids that have been given. -/
theorem Step.pidInv {act : Action} (h : Step clean a act a') (hN : a.PidInv n) (hI : a.Inv)
    (hI' : a'.Inv) (hn : (n + if act.creates then 1 else 0) < 2 ^ 31) :
    a'.PidInv (n + if act.creates then 1 else 0) := by
  rcases h.newcomer hI hI' with ⟨hc, hnone⟩ | ⟨hc, r, x, hnew⟩
  · rw [hc]
    exact hnone.pidInv hN
  · rw [hc] at hn ⊢
    exact hnew.pidInv hN hn

/-- Pids identify processes and the children lists are complete, after the creation of `n`
processes. -/
structure Families (a : Model) (n : Nat) : Prop where
  pids : a.PidInv n
  lists : a.FamInv

/-- Every transition keeps the families while pids do not wrap around. -/
theorem Step.families {act : Action} (h : Step clean a act a') (hG : a.Families n) (hI : a.Inv)
    (hI' : a'.Inv) (hn : (n + if act.creates then 1 else 0) < 2 ^ 31) :
    a'.Families (n + if act.creates then 1 else 0) :=
  ⟨h.pidInv hG.pids hI hI' hn,
    h.famInv hG.lists (fun _ _ hr _ => hG.lists.findsOwn hG.pids hI.proc hr) hI hI'⟩

/-- In a complete family no entry points to a free block. -/
theorem FamInv.not_free (hF : a.FamInv) (hP : a.ProcInv) {q : Addr} (he : e ∈ a.children q) :
    a.ptrPcb e ∉ a.freePcbs :=
  (hP.used_iff.1 (hF.entry q e he).1).2

end Model

end DisastrOS
