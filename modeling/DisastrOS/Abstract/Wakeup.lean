import DisastrOS.Abstract.HandOff

/-!
# Nobody waits for a zombie

The invariant that no process is blocked in a `wait` for one of its zombies, and when the
transitions keep it. It breaks where `exit` and the waiting process disagree on who is whose parent:
`exit` follows the parent pointer of the leaving process, `wait` goes by the children list. No bound
on the number of processes is used here.
-/

set_option autoImplicit false

namespace DisastrOS

/-- Every process that is blocked in a `wait` for the leaving process `r`, and has it on its
children list, is its parent; and `init` is not blocked in a `wait` for a zombie that it inherits
from `r`, unless it is woken by `r`. -/
structure Data.ExitSafe (d : Data) (waiting : List Addr) (children : Addr → List Addr) (r : Addr) :
    Prop where
  parent : ∀ w ∈ waiting, ∀ k ∈ children w, d.ptrPcb k = r → d.awaits w (d.pid r) →
    d.parent r = some w
  init : ∀ i ∈ d.initPcb, ∀ k ∈ children r, d.status (d.ptrPcb k) = .zombie →
    d.awaits i (d.pid (d.ptrPcb k)) → d.parent r = some i ∧ d.awaits i (d.pid r)

instance (d : Data) (waiting : List Addr) (children : Addr → List Addr) (r : Addr) :
    Decidable (d.ExitSafe waiting children r) :=
  decidable_of_iff (_ ∧ _) ⟨fun h => ⟨h.1, h.2⟩, fun h => ⟨h.1, h.2⟩⟩

/-- If some child of `r` with the pid `p` is a zombie, then so is the first one. -/
def Data.WaitSafe (d : Data) (children : Addr → List Addr) (r : Addr) (p : Int) : Prop :=
  ∀ k ∈ children r, d.pid (d.ptrPcb k) = p → d.status (d.ptrPcb k) = .zombie →
    ∀ k' ∈ (children r).find? (fun k => d.pid (d.ptrPcb k) = p), d.status (d.ptrPcb k') = .zombie

instance (d : Data) (children : Addr → List Addr) (r : Addr) (p : Int) :
    Decidable (d.WaitSafe children r p) := by
  unfold Data.WaitSafe
  infer_instance

/-- The syscalls after which a process may be blocked although a child it waits for has left: no
other than `exit` and `wait`. -/
def Data.WakeupSafe (d : Data) (waiting : List Addr) (children : Addr → List Addr) : Action → Prop
  | .syscall (.exit _) => ∀ r ∈ d.running, d.ExitSafe waiting children r
  | .syscall (.wait p _) => ∀ r ∈ d.running, p.toInt ≠ 0 → d.WaitSafe children r p.toInt
  | _ => True

instance (d : Data) (waiting : List Addr) (children : Addr → List Addr) (act : Action) :
    Decidable (d.WakeupSafe waiting children act) := by
  unfold Data.WakeupSafe
  split <;> infer_instance

namespace Model

variable {clean : Addr → Prop} {a a' : Model} {r w x : Addr} {c : Syscall} {act : Action}

/-- No process is blocked in a `wait` for a zombie on its children list; and no entry stands for the
process on whose list it is, or for `init`. -/
structure WakeInv (a : Model) : Prop where
  proper : ∀ q, ∀ k ∈ a.children q, a.ptrPcb k ≠ q ∧ a.initPcb ≠ some (a.ptrPcb k)
  awake : ∀ w, ∀ k ∈ a.children w, a.status (a.ptrPcb k) = .zombie →
    ¬ a.awaits w (a.pid (a.ptrPcb k))

/-- What matters for the invariant does not grow: entries, zombies and blocked processes. -/
structure Fewer (a a' : Model) : Prop where
  pid : a'.pid = a.pid
  initPcb : a'.initPcb = a.initPcb
  ptrPcb : ∀ e, e ∉ a.freePcbPtrs → a'.ptrPcb e = a.ptrPcb e
  children : ∀ q, a'.children q ⊆ a.children q
  zombie : ∀ x, a'.status x = .zombie → a.status x = .zombie
  awaits : ∀ w n, a'.awaits w n → a.awaits w n

/-- No parent starts to wait in vain where there are only fewer entries, zombies and blocked
processes. -/
theorem WakeInv.fewer (hW : a.WakeInv) (h : Fewer a a') (hK : a.KidInv) : a'.WakeInv := by
  have hptr : ∀ q, ∀ k ∈ a'.children q, a'.ptrPcb k = a.ptrPcb k := fun q k hk =>
    h.ptrPcb k (hK.used q k (h.children q hk)).2
  constructor
  · intro q k hk
    rw [hptr q k hk, h.initPcb]
    exact hW.proper q k (h.children q hk)
  · intro w k hk hz hawaits
    rw [hptr w k hk] at hz
    rw [hptr w k hk, h.pid] at hawaits
    exact hW.awake w k (h.children w hk) (h.zombie _ hz) (h.awaits _ _ hawaits)

/-- Blocked processes stay blocked, or not. -/
theorem awaits_of_waiting (hP : a.ProcInv) (hP' : a'.ProcInv)
    (hwaiting : a'.procs .waiting ⊆ a.procs .waiting) (hnum : a'.syscallNum = a.syscallNum)
    (hargs : a'.syscallArgs = a.syscallArgs) {n : Int} (h : a'.awaits w n) : a.awaits w n := by
  rw [awaits_iff] at h ⊢
  rw [← hnum, ← hargs]
  exact ⟨(hP.waiting w).2 (hwaiting ((hP'.waiting w).1 h.1)), h.2⟩

/-! ## Scheduling and resources -/

/-- The calls on resources make nobody a zombie and block nobody. -/
theorem SameProcesses.fewer (h : SameProcesses a r a') : Fewer a a' := by
  refine ⟨h.pid, h.initPcb, h.ptrPcb, fun q => ?_, fun x hx => ?_, fun w n hw => ?_⟩
  · rw [h.children]
    exact List.Subset.refl _
  · rwa [h.status] at hx
  · rw [awaits_iff] at hw ⊢
    rwa [h.status, h.syscallNum, h.syscallArgs] at hw

theorem Wakes.zombie_of {woken : List Addr} (h : Wakes woken a a') (hx : a'.status x = .zombie) :
    a.status x = .zombie := by
  induction h with
  | stop _ => exact hx
  | @wake woken a a' t ts rest _ _ _ _ ih =>
      have hx' : Function.update a.status (a.timerPcb t) .ready x = .zombie := ih hx
      rw [Function.update_apply] at hx'
      split at hx'
      · cases hx'
      · exact hx'

/-- The scheduler makes nobody a zombie and blocks nobody in `wait`. -/
theorem ScheduleStep.fewer (h : ScheduleStep a a') (hP : a.ProcInv) (hP' : a'.ProcInv) :
    Fewer a a' := by
  have hsame := h.sameFamilies
  refine ⟨hsame.pid, hsame.initPcb, hsame.ptrPcb, fun q => ?_, fun x hx => ?_, fun w n hw => ?_⟩
  · rw [hsame.children]
    exact List.Subset.refl _
  · cases h with
    | idle hwakes _ => exact hwakes.zombie_of hx
    | @switch a₁ r next rest hwakes _ _ =>
        apply hwakes.zombie_of
        have hx' : Function.update (Function.update a₁.status r .ready) next .running x =
          .zombie := hx
        simp only [Function.update_apply] at hx'
        split at hx'
        · cases hx'
        · split at hx'
          · cases hx'
          · exact hx'
  · have hwaiting := h.waiting_subset
    obtain ⟨_, _, _, _, _, _, rfl⟩ := h.eq
    exact awaits_of_waiting hP hP' hwaiting rfl rfl hw

/-- A process that goes to sleep does not wait for a child. -/
theorem SleepStep.fewer (h : SleepStep a r a') (hnum : a.syscallNum r = dsosCallSleep) :
    Fewer a a' := by
  have hsame := h.sameFamilies
  have hstatus : a'.status = a.status ∨ a'.status = Function.update a.status r .waiting := by
    cases h with
    | refused _ => exact Or.inl rfl
    | switch _ _ _ _ _ => exact Or.inr rfl
    | idle _ _ _ _ _ => exact Or.inr rfl
  have hx : ∀ x t, x ≠ r ∨ t ≠ .waiting → a'.status x = t → a.status x = t := by
    intro x t hxt hx
    rcases hstatus with heq | heq
    · rwa [heq] at hx
    · rw [heq, Function.update_apply] at hx
      split at hx
      · rename_i hxr
        exact absurd hx.symm (hxt.resolve_left fun hne => hne hxr)
      · exact hx
  refine ⟨hsame.pid, hsame.initPcb, hsame.ptrPcb, fun q => ?_, fun x hx' => ?_, fun w n hw => ?_⟩
  · rw [hsame.children]
    exact List.Subset.refl _
  · exact hx x .zombie (Or.inr nofun) hx'
  · obtain ⟨_, _, _, _, _, _, _, _, rfl⟩ := h.eq
    rw [awaits_iff] at hw ⊢
    have hne : w ≠ r := by
      rintro rfl
      exact absurd (hnum.symm.trans hw.2.1) (by decide)
    exact ⟨hx w .waiting (Or.inl hne) hw.1, hw.2⟩

/-! ## Creation -/

/-- A new child is no zombie, so its parent does not miss it. -/
theorem CreateStep.wakeInv (h : CreateStep a r a') (hW : a.WakeInv) (hP : a.ProcInv)
    (hK : a.KidInv) (hr : a.running = some r) : a'.WakeInv := by
  cases h with
  | @created x e xs es hfree hptr =>
      have hx : ¬ a.Used x := hP.free_fresh (by rw [hfree]; exact List.mem_cons_self)
      have hxr : x ≠ r := fun heq => hx (heq ▸ Or.inl hr)
      have hxi : a.initPcb ≠ some x := by
        obtain ⟨i, hi, -, halive⟩ := hP.init
        rw [hi]
        rintro ⟨⟩
        exact hx halive.used
      have hxw : a.status x ≠ .waiting := fun heq => hx (Used.of_mem ((hP.waiting x).1 heq))
      have hnew : (a.create r x e xs es).ptrPcb e = x := Function.update_self ..
      have hmem : ∀ q, ∀ k ∈ (a.create r x e xs es).children q,
          (q ≠ x ∧ k ∈ a.children q ∧ (a.create r x e xs es).ptrPcb k = a.ptrPcb k) ∨
            (q = r ∧ (a.create r x e xs es).ptrPcb k = x) := by
        intro q k hk
        have hold : k ∈ a.children q → (a.create r x e xs es).ptrPcb k = a.ptrPcb k := fun hk =>
          Function.update_of_ne (show k ≠ e from fun heq => (hK.used q k hk).2 (by
            rw [hptr, heq]
            exact List.mem_cons_self)) ..
        replace hk : k ∈ Function.update (Function.update a.children x []) r
          (a.children r ++ [e]) q := hk
        by_cases hqr : q = r
        · subst hqr
          rw [Function.update_self, List.mem_append, List.mem_singleton] at hk
          rcases hk with hk | rfl
          · exact Or.inl ⟨hxr.symm, hk, hold hk⟩
          · exact Or.inr ⟨rfl, hnew⟩
        · rw [Function.update_of_ne hqr] at hk
          by_cases hqx : q = x
          · rw [hqx, Function.update_self] at hk
            exact absurd hk List.not_mem_nil
          · rw [Function.update_of_ne hqx] at hk
            exact Or.inl ⟨hqx, hk, hold hk⟩
      constructor
      · intro q k hk
        rcases hmem q k hk with ⟨-, hk, heq⟩ | ⟨rfl, heq⟩
        · rw [heq]
          exact hW.proper q k hk
        · rw [heq]
          exact ⟨hxr, hxi⟩
      · intro w k hk hz hawaits
        have hstatus : ∀ y, y ≠ x → (a.create r x e xs es).status y = a.status y := fun y hy =>
          Function.update_of_ne hy ..
        have hne : (a.create r x e xs es).ptrPcb k ≠ x := by
          intro heq
          rw [heq] at hz
          replace hz : Function.update a.status x .ready x = .zombie := hz
          rw [Function.update_self] at hz
          cases hz
        rcases hmem w k hk with ⟨hwx, hk, heq⟩ | ⟨-, heq⟩
        · rw [heq] at hz hawaits hne
          have hpid : (a.create r x e xs es).pid (a.ptrPcb k) = a.pid (a.ptrPcb k) :=
            Function.update_of_ne hne ..
          rw [hstatus _ hne] at hz
          rw [hpid, awaits_iff, hstatus _ hwx] at hawaits
          exact hW.awake w k hk hz (awaits_iff.2 hawaits)
        · exact hne heq

/-! ## Waiting -/

/-- If the scan of `wait` stops at no zombie, then there is no zombie to wait for. -/
theorem no_zombie_of_awaited {n : Int} {e : Addr} (he : a.awaited r n = some e)
    (hz : a.status (a.ptrPcb e) ≠ .zombie) (hsafe : n ≠ 0 → a.WaitSafe a.children r n) :
    ∀ k ∈ a.children r, a.status (a.ptrPcb k) = .zombie →
      ¬ (n = 0 ∨ n = a.pid (a.ptrPcb k)) := by
  intro k hk hzk hmatch
  unfold awaited at he
  by_cases hn : n = 0
  · subst hn
    simp only [true_and, ne_eq, not_true_eq_false, false_and, or_false] at he
    cases hf : (a.children r).find? fun e => decide (a.status (a.ptrPcb e) = .zombie) with
    | none => simpa [hzk] using List.find?_eq_none.1 hf k hk
    | some e' =>
        rw [hf, Option.some_or] at he
        obtain rfl := Option.some.inj he
        exact hz (by simpa using List.find?_some hf)
  · simp only [hn, false_and, ne_eq, not_false_eq_true, true_and, false_or] at he hmatch
    cases hf : (a.children r).find? fun e => decide (a.pid (a.ptrPcb e) = n) with
    | none => simpa [← hmatch] using List.find?_eq_none.1 hf k hk
    | some e' =>
        rw [hf, Option.some_or] at he
        obtain rfl := Option.some.inj he
        exact hz (hsafe hn k hk hmatch.symm hzk e' hf)

/-- A process blocks in `wait` only while none of the children it waits for is a zombie. -/
theorem WaitStep.wakeInv (h : WaitStep a r a') (hW : a.WakeInv) (hK : a.KidInv)
    (hsafe : wrapInt (a.syscallArgs r 0) ≠ 0 →
      a.WaitSafe a.children r (wrapInt (a.syscallArgs r 0)))
    (harg : wrapInt (a.syscallArgs r 0) = a.syscallArgs r 0) : a'.WakeInv := by
  cases h with
  | noChildren _ => exact { hW with }
  | @reap e _ _ =>
      refine hW.fewer ?_ hK
      rw [reap_eq]
      refine ⟨rfl, rfl, fun _ _ => rfl, fun q k hk => ?_, fun _ hx => hx, fun _ _ hw => hw⟩
      exact ChildLists.mem_of_mem_remove hk
  | @block e next rest he hz _ =>
      refine ⟨hW.proper, fun w k hk hzk hawaits => ?_⟩
      have hzk' : a.status (a.ptrPcb k) = .zombie := by
        have hzk₁ : Function.update a.status r .waiting (a.ptrPcb k) = .zombie := hzk
        rw [Function.update_apply] at hzk₁
        split at hzk₁
        · cases hzk₁
        · exact hzk₁
      by_cases hwr : w = r
      · subst hwr
        obtain ⟨-, -, hpid⟩ := awaits_iff.1 hawaits
        rw [show (a.block w next rest).syscallArgs w 0 = a.syscallArgs w 0 from rfl, ← harg] at hpid
        exact no_zombie_of_awaited he hz hsafe k hk hzk' hpid
      · have hawaits' : a.awaits w (a.pid (a.ptrPcb k)) := by
          rw [awaits_iff] at hawaits ⊢
          exact ⟨(Function.update_of_ne hwr ..).symm.trans hawaits.1, hawaits.2⟩
        exact hW.awake w k hk hzk' hawaits'

/-! ## Leaving -/

/-- The state after `r` has left, as far as it matters here. -/
structure LeftBy (a : Model) (r init : Addr) (a' : Model) : Prop where
  pid : a'.pid = a.pid
  initPcb : a'.initPcb = a.initPcb
  ptrPcb : a'.ptrPcb = a.ptrPcb
  children : ∀ q, ∀ k ∈ a'.children q,
    q ≠ r ∧ (k ∈ a.children q ∨ (q = init ∧ k ∈ a.children r))
  zombie : ∀ x, a'.status x = .zombie → x = r ∨ a.status x = .zombie
  awaits : ∀ w n, a'.awaits w n → a.awaits w n
  notWoken : ∀ w n, a'.awaits w n → a.parent r = some w → ¬ a.awaits w (a.pid r)

/-- A process that leaves keeps the invariant if nobody waits in vain for it or for its children. -/
theorem WakeInv.leftBy {init : Addr} (hW : a.WakeInv) (h : LeftBy a r init a') (hP : a.ProcInv)
    (hinit : a.initPcb = some init) (hsafe : a.ExitSafe (a.procs .waiting) a.children r) :
    a'.WakeInv := by
  constructor
  · intro q k hk
    rw [h.ptrPcb, h.initPcb]
    obtain ⟨-, hk | ⟨rfl, hk⟩⟩ := h.children q k hk
    · exact hW.proper q k hk
    · have hne := (hW.proper r k hk).2
      exact ⟨fun heq => hne (by rw [hinit, heq]), hne⟩
  · intro w k hk hz hawaits
    rw [h.ptrPcb] at hz hawaits
    rw [h.pid] at hawaits
    have hwaits := h.awaits w _ hawaits
    have hnot := h.notWoken w _ hawaits
    obtain ⟨-, hk | ⟨rfl, hk⟩⟩ := h.children w k hk
    · rcases h.zombie _ hz with heq | hz
      · rw [heq] at hwaits
        exact hnot (hsafe.parent w (hP.awaits_waiting hwaits).1 k hk heq hwaits) hwaits
      · exact hW.awake w k hk hz hwaits
    · rcases h.zombie _ hz with heq | hz
      · exact (hW.proper r k hk).1 heq
      · obtain ⟨hparent, hpid⟩ := hsafe.init w hinit k hk hz hwaits
        exact hnot hparent hpid

/-- A process whose parent waits for it leaves, and the parent does not wait any more. -/
theorem leftBy_handOver {init parent e : Addr} (hP : a.ProcInv) (hr : a.running = some r)
    (hne : r ≠ init) (hparent : a.parent r = some parent) :
    LeftBy a r init ((a.leave r init parent).handOver r parent e) := by
  obtain ⟨_, _, _, _, heq⟩ := exit_handOver_eq init parent e ((hP.running_fresh hr).1 .zombie)
  have hrun : ∀ w n, a.awaits w n → w ≠ r := by
    rintro w n hw rfl
    exact (hP.running_fresh hr).1 .waiting (hP.awaits_waiting hw).1
  have hawaits : ∀ w n, ((a.leave r init parent).handOver r parent e).awaits w n →
      w ≠ parent ∧ w ≠ r ∧ a.awaits w n := by
    intro w n hw
    rw [heq, awaits_iff] at hw
    obtain ⟨hstatus, hrest⟩ := hw
    simp only [leave, Function.update_apply] at hstatus
    split at hstatus
    · cases hstatus
    · rename_i hwp
      split at hstatus
      · cases hstatus
      · rename_i hwr
        exact ⟨hwp, hwr, awaits_iff.2 ⟨hstatus, hrest⟩⟩
  refine ⟨by rw [heq]; rfl, by rw [heq]; rfl, by rw [heq]; rfl, fun q k hk => ?_, fun x hx => ?_,
    fun w n hw => (hawaits w n hw).2.2, fun w n hw hpw => ?_⟩
  · rw [heq] at hk
    apply (mem_leave_children parent hne).1
    exact ChildLists.mem_of_mem_remove hk
  · rw [heq] at hx
    simp only [leave, Function.update_apply] at hx
    split at hx
    · cases hx
    · split at hx
      · rename_i hxr
        exact Or.inl hxr
      · exact Or.inr hx
  -- the parent is running now, so it awaits nobody
  · exact absurd (Option.some.inj (hpw.symm.trans hparent)) (hawaits w n hw).1

/-- A process that nobody waits for leaves as a zombie. -/
theorem leftBy_retire {init parent next : Addr} {rest : List Addr} (hne : r ≠ init)
    (hparent : a.parent r = some parent) (hawaits : ¬ a.awaits parent (a.pid r)) :
    LeftBy a r init ((a.leave r init parent).retire next rest) := by
  refine ⟨rfl, rfl, rfl, fun q k hk => (mem_leave_children parent hne).1 hk, fun x hx => ?_,
    fun w n hw => ?_, fun w n hw hpw => ?_⟩
  · replace hx : Function.update (Function.update a.status r .zombie) next .running x = .zombie := hx
    simp only [Function.update_apply] at hx
    split at hx
    · cases hx
    · split at hx
      · rename_i hxr
        exact Or.inl hxr
      · exact Or.inr hx
  · rw [awaits_iff] at hw ⊢
    obtain ⟨hstatus, hrest⟩ := hw
    replace hstatus : Function.update (Function.update a.status r .zombie) next .running w =
      .waiting := hstatus
    simp only [Function.update_apply] at hstatus
    split at hstatus
    · cases hstatus
    · split at hstatus
      · cases hstatus
      · exact ⟨hstatus, hrest⟩
  · rw [Option.some.inj (hpw.symm.trans hparent)]
    exact hawaits

/-- `exit` keeps the invariant if nobody waits in vain for the caller or for its children. -/
theorem ExitStep.wakeInv (h : ExitStep a r a') (hW : a.WakeInv) (hP : a.ProcInv)
    (hr : a.running = some r) (hsafe : a.ExitSafe (a.procs .waiting) a.children r) :
    a'.WakeInv := by
  cases h with
  | wakeParent hinit hne hparent _ _ =>
      exact hW.leftBy (leftBy_handOver hP hr hne hparent) hP hinit hsafe
  | retire hinit hne hparent hawaits _ =>
      exact hW.leftBy (leftBy_retire hne hparent hawaits) hP hinit hsafe

/-- A process that waits for `r`, and has it on its list, is woken when `r` leaves. -/
theorem ExitStep.woken (h : ExitStep a r a') (hP : a.ProcInv)
    (hsafe : a.ExitSafe (a.procs .waiting) a.children r) {k : Addr} (hk : k ∈ a.children w)
    (hptr : a.ptrPcb k = r) (hawaits : a.awaits w (a.pid r)) : a'.running = some w := by
  have hparent := hsafe.parent w (hP.awaits_waiting hawaits).1 k hk hptr hawaits
  cases h with
  | @wakeParent init parent e _ _ hp _ _ =>
      obtain ⟨_, _, _, _, heq⟩ := handOver_eq (a.leave r init parent) r parent e
      rw [heq, Option.some.inj (hparent.symm.trans hp)]
  | retire _ _ hp hnot _ =>
      rw [← Option.some.inj (hparent.symm.trans hp)] at hnot
      exact absurd hawaits hnot

/-! ## The system -/

theorem exitSafe_enter (hsafe : a.ExitSafe (a.procs .waiting) a.children r) (hP : a.ProcInv)
    (hr : a.running = some r) : (a.enter r c).ExitSafe (a.procs .waiting) a.children r := by
  refine ⟨fun w hw k hk hptr h => hsafe.parent w hw k hk hptr ((awaits_enter hP hr).1 h),
    fun i hi k hk hz h => ?_⟩
  exact (hsafe.init i hi k hk hz ((awaits_enter hP hr).1 h)).imp id (awaits_enter hP hr).2

theorem wakeupSafe_enter (hsafe : a.WakeupSafe (a.procs .waiting) a.children (.syscall c))
    (hP : a.ProcInv) (hr : a.running = some r) :
    (a.enter r c).WakeupSafe (a.procs .waiting) a.children (.syscall c) := by
  cases c with
  | exit v =>
      intro r' hr'
      obtain rfl : r = r' := Option.some.inj (hr.symm.trans hr')
      exact exitSafe_enter (hsafe r hr) hP hr
  | wait p result => exact hsafe
  | _ => trivial

/-- A call that meets the condition lets no parent wait for a zombie. -/
theorem HandlerStep.wakeInv (h : HandlerStep clean a r c a') (hW : a.WakeInv) (hI : a.Inv)
    (hI' : a'.Inv) (hr : a.running = some r) (hnum : a.syscallNum r = c.num)
    (hargs : ∀ i, i < c.args.length → a.syscallArgs r i = c.args.getD i 0)
    (hsafe : a.WakeupSafe (a.procs .waiting) a.children (.syscall c)) : a'.WakeInv := by
  cases hp : c.onProcesses with
  | false => exact hW.fewer (h.sameProcesses hp).fewer hI.kid
  | true =>
      cases h with
      | preempt h => exact hW.fewer (h.fewer hI.proc hI'.proc) hI.kid
      | fork h => exact h.wakeInv hW hI.proc hI.kid hr
      | spawn h => exact h.wakeInv hW hI.proc hI.kid hr
      | @wait p result _ h =>
          have harg : a.syscallArgs r 0 = p.toInt := hargs 0 (by simp [Syscall.args])
          refine h.wakeInv hW hI.kid ?_ (by rw [harg, wrapInt_toInt])
          rw [harg, wrapInt_toInt]
          exact hsafe r hr
      | exit h => exact h.wakeInv hW hI.proc hr (hsafe r hr)
      | sleep h => exact hW.fewer (h.fewer hnum) hI.kid
      | shutdown => exact { hW with }
      | _ => cases hp

/-- A transition that meets the condition keeps the invariant. -/
theorem Step.wakeInv (h : Step clean a act a') (hW : a.WakeInv) (hI : a.Inv) (hI' : a'.Inv)
    (hsafe : a.WakeupSafe (a.procs .waiting) a.children act) : a'.WakeInv := by
  cases h with
  | tick _ hs =>
      have hI₁ : { a with time := wrapInt (a.time + 1) }.ProcInv := { hI.proc with }
      exact WakeInv.fewer (a := { a with time := wrapInt (a.time + 1) }) { hW with }
        (hs.fewer hI₁ hI'.proc) { hI.kid with }
  | @syscall r c _ hr hs =>
      have hW₁ : (a.enter r c).WakeInv :=
        ⟨hW.proper, fun w k hk hz h => hW.awake w k hk hz ((awaits_enter hI.proc hr).1 h)⟩
      exact hs.wakeInv hW₁ (hI.enter hr c) hI' hr (Function.update_self ..)
        (fun i hi => enter_args a r c hi) (wakeupSafe_enter hsafe hI.proc hr)
  | store _ => exact { hW with }

end Model

end DisastrOS
