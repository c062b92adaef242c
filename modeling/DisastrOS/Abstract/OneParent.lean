import DisastrOS.Abstract.Families
import DisastrOS.Abstract.Waiting

/-!
# Programs in which one process creates all others

If only the first process creates processes, it is the parent of all others and the only one with a
children list. Its list then grows with every process that is created, and shrinks by one entry with
every process that is collected.
-/

set_option autoImplicit false

namespace DisastrOS

namespace Model

variable {clean : Addr → Prop} {a a' : Model} {r i e parent init : Addr} {c : Syscall}
  {act : Action}

/-- The first process is `i`, and all others are its children. -/
structure OneParent (a : Model) (i : Addr) : Prop where
  init : a.initPcb = some i
  children : ∀ q, q ≠ i → a.children q = []
  parent : ∀ p, a.Used p → p ≠ i → a.parent p = some i

/-! ## Steps -/

theorem OneParent.noneNew (hO : a.OneParent i) (h : NoneNew a a')
    (hchildren : ∀ q, q ≠ i → a'.children q = []) : a'.OneParent i where
  init := h.initPcb.trans hO.init
  children := hchildren
  parent p hp hpi := by
    rw [h.parent]
    exact hO.parent p (h.used p hp) hpi

theorem OneParent.same (hO : a.OneParent i) (h : SameFamilies a a') (hP : a.ProcInv)
    (hP' : a'.ProcInv) : a'.OneParent i :=
  hO.noneNew (h.noneNew hP hP') fun q hq => by rw [h.children, hO.children q hq]

theorem OneParent.create (hO : a.OneParent i) (h : CreateStep a i a') (hP : a.ProcInv)
    (hP' : a'.ProcInv) : a'.OneParent i := by
  cases h with
  | @created x e xs es hfree hptr =>
      refine ⟨hO.init, fun q hq => ?_, fun p hp hpi => ?_⟩
      · show Function.update (Function.update a.children x []) i _ q = []
        rw [Function.update_of_ne hq]
        by_cases hqx : q = x
        · rw [hqx, Function.update_self]
        · rw [Function.update_of_ne hqx, hO.children q hq]
      · show Function.update a.parent x (some i) p = some i
        by_cases hpx : p = x
        · rw [hpx, Function.update_self]
        · rw [Function.update_of_ne hpx]
          exact hO.parent p (((used_create hP hP' hfree).1 hp).resolve_right hpx) hpi

/-- The children lists after the running process has left. -/
theorem OneParent.leave_children (hO : a.OneParent i) (hne : r ≠ i) (parent : Addr) :
    (a.leave r i parent).children = a.children := by
  funext q
  show Function.update (Function.update a.children i (a.children i ++ a.children r)) r [] q = _
  by_cases hqr : q = r
  · rw [hqr, Function.update_self, hO.children r hne]
  · rw [Function.update_of_ne hqr, hO.children r hne, List.append_nil, Function.update_eq_self]

/-- An `exit` wakes the first process, which loses an entry, or leaves the children lists alone. -/
theorem OneParent.exit_cases (hO : a.OneParent i) (h : ExitStep a r a') (hr : a.running = some r)
    (hP : a.ProcInv) :
    (¬ a.awaits i (a.pid r) ∧ a'.children = a.children) ∨
      (a.awaits i (a.pid r) ∧ a'.running = some i ∧ a'.syscallRetvalue i = a.pid r ∧
        ∃ e ∈ a.children i,
          a'.children = Function.update a.children i ((a.children i).erase e)) := by
  cases h with
  | @wakeParent init parent e hinit hne hparent hawaits hfind =>
      obtain rfl : init = i := Option.some.inj (hinit.symm.trans hO.init)
      obtain rfl : parent = init :=
        Option.some.inj (hparent.symm.trans (hO.parent r (Or.inl hr) hne))
      have hchildren := hO.leave_children hne parent
      obtain ⟨_, _, _, _, heq⟩ := exit_handOver_eq parent parent e ((hP.running_fresh hr).1 .zombie)
      rw [hchildren] at hfind heq
      refine Or.inr ⟨hawaits, by rw [heq], by rw [heq]; exact Function.update_self .., e,
        List.mem_of_find?_eq_some hfind, by rw [heq]⟩
  | @retire init parent next rest hinit hne hparent hawaits _ =>
      obtain rfl : init = i := Option.some.inj (hinit.symm.trans hO.init)
      obtain rfl : parent = init :=
        Option.some.inj (hparent.symm.trans (hO.parent r (Or.inl hr) hne))
      exact Or.inl ⟨hawaits, hO.leave_children hne parent⟩

theorem HandlerStep.oneParent (h : HandlerStep clean a r c a') (hO : a.OneParent i) (hI : a.Inv)
    (hI' : a'.Inv) (hr : a.running = some r) (hcreates : (Action.syscall c).creates → r = i) :
    a'.OneParent i := by
  cases hp : c.onProcesses with
  | false => exact hO.same (h.sameProcesses hp).sameFamilies hI.proc hI'.proc
  | true =>
      cases h with
      | preempt h => exact hO.same h.sameFamilies hI.proc hI'.proc
      | fork h | spawn h =>
          obtain rfl := hcreates rfl
          exact hO.create h hI.proc hI'.proc
      | wait h =>
          rcases h.families with hsame | ⟨e, he, -, rfl⟩
          · exact hO.same hsame hI.proc hI'.proc
          · refine hO.noneNew (h.noneNew hI.proc hI'.proc) fun q hq => ?_
            rw [reap_eq]
            show Function.update a.children r ((a.children r).erase e) q = []
            by_cases hqr : q = r
            · rw [hqr, Function.update_self, hO.children r (hqr ▸ hq), List.erase_nil]
            · rw [Function.update_of_ne hqr, hO.children q hq]
      | exit h =>
          refine hO.noneNew (h.noneNew hI.proc hI'.proc hr) fun q hq => ?_
          rcases hO.exit_cases h hr hI.proc with ⟨-, hsame⟩ | ⟨-, -, -, e, -, hsame⟩
          · rw [hsame, hO.children q hq]
          · rw [hsame, Function.update_of_ne hq, hO.children q hq]
      | sleep h => exact hO.same h.sameFamilies hI.proc hI'.proc
      | shutdown => exact { hO with }
      | _ => cases hp

/-- Nobody but `i` becomes a parent. -/
theorem Step.oneParent (h : Step clean a act a') (hO : a.OneParent i) (hI : a.Inv) (hI' : a'.Inv)
    (hcreates : act.creates → a.running = some i) : a'.OneParent i := by
  cases h with
  | tick _ hs =>
      have hsame : SameFamilies a a' := { hs.sameFamilies with }
      exact hO.same hsame hI.proc hI'.proc
  | @syscall r c _ hr hs =>
      refine hs.oneParent (hO.same (sameFamilies_enter a r c) hI.proc (hI.enter hr c).proc)
        (hI.enter hr c) hI' hr fun hc => Option.some.inj (hr.symm.trans (hcreates hc))
  | store _ => exact { hO with }

/-! ## Steps of the others -/

theorem OneParent.waits (hO : a.OneParent i) (h : WaitStep a r a') (hne : r ≠ i) :
    a' = a.answer r dsosEWait := by
  have hnil := hO.children r hne
  cases h with
  | noChildren _ => rfl
  | reap he _ | block he _ _ =>
      have hmem := mem_of_awaited he
      rw [hnil] at hmem
      cases hmem

/-- Without a call of `i` the children lists and the blocks in use stay as they are, unless `i` is
blocked and resumes. -/
theorem OneParent.others (hO : a.OneParent i) (h : Step clean a act a') (hI : a.Inv)
    (hcall : a.running = some i → ∀ c, act ≠ .syscall c) (hcreates : act.creates = false) :
    (a'.children = a.children ∧ a'.freePcbs = a.freePcbs) ∨
      (a.Blocked i ∧ a'.running = some i) := by
  cases h with
  | tick _ hs =>
      obtain ⟨_, _, _, _, _, _, rfl⟩ := hs.eq
      exact Or.inl ⟨rfl, rfl⟩
  | @syscall r c _ hr hs =>
      have hne : r ≠ i := fun heq => hcall (heq ▸ hr) c rfl
      have hO₁ : (a.enter r c).OneParent i := { hO with }
      have hI₁ := hI.enter hr c
      cases hp : c.onProcesses with
      | false => exact Or.inl ⟨(hs.sameProcesses hp).children, (hs.sameProcesses hp).freePcbs⟩
      | true =>
          cases hs with
          | preempt hs =>
              obtain ⟨_, _, _, _, _, _, rfl⟩ := hs.eq
              exact Or.inl ⟨rfl, rfl⟩
          | fork _ | spawn _ => cases hcreates
          | wait hs =>
              rw [hO₁.waits hs hne]
              exact Or.inl ⟨rfl, rfl⟩
          | exit hs =>
              rcases hO₁.exit_cases hs hr hI₁.proc with ⟨hno, hsame⟩ | ⟨hawaits, hrun, -⟩
              · refine Or.inl ⟨hsame, ?_⟩
                cases hs with
                | wakeParent hinit hri hparent hawaits _ =>
                    rw [hO₁.parent r (Or.inl hr) hne] at hparent
                    exact absurd (Option.some.inj hparent ▸ hawaits) hno
                | retire _ _ _ _ _ => rfl
              · have hawaits' := (awaits_enter hI.proc hr).1 hawaits
                obtain ⟨hstatus, hnum, -⟩ := awaits_iff.1 hawaits'
                exact Or.inr ⟨⟨(hI.proc.waiting i).1 hstatus, hnum⟩, hrun⟩
          | sleep hs =>
              obtain ⟨_, _, _, _, _, _, _, _, rfl⟩ := hs.eq
              exact Or.inl ⟨rfl, rfl⟩
          | shutdown => exact Or.inl ⟨rfl, rfl⟩
          | _ => cases hp
  | store _ => exact Or.inl ⟨rfl, rfl⟩

/-- When `i` resumes it has one entry less, and the pid of the process that has left. -/
theorem OneParent.resumed (hO : a.OneParent i) (h : Step clean a act a') (hI : a.Inv)
    (hw : a.Blocked i) (hrun : a'.running = some i) :
    (a'.children i).length + 1 = (a.children i).length ∧
      ∃ r, a.running = some r ∧ a'.syscallRetvalue i = a.pid r := by
  obtain ⟨r, hr, -, hret⟩ := h.resumed_answer hI hw hrun
  refine ⟨?_, r, hr, hret⟩
  cases h with
  | tick _ hs => exact absurd hrun (hs.not_resumed { hI.proc with } { hI.timer with } hw)
  | @syscall r' c _ hr' hs =>
      have hI₁ := hI.enter hr' c
      have hO₁ : (a.enter r' c).OneParent i := { hO with }
      have hne : i ≠ r' := fun heq => (hI.proc.running_fresh hr').1 .waiting (heq ▸ hw.1)
      have hw₁ : (a.enter r' c).Blocked i :=
        ⟨hw.1, (Function.update_of_ne hne ..).trans hw.2⟩
      obtain ⟨init, e, v, rfl, -, -, hparent, hawaits, -, -⟩ :=
        hs.resumed hI₁.proc hI₁.timer hw₁ hrun
      cases hs with
      | exit hs =>
          rcases hO₁.exit_cases hs hr' hI₁.proc with ⟨hno, -⟩ | ⟨-, -, -, e, he, hsame⟩
          · exact absurd hawaits hno
          · rw [hsame, Function.update_self, List.length_erase_of_mem he]
            exact Nat.sub_add_cancel (List.length_pos_of_mem he)
  | store _ => exact absurd hw.1 ((hI.proc.running_fresh hrun).1 .waiting)

/-! ## The entries of the parent -/

/-- Every other process has its entry on the list of `i`. -/
theorem OneParent.entry {x : Addr} (hO : a.OneParent i) (hF : a.FamInv) (hx : a.Used x)
    (hne : x ≠ i) : ∃ e ∈ a.children i, a.ptrPcb e = x := by
  obtain ⟨q, e, he, hex⟩ := hF.listed x hx fun hroot =>
    hne (Option.some.inj (hroot.symm.trans hO.init))
  by_cases hq : q = i
  · exact ⟨e, hq ▸ he, hex⟩
  · rw [hO.children q hq] at he
    cases he

end Model

end DisastrOS
