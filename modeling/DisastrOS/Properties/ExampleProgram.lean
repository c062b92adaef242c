import DisastrOS.Properties.CrewInit
import DisastrOS.Properties.OpenFailures
import DisastrOS.Properties.ProcessTable
import DisastrOS.Properties.Progress

/-!
# `disastrOS_test_mq.c`: no assertion fails and every call completes

Whenever the timer interrupts the processes of the example program, the running one can go on: its
next call is not one after a failed assertion, and it completes. When `init` has stopped waiting,
all clients have left and have been collected, but the queues are still there.

What the processes print in between is not part of this. `disastrOS_printStatus` reads the tables of
the kernel while the timer may fire: `print_mq` loads `writing_pid` a second time after its test,
and uses a null pointer if its holder has closed the queue in the meantime.
-/

set_option autoImplicit false

namespace DisastrOS

open Runs Model

variable {es : List (Event Kernel Action)} {e : Event Kernel Action} {s : Kernel} {a a' : Model}
  {L : Layout} {t t' : TestMq} {ps : List Addr} {p r : Addr} {x : Process} {pt : InitPoint}

/-! ## Runs -/

/-- The program goes on in an event. -/
theorem Crew.next (hC : Crew L t ps pt a) (h : Simulated exceptZombies e a a')
    (hnext : t.next L e = some t') : ∃ ps' pt', Crew L t' ps' pt' a' := by
  cases TestMq.next_moves hnext with
  | quiet hno => exact ⟨ps, pt, hC.quiet h hno⟩
  | @calls r x x' c memory hact hr hx hout =>
      rcases Process.caller hout with ⟨pt₁, rfl⟩ | ⟨args, mode, ph, ph', hcl, hcall⟩
      · obtain ⟨rfl, rfl⟩ := hC.init_process hx
        exact hC.init_next h hact hr hout
      · rw [TestMq.started_eq hcall.creates]
        exact ⟨ps, pt, hC.client_goes h hact hr hx hcl hout⟩

theorem Crew.start (chars : Int → UInt8) (ints : Int → Int) :
    Crew L TestMq.start [0] .started (Model.start chars ints) := by
  have hprocess : ∀ p x, TestMq.start.process p = some x → p = 0 ∧ x = .init .started := by
    intro p x hx
    by_cases hp : p = 0
    · subst hp
      exact ⟨rfl, (Option.some.inj hx).symm⟩
    · simp [TestMq.start, hp] at hx
  refine ⟨⟨List.nodup_singleton 0, fun p => ?_, fun k p hk => ?_, fun p x hx => ?_⟩, rfl, rfl,
    fun p hp => List.mem_singleton.2 (Model.start_used hp), fun _ p hp => ?_, ?_,
    Model.start_families chars ints, ?_, fun q mode hset => ?_, fun p x hx => ?_⟩
  · by_cases hp : p = 0 <;> simp [TestMq.start, hp]
  · rcases k with _ | k
    · obtain rfl : 0 = p := Option.some.inj hk
      exact ⟨_, .init, rfl, rfl, _, rfl⟩
    · cases hk
  · obtain ⟨-, rfl⟩ := hprocess p x hx
    trivial
  · rw [List.mem_singleton.1 hp]
    exact Or.inl rfl
  · exact ⟨rfl, fun q _ => Model.start_children chars ints q,
      fun p hp hne => absurd (Model.start_used hp) hne⟩
  · have hlength : ∀ (n : Nat) (size : Int), (allBlocks n size).length = n := allBlocks_length
    refine HasFree.mono (n := 1023) ⟨?_, ?_, ?_, ?_, ?_, ?_⟩ (by omega)
    · show 1023 ≤ (allBlocks maxNumProcesses sizeofPCB).tail.length
      rw [List.length_tail, hlength]
      decide
    all_goals
      show 1023 ≤ (allBlocks _ _).length
      rw [hlength]
      decide
  · exact absurd (Model.start_registration chars ints q mode) hset
  · obtain ⟨rfl, rfl⟩ := hprocess p x hx
    refine InitStanding.standing ⟨Or.inl rfl, fun j hj => absurd hj (Nat.not_lt_zero j),
      fun j hj => absurd hj (Nat.not_lt_zero j), fun res hres => ?_, rfl, Or.inl rfl, ?_, ?_⟩
    · exact absurd hres List.not_mem_nil
    · rw [Model.start_children]
      rfl
    · intro i hi
      cases hi

/-- The processes other than `init` have been created after the one that only prints. -/
theorem Crew.sleeper (hC : Crew L t ps pt a) (hps : 2 ≤ ps.length) :
    ∃ p, t.process p = some .sleeper ∧ a.Awake p := by
  obtain ⟨x, ρ, hx, hρ, hplays⟩ := hC.cast.roles 1 ps[1] (List.getElem?_eq_getElem hps)
  obtain rfl : Role.sleeper = ρ := Option.some.inj hρ
  obtain rfl : x = .sleeper := hplays
  exact ⟨ps[1], hx, (hC.standing _ _ hx).sleeper rfl⟩

/-- What holds of a state of the kernel in a run of the program. -/
structure Steady (L : Layout) (t : TestMq) (a : Model) : Prop where
  running : a.running ≠ none
  crew : ∃ ps pt, Crew L t ps pt a
  down : a.shutdownNow = true → t.process 0 = some (.init .shutdown)

/-- The block `p` belongs to a client that opens queue number `i` for this mode. -/
def TestMq.HasClient (L : Layout) (t : TestMq) (p : Addr) (i : Nat) (mode : Int) (ph : Phase) :
    Prop := ∃ x, t.process p = some x ∧ x.client = some (L.resource i, mode, ph)

/-- When the clients have been created there is one for each queue and mode. -/
theorem Crew.exists_client (hC : Crew L t ps pt a) (hps : ps.length = 6) {i : Nat} {mode : Int}
    (hi : i < 2) (hmode : Exclusive mode) : ∃ p ph, t.HasClient L p i mode ph := by
  have hrole : ∃ k < 6, Role.all[k]? = some (.client i mode) := by
    rcases hmode with rfl | rfl <;> rcases i with _ | _ | i
    · exact ⟨3, by decide, rfl⟩
    · exact ⟨5, by decide, rfl⟩
    · omega
    · exact ⟨2, by decide, rfl⟩
    · exact ⟨4, by decide, rfl⟩
    · omega
  obtain ⟨k, hk, hρ⟩ := hrole
  obtain ⟨x, ρ, hx, hρ', hplays⟩ := hC.cast.roles k _ (List.getElem?_eq_getElem (hps ▸ hk))
  obtain rfl := Option.some.inj (hρ.symm.trans hρ')
  obtain ⟨ph, hcl⟩ := hplays
  exact ⟨_, ph, x, hx, hcl⟩

/-- When one entry is left it is that of the process that only prints, and all clients have left. -/
theorem Crew.all_left (hC : Crew L t ps pt a) (hps : 2 ≤ ps.length)
    (hlen : (a.children 0).length = 1) (hx : t.process p = some x) {args mode : Int} {ph : Phase}
    (hcl : x.client = some (args, mode, ph)) : ph = .exited ∧ ¬ a.Used p := by
  have hne0 := hC.client_ne_init hx hcl
  have hunused : ¬ a.Used p := by
    intro hused
    obtain ⟨s, hs, hawake⟩ := hC.sleeper hps
    have hs0 : s ≠ 0 := by
      rintro rfl
      cases hs.symm.trans hC.init
    obtain ⟨e, he, hep⟩ := hC.oneParent.entry hC.families.lists hused hne0
    obtain ⟨f, hf, hfs⟩ := hC.oneParent.entry hC.families.lists hawake.alive.used hs0
    obtain ⟨k, hk⟩ := List.length_eq_one_iff.1 hlen
    rw [hk, List.mem_singleton] at he hf
    obtain rfl : p = s := by rw [← hep, ← hfs, he, hf]
    obtain rfl := Option.some.inj (hx.symm.trans hs)
    cases hcl
  obtain ⟨i, q, rfl, -, -, -, hclient⟩ := hC.client hx hcl
  refine ⟨?_, hunused⟩
  by_contra hph
  exact hunused (hclient.alive_iff.2 hph).used

/-- All four clients have exited and their PCBs are free, but both queues are still there. -/
structure Ended (L : Layout) (t : TestMq) (s : Kernel) : Prop where
  clients : ∀ i < 2, ∀ mode, Exclusive mode → ∃ p, t.HasClient L p i mode .exited
  freed : ∀ p i mode ph, t.HasClient L p i mode ph → ¬ s.pcbAllocator.handedOut p
  queues : ∀ i : Nat, i < 2 → ∃ q, s.resourceListById i = .ok (some (.mq q))

/-- After the shutdown all clients have run to their end and have been collected; the two queues
have not been destroyed. -/
theorem Steady.ended (h : Steady L t a) (hR : Refines exceptZombies s a) (hI : a.Inv)
    (hdown : s.shutdownNow = true) : Ended L t s := by
  obtain ⟨-, ⟨ps, pt, hC⟩, hlast⟩ := h
  obtain ⟨-, rfl⟩ := hC.init_process (hlast (by rw [← hdown, hR.data]))
  have hps : ps.length = 6 := hC.created
  have hS := hC.initStanding
  have hleft : ∀ p i mode ph, t.HasClient L p i mode ph → ph = .exited ∧ ¬ a.Used p := by
    rintro p i mode ph ⟨x, hx, hcl⟩
    exact hC.all_left (by omega) hS.turn.2.1 hx hcl
  refine ⟨fun i hi mode hmode => ?_, fun p i mode ph hp => ?_, fun i hi => ?_⟩
  · obtain ⟨p, ph, hp⟩ := hC.exists_client hps hi hmode
    obtain ⟨rfl, -⟩ := hleft p i mode ph hp
    exact ⟨p, hp⟩
  · rw [hR.handedOut_iff_used hI.proc]
    exact (hleft p i mode ph hp).2
  · obtain ⟨q, hq⟩ := hS.queues i hi
    exact ⟨q, by rw [hR.resourceListById_eq hI.res, hq.byId hI]⟩

/-- The functions, the array `resources` and the buffers at fixed addresses. -/
def Layout.sample : Layout where
  sleeperFunction := 1
  readChildFunction := 2
  writeChildFunction := 3
  resources := 1000
  retval := 2000
  message _ := 4096
  sleeper_ne_read := by decide
  sleeper_ne_write := by decide
  read_ne_write := by decide
  message_ne_null _ := by decide

end DisastrOS
