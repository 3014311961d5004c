import CSocket.Lib.Lts
import Mathlib.Data.List.Perm.Basic
/-!
# Threads, mutexes and condition variables

Any number of threads run one program: a map from positions to instructions
(`Instr`). A step is one instruction of one thread, so what a mutex makes atomic
is a result here and no assumption. `pthread_cond_wait` releases the mutex and
blocks at once, and takes the mutex back before it returns; a signal wakes
exactly one blocked thread if there is one; a blocked thread may also wake
spuriously.

`Discipline.exclusive`: mutual exclusion, from where the program says a mutex is
held. `Outline.assert`: assertions at positions, for threads that exclude each
other where they hold a common mutex.
-/
set_option linter.unusedSectionVars false

namespace Pthread

/-- What a thread does at a position, and where it goes on. -/
inductive Instr (Mx Cv Pc ι σ : Type) where
  | lock (m : Mx) (k : Pc)
  | unlock (m : Mx) (k : Pc)
  | wait (c : Cv) (m : Mx) (k : Pc)
  | signal (c : Cv) (k : Pc)
  | broadcast (c : Cv) (k : Pc)
  /-- A computation on the shared data by the thread of this number, on an input
  from outside. -/
  | data (f : Nat → ι → σ → σ × Pc)
  /-- A new thread starts at `child`; `f` gets its number. -/
  | create (f : Nat → σ → σ) (child k : Pc)
  | halt

inductive Status (Mx Cv Pc : Type) where
  | running (pc : Pc)
  | waiting (c : Cv) (m : Mx) (pc : Pc)
  /-- Woken, and not yet in possession of the mutex. -/
  | woken (m : Mx) (pc : Pc)
  deriving DecidableEq

structure State (Mx Cv Pc σ : Type) where
  threads : List (Status Mx Cv Pc)
  owner : Mx → Option Nat
  shared : σ

inductive Act (ι Pc : Type) where
  /-- Thread `t` goes on, with input `x`; if it signals, `w` is the one to wake. -/
  | run (t : Nat) (x : ι) (w : Nat)
  | spurious (t : Nat)
  /-- A thread from outside begins at a start position. -/
  | arrive (pc : Pc)
  deriving DecidableEq

section
variable {Mx Cv Pc ι σ : Type}

namespace Status

/-- Where the thread is, or will go on once it has the mutex. -/
def pc : Status Mx Cv Pc → Pc
  | running pc => pc
  | waiting _ _ pc => pc
  | woken _ pc => pc

@[simp] theorem pc_running (pc : Pc) : (running pc : Status Mx Cv Pc).pc = pc := rfl
@[simp] theorem pc_waiting (c : Cv) (m : Mx) (pc : Pc) : (waiting c m pc).pc = pc := rfl
@[simp] theorem pc_woken (m : Mx) (pc : Pc) : (woken m pc : Status Mx Cv Pc).pc = pc := rfl

def blocked : Status Mx Cv Pc → Bool
  | waiting _ _ _ => true
  | _ => false

variable [DecidableEq Cv]

def waitsOn (c : Cv) : Status Mx Cv Pc → Bool
  | waiting c' _ _ => c' = c
  | _ => false

def wake (c : Cv) : Status Mx Cv Pc → Status Mx Cv Pc
  | waiting c' m pc => if c' = c then woken m pc else waiting c' m pc
  | st => st

theorem wake_waiting (c c' : Cv) (m : Mx) (pc : Pc) :
    (waiting c' m pc).wake c = if c' = c then woken m pc else waiting c' m pc := rfl

@[simp] theorem pc_wake (c : Cv) (st : Status Mx Cv Pc) : (st.wake c).pc = st.pc := by
  cases st with
  | waiting c' m pc =>
    rw [wake_waiting]
    split <;> rfl
  | running => rfl
  | woken => rfl

theorem wake_eq_running {c : Cv} {st : Status Mx Cv Pc} {pc : Pc} : st.wake c = running pc ↔ st = running pc := by
  cases st with
  | waiting c' m pc =>
    rw [wake_waiting]
    split <;> simp
  | running => rfl
  | woken => rfl

theorem blocked_wake {c : Cv} {st : Status Mx Cv Pc} (h : st.blocked = false) : (st.wake c).blocked = false := by
  cases st with
  | waiting c' m pc => cases h
  | running => rfl
  | woken => rfl

end Status

variable [DecidableEq Mx] [DecidableEq Cv]

namespace State

def setThread (s : State Mx Cv Pc σ) (t : Nat) (st : Status Mx Cv Pc) : State Mx Cv Pc σ :=
  { s with threads := s.threads.set t st }

def setOwner (s : State Mx Cv Pc σ) (m : Mx) (o : Option Nat) : State Mx Cv Pc σ :=
  { s with owner := fun m' => if m' = m then o else s.owner m' }

@[simp] theorem setOwner_owner (s : State Mx Cv Pc σ) (m m' : Mx) (o : Option Nat) :
    (s.setOwner m o).owner m' = if m' = m then o else s.owner m' := rfl

@[simp] theorem setOwner_threads (s : State Mx Cv Pc σ) (m : Mx) (o : Option Nat) :
    (s.setOwner m o).threads = s.threads := rfl

@[simp] theorem setOwner_shared (s : State Mx Cv Pc σ) (m : Mx) (o : Option Nat) :
    (s.setOwner m o).shared = s.shared := rfl

def wakeAll (s : State Mx Cv Pc σ) (c : Cv) : State Mx Cv Pc σ := { s with threads := s.threads.map (Status.wake c) }

/-- Where the threads are. -/
def pcs (s : State Mx Cv Pc σ) : List Pc := s.threads.map Status.pc

theorem pcs_getElem? {s : State Mx Cv Pc σ} {t : Nat} {st : Status Mx Cv Pc} (h : s.threads[t]? = some st) :
    s.pcs[t]? = some st.pc := by
  simp [pcs, h]

theorem of_pcs_getElem? {s : State Mx Cv Pc σ} {t : Nat} {pc : Pc} (h : s.pcs[t]? = some pc) :
    ∃ st, s.threads[t]? = some st ∧ st.pc = pc := by
  rwa [pcs, List.getElem?_map, Option.map_eq_some_iff] at h

@[simp] theorem length_pcs (s : State Mx Cv Pc σ) : s.pcs.length = s.threads.length := List.length_map _

end State

variable (code : Pc → Instr Mx Cv Pc ι σ) (start : Pc → Bool)

/-- One instruction of thread `t`, which is at `pc`. -/
def exec (s : State Mx Cv Pc σ) (t : Nat) (x : ι) (w : Nat) (pc : Pc) : Option (State Mx Cv Pc σ) :=
  match code pc with
  | .lock m k => if s.owner m = none then some ((s.setOwner m (some t)).setThread t (.running k)) else none
  | .unlock m k => if s.owner m = some t then some ((s.setOwner m none).setThread t (.running k)) else none
  | .wait c m k => if s.owner m = some t then some ((s.setOwner m none).setThread t (.waiting c m k)) else none
  | .signal c k =>
    if s.threads.any (Status.waitsOn c) then
      match s.threads[w]? with
      | some st => if st.waitsOn c then some ((s.setThread w (st.wake c)).setThread t (.running k)) else none
      | none => none
    else some (s.setThread t (.running k))
  | .broadcast c k => some ((s.wakeAll c).setThread t (.running k))
  | .data f => some ({ s with shared := (f t x s.shared).1 }.setThread t (.running (f t x s.shared).2))
  | .create f child k =>
    some { s with threads := s.threads.set t (.running k) ++ [.running child], shared := f s.threads.length s.shared }
  | .halt => none

def step (s : State Mx Cv Pc σ) : Act ι Pc → Option (State Mx Cv Pc σ)
  | .run t x w => match s.threads[t]? with
    | some (.running pc) => exec code s t x w pc
    | some (.woken m k) =>
      if s.owner m = none then some ((s.setOwner m (some t)).setThread t (.running k)) else none
    | _ => none
  | .spurious t => match s.threads[t]? with
    | some (.waiting _ m k) => some (s.setThread t (.woken m k))
    | _ => none
  | .arrive pc => if start pc then some { s with threads := s.threads ++ [.running pc] } else none

/-! ## What a step can do -/

inductive Step (s : State Mx Cv Pc σ) : Act ι Pc → State Mx Cv Pc σ → Prop
  | lock {t x w pc m k} : s.threads[t]? = some (.running pc) → code pc = .lock m k → s.owner m = none →
      Step s (.run t x w) ((s.setOwner m (some t)).setThread t (.running k))
  | unlock {t x w pc m k} : s.threads[t]? = some (.running pc) → code pc = .unlock m k → s.owner m = some t →
      Step s (.run t x w) ((s.setOwner m none).setThread t (.running k))
  | wait {t x w pc c m k} : s.threads[t]? = some (.running pc) → code pc = .wait c m k → s.owner m = some t →
      Step s (.run t x w) ((s.setOwner m none).setThread t (.waiting c m k))
  | resume {t x w m k} : s.threads[t]? = some (.woken m k) → s.owner m = none →
      Step s (.run t x w) ((s.setOwner m (some t)).setThread t (.running k))
  | signal {t x w pc c k m k'} : s.threads[t]? = some (.running pc) → code pc = .signal c k →
      s.threads[w]? = some (.waiting c m k') →
      Step s (.run t x w) ((s.setThread w (.woken m k')).setThread t (.running k))
  /-- A signal that nobody waits for. -/
  | signalNone {t x w pc c k} : s.threads[t]? = some (.running pc) → code pc = .signal c k →
      (∀ st ∈ s.threads, st.waitsOn c = false) → Step s (.run t x w) (s.setThread t (.running k))
  | broadcast {t x w pc c k} : s.threads[t]? = some (.running pc) → code pc = .broadcast c k →
      Step s (.run t x w) ((s.wakeAll c).setThread t (.running k))
  | data {t x w pc f} : s.threads[t]? = some (.running pc) → code pc = .data f →
      Step s (.run t x w) ({ s with shared := (f t x s.shared).1 }.setThread t (.running (f t x s.shared).2))
  | create {t x w pc f child k} : s.threads[t]? = some (.running pc) → code pc = .create f child k →
      Step s (.run t x w)
        { s with threads := s.threads.set t (.running k) ++ [.running child], shared := f s.threads.length s.shared }
  | spurious {t c m k} : s.threads[t]? = some (.waiting c m k) → Step s (.spurious t) (s.setThread t (.woken m k))
  | arrive {pc} : start pc = true → Step s (.arrive pc) { s with threads := s.threads ++ [.running pc] }

variable {code start} {s s' : State Mx Cv Pc σ} {a : Act ι Pc}

theorem exec_cases {t w : Nat} {x : ι} {pc : Pc} (ht : s.threads[t]? = some (.running pc))
    (h : exec code s t x w pc = some s') : Step code start s (.run t x w) s' := by
  unfold exec at h
  cases hc : code pc with
  | lock m k =>
    simp only [hc, Option.ite_none_right_eq_some] at h
    obtain ⟨ho, h⟩ := h
    cases h
    exact .lock ht hc ho
  | unlock m k =>
    simp only [hc, Option.ite_none_right_eq_some] at h
    obtain ⟨ho, h⟩ := h
    cases h
    exact .unlock ht hc ho
  | wait c m k =>
    simp only [hc, Option.ite_none_right_eq_some] at h
    obtain ⟨ho, h⟩ := h
    cases h
    exact .wait ht hc ho
  | signal c k =>
    simp only [hc] at h
    split at h
    · cases hw : s.threads[w]? with
      | none => simp [hw] at h
      | some st =>
        simp only [hw, Option.ite_none_right_eq_some] at h
        obtain ⟨hst, h⟩ := h
        cases h
        cases st with
        | waiting c' m k' =>
          obtain rfl : c' = c := by simpa [Status.waitsOn] using hst
          rw [Status.wake_waiting, if_pos rfl]
          exact .signal ht hc hw
        | running => simp [Status.waitsOn] at hst
        | woken => simp [Status.waitsOn] at hst
    · rename_i hnone
      cases h
      exact .signalNone ht hc (by simpa using hnone)
  | broadcast c k =>
    simp only [hc] at h
    cases h
    exact .broadcast ht hc
  | data f =>
    simp only [hc] at h
    cases h
    exact .data ht hc
  | create f child k =>
    simp only [hc] at h
    cases h
    exact .create ht hc
  | halt => simp [hc] at h

theorem step_cases (h : step code start s a = some s') : Step code start s a s' := by
  cases a with
  | run t x w =>
    simp only [step] at h
    cases ht : s.threads[t]? with
    | none => simp [ht] at h
    | some st =>
      cases st with
      | running pc =>
        simp only [ht] at h
        exact exec_cases ht h
      | waiting c m k => simp [ht] at h
      | woken m k =>
        simp only [ht, Option.ite_none_right_eq_some] at h
        obtain ⟨ho, h⟩ := h
        cases h
        exact .resume ht ho
  | spurious t =>
    simp only [step] at h
    cases ht : s.threads[t]? with
    | none => simp [ht] at h
    | some st =>
      cases st with
      | waiting c m k =>
        simp only [ht] at h
        cases h
        exact .spurious ht
      | running => simp [ht] at h
      | woken => simp [ht] at h
  | arrive pc =>
    simp only [step, Option.ite_none_right_eq_some] at h
    obtain ⟨hs, h⟩ := h
    cases h
    exact .arrive hs

/-! ## Steps that are always possible -/

theorem step_data {t w : Nat} {x : ι} {pc : Pc} {f : Nat → ι → σ → σ × Pc}
    (ht : s.threads[t]? = some (.running pc)) (hc : code pc = .data f) :
    step code start s (.run t x w) =
      some ({ s with shared := (f t x s.shared).1 }.setThread t (.running (f t x s.shared).2)) := by
  simp [step, exec, ht, hc]

/-- After a data instruction of one thread the others are where they were. -/
theorem exists_step_data {t : Nat} {pc : Pc} {f : Nat → ι → σ → σ × Pc} (ht : s.threads[t]? = some (.running pc))
    (hc : code pc = .data f) (x : ι) :
    ∃ s', step code start s (.run t x 0) = some s' ∧ s'.shared = (f t x s.shared).1 ∧
      s'.threads[t]? = some (.running (f t x s.shared).2) ∧ ∀ u ≠ t, s'.threads[u]? = s.threads[u]? := by
  refine ⟨_, step_data ht hc, rfl, ?_, fun u hu => List.getElem?_set_ne (Ne.symm hu)⟩
  exact List.getElem?_set_self (List.getElem?_eq_some_iff.mp ht).1

theorem step_create {t w : Nat} {x : ι} {pc child k : Pc} {f : Nat → σ → σ}
    (ht : s.threads[t]? = some (.running pc)) (hc : code pc = .create f child k) :
    step code start s (.run t x w) =
      some { s with threads := s.threads.set t (.running k) ++ [.running child], shared := f s.threads.length s.shared } := by
  simp [step, exec, ht, hc]

theorem step_broadcast {t w : Nat} {x : ι} {pc k : Pc} {c : Cv} (ht : s.threads[t]? = some (.running pc))
    (hc : code pc = .broadcast c k) :
    step code start s (.run t x w) = some ((s.wakeAll c).setThread t (.running k)) := by
  simp [step, exec, ht, hc]

theorem step_unlock {t w : Nat} {x : ι} {pc k : Pc} {m : Mx} (ht : s.threads[t]? = some (.running pc))
    (hc : code pc = .unlock m k) (ho : s.owner m = some t) :
    step code start s (.run t x w) = some ((s.setOwner m none).setThread t (.running k)) := by
  simp [step, exec, ht, hc, ho]

theorem step_lock {t w : Nat} {x : ι} {pc k : Pc} {m : Mx} (ht : s.threads[t]? = some (.running pc))
    (hc : code pc = .lock m k) (ho : s.owner m = none) :
    step code start s (.run t x w) = some ((s.setOwner m (some t)).setThread t (.running k)) := by
  simp [step, exec, ht, hc, ho]

theorem step_wait {t w : Nat} {x : ι} {pc k : Pc} {c : Cv} {m : Mx} (ht : s.threads[t]? = some (.running pc))
    (hc : code pc = .wait c m k) (ho : s.owner m = some t) :
    step code start s (.run t x w) = some ((s.setOwner m none).setThread t (.waiting c m k)) := by
  simp [step, exec, ht, hc, ho]

theorem step_resume {t w : Nat} {x : ι} {k : Pc} {m : Mx} (ht : s.threads[t]? = some (.woken m k))
    (ho : s.owner m = none) :
    step code start s (.run t x w) = some ((s.setOwner m (some t)).setThread t (.running k)) := by
  simp [step, ht, ho]

/-- A signal that nobody hears. -/
theorem step_signalNone {t w : Nat} {x : ι} {pc k : Pc} {c : Cv} (ht : s.threads[t]? = some (.running pc))
    (hc : code pc = .signal c k) (hnone : s.threads.any (Status.waitsOn c) = false) :
    step code start s (.run t x w) = some (s.setThread t (.running k)) := by
  simp [step, exec, ht, hc, hnone]

/-- There is always somebody to wake, or nobody waits. -/
theorem exists_step_signal {t : Nat} {pc k : Pc} {c : Cv} (ht : s.threads[t]? = some (.running pc))
    (hc : code pc = .signal c k) (x : ι) :
    ∃ w s', step code start s (.run t x w) = some s' ∧ s'.shared = s.shared ∧ s'.owner = s.owner ∧
      s'.threads[t]? = some (.running k) := by
  have hlt : t < s.threads.length := (List.getElem?_eq_some_iff.mp ht).1
  by_cases hany : s.threads.any (Status.waitsOn c) = true
  · obtain ⟨st, hst, hwaits⟩ := List.any_eq_true.mp hany
    obtain ⟨w, hw⟩ := List.mem_iff_getElem?.mp hst
    refine ⟨w, (s.setThread w (st.wake c)).setThread t (.running k), ?_, rfl, rfl, ?_⟩
    · simp only [step, exec, ht, hc, hany, hw, hwaits, if_true]
    · exact List.getElem?_set_self (by simpa [State.setThread] using hlt)
  · exact ⟨0, _, step_signalNone ht hc (Bool.eq_false_iff.mpr hany), rfl, rfl, List.getElem?_set_self hlt⟩

/-! ## What a step does to positions and data -/

/-- The instruction goes on at `k` and leaves the shared data alone. -/
def Instr.Goes (k : Pc) : Instr Mx Cv Pc ι σ → Prop
  | .lock _ k' => k' = k
  | .unlock _ k' => k' = k
  | .wait _ _ k' => k' = k
  | .signal _ k' => k' = k
  | .broadcast _ k' => k' = k
  | _ => False

variable (code start s a s') in
inductive Effect : Prop
  /-- A blocked thread was woken, or has its mutex back. -/
  | quiet : s'.pcs = s.pcs → s'.shared = s.shared → Effect
  | move {t x w pc k} : a = .run t x w → s.threads[t]? = some (.running pc) → (code pc).Goes k →
      s'.pcs = s.pcs.set t k → s'.shared = s.shared → Effect
  | data {t x w pc f} : a = .run t x w → s.threads[t]? = some (.running pc) → code pc = .data f →
      s'.pcs = s.pcs.set t (f t x s.shared).2 → s'.shared = (f t x s.shared).1 → Effect
  | create {t x w pc f child k} : a = .run t x w → s.threads[t]? = some (.running pc) →
      code pc = .create f child k → s'.pcs = s.pcs.set t k ++ [child] → s'.shared = f s.threads.length s.shared →
      Effect
  | arrive {pc} : start pc = true → s'.pcs = s.pcs ++ [pc] → s'.shared = s.shared → Effect

theorem map_pc_set (l : List (Status Mx Cv Pc)) (t : Nat) (st : Status Mx Cv Pc) :
    (l.set t st).map Status.pc = (l.map Status.pc).set t st.pc := List.map_set

/-- A status that leaves its thread where it is. -/
theorem pcs_set_same {t : Nat} {st st' : Status Mx Cv Pc} (h : s.threads[t]? = some st) (hpc : st'.pc = st.pc) :
    (s.threads.set t st').map Status.pc = s.pcs := by
  have hlt : t < s.threads.length := (List.getElem?_eq_some_iff.mp h).1
  rw [map_pc_set, hpc]
  apply List.ext_getElem?
  intro u
  rw [List.getElem?_set]
  split
  case isTrue hu =>
    subst hu
    rw [if_pos (by simpa using hlt), State.pcs_getElem? h]
  case isFalse => rfl

theorem Step.effect (h : Step code start s a s') : Effect code start s s' a := by
  cases h with
  | @lock t x w pc m k ht hc _ => exact .move rfl ht (by rw [hc]; rfl) (map_pc_set _ _ _) rfl
  | @unlock t x w pc m k ht hc _ => exact .move rfl ht (by rw [hc]; rfl) (map_pc_set _ _ _) rfl
  | @wait t x w pc c m k ht hc _ => exact .move rfl ht (by rw [hc]; rfl) (map_pc_set _ _ _) rfl
  | @resume t x w m k ht _ => exact .quiet (pcs_set_same ht rfl) rfl
  | @signal t x w pc c k m k' ht hc hw =>
    refine .move rfl ht (by rw [hc]; rfl) ((map_pc_set _ _ _).trans ?_) rfl
    congr 1
    exact pcs_set_same hw rfl
  | @signalNone t x w pc c k ht hc _ => exact .move rfl ht (by rw [hc]; rfl) (map_pc_set _ _ _) rfl
  | @broadcast t x w pc c k ht hc =>
    refine .move rfl ht (by rw [hc]; rfl) ((map_pc_set _ _ _).trans ?_) rfl
    congr 1
    rw [State.wakeAll, List.map_map]
    exact List.map_congr_left fun st _ => Status.pc_wake c st
  | @data t x w pc f ht hc => exact .data rfl ht hc (map_pc_set _ _ _) rfl
  | @create t x w pc f child k ht hc =>
    refine .create rfl ht hc ?_ rfl
    show (s.threads.set t _ ++ [_]).map Status.pc = _
    rw [List.map_append, map_pc_set]
    rfl
  | @spurious t c m k ht => exact .quiet (pcs_set_same ht rfl) rfl
  | @arrive pc hp => exact .arrive hp (List.map_append) rfl

/-- The thread whose code the action runs. -/
def Act.actor : Act ι Pc → Option Nat
  | .run t _ _ => some t
  | _ => none

/-- Every other thread stays where it is, and no step blocks it. -/
theorem Step.other (h : Step code start s a s') {u : Nat} {st : Status Mx Cv Pc} (hu : a.actor ≠ some u)
    (hst : s.threads[u]? = some st) :
    ∃ st', s'.threads[u]? = some st' ∧ st'.pc = st.pc ∧ (st.blocked = false → st'.blocked = false) := by
  have hlt : u < s.threads.length := (List.getElem?_eq_some_iff.mp hst).1
  have hset (t : Nat) (x : Status Mx Cv Pc) (hne : some t ≠ some u) : (s.threads.set t x)[u]? = some st :=
    (List.getElem?_set_ne fun he => hne (congrArg some he)).trans hst
  cases h with
  | lock | unlock | wait | resume | signalNone | data => exact ⟨st, hset _ _ hu, rfl, id⟩
  | @signal t x w pc c k m k' ht hc hw =>
    by_cases hwu : w = u
    · subst hwu
      obtain rfl : Status.waiting c m k' = st := Option.some.inj (hw.symm.trans hst)
      refine ⟨.woken m k', ?_, rfl, fun _ => rfl⟩
      exact (List.getElem?_set_ne fun he => hu (congrArg some he)).trans (List.getElem?_set_self hlt)
    · refine ⟨st, ?_, rfl, id⟩
      exact (List.getElem?_set_ne fun he => hu (congrArg some he)).trans
        ((List.getElem?_set_ne hwu).trans hst)
  | @broadcast t x w pc c k ht hc =>
    refine ⟨st.wake c, ?_, Status.pc_wake c st, Status.blocked_wake⟩
    refine (List.getElem?_set_ne fun he => hu (congrArg some he)).trans ?_
    simp [State.wakeAll, hst]
  | @create t x w pc f child k ht hc =>
    refine ⟨st, ?_, rfl, id⟩
    exact (List.getElem?_append_left (by simpa using hlt)).trans (hset _ _ hu)
  | @spurious t c m k ht =>
    by_cases htu : t = u
    · subst htu
      obtain rfl : Status.waiting c m k = st := Option.some.inj (ht.symm.trans hst)
      exact ⟨.woken m k, List.getElem?_set_self hlt, rfl, fun _ => rfl⟩
    · exact ⟨st, (List.getElem?_set_ne htu).trans hst, rfl, id⟩
  | arrive => exact ⟨st, (List.getElem?_append_left hlt).trans hst, rfl, id⟩

theorem Step.other_pc (h : Step code start s a s') {u : Nat} {pc : Pc} (hu : a.actor ≠ some u)
    (hpc : s.pcs[u]? = some pc) : s'.pcs[u]? = some pc := by
  obtain ⟨st, hst, rfl⟩ := State.of_pcs_getElem? hpc
  obtain ⟨st', hst', hpc', -⟩ := h.other hu hst
  rw [State.pcs_getElem? hst', hpc']

/-- Only the thread that acts leaves a position of a kind. -/
theorem Step.kept (h : Step code start s a s') {P : Pc → Bool}
    (hne : ∀ t st, a.actor = some t → s.threads[t]? = some st → P st.pc = false) :
    ∀ pc ∈ s.pcs, P pc = true → pc ∈ s'.pcs := by
  intro pc hpc hP
  obtain ⟨u, hu⟩ := List.mem_iff_getElem?.mp hpc
  have hact : a.actor ≠ some u := by
    intro hact
    obtain ⟨st, hst, rfl⟩ := State.of_pcs_getElem? hu
    rw [hne u st hact hst] at hP
    cases hP
  exact List.mem_of_getElem? (h.other_pc hact hu)

theorem Step.run_kept {t w : Nat} {x : ι} {st : Status Mx Cv Pc} (h : Step code start s (.run t x w) s')
    (ht : s.threads[t]? = some st) {P : Pc → Bool} (hne : P st.pc = false) : ∀ pc ∈ s.pcs, P pc = true → pc ∈ s'.pcs := by
  refine h.kept fun u st' hu hst' => ?_
  cases hu
  rw [ht] at hst'
  cases hst'
  exact hne

/-- Only a wait blocks, and only its own thread. -/
theorem Step.blocked (h : Step code start s a s') {st : Status Mx Cv Pc} (hst : st ∈ s'.threads)
    (hb : st.blocked = true) :
    st ∈ s.threads ∨ ∃ t x w pc c m k, a = .run t x w ∧ s.threads[t]? = some (.running pc) ∧ code pc = .wait c m k := by
  have hset {l : List (Status Mx Cv Pc)} {t : Nat} {k : Pc} (hmem : st ∈ l.set t (.running k)) : st ∈ l := by
    rcases List.mem_or_eq_of_mem_set hmem with hmem | rfl
    · exact hmem
    · cases hb
  have hwoken {t : Nat} {m : Mx} {k : Pc} (hmem : st ∈ s.threads.set t (.woken m k)) : st ∈ s.threads := by
    rcases List.mem_or_eq_of_mem_set hmem with hmem | rfl
    · exact hmem
    · cases hb
  cases h with
  | lock | unlock | resume | signalNone | data => exact .inl (hset hst)
  | @wait t x w pc c m k ht hc => exact .inr ⟨t, x, w, pc, c, m, k, rfl, ht, hc⟩
  | signal => exact .inl (hwoken (hset hst))
  | @broadcast t x w pc c k ht hc =>
    left
    obtain ⟨st0, hst0, rfl⟩ := List.mem_map.mp (hset hst)
    cases st0 with
    | running | woken => exact hst0
    | waiting c' m k =>
      rw [Status.wake_waiting] at hb ⊢
      split at hb
      · cases hb
      · rwa [if_neg ‹_›]
  | create =>
    left
    rcases List.mem_append.mp hst with hst | hst
    · exact hset hst
    · obtain rfl := List.mem_singleton.mp hst
      cases hb
  | spurious => exact .inl (hwoken hst)
  | arrive =>
    left
    rcases List.mem_append.mp hst with hst | hst
    · exact hst
    · obtain rfl := List.mem_singleton.mp hst
      cases hb

/-- Who is not called sleeps on. -/
theorem Step.sleeps (h : Step code start s a s') {t : Nat} {c : Cv} {m : Mx} {k : Pc}
    (ht : s.threads[t]? = some (.waiting c m k)) (ha : a ≠ .spurious t)
    (hsignal : ∀ (u : Nat) pc k', s.threads[u]? = some (.running pc) → code pc ≠ .signal c k')
    (hbroadcast : ∀ (u : Nat) pc k', s.threads[u]? = some (.running pc) → code pc ≠ .broadcast c k') :
    s'.threads[t]? = some (.waiting c m k) := by
  have hne {u : Nat} {st : Status Mx Cv Pc} (hu : s.threads[u]? = some st) (hst : st ≠ .waiting c m k) : u ≠ t := by
    rintro rfl
    rw [ht] at hu
    exact hst (Option.some.inj hu).symm
  cases h with
  | lock hu | unlock hu | wait hu | resume hu | signalNone hu | data hu =>
    exact (List.getElem?_set_ne (hne hu nofun)).trans ht
  | @signal u x w pc c' k' m' k2 hu hc hw =>
    have hwt : w ≠ t := by
      rintro rfl
      rw [ht] at hw
      cases hw
      exact hsignal u pc k' hu hc
    exact (List.getElem?_set_ne (hne hu nofun)).trans ((List.getElem?_set_ne hwt).trans ht)
  | @broadcast u x w pc c' k' hu hc =>
    have hcc : c ≠ c' := by
      rintro rfl
      exact hbroadcast u pc k' hu hc
    refine (List.getElem?_set_ne (hne hu nofun)).trans ?_
    rw [State.wakeAll, List.getElem?_map, ht, Option.map_some, Status.wake_waiting, if_neg hcc]
  | @create u x w pc f child k' hu hc =>
    have hlt : t < s.threads.length := (List.getElem?_eq_some_iff.mp ht).1
    exact (List.getElem?_append_left (by simpa using hlt)).trans ((List.getElem?_set_ne (hne hu nofun)).trans ht)
  | spurious hu => exact (List.getElem?_set_ne fun he => ha (congrArg _ he)).trans ht
  | arrive => exact (List.getElem?_append_left (List.getElem?_eq_some_iff.mp ht).1).trans ht

/-! ## Mutual exclusion -/

/-- The instruction at `pc` acquires and releases what `holds` says. -/
def Instr.Keeps (holds : Pc → Mx → Bool) (pc : Pc) : Instr Mx Cv Pc ι σ → Prop
  | .lock m k => ∀ m', holds k m' = true ↔ holds pc m' = true ∨ m' = m
  | .unlock m k => ∀ m', holds k m' = true ↔ holds pc m' = true ∧ m' ≠ m
  | .wait _ m k => (∀ m', holds pc m' = true ↔ m' = m) ∧ ∀ m', holds k m' = true ↔ m' = m
  | .signal _ k => holds k = holds pc
  | .broadcast _ k => holds k = holds pc
  | .data f => ∀ t x s, holds (f t x s).2 = holds pc
  | .create _ child k => (∀ m, holds child m = false) ∧ holds k = holds pc
  | .halt => True

/-- Where this status is a wait's, it came from one. -/
def Status.From (code : Pc → Instr Mx Cv Pc ι σ) : Status Mx Cv Pc → Prop
  | .running _ => True
  | .waiting c m k => ∃ pc, code pc = .wait c m k
  | .woken m k => ∃ pc c, code pc = .wait c m k

theorem Status.from_running {pc : Pc} : (Status.running pc : Status Mx Cv Pc).From code := trivial

variable (code start) in
structure Discipline (holds : Pc → Mx → Bool) : Prop where
  keeps : ∀ pc, (code pc).Keeps holds pc
  fresh : ∀ pc, start pc = true → ∀ m, holds pc m = false

/-! ## Programs that list what they hold -/

/-- A test of the shared data. -/
def Instr.branch (p : σ → Bool) (k k' : Pc) : Instr Mx Cv Pc ι σ := .data fun _ _ d => (d, if p d then k else k')

/-- A change of the shared data. -/
def Instr.assign (f : Nat → σ → σ) (k : Pc) : Instr Mx Cv Pc ι σ := .data fun me _ d => (f me d, k)

def holdsIn (held : Pc → List Mx) (pc : Pc) (m : Mx) : Bool := (held pc).contains m

section
variable {held : Pc → List Mx} {pc k k' : Pc}

theorem keeps_branch {p : σ → Bool} (h : held k = held pc) (h' : held k' = held pc) :
    (.branch p k k' : Instr Mx Cv Pc ι σ).Keeps (holdsIn held) pc := by
  intro t x d
  funext m
  dsimp only
  split
  · rw [holdsIn, h]
    rfl
  · rw [holdsIn, h']
    rfl

theorem keeps_assign {f : Nat → σ → σ} (h : held k = held pc) :
    (.assign f k : Instr Mx Cv Pc ι σ).Keeps (holdsIn held) pc := by
  intro t x d
  funext m
  rw [holdsIn, holdsIn, ← h]

theorem keeps_lock {m : Mx} (h : held k = m :: held pc) :
    (.lock m k : Instr Mx Cv Pc ι σ).Keeps (holdsIn held) pc := by
  intro m'
  rw [holdsIn, holdsIn, h]
  simp [or_comm]

theorem keeps_unlock {m : Mx} (h : held pc = [m]) (h' : held k = []) :
    (.unlock m k : Instr Mx Cv Pc ι σ).Keeps (holdsIn held) pc := by
  intro m'
  rw [holdsIn, holdsIn, h, h']
  simp

theorem keeps_wait {c : Cv} {m : Mx} (h : held pc = [m]) (h' : held k = [m]) :
    (.wait c m k : Instr Mx Cv Pc ι σ).Keeps (holdsIn held) pc := by
  constructor
  · intro m'
    rw [holdsIn, h]
    simp
  · intro m'
    rw [holdsIn, h']
    simp

end

variable (code) in
/-- The owner of a mutex is the one thread that is where `holds` says so. -/
structure Exclusive (holds : Pc → Mx → Bool) (s : State Mx Cv Pc σ) : Prop where
  owner : ∀ m t, s.owner m = some t ↔ ∃ pc, s.threads[t]? = some (.running pc) ∧ holds pc m = true
  waits : ∀ st ∈ s.threads, st.From code

namespace Exclusive
variable {holds : Pc → Mx → Bool}

/-- Two threads where `holds` gives them the same mutex are one. -/
theorem unique (h : Exclusive code holds s) {m : Mx} {t u : Nat} {pc pc' : Pc}
    (ht : s.threads[t]? = some (.running pc)) (hp : holds pc m = true)
    (hu : s.threads[u]? = some (.running pc')) (hp' : holds pc' m = true) : t = u := by
  have h1 := (h.owner m t).mpr ⟨pc, ht, hp⟩
  have h2 := (h.owner m u).mpr ⟨pc', hu, hp'⟩
  rw [h1] at h2
  exact Option.some.inj h2

/-- One thread changes its status, and with it what it owns. -/
theorem update (h : Exclusive code holds s) {t : Nat} {st st0 : Status Mx Cv Pc} {o : Mx → Option Nat} {s1 : σ}
    (ht : s.threads[t]? = some st0) (hfrom : st.From code)
    (hother : ∀ m u, u ≠ t → (o m = some u ↔ s.owner m = some u))
    (hown : ∀ m, o m = some t ↔ ∃ pc, st = .running pc ∧ holds pc m = true) :
    Exclusive code holds { threads := s.threads.set t st, owner := o, shared := s1 } := by
  have hlt : t < s.threads.length := (List.getElem?_eq_some_iff.mp ht).1
  constructor
  · intro m u
    by_cases hu : u = t
    · subst hu
      rw [hown m, List.getElem?_set_self hlt]
      simp
    · rw [hother m u hu, h.owner m u, List.getElem?_set_ne (Ne.symm hu)]
  · intro x hx
    rcases List.mem_or_eq_of_mem_set hx with hx | rfl
    · exact h.waits x hx
    · exact hfrom

/-- A thread keeps what it owns. -/
theorem move (h : Exclusive code holds s) {t : Nat} {pc k : Pc} {s1 : σ} (ht : s.threads[t]? = some (.running pc))
    (hk : holds k = holds pc) :
    Exclusive code holds { threads := s.threads.set t (.running k), owner := s.owner, shared := s1 } := by
  apply h.update ht Status.from_running (fun _ _ _ => Iff.rfl)
  intro m
  rw [h.owner m t, ht]
  simp [hk]

theorem acquire (h : Exclusive code holds s) {t : Nat} {st : Status Mx Cv Pc} {m : Mx} {k : Pc}
    (ht : s.threads[t]? = some st) (hfree : s.owner m = none)
    (hk : ∀ m', holds k m' = true ↔ s.owner m' = some t ∨ m' = m) :
    Exclusive code holds ((s.setOwner m (some t)).setThread t (.running k)) := by
  apply h.update ht Status.from_running
  · intro m' u hu
    by_cases hm : m' = m
    · subst hm
      simp [hfree, Ne.symm hu]
    · simp [hm]
  · intro m'
    by_cases hm : m' = m
    · simpa [hm] using (hk m).mpr (.inr rfl)
    · simpa [hm] using (hk m').symm

theorem release (h : Exclusive code holds s) {t : Nat} {st st0 : Status Mx Cv Pc} {m : Mx}
    (ht : s.threads[t]? = some st0) (hfrom : st.From code) (hown : s.owner m = some t)
    (hk : ∀ m', (∃ pc, st = .running pc ∧ holds pc m' = true) ↔ s.owner m' = some t ∧ m' ≠ m) :
    Exclusive code holds ((s.setOwner m none).setThread t st) := by
  apply h.update ht hfrom
  · intro m' u hu
    by_cases hm : m' = m
    · subst hm
      simp [hown, Ne.symm hu]
    · simp [hm]
  · intro m'
    rw [hk m']
    by_cases hm : m' = m <;> simp [hm]

theorem owner_running (h : Exclusive code holds s) {t : Nat} {pc : Pc} (ht : s.threads[t]? = some (.running pc))
    (m : Mx) : s.owner m = some t ↔ holds pc m = true := by
  rw [h.owner m t, ht]
  simp

theorem not_held (h : Exclusive code holds s) {t : Nat} {pc : Pc} (ht : s.threads[t]? = some (.running pc)) {m : Mx}
    (hfree : s.owner m = none) : holds pc m = false := by
  refine Bool.eq_false_iff.mpr fun hheld => ?_
  rw [(h.owner_running ht m).mpr hheld] at hfree
  cases hfree

/-- A thread is at its position, or blocked in a wait that goes on there. -/
theorem running_or_waits (h : Exclusive code holds s) {t : Nat} {pc : Pc} (ht : s.pcs[t]? = some pc) :
    s.threads[t]? = some (.running pc) ∨ ∃ pc0 c m, code pc0 = .wait c m pc := by
  obtain ⟨st, hst, rfl⟩ := State.of_pcs_getElem? ht
  have hfrom := h.waits st (List.mem_of_getElem? hst)
  cases st with
  | running pc => exact .inl hst
  | waiting c m k =>
    obtain ⟨pc0, h0⟩ := hfrom
    exact .inr ⟨pc0, c, m, h0⟩
  | woken m k =>
    obtain ⟨pc0, c, h0⟩ := hfrom
    exact .inr ⟨pc0, c, m, h0⟩

/-- A blocked thread owns nothing. -/
theorem owner_blocked (h : Exclusive code holds s) {t : Nat} {st : Status Mx Cv Pc}
    (ht : s.threads[t]? = some st) (hst : ∀ pc, st ≠ .running pc) (m : Mx) : s.owner m ≠ some t := by
  intro ho
  obtain ⟨pc, hpc, -⟩ := (h.owner m t).mp ho
  rw [ht] at hpc
  exact hst pc (Option.some.inj hpc)

theorem append (h : Exclusive code holds s) {pc : Pc} {s1 : σ} (hpc : ∀ m, holds pc m = false) :
    Exclusive code holds { threads := s.threads ++ [.running pc], owner := s.owner, shared := s1 } := by
  constructor
  · intro m t
    rw [h.owner m t]
    by_cases ht : t < s.threads.length
    · rw [List.getElem?_append_left ht]
    · rw [List.getElem?_eq_none (by omega), List.getElem?_append_right (by omega)]
      constructor
      · rintro ⟨pc', h', -⟩
        cases h'
      · rintro ⟨pc', h', hp⟩
        obtain rfl : pc = pc' := by
          rcases List.getElem?_eq_some_iff.mp h' with ⟨hl, he⟩
          simpa using he
        rw [hpc m] at hp
        cases hp
  · intro x hx
    rcases List.mem_append.mp hx with hx | hx
    · exact h.waits x hx
    · obtain rfl := List.mem_singleton.mp hx
      exact Status.from_running

/-- A blocked thread has no mutex before it is woken, and none after. -/
theorem wokenUp (h : Exclusive code holds s) {w : Nat} {c : Cv} {m : Mx} {k : Pc}
    (hw : s.threads[w]? = some (.waiting c m k)) : Exclusive code holds (s.setThread w (.woken m k)) := by
  obtain ⟨pc, hc⟩ := h.waits _ (List.mem_of_getElem? hw)
  have hfrom : (Status.woken m k : Status Mx Cv Pc).From code := ⟨pc, c, hc⟩
  apply h.update hw hfrom (fun _ _ _ => Iff.rfl)
  intro m'
  have := h.owner_blocked hw (fun _ he => nomatch he) m'
  simp [this]

theorem wakeAll (h : Exclusive code holds s) (c : Cv) : Exclusive code holds (s.wakeAll c) := by
  constructor
  · intro m u
    show s.owner m = some u ↔ _
    rw [h.owner m u, State.wakeAll]
    simp only [List.getElem?_map, Option.map_eq_some_iff]
    constructor
    · rintro ⟨pc', h1, h2⟩
      exact ⟨pc', ⟨_, h1, rfl⟩, h2⟩
    · rintro ⟨pc', ⟨st, h1, h2⟩, h3⟩
      rw [Status.wake_eq_running.mp h2] at h1
      exact ⟨pc', h1, h3⟩
  · intro st hst
    obtain ⟨st0, hst0, rfl⟩ := List.mem_map.mp hst
    have := h.waits st0 hst0
    cases st0 with
    | running => exact this
    | woken => exact this
    | waiting c' m k =>
      obtain ⟨pc', hc'⟩ := this
      rw [Status.wake_waiting]
      split
      · exact ⟨pc', c', hc'⟩
      · exact ⟨pc', hc'⟩

end Exclusive

theorem Discipline.exclusive {holds : Pc → Mx → Bool} (hd : Discipline code start holds) (h : Exclusive code holds s)
    (hs : Step code start s a s') : Exclusive code holds s' := by
  cases hs with
  | @lock t x w pc m k ht hc hfree =>
    have hk := hd.keeps pc
    rw [hc] at hk
    apply h.acquire ht hfree
    intro m'
    rw [h.owner_running ht]
    exact hk m'
  | @unlock t x w pc m k ht hc hown =>
    have hk := hd.keeps pc
    rw [hc] at hk
    apply h.release ht Status.from_running hown
    intro m'
    rw [h.owner_running ht, ← hk m']
    simp
  | @wait t x w pc c m k ht hc hown =>
    have hk := hd.keeps pc
    rw [hc] at hk
    have hfrom : (Status.waiting c m k).From code := ⟨pc, hc⟩
    apply h.release ht hfrom hown
    intro m'
    rw [h.owner_running ht, hk.1 m']
    simp
  | @resume t x w m k ht hfree =>
    -- a woken thread comes from a wait, which says what it holds when it goes on
    obtain ⟨pc, c, hc⟩ := h.waits _ (List.mem_of_getElem? ht)
    have hk := hd.keeps pc
    rw [hc] at hk
    apply h.acquire ht hfree
    intro m'
    rw [hk.2 m']
    have := h.owner_blocked ht (fun _ he => nomatch he) m'
    simp [this]
  | @signal t x w pc c k m k' ht hc hw =>
    have hk := hd.keeps pc
    rw [hc] at hk
    have hne : w ≠ t := by
      rintro rfl
      rw [ht] at hw
      cases hw
    -- first the waiter is woken, then the signalling thread goes on
    exact (h.wokenUp hw).move ((List.getElem?_set_ne hne).trans ht) hk
  | @signalNone t x w pc c k ht hc _ =>
    have hk := hd.keeps pc
    rw [hc] at hk
    exact h.move ht hk
  | @broadcast t x w pc c k ht hc =>
    have hk := hd.keeps pc
    rw [hc] at hk
    apply (h.wakeAll c).move _ hk
    simp [State.wakeAll, ht, Status.wake]
  | @data t x w pc f ht hc =>
    have hk := hd.keeps pc
    rw [hc] at hk
    exact h.move ht (hk t x s.shared)
  | @create t x w pc f child k ht hc =>
    have hk := hd.keeps pc
    rw [hc] at hk
    have h1 : Exclusive code holds (s.setThread t (.running k)) := h.move ht hk.2
    exact h1.append hk.1
  | spurious ht => exact h.wokenUp ht
  | @arrive pc hp => exact h.append (hd.fresh pc hp)

/-! ## Assertions at positions -/

variable (code) in
/-- A thread at `pc` does not exclude one at `pc'`: they hold no common mutex, or
the second may be blocked in a wait that goes on at `pc'`. -/
def Apart (holds : Pc → Mx → Bool) (pc pc' : Pc) : Prop :=
  (∀ m, ¬ (holds pc m = true ∧ holds pc' m = true)) ∨ ∃ pc0 c m, code pc0 = .wait c m pc'

/-- What is under a mutex is out of reach, or a blocked thread's. -/
theorem Apart.unheld {holds : Pc → Mx → Bool} {pc pc' : Pc} {m : Mx} (h : Apart code holds pc pc')
    (hm : holds pc m = true) : holds pc' m = false ∨ ∃ pc0, (code pc0).Goes pc' := by
  rcases h with h | ⟨pc0, c, m', h⟩
  · left
    cases hp : holds pc' m with
    | false => rfl
    | true => exact absurd ⟨hm, hp⟩ (h m)
  · exact .inr ⟨pc0, by rw [h]; rfl⟩

variable (code start) in
/-- A proof outline: `G n` holds of the shared data while there are `n` threads,
and `A t pc` while thread `t` is at `pc`. No thread spoils an assertion of
another that it does not exclude. -/
structure Outline (holds : Pc → Mx → Bool) (G : Nat → σ → Prop) (A : Nat → Pc → σ → Prop) : Prop where
  discipline : Discipline code start holds
  move : ∀ {t pc k d}, (code pc).Goes k → A t pc d → A t k d
  data : ∀ {t x pc f n d}, code pc = .data f → t < n → G n d → A t pc d →
    G n (f t x d).1 ∧ A t (f t x d).2 (f t x d).1
  create : ∀ {t pc f child k n d}, code pc = .create f child k → t < n → G n d → A t pc d →
    G (n + 1) (f n d) ∧ A t k (f n d) ∧ A n child (f n d)
  arrive : ∀ {pc n d}, start pc = true → G n d → G (n + 1) d ∧ A n pc d
  stable : ∀ {t u x pc pc' f n d}, code pc = .data f → t ≠ u → Apart code holds pc pc' → G n d → A t pc d →
    A u pc' d → A u pc' (f t x d).1
  stableCreate : ∀ {t u pc pc' f child k n d}, code pc = .create f child k → t ≠ u → Apart code holds pc pc' →
    G n d → A t pc d → A u pc' d → A u pc' (f n d)

variable (code) in
structure Asserted (holds : Pc → Mx → Bool) (G : Nat → σ → Prop) (A : Nat → Pc → σ → Prop)
    (s : State Mx Cv Pc σ) : Prop where
  exclusive : Exclusive code holds s
  global : G s.threads.length s.shared
  atPc : ∀ t pc, s.pcs[t]? = some pc → A t pc s.shared

/-- A thread that runs, and any other, are apart. -/
theorem Exclusive.apart {holds : Pc → Mx → Bool} (h : Exclusive code holds s) {t u : Nat} {pc pc' : Pc}
    (ht : s.threads[t]? = some (.running pc)) (hu : s.pcs[u]? = some pc') (hne : t ≠ u) :
    Apart code holds pc pc' := by
  rcases h.running_or_waits hu with hu | hwait
  · exact .inl fun m hm => hne (h.unique ht hm.1 hu hm.2)
  · exact .inr hwait

/-- One thread's assertion is renewed, the others' stay. -/
theorem forall_set {A : Nat → Pc → Prop} {l : List Pc} {t : Nat} {k : Pc} (ht : A t k)
    (hother : ∀ u pc, u ≠ t → l[u]? = some pc → A u pc) : ∀ u pc, (l.set t k)[u]? = some pc → A u pc := by
  intro u pc hu
  rw [List.getElem?_set] at hu
  split at hu
  case isTrue he =>
    split at hu
    · cases hu
      exact he ▸ ht
    · cases hu
  case isFalse hne => exact hother u pc (Ne.symm hne) hu

theorem forall_append {A : Nat → Pc → Prop} {l : List Pc} {k : Pc} (hk : A l.length k)
    (hl : ∀ u pc, l[u]? = some pc → A u pc) : ∀ u pc, (l ++ [k])[u]? = some pc → A u pc := by
  intro u pc hu
  rcases Nat.lt_trichotomy u l.length with h | h | h
  · rw [List.getElem?_append_left h] at hu
    exact hl u pc hu
  · subst h
    rw [List.getElem?_append_right (Nat.le_refl _), Nat.sub_self] at hu
    cases hu
    exact hk
  · rw [List.getElem?_eq_none (by simp; omega)] at hu
    cases hu

theorem Outline.asserted {holds : Pc → Mx → Bool} {G : Nat → σ → Prop} {A : Nat → Pc → σ → Prop}
    (ho : Outline code start holds G A) (h : Asserted code holds G A s) (hs : Step code start s a s') :
    Asserted code holds G A s' := by
  suffices hs' : G s'.threads.length s'.shared ∧ ∀ t pc, s'.pcs[t]? = some pc → A t pc s'.shared from
    ⟨ho.discipline.exclusive h.exclusive hs, hs'.1, hs'.2⟩
  have hlen : s'.pcs.length = s'.threads.length := s'.length_pcs
  cases hs.effect with
  | quiet hpcs hd =>
    rw [hpcs, s.length_pcs] at hlen
    rw [hpcs, hd, ← hlen]
    exact ⟨h.global, h.atPc⟩
  | @move t x w pc k _ ht hg hpcs hd =>
    rw [hpcs, List.length_set, s.length_pcs] at hlen
    rw [hpcs, hd, ← hlen]
    exact ⟨h.global, forall_set (ho.move hg (h.atPc t pc (State.pcs_getElem? ht))) fun u pc' _ => h.atPc u pc'⟩
  | @data t x w pc f _ ht hc hpcs hd =>
    have hlt : t < s.threads.length := (List.getElem?_eq_some_iff.mp ht).1
    have hA := h.atPc t pc (State.pcs_getElem? ht)
    obtain ⟨hG, hA'⟩ := ho.data (x := x) hc hlt h.global hA
    rw [hpcs, List.length_set, s.length_pcs] at hlen
    rw [hpcs, hd, ← hlen]
    refine ⟨hG, forall_set hA' fun u pc' hne hu => ?_⟩
    -- another thread holds none of its mutexes, or is blocked
    exact ho.stable hc (Ne.symm hne) (h.exclusive.apart ht hu (Ne.symm hne)) h.global hA (h.atPc u pc' hu)
  | @create t x w pc f child k _ ht hc hpcs hd =>
    have hlt : t < s.threads.length := (List.getElem?_eq_some_iff.mp ht).1
    have hA := h.atPc t pc (State.pcs_getElem? ht)
    obtain ⟨hG, hA', hchild⟩ := ho.create hc hlt h.global hA
    rw [hpcs, List.length_append, List.length_set, s.length_pcs] at hlen
    rw [hpcs, hd, ← hlen]
    refine ⟨hG, forall_append ?_ (forall_set hA' fun u pc' hne hu => ?_)⟩
    · rwa [List.length_set, s.length_pcs]
    · exact ho.stableCreate hc (Ne.symm hne) (h.exclusive.apart ht hu (Ne.symm hne)) h.global hA (h.atPc u pc' hu)
  | @arrive pc hp hpcs hd =>
    obtain ⟨hG, hA⟩ := ho.arrive hp h.global
    rw [hpcs, List.length_append, s.length_pcs] at hlen
    rw [hpcs, hd, ← hlen]
    refine ⟨hG, forall_append ?_ h.atPc⟩
    rwa [s.length_pcs]

theorem Outline.reach {holds : Pc → Mx → Bool} {G : Nat → σ → Prop} {A : Nat → Pc → σ → Prop}
    (ho : Outline code start holds G A) (h : Asserted code holds G A s) (hr : Lts.Reach (step code start) s s') :
    Asserted code holds G A s' :=
  hr.invariant (fun _ _ _ h hs => ho.asserted h (step_cases hs)) h

/-! ## Counting threads -/

/-- One thread moves: what it has changes with it, the others keep theirs. -/
theorem perm_filterMap_set {β : Type} {l : List Pc} {t : Nat} {pc : Pc} (h : l[t]? = some pc) (f : Pc → Option β) :
    (l.filterMap f).Perm ((f pc).toList ++ (l.eraseIdx t).filterMap f) ∧
      ∀ k, ((l.set t k).filterMap f).Perm ((f k).toList ++ (l.eraseIdx t).filterMap f) := by
  obtain ⟨hlt, rfl⟩ := List.getElem?_eq_some_iff.mp h
  have hcons (x : Pc) : (x :: l.eraseIdx t).filterMap f = (f x).toList ++ (l.eraseIdx t).filterMap f := by
    rw [List.filterMap_cons]
    cases f x <;> rfl
  constructor
  · rw [← hcons]
    exact (List.getElem_cons_eraseIdx_perm hlt).symm.filterMap f
  · intro k
    rw [← hcons]
    exact (List.set_perm_cons_eraseIdx hlt k).filterMap f

/-- One thread moves: the number of threads at positions in `P` follows. -/
theorem countP_set_add {l : List Pc} {t : Nat} {pc : Pc} (h : l[t]? = some pc) (k : Pc) (P : Pc → Bool) :
    (l.set t k).countP P + (P pc).toNat = l.countP P + (P k).toNat := by
  obtain ⟨hlt, rfl⟩ := List.getElem?_eq_some_iff.mp h
  have hpos : P l[t] = true → 0 < l.countP P := fun hp => List.countP_pos_iff.mpr ⟨_, List.getElem_mem hlt, hp⟩
  rw [List.countP_set hlt]
  cases hp : P l[t] <;> cases hk : P k <;> simp_all

/-- The sum of the weights. -/
def total {β : Type} (w : β → Nat) : List β → Nat
  | [] => 0
  | x :: l => w x + total w l

theorem total_set_add {β : Type} {w : β → Nat} {l : List β} {t : Nat} {x : β} (h : l[t]? = some x) (y : β) :
    total w (l.set t y) + w x = total w l + w y := by
  induction l generalizing t with
  | nil => cases h
  | cons z l ih =>
    cases t with
    | zero =>
      obtain rfl : z = x := Option.some.inj h
      simp only [List.set_cons_zero, total]
      omega
    | succ t =>
      have hrest := ih h
      simp only [List.set_cons_succ, total]
      omega

theorem total_map {β : Type} {w : β → Nat} {f : β → β} (h : ∀ x, w (f x) = w x) (l : List β) :
    total w (l.map f) = total w l := by
  induction l with
  | nil => rfl
  | cons x l ih => simp only [List.map_cons, total, h, ih]

/-- Where being woken does not change a thread's weight, a step changes the weight of its own
thread only. -/
theorem Step.total_add {t v : Nat} {x : ι} {st st' : Status Mx Cv Pc} {w : Status Mx Cv Pc → Nat}
    (hs : Step code start s (.run t x v) s') (hwoken : ∀ c m k, w (.woken m k) = w (.waiting c m k))
    (hcreate : ∀ pc f child k, code pc ≠ .create f child k) (ht : s.threads[t]? = some st)
    (ht' : s'.threads[t]? = some st') : total w s'.threads + w st = total w s.threads + w st' := by
  have hset {l : List (Status Mx Cv Pc)} {y : Status Mx Cv Pc} (he : s'.threads = l.set t y) (hl : l[t]? = some st)
      (htotal : total w l = total w s.threads) : total w s'.threads + w st = total w s.threads + w st' := by
    rw [he, List.getElem?_set_self (List.getElem?_eq_some_iff.mp hl).1] at ht'
    obtain rfl := Option.some.inj ht'
    rw [he, ← htotal]
    exact total_set_add hl y
  cases hs with
  | lock | unlock | wait | resume | signalNone | data => exact hset rfl ht rfl
  | @signal _ _ _ pc c k m k' hpc hc hw =>
    have hne : v ≠ t := by
      rintro rfl
      rw [hpc] at hw
      cases hw
    have hl : (s.threads.set v (.woken m k'))[t]? = some st := (List.getElem?_set_ne hne).trans ht
    have htotal := total_set_add (w := w) hw (.woken m k')
    rw [hwoken c] at htotal
    exact hset rfl hl (Nat.add_right_cancel htotal)
  | @broadcast _ _ _ pc c k hpc hc =>
    obtain rfl : Status.running pc = st := Option.some.inj (hpc.symm.trans ht)
    have hl : (s.threads.map (Status.wake c))[t]? = some (.running pc) := by
      rw [List.getElem?_map, ht]
      rfl
    refine hset rfl hl (total_map (fun y => ?_) s.threads)
    cases y with
    | running | woken => rfl
    | waiting c' m k =>
      rw [Status.wake_waiting]
      split
      · exact hwoken c' m k
      · rfl
  | create _ hc => exact absurd hc (hcreate _ _ _ _)

/-- Nobody is at positions under a free mutex where no wait goes on. -/
theorem Exclusive.count_free {holds : Pc → Mx → Bool} (h : Exclusive code holds s) {m : Mx} (hm : s.owner m = none)
    {P : Pc → Bool} (hP : ∀ pc, P pc = true → holds pc m = true)
    (hwait : ∀ pc c m' k, code pc = .wait c m' k → P k = false) : s.pcs.countP P = 0 := by
  refine List.countP_eq_zero.mpr fun pc hpc hp => ?_
  obtain ⟨t, ht⟩ := List.mem_iff_getElem?.mp hpc
  rcases h.running_or_waits ht with ht | ⟨pc0, c, m', h0⟩
  · have hheld := hP pc hp
    rw [h.not_held ht hm] at hheld
    cases hheld
  · rw [hwait pc0 c m' pc h0] at hp
    cases hp

theorem countP_le_one {l : List Pc} {P : Pc → Bool}
    (h : ∀ (i j : Nat) (x y : Pc), l[i]? = some x → l[j]? = some y → P x = true → P y = true → i = j) :
    l.countP P ≤ 1 := by
  induction l with
  | nil => exact Nat.zero_le _
  | cons x l ih =>
    rw [List.countP_cons]
    cases hx : P x with
    | false => exact ih fun i j y z hi hj hy hz => Nat.succ.inj (h (i + 1) (j + 1) y z hi hj hy hz)
    | true =>
      have hrest : l.countP P = 0 := by
        refine List.countP_eq_zero.mpr fun y hy hy' => ?_
        obtain ⟨j, hj⟩ := List.mem_iff_getElem?.mp hy
        have := h 0 (j + 1) x y rfl hj hx hy'
        omega
      simp [hrest]

/-- One thread at a time is at positions under a mutex where no wait goes on. -/
theorem Exclusive.count_le_one {holds : Pc → Mx → Bool} (h : Exclusive code holds s) {m : Mx} {P : Pc → Bool}
    (hP : ∀ pc, P pc = true → holds pc m = true) (hwait : ∀ pc c m' k, code pc = .wait c m' k → P k = false) :
    s.pcs.countP P ≤ 1 := by
  refine countP_le_one fun t u pc pc' ht hu hpc hpc' => ?_
  rcases h.running_or_waits ht with ht | ⟨pc0, c, m', h0⟩
  · rcases h.running_or_waits hu with hu | ⟨pc0, c, m', h0⟩
    · exact h.unique ht (hP pc hpc) hu (hP pc' hpc')
    · rw [hwait pc0 c m' pc' h0] at hpc'
      cases hpc'
  · rw [hwait pc0 c m' pc h0] at hpc
    cases hpc

end
end Pthread
