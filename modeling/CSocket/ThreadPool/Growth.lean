import CSocket.ThreadPool.Slots
import CSocket.ThreadPool.Wakeup
import CSocket.ThreadPool.Teardown
import Mathlib.Data.List.Induction
import Mathlib.Data.List.Nodup
/-!
# Growing back

The growth loop looks for slots by asking `pthread_kill` about the threads in them.
A worker that `threadpool_create` started is detached, and its slot is found free
once it has left; one that `adjust_thread` started is joinable and never joined, and
keeps its slot for good. `grown_iff`: the loop falls short exactly by those slots.
-/
namespace CSocket.ThreadPool
open Pthread

/-! ## The growth loop -/

/-- The manager is in the loop, and probes threads that have really terminated. -/
def Looping (min : Nat) (s : PoolState) (a : PoolAct) : Prop :=
  Exact min s a ∧ (s.pcs[min]?).any Pc.growing = true

instance (min : Nat) (s : PoolState) (a : PoolAct) : Decidable (Looping min s a) := instDecidableAnd

/-- The loop from `s` on, and its end; the other threads run in between. -/
def LoopRun (min : Nat) (s s' : PoolState) : Prop :=
  Lts.Reach (Lts.guarded poolStep (Looping min)) s s' ∧ ∃ l b, s'.pcs[min]? = some (.adjust (.grown l b))

/-- What the loop should do: create the workers that are missing, at most 10 of them,
and store them in vacant slots. -/
structure Grown (max : Nat) (s s' : PoolState) : Prop where
  created : ((roles s').countP Role.isWorker : Int) =
    (roles s).countP Role.isWorker + Min.min 10 (max - s.shared.liveThrNum)
  stored : ∀ t, s.threads.length ≤ t → (roles s')[t]? = some .running → ∃ i < max, slot s' i = t + 1
  vacant : ∀ i, slot s' i ≠ slot s i → Vacant s i

/-- A worker in this slot has left, and will be found alive. -/
def lostSlot (min : Nat) (s : PoolState) (i : Nat) : Bool := match slot s i with
  | 0 => false
  | t + 1 => (roles s)[t]? = some .terminated && min ≤ t

def lost (min max : Nat) (s : PoolState) : Nat := (List.range max).countP (lostSlot min s)

/-- The loop's test finds the slot free. -/
def freeSlot (min : Nat) (s : PoolState) (i : Nat) : Bool := match slot s i with
  | 0 => true
  | t + 1 => !isThreadAlive min s t

section
variable {min max : Nat} {s s' : PoolState} {t i : Nat}

/-! ## One pass of the loop -/

/-- The loop that began in `s` has looked at the slots before `i` and filled the free
ones, `add` of them. -/
structure Filled (min : Nat) (s u : PoolState) (i add : Nat) : Prop where
  le : s.threads.length ≤ u.threads.length
  old : ∀ t < s.threads.length, (roles u)[t]? = (roles s)[t]?
  kept : ∀ j, slot u j ≠ slot s j → j < i ∧ freeSlot min s j = true
  stored : ∀ t, s.threads.length ≤ t → (roles u)[t]? = some .running → ∃ j < i, slot u j = t + 1
  workers : (roles u).countP Role.isWorker = (roles s).countP Role.isWorker + add
  count : add = (List.range i).countP (freeSlot min s)

theorem Filled.refl (s : PoolState) : Filled min s s 0 0 := by
  refine ⟨Nat.le_refl _, fun _ _ => rfl, fun j hne => absurd rfl hne, fun t hle ht => ?_, rfl, rfl⟩
  rw [List.getElem?_eq_none (by simpa using hle)] at ht
  cases ht

section
variable {u u' : PoolState} {add : Nat}

theorem Filled.slot_eq (h : Filled min s u i add) : slot u i = slot s i :=
  Classical.byContradiction fun hne => Nat.lt_irrefl i (h.kept i hne).1

/-- The slots stay, and at most a producer arrives. -/
theorem Filled.congr (h : Filled min s u i add) (hr : roles u' = roles u ∨ roles u' = roles u ++ [.other])
    (hslot : u'.shared.threads = u.shared.threads) : Filled min s u' i add := by
  have hs := slot_congr hslot
  rcases hr with hr | hr
  · have hlen : u'.threads.length = u.threads.length := by rw [← length_roles, hr, length_roles]
    refine ⟨hlen ▸ h.le, hr ▸ h.old, fun j hne => ?_, fun t hle ht => ?_, hr ▸ h.workers, h.count⟩
    · rw [hs] at hne
      exact h.kept j hne
    · obtain ⟨j, hj, he⟩ := h.stored t hle (hr ▸ ht)
      exact ⟨j, hj, (hs j).trans he⟩
  · have hlen : u'.threads.length = u.threads.length + 1 := by rw [← length_roles, hr, List.length_append, length_roles]; rfl
    refine ⟨by have := h.le; omega, fun t hlt => ?_, fun j hne => ?_, fun t hle ht => ?_, ?_, h.count⟩
    · rw [hr, List.getElem?_append_left (by have := h.le; simp; omega)]
      exact h.old t hlt
    · rw [hs] at hne
      exact h.kept j hne
    · rw [hr] at ht
      rcases append_cases ht with ht | ⟨-, he⟩
      · obtain ⟨j, hj, he⟩ := h.stored t hle ht
        exact ⟨j, hj, (hs j).trans he⟩
      · cases he
    · rw [hr, List.countP_append, h.workers]
      rfl

/-- A slot that is not free is passed over. -/
theorem Filled.skip (h : Filled min s u i add) (hfree : freeSlot min s i = false) : Filled min s u (i + 1) add := by
  refine ⟨h.le, h.old, fun j hne => ?_, fun t hle ht => ?_, h.workers, ?_⟩
  · exact ⟨Nat.lt_succ_of_lt (h.kept j hne).1, (h.kept j hne).2⟩
  · obtain ⟨j, hj, he⟩ := h.stored t hle ht
    exact ⟨j, Nat.lt_succ_of_lt hj, he⟩
  · rw [List.range_succ, List.countP_append, List.countP_singleton, hfree]
    exact h.count

/-- A free slot is filled. -/
theorem Filled.fill (h : Filled min s u i add) (hfree : freeSlot min s i = true) (hi : i < u.shared.threads.length)
    (hr : roles u' = roles u ++ [.running])
    (hslot : u'.shared.threads = u.shared.threads.set i (u.threads.length + 1)) : Filled min s u' (i + 1) (add + 1) := by
  have hset (j : Nat) : slot u' j = if j = i then u.threads.length + 1 else slot u j := by
    rw [slot, hslot]
    exact slot_set hi
  have hlen : u'.threads.length = u.threads.length + 1 := by
    rw [← length_roles, hr, List.length_append, length_roles]
    rfl
  have hle := h.le
  refine ⟨by omega, fun t hlt => ?_, fun j hne => ?_, fun t hle' ht => ?_, ?_, ?_⟩
  · rw [hr, List.getElem?_append_left (by simp; omega)]
    exact h.old t hlt
  · rw [hset] at hne
    split at hne
    case isTrue he =>
      subst he
      exact ⟨Nat.lt_succ_self j, hfree⟩
    case isFalse => exact ⟨Nat.lt_succ_of_lt (h.kept j hne).1, (h.kept j hne).2⟩
  · rw [hr] at ht
    rcases append_cases ht with ht | ⟨rfl, -⟩
    · obtain ⟨j, hj, he⟩ := h.stored t hle' ht
      exact ⟨j, Nat.lt_succ_of_lt hj, by rw [hset, if_neg (Nat.ne_of_lt hj), he]⟩
    · exact ⟨i, Nat.lt_succ_self i, by rw [hset, if_pos rfl, length_roles]⟩
  · rw [hr, List.countP_append, h.workers]
    rfl
  · rw [List.range_succ, List.countP_append, List.countP_singleton, hfree, if_pos rfl, ← h.count]

/-- The manager is in the loop, or at its end. `n` of the new workers are counted. -/
structure Pass (min max : Nat) (s u : PoolState) (i add n : Nat) : Prop where
  filled : Filled min s u i add
  live : u.shared.liveThrNum = s.shared.liveThrNum + n
  add_le : add ≤ 10
  i_le : i ≤ max

def AdjustPc.At (min max : Nat) (s u : PoolState) : AdjustPc → Prop
  | .grow i add _ _ => Pass min max s u i add add
  | .create i add _ _ => Pass min max s u i add add ∧ i < max ∧ add < 10 ∧ freeSlot min s i = true
  | .created i add _ _ => Pass min max s u (i + 1) (add + 1) add
  | .grown _ _ => ∃ i add, Pass min max s u i add add ∧ (i = max ∨ add = 10 ∨ u.shared.liveThrNum = max)
  | _ => False

/-- The loop's test says what the slots were at its beginning. -/
theorem Filled.probe (h : Filled min s u i add) (hslots : Slots min max s) {x : Bool}
    (hx : ∀ t, slot u i = t + 1 → x = isThreadAlive min u t) :
    freeSlot min s i = true ↔ slot u i = 0 ∨ x = false := by
  rw [h.slot_eq] at hx ⊢
  unfold freeSlot
  split
  case h_1 h0 => simp [h0]
  case h_2 t ht =>
    have halive : isThreadAlive min u t = isThreadAlive min s t := by
      rw [isThreadAlive, isThreadAlive, h.old t (hslots.lt ht)]
    rw [hx t ht, halive, ht]
    simp

theorem growing_holds {pc : Pc} (h : pc.growing = true) : pc.holds .lock = true := by
  cases pc with
  | adjust pc => cases pc <;> first | rfl | cases h
  | _ => cases h

/-- While the manager is in its loop, no other thread changes a role or a slot. -/
theorem bystander (hslots : Slots min max u) (hexcl : Exclusive code Pc.holds u) {pc : AdjustPc}
    (hm : u.pcs[min]? = some (.adjust pc)) (hg : (Pc.adjust pc).growing = true) {a : PoolAct}
    (hs : Step code start u a u') (hne : a.actor ≠ some min) :
    u'.pcs[min]? = some (.adjust pc) ∧ u'.shared.threads = u.shared.threads ∧
      u'.shared.liveThrNum = u.shared.liveThrNum ∧ (roles u' = roles u ∨ roles u' = roles u ++ [.other]) := by
  have hrun := manager_running hexcl hm
  have hunheld {t : Nat} {pc' : Pc} (ht : u.threads[t]? = some (.running pc')) (htm : t ≠ min) : pc'.holds .lock = false := by
    cases hl : pc'.holds .lock with
    | false => rfl
    | true => exact absurd (hexcl.unique ht hl hrun (growing_holds hg)) htm
  refine ⟨?_, ?_, ?_, ?_⟩
  · exact hs.other_pc hne hm
  · cases turn hs with
    | same hr hslot => exact hslot
    | ends ht hrun hl hr hslot => exact hslot
    | create ht hr hslot hpc =>
      -- only the manager creates
      exact absurd (congrArg some (hslots.manager _ (roles_getElem? (State.pcs_getElem? ht)))) hne
    | arrive hr hslot => exact hslot
  · cases hs.effect with
    | quiet hpcs hd => rw [hd]
    | move ha ht hg hpcs hd => rw [hd]
    | data ha ht hc hpcs hd =>
      subst ha
      rw [hd]
      exact (live_of_unlocked hc (hunheld ht fun he => hne (congrArg some he)) _ _ _).1
    | create ha ht hc hpcs hd =>
      obtain ⟨threads, hf⟩ := (creation hc).same u.threads.length u.shared
      rw [hd, hf]
    | arrive hp hpcs hd => rw [hd]
  · cases turn hs with
    | same hr hslot => exact .inl hr
    | ends ht hrun hl hr hslot =>
      rw [hunheld ht fun he => hne (congrArg some he)] at hl
      cases hl
    | create ht hr hslot hpc =>
      exact absurd (congrArg some (hslots.manager _ (roles_getElem? (State.pcs_getElem? ht)))) hne
    | arrive hr hslot => exact .inr hr

theorem Pass.congr {n : Nat} (h : Pass min max s u i add n) (hr : roles u' = roles u ∨ roles u' = roles u ++ [.other])
    (hslot : u'.shared.threads = u.shared.threads) (hlive : u'.shared.liveThrNum = u.shared.liveThrNum) :
    Pass min max s u' i add n :=
  ⟨h.filled.congr hr hslot, hlive.trans h.live, h.add_le, h.i_le⟩

theorem AdjustPc.At.congr {pc : AdjustPc} (h : pc.At min max s u)
    (hr : roles u' = roles u ∨ roles u' = roles u ++ [.other]) (hslot : u'.shared.threads = u.shared.threads)
    (hlive : u'.shared.liveThrNum = u.shared.liveThrNum) : pc.At min max s u' := by
  cases pc with
  | grow => exact Pass.congr h hr hslot hlive
  | create => exact ⟨h.1.congr hr hslot hlive, h.2⟩
  | created => exact Pass.congr h hr hslot hlive
  | grown =>
    obtain ⟨i, add, hpass, hend⟩ := h
    exact ⟨i, add, hpass.congr hr hslot hlive, hlive ▸ hend⟩
  | _ => exact h

/-- The manager's test. -/
theorem grow_step (hslots : Slots min max s) {x : Bool} {w add : Nat} {l b : Int}
    (hB : u.shared.maxThrNum = max) (hle : u.shared.liveThrNum ≤ max)
    (hm : u.threads[min]? = some (.running (.adjust (.grow i add l b)))) (hpass : Pass min max s u i add add)
    (hx : Exact min u (.run min x w)) (hs : poolStep u (.run min x w) = some u') :
    ∃ pc : AdjustPc, u'.pcs[min]? = some (.adjust pc) ∧ pc.At min max s u' := by
  have hlt : min < u.threads.length := (List.getElem?_eq_some_iff.mp hm).1
  have hprobe := hpass.filled.probe hslots fun t ht => hx (t, x) (by simp [probe, hm, ht])
  obtain rfl := Option.some.inj (hs.symm.trans (step_data hm rfl))
  have hpos (k : AdjustPc) : (u.setThread min (.running (.adjust k))).pcs[min]? = some (.adjust k) := by
    have hk : (u.setThread min (.running (.adjust k))).threads[min]? = some (.running (.adjust k)) :=
      List.getElem?_set_self hlt
    exact State.pcs_getElem? hk
  have hroles (k : AdjustPc) : roles (u.setThread min (.running (.adjust k))) = roles u := by
    rw [roles, State.pcs, State.setThread, map_pc_set]
    exact roles_set (State.pcs_getElem? hm) rfl
  split
  case isTrue hroom =>
    obtain ⟨hi, hadd, -⟩ := hroom
    have hi : i < max := by
      rw [hB] at hi
      exact Int.ofNat_lt.mp hi
    split
    case isTrue hfree =>
      -- the slot is vacant or its thread is dead
      exact ⟨_, hpos _, hpass.congr (.inl (hroles _)) rfl rfl, hi, hadd, hprobe.mpr hfree⟩
    case isFalse hused =>
      have hskip : freeSlot min s i = false := by
        rw [← Bool.not_eq_true, hprobe]
        exact hused
      exact ⟨_, hpos _, (hpass.filled.skip hskip).congr (.inl (hroles _)) rfl, hpass.live, hpass.add_le, hi⟩
  case isFalse hroom =>
    -- the loop ends at one of its three bounds
    refine ⟨_, hpos _, i, add, hpass.congr (.inl (hroles _)) rfl rfl, ?_⟩
    have h1 := hpass.i_le
    have h2 := hpass.add_le
    rw [hB] at hroom
    unfold DEFAULT_THREAD_VARY at hroom
    show i = max ∨ add = 10 ∨ u.shared.liveThrNum = max
    omega

/-- `pthread_create` into a free slot. -/
theorem create_step (hlen : u.shared.threads.length = max) {x : Bool} {w add : Nat} {l b : Int}
    (hm : u.threads[min]? = some (.running (.adjust (.create i add l b)))) (hpass : Pass min max s u i add add)
    (hi : i < max) (hadd : add < 10) (hfree : freeSlot min s i = true) (hs : poolStep u (.run min x w) = some u') :
    u'.pcs[min]? = some (.adjust (.created i add l b)) ∧ Pass min max s u' (i + 1) (add + 1) add := by
  have htpc : u.pcs[min]? = some (.adjust (.create i add l b)) := State.pcs_getElem? hm
  have hlt : min < u.pcs.length := (List.getElem?_eq_some_iff.mp htpc).1
  have hu' := Option.some.inj (hs.symm.trans (step_create hm rfl))
  have hpcs : u'.pcs = u.pcs.set min (.adjust (.created i add l b)) ++ [.worker .lock] := by
    rw [hu', State.pcs, List.map_append, map_pc_set]
    rfl
  have hroles : roles u' = roles u ++ [.running] := by
    rw [roles, hpcs, List.map_append, roles_set (k := .adjust (.created i add l b)) htpc rfl]
    rfl
  refine ⟨?_, hpass.filled.fill hfree (hlen.symm ▸ hi) hroles (by rw [hu']), by rw [hu']; exact hpass.live, hadd, hi⟩
  rw [hpcs, List.getElem?_append_left (by simpa using hlt), List.getElem?_set_self hlt]

/-- The new worker is counted. -/
theorem created_step {x : Bool} {w add : Nat} {l b : Int}
    (hm : u.threads[min]? = some (.running (.adjust (.created i add l b)))) (hpass : Pass min max s u (i + 1) (add + 1) add)
    (hs : poolStep u (.run min x w) = some u') :
    u'.pcs[min]? = some (.adjust (.grow (i + 1) (add + 1) l b)) ∧ Pass min max s u' (i + 1) (add + 1) (add + 1) := by
  have hlt : min < u.threads.length := (List.getElem?_eq_some_iff.mp hm).1
  obtain rfl := Option.some.inj (hs.symm.trans (step_data hm rfl))
  refine ⟨?_, hpass.filled.congr (.inl ?_) rfl, ?_, hpass.add_le, hpass.i_le⟩
  · simp [State.pcs, State.setThread, hlt]
  · rw [roles, State.pcs, State.setThread, map_pc_set]
    exact roles_set (State.pcs_getElem? hm) rfl
  · show u.shared.liveThrNum + 1 = s.shared.liveThrNum + (add + 1 : Nat)
    rw [hpass.live]
    omega

/-- What holds from the loop's beginning in `s` to its end. -/
structure InLoop (min max : Nat) (s u : PoolState) : Prop where
  slots : Slots min max u
  asserted : Asserted code Pc.holds (Bounded min max) (fun _ pc d => pc.Room d) u
  position : ∃ pc : AdjustPc, u.pcs[min]? = some (.adjust pc) ∧ pc.At min max s u

theorem InLoop.step (hslots : Slots min max s) (h : InLoop min max s u) {a : PoolAct} (hok : Looping min u a)
    (hs : poolStep u a = some u') : InLoop min max s u' := by
  have hstep := step_cases hs
  refine ⟨h.slots.step h.asserted.global.maxEq hok.1.sound hstep, (bounded_outline min max).asserted h.asserted hstep, ?_⟩
  obtain ⟨pc, hm, hat⟩ := h.position
  obtain ⟨hexact, hgrow⟩ := hok
  rw [hm] at hgrow
  have hgrow : (Pc.adjust pc).growing = true := hgrow
  by_cases hact : a.actor = some min
  · have hrun := manager_running h.asserted.exclusive hm
    cases a with
    | run t x w =>
      obtain rfl : t = min := Option.some.inj hact
      cases pc with
      | grow i add l b =>
        exact grow_step hslots h.asserted.global.maxEq h.asserted.global.le_max hrun hat hexact hs
      | create i add l b =>
        obtain ⟨hpass, hi, hadd, hfree⟩ := hat
        exact ⟨_, create_step h.slots.length hrun hpass hi hadd hfree hs⟩
      | created i add l b => exact ⟨_, created_step hrun hat hs⟩
      | _ => cases hgrow
    | _ => cases hact
  · obtain ⟨hm', hslot, hlive, hr⟩ := bystander h.slots h.asserted.exclusive hm hgrow hstep hact
    exact ⟨pc, hm', hat.congr hr hslot hlive⟩

/-! ## Counting the slots -/

theorem countP_getElem? (l : List Role) (r : Role) :
    l.countP (· = r) = (List.range l.length).countP fun t => l[t]? = some r := by
  induction l using List.reverseRecOn with
  | nil => rfl
  | append_singleton l x ih =>
    have hold : (List.range l.length).countP (fun t => (l ++ [x])[t]? = some r) =
        (List.range l.length).countP fun t => l[t]? = some r := by
      apply List.countP_congr
      intro t ht
      rw [List.getElem?_append_left (List.mem_range.mp ht)]
    rw [List.length_append, List.length_singleton, List.range_succ, List.countP_append, List.countP_append, hold, ← ih]
    simp [List.countP_singleton]

/-- Of three properties everything has exactly one. -/
theorem countP_trichotomy {l : List Nat} {p q r : Nat → Bool}
    (h : ∀ x ∈ l, (p x).toNat + (q x).toNat + (r x).toNat = 1) : l.countP p + l.countP q + l.countP r = l.length := by
  induction l with
  | nil => rfl
  | cons x l ih =>
    have hx := h x (List.mem_cons_self ..)
    have hl := ih fun y hy => h y (List.mem_cons_of_mem _ hy)
    simp only [List.countP_cons, List.length_cons]
    revert hx
    cases p x <;> cases q x <;> cases r x <;> simp <;> omega

/-- A running worker has this slot. -/
def usedSlot (s : PoolState) (i : Nat) : Bool := match slot s i with
  | 0 => false
  | t + 1 => (roles s)[t]? = some .running

theorem Slots.used (h : Slots min max s) :
    (List.range max).countP (usedSlot s) = (roles s).countP (· = .running) := by
  rw [countP_getElem?, List.countP_eq_length_filter, List.countP_eq_length_filter, ← List.length_map (slot s)]
  refine Eq.trans ?_ (List.length_map Nat.succ)
  have hused {i : Nat} (hi : usedSlot s i = true) : ∃ t, slot s i = t + 1 ∧ (roles s)[t]? = some .running := by
    unfold usedSlot at hi
    split at hi
    case h_1 => cases hi
    case h_2 t ht => exact ⟨t, ht, of_decide_eq_true hi⟩
  apply List.Perm.length_eq
  rw [List.perm_ext_iff_of_nodup]
  · intro x
    simp only [List.mem_map, List.mem_filter, List.mem_range]
    constructor
    · rintro ⟨i, ⟨-, hi⟩, rfl⟩
      obtain ⟨t, ht, hr⟩ := hused hi
      exact ⟨t, ⟨(List.getElem?_eq_some_iff.mp hr).1, decide_eq_true hr⟩, ht.symm⟩
    · rintro ⟨t, ⟨-, hr⟩, rfl⟩
      have hr : (roles s)[t]? = some .running := of_decide_eq_true hr
      obtain ⟨i, hi⟩ := h.running t hr
      refine ⟨i, ⟨?_, by simp [usedSlot, hi, hr]⟩, hi⟩
      refine Classical.byContradiction fun hge => ?_
      rw [slot, List.getD_eq_getElem?_getD, List.getElem?_eq_none (by rw [h.length]; omega)] at hi
      cases hi
  · refine (List.nodup_range.filter _).map_on ?_
    intro i hi j hj he
    obtain ⟨t, ht, -⟩ := hused (List.mem_filter.mp hi).2
    exact h.inj i j t ht (he ▸ ht)
  · exact (List.nodup_range.filter _).map_on fun t _ u _ he => Nat.succ.inj he

/-- A slot is free, lost or in use. -/
theorem Slots.count (h : Slots min max s) :
    (List.range max).countP (freeSlot min s) + lost min max s + (roles s).countP (· = .running) = max := by
  rw [← h.used, lost, countP_trichotomy, List.length_range]
  intro i _
  cases hi : slot s i with
  | zero => simp [freeSlot, lostSlot, usedSlot, hi]
  | succ t =>
    rcases h.worker i t hi with hr | hr
    · simp [freeSlot, lostSlot, usedSlot, hi, hr, isThreadAlive]
    · by_cases hle : min ≤ t <;> simp [freeSlot, lostSlot, usedSlot, hi, hr, isThreadAlive, hle]

/-- Before shutdown, while the manager tests a slot, `live_thr_num` counts the running
workers. -/
theorem Slots.live (h : Slots min max s) (hexcl : Exclusive code Pc.holds s) (hcounts : Counts s)
    (hset : ∀ (t : Nat) pc, s.pcs[t]? = some pc → pc.Settled s.shared) (hdown : s.shared.shutdown = false)
    {l b : Int} (hm : s.pcs[min]? = some (.adjust (.grow i add l b))) :
    s.shared.liveThrNum = (roles s).countP (· = .running) := by
  have hcreated : s.pcs.countP Pc.created = 0 := by
    refine List.countP_eq_zero.mpr fun pc hpc hc => ?_
    obtain ⟨t, ht⟩ := List.getElem?_of_mem hpc
    cases pc with
    | adjust pc =>
      obtain rfl := h.manager t (roles_getElem? ht)
      rw [hm] at ht
      cases ht
      cases hc
    | _ => cases hc
  have hlive : s.pcs.countP Pc.live = (roles s).countP (· = .running) := by
    rw [roles, List.countP_map]
    refine List.countP_congr fun pc hpc => ?_
    obtain ⟨t, ht⟩ := List.getElem?_of_mem hpc
    cases pc with
    | worker pc =>
      cases pc with
      | leave =>
        -- it would hold `lock`
        have hne : min ≠ t := by
          rintro rfl
          rw [hm] at ht
          cases ht
        rcases hexcl.apart (manager_running hexcl hm) ht hne with hno | ⟨pc0, c, m, hw⟩
        · exact absurd ⟨rfl, rfl⟩ (hno .lock)
        · rcases waits hw with ⟨-, -, he⟩ | ⟨task, -, -, he⟩ <;> cases he
      | ended =>
        have hd : s.shared.shutdown = true := hset t _ ht
        rw [hdown] at hd
        cases hd
      | _ => exact iff_of_eq rfl
    | _ => exact iff_of_eq rfl
  have hcount := hcounts.live
  rw [hcreated, hlive] at hcount
  omega

/-! ## The theorem -/

/-- The loop creates as many workers as there are free slots for. -/
theorem InLoop.grown (hslots : Slots min max s) (hlive : s.shared.liveThrNum = (roles s).countP (· = .running))
    (h : InLoop min max s u) {l b : Int} (hend : u.pcs[min]? = some (.adjust (.grown l b))) :
    ((roles u).countP Role.isWorker : Int) = (roles s).countP Role.isWorker +
      Min.min 10 (max - s.shared.liveThrNum - lost min max s) ∧
    (∀ t, s.threads.length ≤ t → (roles u)[t]? = some .running → ∃ i < max, slot u i = t + 1) ∧
    ∀ i, slot u i ≠ slot s i → Vacant s i := by
  obtain ⟨pc, hm, hat⟩ := h.position
  rw [hend] at hm
  cases hm
  obtain ⟨i, add, hpass, hend⟩ := hat
  have hcount := hslots.count
  have hle := hpass.i_le
  have hmono : add ≤ (List.range max).countP (freeSlot min s) := by
    rw [hpass.filled.count]
    exact (List.range_sublist.mpr hle).countP_le
  refine ⟨?_, fun t hlt ht => ?_, fun j hne t ht => ?_⟩
  · have hadd : add ≤ 10 := hpass.add_le
    have hl := hpass.live
    have hB := h.asserted.global.le_max
    rw [hpass.filled.workers]
    rcases hend with rfl | rfl | hfull
    · rw [← hpass.filled.count] at hcount
      omega
    · omega
    · omega
  · obtain ⟨j, hj, he⟩ := hpass.filled.stored t hlt ht
    exact ⟨j, Nat.lt_of_lt_of_le hj hle, he⟩
  · have hfree := (hpass.filled.kept j hne).2
    simp only [freeSlot, ht, isThreadAlive, Bool.not_eq_true', Bool.or_eq_false_iff, decide_eq_false_iff_not,
      not_not] at hfree
    exact hfree.1

theorem LoopRun.head {a : PoolAct} (hok : Looping min s a) (hs : poolStep s a = some u) (h : LoopRun min u u') :
    LoopRun min s u' :=
  ⟨.head ((if_pos hok).trans hs) h.1, h.2⟩

/-- The answer of the next probe. -/
def answer (min : Nat) (s : PoolState) (i : Nat) : Bool := match slot s i with
  | 0 => true
  | t + 1 => isThreadAlive min s t

theorem looping_grow {add : Nat} {l b : Int} (hm : s.threads[min]? = some (.running (.adjust (.grow i add l b)))) :
    Looping min s (.run min (answer min s i) 0) := by
  constructor
  · intro p hp
    simp only [probe, hm] at hp
    unfold answer at hp
    cases hi : slot s i with
    | zero =>
      simp only [hi] at hp
      cases hp
    | succ t =>
      simp only [hi] at hp
      cases hp
      rfl
  · rw [State.pcs_getElem? hm]
    rfl

theorem looping_of {pc : AdjustPc} (hm : s.threads[min]? = some (.running (.adjust pc)))
    (hg : (Pc.adjust pc).growing = true) (hne : ∀ i add l b, pc ≠ .grow i add l b) :
    Looping min s (.run min true 0) := by
  constructor
  · intro p hp
    simp only [probe, hm] at hp
    split at hp
    · rename_i i add l b he
      cases he
      exact absurd rfl (hne i add l b)
    · cases hp
  · rw [State.pcs_getElem? hm]
    exact hg

/-- Where the test leads. -/
theorem grow_next {add : Nat} {l b : Int} (hm : s.threads[min]? = some (.running (.adjust (.grow i add l b)))) :
    ∃ u pc, poolStep s (.run min (answer min s i) 0) = some u ∧ u.shared = s.shared ∧
      u.threads[min]? = some (.running (.adjust pc)) ∧
      (pc = .grown l b ∨ (i : Int) < s.shared.maxThrNum ∧ (pc = .create i add l b ∨ pc = .grow (i + 1) add l b)) := by
  obtain ⟨u, hu, hd, hpos, -⟩ := (exists_step_data hm rfl (answer min s i) :
    ∃ u, poolStep s (.run min (answer min s i) 0) = some u ∧ _)
  split at hpos
  case isTrue hroom =>
    rw [if_pos hroom] at hd
    split at hpos
    case isTrue hfree =>
      rw [if_pos hfree] at hd
      exact ⟨u, _, hu, hd, hpos, .inr ⟨hroom.1, .inl rfl⟩⟩
    case isFalse hused =>
      rw [if_neg hused] at hd
      exact ⟨u, _, hu, hd, hpos, .inr ⟨hroom.1, .inr rfl⟩⟩
  case isFalse hroom =>
    rw [if_neg hroom] at hd
    exact ⟨u, _, hu, hd, hpos, .inl rfl⟩

theorem create_next {add : Nat} {l b : Int} (hm : s.threads[min]? = some (.running (.adjust (.create i add l b)))) :
    ∃ u, poolStep s (.run min true 0) = some u ∧ u.shared.maxThrNum = s.shared.maxThrNum ∧
      u.threads[min]? = some (.running (.adjust (.created i add l b))) := by
  have hlt : min < s.threads.length := (List.getElem?_eq_some_iff.mp hm).1
  refine ⟨_, step_create hm rfl, rfl, ?_⟩
  exact (List.getElem?_append_left (by simpa using hlt)).trans (List.getElem?_set_self hlt)

theorem created_next {add : Nat} {l b : Int} (hm : s.threads[min]? = some (.running (.adjust (.created i add l b)))) :
    ∃ u, poolStep s (.run min true 0) = some u ∧ u.shared.maxThrNum = s.shared.maxThrNum ∧
      u.threads[min]? = some (.running (.adjust (.grow (i + 1) (add + 1) l b))) := by
  have hlt : min < s.threads.length := (List.getElem?_eq_some_iff.mp hm).1
  exact ⟨_, step_assign hm rfl, rfl, List.getElem?_set_self hlt⟩

/-- The manager's steps alone take it through the loop. -/
theorem loop_ends {n : Nat} {l b : Int} {add : Nat} (hn : (s.shared.maxThrNum - i).toNat = n)
    (hm : s.threads[min]? = some (.running (.adjust (.grow i add l b)))) : ∃ s', LoopRun min s s' := by
  induction n generalizing s i add with
  | zero =>
    obtain ⟨u, pc, hu, -, hpos, rfl | ⟨hlt, -⟩⟩ := grow_next hm
    · exact ⟨u, .head (looping_grow hm) hu ⟨.refl u, l, b, State.pcs_getElem? hpos⟩⟩
    · omega
  | succ n ih =>
    obtain ⟨u, pc, hu, hd, hpos, rfl | ⟨hlt, rfl | rfl⟩⟩ := grow_next hm
    · exact ⟨u, .head (looping_grow hm) hu ⟨.refl u, l, b, State.pcs_getElem? hpos⟩⟩
    · -- `pthread_create`, and the count
      obtain ⟨u1, hu1, hmax1, hpos1⟩ := create_next hpos
      obtain ⟨u2, hu2, hmax2, hpos2⟩ := created_next hpos1
      obtain ⟨s', hloop⟩ := ih (by rw [hmax2, hmax1, hd]; omega) hpos2
      have h1 : Looping min u (.run min true 0) := looping_of hpos rfl fun _ _ _ _ he => by cases he
      have h2 : Looping min u1 (.run min true 0) := looping_of hpos1 rfl fun _ _ _ _ he => by cases he
      exact ⟨s', .head (looping_grow hm) hu (.head h1 hu1 (.head h2 hu2 hloop))⟩
    · obtain ⟨s', hloop⟩ := ih (by rw [hd]; omega) hpos
      exact ⟨s', .head (looping_grow hm) hu hloop⟩

/-- The growth loop ends, and it creates the workers that are missing, at most 10 of
them, in slots of no running worker, if and only if the slots that a worker left and
that are not found free are none, or leave room for 10. -/
theorem grown_iff {qmax : Nat} {raw : Nat → ThreadpoolTask} {l b : Int} (hle : min ≤ max)
    (hr : Lts.Reach (probedStep min) (ThreadPool.create min max qmax raw) s)
    (hm : s.pcs[min]? = some (.adjust (.grow 0 0 l b))) (hdown : s.shared.shutdown = false) :
    (∃ s', LoopRun min s s') ∧ ∀ s', LoopRun min s s' →
      (Grown max s s' ↔ lost min max s = 0 ∨ lost min max s + 10 ≤ max - s.shared.liveThrNum) := by
  obtain ⟨hslots, ha⟩ := slots hle hr
  have hset := settled_outline.reach settled_start hr.of_guarded
  have hlive := hslots.live ha.exclusive (accounting hle ⟨raw, hr.of_guarded⟩).2 hset.atPc hdown hm
  refine ⟨loop_ends rfl (manager_running ha.exclusive hm), fun s' hloop => ?_⟩
  obtain ⟨hreach, l', b', hend⟩ := hloop
  have hstart : InLoop min max s s := ⟨hslots, ha, _, hm, .refl s, (Int.add_zero _).symm, Nat.zero_le _, Nat.zero_le _⟩
  have hinv : InLoop min max s s' := by
    apply hreach.invariant _ hstart
    intro u a u' hu hs
    obtain ⟨hok, hs⟩ := Option.ite_none_right_eq_some.mp hs
    exact hu.step hslots hok hs
  obtain ⟨hcreated, hstored, hvacant⟩ := hinv.grown hslots hlive hend
  have hcount := hslots.count
  constructor
  · intro hg
    have hg := hg.created
    omega
  · intro hlost
    refine ⟨?_, hstored, hvacant⟩
    omega

end
end

/-- Ten producers, the first of them thread `t`. -/
def tenTasks (t : Nat) : List PoolAct := (List.range 10).flatMap fun i => .arrive (.add (.lock ⟨7, i⟩)) :: steps (t + i) 6

/-- To the first growth loop of a pool of one worker. -/
def growRun : List PoolAct := tenTasks 3 ++ steps 1 10

/-- The loop creates thread 13; the tasks are run, the manager shrinks the pool, and it
is that thread that leaves. Ten more tasks, and to the second growth loop. -/
def regrowRun : List PoolAct :=
  growRun ++ steps 1 6 ++ steps 0 130 ++ steps 13 3 ++ steps 1 14 ++ .run 1 true 13 :: steps 1 10 ++ steps 13 3 ++
    tenTasks 14 ++ steps 1 10

theorem grown_iff_first : ∃ s s' : PoolState, LoopRun 1 s s' ∧ Grown 2 s s' := by
  obtain ⟨s, hr, hs⟩ := Lts.Reach.of_run (probedStep 1) (ThreadPool.create 1 2 10 fun _ => {})
    (fun s => s.pcs[1]? = some (.adjust (.grow 0 0 1 0)) && s.shared.shutdown = false && lost 1 2 s = 0) growRun
    (by decide +kernel)
  simp only [Bool.and_eq_true, decide_eq_true_eq] at hs
  obtain ⟨⟨hm, hdown⟩, hlost⟩ := hs
  obtain ⟨⟨s', hloop⟩, hall⟩ := grown_iff (by decide) hr hm hdown
  exact ⟨s, s', hloop, (hall s' hloop).mpr (.inl hlost)⟩

/-- One worker is left of two, ten tasks wait, and the loop creates none. -/
theorem slot_lost : ∃ s s' : PoolState, Lts.Reach (probedStep 1) (ThreadPool.create 1 2 10 fun _ => {}) s ∧
    s.shared.shutdown = false ∧ s.shared.liveThrNum = 1 ∧ s.pcs[1]? = some (.adjust (.grow 0 0 1 0)) ∧
    LoopRun 1 s s' ∧ roles s' = roles s ∧ ¬ Grown 2 s s' := by
  obtain ⟨s, hr, hs⟩ := Lts.Reach.of_run (probedStep 1) (ThreadPool.create 1 2 10 fun _ => {})
    (fun s => s.shared.shutdown = false && s.shared.liveThrNum = 1 && s.pcs[1]? = some (.adjust (.grow 0 0 1 0)) &&
      (Lts.run (Lts.guarded poolStep (Looping 1)) (steps 1 3) s).any fun s' =>
        roles s' = roles s && s'.pcs[1]? = some (.adjust (.grown 1 0))) regrowRun (by decide +kernel)
  simp only [Bool.and_eq_true, decide_eq_true_eq, Option.any_eq_true] at hs
  obtain ⟨⟨⟨hdown, hlive⟩, hm⟩, s', hrun, hroles, hend⟩ := hs
  refine ⟨s, s', hr, hdown, hlive, hm, ⟨⟨_, hrun⟩, _, _, hend⟩, hroles, fun hg => ?_⟩
  have hcreated := hg.created
  rw [hroles, hlive] at hcreated
  omega

end CSocket.ThreadPool
